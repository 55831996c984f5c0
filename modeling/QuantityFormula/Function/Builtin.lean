import QuantityFormula.Function.Calculation

/-!
The table of functions that a formula can call: the calculations, and `IFERROR`, which
evaluates its arguments itself.
-/

set_option autoImplicit false

namespace QuantityFormula

inductive Category where
  | math
  | timber
  | conditional
  deriving DecidableEq, Repr

namespace Category

def word : Category → String
  | math => "Math"
  | timber => "Timber"
  | conditional => "Conditional"

def label : Category → String
  | math => "Math Functions"
  | timber => "Timber Calculations"
  | conditional => "Conditional Functions"

end Category

inductive Builtin where
  /-- A function of numbers, whose arguments are evaluated before the call. -/
  | calculation (calculation : Calculation)
  /-- Stands guard over its first argument: its second is evaluated only if the first fails. -/
  | ifError
  deriving DecidableEq, Repr

namespace Builtin

def all : List Builtin :=
  [.round, .ceil, .floor, .abs, .max, .min, .sqrt, .pow, .trussCount, .linearMeters,
    .boardFeet, .cubicMeters, .choose].map calculation ++ [ifError]

def name : Builtin → String
  | calculation c => c.name
  | ifError => "IFERROR"

def arity : Builtin → Arity
  | calculation c => c.arity
  | ifError => .exactly 2

def isGuarded : Builtin → Bool
  | calculation _ => false
  | ifError => true

def category : Builtin → Category
  | calculation .trussCount | calculation .linearMeters | calculation .boardFeet
  | calculation .cubicMeters =>
    .timber
  | calculation .choose | ifError => .conditional
  | calculation _ => .math

def parameters : Builtin → List String
  | calculation .round => ["value", "decimals"]
  | calculation .ceil | calculation .floor | calculation .abs | calculation .sqrt => ["value"]
  | calculation .max | calculation .min => ["value1", "value2", "..."]
  | calculation .pow => ["base", "exponent"]
  | calculation .trussCount => ["span", "spacing"]
  | calculation .linearMeters => ["pieces", "length"]
  | calculation .boardFeet | calculation .cubicMeters => ["pieces", "width", "thickness", "length"]
  | calculation .choose => ["condition", "trueValue", "falseValue"]
  | ifError => ["value", "errorValue"]

def signature (builtin : Builtin) : String :=
  builtin.name ++ "(" ++ ", ".intercalate builtin.parameters ++ ")"

def description : Builtin → String
  | calculation .round => "Round to specified decimal places"
  | calculation .ceil => "Round up to nearest integer"
  | calculation .floor => "Round down to nearest integer"
  | calculation .abs => "Absolute value"
  | calculation .max => "Maximum value"
  | calculation .min => "Minimum value"
  | calculation .sqrt => "Square root"
  | calculation .pow => "Power calculation"
  | calculation .trussCount => "Calculate number of trusses needed"
  | calculation .linearMeters => "Calculate total linear meters"
  | calculation .boardFeet => "Calculate board feet"
  | calculation .cubicMeters => "Calculate cubic meters"
  | calculation .choose => "Conditional calculation"
  | ifError => "Return error value if calculation fails"

def summary (builtin : Builtin) : String :=
  let most := match builtin.arity.most with
    | some count => s!"Some({count})"
    | none => "None"
  "FunctionDef \x7b name: \"" ++ builtin.name ++ "\", signature: \"" ++
    builtin.signature ++ "\", category: " ++
    builtin.category.word ++ ", arity: Arity \x7b min: " ++ toString builtin.arity.least ++
      ", max: " ++ most ++
    " \x7d \x7d"

def ofName? (name : Text) : Option Builtin :=
  all.find? fun builtin => builtin.name.toList == name

end Builtin

variable {m : Type → Type} [Monad m] [MonadExceptOf Fault m]

/-- The value of the first of two arguments or, if that has none, of the second. A limit on the
resolution of calls that was passed is not caught. -/
def ifError (evaluate : Text → m Float) : List Text → m Float
  | [value, fallback] =>
    tryCatch (evaluate value) fun
      | .tooComplex limit => throw (.tooComplex limit)
      | _ => evaluate fallback
  | arguments => throw (.argumentCount Builtin.ifError.name Builtin.ifError.arity arguments.length)

end QuantityFormula
