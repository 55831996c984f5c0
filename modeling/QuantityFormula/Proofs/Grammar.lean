import QuantityFormula.Proofs.Numeral
import QuantityFormula.Arithmetic.Expression
import QuantityFormula.Call

/-!
Formulas as trees of the infix grammar, the texts that write a tree, and its value by recursion.

A sum is a product, a product behind a minus, or a sum, a plus or a minus and a product. A product
is a power, or a product, one of the signs `*`, `/`, `%` and a power. A power is an atom, or an
atom, the sign `^` or `**` and a power. An atom is a leaf, a sum in parentheses, or a call: a name
and, in parentheses, sums with commas between them. What the leaves are is left open.
-/

set_option autoImplicit false

namespace QuantityFormula

structure FunctionName where
  first : Char
  rest : Text
  start : Head.isNameStart first = true
  following : ∀ c ∈ rest, Head.isNameChar c = true

def FunctionName.text (name : FunctionName) : Text :=
  name.first :: name.rest

def FunctionName.ofText (text : Text)
    (spelled : text.head?.any Head.isNameStart = true ∧ text.all Head.isNameChar = true) :
    FunctionName :=
  match text, spelled with
  | [], spelled => absurd spelled.1 Bool.false_ne_true
  | first :: rest, spelled =>
    ⟨first, rest, spelled.1,
      fun c member => List.all_eq_true.mp spelled.2 c (List.mem_cons_of_mem _ member)⟩

theorem FunctionName.exists_text {text : Text}
    (spelled : text.head?.any Head.isNameStart = true ∧ text.all Head.isNameChar = true) :
    ∃ name : FunctionName, name.text = text := by
  refine ⟨.ofText text spelled, ?_⟩
  cases text with
  | nil => cases spelled.1
  | cons first rest => rfl

def FunctionName.isGuarded (name : FunctionName) : Bool :=
  Call.isGuardedName name.text

inductive Kind where
  | sum
  | product
  | power
  | atom
  deriving DecidableEq

/-- A tree of the grammar. A minus without a left operand is a node of its own
above the product behind it. -/
inductive Phrase (Leaf : Type) : Kind → Type where
  | leaf (content : Leaf) : Phrase Leaf .atom
  | group (inner : Phrase Leaf .sum) : Phrase Leaf .atom
  | call (name : FunctionName) (arguments : List (Phrase Leaf .sum)) : Phrase Leaf .atom
  | base (atom : Phrase Leaf .atom) : Phrase Leaf .power
  | raise (root : Phrase Leaf .atom) (exponent : Phrase Leaf .power) : Phrase Leaf .power
  | factor (power : Phrase Leaf .power) : Phrase Leaf .product
  | scale (operator : Operator)
      (scales : operator = .multiply ∨ operator = .divide ∨ operator = .modulo)
      (left : Phrase Leaf .product) (right : Phrase Leaf .power) : Phrase Leaf .product
  | term (product : Phrase Leaf .product) : Phrase Leaf .sum
  | minus (product : Phrase Leaf .product) : Phrase Leaf .sum
  | add (operator : Operator) (adds : operator = .add ∨ operator = .subtract)
      (left : Phrase Leaf .sum) (right : Phrase Leaf .product) : Phrase Leaf .sum

abbrev Formula := Phrase Numeral .sum

/-! ### Texts of a tree -/

inductive Lexeme (Leaf : Type) where
  | leaf (content : Leaf)
  | operator (operator : Operator)
  | name (name : FunctionName)
  | leftParen
  | rightParen
  | comma

variable {Leaf : Type}

/-- A power has two spellings, everything else has one. -/
def Lexeme.IsSpelled (leafText : Leaf → Text) : Lexeme Leaf → Text → Prop
  | .leaf content, text => text = leafText content
  | .operator sign, text => text = [sign.symbol] ∨ sign = .power ∧ text = ['*', '*']
  | .name function, text => text = function.text
  | .leftParen, text => text = ['(']
  | .rightParen, text => text = [')']
  | .comma, text => text = [',']

/-- A text that spells some lexemes one after another, with any blanks before,
between and behind them. -/
inductive Written (leafText : Leaf → Text) : List (Lexeme Leaf) → Text → Prop where
  | nil {gap : Text} (blank : Text.isBlank gap = true) : Written leafText [] gap
  | cons {gap spelling rest : Text} {lexeme : Lexeme Leaf} {lexemes : List (Lexeme Leaf)}
      (blank : Text.isBlank gap = true) (spelled : lexeme.IsSpelled leafText spelling)
      (following : Written leafText lexemes rest) :
      Written leafText (lexeme :: lexemes) (gap ++ (spelling ++ rest))

namespace Phrase

def lexemes : {kind : Kind} → Phrase Leaf kind → List (Lexeme Leaf)
  | _, .leaf content => [.leaf content]
  | _, .group inner => .leftParen :: (inner.lexemes ++ [.rightParen])
  | _, .call name arguments =>
    .name name :: .leftParen ::
      ([.comma].intercalate (arguments.map fun argument => argument.lexemes) ++ [.rightParen])
  | _, .base atom => atom.lexemes
  | _, .raise root exponent => root.lexemes ++ .operator .power :: exponent.lexemes
  | _, .factor power => power.lexemes
  | _, .scale operator _ left right => left.lexemes ++ .operator operator :: right.lexemes
  | _, .term product => product.lexemes
  | _, .minus product => .operator .subtract :: product.lexemes
  | _, .add operator _ left right => left.lexemes ++ .operator operator :: right.lexemes

def callCount : {kind : Kind} → Phrase Leaf kind → Nat
  | _, .leaf _ => 0
  | _, .group inner => inner.callCount
  | _, .call _ arguments => 1 + (arguments.map fun argument => argument.callCount).sum
  | _, .base atom => atom.callCount
  | _, .raise root exponent => root.callCount + exponent.callCount
  | _, .factor power => power.callCount
  | _, .scale _ _ left right => left.callCount + right.callCount
  | _, .term product => product.callCount
  | _, .minus product => product.callCount
  | _, .add _ _ left right => left.callCount + right.callCount

/-- How many guarded calls of a tree stand inside of one another. -/
def guardDepth : {kind : Kind} → Phrase Leaf kind → Nat
  | _, .leaf _ => 0
  | _, .group inner => inner.guardDepth
  | _, .call name arguments =>
    (arguments.map fun argument => argument.guardDepth).foldr max 0 +
      if name.isGuarded then 1 else 0
  | _, .base atom => atom.guardDepth
  | _, .raise root exponent => max root.guardDepth exponent.guardDepth
  | _, .factor power => power.guardDepth
  | _, .scale _ _ left right => max left.guardDepth right.guardDepth
  | _, .term product => product.guardDepth
  | _, .minus product => product.guardDepth
  | _, .add _ _ left right => max left.guardDepth right.guardDepth

end Phrase

def Formula.IsWritten (formula : Formula) (text : Text) : Prop :=
  Written Numeral.text formula.lexemes text

/-! ### Value of a tree -/

def Operator.outcome (operator : Operator) (left right : Except Fault Float) :
    Except Fault Float := do
  operator.apply (← left) (← right)

/-- A function of numbers needs the values of all its arguments. The guard yields its first argument
and, if that fails, its second. -/
def Builtin.outcome : Builtin → List (Except Fault Float) → Except Fault Float
  | .calculation c, arguments => do c.apply (← arguments.mapM id)
  | .ifError, [.ok value, _] => .ok value
  | .ifError, [.error _, fallback] => fallback
  | .ifError, arguments =>
    .error (.argumentCount Builtin.ifError.name Builtin.ifError.arity arguments.length)

/-- Zero of either sign counts as the one without a sign. -/
def unsignedZero (value : Float) : Float :=
  if value == 0 then 0 else value

def callOutcome (name : Text) (arguments : List (Except Fault Float)) : Except Fault Float :=
  match Builtin.ofName? name with
  | none => .error (.unknownFunction name)
  | some builtin => do
    let value ← Arithmetic.requireFinite (← builtin.outcome arguments)
    return unsignedZero value

namespace Phrase

/-- The value of a tree. An argument is a formula of its own, whose value has to be finite. -/
def value : {kind : Kind} → Phrase Numeral kind → Except Fault Float
  | _, .leaf numeral => .ok numeral.value
  | _, .group inner => inner.value
  | _, .call name arguments =>
    callOutcome name.text (arguments.map fun argument => argument.value >>=
      Arithmetic.requireFinite)
  | _, .base atom => atom.value
  | _, .raise root exponent => Operator.power.outcome root.value exponent.value
  | _, .factor power => power.value
  | _, .scale operator _ left right => operator.outcome left.value right.value
  | _, .term product => product.value
  | _, .minus product => Operator.subtract.outcome (.ok 0) product.value
  | _, .add operator _ left right => operator.outcome left.value right.value

def result {kind : Kind} (phrase : Phrase Numeral kind) : Except Fault Float :=
  phrase.value >>= Arithmetic.requireFinite

@[induction_eliminator]
theorem inductionOn {motive : (kind : Kind) → Phrase Leaf kind → Prop}
    (leaf : ∀ content, motive .atom (.leaf content))
    (group : ∀ inner, motive .sum inner → motive .atom (.group inner))
    (call : ∀ name arguments,
      (∀ argument ∈ arguments, motive .sum argument) → motive .atom (.call name arguments))
    (base : ∀ atom, motive .atom atom → motive .power (.base atom))
    (raise : ∀ root exponent,
      motive .atom root → motive .power exponent → motive .power (.raise root exponent))
    (factor : ∀ power, motive .power power → motive .product (.factor power))
    (scale : ∀ operator scales left right,
      motive .product left → motive .power right →
        motive .product (.scale operator scales left right))
    (term : ∀ product, motive .product product → motive .sum (.term product))
    (minus : ∀ product, motive .product product → motive .sum (.minus product))
    (add : ∀ operator adds left right,
      motive .sum left → motive .product right → motive .sum (.add operator adds left right))
    {kind : Kind} (phrase : Phrase Leaf kind) : motive kind phrase :=
  callCount.induct motive leaf group call base raise factor scale term minus add kind phrase

end Phrase

end QuantityFormula
