import QuantityFormula.Fault

/-!
Tokens of arithmetic expressions: numbers, operators and parentheses. Blanks only
separate them. Any other character is refused where it stands, so nothing that is no
arithmetic vanishes from a formula.
-/

set_option autoImplicit false

namespace QuantityFormula

def Operator.ofText (text : Text) : Except Fault Operator :=
  match Operator.ofText? text with
  | some operator => .ok operator
  | none => .error (.malformed (.unknownOperator text))

inductive Token where
  | number (value : Float)
  | operator (operator : Operator)
  | leftParen
  | rightParen
  deriving DecidableEq

namespace Token

def isNumberChar (c : Char) : Bool :=
  c.isDigit || c == '.'

/-- The number that a run of digits and dots stands for; none for an empty run. -/
def ofRun (run : Text) : Except Fault (List Token) :=
  if run.isEmpty then
    .ok []
  else
    match Decimal.read? run with
    | some value => .ok [number value]
    | none => .error (.malformed (.invalidNumber run))

def ofChar? : Char → Option Token
  | '(' => some leftParen
  | ')' => some rightParen
  | c => (Operator.ofSymbol? c).map operator

/-- Tokens of a text that follows `run`, the digits and dots read last. Two asterisks in a row are
one operator. An unexpected character is reported before the run in front of it is looked at. -/
def scan : (run : Text) → Text → Except Fault (List Token)
  | run, [] => ofRun run
  | run, '*' :: '*' :: text => do
    let number ← ofRun run
    let tokens ← scan [] text
    return number ++ operator .power :: tokens
  | run, c :: text =>
    if isNumberChar c then
      scan (run ++ [c]) text
    else if Text.isBlankChar c then do
      let number ← ofRun run
      let tokens ← scan [] text
      return number ++ tokens
    else
      match ofChar? c with
      | some token => do
        let number ← ofRun run
        let tokens ← scan [] text
        return number ++ token :: tokens
      | none => .error (.malformed (.unexpectedCharacter c))

def ofText (text : Text) : Except Fault (List Token) :=
  scan [] text

end Token

end QuantityFormula
