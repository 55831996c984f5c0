import QuantityFormula.Function.Builtin
import QuantityFormula.Text.Parentheses
import QuantityFormula.Text.Word

/-!
Calls in the text of a formula. A call begins with a head, a name of capitals and an opening
parenthesis, and ends with the parenthesis that closes it. `Call.next?` picks the call to be
replaced next: the leftmost guarded one, since its arguments have to reach it as they are written,
and without one the last, which holds no other.
-/

set_option autoImplicit false

namespace QuantityFormula

structure Head where
  before : Text
  name : Text
  after : Text

structure Call where
  before : Text
  name : Text
  arguments : Text
  after : Text

namespace Head

def isNameStart (c : Char) : Bool :=
  c.isUpper || c == '_'

def isNameChar (c : Char) : Bool :=
  c.isUpper || c.isDigit || c == '_'

/-- The head at the start of a text. It does not continue a word, and blanks may stand between its
name and its parenthesis. -/
def here? (afterWord : Bool) : Text → Option Head
  | [] => none
  | c :: following =>
    if !afterWord && isNameStart c then
      match (following.dropWhile isNameChar).dropWhile Text.isBlankChar with
      | '(' :: after => some ⟨[], c :: following.takeWhile isNameChar, after⟩
      | _ => none
    else
      none

def keep (c : Char) (head : Head) : Head :=
  ⟨c :: head.before, head.name, head.after⟩

def first? (wanted : Text → Bool) : (afterWord : Bool) → Text → Option Head
  | _, [] => none
  | afterWord, c :: text =>
    match (here? afterWord (c :: text)).filter fun head => wanted head.name with
    | some head => some head
    | none => (first? wanted (Text.isWordChar c) text).map (keep c)

def last? : (afterWord : Bool) → Text → Option Head
  | _, [] => none
  | afterWord, c :: text =>
    match last? (Text.isWordChar c) text with
    | some head => some (head.keep c)
    | none => here? afterWord (c :: text)

end Head

namespace Call

def isGuardedName (name : Text) : Bool :=
  (Builtin.ofName? name).any Builtin.isGuarded

def ofHead (head : Head) : Except Fault Call :=
  match Text.splitClosing? 0 head.after with
  | some (arguments, after) => .ok ⟨head.before, head.name, arguments, after⟩
  | none => .error .unbalancedParentheses

/-- The call of a text that is to be replaced next; none in a text without heads. -/
def next? (text : Text) : Except Fault (Option Call) :=
  match Head.first? isGuardedName false text <|> Head.last? false text with
  | some head => some <$> ofHead head
  | none => .ok none

def replaceBy (call : Call) (replacement : Text) : Text :=
  call.before ++ replacement ++ call.after

/-- The items of an argument list, between its outer commas and without the blanks around them. A
blank list has no items, and no item of another may be blank. -/
def splitArguments (arguments : Text) : Except Fault (List Text) :=
  if Text.isBlank arguments then
    .ok []
  else
    let items := (Text.splitCommas arguments).map Text.trim
    if items.any List.isEmpty then .error (.malformed (.emptyArgument arguments)) else .ok items

end Call

end QuantityFormula
