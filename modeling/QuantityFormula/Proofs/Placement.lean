import QuantityFormula.Proofs.Ordering

/-!
What the arithmetic accepts. It counts parentheses, operands and operators, but never looks at where
a token stands. So an accepted text is in the infix grammar exactly if each of its tokens may stand
behind the one in front of it, and texts out of order are accepted as well.
-/

set_option autoImplicit false

namespace QuantityFormula

/-! ### Infix grammar -/

inductive Part where
  | expression
  | chain
  | operand

/-- A chain is an operand and any number of pairs of an operator and an operand. An expression is a
chain, or a minus and a chain, and an operand is a number or an expression in parentheses. -/
inductive Derives : Part → List Token → Prop where
  | number (value : Float) : Derives .operand [.number value]
  | group {tokens : List Token} (inner : Derives .expression tokens) :
      Derives .operand (.leftParen :: (tokens ++ [.rightParen]))
  | single {tokens : List Token} (operand : Derives .operand tokens) : Derives .chain tokens
  | extend {before after : List Token} (chain : Derives .chain before) (operator : Operator)
      (operand : Derives .operand after) : Derives .chain (before ++ .operator operator :: after)
  | plain {tokens : List Token} (chain : Derives .chain tokens) : Derives .expression tokens
  | minus {tokens : List Token} (chain : Derives .chain tokens) :
      Derives .expression (.operator .subtract :: tokens)

def Text.IsInfix (text : Text) : Prop :=
  ∃ tokens, Token.ofText text = .ok tokens ∧ Derives .expression tokens

theorem Derives.join {before after : List Token} (left : Derives .chain before)
    (operator : Operator)
    (right : Derives .chain after) : Derives .chain (before ++ .operator operator :: after) := by
  generalize isChain : Part.chain = part at right
  induction right with
  | single operand _ => exact left.extend operator operand
  | extend chain next operand ih _ =>
      have joined := (ih isChain).extend next operand
      rwa [List.append_assoc] at joined
  | number | group | plain | minus => cases isChain

/-! ### Places -/

namespace Token

def startsOperand : Token → Bool
  | number _ | leftParen => true
  | operator _ | rightParen => false

def endsOperand : Token → Bool
  | number _ | rightParen => true
  | operator _ | leftParen => false

def mayFollow (previous : Option Token) (token : Token) : Bool :=
  match previous with
  | none | some leftParen => token.startsOperand || token == operator .subtract
  | some (operator _) => token.startsOperand
  | some (number _) | some rightParen => !token.startsOperand

def areWellPlaced : (previous : Option Token) → List Token → Bool
  | previous, [] => previous.any endsOperand
  | previous, token :: tokens => mayFollow previous token && areWellPlaced (some token) tokens

private theorem areWellPlaced_number (value : Float) (rest : List Token) :
    areWellPlaced (some (number value)) rest = areWellPlaced (some rightParen) rest := by
  cases rest <;> rfl

/-- Where a part of the grammar is due: at the start, behind an opening parenthesis or, unless it
may begin with a minus, behind an operator. -/
def IsDue (part : Part) (previous : Option Token) : Prop :=
  previous = none ∨ previous = some leftParen ∨
    part ≠ .expression ∧ ∃ sign, previous = some (operator sign)

private theorem IsDue.mayFollow {part : Part} {previous : Option Token}
    (due : IsDue part previous) {token : Token}
    (starts : token.startsOperand = true) : mayFollow previous token = true := by
  rcases due with rfl | rfl | ⟨_, sign, rfl⟩ <;> simp [Token.mayFollow, starts]

theorem IsDue.inner {part other : Part} {previous : Option Token} (due : IsDue part previous)
    (inner : other ≠ .expression) : IsDue other previous := by
  rcases due with start | group | ⟨_, behind⟩
  · exact .inl start
  · exact .inr (.inl group)
  · exact .inr (.inr ⟨inner, behind⟩)

end Token

open Token in
/-- A derived part is well placed where it is due, and leaves what follows behind an operand. -/
theorem Derives.areWellPlaced {part : Part} {tokens : List Token} (derived : Derives part tokens)
    {previous : Option Token} (due : IsDue part previous) (rest : List Token) :
    areWellPlaced previous (tokens ++ rest) = areWellPlaced (some .rightParen) rest := by
  induction derived generalizing previous rest with
  | number value =>
      rw [List.singleton_append, Token.areWellPlaced, due.mayFollow rfl,
        areWellPlaced_number, Bool.true_and]
  | group inner ih =>
      rw [List.cons_append, List.append_assoc, Token.areWellPlaced, due.mayFollow rfl,
        ih (.inr (.inl rfl))]
      rfl
  | single operand ih => exact ih (due.inner nofun) rest
  | extend chain sign operand ihChain ihOperand =>
      rw [List.append_assoc, ihChain due, List.cons_append, Token.areWellPlaced,
        ihOperand (.inr (.inr ⟨nofun, sign, rfl⟩))]
      rfl
  | plain chain ih => exact ih (due.inner nofun) rest
  | minus chain ih =>
      have follows : mayFollow previous (.operator .subtract) = true := by
        rcases due with rfl | rfl | ⟨plain, _⟩
        · rfl
        · rfl
        · exact absurd rfl plain
      rw [List.cons_append, Token.areWellPlaced, follows, ih (.inr (.inr ⟨nofun, .subtract, rfl⟩)),
        Bool.true_and]

/-! ### Recovering the derivation -/

def Token.Completes : (previous : Option Token) → List Token → Prop
  | none, tokens | some leftParen, tokens => Derives .expression tokens
  | some (operator _), tokens => Derives .chain tokens
  | some (number _), tokens | some rightParen, tokens =>
    tokens = [] ∨ ∃ sign chain, tokens = operator sign :: chain ∧ Derives .chain chain

private theorem Derives.complete {operand tokens : List Token} (derived : Derives .operand operand)
    (completes : Token.Completes (some .rightParen) tokens) :
    Derives .chain (operand ++ tokens) := by
  rcases completes with rfl | ⟨sign, chain, rfl, derivedChain⟩
  · rw [List.append_nil]
    exact .single derived
  · exact (Derives.single derived).join sign derivedChain

private theorem Token.completes_of_chain {previous : Option Token} {token : Token}
    (starts : token.startsOperand = true)
    (follows : mayFollow previous token = true) {tokens : List Token}
    (chain : Derives .chain tokens) :
    Completes previous tokens := by
  match previous, follows with
  | none, _ | some leftParen, _ => exact .plain chain
  | some (operator _), _ => exact chain
  | some (number _), follows | some rightParen, follows =>
      rw [mayFollow, starts] at follows
      cases follows

private theorem Token.completes_nil {previous : Option Token}
    (ends : previous.any endsOperand = true) :
    Completes previous [] := by
  cases previous with
  | none => cases ends
  | some token =>
      cases token with
      | number value | rightParen => exact .inl rfl
      | operator sign | leftParen => cases ends

private theorem Token.any_endsOperand {previous : Option Token}
    (follows : mayFollow previous rightParen = true) :
    previous.any endsOperand = true := by
  cases previous with
  | none => cases follows
  | some token =>
      cases token with
      | number value | rightParen => rfl
      | operator sign | leftParen => cases follows

private theorem Token.completes_operator {previous : Option Token} {sign : Operator}
    (follows : mayFollow previous (operator sign) = true) {tokens : List Token}
    (chain : Derives .chain tokens) :
    Completes previous (operator sign :: tokens) := by
  have minus (isMinus : sign = .subtract) : Derives .expression (operator sign :: tokens) := by
    subst isMinus
    exact .minus chain
  cases previous with
  | none => exact minus (by simpa [mayFollow, startsOperand] using follows)
  | some token =>
      cases token with
      | number value | rightParen => exact .inr ⟨sign, tokens, rfl, chain⟩
      | leftParen => exact minus (by simpa [mayFollow, startsOperand] using follows)
      | operator other => cases follows

def Token.Closes (depth : Nat) (rest : List Token) : Prop :=
  depth = 0 ∧ rest = [] ∨ ∃ outer behind, depth = outer + 1 ∧ rest = rightParen :: behind ∧
    areWellPlaced (some rightParen) behind = true ∧
      Text.isBalancedFrom outer (brackets behind) = true

open Token in
/-- Well-placed balanced tokens begin with what completes the group that is open. -/
theorem exists_completes {tokens : List Token} {previous : Option Token}
    (placed : areWellPlaced previous tokens = true) {depth : Nat}
    (balanced : Text.isBalancedFrom depth (brackets tokens) = true) :
    ∃ inside rest, tokens = inside ++ rest ∧ Completes previous inside ∧ Closes depth rest := by
  -- By the number of tokens: behind a closed group the search goes on with fewer
  -- of them, which are no tail.
  induction length : tokens.length using Nat.strongRecOn generalizing tokens previous depth with
  | ind size ih =>
  cases tokens with
  | nil =>
      have outermost : depth = 0 := by simpa [Text.isBalancedFrom, brackets] using balanced
      exact ⟨[], [], rfl, completes_nil placed, .inl ⟨outermost, rfl⟩⟩
  | cons token tokens =>
      rw [areWellPlaced, Bool.and_eq_true] at placed
      obtain ⟨follows, placed⟩ := placed
      have shorter : tokens.length < size := by
        rw [← length]
        exact Nat.lt_succ_self _
      cases token with
      | number value =>
          have inner : Text.isBalancedFrom depth (brackets tokens) = true := balanced
          obtain ⟨inside, rest, rfl, completes, closes⟩ := ih _ shorter placed inner rfl
          have chain := (Derives.number value).complete completes
          exact ⟨number value :: inside, rest, rfl, completes_of_chain rfl follows chain, closes⟩
      | leftParen =>
          have inner : Text.isBalancedFrom (depth + 1) (brackets tokens) = true := balanced
          obtain ⟨inside, rest, rfl, completes, closes⟩ := ih _ shorter placed inner rfl
          rcases closes with ⟨impossible, _⟩ | ⟨outer, behind, deeper, rfl,
            placedBehind, balancedBehind⟩
          · cases impossible
          cases deeper
          have muchShorter : behind.length < size := by
            rw [List.length_append, List.length_cons] at shorter
            omega
          obtain ⟨following, rest, rfl, completesBehind, closes⟩ :=
            ih _ muchShorter placedBehind balancedBehind rfl
          have chain := (Derives.group completes).complete completesBehind
          refine ⟨leftParen :: (inside ++ [rightParen]) ++ following, rest, ?_,
            completes_of_chain rfl follows chain, closes⟩
          simp
      | operator sign =>
          have inner : Text.isBalancedFrom depth (brackets tokens) = true := balanced
          obtain ⟨inside, rest, rfl, chain, closes⟩ := ih _ shorter placed inner rfl
          exact ⟨operator sign :: inside, rest, rfl, completes_operator follows chain, closes⟩
      | rightParen =>
          cases depth with
          | zero => cases balanced
          | succ outer =>
              exact ⟨[], rightParen :: tokens, rfl, completes_nil (any_endsOperand follows),
                .inr ⟨outer, tokens, rfl, rfl, placed, balanced⟩⟩

private theorem derives_iff_areWellPlaced {tokens : List Token}
    (balanced : Text.isBalanced (Token.brackets tokens) = true) :
    Derives .expression tokens ↔ Token.areWellPlaced none tokens = true := by
  constructor
  · intro derived
    have placed := derived.areWellPlaced (.inl rfl) []
    rwa [List.append_nil] at placed
  · intro placed
    obtain ⟨inside, rest, rfl, derived, closes⟩ := exists_completes placed balanced
    rcases closes with ⟨_, rfl⟩ | ⟨outer, behind, deeper, _⟩
    · rwa [List.append_nil]
    · cases deeper

/-! ### Counts -/

def Token.isNumber : Token → Bool
  | number _ => true
  | operator _ | leftParen | rightParen => false

def Token.isOperator : Token → Bool
  | operator _ => true
  | number _ | leftParen | rightParen => false

def Instruction.isPush : Instruction → Bool
  | push _ => true
  | apply _ => false

def Instruction.isApply : Instruction → Bool
  | push _ => false
  | apply _ => true

/-- What a part is taken from is counted like the parts. -/
private theorem countP_eq_length_filterMap {α β : Type} {belongs : α → Bool} {part? : α → Option β}
    (same : ∀ item, belongs item = (part? item).isSome) (items : List α) :
    items.countP belongs = (items.filterMap part?).length := by
  rw [List.length_filterMap_eq_countP]
  exact List.countP_congr fun item _ => by rw [same]

namespace Program

private theorem countP_order {waiting : List Operator} {outer : List (List Operator)}
    {tokens : List Token} {program : Program} (ordered : order waiting outer tokens = .ok program) :
    program.countP Instruction.isPush = tokens.countP Token.isNumber ∧
      program.countP Instruction.isApply =
        waiting.length + (outer.map List.length).sum + tokens.countP Token.isOperator := by
  obtain ⟨pushed, applied⟩ := order_keeps ordered
  have pushes : program.countP Instruction.isPush =
      (program.filterMap Instruction.pushed?).length :=
    countP_eq_length_filterMap (fun instruction => by cases instruction <;> rfl) program
  have applies : program.countP Instruction.isApply =
      (program.filterMap Instruction.applied?).length :=
    countP_eq_length_filterMap (fun instruction => by cases instruction <;> rfl) program
  have numbers : tokens.countP Token.isNumber = (tokens.filterMap Token.number?).length :=
    countP_eq_length_filterMap (fun token => by cases token <;> rfl) tokens
  have operators : tokens.countP Token.isOperator = (tokens.filterMap Token.operator?).length :=
    countP_eq_length_filterMap (fun token => by cases token <;> rfl) tokens
  constructor
  · rw [pushes, numbers, pushed]
  · rw [applies, operators, applied.length_eq, List.length_append, List.length_append,
      List.length_flatten, add_assoc]

theorem length_run {stack final : List Float} {program : Program}
    (ran : run stack program = .ok final) :
    stack.length + program.countP Instruction.isPush =
      final.length + program.countP Instruction.isApply := by
  induction program generalizing stack with
  | nil =>
      cases ran
      rfl
  | cons instruction program ih =>
      obtain ⟨after, stepped, ranRest⟩ := exists_of_bind_eq_ok ran
      have rest := ih ranRest
      cases instruction with
      | push value =>
          cases stepped
          rw [List.length_cons] at rest
          rw [List.countP_cons_of_pos (p := Instruction.isPush) rfl,
            List.countP_cons_of_neg (p := Instruction.isApply) (a := .push value)
              Bool.false_ne_true]
          omega
      | apply operator =>
          match stack, stepped with
          | [], stepped | [_], stepped => cases stepped
          | right :: left :: below, stepped =>
              obtain ⟨value, applied, same⟩ := exists_of_bind_eq_ok stepped
              cases same
              rw [List.length_cons] at rest
              rw [List.countP_cons_of_neg (p := Instruction.isPush) (a := .apply operator)
                  Bool.false_ne_true,
                List.countP_cons_of_pos (p := Instruction.isApply) rfl,
                List.length_cons, List.length_cons]
              omega

private theorem countP_of_execute {program : Program} {value : Float}
    (executed : program.execute = .ok value) :
    program.countP Instruction.isPush = program.countP Instruction.isApply + 1 := by
  obtain ⟨stack, ran, single⟩ := exists_of_bind_eq_ok executed
  have heights := length_run ran
  match stack, single with
  | [], single | _ :: _ :: _, single => cases single
  | [_], _ =>
      simp only [List.length_nil, List.length_singleton] at heights
      omega

end Program

/-! ### Accepted texts -/

/-- An accepted text has balanced parentheses and, with its zeros, one operand more than operators.
It is in the infix grammar exactly if its tokens are well placed, which is never checked. -/
theorem isInfix_iff_of_evaluate {text : Text} {value : Float}
    (accepted : Arithmetic.evaluate text = .ok value) :
    ∃ tokens, Token.ofText text = .ok tokens ∧
      Text.isBalanced (Token.brackets tokens) = true ∧
      (Arithmetic.completeMinus true tokens).countP Token.isNumber =
        (Arithmetic.completeMinus true tokens).countP Token.isOperator + 1 ∧
      (Text.IsInfix text ↔ Token.areWellPlaced none tokens = true) := by
  obtain ⟨tokens, program, read, ordered, executed⟩ := Arithmetic.exists_of_evaluate_eq_ok accepted
  have balanced := Program.isBalancedFrom_order ordered
  rw [Token.brackets_completeMinus] at balanced
  obtain ⟨pushes, applies⟩ := Program.countP_order ordered
  have counts := Program.countP_of_execute executed
  refine ⟨tokens, read, balanced, ?_, ?_⟩
  · simp only [List.length_nil, List.map_nil, List.sum_nil] at applies
    omega
  · rw [← derives_iff_areWellPlaced balanced]
    constructor
    · rintro ⟨others, readOthers, derived⟩
      rw [read] at readOthers
      cases readOthers
      exact derived
    · intro derived
      exact ⟨tokens, read, derived⟩

def operandsFirst : Text :=
  ['2', ' ', '3', ' ', '+']

private theorem evaluate_operandsFirst : Arithmetic.evaluate operandsFirst = .ok 5 :=
  eq_ok_of_toOption_eq_some (by decide +kernel)

private theorem ofText_operandsFirst :
    Token.ofText operandsFirst = .ok [.number 2, .number 3, .operator .add] :=
  eq_ok_of_toOption_eq_some (by decide +kernel)

theorem isInfix_iff_of_evaluate_operandsFirst :
    Arithmetic.evaluate operandsFirst = .ok 5 ∧
      ∃ tokens, Token.ofText operandsFirst = .ok tokens ∧
        Text.isBalanced (Token.brackets tokens) = true ∧
        (Arithmetic.completeMinus true tokens).countP Token.isNumber =
          (Arithmetic.completeMinus true tokens).countP Token.isOperator + 1 ∧
        (Text.IsInfix operandsFirst ↔ Token.areWellPlaced none tokens = true) :=
  ⟨evaluate_operandsFirst, isInfix_iff_of_evaluate evaluate_operandsFirst⟩

theorem not_forall_isInfix_of_evaluate :
    ¬∀ text value, Arithmetic.evaluate text = .ok value → Text.IsInfix text := by
  intro accepts
  obtain ⟨tokens, read, derived⟩ := accepts operandsFirst 5 evaluate_operandsFirst
  rw [ofText_operandsFirst] at read
  cases read
  have placed := (derives_iff_areWellPlaced rfl).mp derived
  cases placed

end QuantityFormula
