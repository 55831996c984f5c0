import QuantityFormula.Proofs.Grammar

/-!
Trees with a place left open. What is put in the place of a call decides the value of the whole only
by its own value, and a call that fails fails the whole, unless a guarded call stands around it.
Every name in the units of a tree is that of a call in some place of the tree.
-/

set_option autoImplicit false

namespace QuantityFormula

inductive Context (Leaf : Type) : Kind → Type where
  | hole : Context Leaf .atom
  | group (inner : Context Leaf .sum) : Context Leaf .atom
  | argument (name : FunctionName) (before : List (Phrase Leaf .sum)) (inner : Context Leaf .sum)
      (after : List (Phrase Leaf .sum)) : Context Leaf .atom
  | base (atom : Context Leaf .atom) : Context Leaf .power
  | raised (root : Context Leaf .atom) (exponent : Phrase Leaf .power) : Context Leaf .power
  | raising (root : Phrase Leaf .atom) (exponent : Context Leaf .power) : Context Leaf .power
  | factor (power : Context Leaf .power) : Context Leaf .product
  | scaled (operator : Operator)
      (scales : operator = .multiply ∨ operator = .divide ∨ operator = .modulo)
      (left : Context Leaf .product) (right : Phrase Leaf .power) : Context Leaf .product
  | scaling (operator : Operator)
      (scales : operator = .multiply ∨ operator = .divide ∨ operator = .modulo)
      (left : Phrase Leaf .product) (right : Context Leaf .power) : Context Leaf .product
  | term (product : Context Leaf .product) : Context Leaf .sum
  | minus (product : Context Leaf .product) : Context Leaf .sum
  | added (operator : Operator) (adds : operator = .add ∨ operator = .subtract)
      (left : Context Leaf .sum)
      (right : Phrase Leaf .product) : Context Leaf .sum
  | adding (operator : Operator) (adds : operator = .add ∨ operator = .subtract)
      (left : Phrase Leaf .sum)
      (right : Context Leaf .product) : Context Leaf .sum

variable {Leaf : Type}

def argumentLexemes (arguments : List (Phrase Leaf .sum)) : List (Lexeme Leaf) :=
  [.comma].intercalate (arguments.map fun argument => argument.lexemes)

private theorem intercalate_cons (separator : Lexeme Leaf) (first : List (Lexeme Leaf))
    (items : List (List (Lexeme Leaf))) :
    [separator].intercalate (first :: items) = first ++ items.flatMap fun item =>
      separator :: item := by
  induction items generalizing first with
  | nil => simp [List.intercalate]
  | cons item items ih =>
      rw [List.intercalate_cons_cons, ih, List.flatMap_cons]
      simp

private theorem intercalate_middle (separator : Lexeme Leaf)
    (before after : List (List (Lexeme Leaf))) (middle : List (Lexeme Leaf)) :
    [separator].intercalate (before ++ middle :: after) =
      before.flatMap (fun item => item ++ [separator]) ++
        (middle ++ after.flatMap fun item => separator :: item) := by
  induction before with
  | nil => exact intercalate_cons separator middle after
  | cons item before ih =>
      cases before with
      | nil => simp [intercalate_cons]
      | cons second before =>
          rw [List.cons_append, List.cons_append, List.intercalate_cons_cons,
            ← List.cons_append, ih]
          simp

theorem argumentLexemes_cons (first : Phrase Leaf .sum) (arguments : List (Phrase Leaf .sum)) :
    argumentLexemes (first :: arguments) =
      first.lexemes ++ arguments.flatMap fun argument => .comma :: argument.lexemes := by
  rw [argumentLexemes, List.map_cons, intercalate_cons, List.flatMap_map]

namespace Context

variable {kind : Kind}

def fill : {kind : Kind} → Context Leaf kind → Phrase Leaf .atom → Phrase Leaf kind
  | _, .hole, atom => atom
  | _, .group inner, atom => .group (inner.fill atom)
  | _, .argument name before inner after, atom => .call name (before ++ inner.fill atom :: after)
  | _, .base outer, atom => .base (outer.fill atom)
  | _, .raised root exponent, atom => .raise (root.fill atom) exponent
  | _, .raising root exponent, atom => .raise root (exponent.fill atom)
  | _, .factor power, atom => .factor (power.fill atom)
  | _, .scaled operator scales left right, atom => .scale operator scales (left.fill atom) right
  | _, .scaling operator scales left right, atom => .scale operator scales left (right.fill atom)
  | _, .term product, atom => .term (product.fill atom)
  | _, .minus product, atom => .minus (product.fill atom)
  | _, .added operator adds left right, atom => .add operator adds (left.fill atom) right
  | _, .adding operator adds left right, atom => .add operator adds left (right.fill atom)

def left : {kind : Kind} → Context Leaf kind → List (Lexeme Leaf)
  | _, .hole => []
  | _, .group inner => .leftParen :: inner.left
  | _, .argument name before inner _ =>
    .name name :: .leftParen ::
      (before.flatMap (fun argument => argument.lexemes ++ [.comma]) ++ inner.left)
  | _, .base outer => outer.left
  | _, .raised root _ => root.left
  | _, .raising root exponent => root.lexemes ++ .operator .power :: exponent.left
  | _, .factor power => power.left
  | _, .scaled _ _ left _ => left.left
  | _, .scaling operator _ left right => left.lexemes ++ .operator operator :: right.left
  | _, .term product => product.left
  | _, .minus product => .operator .subtract :: product.left
  | _, .added _ _ left _ => left.left
  | _, .adding operator _ left right => left.lexemes ++ .operator operator :: right.left

def right : {kind : Kind} → Context Leaf kind → List (Lexeme Leaf)
  | _, .hole => []
  | _, .group inner => inner.right ++ [.rightParen]
  | _, .argument _ _ inner after =>
    inner.right ++ (after.flatMap (fun argument => .comma :: argument.lexemes) ++ [.rightParen])
  | _, .base outer => outer.right
  | _, .raised root exponent => root.right ++ .operator .power :: exponent.lexemes
  | _, .raising _ exponent => exponent.right
  | _, .factor power => power.right
  | _, .scaled operator _ left right => left.right ++ .operator operator :: right.lexemes
  | _, .scaling _ _ _ right => right.right
  | _, .term product => product.right
  | _, .minus product => product.right
  | _, .added operator _ left right => left.right ++ .operator operator :: right.lexemes
  | _, .adding _ _ _ right => right.right

theorem lexemes_fill (context : Context Leaf kind) (atom : Phrase Leaf .atom) :
    (context.fill atom).lexemes = context.left ++ (atom.lexemes ++ context.right) := by
  induction context with
  | hole => simp [fill, left, right]
  | argument name before inner after ih =>
      rw [fill, Phrase.lexemes, List.map_append, List.map_cons, intercalate_middle, ih]
      simp [left, right, List.flatMap_map]
  | group inner ih | base outer ih | raised root exponent ih | raising root exponent ih
  | factor power ih | scaled operator scales before after ih
  | scaling operator scales before after ih | term product ih | minus product ih
  | added operator adds before after ih | adding operator adds before after ih =>
      simp [fill, left, right, Phrase.lexemes, ih]

/-! ### What a call in the place decides -/

theorem callCount_fill (context : Context Leaf kind) (atom other : Phrase Leaf .atom) :
    (context.fill atom).callCount + other.callCount =
      (context.fill other).callCount + atom.callCount := by
  induction context with
  | hole =>
      simp only [fill]
      omega
  | argument name before inner after ih =>
      simp only [fill, Phrase.callCount, List.map_append, List.map_cons,
        List.sum_append, List.sum_cons]
      omega
  | group inner ih | base outer ih | raised root exponent ih | raising root exponent ih
  | factor power ih | scaled operator scales before after ih
  | scaling operator scales before after ih | term product ih | minus product ih
  | added operator adds before after ih | adding operator adds before after ih =>
      simp only [fill, Phrase.callCount]
      omega

private theorem foldr_max_append (before after : List Nat) :
    (before ++ after).foldr max 0 = max (before.foldr max 0) (after.foldr max 0) := by
  induction before with
  | nil => simp
  | cons depth before ih =>
      rw [List.cons_append, List.foldr_cons, List.foldr_cons, ih]
      omega

theorem guardDepth_fill_mono (context : Context Leaf kind) {atom other : Phrase Leaf .atom}
    (shallower : atom.guardDepth ≤ other.guardDepth) :
    (context.fill atom).guardDepth ≤ (context.fill other).guardDepth := by
  induction context with
  | hole => exact shallower
  | argument name before inner after ih =>
      simp only [fill, Phrase.guardDepth, List.map_append, List.map_cons,
        foldr_max_append, List.foldr_cons]
      omega
  | group inner ih | base outer ih | raised root exponent ih | raising root exponent ih
  | factor power ih | scaled operator scales before after ih
  | scaling operator scales before after ih | term product ih | minus product ih
  | added operator adds before after ih | adding operator adds before after ih =>
      simp only [fill, Phrase.guardDepth]
      omega

theorem guardDepth_le_fill (context : Context Leaf kind) (atom : Phrase Leaf .atom) :
    atom.guardDepth ≤ (context.fill atom).guardDepth := by
  induction context with
  | hole => exact Nat.le_refl _
  | argument name before inner after ih =>
      simp only [fill, Phrase.guardDepth, List.map_append, List.map_cons,
        foldr_max_append, List.foldr_cons]
      omega
  | group inner ih | base outer ih | raised root exponent ih | raising root exponent ih
  | factor power ih | scaled operator scales before after ih
  | scaling operator scales before after ih | term product ih | minus product ih
  | added operator adds before after ih | adding operator adds before after ih =>
      simp only [fill, Phrase.guardDepth]
      omega

theorem value_fill_congr (context : Context Numeral kind) {atom other : Phrase Numeral .atom}
    (same : atom.value = other.value) : (context.fill atom).value = (context.fill other).value := by
  induction context with
  | hole => exact same
  | argument name before inner after ih =>
      simp only [fill, Phrase.value, List.map_append, List.map_cons, ih]
  | group inner ih | base outer ih | raised root exponent ih | raising root exponent ih
  | factor power ih | scaled operator scales before after ih
  | scaling operator scales before after ih | term product ih | minus product ih
  | added operator adds before after ih | adding operator adds before after ih =>
      simp only [fill, Phrase.value, ih]

end Context

theorem exists_error_of_mem {outcomes : List (Except Fault Float)} {fault : Fault}
    (member : .error fault ∈ outcomes) : ∃ first, outcomes.mapM id = .error first := by
  induction outcomes with
  | nil => cases member
  | cons outcome outcomes ih =>
      rw [List.mapM_cons]
      cases outcome with
      | error first => exact ⟨first, rfl⟩
      | ok value =>
          rcases List.mem_cons.mp member with same | later
          · cases same
          · obtain ⟨first, failed⟩ := ih later
            rw [failed]
            exact ⟨first, rfl⟩

theorem exists_error_callOutcome {name : FunctionName} (unguarded : name.isGuarded = false)
    {outcomes : List (Except Fault Float)} {fault : Fault} (member : .error fault ∈ outcomes) :
    ∃ first, callOutcome name.text outcomes = .error first := by
  unfold FunctionName.isGuarded Call.isGuardedName at unguarded
  unfold callOutcome
  cases found : Builtin.ofName? name.text with
  | none => exact ⟨_, rfl⟩
  | some builtin =>
      rw [found] at unguarded
      cases builtin with
      | ifError => cases unguarded
      | calculation c =>
          obtain ⟨first, failed⟩ := exists_error_of_mem member
          refine ⟨first, ?_⟩
          dsimp only [Builtin.outcome]
          rw [failed]
          rfl

private theorem Operator.exists_error_outcome (operator : Operator)
    {left right : Except Fault Float}
    (failed : (∃ fault, left = .error fault) ∨ ∃ fault, right = .error fault) :
    ∃ fault, operator.outcome left right = .error fault := by
  cases left with
  | error fault => exact ⟨fault, rfl⟩
  | ok value =>
      rcases failed with ⟨fault, same⟩ | ⟨fault, rfl⟩
      · cases same
      · exact ⟨fault, rfl⟩

/-- Without a guarded call around it, a call that fails fails the whole. -/
theorem Context.exists_error_fill {kind : Kind} {context : Context Numeral kind}
    (unguarded : ∀ name, Lexeme.name name ∈ context.left → name.isGuarded = false)
    {atom : Phrase Numeral .atom} (failed : ∃ fault, atom.value = .error fault) :
    ∃ fault, (context.fill atom).value = .error fault := by
  induction context with
  | hole => exact failed
  | argument name before inner after ih =>
      -- The name of the call around the place stands in front of it, so it is none that guards.
      obtain ⟨fault, inside⟩ := ih fun other member => unguarded other (by simp [left, member])
      rw [fill, Phrase.value]
      have member : .error fault ∈ (before ++ inner.fill atom :: after).map fun argument =>
          argument.value >>= Arithmetic.requireFinite := by
        simp only [List.map_append, List.map_cons, List.mem_append, List.mem_cons]
        exact .inr (.inl (by rw [inside]; rfl))
      exact exists_error_callOutcome (unguarded name (by simp [left])) member
  | minus product ih =>
      have inside := ih fun other member => unguarded other (by simp [left, member])
      rw [fill, Phrase.value]
      exact Operator.exists_error_outcome _ (.inr inside)
  | group inner ih | base outer ih | factor power ih | term product ih =>
      rw [fill, Phrase.value]
      exact ih fun other member => unguarded other (by simp [left, member])
  | raised root exponent ih | scaled operator scales before after ih
  | added operator adds before after ih =>
      have inside := ih fun other member => unguarded other (by simp [left, member])
      rw [fill, Phrase.value]
      exact Operator.exists_error_outcome _ (.inl inside)
  | raising root exponent ih | scaling operator scales before after ih
  | adding operator adds before after ih =>
      have inside := ih fun other member => unguarded other (by simp [left, member])
      rw [fill, Phrase.value]
      exact Operator.exists_error_outcome _ (.inr inside)

/-! ### Calls by their names -/

def Lexeme.name? : Lexeme Leaf → Option FunctionName
  | .name function => some function
  | _ => none

def Phrase.Calls {kind : Kind} (phrase : Phrase Leaf kind) (name : FunctionName)
    (before after : List (Lexeme Leaf)) :
    Prop :=
  ∃ (context : Context Leaf kind) (arguments : List (Phrase Leaf .sum)),
    phrase = context.fill (.call name arguments) ∧ before = context.left ∧
      after = .leftParen :: (argumentLexemes arguments ++ .rightParen :: context.right)

private theorem split_append {first second before after : List (Lexeme Leaf)} {name : FunctionName}
    (split : first ++ second = before ++ .name name :: after) :
    (∃ rest, first = before ++ .name name :: rest ∧ after = rest ++ second) ∨
      ∃ rest, before = first ++ rest ∧ second = rest ++ .name name :: after := by
  rcases List.append_eq_append_iff.mp split with ⟨rest, rfl, rfl⟩ | ⟨rest, rfl, behind⟩
  · exact .inr ⟨rest, rfl, rfl⟩
  · cases rest with
    | nil => exact .inr ⟨[], by simp, by simpa using behind.symm⟩
    | cons lexeme rest =>
        obtain ⟨rfl, rfl⟩ := List.cons.inj behind
        exact .inl ⟨rest, rfl, rfl⟩

private theorem split_cons {lexeme : Lexeme Leaf} {lexemes before after : List (Lexeme Leaf)}
    {name : FunctionName}
    (split : lexeme :: lexemes = before ++ .name name :: after) (unnamed : lexeme.name? = none) :
    ∃ rest, before = lexeme :: rest ∧ lexemes = rest ++ .name name :: after := by
  cases before with
  | nil =>
      obtain ⟨rfl, _⟩ := List.cons.inj split
      cases unnamed
  | cons first rest =>
      obtain ⟨rfl, rfl⟩ := List.cons.inj split
      exact ⟨rest, rfl, rfl⟩

/-- A name stands on one side of a unit that is no name. -/
private theorem split_between {left right before after : List (Lexeme Leaf)} {middle : Lexeme Leaf}
    {name : FunctionName} (split : left ++ middle :: right = before ++ .name name :: after)
    (unnamed : middle.name? = none) :
    (∃ rest, left = before ++ .name name :: rest ∧ after = rest ++ middle :: right) ∨
      ∃ rest, before = left ++ middle :: rest ∧ right = rest ++ .name name :: after := by
  rcases split_append split with inside | ⟨rest, rfl, behind⟩
  · exact .inl inside
  · obtain ⟨others, rfl, deeper⟩ := split_cons behind unnamed
    exact .inr ⟨others, rfl, deeper⟩

private theorem split_singleton {lexeme : Lexeme Leaf} {before after : List (Lexeme Leaf)}
    {name : FunctionName}
    (split : [lexeme] = before ++ .name name :: after) (unnamed : lexeme.name? = none) : False := by
  obtain ⟨rest, _, nothing⟩ := split_cons split unnamed
  cases rest <;> cases nothing

private theorem calls_argument {arguments : List (Phrase Leaf .sum)} {name : FunctionName}
    {before after : List (Lexeme Leaf)}
    (each : ∀ argument ∈ arguments, ∀ {before after : List (Lexeme Leaf)},
      argument.lexemes = before ++ .name name :: after → argument.Calls name before after)
    (split : argumentLexemes arguments = before ++ .name name :: after) :
    ∃ (earlier : List (Phrase Leaf .sum)) (context : Context Leaf .sum)
      (inner later : List (Phrase Leaf .sum)),
      arguments = earlier ++ context.fill (.call name inner) :: later ∧
        before = earlier.flatMap (fun argument => argument.lexemes ++ [.comma]) ++ context.left ∧
        after = .leftParen :: (argumentLexemes inner ++ .rightParen ::
          (context.right ++ later.flatMap fun argument => .comma :: argument.lexemes)) := by
  induction arguments generalizing before with
  | nil => cases before <;> cases split
  | cons argument arguments ih =>
      cases arguments with
      | nil =>
          have alone : argumentLexemes [argument] = argument.lexemes := by
            simp [argumentLexemes, List.intercalate]
          rw [alone] at split
          obtain ⟨context, inner, rfl, rfl, rfl⟩ := each argument List.mem_cons_self split
          exact ⟨[], context, inner, [], rfl, rfl, by simp⟩
      | cons second arguments =>
          have parts : argumentLexemes (argument :: second :: arguments) =
              argument.lexemes ++ .comma :: argumentLexemes (second :: arguments) := by
            simp [argumentLexemes, List.intercalate_cons_cons]
          rw [parts] at split
          rcases split_between split rfl with ⟨rest, inside, rfl⟩ | ⟨others, rfl, deeper⟩
          · obtain ⟨context, inner, rfl, rfl, rfl⟩ := each argument List.mem_cons_self inside
            exact ⟨[], context, inner, second :: arguments, rfl,
              rfl, by simp [argumentLexemes_cons]⟩
          · obtain ⟨earlier, context, inner, later, shape, rfl, rfl⟩ :=
              ih (fun other member => each other (List.mem_cons_of_mem _ member)) deeper
            exact ⟨argument :: earlier, context, inner, later, by rw [shape]; rfl, by simp, rfl⟩

theorem Phrase.calls_of_lexemes {kind : Kind} {phrase : Phrase Leaf kind} {name : FunctionName}
    {before after : List (Lexeme Leaf)} (split : phrase.lexemes = before ++ .name name :: after) :
    phrase.Calls name before after := by
  induction phrase generalizing before after with
  | leaf content =>
      rw [lexemes] at split
      exact (split_singleton split rfl).elim
  | group inner ih =>
      rw [lexemes] at split
      obtain ⟨others, rfl, opened⟩ := split_cons split rfl
      rcases split_append opened with ⟨rest, inside, rfl⟩ | ⟨rest, rfl, behind⟩
      · obtain ⟨context, arguments, rfl, rfl, rfl⟩ := ih inside
        exact ⟨.group context, arguments, rfl, rfl, by simp [Context.right]⟩
      · exact (split_singleton behind rfl).elim
  | call function arguments ih =>
      rw [lexemes] at split
      cases before with
      | nil =>
          obtain ⟨same, rfl⟩ := List.cons.inj split
          cases same
          exact ⟨.hole, arguments, rfl, rfl, rfl⟩
      | cons first before =>
          obtain ⟨rfl, called⟩ := List.cons.inj split
          obtain ⟨others, rfl, opened⟩ := split_cons called rfl
          rcases split_append opened with ⟨rest, inside, rfl⟩ | ⟨rest, rfl, behind⟩
          · obtain ⟨earlier, context, inner, later, rfl, rfl, rfl⟩ := calls_argument ih inside
            exact ⟨.argument function earlier context later, inner, rfl,
              rfl, by simp [Context.right]⟩
          · exact (split_singleton behind rfl).elim
  | base atom ih | factor power ih | term product ih =>
      rw [lexemes] at split
      obtain ⟨context, arguments, rfl, rfl, rfl⟩ := ih split
      first
      | exact ⟨.base context, arguments, rfl, rfl, rfl⟩
      | exact ⟨.factor context, arguments, rfl, rfl, rfl⟩
      | exact ⟨.term context, arguments, rfl, rfl, rfl⟩
  | minus product ih =>
      rw [lexemes] at split
      obtain ⟨rest, rfl, operand⟩ := split_cons split rfl
      obtain ⟨context, arguments, rfl, rfl, rfl⟩ := ih operand
      exact ⟨.minus context, arguments, rfl, rfl, rfl⟩
  | raise root exponent ihRoot ihExponent =>
      rw [lexemes] at split
      rcases split_between split rfl with ⟨rest, inside, rfl⟩ | ⟨others, rfl, operand⟩
      · obtain ⟨context, arguments, rfl, rfl, rfl⟩ := ihRoot inside
        exact ⟨.raised context exponent, arguments, rfl, rfl, by simp [Context.right]⟩
      · obtain ⟨context, arguments, rfl, rfl, rfl⟩ := ihExponent operand
        exact ⟨.raising root context, arguments, rfl, rfl, rfl⟩
  | scale operator scales left right ihLeft ihRight =>
      rw [lexemes] at split
      rcases split_between split rfl with ⟨rest, inside, rfl⟩ | ⟨others, rfl, operand⟩
      · obtain ⟨context, arguments, rfl, rfl, rfl⟩ := ihLeft inside
        exact ⟨.scaled operator scales context right, arguments, rfl, rfl, by simp [Context.right]⟩
      · obtain ⟨context, arguments, rfl, rfl, rfl⟩ := ihRight operand
        exact ⟨.scaling operator scales left context, arguments, rfl, rfl, rfl⟩
  | add operator adds left right ihLeft ihRight =>
      rw [lexemes] at split
      rcases split_between split rfl with ⟨rest, inside, rfl⟩ | ⟨others, rfl, operand⟩
      · obtain ⟨context, arguments, rfl, rfl, rfl⟩ := ihLeft inside
        exact ⟨.added operator adds context right, arguments, rfl, rfl, by simp [Context.right]⟩
      · obtain ⟨context, arguments, rfl, rfl, rfl⟩ := ihRight operand
        exact ⟨.adding operator adds left context, arguments, rfl, rfl, rfl⟩

theorem Phrase.callCount_eq_zero_iff {kind : Kind} {phrase : Phrase Leaf kind} :
    phrase.callCount = 0 ↔ ∀ name, Lexeme.name name ∉ phrase.lexemes := by
  induction phrase with
  | leaf content => simp [callCount, lexemes]
  | call name arguments ih =>
      constructor
      · intro callFree
        rw [callCount] at callFree
        omega
      · intro nameless
        rw [lexemes] at nameless
        exact absurd List.mem_cons_self (nameless name)
  | group inner ih | base atom ih | factor power ih | term product ih | minus product ih =>
      simp [callCount, lexemes, ih]
  | raise left right ihLeft ihRight | scale _ _ left right ihLeft ihRight
  | add _ _ left right ihLeft ihRight =>
      simp [callCount, lexemes, ihLeft, ihRight, forall_and]

end QuantityFormula
