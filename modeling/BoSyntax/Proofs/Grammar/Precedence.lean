import BoSyntax.Proofs.Grammar.Mirror

/-!
# Precedence

Operands joined by operators are grouped by splitting: at the first equals sign if there is one,
else at the last operator of a sum, else at the last operator of a product. The rules of the grammar
read from left to right, a product within a sum within an assignment, and come to the same tree.
-/

namespace BoSyntax

open BoSyntax.Language TokenCursor

/-! ## Dividing lists -/

section Division

variable {α : Type} (p : α → Prop) [DecidablePred p]

/-- A list divided at the first element of some kind. -/
def divideFirst? : List α → Option (List α × α × List α)
  | [] => none
  | a :: rest =>
    if p a then some ([], a, rest)
    else (divideFirst? rest).map fun (before, b, after) => (a :: before, b, after)

/-- A list divided at the last element of some kind. -/
def divideLast? : List α → Option (List α × α × List α)
  | [] => none
  | a :: rest =>
    match divideLast? rest with
    | some (before, b, after) => some (a :: before, b, after)
    | none => if p a then some ([], a, rest) else none

variable {p} {l before after : List α} {a : α}

/-- There is no division if there is no element of the kind. -/
theorem divideFirst?_eq_none_iff : divideFirst? p l = none ↔ ∀ b ∈ l, ¬p b := by
  induction l with
  | nil => simp [divideFirst?]
  | cons b l ih => by_cases hb : p b <;> simp [divideFirst?, hb, ih]

/-- The division is at the first element of the kind. -/
theorem of_divideFirst?_eq_some (h : divideFirst? p l = some (before, a, after)) :
    l = before ++ a :: after ∧ p a ∧ ∀ b ∈ before, ¬p b := by
  induction l generalizing before with
  | nil => cases h
  | cons b l ih =>
    by_cases hb : p b
    · simp only [divideFirst?, if_pos hb, Option.some.injEq, Prod.mk.injEq] at h
      obtain ⟨rfl, rfl, rfl⟩ := h
      exact ⟨rfl, hb, by simp⟩
    · simp only [divideFirst?, if_neg hb, Option.map_eq_some_iff, Prod.mk.injEq] at h
      obtain ⟨⟨before, a, after⟩, h, rfl, rfl, rfl⟩ := h
      obtain ⟨rfl, ha, hbefore⟩ := ih h
      exact ⟨rfl, ha, List.forall_mem_cons.mpr ⟨hb, hbefore⟩⟩

/-- There is no division if there is no element of the kind. -/
theorem divideLast?_eq_none_iff : divideLast? p l = none ↔ ∀ b ∈ l, ¬p b := by
  induction l with
  | nil => simp [divideLast?]
  | cons b l ih =>
    rw [List.forall_mem_cons, ← ih, divideLast?]
    cases divideLast? p l <;> simp

/-- The division is at the last element of the kind. -/
theorem of_divideLast?_eq_some (h : divideLast? p l = some (before, a, after)) :
    l = before ++ a :: after ∧ p a ∧ ∀ b ∈ after, ¬p b := by
  induction l generalizing before with
  | nil => cases h
  | cons b l ih =>
    rw [divideLast?] at h
    cases hrest : divideLast? p l with
    | some division =>
      obtain ⟨before, a, after⟩ := division
      simp only [hrest, Option.some.injEq, Prod.mk.injEq] at h
      obtain ⟨rfl, rfl, rfl⟩ := h
      obtain ⟨rfl, ha, hafter⟩ := ih hrest
      exact ⟨rfl, ha, hafter⟩
    | none =>
      simp only [hrest, Option.ite_none_right_eq_some, Option.some.injEq, Prod.mk.injEq] at h
      obtain ⟨hb, rfl, rfl, rfl⟩ := h
      exact ⟨rfl, hb, divideLast?_eq_none_iff.mp hrest⟩

end Division

/-! ## Splitting -/

/-- Some tokens that stand for a node, as an operand. -/
structure Operand where
  tokens : List Token
  node : Node

/-- An operator and the operand behind it. -/
abbrev Joint := Token × Operand

namespace Joint

/-- The operand is assigned to what stands before it. -/
def IsAssignment (joint : Joint) : Prop :=
  joint.1.type = .equals

/-- The operand is joined by one of some operators. -/
def IsOperation (operators : List String) (joint : Joint) : Prop :=
  Rule.IsOperator operators joint.1

/-- It is decided by the kind of the token whether an operand is assigned. -/
instance : DecidablePred IsAssignment :=
  fun joint => inferInstanceAs (Decidable (joint.1.type = .equals))

/-- It is decided by the token whether an operand is joined by one of some operators. -/
instance (operators : List String) : DecidablePred (IsOperation operators) :=
  fun joint => inferInstanceAs (Decidable (joint.1.type = .binaryOperator ∧
    joint.1.lexeme ∈ operators))

/-- The operator is an equals sign, or one of sums or products. -/
def Joins (joint : Joint) : Prop :=
  joint.IsAssignment ∨ joint.IsOperation additiveOperators ∨
    joint.IsOperation multiplicativeOperators

/-- Operators are no equals signs. -/
theorem IsOperation.not_isAssignment {operators : List String} {joint : Joint}
    (h : joint.IsOperation operators) : ¬joint.IsAssignment := by
  simp [IsAssignment, h.1]

/-- The operators of products are none of sums. -/
theorem IsOperation.not_additive {joint : Joint}
    (h : joint.IsOperation multiplicativeOperators) : ¬joint.IsOperation additiveOperators := by
  rintro ⟨-, hmem⟩
  obtain ⟨-, hmem'⟩ := h
  simp only [additiveOperators, multiplicativeOperators, List.mem_cons, List.not_mem_nil,
    or_false] at hmem hmem'
  rcases hmem with hmem | hmem <;> simp [hmem] at hmem'

end Joint

namespace Operand

/-- The tokens of operands joined by operators. -/
def phrase (first : Operand) (joints : List Joint) : List Token :=
  first.tokens ++ joints.flatMap fun joint => joint.1 :: joint.2.tokens

/-- The division at the last operator of a sum or, when there is none, of a product. -/
def divideOperation? (joints : List Joint) : Option (List Joint × Joint × List Joint) :=
  (divideLast? (Joint.IsOperation additiveOperators) joints).or
    (divideLast? (Joint.IsOperation multiplicativeOperators) joints)

/-- An operation is divided at an operator with no other one of its kind behind it, and of a product
only when there is no sum. -/
theorem of_divideOperation?_eq_some {joints before after : List Joint} {joint : Joint}
    (h : divideOperation? joints = some (before, joint, after)) :
    joints = before ++ joint :: after ∧
      ((joint.IsOperation additiveOperators ∧ ∀ b ∈ after, ¬b.IsOperation additiveOperators) ∨
        (∀ b ∈ joints, ¬b.IsOperation additiveOperators) ∧
          ∀ b ∈ after, ¬b.IsOperation multiplicativeOperators) := by
  rw [divideOperation?, Option.or_eq_some_iff] at h
  rcases h with h | ⟨hnone, h⟩
  · obtain ⟨heq, hjoint, hafter⟩ := of_divideLast?_eq_some h
    exact ⟨heq, .inl ⟨hjoint, hafter⟩⟩
  · obtain ⟨heq, -, hafter⟩ := of_divideLast?_eq_some h
    exact ⟨heq, .inr ⟨divideLast?_eq_none_iff.mp hnone, hafter⟩⟩

/-- What cannot be divided holds no operator. -/
theorem not_isOperation_of_divideOperation? {joints : List Joint}
    (h : divideOperation? joints = none) :
    ∀ joint ∈ joints, ¬(joint.IsOperation additiveOperators ∨
      joint.IsOperation multiplicativeOperators) := by
  rw [divideOperation?, Option.or_eq_none_iff, divideLast?_eq_none_iff,
    divideLast?_eq_none_iff] at h
  exact fun joint hmem => not_or.mpr ⟨h.1 joint hmem, h.2 joint hmem⟩

/-- The parts of a divided list are shorter. -/
theorem length_lt_of_eq {joints before after : List Joint} {joint : Joint}
    (h : joints = before ++ joint :: after) :
    before.length < joints.length ∧ after.length < joints.length := by
  rw [h, List.length_append, List.length_cons]
  omega

/-- The tree of operands joined by operators, by splitting at the first equals sign, else at the
last operator of a sum, else at the last operator of a product. -/
def split (first : Operand) (joints : List Joint) : Node :=
  match h : divideFirst? Joint.IsAssignment joints with
  | some (before, (_, operand), after) =>
    have := length_lt_of_eq (of_divideFirst?_eq_some h).1
    .assign (split first before).start (split first before) (split operand after)
  | none =>
    match h : divideOperation? joints with
    | some (before, (operator, operand), after) =>
      have := length_lt_of_eq (of_divideOperation?_eq_some h).1
      .binary (split first before).start (split first before) (split operand after) operator.lexeme
    | none => first.node
termination_by joints.length

section Equations

variable {first operand : Operand} {joints before after : List Joint} {operator : Token}

/-- A single operand is its own tree. -/
@[simp] theorem split_nil : split first [] = first.node := by
  rw [split]
  rfl

/-- The tree at an equals sign is an assignment of the two sides. -/
theorem split_of_divideFirst?
    (h : divideFirst? Joint.IsAssignment joints = some (before, (operator, operand), after)) :
    split first joints =
      .assign (split first before).start (split first before) (split operand after) := by
  rw [split]
  split <;> simp_all

/-- The tree at an operator is an operation on the two sides, if there is no equals sign. -/
theorem split_of_divideOperation? (h : divideFirst? Joint.IsAssignment joints = none)
    (h' : divideOperation? joints = some (before, (operator, operand), after)) :
    split first joints =
      .binary (split first before).start (split first before) (split operand after)
        operator.lexeme := by
  rw [split]
  split
  · simp_all
  · split <;> simp_all

end Equations

/-! ## Reading operands joined by operators -/

/-- An operand is read as a call, to the end of input, when expressions within it nest to at most so
many levels. -/
def ReadWithin (depth : Nat) (operand : Operand) : Prop :=
  ∃ c d, c.Takes operand.tokens d ∧ d.current.type = .endOfInput ∧
    Rule.callMember (Rule.expression depth) c = .ok operand.node d

/-- What is read as a call is one. -/
theorem ReadWithin.call {depth : Nat} {operand : Operand} (h : operand.ReadWithin depth) :
    Call (ExpressionWithin depth) operand.tokens operand.node := by
  obtain ⟨c, d, hs, -, h⟩ := h
  obtain ⟨s, hs', hcall, -⟩ := (Rule.callMember_reads (Rule.expression_reads depth)).of_eq_ok h
  obtain rfl : s = operand.tokens :=
    List.append_cancel_right (hs'.ahead.symm.trans hs.ahead)
  exact hcall

/-- A name as an operand. -/
def name (token : Token) : Operand :=
  ⟨[token], .identifier token.start token.lexeme⟩

/-- A name is a call of any language. -/
theorem call_name {E : Language Node} {token : Token} (h : token.type = .identifier) :
    Call E (name token).tokens (name token).node :=
  .base (.base (.name h))

/-- A name is read at any depth. -/
theorem readWithin_name {token : Token} (h : token.type = .identifier) (depth : Nat) :
    (name token).ReadWithin depth := by
  obtain ⟨d, hs, hcurrent⟩ := @exists_takes_body (name token).tokens (.ending ⟨1, 1⟩)
    (by simp [name, h]) rfl
  refine ⟨_, d, hs, by rw [hcurrent]; rfl, ?_⟩
  exact Rule.callMember_accepts (Rule.expression_reads depth) (Rule.expression_accepts depth)
    (fun _ _ h => h.starts) _ _ _ _ (call_name h) hs
    (by simp [hcurrent, Token.ending, Rule.AfterCall, Rule.AfterMember])

section Languages

variable {E : Language Node} {first : Operand} {joints before after : List Joint} {joint : Joint}

/-- The tokens at a division are those of the two sides, and the operator. -/
theorem phrase_append :
    phrase first (before ++ joint :: after) =
      phrase first before ++ joint.1 :: phrase joint.2 after := by
  simp [phrase]

/-- A single operand has its own tokens. -/
@[simp] theorem phrase_nil : phrase first [] = first.tokens := by
  simp [phrase]

/-- Operands joined by the operators of products are a product, grouped at the last operator. -/
theorem product_split (hfirst : Call E first.tokens first.node)
    (hjoints : ∀ joint ∈ joints, joint.IsOperation multiplicativeOperators ∧
      Call E joint.2.tokens joint.2.node) :
    Product E (phrase first joints) (split first joints) := by
  fun_induction split first joints with
  | case1 first joints before equals operand after h hlt ih ih' =>
    obtain ⟨rfl, hequals, -⟩ := of_divideFirst?_eq_some h
    exact absurd hequals (hjoints _ (by simp)).1.not_isAssignment
  | case2 first joints hnone before operator operand after h hlt ih ih' =>
    obtain ⟨rfl, ⟨hsum, -⟩ | ⟨-, hafter⟩⟩ := of_divideOperation?_eq_some h
    · exact absurd hsum (hjoints _ (by simp)).1.not_additive
    · obtain rfl : after = [] := List.eq_nil_iff_forall_not_mem.mpr fun joint hmem =>
        hafter joint hmem (hjoints joint (by simp [hmem])).1
      obtain ⟨⟨htype, hmem⟩, hoperand⟩ := hjoints (operator, operand) (by simp)
      rw [phrase_append, phrase_nil, split_nil]
      exact .extend (ih hfirst fun joint hjoint => hjoints joint (by simp [hjoint]))
        (.operator htype hmem hoperand)
  | case3 first joints hnone hnone' =>
    obtain rfl : joints = [] := List.eq_nil_iff_forall_not_mem.mpr fun joint hmem =>
      not_isOperation_of_divideOperation? hnone' joint hmem (.inr (hjoints joint hmem).1)
    exact .base (by simpa using hfirst)

/-- Operands joined by the operators of sums and products are a sum, grouped at the last operator of
a sum. -/
theorem sum_split (hfirst : Call E first.tokens first.node)
    (hjoints : ∀ joint ∈ joints, (joint.IsOperation additiveOperators ∨
      joint.IsOperation multiplicativeOperators) ∧ Call E joint.2.tokens joint.2.node) :
    Sum E (phrase first joints) (split first joints) := by
  induction first, joints using split.induct with
  | case1 first joints before equals operand after h hlt ih ih' =>
    obtain ⟨rfl, hequals, -⟩ := of_divideFirst?_eq_some h
    rcases (hjoints (equals, operand) (by simp)).1 with hjoint | hjoint <;>
      exact absurd hequals hjoint.not_isAssignment
  | case2 first joints hnone before operator operand after h hlt ih ih' =>
    rcases of_divideOperation?_eq_some h with ⟨heq, ⟨⟨htype, hmem⟩, hafter⟩ | ⟨hall, -⟩⟩
    · rw [split_of_divideOperation? hnone h]
      subst heq
      have hright : Product E (phrase operand after) (split operand after) :=
        product_split (hjoints (operator, operand) (by simp)).2 fun joint hjoint =>
          (hjoints joint (by simp [hjoint])).imp_left fun hkind =>
            hkind.resolve_left (hafter joint hjoint)
      rw [phrase_append]
      exact .extend (ih hfirst fun joint hjoint => hjoints joint (by simp [hjoint]))
        (.operator htype hmem hright)
    · exact .base (product_split hfirst fun joint hmem =>
        (hjoints joint hmem).imp_left fun hkind => hkind.resolve_left (hall joint hmem))
  | case3 first joints hnone hnone' =>
    obtain rfl : joints = [] := List.eq_nil_iff_forall_not_mem.mpr fun joint hmem =>
      not_isOperation_of_divideOperation? hnone' joint hmem (hjoints joint hmem).1
    exact .base (.base (by simpa using hfirst))

/-- Operands without an equals sign between them are an expression of one more level. -/
theorem expression_split_of_sum {depth : Nat} (h : divideFirst? Joint.IsAssignment joints = none)
    (hfirst : Call (ExpressionWithin depth) first.tokens first.node)
    (hjoints : ∀ joint ∈ joints, joint.Joins ∧
      Call (ExpressionWithin depth) joint.2.tokens joint.2.node) :
    ExpressionWithin (depth + joints.countP Joint.IsAssignment + 1) (phrase first joints)
      (split first joints) := by
  rw [divideFirst?_eq_none_iff] at h
  have hcount : joints.countP Joint.IsAssignment = 0 :=
    List.countP_eq_zero.mpr fun joint hmem => by simpa using h joint hmem
  have hsum := sum_split hfirst fun joint hmem =>
    (hjoints joint hmem).imp_left fun hkind => hkind.resolve_left (h joint hmem)
  rw [hcount]
  exact .object (.sum hsum)

/-- Operands joined by operators are an expression, grouped at the first equals sign, with one more
level of nesting for every equals sign. -/
theorem expression_split {depth : Nat}
    (hfirst : Call (ExpressionWithin depth) first.tokens first.node)
    (hjoints : ∀ joint ∈ joints, joint.Joins ∧
      Call (ExpressionWithin depth) joint.2.tokens joint.2.node) :
    ExpressionWithin (depth + joints.countP Joint.IsAssignment + 1) (phrase first joints)
      (split first joints) := by
  induction first, joints using split.induct with
  | case1 first joints before equals operand after h hlt ih ih' =>
    rw [split_of_divideFirst? h]
    obtain ⟨rfl, hequals, hbefore⟩ := of_divideFirst?_eq_some h
    have hvalue := ih' (hjoints (equals, operand) (by simp)).2
      fun joint hmem => hjoints joint (by simp [hmem])
    have htarget := sum_split hfirst fun joint hmem =>
      (hjoints joint (by simp [hmem])).imp_left fun hkind => hkind.resolve_left (hbefore joint hmem)
    have hcount : (before ++ (equals, operand) :: after).countP Joint.IsAssignment =
        after.countP Joint.IsAssignment + 1 := by
      have hnone : before.countP Joint.IsAssignment = 0 :=
        List.countP_eq_zero.mpr fun joint hmem => by simpa using hbefore joint hmem
      rw [List.countP_append, hnone, List.countP_cons_of_pos (by simpa using hequals), Nat.zero_add]
    rw [phrase_append, hcount]
    exact .assign (.sum (htarget.imp fun _ _ _ h => h.mono (by omega))) hequals hvalue
  | case2 first joints hnone => exact expression_split_of_sum hnone hfirst hjoints
  | case3 first joints hnone => exact expression_split_of_sum hnone hfirst hjoints

end Languages

end Operand

namespace Rule

variable {limit depth : Nat} {c d : TokenCursor} {first : Operand} {joints : List Joint}

/-- A higher limit changes nothing unless the levels of the lower one run out. -/
theorem expression_mono {limit' : Nat} (hle : limit ≤ limit') :
    expression limit' c = expression limit c ∨
      ∃ d, expression limit c = .error .exhausted d := by
  have hmirrors : Mirrors id (· = .exhausted) (Node.relocate id) (expression limit)
      (expression limit') :=
    expression_mirrors hle (.inr rfl)
  have hrun := hmirrors c
  rw [TokenCursor.relocate_id] at hrun
  cases heq : expression limit c with
  | ok v d => exact .inl (by rw [hrun.of_eq_ok heq, Node.relocate_id, TokenCursor.relocate_id])
  | error fault d =>
    rcases hrun.of_eq_error heq with rfl | heq'
    · exact .inr ⟨d, rfl⟩
    · exact .inl (by rw [heq', fault.relocate_id, TokenCursor.relocate_id])

/-- Operands joined by operators are read to what closes them, and the tree is told by splitting,
whenever the limit leaves one level beside those of the operands and one for every equals sign.
Under any limit there is no other outcome but that its levels run out. -/
theorem expression_of_operands (hfirst : first.ReadWithin depth)
    (hjoints : ∀ joint ∈ joints, joint.Joins ∧ joint.2.ReadWithin depth)
    (hs : c.Takes (first.phrase joints) d) (hclosing : d.current.type ∈ closers) :
    (depth + joints.countP Joint.IsAssignment < limit →
      expression limit c = .ok (first.split joints) d) ∧
    (expression limit c = .ok (first.split joints) d ∨
      ∃ e, expression limit c = .error .exhausted e) := by
  have hphrase := Operand.expression_split hfirst.call fun joint hmem =>
    (hjoints joint hmem).imp_right Operand.ReadWithin.call
  have hread : ∀ limit', depth + joints.countP Joint.IsAssignment < limit' →
      expression limit' c = .ok (first.split joints) d := fun limit' hlt =>
    expression_accepts limit' _ _ _ _ (hphrase.mono hlt) hs
      (afterExpression_of_mem_closers hclosing)
  refine ⟨hread limit, ?_⟩
  have hle : limit ≤ max limit (depth + joints.countP Joint.IsAssignment + 1) :=
    Nat.le_max_left _ _
  rcases expression_mono (c := c) hle with heq | hexhausted
  · exact .inl (heq.symm.trans (hread _ (Nat.le_max_right _ _)))
  · exact .inr hexhausted

/-- A product is the right operand of a difference, and the difference is the value of an
assignment. -/
theorem expression_of_difference :
    let first := Operand.name ⟨.identifier, "a", ⟨1, 1⟩⟩
    let joints : List Joint := [(⟨.equals, "=", ⟨1, 2⟩⟩, .name ⟨.identifier, "b", ⟨1, 3⟩⟩),
      (⟨.binaryOperator, "-", ⟨1, 4⟩⟩, .name ⟨.identifier, "c", ⟨1, 5⟩⟩),
      (⟨.binaryOperator, "*", ⟨1, 6⟩⟩, .name ⟨.identifier, "d", ⟨1, 7⟩⟩)]
    (first.ReadWithin 0 ∧ ∀ joint ∈ joints, joint.Joins ∧ joint.2.ReadWithin 0) ∧
      ∃ d, expression 2 (ofTokens (first.phrase joints ++ [.ending ⟨1, 8⟩])) =
        .ok (.assign ⟨1, 1⟩ (.identifier ⟨1, 1⟩ "a") (.binary ⟨1, 3⟩ (.identifier ⟨1, 3⟩ "b")
          (.binary ⟨1, 5⟩ (.identifier ⟨1, 5⟩ "c") (.identifier ⟨1, 7⟩ "d") "*") "-")) d := by
  intro first joints
  have hfirst : first.ReadWithin 0 := Operand.readWithin_name rfl 0
  have hjoints : ∀ joint ∈ joints, joint.Joins ∧ joint.2.ReadWithin 0 := by
    simp only [joints, List.forall_mem_cons]
    exact ⟨⟨.inl rfl, Operand.readWithin_name rfl 0⟩,
      ⟨.inr (.inl ⟨rfl, by decide⟩), Operand.readWithin_name rfl 0⟩,
      ⟨.inr (.inr ⟨rfl, by decide⟩), Operand.readWithin_name rfl 0⟩, by simp⟩
  obtain ⟨d, hs, hcurrent⟩ := @exists_takes_body (first.phrase joints) (.ending ⟨1, 8⟩)
    (by decide) rfl
  have hclosing : d.current.type ∈ closers := by
    rw [hcurrent]
    decide
  refine ⟨⟨hfirst, hjoints⟩, d, ?_⟩
  rw [(expression_of_operands hfirst hjoints hs hclosing).1 (by decide)]
  congr 1
  simp only [first, joints]
  cbv

/-- The levels run out for names assigned to one another when there are as many equals signs. -/
theorem expression_exhausted {token : Token} {names : List (Token × Token)}
    (htoken : token.type = .identifier)
    (hnames : ∀ pair ∈ names, pair.1.type = .equals ∧ pair.2.type = .identifier)
    (hlimit : limit ≤ names.length)
    (hs : c.Takes (Operand.phrase (.name token) (names.map fun pair => (pair.1, .name pair.2))) d) :
    (expression limit).Ensures c (fun _ _ => False) fun fault _ => fault = .exhausted := by
  induction limit generalizing c token names with
  | zero => exact rfl
  | succ limit ih =>
    obtain ⟨⟨equals, token'⟩, names, rfl⟩ := List.exists_cons_of_length_pos
      (Nat.zero_lt_of_lt hlimit)
    obtain ⟨⟨hequals, htoken'⟩, hrest⟩ := List.forall_mem_cons.mp hnames
    simp only [Operand.phrase, List.map_cons, List.flatMap_cons, takes_append_iff,
      List.cons_append, takes_cons_iff] at hs hequals
    obtain ⟨e, hs, -, rfl, hchain⟩ := hs
    have htarget := object_accepts (expression_reads limit) (expression_accepts limit)
      (fun _ _ h => h.starts) _ _ _ _ (.sum (.base (.base (Operand.call_name htoken)))) hs
      (by simp [AfterObject, AfterMember, Separated, hequals])
    have hvalue := ih htoken' hrest (Nat.le_of_succ_le_succ hlimit) (takes_append_iff.mpr hchain)
    simp only [expression, assignment, ensures_bind, ensures_of_eq_ok htarget, ensures_sees,
      ensures_ite, hequals, ensures_discard, ensures_advance]
    exact ⟨fun _ => hvalue.mono (fun _ _ h => h) fun _ _ h => h, fun h => h rfl⟩

/-- Under no limit are all operands joined by operators told by splitting: a name that is assigned
to itself as often as there are levels exhausts them. -/
theorem expression_ne_split_of_chain :
    let first := Operand.name ⟨.identifier, "a", ⟨1, 1⟩⟩
    let chain (limit : Nat) : List Joint := List.replicate limit (⟨.equals, "=", ⟨1, 1⟩⟩, first)
    first.ReadWithin 0 ∧ ∀ limit,
      (∀ joint ∈ chain limit, joint.Joins ∧ joint.2.ReadWithin 0) ∧
      ∃ d e, (ofTokens (first.phrase (chain limit) ++ [.ending ⟨1, 1⟩])).Takes
          (first.phrase (chain limit)) d ∧ d.current.type ∈ closers ∧
        expression limit (ofTokens (first.phrase (chain limit) ++ [.ending ⟨1, 1⟩])) =
          .error .exhausted e := by
  intro first chain
  have hfirst : first.ReadWithin 0 := Operand.readWithin_name rfl 0
  refine ⟨hfirst, fun limit => ⟨fun joint hmem => ?_, ?_⟩⟩
  · obtain ⟨-, rfl⟩ := List.mem_replicate.mp hmem
    exact ⟨.inl rfl, hfirst⟩
  have hchain : chain limit = (List.replicate limit (⟨.equals, "=", ⟨1, 1⟩⟩,
      ⟨.identifier, "a", ⟨1, 1⟩⟩)).map fun pair => (pair.1, .name pair.2) := by
    rw [List.map_replicate]
  have hbody : ∀ token ∈ first.phrase (chain limit), token.type ≠ .endOfInput := by
    intro token hmem
    rw [Operand.phrase, List.mem_append, List.mem_flatMap] at hmem
    obtain hmem | ⟨joint, hjoint, hmem⟩ := hmem
    · rw [List.mem_singleton.mp hmem]
      decide
    · obtain ⟨-, rfl⟩ := List.mem_replicate.mp hjoint
      obtain rfl | hmem := List.mem_cons.mp hmem
      · decide
      · rw [List.mem_singleton.mp hmem]
        decide
  obtain ⟨d, hs, hcurrent⟩ :=
    @exists_takes_body (first.phrase (chain limit)) (.ending ⟨1, 1⟩) hbody rfl
  refine ⟨d, ?_⟩
  generalize ofTokens (first.phrase (chain limit) ++ [.ending ⟨1, 1⟩]) = c at hs ⊢
  have hexhausted : (expression limit).Ensures c (fun _ _ => False)
      fun fault _ => fault = .exhausted := by
    refine expression_exhausted rfl (fun pair hmem => ?_) ?_ (hchain ▸ hs)
    · obtain ⟨-, rfl⟩ := List.mem_replicate.mp hmem
      exact ⟨rfl, rfl⟩
    · rw [List.length_replicate]
  cases heq : expression limit c with
  | ok v e => exact (hexhausted.of_eq_ok heq).elim
  | error fault e =>
    obtain rfl := hexhausted.of_eq_error heq
    exact ⟨e, hs, by rw [hcurrent]; decide, rfl⟩

end Rule

end BoSyntax
