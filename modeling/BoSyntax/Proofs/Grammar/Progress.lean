import BoSyntax.Proofs.Grammar.Soundness

/-!
# Progress

A rule that gives a value has taken as many tokens as its shortest phrase has, so it has moved on.
It does so from any cursor, also where a declaration is read that no keyword begins. A loop of the
grammar goes on only when a round of it gave something, so its rounds stand at growing positions. It
is therefore one round and then the loop again: no bound on the rounds makes a difference.
-/

namespace BoSyntax

/-- The token in sight is taken, unless it is the end of input. -/
theorem TokenCursor.exists_takes_next (c : TokenCursor) : ∃ s, c.Takes s c.next := by
  by_cases hend : c.current.type = .endOfInput
  · have hahead := c.current_type_eq_endOfInput_iff.mp hend
    exact ⟨[], takes_nil_iff.mpr (eq_of_ahead (by simp [next, hahead]) rfl rfl)⟩
  · exact ⟨_, takes_current hend⟩

namespace Rule

open BoSyntax.Language TokenCursor

variable {α β : Type} {c d : TokenCursor} {depth least limit : Nat}

/-! ## Tokens taken -/

/-- A rule that gives a value has taken so many tokens at least. -/
def TakesAtLeast (least : Nat) (rule : Rule α) : Prop :=
  rule.Reads 0 fun s _ _ => least ≤ s.length

section Reads

variable {rule : Rule α} {Related : List Token → α → Token → Prop}

/-- A rule takes as many tokens as there are at least in what it reads. -/
theorem Reads.takesAtLeast (h : rule.Reads depth Related)
    (hleast : ∀ s value token, Related s value token → least ≤ s.length) :
    rule.TakesAtLeast least :=
  fun c => (h c).mono (fun value _ ⟨s, hs, hrelated⟩ => ⟨s, hs, hleast s value _ hrelated⟩)
    fun _ _ hfault => hfault.of_takes (.refl c) (Nat.zero_le _)

/-- A rule that reads no empty segment takes a token. -/
theorem Reads.takesAtLeast_one (h : rule.Reads depth Related)
    (hnonempty : ∀ s value token, Related s value token → s ≠ []) : rule.TakesAtLeast 1 :=
  h.takesAtLeast fun s value token hrelated =>
    List.length_pos_iff.mpr (hnonempty s value token hrelated)

/-- To change the value changes nothing about the tokens that are taken. -/
theorem TakesAtLeast.map (h : rule.TakesAtLeast least) (f : α → β) :
    (f <$> rule).TakesAtLeast least := by
  intro c
  rw [map_eq_pure_bind, ensures_bind]
  exact h c

end Reads

/-- A primary expression has a token. -/
theorem primary_takesAtLeast : (primary (expression limit)).TakesAtLeast 1 :=
  (primary_reads (expression_reads limit)).takesAtLeast_one fun _ _ _ h => h.starts.ne_nil

/-- A row of members has a token. -/
theorem member_takesAtLeast : (member (expression limit)).TakesAtLeast 1 :=
  (member_reads (expression_reads limit)).takesAtLeast_one fun _ _ _ h =>
    (Chain.starts h fun _ _ h => h.starts).ne_nil

/-- A list of arguments without its parentheses has a token. -/
theorem argumentList_takesAtLeast : (argumentList (expression limit)).TakesAtLeast 1 :=
  (argumentList_reads (expression_reads limit)).takesAtLeast_one fun _ _ _ h =>
    (h.starts fun _ _ h => h.starts).ne_nil

/-- Arguments have two parentheses. -/
theorem arguments_takesAtLeast : (arguments (expression limit)).TakesAtLeast 2 :=
  (arguments_reads (expression_reads limit)).takesAtLeast fun _ _ _ h => by cases h <;> simp

/-- A call of a given callee has two parentheses at least, whatever calls follow it. -/
theorem call_takesAtLeast (callee : Node) : (call (expression limit) callee).TakesAtLeast 2 := by
  intro c
  rw [call, ensures_bind]
  refine (arguments_takesAtLeast c).mono ?_ fun _ _ hfault => hfault
  rintro args d ⟨s, hs, hleast⟩
  have hcalls := grow_reads (callStep_reads (expression_reads limit))
    (round_ne_nil callSuffix_ne_nil) (.call callee.start callee args)
  refine hcalls.ensures_after hs (Nat.zero_le _) fun _ _ t hst _ _ => ⟨s ++ t, hst, ?_⟩
  have hlength : (s ++ t).length = s.length + t.length := List.length_append
  omega

/-- A row of calls has a token. -/
theorem callMember_takesAtLeast : (callMember (expression limit)).TakesAtLeast 1 :=
  (callMember_reads (expression_reads limit)).takesAtLeast_one fun _ _ _ h =>
    (Call.starts h.1).ne_nil

/-- A product has a token. -/
theorem multiplicative_takesAtLeast : (multiplicative (expression limit)).TakesAtLeast 1 :=
  (operation_reads (callMember_reads (expression_reads limit))).takesAtLeast_one fun _ _ _ h =>
    (Product.starts h.1).ne_nil

/-- A sum has a token. -/
theorem additive_takesAtLeast : (additive (expression limit)).TakesAtLeast 1 :=
  (additive_reads (expression_reads limit)).takesAtLeast_one fun _ _ _ h => (Sum.starts h.1).ne_nil

/-- An object or sum has a token. -/
theorem object_takesAtLeast : (object (expression limit)).TakesAtLeast 1 :=
  (object_reads (expression_reads limit)).takesAtLeast_one fun _ _ _ h => h.1.starts.ne_nil

/-- An expression has a token. -/
theorem expression_takesAtLeast : (expression limit).TakesAtLeast 1 :=
  (expression_reads limit).takesAtLeast_one fun _ _ _ h => h.1.starts.ne_nil

/-- Whatever the keyword is, a declaration of a variable has at least a name behind it. -/
theorem variableDeclaration_takesAtLeast :
    (variableDeclaration (expression limit)).TakesAtLeast 1 := by
  intro c
  simp only [variableDeclaration, ensures_bind, ensures_advance, ensures_expect, ensures_sees,
    ensures_ite, ensures_discard, ensures_build, ensures_reject, beq_iff_eq]
  obtain ⟨s, hs⟩ := c.exists_takes_next
  refine ⟨fun hname => ?_, fun _ => ParseFault.justified_after hs (by simp)⟩
  have hhead := hs.trans (takes_current (by simp [hname]))
  refine ⟨fun hsemicolon => ⟨fun _ => ParseFault.justified_after hhead (by simp), fun _ => ?_⟩,
    fun _ => ⟨fun hequals => ?_, fun _ => ParseFault.justified_after hhead (by simp)⟩⟩
  · exact ⟨_, hhead.trans (takes_current (by simp [hsemicolon])), List.length_pos_iff.mpr (by simp)⟩
  · have htakes := hhead.trans (takes_current (by simp [hequals]))
    refine expression_takesAtLeast.ensures_after htakes (Nat.zero_le _) fun value d t ht _ _ =>
      ⟨fun hsemicolon => ?_, fun _ => ParseFault.justified_after ht (by simp)⟩
    exact ⟨_, ht.trans (takes_current (by simp [hsemicolon])), List.length_pos_iff.mpr (by simp)⟩

/-- Whatever the keyword is, a declaration of a function has at least a name behind it. -/
theorem functionDeclaration_takesAtLeast :
    (functionDeclaration (expression limit) (statement limit)).TakesAtLeast 1 := by
  intro c
  simp only [functionDeclaration, ensures_bind, ensures_advance, ensures_expect, ensures_current]
  obtain ⟨s, hs⟩ := c.exists_takes_next
  refine ⟨fun hname => ?_, fun _ => ParseFault.justified_after hs (by simp)⟩
  have hhead := hs.trans (takes_current (by simp [hname]))
  refine (arguments_reads (expression_reads limit)).ensures_after hhead (Nat.zero_le _)
    fun args d t ht ht' hargs => ?_
  split
  next =>
    refine ⟨⟨_, ht, .inl ?_⟩, by simp⟩
    rw [ht'.current]
    cases hargs <;> simp
  next =>
    simp only [ensures_bind, ensures_discard, ensures_expect, ensures_pure]
    refine ⟨fun hopening => ?_, fun _ => ParseFault.justified_after ht (by simp)⟩
    have hmany := many_reads (bodyStep_reads (statement_reads limit))
      (statementRound_ne_nil fun _ _ h => h.starts.ne_nil)
    have htakes := ht.trans (takes_current (by simp [hopening]))
    refine hmany.ensures_after htakes (Nat.zero_le _) fun body e u hu _ _ =>
      ⟨fun hclosing => ?_, fun _ => ParseFault.justified_after hu (by simp)⟩
    exact ⟨_, hu.trans (takes_current (by simp [hclosing])), List.length_pos_iff.mpr (by simp)⟩

/-- A statement has a token. -/
theorem statement_takesAtLeast : (statement limit).TakesAtLeast 1 :=
  (statement_reads limit).takesAtLeast_one fun _ _ _ h => h.1.starts.ne_nil

/-- A program may be empty. -/
theorem program_takesAtLeast : (program limit).TakesAtLeast 0 :=
  (program_reads limit).takesAtLeast fun _ _ _ _ => Nat.zero_le _

/-! ## Loops -/

/-- A loop that gathers values ends by itself: a round that gives one has moved on, and the loop is
a round and then the loop again. -/
structure ManyEnds (item : Rule (Option α)) : Prop where
  progress : ∀ c value d, item c = .ok (some value) d → c.position < d.position
  unroll : many item = do
    match ← item with
    | none => return []
    | some value => return value :: (← many item)

/-- A loop that extends a value ends by itself: a round that gives a larger one has moved on, and
the loop is a round and then the loop again. -/
structure GrowEnds (extend : α → Rule (Option α)) : Prop where
  progress : ∀ value c larger d, extend value c = .ok (some larger) d → c.position < d.position
  unroll : ∀ value, grow extend value = do
    match ← extend value with
    | none => return value
    | some larger => grow extend larger

/-- A round that leaves fewer tokens stands at a smaller position than what follows it. -/
theorem Shortens.position_lt {item : Rule (Option α)} {value : α} (h : item.Shortens)
    (heq : item c = .ok (some value) d) : c.position < d.position := by
  obtain ⟨hlt, hsize⟩ := h c value d heq
  have hle := c.ahead_le_size
  rw [position, position]
  omega

/-- A loop that gathers values ends by itself if each round leaves fewer tokens. -/
theorem Shortens.manyEnds {item : Rule (Option α)} (h : item.Shortens) : ManyEnds item :=
  ⟨fun _ _ _ heq => h.position_lt heq, many_eq h⟩

/-- A loop that extends a value ends by itself if each round leaves fewer tokens. -/
theorem growEnds_of_shortens {extend : α → Rule (Option α)} (h : ∀ value, (extend value).Shortens) :
    GrowEnds extend :=
  ⟨fun value _ _ _ heq => (h value).position_lt heq, grow_eq h⟩

/-- All loops of the grammar end by themselves. -/
structure LoopsEnd (limit : Nat) : Prop where
  statements : ManyEnds (programStep limit)
  body : ManyEnds (bodyStep (statement limit))
  properties : ManyEnds (propertyStep (expression limit))
  arguments : ManyEnds (furtherArgument (expression limit))
  members : GrowEnds (memberStep (expression limit))
  calls : GrowEnds (callStep (expression limit))
  products : GrowEnds (operationStep multiplicativeOperators (callMember (expression limit)))
  sums : GrowEnds (operationStep additiveOperators (multiplicative (expression limit)))

/-- In each round of a loop of the grammar there is a token at least, so all of them end. -/
theorem loopsEnd (limit : Nat) : LoopsEnd limit where
  statements := (programStep_shortens limit).manyEnds
  body := (bodyStep_shortens (statement_reads limit) fun _ _ h => h.starts.ne_nil).manyEnds
  properties := (propertyStep_shortens (expression_reads limit)).manyEnds
  arguments := (furtherArgument_shortens (expression_reads limit)).manyEnds
  members := growEnds_of_shortens (memberStep_shortens (expression_reads limit))
  calls := growEnds_of_shortens (callStep_shortens (expression_reads limit))
  products :=
    growEnds_of_shortens (operationStep_shortens (callMember_reads (expression_reads limit)))
  sums := growEnds_of_shortens
    (operationStep_shortens (operation_reads (callMember_reads (expression_reads limit))))

end Rule

end BoSyntax
