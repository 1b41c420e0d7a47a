import BoSyntax.Proofs.Grammar.Recognition

/-!
# How far a rule looks

A rule never looks beyond the token in sight. So its outcome is settled by the tokens that it takes
and the one that is in sight at the end: on any other tokens that begin with these it takes as many,
and gives the same value or meets the same fault.
-/

namespace BoSyntax

open BoSyntax.Language TokenCursor

namespace Rule

variable {α β : Type} {c d c' d' : TokenCursor} {rule : Rule α}

/-- From a cursor on, the outcome of a rule is settled by the tokens that it takes and the one in
sight at the end. -/
def SettledAt (rule : Rule α) (c : TokenCursor) : Prop :=
  rule.Ensures c
    (fun value d => ∃ s, c.Takes s d ∧
      ∀ c' d', c'.Takes s d' → d'.current = d.current → rule c' = .ok value d')
    fun fault d => ∃ s, c.Takes s d ∧
      ∀ c' d', c'.Takes s d' → d'.current = d.current → rule c' = .error fault d'

/-- The outcome of a rule is settled everywhere by what it takes and what is then in sight. -/
def Settled (rule : Rule α) : Prop :=
  ∀ c, rule.SettledAt c

/-! ## Ways of building rules -/

section Building

/-- What is in sight between two segments is settled as well. -/
theorem current_eq_of_takes {s : List Token} (h : c.Takes s d) (h' : c'.Takes s d')
    (hcurrent : d'.current = d.current) : c'.current = c.current := by
  rw [h.current, h'.current, hcurrent]

/-- What two steps do one after the other is settled, if the first is settled and the second is
where the first one ends. -/
theorem SettledAt.bind {first : Rule β} {rest : β → Rule α} (h : first.SettledAt c)
    (hrest : ∀ value d, first c = .ok value d → (rest value).SettledAt d) :
    (first >>= rest).SettledAt c := by
  rw [SettledAt, ensures_bind]
  unfold SettledAt at h
  cases heq : first c with
  | error fault d =>
    obtain ⟨s, hs, hsettled⟩ := h.of_eq_error heq
    simp only [Ensures, heq]
    exact ⟨s, hs, fun c' d' hs' hcurrent => bind_of_eq_error (hsettled c' d' hs' hcurrent)⟩
  | ok value d =>
    obtain ⟨s, hs, hsettled⟩ := h.of_eq_ok heq
    rw [ensures_of_eq_ok heq]
    have hbetween : ∀ {c' e e' : TokenCursor} {t : List Token}, d.Takes t e →
        c'.Takes (s ++ t) e' → e'.current = e.current →
        ∃ d', first c' = .ok value d' ∧ d'.Takes t e' := by
      intro c' e e' t ht hst hcurrent
      obtain ⟨d', hs', ht'⟩ := takes_append_iff.mp hst
      exact ⟨d', hsettled c' d' hs' (current_eq_of_takes ht ht' hcurrent), ht'⟩
    refine (hrest value d heq).mono ?_ ?_
    · rintro w e ⟨t, ht, hsettled'⟩
      refine ⟨s ++ t, hs.trans ht, fun c' e' hst hcurrent => ?_⟩
      obtain ⟨d', hfirst, ht'⟩ := hbetween ht hst hcurrent
      rw [bind_of_eq_ok hfirst]
      exact hsettled' d' e' ht' hcurrent
    · rintro fault e ⟨t, ht, hsettled'⟩
      refine ⟨s ++ t, hs.trans ht, fun c' e' hst hcurrent => ?_⟩
      obtain ⟨d', hfirst, ht'⟩ := hbetween ht hst hcurrent
      rw [bind_of_eq_ok hfirst]
      exact hsettled' d' e' ht' hcurrent

/-- Settled rules one after the other are settled. -/
theorem Settled.bind {first : Rule β} {rest : β → Rule α} (h : first.Settled)
    (hrest : ∀ value, (rest value).Settled) : (first >>= rest).Settled :=
  fun c => (h c).bind fun value d _ => hrest value d

/-- What a rule without a step gives is settled by nothing. -/
theorem settled_pure (value : α) : (pure value : Rule α).Settled :=
  fun c => ⟨[], .refl c, fun c' d' hs _ => by rw [takes_nil_iff.mp hs]; rfl⟩

/-- A fault of its own is settled by nothing. -/
theorem settled_throw (fault : ParseFault) : (throw fault : Rule α).Settled :=
  fun c => ⟨[], .refl c, fun c' d' hs _ => by rw [takes_nil_iff.mp hs]; rfl⟩

/-- A choice between settled rules is settled. -/
theorem Settled.ite {p : Prop} [Decidable p] {no : Rule α} (h : rule.Settled) (hno : no.Settled) :
    (if p then rule else no).Settled := by
  split <;> assumption

/-- A settled rule stays settled when its value is left unused. -/
theorem Settled.discard (h : rule.Settled) : (discard rule).Settled :=
  h.bind fun _ => settled_pure _

/-- To look at the token in sight is settled by that token. -/
theorem settled_current : current.Settled := by
  refine fun c => ⟨[], .refl c, fun c' d' hs hcurrent => ?_⟩
  obtain rfl := takes_nil_iff.mp hs
  rw [← hcurrent]
  rfl

/-- To take the token in sight is settled by that token. -/
theorem settled_advance : advance.Settled := by
  intro c
  by_cases htype : c.current.type = .endOfInput
  -- At the end of input nothing is taken.
  · have hnext : ∀ {c : TokenCursor}, c.current.type = .endOfInput → c.next = c := fun h =>
      eq_of_ahead (by simp [next, (current_type_eq_endOfInput_iff _).mp h]) rfl rfl
    refine ⟨[], by rw [hnext htype]; exact .refl c, fun c' d' hs hcurrent => ?_⟩
    obtain rfl := takes_nil_iff.mp hs
    rw [hnext htype] at hcurrent
    have hstay := hnext (hcurrent ▸ htype)
    change EStateM.Result.ok d'.current d'.next = _
    rw [hstay, hcurrent]
  · refine ⟨[c.current], takes_current htype, fun c' d' hs _ => ?_⟩
    obtain ⟨-, hcurrent, hnext⟩ := takes_cons_iff.mp hs
    obtain rfl := takes_nil_iff.mp hnext
    rw [← hcurrent]
    rfl

/-- Whether a token of some type is in sight is settled by the token in sight. -/
theorem settled_sees (type : TokenType) : (sees type).Settled :=
  settled_current.bind fun _ => settled_pure _

/-- To object to the token in sight is settled by that token. -/
theorem settled_reject (objection : Objection) : (reject objection : Rule α).Settled :=
  settled_current.bind fun _ => settled_throw _

/-- To take a token of some type is settled by the token in sight. -/
theorem settled_expect (type : TokenType) (purpose : String) : (expect type purpose).Settled :=
  (settled_sees type).bind fun _ => settled_advance.ite (settled_reject _)

/-- To build a node takes nothing, so it is settled. -/
theorem settled_build (made : Except NodeFault Node) : (build made).Settled := by
  cases made with
  | ok node => exact settled_pure _
  | error fault => exact settled_throw _

/-- A report is settled with the fault, as it is on the token in sight. -/
theorem Settled.reportingDepth (h : rule.Settled) : (reportingDepth rule).Settled := by
  intro c
  rw [SettledAt, ensures_reportingDepth]
  refine (h c).mono ?_ ?_
  · rintro value d ⟨s, hs, hsettled⟩
    refine ⟨s, hs, fun c' d' hs' hcurrent => ?_⟩
    rw [reportingDepth_apply, hsettled c' d' hs' hcurrent]
  · rintro fault d ⟨s, hs, hsettled⟩
    refine ⟨s, hs, fun c' d' hs' hcurrent => ?_⟩
    rw [reportingDepth_apply, hsettled c' d' hs' hcurrent, ← hcurrent]

/-- The rounds of a repetition are settled one after the other. -/
theorem Settled.many {item : Rule (Option α)} (h : item.Settled) (hshortens : item.Shortens) :
    (many item).Settled := by
  intro c
  induction hn : c.ahead.length using Nat.strongRecOn generalizing c with
  | ind n ih =>
    rw [many_eq hshortens]
    refine (h c).bind fun value d heq => ?_
    cases value with
    | none => exact settled_pure _ d
    | some value =>
      have hlt := (hshortens c value d heq).1
      exact (ih _ (by omega) d rfl).bind fun _ e _ => settled_pure _ e

/-- The rounds in which a value grows are settled one after the other. -/
theorem settled_grow {extend : α → Rule (Option α)} (h : ∀ value, (extend value).Settled)
    (hshortens : ∀ value, (extend value).Shortens) (value : α) : (grow extend value).Settled := by
  intro c
  induction hn : c.ahead.length using Nat.strongRecOn generalizing c value with
  | ind n ih =>
    rw [grow_eq hshortens]
    refine (h value c).bind fun larger d heq => ?_
    cases larger with
    | none => exact settled_pure _ d
    | some larger =>
      have hlt := (hshortens value c larger d heq).1
      exact ih _ (by omega) larger d rfl

end Building

/-! ## Expressions -/

section Expressions

variable {inner : Rule Node} (h : inner.Settled)
include h

/-- A primary expression is settled if whole expressions are. -/
theorem primary_settled : (primary inner).Settled := by
  refine settled_current.bind fun token => ?_
  split
  · exact settled_advance.discard.bind fun _ => settled_pure _
  · refine settled_advance.discard.bind fun _ => ?_
    split
    · exact settled_pure _
    · exact settled_throw _
  · exact settled_advance.discard.bind fun _ => h.bind fun _ =>
      (settled_expect _ _).discard.bind fun _ => settled_pure _
  · exact settled_reject _

/-- One step to a member is settled if whole expressions are. -/
theorem memberStep_settled (owner : Node) : (memberStep inner owner).Settled := by
  refine settled_current.bind fun token => ?_
  split
  · refine settled_advance.discard.bind fun _ => settled_current.bind fun _ =>
      (primary_settled h).bind fun _ => ?_
    exact (settled_throw _).ite ((settled_build _).bind fun _ => settled_pure _)
  · exact settled_advance.discard.bind fun _ => h.bind fun _ =>
      (settled_expect _ _).discard.bind fun _ => (settled_build _).bind fun _ => settled_pure _
  · exact settled_pure _

/-- A further argument is settled if whole expressions are. -/
theorem furtherArgument_settled : (furtherArgument inner).Settled := by
  refine (settled_sees _).bind fun _ => Settled.ite ?_ (settled_pure _)
  exact settled_advance.discard.bind fun _ => h.bind fun _ => settled_pure _

/-- A property of an object is settled if whole expressions are. -/
theorem propertyStep_settled : (propertyStep inner).Settled := by
  have hvalue : (propertyValue inner).Settled := by
    refine settled_current.bind fun token => ?_
    split
    · exact settled_advance.discard.bind fun _ => settled_pure _
    · exact settled_pure _
    · refine (settled_expect _ _).discard.bind fun _ => h.bind fun _ =>
        (settled_sees _).bind fun _ => Settled.ite ?_ (settled_pure _)
      exact (settled_expect _ _).discard.bind fun _ => settled_pure _
  refine settled_current.bind fun token => ?_
  split
  · exact settled_pure _
  · exact settled_pure _
  · exact (settled_expect _ _).bind fun _ => hvalue.bind fun _ => settled_pure _

variable {depth : Nat} {E : Language Node} (hreads : inner.Reads depth (Phrase E))
include hreads

/-- A row of members is settled if whole expressions are. -/
theorem member_settled : (member inner).Settled :=
  (primary_settled h).bind fun owner =>
    settled_grow (memberStep_settled h) (memberStep_shortens hreads) owner

/-- The arguments of a call are settled if whole expressions are. -/
theorem arguments_settled : (arguments inner).Settled := by
  have hlist : (argumentList inner).Settled := h.bind fun _ =>
    ((furtherArgument_settled h).many (furtherArgument_shortens hreads)).bind fun _ =>
      settled_pure _
  have hclose : ∀ args : List Node, Settled (do
      discard (expect .closeParen "Missing closing parenthesis inside arguments list.")
      return args) := fun _ => (settled_expect _ _).discard.bind fun _ => settled_pure _
  refine (settled_expect _ _).discard.bind fun _ => (settled_sees _).bind fun _ => ?_
  exact (hclose []).ite (hlist.bind hclose)

/-- A row of calls is settled if whole expressions are. -/
theorem callMember_settled : (callMember inner).Settled := by
  have hstep : ∀ callee, (callStep inner callee).Settled := fun callee =>
    (settled_sees _).bind fun _ =>
      ((arguments_settled h hreads).bind fun _ => settled_pure _).ite (settled_pure _)
  rw [callMember_eq hreads]
  exact (member_settled h hreads).bind fun callee =>
    settled_grow hstep (callStep_shortens hreads) callee

omit h hreads in
/-- Operands joined by operators of one rank are settled if the operands are. -/
theorem operation_settled (operators : List String) {operand : Rule Node} {L : Language Node}
    {After : Token → Prop} (h : operand.Settled)
    (hreads : operand.Reads depth fun s v token => L s v ∧ After token) :
    (operation operators operand).Settled := by
  refine h.bind fun left => settled_grow (fun left => ?_) (operationStep_shortens hreads) left
  refine settled_current.bind fun token => Settled.ite ?_ (settled_pure _)
  exact settled_advance.discard.bind fun _ => h.bind fun _ => settled_pure _

/-- An object or sum is settled if whole expressions are. -/
theorem object_settled : (object inner).Settled := by
  have hcall := callMember_reads hreads
  have hsum : (additive inner).Settled := operation_settled _
    (operation_settled _ (callMember_settled h hreads) hcall) (operation_reads hcall)
  refine (settled_sees _).bind fun _ => Settled.ite ?_ hsum
  exact settled_advance.bind fun _ =>
    ((propertyStep_settled h).many (propertyStep_shortens hreads)).bind fun _ =>
      (settled_expect _ _).discard.bind fun _ => settled_pure _

/-- An assignment is settled if whole expressions are. -/
theorem assignment_settled : (assignment inner).Settled := by
  refine (object_settled h hreads).bind fun _ => (settled_sees _).bind fun _ => ?_
  exact (settled_advance.discard.bind fun _ => h.bind fun _ => settled_pure _).ite (settled_pure _)

end Expressions

/-- The outcome of reading an expression is settled by what is taken and what is then in sight. -/
theorem expression_settled (depth : Nat) : (expression depth).Settled := by
  induction depth with
  | zero => exact settled_throw _
  | succ depth ih => exact assignment_settled ih (expression_reads depth)

/-! ## Statements and programs -/

section Statements

variable {expr inner statement : Rule Node}

/-- The declaration of a variable is settled if its value is. -/
theorem variableDeclaration_settled (h : expr.Settled) : (variableDeclaration expr).Settled := by
  refine settled_advance.bind fun keyword => (settled_expect _ _).bind fun name =>
    (settled_sees _).bind fun _ => Settled.ite ?_ ?_
  · have hdeclare : ∀ place : Position, Settled (do
        discard advance
        build (Node.declaration? place name.lexeme false none)) :=
      fun _ => settled_advance.discard.bind fun _ => settled_build _
    exact ((settled_reject (α := PUnit) _).bind fun _ => hdeclare _).ite (hdeclare _)
  · exact (settled_expect _ _).discard.bind fun _ => h.bind fun _ =>
      (settled_expect _ _).discard.bind fun _ => settled_build _

/-- The declaration of a function is settled if its parameters and the statements of its body
are. -/
theorem functionDeclaration_settled {depth : Nat} {P S : Language Node} (h : inner.Settled)
    (hreads : inner.Reads depth (Phrase P)) (hbody : statement.Settled)
    (hsreads : statement.Reads depth (Phrase S)) (hnonempty : ∀ s v, S s v → s ≠ []) :
    (functionDeclaration inner statement).Settled := by
  have hstep : (bodyStep statement).Settled := by
    refine settled_current.bind fun token => ?_
    split
    · exact settled_pure _
    · exact settled_pure _
    · exact hbody.bind fun _ => settled_pure _
  refine settled_advance.bind fun keyword => (settled_expect _ _).bind fun name =>
    settled_current.bind fun token => (arguments_settled h hreads).bind fun args => ?_
  split
  · exact settled_throw _
  · exact (settled_expect _ _).discard.bind fun _ =>
      (hstep.many (bodyStep_shortens hsreads hnonempty)).bind fun _ =>
        (settled_expect _ _).discard.bind fun _ => settled_pure _

/-- An expression as a statement is settled if expressions are. -/
theorem expressionStatement_settled (h : expr.Settled) : (expressionStatement expr).Settled :=
  h.bind fun _ => (settled_sees _).bind fun _ =>
    (settled_advance.discard.bind fun _ => settled_pure _).ite (settled_pure _)

end Statements

/-- The outcome of reading a statement is settled by what is taken and what is then in sight. -/
theorem statement_settled (depth : Nat) : (statement depth).Settled := by
  induction depth with
  | zero => exact settled_throw _
  | succ depth ih =>
    refine settled_current.bind fun token => ?_
    split
    · exact variableDeclaration_settled (expression_settled _)
    · exact variableDeclaration_settled (expression_settled _)
    · exact functionDeclaration_settled (expression_settled _) (expression_reads _) ih
        (statement_reads depth) fun _ _ h => h.starts.ne_nil
    · exact expressionStatement_settled (expression_settled _)

/-- The outcome of reading a program is settled by what is taken and what is then in sight. -/
theorem program_settled (limit : Nat) : (program limit).Settled := by
  have hstep : (programStep limit).Settled := (settled_sees _).bind fun _ =>
    (settled_pure _).ite ((statement_settled limit).bind fun _ => settled_pure _)
  exact settled_current.bind fun _ =>
    (hstep.many (programStep_shortens limit)).reportingDepth.bind fun _ => settled_pure _

end Rule

end BoSyntax
