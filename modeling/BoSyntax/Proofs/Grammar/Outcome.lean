import BoSyntax.Grammar.Statement
import BoSyntax.Proofs.Grammar.Segment

/-!
# What rules ensure

A rule either gives a value or meets a fault, and either way it comes to a cursor. `Ensures` says
what holds of both outcomes, and there is one equation for each way of building rules, so that a
statement about a rule becomes one about its parts. `Reads` is the form such statements take: from
any cursor, the rule takes a segment that is related to its value and to the next token, or it meets
a fault that the tokens give reason for.
-/

namespace BoSyntax

open TokenCursor

/-- What the tokens from one cursor to a later one say of a fault met there. The token that is
objected to is one of them or the one in sight, the levels run out only where so many tokens are
ahead, whether that is reported or not, and a number is malformed only if it is one of them. All
nodes are allowed. -/
def ParseFault.Justified (depth : Nat) (c d : TokenCursor) : ParseFault → Prop
  | .rejected objection token =>
    (∃ s, c.Takes s d ∧ (token ∈ s ∨ token = d.current)) ∧
      (objection = .tooDeep → depth ≤ c.ahead.length)
  | .malformedNumber lexeme =>
    ∃ s, c.Takes s d ∧
      ∃ token ∈ s, token.type = .number ∧ token.lexeme = lexeme ∧ Binary64.read? lexeme = none
  | .invalidNode _ => False
  | .exhausted => (∃ s, c.Takes s d) ∧ depth ≤ c.ahead.length

/-- A fault met after a segment is justified before it, and by as many more levels. -/
theorem ParseFault.Justified.of_takes {m n : Nat} {c d e : TokenCursor} {s : List Token}
    {fault : ParseFault} (h : fault.Justified n d e) (htakes : c.Takes s d)
    (hdepth : m ≤ n + s.length) : fault.Justified m c e := by
  cases fault with
  | rejected objection token =>
    obtain ⟨⟨t, ht, htoken⟩, hdeep⟩ := h
    refine ⟨⟨s ++ t, htakes.trans ht, ?_⟩, fun hobjection => ?_⟩
    · rw [List.mem_append, or_assoc]
      exact .inr htoken
    · have hle := hdeep hobjection
      have hlength := htakes.length
      omega
  | malformedNumber lexeme =>
    obtain ⟨t, ht, token, hmem, htoken⟩ := h
    exact ⟨s ++ t, htakes.trans ht, token, List.mem_append_right s hmem, htoken⟩
  | invalidNode fault => exact h.elim
  | exhausted =>
    obtain ⟨⟨t, ht⟩, hle⟩ := h
    have hlength := htakes.length
    exact ⟨⟨s ++ t, htakes.trans ht⟩, by omega⟩

/-- A fault is met at the end of a segment. -/
theorem ParseFault.Justified.exists_takes {depth : Nat} {c d : TokenCursor} {fault : ParseFault}
    (h : fault.Justified depth c d) : ∃ s, c.Takes s d := by
  cases fault with
  | rejected objection token => exact h.1.imp fun _ h => h.1
  | malformedNumber lexeme => exact h.imp fun _ h => h.1
  | invalidNode fault => exact h.elim
  | exhausted => exact h.1

/-- The report of a fault is justified by what justifies the fault. -/
theorem ParseFault.Justified.reported {depth : Nat} {c d : TokenCursor} {fault : ParseFault}
    (h : fault.Justified depth c d) : (fault.reported d.current).Justified depth c d := by
  cases fault with
  | exhausted => exact ⟨h.1.imp fun _ hs => ⟨hs, .inr rfl⟩, fun _ => h.2⟩
  | _ => exact h

/-- Any objection but to the nesting is justified by the token in sight. -/
theorem ParseFault.justified_after {depth : Nat} {c d : TokenCursor} {s : List Token}
    {objection : Objection} (htakes : c.Takes s d) (h : objection ≠ .tooDeep) :
    (rejected objection d.current).Justified depth c d :=
  ⟨⟨s, htakes, .inr rfl⟩, fun hdeep => absurd hdeep h⟩

namespace Rule

variable {α β : Type} {c d : TokenCursor}

/-- What holds of the value or the fault of a rule, and of the cursor that it comes to. -/
def Ensures (rule : Rule α) (c : TokenCursor) (done : α → TokenCursor → Prop)
    (failed : ParseFault → TokenCursor → Prop) : Prop :=
  match rule c with
  | .ok value d => done value d
  | .error fault d => failed fault d

/-- Reporting changes nothing but the fault. -/
theorem reportingDepth_apply (rule : Rule α) (c : TokenCursor) :
    reportingDepth rule c =
      match rule c with
      | .ok value d => .ok value d
      | .error fault d => .error (fault.reported d.current) d := by
  change EStateM.tryCatch rule (fun fault => do throw (fault.reported (← current))) c = _
  unfold EStateM.tryCatch
  dsimp only
  cases rule c <;> rfl

variable {done : α → TokenCursor → Prop} {failed : ParseFault → TokenCursor → Prop}

/-- A rule that gives a value ensures what holds of it. -/
theorem ensures_of_eq_ok {rule : Rule α} {value : α} (h : rule c = .ok value d) :
    rule.Ensures c done failed ↔ done value d := by
  simp only [Ensures, h]

/-- That a rule gives a certain value at a certain cursor is one of the things it can ensure. -/
theorem eq_ok_iff_ensures {rule : Rule α} {value : α} :
    rule c = .ok value d ↔ rule.Ensures c (fun w e => w = value ∧ e = d) fun _ _ => False := by
  cases h : rule c <;> simp [Ensures, h]

/-- What is ensured may be weakened. -/
theorem Ensures.mono {rule : Rule α} {done' : α → TokenCursor → Prop}
    {failed' : ParseFault → TokenCursor → Prop} (h : rule.Ensures c done failed)
    (hdone : ∀ value d, done value d → done' value d)
    (hfailed : ∀ fault d, failed fault d → failed' fault d) : rule.Ensures c done' failed' := by
  unfold Ensures at *
  split <;> simp_all

/-- What is ensured holds of the value. -/
theorem Ensures.of_eq_ok {rule : Rule α} {value : α} (h : rule.Ensures c done failed)
    (heq : rule c = .ok value d) : done value d :=
  (ensures_of_eq_ok heq).mp h

/-- What is ensured holds of the fault. -/
theorem Ensures.of_eq_error {rule : Rule α} {fault : ParseFault} (h : rule.Ensures c done failed)
    (heq : rule c = .error fault d) : failed fault d := by
  simpa only [Ensures, heq] using h

/-- What is ensured of a sequence is ensured of its first rule, with what the rest ensures from
there. -/
theorem ensures_bind (first : Rule β) (rest : β → Rule α) :
    (first >>= rest).Ensures c done failed ↔
      first.Ensures c (fun value d => (rest value).Ensures d done failed) failed := by
  change (match EStateM.bind first rest c with
    | .ok value d => done value d
    | .error fault d => failed fault d) ↔ _
  unfold EStateM.bind Ensures
  cases first c <;> rfl

/-- A value is given without a step. -/
theorem ensures_pure (value : α) : (pure value : Rule α).Ensures c done failed ↔ done value c :=
  Iff.rfl

/-- A fault is met without a step. -/
theorem ensures_throw (fault : ParseFault) :
    (throw fault : Rule α).Ensures c done failed ↔ failed fault c :=
  Iff.rfl

/-- The token in sight is given without a step. -/
theorem ensures_current {done : Token → TokenCursor → Prop} :
    current.Ensures c done failed ↔ done c.current c :=
  Iff.rfl

/-- To advance gives the token in sight and steps over it. -/
theorem ensures_advance {done : Token → TokenCursor → Prop} :
    advance.Ensures c done failed ↔ done c.current c.next :=
  Iff.rfl

/-- To look for a kind of token takes no step. -/
theorem ensures_sees (type : TokenType) {done : Bool → TokenCursor → Prop} :
    (sees type).Ensures c done failed ↔ done (c.current.type == type) c :=
  Iff.rfl

/-- An objection is one to the token in sight. -/
theorem ensures_reject (objection : Objection) :
    (reject objection : Rule α).Ensures c done failed ↔ failed (.rejected objection c.current) c :=
  Iff.rfl

/-- Reporting changes a fault only, and it reports to the token in sight where the fault was met. -/
theorem ensures_reportingDepth (rule : Rule α) :
    (reportingDepth rule).Ensures c done failed ↔
      rule.Ensures c done fun fault d => failed (fault.reported d.current) d := by
  unfold Ensures
  rw [reportingDepth_apply]
  cases rule c <;> rfl

/-- To discard the value changes nothing else. -/
theorem ensures_discard (rule : Rule β) {done : PUnit → TokenCursor → Prop} :
    (discard rule).Ensures c done failed ↔ rule.Ensures c (fun _ d => done ⟨⟩ d) failed :=
  ensures_bind rule fun _ => (pure ⟨⟩ : Rule PUnit)

/-- A choice ensures what each side does where it is taken. -/
theorem ensures_ite (p : Prop) [Decidable p] (yes no : Rule α) :
    (if p then yes else no).Ensures c done failed ↔
      (p → yes.Ensures c done failed) ∧ (¬p → no.Ensures c done failed) := by
  split <;> simp [*]

/-- A node that is built is given if its kind allows it. -/
theorem ensures_build (made : Except NodeFault Node) {done : Node → TokenCursor → Prop} :
    (build made).Ensures c done failed ↔
      match made with
      | .ok node => done node c
      | .error fault => failed (.invalidNode fault) c := by
  cases made <;> rfl

/-- A token that is expected is stepped over if it is of the kind, and objected to if not. -/
theorem ensures_expect (type : TokenType) (purpose : String)
    {done : Token → TokenCursor → Prop} :
    (expect type purpose).Ensures c done failed ↔
      (c.current.type = type → done c.current c.next) ∧
        (c.current.type ≠ type → failed (.rejected (.expected purpose type) c.current) c) := by
  simp only [expect, ensures_bind, ensures_sees, ensures_ite, ensures_advance, ensures_reject,
    beq_iff_eq, Ne]

/-- A rule reads: it takes a segment of tokens that is related to its value and to the next token,
or it meets a fault that the tokens justify. -/
def Reads (rule : Rule α) (depth : Nat) (Related : List Token → α → Token → Prop) : Prop :=
  ∀ c, rule.Ensures c (fun value d => ∃ s, c.Takes s d ∧ Related s value d.current)
    fun fault d => fault.Justified depth c d

variable {depth : Nat} {Related : List Token → α → Token → Prop}

/-- Reading goes on from where a segment ends. -/
theorem Reads.ensures_after {rule : Rule α} (h : rule.Reads depth Related) {m : Nat}
    {s : List Token} (htakes : c.Takes s d) (hdepth : m ≤ depth + s.length)
    (hdone : ∀ value e t, c.Takes (s ++ t) e → d.Takes t e → Related t value e.current →
      done value e) :
    rule.Ensures d done fun fault e => fault.Justified m c e := by
  refine (h d).mono ?_ fun fault e hfault => hfault.of_takes htakes hdepth
  rintro value e ⟨t, ht, hrelated⟩
  exact hdone value e t (htakes.trans ht) ht hrelated

/-- What is read may be told in other words. -/
theorem Reads.mono {rule : Rule α} {Related' : List Token → α → Token → Prop}
    (h : rule.Reads depth Related)
    (himp : ∀ s value token, Related s value token → Related' s value token) :
    rule.Reads depth Related' :=
  fun c => (h c).mono (fun _ _ ⟨s, hs, hrelated⟩ => ⟨s, hs, himp _ _ _ hrelated⟩) fun _ _ h => h

/-- A rule reads the same when it reports that no levels are left. -/
theorem Reads.reportingDepth {rule : Rule α} (h : rule.Reads depth Related) :
    (reportingDepth rule).Reads depth Related :=
  fun c => (ensures_reportingDepth rule).mpr
    ((h c).mono (fun _ _ hdone => hdone) fun _ _ hfault => hfault.reported)

/-- What a rule takes is of the kind that it reads. -/
theorem Reads.of_eq_ok {rule : Rule α} (h : rule.Reads depth Related) {value : α}
    (heq : rule c = .ok value d) : ∃ s, c.Takes s d ∧ Related s value d.current :=
  (h c).of_eq_ok heq

end Rule

end BoSyntax
