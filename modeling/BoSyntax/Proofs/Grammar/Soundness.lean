import BoSyntax.Proofs.Grammar.Boundary
import BoSyntax.Proofs.Grammar.Repetition

/-!
# What the rules of the grammar read

Each rule reads a phrase of its language, takes at least the tokens that the language demands, and
objects only where the tokens give reason. A rule that is given a rule for whole expressions is as
good as that one. Where an expression ends, an opening parenthesis in sight means that it ends in a
closing brace, since arguments are read for as long as there are any.
-/

namespace BoSyntax.Rule

open BoSyntax.Language TokenCursor

/-- A phrase of a language, and a token behind it that does not continue it as arguments. -/
def Phrase (L : Language Node) (s : List Token) (v : Node) (token : Token) : Prop :=
  L s v ∧ Separated s token

/-! ## Chains -/

/-- A round of reading suffixes: a suffix and what is known of the token after it, or nothing at a
token where suffixes stop. -/
inductive Round (Suffix : Node → Language Node) (After Stop : Token → Prop) (v : Node) :
    List Token → Option Node → Token → Prop
  | suffix {s w token} : Suffix v s w → After token → Round Suffix After Stop v s (some w) token
  | stop {token} : Stop token → Round Suffix After Stop v [] none token

section Chains

variable {Base : Language Node} {Suffix : Node → Language Node} {After Stop : Token → Prop}

/-- A round takes something if every suffix does. -/
theorem round_ne_nil (hnonempty : ∀ v s w, Suffix v s w → s ≠ []) (v : Node) (s : List Token)
    (w : Node) (token : Token) (h : Round Suffix After Stop v s (some w) token) : s ≠ [] := by
  cases h with
  | suffix h _ => exact hnonempty v s w h

/-- Suffixes read one after the other make a chain. -/
theorem chain_of_grown {v w : Node} {s t : List Token} {token : Token}
    (h : Grown (Round Suffix After Stop) v t w token) (hchain : Chain Base Suffix s v)
    (hafter : After (t.headD token)) :
    Chain Base Suffix (s ++ t) w ∧ After token ∧ Stop token := by
  induction h generalizing s with
  | stop h =>
    cases h with
    | stop hstop => exact ⟨by rwa [List.append_nil], hafter, hstop⟩
  | step h _ ih =>
    cases h with
    | suffix h hafter =>
      rw [← List.append_assoc]
      exact ih (hchain.extend h) hafter

/-- A rule that reads an operand and then suffixes reads a chain. -/
theorem chain_reads {operand : Rule Node} {extend : Node → Rule (Option Node)} {depth : Nat}
    (hoperand : operand.Reads depth fun s v token => Base s v ∧ After token)
    (hextend : ∀ v, (extend v).Reads depth (Round Suffix After Stop v))
    (hnonempty : ∀ v s w, Suffix v s w → s ≠ []) :
    (do grow extend (← operand) : Rule Node).Reads depth fun s v token =>
      Chain Base Suffix s v ∧ After token ∧ Stop token := by
  intro c
  rw [ensures_bind]
  refine (hoperand c).mono ?_ fun _ _ h => h
  rintro v d ⟨s, hs, hbase, hafter⟩
  have hgrow := grow_reads hextend (round_ne_nil hnonempty) v
  refine hgrow.ensures_after hs (by omega) fun w e t hst ht hgrown => ⟨s ++ t, hst, ?_⟩
  rw [ht.current] at hafter
  exact chain_of_grown hgrown (.base hbase) hafter

end Chains

/-! ## Expressions -/

section Expressions

variable {inner : Rule Node} {depth : Nat} {E : Language Node}

/-- A primary expression is read if whole expressions are; what stands in parentheses nests one
level deeper. -/
theorem primary_reads (hinner : inner.Reads depth (Phrase E)) :
    (primary inner).Reads (depth + 1) fun s v _ => Primary E s v := by
  intro c
  simp only [primary, ensures_bind, ensures_current]
  split
  next htype =>
    exact ⟨_, takes_current (by simp [htype]), .name htype⟩
  next htype =>
    have htakes := takes_current (c := c) (by simp [htype])
    simp only [ensures_bind, ensures_discard, ensures_advance]
    split
    next value hread => exact ⟨_, htakes, .number htype hread⟩
    next hread => exact ⟨_, htakes, _, List.mem_singleton_self _, htype, rfl, hread⟩
  next htype =>
    have htakes := takes_current (c := c) (by simp [htype])
    simp only [ensures_bind, ensures_discard, ensures_advance, ensures_expect, ensures_pure]
    refine hinner.ensures_after htakes (by simp) fun v d s hs _ hv =>
      ⟨fun hclosing => ?_, fun _ => ?_⟩
    · exact ⟨_, hs.trans (takes_current (by simp [hclosing])), .group htype hv.1 hclosing⟩
    · exact ParseFault.justified_after hs (by simp)
  next =>
    exact ParseFault.justified_after (.refl c) (by simp)

/-- One step to a member reads a suffix, or nothing at a token that starts none. -/
theorem memberStep_reads (hinner : inner.Reads depth (Phrase E)) (owner : Node) :
    (memberStep inner owner).Reads (depth + 1)
      (Round (MemberSuffix E) (fun _ => True) (fun _ => True) owner) := by
  intro c
  simp only [memberStep, ensures_bind, ensures_current]
  split
  next htype =>
    have htakes := takes_current (c := c) (by simp [htype])
    simp only [ensures_bind, ensures_discard, ensures_advance, ensures_current, ensures_ite,
      ensures_throw, ensures_build, ensures_pure, bne_iff_ne]
    refine (primary_reads hinner).ensures_after htakes (by omega) fun v d s hs hs' hv =>
      ⟨fun _ => ⟨⟨_, hs, .inl ?_⟩, by simp⟩, fun hname => ?_⟩
    · rw [hs'.current]
      obtain ⟨token, rest, rfl⟩ := List.exists_cons_of_ne_nil hv.starts.ne_nil
      simp
    · obtain ⟨place, name, rfl⟩ := Node.kind_eq_identifier_iff.mp (not_not.mp hname)
      exact ⟨_, hs, .suffix (.dot htype hv) trivial⟩
  next htype =>
    have htakes := takes_current (c := c) (by simp [htype])
    simp only [ensures_bind, ensures_discard, ensures_advance, ensures_expect, ensures_build,
      Node.member?, if_true, ensures_pure]
    refine hinner.ensures_after htakes (by simp) fun v d s hs _ hv =>
      ⟨fun hclosing => ?_, fun _ => ?_⟩
    · exact ⟨_, hs.trans (takes_current (by simp [hclosing])),
        .suffix (.index htype hv.1 hclosing) trivial⟩
    · exact ParseFault.justified_after hs (by simp)
  next =>
    exact ⟨[], .refl c, .stop trivial⟩

/-- There is a token in every suffix that makes a member. -/
theorem memberSuffix_ne_nil (owner : Node) (s : List Token) (v : Node)
    (h : MemberSuffix E owner s v) : s ≠ [] := by
  cases h <;> simp

/-- One step to a member leaves fewer tokens, unless it is the last. -/
theorem memberStep_shortens (hinner : inner.Reads depth (Phrase E)) (owner : Node) :
    (memberStep inner owner).Shortens :=
  (memberStep_reads hinner owner).shortens (round_ne_nil memberSuffix_ne_nil owner)

/-- A row of members is read if whole expressions are. -/
theorem member_reads (hinner : inner.Reads depth (Phrase E)) :
    (member inner).Reads (depth + 1) fun s v _ => Member E s v :=
  (chain_reads ((primary_reads hinner).mono fun _ _ _ h => ⟨h, trivial⟩) (memberStep_reads hinner)
    memberSuffix_ne_nil).mono fun _ _ _ h => h.1

/-- A further argument: a comma and an expression, or nothing. -/
inductive FurtherItem (E : Language Node) : List Token → Option Node → Token → Prop
  | item {comma s v token} : comma.type = .comma → E s v → FurtherItem E (comma :: s) (some v) token
  | stop {token} : FurtherItem E [] none token

/-- An expression and the further arguments behind it are a list of items. -/
theorem items_of_listed {s t : List Token} {v : Node} {vs : List Node} {token : Token}
    (h : Listed (FurtherItem E) t vs token) (hv : E s v) : Items E (s ++ t) (v :: vs) := by
  induction h generalizing s v with
  | stop h =>
    cases h with
    | stop => exact .one (by rwa [List.append_nil])
  | step h _ ih =>
    cases h with
    | item hcomma h => exact .more hv hcomma (ih h)

/-- A further argument is read if whole expressions are. -/
theorem furtherArgument_reads (hinner : inner.Reads depth (Phrase E)) :
    (furtherArgument inner).Reads depth (FurtherItem E) := by
  intro c
  simp only [furtherArgument, ensures_bind, ensures_sees, ensures_ite, beq_iff_eq]
  refine ⟨fun htype => ?_, fun _ => ⟨[], .refl c, .stop⟩⟩
  have htakes := takes_current (c := c) (by simp [htype])
  simp only [ensures_discard, ensures_advance, ensures_pure]
  exact hinner.ensures_after htakes (by omega) fun v d s hs _ hv => ⟨_, hs, .item htype hv.1⟩

/-- There is a token in every further argument, its comma. -/
theorem furtherItem_ne_nil (s : List Token) (v : Node) (token : Token)
    (h : FurtherItem E s (some v) token) : s ≠ [] := by
  cases h
  simp

/-- To read a further argument leaves fewer tokens, unless there is none. -/
theorem furtherArgument_shortens (hinner : inner.Reads depth (Phrase E)) :
    (furtherArgument inner).Shortens :=
  (furtherArgument_reads hinner).shortens furtherItem_ne_nil

/-- A list of arguments without its parentheses is read if whole expressions are. -/
theorem argumentList_reads (hinner : inner.Reads depth (Phrase E)) :
    (argumentList inner).Reads depth fun s vs _ => Items E s vs := by
  intro c
  simp only [argumentList, ensures_bind, ensures_pure]
  refine (hinner c).mono ?_ fun _ _ h => h
  rintro v d ⟨s, hs, hv⟩
  have hmany := many_reads (furtherArgument_reads hinner) furtherItem_ne_nil
  exact hmany.ensures_after hs (by omega) fun vs e t hst _ hlisted =>
    ⟨_, hst, items_of_listed hlisted hv.1⟩

/-- The arguments of a call are read if whole expressions are; they nest one level deeper. -/
theorem arguments_reads (hinner : inner.Reads depth (Phrase E)) :
    (arguments inner).Reads (depth + 1) fun s vs _ => Arguments E s vs := by
  intro c
  simp only [arguments, ensures_bind, ensures_discard, ensures_expect, ensures_sees, ensures_ite,
    ensures_pure, beq_iff_eq]
  refine ⟨fun hopening => ?_, fun _ => ParseFault.justified_after (.refl c) (by simp)⟩
  have htakes := takes_current (c := c) (by simp [hopening])
  refine ⟨fun hclosing => ⟨fun _ => ?_, fun hne => absurd hclosing hne⟩, fun _ => ?_⟩
  · exact ⟨_, htakes.trans (takes_current (by simp [hclosing])), .none hopening hclosing⟩
  · refine (argumentList_reads hinner).ensures_after htakes (by simp) fun vs d s hs _ hvs =>
      ⟨fun hclosing => ?_, fun _ => ?_⟩
    · exact ⟨_, hs.trans (takes_current (by simp [hclosing])), .some hopening hvs hclosing⟩
    · exact ParseFault.justified_after hs (by simp)

/-- One call of a callee reads its arguments, or nothing where no parenthesis opens. -/
theorem callStep_reads (hinner : inner.Reads depth (Phrase E)) (callee : Node) :
    (callStep inner callee).Reads (depth + 1)
      (Round (CallSuffix E) (fun _ => True) (fun token => token.type ≠ .openParen) callee) := by
  intro c
  simp only [callStep, ensures_bind, ensures_sees, ensures_ite, ensures_pure, beq_iff_eq]
  refine ⟨fun _ => ?_, fun htype => ⟨[], .refl c, .stop htype⟩⟩
  exact (arguments_reads hinner c).mono
    (fun args d ⟨s, hs, hargs⟩ => ⟨s, hs, .suffix ⟨hargs⟩ trivial⟩) fun _ _ h => h

/-- There is a token in every suffix that makes a call. -/
theorem callSuffix_ne_nil (callee : Node) (s : List Token) (v : Node)
    (h : CallSuffix E callee s v) : s ≠ [] := by
  obtain ⟨h⟩ := h
  cases h <;> simp

/-- One call of a callee leaves fewer tokens, unless there is none. -/
theorem callStep_shortens (hinner : inner.Reads depth (Phrase E)) (callee : Node) :
    (callStep inner callee).Shortens :=
  (callStep_reads hinner callee).shortens (round_ne_nil callSuffix_ne_nil callee)

/-- Calls are read like all other chains. -/
theorem callMember_eq (hinner : inner.Reads depth (Phrase E)) :
    callMember inner = (do grow (callStep inner) (← member inner)) := by
  unfold callMember
  congr 1
  funext callee
  rw [grow_eq (callStep_shortens hinner)]
  simp only [call, callStep, bind_assoc]
  congr 1
  funext opens
  cases opens <;> simp

/-- A row of calls is read if whole expressions are, and no parenthesis opens behind it. -/
theorem callMember_reads (hinner : inner.Reads depth (Phrase E)) :
    (callMember inner).Reads (depth + 1) fun s v token => Call E s v ∧ token.type ≠ .openParen := by
  rw [callMember_eq hinner]
  have hmember : (member inner).Reads (depth + 1) fun s v _ => Member E s v ∧ True :=
    (member_reads hinner).mono fun _ _ _ h => ⟨h, trivial⟩
  exact (chain_reads hmember (callStep_reads hinner) callSuffix_ne_nil).mono
    fun _ _ _ h => ⟨h.1, h.2.2⟩

/-- An operator and its right operand are read if operands are, or nothing at another token. -/
theorem operationStep_reads {operators : List String} {operand : Rule Node} {L : Language Node}
    {After : Token → Prop} (hoperand : operand.Reads depth fun s v token => L s v ∧ After token)
    (left : Node) :
    (operationStep operators operand left).Reads depth
      (Round (OperationSuffix operators L) After (fun _ => True) left) := by
  intro c
  simp only [operationStep, ensures_bind, ensures_current, ensures_ite, ensures_discard,
    ensures_advance, ensures_pure, Bool.and_eq_true, beq_iff_eq, List.contains_iff_mem]
  refine ⟨fun ⟨htype, hmem⟩ => ?_, fun _ => ⟨[], .refl c, .stop trivial⟩⟩
  have htakes := takes_current (c := c) (by simp [htype])
  exact hoperand.ensures_after htakes (by omega) fun v d s hs _ hv =>
    ⟨_, hs, .suffix (.operator htype hmem hv.1) hv.2⟩

/-- There is a token in every suffix that makes an operation, its operator. -/
theorem operationSuffix_ne_nil {operators : List String} {L : Language Node} (left : Node)
    (s : List Token) (v : Node) (h : OperationSuffix operators L left s v) : s ≠ [] := by
  cases h
  simp

/-- To read a further operand leaves fewer tokens, unless there is none. -/
theorem operationStep_shortens {operators : List String} {operand : Rule Node} {L : Language Node}
    {After : Token → Prop} (hoperand : operand.Reads depth fun s v token => L s v ∧ After token)
    (left : Node) : (operationStep operators operand left).Shortens :=
  (operationStep_reads hoperand left).shortens (round_ne_nil operationSuffix_ne_nil left)

/-- Operands joined by operators of one rank are read if the operands are. -/
theorem operation_reads {operators : List String} {operand : Rule Node} {L : Language Node}
    {After : Token → Prop} (hoperand : operand.Reads depth fun s v token => L s v ∧ After token) :
    (operation operators operand).Reads depth fun s v token =>
      Operation operators L s v ∧ After token :=
  (chain_reads hoperand (operationStep_reads hoperand) operationSuffix_ne_nil).mono
    fun _ _ _ h => ⟨h.1, h.2.1⟩

/-- A sum is read if whole expressions are, and no parenthesis opens behind it. -/
theorem additive_reads (hinner : inner.Reads depth (Phrase E)) :
    (additive inner).Reads (depth + 1) fun s v token => Sum E s v ∧ token.type ≠ .openParen :=
  operation_reads (operation_reads (callMember_reads hinner))

/-- A property with the comma behind it, if there is one; none where the braces close. -/
inductive PropertyRound (E : Language Node) : List Token → Option Node → Token → Prop
  | last {s v token} : Property E s v → token.type = .closeBrace →
    PropertyRound E s (some v) token
  | further {s comma v token} : Property E s v → comma.type = .comma →
    PropertyRound E (s ++ [comma]) (some v) token
  | stop {token} : PropertyRound E [] none token

/-- Properties that are read one after the other are those of an object. -/
theorem properties_of_listed {s : List Token} {vs : List Node} {token : Token}
    (h : Listed (PropertyRound E) s vs token) : Properties E s vs := by
  induction h with
  | stop h =>
    cases h with
    | stop => exact .none
  | step h hlisted ih =>
    cases h with
    | further h hcomma =>
      rw [List.append_assoc]
      exact .more h hcomma ih
    | last h hclose =>
      -- A closing brace starts no property, so this was the last one.
      cases ih with
      | none => rw [List.append_nil]; exact .one h
      | one h' => exact absurd (h'.starts.headD _) (by rw [hclose]; simp)
      | more h' _ _ => exact absurd (h'.starts.append.headD _) (by rw [hclose]; simp)

/-- What follows the key of a property, with the comma behind it if there is one. -/
inductive PropertyRest (E : Language Node) : List Token → Option Node → Token → Prop
  | bare {token} : token.type = .closeBrace → PropertyRest E [] none token
  | bareFurther {comma token} : comma.type = .comma → PropertyRest E [comma] none token
  | value {colon s v token} : colon.type = .colon → E s v → token.type = .closeBrace →
    PropertyRest E (colon :: s) (some v) token
  | valueFurther {colon s comma v token} : colon.type = .colon → E s v → comma.type = .comma →
    PropertyRest E (colon :: s ++ [comma]) (some v) token

/-- What follows the key of a property is read if whole expressions are. -/
theorem propertyValue_reads (hinner : inner.Reads depth (Phrase E)) :
    (propertyValue inner).Reads depth (PropertyRest E) := by
  intro c
  simp only [propertyValue, ensures_bind, ensures_current]
  split
  next htype => exact ⟨_, takes_current (by simp [htype]), .bareFurther htype⟩
  next htype => exact ⟨[], .refl c, .bare htype⟩
  next =>
    simp only [ensures_bind, ensures_discard, ensures_expect, ensures_sees, ensures_ite,
      ensures_pure, Bool.not_eq_true', beq_eq_false_iff_ne]
    refine ⟨fun hcolon => ?_, fun _ => ParseFault.justified_after (.refl c) (by simp)⟩
    have htakes := takes_current (c := c) (by simp [hcolon])
    refine hinner.ensures_after htakes (by omega) fun v d s hs _ hv => ⟨fun _ => ⟨fun hcomma => ?_,
      fun _ => ParseFault.justified_after hs (by simp)⟩, fun hclose => ?_⟩
    · exact ⟨_, hs.trans (takes_current (by simp [hcomma])), .valueFurther hcolon hv.1 hcomma⟩
    · exact ⟨_, hs, .value hcolon hv.1 (by simpa using hclose)⟩

/-- A property of an object is read if whole expressions are, or nothing where none can start. -/
theorem propertyStep_reads (hinner : inner.Reads depth (Phrase E)) :
    (propertyStep inner).Reads depth (PropertyRound E) := by
  intro c
  simp only [propertyStep, ensures_bind, ensures_current]
  split
  next => exact ⟨[], .refl c, .stop⟩
  next => exact ⟨[], .refl c, .stop⟩
  next =>
    simp only [ensures_bind, ensures_expect, ensures_pure]
    refine ⟨fun hkey => ?_, fun _ => ParseFault.justified_after (.refl c) (by simp)⟩
    have htakes := takes_current (c := c) (by simp [hkey])
    refine (propertyValue_reads hinner).ensures_after htakes (by omega) fun v d s hs _ hrest =>
      ⟨_, hs, ?_⟩
    cases hrest with
    | bare hclose => exact .last (.shorthand hkey) hclose
    | bareFurther hcomma => exact .further (s := [c.current]) (.shorthand hkey) hcomma
    | value hcolon hv hclose => exact .last (.value hkey hcolon hv) hclose
    | valueFurther hcolon hv hcomma => exact .further (.value hkey hcolon hv) hcomma

/-- There is a token in every property, its key. -/
theorem propertyRound_ne_nil (s : List Token) (v : Node) (token : Token)
    (h : PropertyRound E s (some v) token) : s ≠ [] := by
  cases h with
  | last h _ => exact h.starts.ne_nil
  | further _ _ => simp

/-- To read a property leaves fewer tokens, unless there is none. -/
theorem propertyStep_shortens (hinner : inner.Reads depth (Phrase E)) :
    (propertyStep inner).Shortens :=
  (propertyStep_reads hinner).shortens propertyRound_ne_nil

/-- An object or sum is read if whole expressions are; the properties of an object nest one level
deeper. -/
theorem object_reads (hinner : inner.Reads depth (Phrase E)) :
    (object inner).Reads (depth + 1) (Phrase (Object E)) := by
  intro c
  simp only [object, ensures_bind, ensures_sees, ensures_ite, ensures_discard, ensures_advance,
    ensures_expect, ensures_pure, beq_iff_eq]
  refine ⟨fun hopening => ?_, fun _ => ?_⟩
  · have htakes := takes_current (c := c) (by simp [hopening])
    have hmany := many_reads (propertyStep_reads hinner) propertyRound_ne_nil
    refine hmany.ensures_after htakes (by simp) fun vs d s hs _ hvs =>
      ⟨fun hclosing => ?_, fun _ => ParseFault.justified_after hs (by simp)⟩
    refine ⟨_, hs.trans (takes_current (by simp [hclosing])),
      .braces hopening (properties_of_listed hvs) hclosing, fun _ => ?_⟩
    exact closed_iff.mpr (ends_enclosed (s := s) (by simp [hclosing]))
  · exact (additive_reads hinner c).mono
      (fun v d ⟨s, hs, hv, hne⟩ => ⟨s, hs, .sum hv, fun h => absurd h hne⟩) fun _ _ h => h

/-- An assignment is read if whole expressions are; its value nests one level deeper. -/
theorem assignment_reads (hinner : inner.Reads depth (Phrase E)) :
    (assignment inner).Reads (depth + 1) (Phrase (Assignment E)) := by
  intro c
  simp only [assignment, ensures_bind, ensures_sees, ensures_ite, ensures_discard, ensures_advance,
    ensures_pure, beq_iff_eq]
  refine (object_reads hinner c).mono ?_ fun _ _ h => h
  rintro target d ⟨s, hs, htarget, hsep⟩
  refine ⟨fun hequals => ?_, fun _ => ⟨s, hs, .object htarget, hsep⟩⟩
  have htakes := hs.trans (takes_current (c := d) (by simp [hequals]))
  refine hinner.ensures_after htakes (by simp) fun v e t ht _ hv => ?_
  rw [List.append_assoc] at ht
  exact ⟨_, ht, .assign htarget hequals hv.1, hv.2.append.append⟩

end Expressions

/-- A rule for expressions of bounded nesting reads expressions of that nesting. -/
theorem expression_reads (depth : Nat) :
    (expression depth).Reads depth (Phrase (ExpressionWithin depth)) := by
  induction depth with
  | zero =>
    intro c
    exact ⟨⟨[], .refl c⟩, Nat.zero_le _⟩
  | succ depth ih => exact assignment_reads ih

/-! ## Statements and programs -/

section Statements

variable {c : TokenCursor} {depth : Nat} {L : Language Node}

/-- A round of reading statements: a statement, or nothing at a token of a certain kind. -/
inductive StatementRound (S : Language Node) (Stop : Token → Prop) :
    List Token → Option Node → Token → Prop
  | statement {s v token} : Phrase S s v token → StatementRound S Stop s (some v) token
  | stop {token} : Stop token → StatementRound S Stop [] none token

/-- Statements that are read one after the other are statements in order, up to the token that stops
them. -/
theorem statements_of_listed {S : Language Node} {Stop : Token → Prop} {s : List Token}
    {vs : List Node} {token : Token} (h : Listed (StatementRound S Stop) s vs token) :
    Statements S s vs ∧ Stop token := by
  induction h with
  | stop h =>
    cases h with
    | stop hstop => exact ⟨.none, hstop⟩
  | @step s t v vs token h _ ih =>
    cases h with
    | statement h =>
      refine ⟨.more h.1 ih.1 fun first hfirst => ?_, ih.2⟩
      obtain ⟨rest, rfl⟩ := List.head?_eq_some_iff.mp hfirst
      exact h.2

/-- A round takes something if every statement does. -/
theorem statementRound_ne_nil {S : Language Node} {Stop : Token → Prop}
    (hnonempty : ∀ s v, S s v → s ≠ []) (s : List Token) (v : Node) (token : Token)
    (h : StatementRound S Stop s (some v) token) : s ≠ [] := by
  cases h with
  | statement h => exact hnonempty s v h.1

/-- Rounds of reading statements read them in order. -/
theorem statements_reads {item : Rule (Option Node)} {S : Language Node} {Stop : Token → Prop}
    (hitem : item.Reads depth (StatementRound S Stop)) (hnonempty : ∀ s v, S s v → s ≠ []) :
    (many item).Reads depth fun s vs token => Statements S s vs ∧ Stop token :=
  (many_reads hitem (statementRound_ne_nil hnonempty)).mono fun _ _ _ h => statements_of_listed h

/-- Arguments are parameters exactly when each of them is a name. -/
theorem parameterNames_eq_some_iff {args : List Node} {names : List String} :
    parameterNames args = some names ↔ List.Forall₂ IsName args names := by
  induction args generalizing names with
  | nil => simp [parameterNames, eq_comm]
  | cons arg args ih =>
    cases arg with
    | identifier place name =>
      simp only [parameterNames, Option.map_eq_some_iff, ih, List.forall₂_cons_left_iff]
      simp [IsName, eq_comm, and_comm]
    | _ => simp [parameterNames, IsName, List.forall₂_cons_left_iff]

/-- The declaration of a variable or constant is read if its value is. -/
theorem variableDeclaration_reads {expr : Rule Node} (hexpr : expr.Reads depth (Phrase L))
    (constant : Bool) (hkeyword : c.current.type = if constant then .constKeyword else .letKeyword)
    {P S : Language Node} :
    (variableDeclaration expr).Ensures c
      (fun v d => ∃ s, c.Takes s d ∧ Phrase (StatementForm L P S) s v d.current)
      fun fault d => fault.Justified depth c d := by
  have htype : (c.current.type == .constKeyword) = constant := by
    cases constant <;> simp [hkeyword]
  simp only [variableDeclaration, ensures_bind, ensures_advance, ensures_expect, ensures_sees,
    ensures_ite, ensures_discard, ensures_build, ensures_reject, htype, beq_iff_eq]
  have hkey : c.Takes [c.current] c.next := takes_current (by cases constant <;> simp [hkeyword])
  refine ⟨fun hname => ?_, fun _ => ParseFault.justified_after hkey (by simp)⟩
  have hhead := hkey.trans (takes_current (by simp [hname]))
  refine ⟨fun hsemicolon => ⟨fun _ => ParseFault.justified_after hhead (by simp), fun hlet => ?_⟩,
    fun _ => ⟨fun hequals => ?_, fun _ => ParseFault.justified_after hhead (by simp)⟩⟩
  · have hvariable : c.current.type = .letKeyword := by cases constant <;> simp_all
    exact ⟨_, hhead.trans (takes_current (by simp [hsemicolon])),
      .declare hvariable hname hsemicolon, fun _ => closed_concat (by simp [hsemicolon])⟩
  · have htakes := hhead.trans (takes_current (by simp [hequals]))
    refine hexpr.ensures_after htakes (by omega) fun v d s hs _ hv => ⟨fun hsemicolon => ?_,
      fun _ => ParseFault.justified_after hs (by simp)⟩
    exact ⟨_, hs.trans (takes_current (by simp [hsemicolon])),
      .define constant hkeyword hname hequals hv.1 hsemicolon,
      fun _ => closed_concat (by simp [hsemicolon])⟩

/-- A statement of the body of a function is read if statements are, or nothing at the end of the
body. -/
theorem bodyStep_reads {statement : Rule Node} {S : Language Node}
    (hstatement : statement.Reads depth (Phrase S)) :
    (bodyStep statement).Reads depth (StatementRound S fun _ => True) := by
  intro c
  simp only [bodyStep, ensures_bind, ensures_current]
  split
  next => exact ⟨[], .refl c, .stop trivial⟩
  next => exact ⟨[], .refl c, .stop trivial⟩
  next =>
    simp only [ensures_bind, ensures_pure]
    exact (hstatement c).mono (fun v d ⟨s, hs, hv⟩ => ⟨s, hs, .statement hv⟩) fun _ _ h => h

/-- To read a statement of a body leaves fewer tokens, unless there is none. -/
theorem bodyStep_shortens {statement : Rule Node} {S : Language Node}
    (hstatement : statement.Reads depth (Phrase S)) (hnonempty : ∀ s v, S s v → s ≠ []) :
    (bodyStep statement).Shortens :=
  (bodyStep_reads hstatement).shortens (statementRound_ne_nil hnonempty)

/-- The declaration of a function is read if its parameters and the statements of its body are; both
nest one level deeper. -/
theorem functionDeclaration_reads {inner statement : Rule Node} {P S : Language Node}
    (hinner : inner.Reads depth (Phrase P)) (hstatement : statement.Reads depth (Phrase S))
    (hnonempty : ∀ s v, S s v → s ≠ []) (hkeyword : c.current.type = .fnKeyword) :
    (functionDeclaration inner statement).Ensures c
      (fun v d => ∃ s, c.Takes s d ∧ Phrase (StatementForm L P S) s v d.current)
      fun fault d => fault.Justified (depth + 1) c d := by
  simp only [functionDeclaration, ensures_bind, ensures_advance, ensures_expect, ensures_current]
  have hkey : c.Takes [c.current] c.next := takes_current (by simp [hkeyword])
  refine ⟨fun hname => ?_, fun _ => ParseFault.justified_after hkey (by simp)⟩
  have hhead := hkey.trans (takes_current (by simp [hname]))
  refine (arguments_reads hinner).ensures_after hhead (by omega) fun args d s hs hs' hargs => ?_
  split
  next =>
    refine ⟨⟨_, hs, .inl ?_⟩, by simp⟩
    rw [hs'.current]
    cases hargs <;> simp
  next parameters hparameters =>
    simp only [ensures_bind, ensures_discard, ensures_expect, ensures_pure]
    refine ⟨fun hopening => ?_, fun _ => ParseFault.justified_after hs (by simp)⟩
    have hmany := statements_reads (bodyStep_reads hstatement) hnonempty
    have htakes := hs.trans (takes_current (by simp [hopening]))
    refine hmany.ensures_after htakes (by simp) fun body e t ht _ hbody => ⟨fun hclosing => ?_,
      fun _ => ParseFault.justified_after ht (by simp)⟩
    refine ⟨_, ht.trans (takes_current (by simp [hclosing])), ?_, fun _ =>
      closed_concat (by simp [hclosing])⟩
    have hform : StatementForm L P S _ _ := .function hkeyword hname hargs
      (parameterNames_eq_some_iff.mp hparameters) hopening hbody.1 hclosing
    simpa using hform

/-- An expression as a statement is read if expressions are. -/
theorem expressionStatement_reads {expr : Rule Node} (hexpr : expr.Reads depth (Phrase L))
    {P S : Language Node} :
    (expressionStatement expr).Reads depth (Phrase (StatementForm L P S)) := by
  intro c
  simp only [expressionStatement, ensures_bind, ensures_sees, ensures_ite, ensures_discard,
    ensures_advance, ensures_pure, beq_iff_eq]
  refine (hexpr c).mono ?_ fun _ _ h => h
  rintro v d ⟨s, hs, hv⟩
  refine ⟨fun hsemicolon => ?_, fun _ => ⟨s, hs, .expression hv.1, hv.2⟩⟩
  exact ⟨_, hs.trans (takes_current (by simp [hsemicolon])), .terminated hv.1 hsemicolon,
    fun _ => closed_concat (by simp [hsemicolon])⟩

end Statements

/-- A rule for statements of bounded nesting reads statements of that nesting. -/
theorem statement_reads (depth : Nat) :
    (statement depth).Reads depth (Phrase (StatementWithin depth)) := by
  induction depth with
  | zero =>
    intro c
    exact ⟨⟨[], .refl c⟩, Nat.zero_le _⟩
  | succ depth ih =>
    intro c
    have hexpr := expression_reads (depth + 1)
    simp only [statement, ensures_bind, ensures_current]
    split
    next htype => exact variableDeclaration_reads hexpr false (by simp [htype])
    next htype => exact variableDeclaration_reads hexpr true (by simp [htype])
    next htype =>
      exact functionDeclaration_reads (expression_reads depth) ih
        (fun s v h => h.starts.ne_nil) htype
    next => exact expressionStatement_reads hexpr c

/-- A statement of a program is read within the limit, or nothing at the end of input. -/
theorem programStep_reads (limit : Nat) :
    (programStep limit).Reads limit
      (StatementRound (StatementWithin limit) fun token => token.type = .endOfInput) := by
  intro c
  simp only [programStep, ensures_bind, ensures_sees, ensures_ite, ensures_pure, beq_iff_eq]
  refine ⟨fun htype => ⟨[], .refl c, .stop htype⟩, fun _ => ?_⟩
  exact (statement_reads limit c).mono (fun v d ⟨s, hs, hv⟩ => ⟨s, hs, .statement hv⟩)
    fun _ _ h => h

/-- To read a statement of a program leaves fewer tokens, unless there is none. -/
theorem programStep_shortens (limit : Nat) : (programStep limit).Shortens :=
  (programStep_reads limit).shortens (statementRound_ne_nil fun _ _ h => h.starts.ne_nil)

/-- A rule for programs reads statements up to the end of input. -/
theorem program_reads (limit : Nat) :
    (program limit).Reads limit fun s v token => token.type = .endOfInput ∧
      ∃ vs, Statements (StatementWithin limit) s vs ∧ v = .program (s.headD token).start vs := by
  intro c
  have hmany :=
    (statements_reads (programStep_reads limit) fun _ _ h => h.starts.ne_nil).reportingDepth
  simp only [program, ensures_bind, ensures_current, ensures_pure]
  refine (hmany c).mono ?_ fun _ _ h => h
  rintro vs d ⟨s, hs, hstatements, hstop⟩
  exact ⟨s, hs, hstop, vs, hstatements, by rw [hs.current]⟩

/-- A rule for programs reports it when no levels are left. -/
theorem program_ne_exhausted (limit : Nat) (c d : TokenCursor) :
    program limit c ≠ .error .exhausted d := by
  have hreported :
      (program limit).Ensures c (fun _ _ => True) fun fault _ => fault ≠ .exhausted := by
    simp only [program, ensures_bind, ensures_current, ensures_reportingDepth, ensures_pure]
    unfold Ensures
    split
    next => trivial
    next fault _ _ => cases fault <;> simp [ParseFault.reported]
  exact fun h => hreported.of_eq_error h rfl

end BoSyntax.Rule
