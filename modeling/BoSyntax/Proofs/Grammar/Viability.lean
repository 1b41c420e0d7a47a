import BoSyntax.Proofs.Grammar.Recognition

/-!
# What is begun can be completed

A rule that objects to the token in sight has taken the beginning of a phrase: some other tokens
would have completed it. Two checks are made too late for that, of what stands behind a dot and of
the parameters of a function, and so this holds of plain beginnings, where neither can fail.
-/

namespace BoSyntax

open BoSyntax.Language TokenCursor

/-- Whether an objection is to the token in sight, and not made about what was read before or about
the nesting. -/
def Objection.isImmediate : Objection → Bool
  | .tooDeep | .parameterNotName | .propertyNotName => false
  | _ => true

/-- Up to the first closing parenthesis there are only names and commas. -/
def NamesOnly (s : List Token) : Prop :=
  ∀ token ∈ s.takeWhile fun token => token.type ≠ .closeParen,
    token.type = .identifier ∨ token.type = .comma

/-- More tokens may follow. -/
theorem NamesOnly.of_append {s t : List Token} (h : NamesOnly (s ++ t)) : NamesOnly s := by
  intro token hmem
  refine h token ?_
  rw [List.takeWhile_append]
  split
  · exact List.mem_append_left _ (List.takeWhile_subset _ hmem)
  · exact hmem

/-- Any token but a closing parenthesis may stand before. -/
theorem NamesOnly.of_cons {token : Token} {s : List Token} {type : TokenType}
    (h : NamesOnly (token :: s)) (htype : token.type = type) (hne : type ≠ .closeParen) :
    NamesOnly s := by
  rw [NamesOnly, List.takeWhile_cons_of_pos (by simpa [htype] using hne)] at h
  exact fun next hmem => h next (List.mem_cons_of_mem _ hmem)

/-- No parenthesis is opened behind a dot, and only names and commas stand between the parentheses
of a function. -/
structure Plain (s : List Token) : Prop where
  dot : ∀ before dot token after, s = before ++ dot :: token :: after → dot.type = .dot →
    token.type ≠ .openParen
  parameters : ∀ before keyword name opening after,
    s = before ++ keyword :: name :: opening :: after → keyword.type = .fnKeyword →
    name.type = .identifier → opening.type = .openParen → NamesOnly after

/-- Tokens are plain if no member is named and no function is declared. -/
theorem plain_of_forall {s : List Token}
    (h : ∀ token ∈ s, token.type ≠ .dot ∧ token.type ≠ .fnKeyword) : Plain s where
  dot := fun before dot token after hs hdot => absurd hdot (h dot (by simp [hs])).1
  parameters := fun before keyword name opening after hs hkeyword _ _ =>
    absurd hkeyword (h keyword (by simp [hs])).2

/-- What stands behind other plain tokens is plain. -/
theorem Plain.of_append {s t : List Token} (h : Plain (s ++ t)) : Plain t where
  dot := fun before dot token after ht =>
    h.dot (s ++ before) dot token after (by rw [ht, List.append_assoc])
  parameters := fun before keyword name opening after ht =>
    h.parameters (s ++ before) keyword name opening after (by rw [ht, List.append_assoc])

/-- Some token of a kind, to complete a phrase. -/
def Token.filler (type : TokenType) : Token :=
  ⟨type, "x", ⟨1, 1⟩⟩

namespace Language

variable {α β : Type} {L : Language α} {L' : Language β} {s t : List Token} {v : α}

/-- Some tokens begin a phrase of a language if they are plain: tokens of some kinds complete it. -/
def Begins (L : Language α) (s : List Token) : Prop :=
  Plain s → ∃ (types : List TokenType) (v : α),
    .endOfInput ∉ types ∧ L (s ++ types.map .filler) v

/-- What tokens of some kinds complete is a beginning. -/
theorem begins_of_fillers (types : List TokenType) (hend : .endOfInput ∉ types)
    (h : L (s ++ types.map .filler) v) : Begins L s :=
  fun _ => ⟨types, v, hend, h⟩

/-- A phrase begins itself. -/
theorem begins_self (h : L s v) : Begins L s :=
  begins_of_fillers [] (by simp) (by simpa using h)

/-- What begins a phrase begins whatever that phrase is closed to. -/
theorem Begins.close (h : Begins L t) (types : List TokenType) (hend : .endOfInput ∉ types)
    (himp : ∀ u v, L (t ++ u) v → ∃ w, L' (s ++ t ++ (u ++ types.map .filler)) w) :
    Begins L' (s ++ t) := by
  intro hplain
  obtain ⟨types', v, hend', h⟩ := h hplain.of_append
  obtain ⟨w, hw⟩ := himp _ v h
  exact ⟨types' ++ types, w, by simpa using ⟨hend', hend⟩, by rwa [List.map_append]⟩

/-- What begins a phrase begins whatever ends with that phrase. -/
theorem Begins.prepend (h : Begins L t) (himp : ∀ u v, L (t ++ u) v → ∃ w, L' (s ++ t ++ u) w) :
    Begins L' (s ++ t) :=
  h.close [] (by simp) (by simpa using himp)

/-- What begins a phrase of a language begins one of a larger language. -/
theorem Begins.mono (h : Begins L s) (himp : ∀ t v, L t v → ∃ w, L' t w) : Begins L' s :=
  Begins.prepend (s := []) h fun _ _ h => himp _ _ h

end Language

/-- If a fault is an objection to the token in sight, it is met behind some beginning. -/
def ParseFault.BreaksOff (Begun : List Token → Prop) (c d : TokenCursor) (fault : ParseFault) :
    Prop :=
  ∀ objection token, fault = .rejected objection token → objection.isImmediate = true →
    token = d.current ∧ ∃ s, c.Takes s d ∧ Begun s

namespace ParseFault

variable {Begun Begun' : List Token → Prop} {c d e : TokenCursor} {s : List Token}

/-- An objection behind a beginning. -/
theorem breaksOff_after {objection : Objection} (hs : c.Takes s d) (h : Begun s) :
    (rejected objection d.current).BreaksOff Begun c d := by
  rintro _ _ ⟨⟩ _
  exact ⟨rfl, s, hs, h⟩

/-- Other objections say nothing about beginnings. -/
theorem breaksOff_of_not_immediate {objection : Objection} {token : Token}
    (h : objection.isImmediate = false) : (rejected objection token).BreaksOff Begun c d := by
  rintro _ _ ⟨⟩ himmediate
  rw [h] at himmediate
  cases himmediate

/-- To run out of levels says nothing about beginnings. -/
theorem breaksOff_exhausted : exhausted.BreaksOff Begun c d :=
  fun _ _ h => nomatch h

/-- The report of a fault is met where the fault is. -/
theorem BreaksOff.reported {fault : ParseFault} (h : fault.BreaksOff Begun c d) :
    (fault.reported d.current).BreaksOff Begun c d := by
  cases fault with
  | exhausted => exact breaksOff_of_not_immediate rfl
  | _ => exact h

/-- What is taken before belongs to the beginning. -/
theorem BreaksOff.of_takes {fault : ParseFault} (h : fault.BreaksOff Begun d e) (hs : c.Takes s d)
    (himp : ∀ t, d.Takes t e → Begun t → Begun' (s ++ t)) : fault.BreaksOff Begun' c e := by
  intro objection token hfault himmediate
  obtain ⟨htoken, t, ht, hbegun⟩ := h objection token hfault himmediate
  exact ⟨htoken, s ++ t, hs.trans ht, himp t ht hbegun⟩

end ParseFault

namespace Rule

variable {α β : Type}

/-- Where a rule objects to the token in sight, it has taken some beginning. -/
def Breaks (rule : Rule α) (Begun : List Token → Prop) : Prop :=
  ∀ c, rule.Ensures c (fun _ _ => True) fun fault d => fault.BreaksOff Begun c d

section Building

variable {rule : Rule α} {Begun Begun' : List Token → Prop} {depth : Nat}
  {Related : List Token → α → Token → Prop} {c d : TokenCursor} {s : List Token}

/-- Reading goes on from where a segment ends, and what was taken belongs to the beginning. -/
theorem Breaks.ensures_after (h : rule.Breaks Begun) (hreads : rule.Reads depth Related)
    (hs : c.Takes s d) (hbegun : ∀ t, Begun t → Begun' (s ++ t))
    {done : α → TokenCursor → Prop}
    (hdone : ∀ value e t, c.Takes (s ++ t) e → d.Takes t e → Related t value e.current →
      done value e) :
    rule.Ensures d done fun fault e => fault.BreaksOff Begun' c e := by
  cases heq : rule d with
  | ok value e =>
    obtain ⟨t, ht, hrelated⟩ := hreads.of_eq_ok heq
    exact (ensures_of_eq_ok heq).mpr (hdone value e t (hs.trans ht) ht hrelated)
  | error fault e =>
    simp only [Ensures, heq]
    exact ((h d).of_eq_error heq).of_takes hs fun t _ => hbegun t

/-- What a rule has begun may be told less closely. -/
theorem Breaks.mono (h : rule.Breaks Begun) (himp : ∀ s, Begun s → Begun' s) :
    rule.Breaks Begun' := fun c =>
  (h c).mono (fun _ _ h => h) fun _ _ hfault => by
    simpa using hfault.of_takes (.refl c) fun t _ => himp t

/-- A rule breaks off at the same places when it reports that no levels are left. -/
theorem Breaks.reportingDepth (h : rule.Breaks Begun) : (reportingDepth rule).Breaks Begun :=
  fun c => (ensures_reportingDepth rule).mpr
    ((h c).mono (fun _ _ h => h) fun _ _ hfault => hfault.reported)

/-- A list breaks off in its last round, behind the rounds before. -/
theorem many_breaks {item : Rule (Option α)} {Item : List Token → Option α → Token → Prop}
    (hreads : item.Reads depth Item)
    (hnonempty : ∀ s value token, Item s (some value) token → s ≠ []) (hitem : item.Breaks Begun)
    (hlast : ∀ s, Begun s → Begun' s)
    (hstep : ∀ s value t token, Item s (some value) (t.headD token) → Begun' t → Begun' (s ++ t)) :
    (many item).Breaks Begun' := by
  intro c
  induction hn : c.ahead.length using Nat.strongRecOn generalizing c with
  | ind n ih =>
    rw [many_eq (hreads.shortens hnonempty), ensures_bind]
    refine hitem.ensures_after hreads (.refl c) hlast ?_
    rintro (_ | value) d s hs hs' hvalue
    · trivial
    · have hlength := hs'.length
      have hpos := List.length_pos_iff.mpr (hnonempty s value _ hvalue)
      rw [ensures_bind]
      refine (ih _ (by omega) d rfl).mono (fun _ _ _ => trivial) fun fault e hfault => ?_
      refine hfault.of_takes hs' fun t ht hbegun => hstep s value t e.current ?_ hbegun
      rwa [← ht.current]

/-- A value breaks off growing in its last step, behind the steps before. -/
theorem grow_breaks {extend : α → Rule (Option α)}
    {Step : α → List Token → Option α → Token → Prop} {Begun Begun' : α → List Token → Prop}
    (hreads : ∀ value, (extend value).Reads depth (Step value))
    (hnonempty : ∀ value s larger token, Step value s (some larger) token → s ≠ [])
    (hextend : ∀ value, (extend value).Breaks (Begun value))
    (hlast : ∀ value s, Begun value s → Begun' value s)
    (hstep : ∀ value s larger t token, Step value s (some larger) (t.headD token) →
      Begun' larger t → Begun' value (s ++ t)) (value : α) :
    (grow extend value).Breaks (Begun' value) := by
  intro c
  induction hn : c.ahead.length using Nat.strongRecOn generalizing c value with
  | ind n ih =>
    rw [grow_eq fun value => (hreads value).shortens (hnonempty value), ensures_bind]
    refine (hextend value).ensures_after (hreads value) (.refl c) (hlast value) ?_
    rintro (_ | larger) d s hs hs' hlarger
    · trivial
    · have hlength := hs'.length
      have hpos := List.length_pos_iff.mpr (hnonempty value s larger _ hlarger)
      refine (ih _ (by omega) larger d rfl).mono (fun _ _ _ => trivial) fun fault e hfault => ?_
      refine hfault.of_takes hs' fun t ht hbegun => hstep value s larger t e.current ?_ hbegun
      rwa [← ht.current]

/-- A chain breaks off in its operand or in a suffix. -/
theorem chain_breaks {Base : Language Node} {Suffix : Node → Language Node}
    {After Stop : Token → Prop} {operand : Rule Node} {extend : Node → Rule (Option Node)}
    (hoperand : operand.Reads depth fun s v token => Base s v ∧ After token)
    (hextend : ∀ v, (extend v).Reads depth (Round Suffix After Stop v))
    (hnonempty : ∀ v s w, Suffix v s w → s ≠ []) (hbase : operand.Breaks (Begins Base))
    (hsuffix : ∀ v, (extend v).Breaks (Begins (Suffix v))) :
    (do grow extend (← operand) : Rule Node).Breaks (Begins (Chain Base Suffix)) := by
  -- Whatever chain a suffix extends, a beginning of the suffix is one of a longer chain.
  let Extends (v : Node) (t : List Token) : Prop :=
    ∀ s, Chain Base Suffix s v → Begins (Chain Base Suffix) (s ++ t)
  have hgrow : ∀ v, (grow extend v).Breaks (Extends v) := by
    refine grow_breaks hextend (round_ne_nil hnonempty) hsuffix (fun v t ht s hs => ?_) ?_
    · refine ht.prepend fun u w h => ⟨w, ?_⟩
      rw [List.append_assoc]
      exact hs.extend h
    · rintro v t w u token ⟨h, -⟩ hu s hs
      rw [← List.append_assoc]
      exact hu _ (hs.extend h)
  intro c
  rw [ensures_bind]
  refine hbase.ensures_after hoperand (.refl c)
    (fun s h => h.mono fun _ _ h => ⟨_, .base h⟩) fun v d s hs _ hv => ?_
  exact (hgrow v d).mono (fun _ _ _ => trivial) fun fault e hfault =>
    hfault.of_takes hs fun t _ h => h s (.base hv.1)

end Building

/-! ## Expressions -/

section Expressions

open ParseFault

variable {inner : Rule Node} {depth : Nat} {E : Language Node}
  (hreads : inner.Reads depth (Phrase E)) (hinner : inner.Breaks (Begins E))
include hreads hinner

/-- A primary expression that is begun and not complete is an opening parenthesis and what it
encloses. -/
theorem primary_breaks : (primary inner).Breaks fun s =>
    (∀ first ∈ s.head?, first.type = .openParen) ∧ Begins (Primary E) s := by
  intro c
  simp only [primary, ensures_bind, ensures_current]
  split
  next => trivial
  next =>
    simp only [ensures_bind, ensures_discard, ensures_advance]
    split
    next => trivial
    next => rintro _ _ ⟨⟩
  next htype =>
    have htakes := takes_current (c := c) (by simp [htype])
    have hgroup : ∀ {s v}, E s v → Primary E ([c.current] ++ s ++ [.filler .closeParen]) v :=
      fun h => .group htype h rfl
    simp only [ensures_bind, ensures_discard, ensures_advance, ensures_expect, ensures_pure]
    refine hinner.ensures_after hreads htakes
      (fun t ht => ⟨by simpa using htype, ht.close [.closeParen] (by decide) ?_⟩)
      fun v d s hs _ hv => ⟨fun _ => trivial, fun _ => breaksOff_after hs
        ⟨by simpa using htype, begins_of_fillers [.closeParen] (by decide) (hgroup hv.1)⟩⟩
    exact fun u v h => ⟨v, by simpa using hgroup h⟩
  next =>
    exact breaksOff_after (.refl c)
      ⟨by simp, begins_of_fillers [.identifier] (by decide) (.name rfl)⟩

/-- Where a round of the loop over members objects, a suffix has begun. -/
theorem memberStep_breaks (owner : Node) :
    (memberStep inner owner).Breaks (Begins (MemberSuffix E owner)) := by
  intro c
  simp only [memberStep, ensures_bind, ensures_current]
  split
  next htype =>
    have htakes := takes_current (c := c) (by simp [htype])
    simp only [ensures_bind, ensures_discard, ensures_advance, ensures_current, ensures_ite,
      ensures_throw, ensures_build, ensures_pure, bne_iff_ne]
    refine (primary_breaks hreads hinner).ensures_after (primary_reads hreads) htakes
      (fun t ht => ?_) fun v d s _ _ _ => ⟨fun _ => breaksOff_of_not_immediate rfl, fun _ => ?_⟩
    -- No parenthesis is opened behind the dot, so nothing was taken of what stands there.
    · cases t with
      | nil => exact begins_of_fillers [.identifier] (by decide) (.dot htype (.name rfl))
      | cons first t =>
        exact fun hplain =>
          absurd (ht.1 first rfl) (hplain.dot [] c.current first t rfl htype)
    · split
      · trivial
      · rintro _ _ ⟨⟩
  next htype =>
    have htakes := takes_current (c := c) (by simp [htype])
    have hindex : ∀ {s v}, E s v → MemberSuffix E owner
        ([c.current] ++ s ++ [.filler .closeBracket]) (.index owner.start owner v) :=
      fun h => .index htype h rfl
    simp only [ensures_bind, ensures_discard, ensures_advance, ensures_expect, ensures_build,
      Node.member?, if_true, ensures_pure]
    refine hinner.ensures_after hreads htakes (fun t ht => ht.close [.closeBracket] (by decide) ?_)
      fun v d s hs _ hv => ⟨fun _ => trivial, fun _ =>
        breaksOff_after hs (begins_of_fillers [.closeBracket] (by decide) (hindex hv.1))⟩
    exact fun u v h => ⟨_, by simpa using hindex h⟩
  next => trivial

/-- Where the rule for members objects, a member has begun. -/
theorem member_breaks : (member inner).Breaks (Begins (Member E)) := by
  have hprimary : (primary inner).Reads (depth + 1) fun s v _ => Primary E s v ∧ True :=
    (primary_reads hreads).mono fun _ _ _ h => ⟨h, trivial⟩
  exact chain_breaks hprimary (memberStep_reads hreads) memberSuffix_ne_nil
    ((primary_breaks hreads hinner).mono fun _ h => h.2) (memberStep_breaks hreads hinner)

/-- Where the rule for arguments without their parentheses objects, a list of expressions has
begun. -/
theorem argumentList_breaks : (argumentList inner).Breaks (Begins (Items E)) := by
  have hfurther : (furtherArgument inner).Breaks fun s =>
      ∃ comma t, s = comma :: t ∧ comma.type = .comma ∧ Begins E t := by
    intro c
    simp only [furtherArgument, ensures_bind, ensures_sees, ensures_ite, beq_iff_eq]
    refine ⟨fun htype => ?_, fun _ => trivial⟩
    have htakes := takes_current (c := c) (by simp [htype])
    simp only [ensures_discard, ensures_advance, ensures_pure]
    exact hinner.ensures_after hreads htakes (fun t ht => ⟨_, t, rfl, htype, ht⟩)
      fun _ _ _ _ _ _ => trivial
  -- Whatever expression they follow, further arguments that are begun are some of a longer list.
  have hmany : (many (furtherArgument inner)).Breaks fun t =>
      ∀ s v, E s v → Begins (Items E) (s ++ t) := by
    refine many_breaks (furtherArgument_reads hreads) furtherItem_ne_nil hfurther ?_ ?_
    · rintro _ ⟨comma, t, rfl, hcomma, ht⟩ s v hs
      rw [List.append_cons]
      refine ht.prepend fun u w hw => ⟨[v, w], ?_⟩
      simpa using Items.more hs hcomma (.one hw)
    · intro _ _ t _ hitem ht s v hs
      cases hitem with
      | item hcomma hw =>
        rw [List.cons_append, List.append_cons]
        refine (ht _ _ hw).prepend fun u ws hws => ⟨v :: ws, ?_⟩
        simpa using Items.more hs hcomma hws
  intro c
  simp only [argumentList, ensures_bind, ensures_pure]
  refine hinner.ensures_after hreads (.refl c)
    (fun s h => h.mono fun _ _ h => ⟨_, .one h⟩) fun v d s hs _ hv => ?_
  exact (hmany d).mono (fun _ _ _ => trivial) fun fault e hfault =>
    hfault.of_takes hs fun t _ h => h s v hv.1

/-- Where the rule for arguments objects, arguments have begun. -/
theorem arguments_breaks : (arguments inner).Breaks (Begins (Arguments E)) := by
  intro c
  simp only [arguments, ensures_bind, ensures_discard, ensures_expect, ensures_sees, ensures_ite,
    ensures_pure, beq_iff_eq]
  refine ⟨fun hopening => ?_, fun _ => breaksOff_after (.refl c)
    (begins_of_fillers [.openParen, .closeParen] (by decide) (.none rfl rfl))⟩
  have htakes := takes_current (c := c) (by simp [hopening])
  have hargs : ∀ {s vs}, Items E s vs →
      Arguments E ([c.current] ++ s ++ [.filler .closeParen]) vs := fun h => .some hopening h rfl
  refine ⟨fun hclosing => ⟨fun _ => trivial, fun hne => absurd hclosing hne⟩, fun _ => ?_⟩
  refine (argumentList_breaks hreads hinner).ensures_after (argumentList_reads hreads) htakes
    (fun t ht => ht.close [.closeParen] (by decide) ?_) fun vs d s hs _ hvs =>
      ⟨fun _ => trivial, fun _ =>
        breaksOff_after hs (begins_of_fillers [.closeParen] (by decide) (hargs hvs))⟩
  exact fun u vs h => ⟨vs, by simpa using hargs h⟩

/-- Where the rule for calls objects, a call has begun. -/
theorem callMember_breaks : (callMember inner).Breaks (Begins (Call E)) := by
  have hstep : ∀ callee, (callStep inner callee).Breaks (Begins (CallSuffix E callee)) := by
    intro callee c
    simp only [callStep, ensures_bind, ensures_sees, ensures_ite, ensures_pure]
    refine ⟨fun _ => ?_, fun _ => trivial⟩
    exact ((arguments_breaks hreads hinner).mono fun _ h => h.mono fun _ _ h => ⟨_, .arguments h⟩) c
  have hmember : (member inner).Reads (depth + 1) fun s v _ => Member E s v ∧ True :=
    (member_reads hreads).mono fun _ _ _ h => ⟨h, trivial⟩
  rw [callMember_eq hreads]
  exact chain_breaks hmember (callStep_reads hreads) callSuffix_ne_nil
    (member_breaks hreads hinner) hstep

omit hreads hinner in
/-- Where a rule for operands joined by operators objects, such operands have begun. -/
theorem operation_breaks {operators : List String} {operand : Rule Node} {L : Language Node}
    {After : Token → Prop} (hreads : operand.Reads depth fun s v token => L s v ∧ After token)
    (hoperand : operand.Breaks (Begins L)) :
    (operation operators operand).Breaks (Begins (Operation operators L)) := by
  refine chain_breaks hreads (operationStep_reads hreads) operationSuffix_ne_nil hoperand
    fun left c => ?_
  simp only [operationStep, ensures_bind, ensures_current, ensures_ite, ensures_discard,
    ensures_advance, ensures_pure, Bool.and_eq_true, beq_iff_eq, List.contains_iff_mem]
  refine ⟨?_, fun _ => trivial⟩
  rintro ⟨htype, hmem⟩
  have htakes := takes_current (c := c) (by simp [htype])
  exact hoperand.ensures_after hreads htakes
    (fun t ht => ht.prepend fun u v h => ⟨_, .operator htype hmem h⟩) fun _ _ _ _ _ _ => trivial

/-- Where a round of the loop over properties objects, properties have begun. -/
theorem propertyStep_breaks : (propertyStep inner).Breaks (Begins (Properties E)) := by
  have hvalue : ∀ {key : Token}, key.type = .identifier →
      (propertyValue inner).Breaks fun s => Begins (Properties E) (key :: s) := by
    intro key hkey c
    simp only [propertyValue, ensures_bind, ensures_current]
    split
    next => trivial
    next => trivial
    next =>
      simp only [ensures_bind, ensures_discard, ensures_expect, ensures_sees, ensures_ite,
        ensures_pure]
      refine ⟨fun hcolon => ?_, fun _ =>
        breaksOff_after (.refl c) (begins_self (.one (.shorthand hkey)))⟩
      have htakes := takes_current (c := c) (by simp [hcolon])
      refine hinner.ensures_after hreads htakes (fun t ht => ?_)
        fun v d s hs _ hv => ⟨fun _ => ⟨fun _ => trivial, fun _ =>
          breaksOff_after hs (begins_self (.one (.value hkey hcolon hv.1)))⟩, fun _ => trivial⟩
      rw [← List.cons_append]
      exact ht.prepend fun u v h => ⟨_, .one (.value hkey hcolon h)⟩
  intro c
  simp only [propertyStep, ensures_bind, ensures_current]
  split
  next => trivial
  next => trivial
  next =>
    simp only [ensures_bind, ensures_expect, ensures_pure]
    refine ⟨fun hkey => ?_, fun _ => breaksOff_after (.refl c) (begins_self .none)⟩
    have htakes := takes_current (c := c) (by simp [hkey])
    exact (hvalue hkey).ensures_after (propertyValue_reads hreads) htakes (fun _ h => h)
      fun _ _ _ _ _ _ => trivial

/-- Where the rule for objects and sums objects, an object or sum has begun. -/
theorem object_breaks : (object inner).Breaks (Begins (Object E)) := by
  have hcall := callMember_reads hreads
  have hsum : (additive inner).Breaks (Begins (Sum E)) :=
    operation_breaks (operation_reads hcall)
      (operation_breaks hcall (callMember_breaks hreads hinner))
  have hmany : (many (propertyStep inner)).Breaks (Begins (Properties E)) := by
    refine many_breaks (propertyStep_reads hreads) propertyRound_ne_nil
      (propertyStep_breaks hreads hinner) (fun _ h => h) fun s v t token hround ht => ?_
    cases hround with
    | further h hcomma =>
      exact ht.prepend fun u vs hvs => ⟨v :: vs, by simpa using Properties.more h hcomma hvs⟩
    | last h hclose =>
      cases t with
      | nil =>
        rw [List.append_nil]
        exact begins_self (.one h)
      | cons first t =>
        -- A closing brace starts no property, so no more can have been begun.
        refine ht.prepend fun u vs hvs => absurd hclose ?_
        simp [hvs.type_of_cons]
  intro c
  simp only [object, ensures_bind, ensures_sees, ensures_ite, ensures_discard, ensures_advance,
    ensures_expect, ensures_pure, beq_iff_eq]
  refine ⟨fun hopening => ?_, fun _ =>
    (hsum.mono fun _ h => h.mono fun _ _ h => ⟨_, .sum h⟩) c⟩
  have htakes := takes_current (c := c) (by simp [hopening])
  have hbraces : ∀ {s vs}, Properties E s vs →
      Object E ([c.current] ++ s ++ [.filler .closeBrace]) (.object c.current.start vs) :=
    fun h => .braces hopening h rfl
  have hreadsMany := many_reads (propertyStep_reads hreads) propertyRound_ne_nil
  refine hmany.ensures_after hreadsMany htakes (fun t ht => ht.close [.closeBrace] (by decide) ?_)
    fun vs d s hs _ hvs => ⟨fun _ => trivial, fun _ => breaksOff_after hs
      (begins_of_fillers [.closeBrace] (by decide) (hbraces (properties_of_listed hvs)))⟩
  exact fun u vs h => ⟨_, by simpa using hbraces h⟩

/-- Where the rule for assignments objects, an assignment has begun. -/
theorem assignment_breaks : (assignment inner).Breaks (Begins (Assignment E)) := by
  intro c
  simp only [assignment, ensures_bind, ensures_sees, ensures_ite, ensures_discard, ensures_advance,
    ensures_pure, beq_iff_eq]
  refine (object_breaks hreads hinner).ensures_after (object_reads hreads) (.refl c)
    (fun s h => h.mono fun _ _ h => ⟨_, .object h⟩) fun target d s hs _ htarget =>
      ⟨fun hequals => ?_, fun _ => trivial⟩
  have htakes := hs.trans (takes_current (c := d) (by simp [hequals]))
  refine hinner.ensures_after hreads htakes (fun t ht => ht.prepend fun u v h => ?_)
    fun _ _ _ _ _ _ => trivial
  exact ⟨_, by simpa using Assignment.assign htarget.1 hequals h⟩

end Expressions

/-- Where an expression breaks off, it could have been completed without nesting deeper. -/
theorem expression_breaks (depth : Nat) :
    (expression depth).Breaks (Begins (ExpressionWithin depth)) := by
  induction depth with
  | zero => exact fun c => ParseFault.breaksOff_exhausted
  | succ depth ih => exact assignment_breaks (expression_reads depth) ih

end Rule

end BoSyntax
