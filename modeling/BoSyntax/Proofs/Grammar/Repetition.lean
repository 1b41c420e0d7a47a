import BoSyntax.Proofs.Grammar.Outcome

/-!
# Repetition

A round of a repetition that gives something takes at least one token, so the bound on the number of
rounds is never met. A repetition is therefore equal to one round followed by the same repetition
(`many_eq` and `grow_eq`), and what it reads is told by what its rounds read.
-/

namespace BoSyntax.Rule

variable {α : Type} {c : TokenCursor}

/-- When a rule gives something, fewer tokens are ahead than before. -/
def Shortens (item : Rule (Option α)) : Prop :=
  ∀ c value d, item c = .ok (some value) d → d.ahead.length < c.ahead.length ∧ d.size = c.size

/-- A rule shortens if it reads nothing from no tokens. -/
theorem Reads.shortens {item : Rule (Option α)} {depth : Nat}
    {Item : List Token → Option α → Token → Prop} (h : item.Reads depth Item)
    (hnonempty : ∀ s value token, Item s (some value) token → s ≠ []) : item.Shortens := by
  intro c value d heq
  obtain ⟨s, hs, hitem⟩ := h.of_eq_ok heq
  have hlength := hs.length
  have hpos := List.length_pos_iff.mpr (hnonempty s value _ hitem)
  exact ⟨by omega, hs.size⟩

/-! ## Lists -/

/-- Any bound beyond the number of tokens ahead gives the same list. -/
theorem manyUpTo_eq {item : Rule (Option α)} (h : item.Shortens) {m n : Nat}
    (hm : c.ahead.length < m) (hn : c.ahead.length < n) :
    manyUpTo item m c = manyUpTo item n c := by
  induction m generalizing c n with
  | zero => omega
  | succ m ih =>
    cases n with
    | zero => omega
    | succ n =>
      change EStateM.bind item _ c = EStateM.bind item _ c
      unfold EStateM.bind
      match heq : item c with
      | .error fault d => rfl
      | .ok none d => rfl
      | .ok (some value) d =>
        have hlt := (h c value d heq).1
        have hrest := @ih d n (by omega) (by omega)
        change EStateM.bind (manyUpTo item m) _ d = EStateM.bind (manyUpTo item n) _ d
        unfold EStateM.bind
        rw [hrest]

/-- A list is read by reading its first value and then a list. -/
theorem many_eq {item : Rule (Option α)} (h : item.Shortens) :
    many item = (do
      match ← item with
      | none => return []
      | some value => return value :: (← many item)) := by
  funext c
  change EStateM.bind item _ c = EStateM.bind item _ c
  unfold EStateM.bind
  match heq : item c with
  | .error fault d => rfl
  | .ok none d => rfl
  | .ok (some value) d =>
    obtain ⟨hlt, hsize⟩ := h c value d heq
    have hle := c.ahead_le_size
    have hrest : manyUpTo item c.size d = manyUpTo item (d.size + 1) d :=
      manyUpTo_eq h (by omega) (by omega)
    change EStateM.bind (manyUpTo item c.size) _ d =
      EStateM.bind (fun d => manyUpTo item (d.size + 1) d) _ d
    unfold EStateM.bind
    rw [hrest]

/-- What a list is made of when its items are: the last round gives nothing. -/
inductive Listed (Item : List Token → Option α → Token → Prop) :
    List Token → List α → Token → Prop
  | stop {s token} : Item s none token → Listed Item s [] token
  | step {s t value values token} : Item s (some value) (t.headD token) →
    Listed Item t values token → Listed Item (s ++ t) (value :: values) token

/-- A list of what an item reads is read. -/
theorem many_reads {item : Rule (Option α)} {depth : Nat}
    {Item : List Token → Option α → Token → Prop} (h : item.Reads depth Item)
    (hnonempty : ∀ s value token, Item s (some value) token → s ≠ []) :
    (many item).Reads depth (Listed Item) := by
  have hshortens := h.shortens hnonempty
  intro c
  induction hn : c.ahead.length using Nat.strongRecOn generalizing c with
  | ind n ih =>
    rw [many_eq hshortens, ensures_bind]
    refine (h c).mono ?_ fun _ _ hfault => hfault
    rintro (_ | value) d ⟨s, hs, hitem⟩
    · exact ⟨s, hs, .stop hitem⟩
    · have hlength := hs.length
      have hpos := List.length_pos_iff.mpr (hnonempty s value _ hitem)
      rw [ensures_bind]
      refine (ih _ (by omega) d rfl).mono ?_ fun fault e hfault => hfault.of_takes hs (by omega)
      rintro values e ⟨t, ht, hlisted⟩
      rw [ht.current] at hitem
      exact ⟨s ++ t, hs.trans ht, .step hitem hlisted⟩

/-! ## Growing values -/

/-- Any bound beyond the number of tokens ahead lets a value grow alike. -/
theorem growUpTo_eq {extend : α → Rule (Option α)} (h : ∀ value, (extend value).Shortens)
    {m n : Nat} {value : α} (hm : c.ahead.length < m) (hn : c.ahead.length < n) :
    growUpTo extend m value c = growUpTo extend n value c := by
  induction m generalizing c n value with
  | zero => omega
  | succ m ih =>
    cases n with
    | zero => omega
    | succ n =>
      change EStateM.bind (extend value) _ c = EStateM.bind (extend value) _ c
      unfold EStateM.bind
      match heq : extend value c with
      | .error fault d => rfl
      | .ok none d => rfl
      | .ok (some larger) d =>
        have hlt := (h value c larger d heq).1
        exact ih (by omega) (by omega)

/-- A value grows by growing once and then further. -/
theorem grow_eq {extend : α → Rule (Option α)} (h : ∀ value, (extend value).Shortens) (value : α) :
    grow extend value = (do
      match ← extend value with
      | none => return value
      | some larger => grow extend larger) := by
  funext c
  change EStateM.bind (extend value) _ c = EStateM.bind (extend value) _ c
  unfold EStateM.bind
  match heq : extend value c with
  | .error fault d => rfl
  | .ok none d => rfl
  | .ok (some larger) d =>
    obtain ⟨hlt, hsize⟩ := h value c larger d heq
    have hle := c.ahead_le_size
    exact growUpTo_eq h (by omega) (by omega)

/-- What a value becomes when it grows step by step: the last round gives nothing. -/
inductive Grown (Step : α → List Token → Option α → Token → Prop) :
    α → List Token → α → Token → Prop
  | stop {value s token} : Step value s none token → Grown Step value s value token
  | step {value larger s t result token} : Step value s (some larger) (t.headD token) →
    Grown Step larger t result token → Grown Step value (s ++ t) result token

/-- What a value becomes by the steps that are read is read. -/
theorem grow_reads {extend : α → Rule (Option α)} {depth : Nat}
    {Step : α → List Token → Option α → Token → Prop}
    (h : ∀ value, (extend value).Reads depth (Step value))
    (hnonempty : ∀ value s larger token, Step value s (some larger) token → s ≠ []) (value : α) :
    (grow extend value).Reads depth (Grown Step value) := by
  have hshortens := fun value => (h value).shortens (hnonempty value)
  intro c
  induction hn : c.ahead.length using Nat.strongRecOn generalizing c value with
  | ind n ih =>
    rw [grow_eq hshortens, ensures_bind]
    refine (h value c).mono ?_ fun _ _ hfault => hfault
    rintro (_ | larger) d ⟨s, hs, hstep⟩
    · exact ⟨s, hs, .stop hstep⟩
    · have hlength := hs.length
      have hpos := List.length_pos_iff.mpr (hnonempty value s larger _ hstep)
      refine (ih _ (by omega) larger d rfl).mono ?_
        fun fault e hfault => hfault.of_takes hs (by omega)
      rintro result e ⟨t, ht, hgrown⟩
      rw [ht.current] at hstep
      exact ⟨s ++ t, hs.trans ht, .step hstep hgrown⟩

end BoSyntax.Rule
