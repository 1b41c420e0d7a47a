import Mathlib.Data.List.Basic

/-!
# Balanced marks

Two marks are balanced in a list when every opening mark has its closing mark behind it, with a
balanced list between the two. No beginning of such a list has more closing than opening marks, and
a place that more marks are opened than closed before is between two marks that belong together.
-/

namespace BoSyntax

variable {α : Type} {opening closing : α}

/-- A list with a mark in it is divided before the mark or behind it. -/
theorem append_cons_eq_append {s t before after : List α} {mark : α}
    (h : s ++ mark :: t = before ++ after) :
    (∃ rest, s = before ++ rest ∧ after = rest ++ mark :: t) ∨
      ∃ rest, before = s ++ mark :: rest ∧ t = rest ++ after := by
  rcases List.append_eq_append_iff.mp h with ⟨rest, rfl, hrest⟩ | ⟨rest, rfl, rfl⟩
  · rcases List.cons_eq_append_iff.mp hrest with ⟨rfl, rfl⟩ | ⟨rest, rfl, rfl⟩
    · exact .inl ⟨[], by simp⟩
    · exact .inr ⟨rest, rfl, rfl⟩
  · exact .inl ⟨rest, rfl, rfl⟩

/-- The marks are balanced in a list. -/
inductive Balanced (opening closing : α) : List α → Prop
  | nil : Balanced opening closing []
  | other {a s} : a ≠ opening → a ≠ closing → Balanced opening closing s →
    Balanced opening closing (a :: s)
  | block {s t} : Balanced opening closing s → Balanced opening closing t →
    Balanced opening closing (opening :: (s ++ closing :: t))

namespace Balanced

variable {s t : List α}

/-- Balanced texts one after the other are balanced. -/
theorem append (h : Balanced opening closing s) (h' : Balanced opening closing t) :
    Balanced opening closing (s ++ t) := by
  induction h with
  | nil => exact h'
  | other hopening hclosing _ ih => exact .other hopening hclosing ih
  | block hs _ _ ih =>
    rw [List.cons_append, List.append_assoc, List.cons_append]
    exact .block hs ih

/-- A text without the delimiters is balanced. -/
theorem of_notMem (hopening : opening ∉ s) (hclosing : closing ∉ s) :
    Balanced opening closing s := by
  induction s with
  | nil => exact .nil
  | cons a s ih =>
    rw [List.mem_cons, not_or] at hopening hclosing
    exact .other (Ne.symm hopening.1) (Ne.symm hclosing.1) (ih hopening.2 hclosing.2)

/-- A balanced list between an opening and a closing mark. -/
theorem enclosed (h : Balanced opening closing s) :
    Balanced opening closing (opening :: (s ++ [closing])) :=
  .block h .nil

variable [DecidableEq α] {before after : List α}

/-- A balanced text has as many closing delimiters as opening ones. -/
theorem count_eq (h : Balanced opening closing s) (hne : opening ≠ closing) :
    s.count closing = s.count opening := by
  induction h with
  | nil => rfl
  | other hopening hclosing _ ih =>
    rw [List.count_cons_of_ne hclosing, List.count_cons_of_ne hopening, ih]
  | block _ _ ihs iht =>
    simp only [List.count_cons, List.count_append, ihs, iht, beq_self_eq_true, beq_iff_eq, hne,
      hne.symm, if_true, if_false]
    omega

/-- No beginning has more closing than opening marks. -/
theorem count_le (h : Balanced opening closing s) (hne : opening ≠ closing)
    (hs : s = before ++ after) : before.count closing ≤ before.count opening := by
  induction h generalizing before after with
  | nil =>
    rw [(List.append_eq_nil_iff.mp hs.symm).1]
    exact Nat.le_refl _
  | other hopening hclosing _ ih =>
    rcases List.cons_eq_append_iff.mp hs with ⟨rfl, -⟩ | ⟨before, rfl, hrest⟩
    · exact Nat.le_refl _
    · rw [List.count_cons_of_ne hclosing, List.count_cons_of_ne hopening]
      exact ih hrest
  | block hblock _ ihs iht =>
    rcases List.cons_eq_append_iff.mp hs with ⟨rfl, -⟩ | ⟨before, rfl, hrest⟩
    · exact Nat.le_refl _
    · rw [List.count_cons_of_ne hne, List.count_cons_self]
      rcases append_cons_eq_append hrest with ⟨rest, hs, -⟩ | ⟨rest, rfl, ht⟩
      · exact Nat.le_succ_of_le (ihs hs)
      · rw [List.count_append, List.count_append, List.count_cons_self,
          List.count_cons_of_ne hne.symm, hblock.count_eq hne]
        exact Nat.add_le_add_left (Nat.succ_le_succ (iht ht)) _

/-- A place that more marks are opened than closed before is between two marks that belong
together. -/
theorem exists_block (h : Balanced opening closing s) (hne : opening ≠ closing)
    (hs : s = before ++ after) (hlt : before.count closing < before.count opening) :
    ∃ outer inner inner' outer', before = outer ++ opening :: inner ∧
      after = inner' ++ closing :: outer' ∧ Balanced opening closing (inner ++ inner') := by
  induction h generalizing before after with
  | nil =>
    rw [(List.append_eq_nil_iff.mp hs.symm).1] at hlt
    exact absurd hlt (Nat.lt_irrefl _)
  | @other a s hopening hclosing _ ih =>
    rcases List.cons_eq_append_iff.mp hs with ⟨rfl, -⟩ | ⟨before, rfl, hrest⟩
    · exact absurd hlt (Nat.lt_irrefl _)
    · rw [List.count_cons_of_ne hclosing, List.count_cons_of_ne hopening] at hlt
      obtain ⟨outer, inner, inner', outer', rfl, hafter, hinner⟩ := ih hrest hlt
      exact ⟨a :: outer, inner, inner', outer', rfl, hafter, hinner⟩
  | @block s t hblock _ _ iht =>
    rcases List.cons_eq_append_iff.mp hs with ⟨rfl, -⟩ | ⟨before, rfl, hrest⟩
    · exact absurd hlt (Nat.lt_irrefl _)
    · rcases append_cons_eq_append hrest with ⟨rest, rfl, hafter⟩ | ⟨rest, rfl, ht⟩
      -- The first block has the place in it, or the place is behind that block.
      · exact ⟨[], before, rest, t, rfl, hafter, hblock⟩
      · simp only [List.count_cons, List.count_append, hblock.count_eq hne, beq_self_eq_true,
          beq_iff_eq, hne, hne.symm, if_true, if_false] at hlt
        obtain ⟨outer, inner, inner', outer', rfl, hafter, hinner⟩ := iht ht (by omega)
        exact ⟨opening :: (s ++ closing :: outer), inner, inner', outer', by simp, hafter, hinner⟩

end Balanced

end BoSyntax
