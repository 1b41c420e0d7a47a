import Mathlib.Data.List.TakeWhile

/-!
# Texts that can be taken apart

A run of characters of one kind is told from what follows it by the first character of another kind.
So texts that are joined by a separator can be taken apart again when none of them has the
character that the separator starts with.
-/

namespace BoSyntax

section

variable {p : Char → Bool} {run run' rest rest' : List Char}

/-- A run of characters of one kind ends at the first of another kind. -/
theorem takeWhile_run_append (hrun : ∀ c ∈ run, p c = true)
    (hrest : ∀ c ∈ rest.head?, p c = false) : (run ++ rest).takeWhile p = run := by
  have hnil : rest.takeWhile p = [] := by cases rest <;> simp_all
  rw [List.takeWhile_append_of_pos hrun, hnil, List.append_nil]

/-- Behind a run is what it leaves. -/
theorem dropWhile_run_append (hrun : ∀ c ∈ run, p c = true)
    (hrest : ∀ c ∈ rest.head?, p c = false) : (run ++ rest).dropWhile p = rest := by
  rw [List.dropWhile_append_of_pos hrun]
  cases rest <;> simp_all

/-- A run of characters of one kind is told from what follows it. -/
theorem run_append_inj (hrun : ∀ c ∈ run, p c = true) (hrun' : ∀ c ∈ run', p c = true)
    (hrest : ∀ c ∈ rest.head?, p c = false) (hrest' : ∀ c ∈ rest'.head?, p c = false)
    (h : run ++ rest = run' ++ rest') : run = run' ∧ rest = rest' := by
  constructor
  · rw [← takeWhile_run_append hrun hrest, h, takeWhile_run_append hrun' hrest']
  · rw [← dropWhile_run_append hrun hrest, h, dropWhile_run_append hrun' hrest']

end

/-- The first text is told from what follows when that starts with a character it does not have. -/
theorem append_inj_of_notMem {c : Char} {text text' rest rest' : List Char} (h : c ∉ text)
    (h' : c ∉ text') (hrest : ∀ d ∈ rest.head?, d = c) (hrest' : ∀ d ∈ rest'.head?, d = c)
    (heq : text ++ rest = text' ++ rest') : text = text' ∧ rest = rest' := by
  have hrun {text : List Char} (h : c ∉ text) : ∀ d ∈ text, (d != c) = true := by
    intro d hd
    exact bne_iff_ne.mpr fun hdc => h (hdc ▸ hd)
  have hend {rest : List Char} (h : ∀ d ∈ rest.head?, d = c) :
      ∀ d ∈ rest.head?, (d != c) = false := by
    intro d hd
    rw [h d hd, bne_self_eq_false]
  exact run_append_inj (hrun h) (hrun h') (hend hrest) (hend hrest') heq

/-! ## Separators -/

/-- Joined texts are one after the other with a separator before each but the first. -/
theorem append_intercalate (separator text : List Char) (texts : List (List Char)) :
    separator ++ separator.intercalate (text :: texts) =
      (text :: texts).flatMap (separator ++ ·) := by
  induction texts generalizing text with
  | nil => simp
  | cons next texts ih =>
    rw [List.intercalate_cons_cons, List.flatMap_cons, ← ih, List.append_assoc, List.append_assoc]

/-- All characters of joined texts come from these and the separator. -/
theorem notMem_intercalate {c : Char} {separator : List Char} (hseparator : c ∉ separator)
    {texts : List (List Char)} (h : ∀ text ∈ texts, c ∉ text) :
    c ∉ separator.intercalate texts := by
  cases texts with
  | nil => simp
  | cons text texts =>
    intro hmem
    have hflat := List.mem_append_right separator hmem
    rw [append_intercalate, List.mem_flatMap] at hflat
    obtain ⟨t, ht, hc⟩ := hflat
    rcases List.mem_append.mp hc with hc | hc
    · exact hseparator hc
    · exact h t ht hc

/-- Texts of which the first is not empty make a text that is not empty. -/
theorem intercalate_ne_nil (separator : List Char) {text : List Char} (h : text ≠ [])
    (texts : List (List Char)) : separator.intercalate (text :: texts) ≠ [] := by
  cases texts <;> simp [h]

section

variable {c : Char} {separator : List Char} {texts texts' : List (List Char)}

/-- What is put together from separated texts starts with the separator. -/
theorem head?_flatMap_separator :
    ∀ d ∈ (texts.flatMap (c :: separator ++ ·)).head?, d = c := by
  cases texts <;> simp

/-- Texts are told from what is put together if none has the mark of the separator. -/
theorem flatMap_separator_inj (h : ∀ text ∈ texts, c ∉ text) (h' : ∀ text ∈ texts', c ∉ text)
    (heq : texts.flatMap (c :: separator ++ ·) = texts'.flatMap (c :: separator ++ ·)) :
    texts = texts' := by
  induction texts generalizing texts' with
  | nil =>
    cases texts' with
    | nil => rfl
    | cons => simp at heq
  | cons text texts ih =>
    cases texts' with
    | nil => simp at heq
    | cons text' texts' =>
      rw [List.forall_mem_cons] at h h'
      rw [List.flatMap_cons, List.flatMap_cons, List.append_assoc, List.append_assoc,
        List.append_cancel_left_eq] at heq
      obtain ⟨rfl, hrest⟩ := append_inj_of_notMem h.1 h'.1 head?_flatMap_separator
        head?_flatMap_separator heq
      rw [ih h.2 h'.2 hrest]

/-- Texts that are not empty are told from what is put together with separators between them, if
none has their mark. -/
theorem intercalate_inj (h : ∀ text ∈ texts, text ≠ [] ∧ c ∉ text)
    (h' : ∀ text ∈ texts', text ≠ [] ∧ c ∉ text)
    (heq : (c :: separator).intercalate texts = (c :: separator).intercalate texts') :
    texts = texts' := by
  cases texts with
  | nil =>
    cases texts' with
    | nil => rfl
    | cons text' texts' =>
      exact absurd heq.symm (intercalate_ne_nil _ (h' text' List.mem_cons_self).1 _)
  | cons text texts =>
    cases texts' with
    | nil => exact absurd heq (intercalate_ne_nil _ (h text List.mem_cons_self).1 _)
    | cons text' texts' =>
      have hflat : (text :: texts).flatMap (c :: separator ++ ·) =
          (text' :: texts').flatMap (c :: separator ++ ·) := by
        rw [← append_intercalate, heq, append_intercalate]
      exact flatMap_separator_inj (fun t ht => (h t ht).2) (fun t ht => (h' t ht).2) hflat

end

/-- The text can be joined by a separator that starts with a character: it is not empty, and does
not have that character. -/
def Joinable (c : Char) (text : String) : Prop :=
  text.toList ≠ [] ∧ c ∉ text.toList

/-- Joinable texts are told from the text that they are joined to. -/
theorem Joinable.intercalate_inj {c : Char} {rest : List Char} {separator : String}
    (hseparator : separator.toList = c :: rest) {texts texts' : List String}
    (h : ∀ text ∈ texts, Joinable c text) (h' : ∀ text ∈ texts', Joinable c text)
    (heq : separator.intercalate texts = separator.intercalate texts') : texts = texts' := by
  have hchars := congrArg String.toList heq
  rw [String.toList_intercalate, String.toList_intercalate, hseparator] at hchars
  have hlists :=
    BoSyntax.intercalate_inj (List.forall_mem_map.mpr h) (List.forall_mem_map.mpr h') hchars
  exact (List.map_inj_right fun _ _ => String.toList_inj.mp).mp hlists

end BoSyntax
