import BoSyntax.Proofs.Json.Quoted
import BoSyntax.Proofs.Text.Separation

/-!
# The grammar of JSON documents

Documents by the grammar of RFC 8259, for any form of numbers. Values stand between marks, and
blanks may stand around them, so a value ends where a blank or a mark follows. Hence a document has
one value, whatever forms its numbers are read by, as long as these are words and agree on the
numbers.
-/

namespace BoSyntax.Json

/-! ## Grammar -/

/-- The characters that may stand between the parts of a document. -/
def blanks : List Char :=
  [' ', '\t', '\n', '\r']

/-- Any number of blanks. -/
def Blank (w : List Char) : Prop :=
  ∀ c ∈ w, c ∈ blanks

section Grammar

variable {α : Type}

/-- A text of a form with blanks around it. -/
inductive Padded (E : Form α) : Form α
  | blanks {w s w' a} : Blank w → E s a → Blank w' → Padded E (w ++ (s ++ w')) a

/-- Texts of a form with commas between them. -/
inductive Listed (E : Form α) : Form (List α)
  | one {s a} : E s a → Listed E s [a]
  | more {s t a as} : E s a → Listed E t as → Listed E (s ++ ',' :: t) (a :: as)

/-- No texts of a form, or several. -/
inductive Series (E : Form α) : Form (List α)
  | none {w} : Blank w → Series E w []
  | some {s as} : Listed (Padded E) s as → Series E s as

/-- Texts of a form between two marks. -/
inductive Bracketed (opening closing : Char) (E : Form α) : Form (List α)
  | marks {s as} : Series E s as → Bracketed opening closing E (opening :: (s ++ [closing])) as

/-- A name, a colon and a text of a form. -/
inductive Field (E : Form α) : Form (String × α)
  | colon {s w w' t name a} : Quoted s name → Blank w → Blank w' → E t a →
    Field E (s ++ (w ++ ':' :: (w' ++ t))) (name, a)

/-- The words that are values by themselves. -/
def reservedWords : List (List Char × Json) :=
  [(['n', 'u', 'l', 'l'], .null), (['t', 'r', 'u', 'e'], .bool true),
    (['f', 'a', 'l', 's', 'e'], .bool false)]

/-- Values that are written as words. -/
inductive Word (N : Form Binary64) : Form Json
  | reserved {s v} : (s, v) ∈ reservedWords → Word N s v
  | number {s x} : N s x → Word N s (.number x)

/-- Values with numbers of a form. Items and fields are texts of some form that gives values. -/
inductive Value (N : Form Binary64) : Form Json
  | word {s v} : Word N s v → Value N s v
  | string {s text} : Quoted s text → Value N s (.string text)
  | array {E : Form Json} {s items} : (∀ s v, E s v → Value N s v) → Bracketed '[' ']' E s items →
    Value N s (.array items)
  | object {E : Form Json} {s fields} : (∀ s v, E s v → Value N s v) →
    Bracketed '\x7b' '\x7d' (Field E) s fields → Value N s (.object fields)

/-- A document is a value with blanks around it. -/
def Document (N : Form Binary64) : Form Json :=
  Padded (Value N)

end Grammar

/-! ## Where texts start and end -/

/-- The marks that may stand behind a list. -/
def closings : List Char :=
  [']', '\x7d']

/-- The marks that may stand behind an item of a list. -/
def separators : List Char :=
  ',' :: closings

/-- The characters that may stand behind a value. -/
def stops : List Char :=
  blanks ++ separators

/-- The characters that words do not have. -/
def marks : List Char :=
  stops ++ ['"', '[', '\x7b']

/-- The text is empty or starts with one of some characters. -/
def Before (chars rest : List Char) : Prop :=
  ∀ c ∈ rest.head?, c ∈ chars

/-- The text starts with a character that cannot stand behind a value. -/
def Visible (s : List Char) : Prop :=
  ∃ c ∈ s.head?, c ∉ stops

/-- All texts of a form start with such a character. -/
def VisibleForm {α : Type} (E : Form α) : Prop :=
  ∀ s a, E s a → Visible s

/-- The text is not empty and has no marks, and is no reserved word. -/
def Unreserved (s : List Char) : Prop :=
  s ≠ [] ∧ (∀ c ∈ s, c ∉ marks) ∧ ∀ v, (s, v) ∉ reservedWords

/-- Texts of two forms that start a text alike, before characters of some kind, are one text with
one meaning, and this is a text of a third form. -/
def Agree {α : Type} (after : List Char) (E E' M : Form α) : Prop :=
  ∀ ⦃s s' rest rest' a a'⦄, E s a → E' s' a' → Before after rest → Before after rest' →
    s ++ rest = s' ++ rest' → s = s' ∧ a = a' ∧ M s a

/-- No characters are blank. -/
theorem blank_nil : Blank [] := by
  simp [Blank]

/-- A text that starts with one of some characters starts with one of more. -/
theorem Before.mono {chars chars' rest : List Char} (h : Before chars rest)
    (hsub : chars ⊆ chars') : Before chars' rest :=
  fun c hmem => hsub (h c hmem)

/-- Characters of the kind in front of a text leave it one that starts so. -/
theorem Before.append {chars rest w : List Char} (hw : ∀ c ∈ w, c ∈ chars) (h : Before chars rest) :
    Before chars (w ++ rest) := by
  cases w with
  | nil => exact h
  | cons c w => simpa [Before] using hw c List.mem_cons_self

/-- A text stays visible whatever follows it. -/
theorem Visible.append {s : List Char} (h : Visible s) (rest : List Char) :
    Visible (s ++ rest) := by
  obtain ⟨c, hmem, hc⟩ := h
  exact ⟨c, by simp [List.head?_append, Option.mem_def.mp hmem], hc⟩

/-- A visible text does not start with a character that may stand behind a value. -/
theorem Visible.not_before {s chars : List Char} (h : Visible s) (hchars : chars ⊆ stops) :
    ¬Before chars s := by
  obtain ⟨c, hmem, hc⟩ := h
  exact fun hbefore => hc (hchars (hbefore c hmem))

/-- Blanks are told from what follows them. -/
theorem blank_append_inj {w w' rest rest' : List Char} (hw : Blank w) (hw' : Blank w')
    (hrest : ∀ c ∈ rest.head?, c ∉ blanks) (hrest' : ∀ c ∈ rest'.head?, c ∉ blanks)
    (heq : w ++ rest = w' ++ rest') : w = w' ∧ rest = rest' := by
  refine run_append_inj (p := (blanks.contains ·)) ?_ ?_ ?_ ?_ heq <;> simpa

/-! ## What is put together from forms that agree -/

section Agree

variable {α : Type} {E E' M : Form α} {s s' rest rest' : List Char}

/-- A visible text does not start with a blank. -/
theorem Visible.notMem_blanks (h : Visible s) (rest : List Char) :
    ∀ c ∈ (s ++ rest).head?, c ∉ blanks := by
  obtain ⟨d, hmem, hd⟩ := h.append rest
  intro c hc hblank
  obtain rfl := Option.mem_unique hc hmem
  exact hd (List.mem_append_left _ hblank)

/-- A separator is no blank. -/
theorem Before.notMem_blanks (h : Before separators rest) : ∀ c ∈ rest.head?, c ∉ blanks := by
  have hdisjoint : ∀ c ∈ separators, c ∉ blanks := by simp [separators, closings, blanks]
  exact fun c hmem => hdisjoint c (h c hmem)

section Visible

variable (hE : VisibleForm E) (hE' : VisibleForm E') (h : Agree stops E E' M)
include hE hE' h

/-- Texts with blanks around them agree, as far as the texts without the blanks do. -/
theorem Padded.agree : Agree separators (Padded E) (Padded E') (Padded M) := by
  rintro _ _ rest rest' _ _ ⟨hw, hs, hw₁⟩ ⟨hw', hs', hw₁'⟩ hrest hrest' heq
  have hstops {w rest : List Char} (hw : Blank w) (hrest : Before separators rest) :
      Before stops (w ++ rest) :=
    .append (fun c hmem => List.mem_append_left _ (hw c hmem))
      (hrest.mono (List.subset_append_right _ _))
  simp only [List.append_assoc] at heq
  obtain ⟨rfl, hpadded⟩ :=
    blank_append_inj hw hw' ((hE _ _ hs).notMem_blanks _) ((hE' _ _ hs').notMem_blanks _) heq
  obtain ⟨rfl, rfl, hM⟩ := h hs hs' (hstops hw₁ hrest) (hstops hw₁' hrest') hpadded
  obtain ⟨rfl, -⟩ := blank_append_inj hw₁ hw₁' hrest.notMem_blanks hrest'.notMem_blanks
    (List.append_cancel_left hpadded)
  exact ⟨rfl, rfl, .blanks hw hM hw₁⟩

/-- Fields agree if their values do. -/
theorem Field.agree : Agree stops (Field E) (Field E') (Field M) := by
  rintro _ _ rest rest' _ _ ⟨hname, hw, hw₁, ht⟩ ⟨hname', hw', hw₁', ht'⟩ hrest hrest' heq
  have hcolon (t : List Char) : ∀ c ∈ (':' :: t).head?, c ∉ blanks := by simp [blanks]
  simp only [List.append_assoc, List.cons_append] at heq
  obtain ⟨rfl, rfl⟩ := hname.unique hname' heq
  obtain ⟨rfl, hrest₁⟩ :=
    blank_append_inj hw hw' (hcolon _) (hcolon _) (List.append_cancel_left heq)
  obtain ⟨rfl, hrest₂⟩ := blank_append_inj hw₁ hw₁' ((hE _ _ ht).notMem_blanks _)
    ((hE' _ _ ht').notMem_blanks _) (List.cons.inj hrest₁).2
  obtain ⟨rfl, rfl, hM⟩ := h ht ht' hrest hrest' hrest₂
  exact ⟨rfl, rfl, .colon hname hw hw₁ hM⟩

end Visible

/-- A field starts with a quote. -/
theorem visibleForm_field : VisibleForm (Field E) := by
  rintro _ _ ⟨⟨_⟩, _, _, _⟩
  exact ⟨'"', rfl, by decide⟩

/-- Lists agree if their items do, since a comma or a mark that closes stands behind each. -/
theorem Listed.agree (h : Agree separators E E' M) :
    Agree closings (Listed E) (Listed E') (Listed M) := by
  have hsub : closings ⊆ separators := List.subset_cons_self _ _
  have hnot : ',' ∉ closings := by decide
  have hcomma (t : List Char) : Before separators (',' :: t) := by
    simp [Before, separators]
  intro s s' rest rest' as as' hs hs' hrest hrest' heq
  induction hs generalizing s' as' with
  | one hs =>
    cases hs' with
    | one hs' =>
      obtain ⟨rfl, rfl, hM⟩ := h hs hs' (hrest.mono hsub) (hrest'.mono hsub) heq
      exact ⟨rfl, rfl, .one hM⟩
    | more hs' _ =>
      rw [List.append_assoc] at heq
      obtain ⟨rfl, -, -⟩ := h hs hs' (hrest.mono hsub) (hcomma _) heq
      obtain rfl := List.append_cancel_left heq
      exact absurd (hrest _ rfl) hnot
  | more hs _ ih =>
    rw [List.append_assoc] at heq
    cases hs' with
    | one hs' =>
      obtain ⟨rfl, -, -⟩ := h hs hs' (hcomma _) (hrest'.mono hsub) heq
      obtain rfl := (List.append_cancel_left heq).symm
      exact absurd (hrest' _ rfl) hnot
    | more hs' ht' =>
      rw [List.append_assoc] at heq
      obtain ⟨rfl, rfl, hM⟩ := h hs hs' (hcomma _) (hcomma _) heq
      obtain ⟨rfl, rfl, hMs⟩ := ih ht' (List.cons.inj (List.append_cancel_left heq)).2
      exact ⟨rfl, rfl, .more hM hMs⟩

/-- A list starts with an item, after blanks. -/
theorem Listed.exists_visible {as : List α} (hE : VisibleForm E) (h : Listed (Padded E) s as) :
    ∃ w t, Blank w ∧ Visible t ∧ s = w ++ t := by
  cases h with
  | one h =>
    obtain ⟨hw, hs, -⟩ := h
    exact ⟨_, _, hw, (hE _ _ hs).append _, rfl⟩
  | more h _ =>
    obtain ⟨hw, hs, -⟩ := h
    exact ⟨_, _, hw, ((hE _ _ hs).append _).append _, List.append_assoc _ _ _⟩

/-- Blanks before a closing mark are no list. -/
theorem Listed.append_ne {w : List Char} {as : List α} (hE : VisibleForm E)
    (h : Listed (Padded E) s as) (hw : Blank w) (hrest : Before closings rest) :
    s ++ rest' ≠ w ++ rest := by
  have hsub : closings ⊆ separators := List.subset_cons_self _ _
  obtain ⟨w', t, hw', ht, rfl⟩ := h.exists_visible hE
  intro heq
  rw [List.append_assoc] at heq
  obtain ⟨-, rfl⟩ :=
    blank_append_inj hw' hw (ht.notMem_blanks _) (hrest.mono hsub).notMem_blanks heq
  exact (ht.append _).not_before (by decide) hrest

section Visible

variable (hE : VisibleForm E) (hE' : VisibleForm E') (h : Agree stops E E' M)
include hE hE' h

/-- Series agree as lists do, and an empty one only with an empty one. -/
theorem Series.agree : Agree closings (Series E) (Series E') (Series M) := by
  have hsub : closings ⊆ separators := List.subset_cons_self _ _
  intro s s' rest rest' as as' hs hs' hrest hrest' heq
  cases hs with
  | none hw =>
    cases hs' with
    | none hw' =>
      obtain ⟨rfl, -⟩ := blank_append_inj hw hw' (hrest.mono hsub).notMem_blanks
        (hrest'.mono hsub).notMem_blanks heq
      exact ⟨rfl, rfl, .none hw⟩
    | some hs' => exact absurd heq.symm (hs'.append_ne hE' hw hrest)
  | some hs =>
    cases hs' with
    | none hw' => exact absurd heq (hs.append_ne hE hw' hrest')
    | some hs' =>
      obtain ⟨rfl, rfl, hM⟩ := Listed.agree (Padded.agree hE hE' h) hs hs' hrest hrest' heq
      exact ⟨rfl, rfl, .some hM⟩

/-- Texts between brackets are told from anything behind them. -/
theorem Bracketed.unique {opening closing : Char} {as as' : List α} (hclosing : closing ∈ closings)
    (hs : Bracketed opening closing E s as) (hs' : Bracketed opening closing E' s' as')
    (heq : s ++ rest = s' ++ rest') : s = s' ∧ as = as' ∧ Bracketed opening closing M s as := by
  have hbefore (rest : List Char) : Before closings (closing :: rest) := by
    simpa [Before] using hclosing
  obtain ⟨hs⟩ := hs
  obtain ⟨hs'⟩ := hs'
  simp only [List.cons_append, List.append_assoc, List.nil_append, List.cons.injEq,
    true_and] at heq
  obtain ⟨rfl, rfl, hM⟩ := Series.agree hE hE' h hs hs' (hbefore _) (hbefore _) heq
  exact ⟨rfl, rfl, .marks hM⟩

end Visible

end Agree

/-! ## Documents have one value -/

section Value

variable {N N' : Form Binary64} {s s' rest rest' : List Char} {v v' : Json}

/-- There are no marks in a reserved word. -/
theorem unmarked_of_mem_reservedWords (h : (s, v) ∈ reservedWords) :
    s ≠ [] ∧ ∀ c ∈ s, c ∉ marks := by
  simp only [reservedWords, List.mem_cons, Prod.mk.injEq, List.not_mem_nil, or_false] at h
  rcases h with ⟨rfl, -⟩ | ⟨rfl, -⟩ | ⟨rfl, -⟩ <;>
    simp [marks, stops, separators, closings, blanks]

/-- A reserved word stands for one value. -/
theorem reservedWords_unique (h : (s, v) ∈ reservedWords) (h' : (s, v') ∈ reservedWords) :
    v = v' := by
  simp only [reservedWords, List.mem_cons, Prod.mk.injEq, List.not_mem_nil, or_false] at h h'
  rcases h with ⟨rfl, rfl⟩ | ⟨rfl, rfl⟩ | ⟨rfl, rfl⟩ <;> simpa [eq_comm] using h'

/-- An array of values is a value. -/
theorem Value.of_items {items : List Json} (h : Bracketed '[' ']' (Value N) s items) :
    Value N s (.array items) :=
  .array (fun _ _ => id) h

/-- An object of values is a value. -/
theorem Value.of_fields {fields : List (String × Json)}
    (h : Bracketed '\x7b' '\x7d' (Field (Value N)) s fields) : Value N s (.object fields) :=
  .object (fun _ _ => id) h

/-- There are no marks in a word. -/
theorem Word.unmarked (hN : ∀ s x, N s x → Unreserved s) (h : Word N s v) :
    s ≠ [] ∧ ∀ c ∈ s, c ∉ marks := by
  cases h with
  | reserved h => exact unmarked_of_mem_reservedWords h
  | number h => exact ⟨(hN _ _ h).1, (hN _ _ h).2.1⟩

/-- The mark that a value starts with, if any. -/
def opening : Json → Option Char
  | .string _ => some '"'
  | .array _ => some '['
  | .object _ => some '\x7b'
  | _ => none

/-- The value of a word starts with no mark. -/
theorem Word.opening_eq_none (h : Word N s v) : opening v = none := by
  cases h with
  | reserved h =>
    simp only [reservedWords, List.mem_cons, Prod.mk.injEq, List.not_mem_nil, or_false] at h
    rcases h with ⟨-, rfl⟩ | ⟨-, rfl⟩ | ⟨-, rfl⟩ <;> rfl
  | number => rfl

/-- A mark opens no value of a word. -/
theorem Word.ne_opening {c : Char} (h : Word N s v) : some c ≠ opening v := by
  simp [h.opening_eq_none]

/-- Values start with their marks, or with what is no mark. -/
theorem Value.exists_head (hN : ∀ s x, N s x → Unreserved s) (h : Value N s v) :
    ∃ c ∈ s.head?, c ∉ stops ∧ opening v = if c ∈ marks then some c else none := by
  cases h with
  | word h =>
    obtain ⟨hne, hmarks⟩ := h.unmarked hN
    obtain ⟨c, t, rfl⟩ := List.exists_cons_of_ne_nil hne
    have hc := hmarks c List.mem_cons_self
    exact ⟨c, rfl, fun hmem => hc (List.mem_append_left _ hmem),
      by rw [h.opening_eq_none, if_neg hc]⟩
  | string h =>
    obtain ⟨_⟩ := h
    exact ⟨'"', rfl, by decide, rfl⟩
  | array _ h =>
    obtain ⟨_⟩ := h
    exact ⟨'[', rfl, by decide, rfl⟩
  | object _ h =>
    obtain ⟨_⟩ := h
    exact ⟨'\x7b', rfl, by decide, rfl⟩

/-- A value starts with a visible character. -/
theorem visibleForm_value (hN : ∀ s x, N s x → Unreserved s) : VisibleForm (Value N) := by
  intro s v h
  obtain ⟨c, hmem, hc, -⟩ := h.exists_head hN
  exact ⟨c, hmem, hc⟩

variable (hN : ∀ s x, N s x → Unreserved s) (hN' : ∀ s x, N' s x → Unreserved s)
include hN hN'

/-- Values that start a text alike start with the same mark, if any. -/
theorem Value.opening_eq (h : Value N s v) (h' : Value N' s' v') (heq : s ++ rest = s' ++ rest') :
    opening v = opening v' := by
  obtain ⟨c, hmem, -, hopening⟩ := h.exists_head hN
  obtain ⟨c', hmem', -, hopening'⟩ := h'.exists_head hN'
  have hhead := congrArg List.head? heq
  rw [List.head?_append, List.head?_append, Option.mem_def.mp hmem,
    Option.mem_def.mp hmem'] at hhead
  obtain rfl : c = c' := Option.some.inj hhead
  rw [hopening, hopening']

variable (hagree : ∀ s x x', N s x → N' s x' → x = x')
include hagree

/-- Words agree, and on the number if they are one. -/
theorem Word.agree : Agree stops (Word N) (Word N') (Word fun s x => N s x ∧ N' s x) := by
  intro s s' rest rest' v v' h h' hrest hrest' heq
  have hrun {s : List Char} (hmarks : ∀ c ∈ s, c ∉ marks) : ∀ c ∈ s, (!stops.contains c) = true :=
    fun c hmem => by simpa using fun hstop => hmarks c hmem (List.mem_append_left _ hstop)
  have hend {rest : List Char} (hrest : Before stops rest) :
      ∀ c ∈ rest.head?, (!stops.contains c) = false :=
    fun c hmem => by simpa using hrest c hmem
  obtain ⟨rfl, -⟩ := run_append_inj (hrun (h.unmarked hN).2) (hrun (h'.unmarked hN').2)
    (hend hrest) (hend hrest') heq
  refine ⟨rfl, ?_⟩
  cases h with
  | reserved h =>
    cases h' with
    | reserved h' => exact ⟨reservedWords_unique h h', .reserved h⟩
    | number h' => exact absurd h ((hN' _ _ h').2.2 _)
  | number h =>
    cases h' with
    | reserved h' => exact absurd h' ((hN _ _ h).2.2 _)
    | number h' =>
      obtain rfl := hagree _ _ _ h h'
      exact ⟨rfl, .number ⟨h, h'⟩⟩

/-- Values agree, and their numbers are of both forms. -/
theorem Value.agree : Agree stops (Value N) (Value N') (Value fun s x => N s x ∧ N' s x) := by
  have hvisible := visibleForm_value hN
  have hvisible' := visibleForm_value hN'
  intro s s' rest rest' v v' h h' hrest hrest' heq
  -- The items and fields of both values agree by induction, since they are values themselves.
  induction h generalizing s' rest rest' v' with
  | word h =>
    have hopening := (Value.word h).opening_eq hN hN' h' heq
    cases h' with
    | word h' =>
      obtain ⟨rfl, rfl, hboth⟩ := Word.agree hN hN' hagree h h' hrest hrest' heq
      exact ⟨rfl, rfl, .word hboth⟩
    | _ => exact absurd hopening.symm h.ne_opening
  | string h =>
    have hopening := (Value.string h).opening_eq hN hN' h' heq
    cases h' with
    | string h' =>
      obtain ⟨rfl, rfl⟩ := h.unique h' heq
      exact ⟨rfl, rfl, .string h⟩
    | word h' => exact absurd hopening h'.ne_opening
    | _ => cases hopening
  | array hE h ih =>
    have hopening := (Value.array hE h).opening_eq hN hN' h' heq
    cases h' with
    | array hE' h' =>
      have hitems : Agree stops _ _ (Value fun s x => N s x ∧ N' s x) :=
        fun _ _ _ _ _ _ h h' => ih _ _ h (hE' _ _ h')
      obtain ⟨rfl, rfl, hboth⟩ := Bracketed.unique (fun s v h => hvisible s v (hE s v h))
        (fun s v h => hvisible' s v (hE' s v h)) hitems (by decide) h h' heq
      exact ⟨rfl, rfl, .of_items hboth⟩
    | word h' => exact absurd hopening h'.ne_opening
    | _ => cases hopening
  | object hE h ih =>
    have hopening := (Value.object hE h).opening_eq hN hN' h' heq
    cases h' with
    | object hE' h' =>
      have hvalues : Agree stops _ _ (Value fun s x => N s x ∧ N' s x) :=
        fun _ _ _ _ _ _ h h' => ih _ _ h (hE' _ _ h')
      have hfields := Field.agree (fun s v h => hvisible s v (hE s v h))
        (fun s v h => hvisible' s v (hE' s v h)) hvalues
      obtain ⟨rfl, rfl, hboth⟩ := Bracketed.unique visibleForm_field visibleForm_field hfields
        (by decide) h h' heq
      exact ⟨rfl, rfl, .of_fields hboth⟩
    | word h' => exact absurd hopening h'.ne_opening
    | _ => cases hopening

/-- A text that is a document by two forms of numbers has one value, and each of its numbers is of
both forms. -/
theorem Document.agree (h : Document N s v) (h' : Document N' s v') :
    v = v' ∧ Document (fun s x => N s x ∧ N' s x) s v := by
  have hend : Before separators [] := by simp [Before]
  exact (Padded.agree (visibleForm_value hN) (visibleForm_value hN')
    (Value.agree hN hN' hagree) h h' hend hend rfl).2

end Value

end BoSyntax.Json
