import BoSyntax.Proofs.Json.Document
import BoSyntax.Proofs.Json.Numeral

/-!
# Rendered values are documents

The text of a value is a document with this value when the texts of its numbers are of the form that
numbers have in the document.
-/

namespace BoSyntax.Json

/-- The values directly in a value. -/
def children : Json → List Json
  | .array items => items
  | .object fields => fields.map Prod.snd
  | _ => []

/-- Values are larger than what they are made of. -/
theorem sizeOf_lt_of_mem_children {v child : Json} (h : child ∈ v.children) :
    sizeOf child < sizeOf v := by
  cases v with
  | array items =>
    have hlt := List.sizeOf_lt_of_mem (show child ∈ items from h)
    simp only [array.sizeOf_spec]
    omega
  | object fields =>
    obtain ⟨⟨name, value⟩, hmem, rfl⟩ := List.mem_map.mp h
    have hlt := List.sizeOf_lt_of_mem hmem
    simp only [object.sizeOf_spec, Prod.mk.sizeOf_spec] at hlt ⊢
    omega
  | _ => cases h

/-- What holds of a value whenever it holds of the values in it holds of every value. -/
theorem induction_children {P : Json → Prop}
    (step : ∀ v, (∀ child ∈ v.children, P child) → P v) (v : Json) : P v := by
  induction hn : sizeOf v using Nat.strongRecOn generalizing v with
  | ind n ih =>
    exact step v fun child hmem => ih _ (hn ▸ sizeOf_lt_of_mem_children hmem) child rfl

/-- The number stands in a value. -/
inductive HasNumber (x : Binary64) : Json → Prop
  | here : HasNumber x (.number x)
  | within {v child} : child ∈ v.children → HasNumber x child → HasNumber x v

section

variable {x : Binary64}

/-- There is no number in null. -/
@[simp] theorem hasNumber_null : ¬HasNumber x .null := by
  rintro (_ | ⟨hmem, -⟩)
  cases hmem

/-- There is no number in a truth value. -/
@[simp] theorem hasNumber_bool (value : Bool) : ¬HasNumber x (.bool value) := by
  rintro (_ | ⟨hmem, -⟩)
  cases hmem

/-- There is no number in a string. -/
@[simp] theorem hasNumber_string (text : String) : ¬HasNumber x (.string text) := by
  rintro (_ | ⟨hmem, -⟩)
  cases hmem

/-- A number has itself only. -/
@[simp] theorem hasNumber_number (y : Binary64) : HasNumber x (.number y) ↔ y = x := by
  constructor
  · rintro (_ | ⟨hmem, -⟩)
    · rfl
    · cases hmem
  · rintro rfl
    exact .here

/-- An array has the numbers of its items. -/
@[simp] theorem hasNumber_array (items : List Json) :
    HasNumber x (.array items) ↔ ∃ item ∈ items, HasNumber x item := by
  constructor
  · rintro (_ | ⟨hmem, hx⟩)
    exact ⟨_, hmem, hx⟩
  · rintro ⟨item, hmem, hx⟩
    exact .within hmem hx

/-- An object has the numbers of its fields. -/
@[simp] theorem hasNumber_object (fields : List (String × Json)) :
    HasNumber x (.object fields) ↔ ∃ field ∈ fields, HasNumber x field.2 := by
  constructor
  · rintro (_ | ⟨hmem, hx⟩)
    obtain ⟨field, hfield, rfl⟩ := List.mem_map.mp hmem
    exact ⟨field, hfield, hx⟩
  · rintro ⟨field, hmem, hx⟩
    exact .within (List.mem_map_of_mem hmem) hx

end

/-! ## Texts in pieces -/

/-- Each item of an array after the first is written behind a comma, on a line of its own. -/
theorem itemPieces_eq_flatMap (level : Nat) (items : List Json) :
    itemPieces level items =
      items.flatMap fun item => "," :: lineBreak level :: pieces level item := by
  induction items with
  | nil => rfl
  | cons item items ih => rw [itemPieces, ih, List.flatMap_cons]; rfl

/-- Each field of an object after the first is written behind a comma, on a line of its own. -/
theorem fieldPieces_eq_flatMap (level : Nat) (fields : List (String × Json)) :
    fieldPieces level fields = fields.flatMap fun field =>
      "," :: lineBreak level :: stringText field.1 :: ": " :: pieces level field.2 := by
  induction fields with
  | nil => rfl
  | cons field fields ih => rw [fieldPieces, ih, List.flatMap_cons]; rfl

/-- A new line has blanks only. -/
theorem blank_lineBreak (level : Nat) : Blank (lineBreak level).toList := by
  rw [lineBreak, String.toList_ofList]
  refine List.forall_mem_cons.mpr ⟨by decide, fun c hmem => ?_⟩
  rw [List.eq_of_mem_replicate hmem]
  decide

/-- Texts of a form in lines of their own are a list. -/
theorem listed_lines {α : Type} {E : Form α} {w w' : List Char} (hw : Blank w) (hw' : Blank w')
    (text : α → List Char) {a : α} {as : List α} (h : ∀ b ∈ a :: as, E (text b) b) :
    Listed (Padded E) (w ++ (text a ++ (as.flatMap (fun b => ',' :: (w ++ text b)) ++ w')))
      (a :: as) := by
  induction as generalizing a with
  | nil => exact .one (.blanks hw (h a List.mem_cons_self) hw')
  | cons b bs ih =>
    obtain ⟨ha, hbs⟩ := List.forall_mem_cons.mp h
    have hlisted := Listed.more (.blanks hw ha blank_nil) (ih hbs)
    simpa using hlisted

/-- Two marks with nothing between them are an empty series. -/
theorem bracketed_empty {α : Type} (opening closing : Char) (E : Form α) :
    Bracketed opening closing E [opening, closing] [] :=
  .marks (.none blank_nil)

/-- The text of a value stands for it at any level of nesting. -/
theorem value_pieces {N : Form Binary64} {v : Json}
    (h : ∀ x, HasNumber x v → N (numberText x).toList x) (level : Nat) :
    Value N ((pieces level v).flatMap String.toList) v := by
  induction v using induction_children generalizing level with
  | step v ih =>
    have hblank := blank_lineBreak level
    have hblank' := blank_lineBreak (level + 1)
    replace ih {child : Json} (hmem : child ∈ v.children) :=
      ih child hmem (fun x hx => h x (.within hmem hx)) (level + 1)
    cases v with
    | null => exact .word (.reserved (by simp [pieces, reservedWords]))
    | bool value => cases value <;> exact .word (.reserved (by simp [pieces, reservedWords]))
    | number x => simpa [pieces] using Value.word (.number (h x .here))
    | string text => simpa [pieces] using Value.string (quoted_stringText text)
    | array items =>
      cases items with
      | nil => exact .of_items (bracketed_empty _ _ (Value N))
      | cons item items =>
        let text (item : Json) := (pieces (level + 1) item).flatMap String.toList
        have hlisted := listed_lines hblank' hblank text fun _ => ih
        simpa [text, pieces, itemPieces_eq_flatMap, List.flatMap_assoc] using
          Value.of_items (.marks (.some hlisted))
    | object fields =>
      cases fields with
      | nil => exact .of_fields (bracketed_empty _ _ (Field (Value N)))
      | cons field fields =>
        let text (field : String × Json) := (stringText field.1).toList ++
          ([] ++ ':' :: ([' '] ++ (pieces (level + 1) field.2).flatMap String.toList))
        have hfield : ∀ entry ∈ field :: fields, Field (Value N) (text entry) entry :=
          fun entry hmem => .colon (quoted_stringText _) blank_nil
            (by simp [Blank, blanks]) (ih (List.mem_map_of_mem hmem))
        have hlisted := listed_lines hblank' hblank text hfield
        simpa [text, pieces, fieldPieces_eq_flatMap, List.flatMap_assoc] using
          Value.of_fields (.marks (.some hlisted))

/-- The text of a value is a document with this value, whatever form of numbers theirs are of. -/
theorem document_render {N : Form Binary64} {v : Json}
    (h : ∀ x, HasNumber x v → N (numberText x).toList x) : Document N v.render.toList v := by
  have hdocument := Padded.blanks blank_nil (value_pieces h 0) blank_nil
  simpa [render, Document] using hdocument

/-! ## Numbers in documents -/

section Members

variable {α : Type} {E : Form α} {s : List Char} {a : α} {as : List α}

/-- There is a text of the form within its blanks. -/
theorem Padded.exists_of (h : Padded E s a) : ∃ t, E t a := by
  obtain ⟨-, h, -⟩ := h
  exact ⟨_, h⟩

/-- There is a text for each item of a list. -/
theorem Listed.exists_of_mem (h : Listed (Padded E) s as) (hmem : a ∈ as) : ∃ t, E t a := by
  induction h with
  | one h =>
    obtain rfl := List.mem_singleton.mp hmem
    exact h.exists_of
  | more h _ ih =>
    rcases List.mem_cons.mp hmem with rfl | hmem
    · exact h.exists_of
    · exact ih hmem

/-- There is a text for each item between marks. -/
theorem Bracketed.exists_of_mem {opening closing : Char} (h : Bracketed opening closing E s as)
    (hmem : a ∈ as) : ∃ t, E t a := by
  obtain ⟨_ | h⟩ := h
  · cases hmem
  · exact h.exists_of_mem hmem

end Members

/-- The numbers in a value are of the form that numbers have in it. -/
theorem Value.exists_of_hasNumber {N : Form Binary64} {s : List Char} {v : Json} {x : Binary64}
    (h : Value N s v) (hx : HasNumber x v) : ∃ t, N t x := by
  induction h with
  | word h =>
    cases h with
    | reserved h =>
      simp only [reservedWords, List.mem_cons, Prod.mk.injEq, List.not_mem_nil, or_false] at h
      rcases h with ⟨-, rfl⟩ | ⟨-, rfl⟩ | ⟨-, rfl⟩ <;> simp at hx
    | number h =>
      obtain rfl := hasNumber_number _ |>.mp hx
      exact ⟨_, h⟩
  | string => simp at hx
  | array _ h ih =>
    obtain ⟨item, hmem, hx⟩ := hasNumber_array _ |>.mp hx
    obtain ⟨t, ht⟩ := h.exists_of_mem hmem
    exact ih t item ht hx
  | object _ h ih =>
    obtain ⟨⟨name, value⟩, hmem, hx⟩ := hasNumber_object _ |>.mp hx
    obtain ⟨_, _, _, _, ht⟩ := h.exists_of_mem hmem
    exact ih _ value ht hx

/-! ## What rendered values tell -/

/-- The texts of numbers in rendered values. -/
def Rendered : Form Binary64 :=
  fun s x => s = (numberText x).toList

/-- The text that a number is written as is read as that number. -/
theorem Rendered.read?_eq {s : List Char} {x : Binary64} (h : Rendered s x) :
    Binary64.read? (String.ofList s) = some x := by
  rw [h, String.ofList_toList]
  cases x with
  | nan => decide +kernel
  | infinite negative => cases negative <;> decide +kernel
  | finite => exact Binary64.read?_text _

/-- Characters of numerals make no marks and no reserved words. -/
theorem unreserved_of_numeralChar {s : List Char} (hne : s ≠ []) (h : ∀ c ∈ s, NumeralChar c) :
    Unreserved s := by
  have hmarks : ∀ c ∈ marks, ¬NumeralChar c := by
    simp [marks, stops, separators, closings, blanks, NumeralChar]
  have hletters : ∀ c ∈ ['n', 't', 'f'], ¬NumeralChar c := by simp [NumeralChar]
  refine ⟨hne, fun c hmem hmark => hmarks c hmark (h c hmem), fun v hreserved => ?_⟩
  simp only [reservedWords, List.mem_cons, Prod.mk.injEq, List.not_mem_nil, or_false] at hreserved
  rcases hreserved with ⟨rfl, -⟩ | ⟨rfl, -⟩ | ⟨rfl, -⟩ <;>
    exact hletters _ (by simp) (h _ List.mem_cons_self)

/-- A numeral is no reserved word. -/
theorem Numeral.unreserved {s : List Char} {x : Binary64} (h : Numeral s x) : Unreserved s := by
  refine unreserved_of_numeralChar ?_ h.numeralChar
  obtain ⟨negative, hwhole, -, -⟩ := h
  simp [hwhole.digits_of.1]

/-- The text that a number is written as is no reserved word. -/
theorem Rendered.unreserved {s : List Char} {x : Binary64} (h : Rendered s x) : Unreserved s := by
  rw [h]
  cases x with
  | nan =>
    simp [Unreserved, numberText, reservedWords, marks, stops, separators, closings, blanks]
  | infinite negative =>
    cases negative <;>
      simp [Unreserved, numberText, reservedWords, marks, stops, separators, closings, blanks]
  | finite negative magnitude => exact (Binary64.numeral_text negative magnitude).unreserved

/-- The words for numbers that are not finite are no numerals. -/
theorem finite_of_numeral_numberText {x : Binary64} (h : Numeral (numberText x).toList x) :
    ∃ negative magnitude, x = .finite negative magnitude := by
  have hletters : ∀ c ∈ ['N', 'I'], ¬NumeralChar c := by simp [NumeralChar]
  cases x with
  | nan => exact absurd (h.numeralChar 'N' (by decide)) (hletters _ (by simp))
  | infinite negative =>
    have hmem : 'I' ∈ (numberText (.infinite negative)).toList := by cases negative <;> decide
    exact absurd (h.numeralChar 'I' hmem) (hletters _ (by simp))
  | finite negative magnitude => exact ⟨negative, magnitude, rfl⟩

/-- A text is read as one number. -/
theorem eq_of_read? {s : List Char} {x x' : Binary64}
    (h : Binary64.read? (String.ofList s) = some x)
    (h' : Binary64.read? (String.ofList s) = some x') : x = x' :=
  Option.some.inj (h.symm.trans h')

/-- A rendered value can be read in one way only. -/
theorem render_inj {v v' : Json} : v.render = v'.render ↔ v = v' := by
  constructor
  · intro heq
    have hdocument (v : Json) : Document Rendered v.render.toList v :=
      document_render fun _ _ => rfl
    exact (Document.agree (fun _ _ => Rendered.unreserved) (fun _ _ => Rendered.unreserved)
      (fun _ _ _ h h' => eq_of_read? h.read?_eq h'.read?_eq) (hdocument v)
      (heq ▸ hdocument v')).1
  · exact congrArg render

/-- A rendered value is a document with numerals when its numbers are finite, and then only with
this value. -/
theorem document_render_iff {v v' : Json} : Document Numeral v.render.toList v' ↔
    v' = v ∧ ∀ x, HasNumber x v → ∃ negative magnitude, x = .finite negative magnitude := by
  constructor
  · intro h
    obtain ⟨rfl, hboth⟩ := Document.agree (fun _ _ => Numeral.unreserved)
      (fun _ _ => Rendered.unreserved)
      (fun _ _ _ h h' => eq_of_read? h.read?_eq h'.read?_eq) h
      (document_render fun _ _ => rfl)
    refine ⟨rfl, fun x hx => ?_⟩
    obtain ⟨_, hvalue⟩ := Padded.exists_of hboth
    obtain ⟨_, hnumeral, rfl⟩ := hvalue.exists_of_hasNumber hx
    exact finite_of_numeral_numberText hnumeral
  · rintro ⟨rfl, hfinite⟩
    refine document_render fun x hx => ?_
    obtain ⟨negative, magnitude, rfl⟩ := hfinite x hx
    exact Binary64.numeral_text negative magnitude

end BoSyntax.Json
