import BoSyntax.Proofs.Program.Spelling
import BoSyntax.Proofs.Token.Concatenation
import BoSyntax.Text.Blank

/-!
# Blanks around a text

The blanks that may stand in a text are spacing, so a text keeps its words when the blanks are taken
off its ends.
-/

namespace BoSyntax

open Text

namespace Text

/-- No letter is blank. -/
theorem isLetter_of_isBlank {c : Char} (h : isBlank c = true) : isLetter c = false := by
  have hapart : ∀ blank ∈ blanks, ∀ letter ∈ letters,
      blank.2 < letter.1 ∨ letter.2 < blank.1 := by
    decide +kernel
  simp only [isBlank, Ranges.has, List.any_eq_true, Bool.and_eq_true, decide_eq_true_eq] at h
  obtain ⟨blank, hblank, hlow, hhigh⟩ := h
  rw [Bool.eq_false_iff]
  simp only [isLetter, Ranges.has, Ne, List.any_eq_true, Bool.and_eq_true, decide_eq_true_eq]
  rintro ⟨letter, hletter, hbelow, habove⟩
  rcases hapart blank hblank letter hletter with h | h <;> omega

/-- A text is its trimmed text between blanks. -/
theorem exists_trim_eq (text : String) : ∃ before after,
    text.toList = before ++ (trim text).toList ++ after ∧ (∀ c ∈ before, isBlank c = true) ∧
      ∀ c ∈ after, isBlank c = true := by
  let rest := text.toList.dropWhile isBlank
  refine ⟨text.toList.takeWhile isBlank, (rest.reverse.takeWhile isBlank).reverse, ?_,
    fun c => List.mem_takeWhile_imp, fun c h => List.mem_takeWhile_imp (List.mem_reverse.mp h)⟩
  have hrest : rest = (trim text).toList ++ (rest.reverse.takeWhile isBlank).reverse := by
    rw [trim, String.toList_ofList, ← List.reverse_append, List.takeWhile_append_dropWhile,
      List.reverse_reverse]
  rw [List.append_assoc, ← hrest, List.takeWhile_append_dropWhile]

end Text

/-- The blanks among the legal characters are spacing. -/
theorem Legal.mem_spacing {c : Char} (h : Legal c) (hblank : isBlank c = true) : c ∈ spacing := by
  have hpunctuation : ((punctuation.map Prod.fst).all fun c => !isBlank c) = true := by decide
  rcases h with h | h | h | h
  · exact h
  · have hnot := List.all_eq_true.mp hpunctuation c h
    simp [hblank] at hnot
  · exact absurd (hblank.symm.trans (isBlank_of_isDigit h)) (by decide)
  · exact absurd (h.symm.trans (isLetter_of_isBlank hblank)) (by decide)

namespace Token

/-- A text of spacing has no tokens. -/
theorem ofString_of_spaces {w : List Char} (h : Spaces w) :
    ofString (String.ofList w) = .ok ([] ++ [.ending (placeAfter (String.ofList w).toList)]) :=
  ofString_of_segmented (by rw [String.toList_ofList, List.nil_append]) .nil h

/-- A text of legal characters has tokens. -/
theorem ofString_of_legal {source : String} (h : ∀ c ∈ source.toList, Legal c) :
    ∃ ts place, ofString source = .ok (ts ++ [.ending place]) := by
  cases hok : ofString source with
  | ok tokens =>
    obtain ⟨_, _, ts, -, -, -, rfl⟩ := ofString_eq_ok_iff.mp hok
    exact ⟨ts, _, rfl⟩
  | error fault =>
    obtain ⟨c, hmem, hillegal⟩ := exists_illegal_of_ofString hok
    exact absurd (h c hmem) hillegal

section Between

variable {source text : String} {before after : List Char}

/-- Spacing around a text moves its tokens. -/
theorem ofString_between_spaces {ts : List Token} {place : Position}
    (hsource : source.toList = before ++ text.toList ++ after) (hbefore : Spaces before)
    (hafter : Spaces after) (h : ofString text = .ok (ts ++ [.ending place])) :
    ofString source = .ok (ts.map (relocate (placeAfter before).from) ++
      [.ending (placeAfter source.toList)]) := by
  have hapart : Apart (String.ofList before).toList text.toList := by
    refine apart_of_spacing (.inl fun c hmem => hbefore c ?_)
    rw [String.toList_ofList] at hmem
    exact List.mem_of_getLast? hmem
  have hapart' : Apart (String.ofList before ++ text).toList (String.ofList after).toList := by
    refine apart_of_spacing (.inr fun c hmem => hafter c ?_)
    rw [String.toList_ofList] at hmem
    exact List.mem_of_head? hmem
  have hwhole := ofString_append (ofString_append (ofString_of_spaces hbefore) h hapart)
    (ofString_of_spaces hafter) hapart'
  have heq : source = String.ofList before ++ text ++ String.ofList after :=
    String.toList_inj.mp (by simp [hsource])
  rw [← heq] at hwhole
  obtain ⟨-, hstop⟩ := ending_of_ofString hwhole
  rw [hwhole, hstop]
  simp

/-- Spacing around a text moves its first illegal character. -/
theorem ofString_between_spaces_of_error {c : Char} {place : Position}
    (hsource : source.toList = before ++ text.toList ++ after) (hbefore : Spaces before)
    (h : ofString text = .error (.illegal c place)) :
    ofString source = .error (.illegal c ((placeAfter before).from place)) := by
  obtain ⟨first, c, rest, htext, hlegal, hillegal, hfault⟩ := ofString_eq_error_iff.mp h
  obtain ⟨rfl, rfl⟩ := ReadFault.illegal.inj hfault
  refine ofString_eq_error_iff.mpr ⟨before ++ first, c, rest ++ after, ?_, ?_, hillegal, ?_⟩
  · rw [hsource, htext]
    simp
  · exact List.forall_mem_append.mpr ⟨fun b hmem => .inl (hbefore b hmem), hlegal⟩
  · rw [placeAfter_append]

end Between

/-- A trimmed text has the words of the text. -/
theorem ofString_trim {source : String} {tokens : List Token} (h : ofString source = .ok tokens) :
    ∃ tokens', ofString (trim source) = .ok tokens' ∧ tokens'.map word = tokens.map word := by
  have hlegal := legal_of_ofString h
  obtain ⟨before, after, hsource, hbefore, hafter⟩ := exists_trim_eq source
  simp only [hsource, List.forall_mem_append] at hlegal
  obtain ⟨⟨hlegalBefore, hlegalTrim⟩, hlegalAfter⟩ := hlegal
  have hspaces : Spaces before := fun c hmem => (hlegalBefore c hmem).mem_spacing (hbefore c hmem)
  have hspaces' : Spaces after := fun c hmem => (hlegalAfter c hmem).mem_spacing (hafter c hmem)
  obtain ⟨ts, place, htrim⟩ := ofString_of_legal hlegalTrim
  have hwhole := ofString_between_spaces hsource hspaces hspaces' htrim
  refine ⟨_, htrim, ?_⟩
  rw [Except.ok.inj (h.symm.trans hwhole)]
  simp [word, relocate, ending, Function.comp_def]

end Token

end BoSyntax
