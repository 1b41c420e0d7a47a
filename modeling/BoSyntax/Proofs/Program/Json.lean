import BoSyntax.Proofs.Node.Json
import BoSyntax.Proofs.Program.Wording

/-!
# Programs as JSON documents

The numbers of a program are digits in its text, so none is a nan and none has a sign, but one of
too many digits is infinite. The JSON of a program is a document from which it can be read back,
unless a number is infinite: then it is no document at all.
-/

namespace BoSyntax

namespace Program

open Text BoSyntax.Language

variable {limit : Nat} {source : String} {name : Option String} {program : Node}

/-- The numbers of a program are the nearest ones to natural numbers. -/
theorem exists_ofRatio_of_hasNumber {x : Binary64}
    (h : ofStringWithin limit source name = .ok program) (hx : program.HasNumber x) :
    ∃ n, x = .ofRatio false n 1 := by
  obtain ⟨ts, stop, htokens, hderived⟩ := exists_programOf_of_ofStringWithin h
  obtain ⟨hends, rfl⟩ := Token.ending_of_ofString htokens
  rw [← ofTokens_eq_ok_iff_programOf hends rfl] at hderived
  obtain ⟨token, hmem, htype, hread⟩ := exists_token_of_hasNumber hderived hx
  obtain ⟨n, hn⟩ := Token.readable_of_ofString htokens hmem htype
  exact ⟨n, Option.some.inj (hread.symm.trans hn)⟩

/-- The JSON of a program is a document, and just with the program as its value, when no number of
the program is infinite. -/
theorem document_text_iff (h : ofStringWithin limit source name = .ok program) (v : Json) :
    Json.Document Json.Numeral (text program true).toList v ↔
      v = program.toJson ∧ ¬program.HasNumber (.infinite false) := by
  rw [text, if_pos rfl, Json.document_render_iff]
  refine and_congr_right fun _ => ⟨fun hfinite hinfinite => ?_, fun hfinite x hx => ?_⟩
  · obtain ⟨negative, magnitude, heq⟩ := hfinite _ (Node.hasNumber_toJson.mpr hinfinite)
    cases heq
  · rw [Node.hasNumber_toJson] at hx
    obtain ⟨n, rfl⟩ := exists_ofRatio_of_hasNumber h hx
    rcases Nat.lt_or_ge (Binary64.nearest n 1) Binary64.magnitudes with hlt | hge
    · exact ⟨_, _, Binary64.ofRatio_of_lt hlt⟩
    · rw [Binary64.ofRatio_of_ge hge] at hx
      exact absurd hx hfinite

/-- Digits are a program: the number nearest to their value. -/
theorem ofStringWithin_of_digits {digits : List Char} (hne : digits ≠ [])
    (hdigits : ∀ c ∈ digits, isDigit c = true) (limit : Nat) (name : Option String)
    (hlimit : 1 < limit) :
    ofStringWithin limit (String.ofList digits) name = .ok (.program ⟨1, 1⟩
      [.number ⟨1, 1⟩ (.ofRatio false (decimalValue 0 digits) 1)]) := by
  have hread := Binary64.read?_ofList_digits hne hdigits
  have hseg : Segmented [] [] digits [⟨.number, String.ofList digits, placeAfter []⟩] := by
    simpa using Segmented.cons (show Spaces [] by simp [Spaces])
      (.number hne hdigits (by simp)) .nil
  have htokens := @Token.ofString_of_segmented (String.ofList digits) digits [] _ (by simp) hseg
    (by simp [Spaces])
  have hnumber : Statement [⟨.number, String.ofList digits, placeAfter []⟩]
      (.number (placeAfter []) (.ofRatio false (decimalValue 0 digits) 1)) :=
    statement_iff.mpr (.expression (expression_of_primary (.number rfl hread)))
  have hstatements := Statements.more hnumber .none (by simp)
  rw [ofStringWithin_iff_programOf htokens, programOf_iff_program hlimit]
  exact .statements hstatements rfl

/-- A number of 310 digits is infinite, so the JSON of the program is no document. -/
theorem not_document_of_nines : ∃ program,
    ofStringWithin 2 (String.ofList (List.replicate 310 '9')) none = .ok program ∧
      program.HasNumber (.infinite false) ∧
      ∀ v, ¬Json.Document Json.Numeral (text program true).toList v := by
  have h := @ofStringWithin_of_digits (List.replicate 310 '9') (by decide)
    (fun c hmem => by rw [List.eq_of_mem_replicate hmem]; decide +kernel) 2 none (by decide)
  have hvalue : Binary64.ofRatio false (decimalValue 0 (List.replicate 310 '9')) 1 =
      .infinite false := by
    decide +kernel
  rw [hvalue] at h
  have hnumber : (Node.program ⟨1, 1⟩ [.number ⟨1, 1⟩ (.infinite false)]).HasNumber
      (.infinite false) := by
    simp [Node.HasNumber, Node.atoms, Node.allAtoms]
  exact ⟨_, h, hnumber, fun v hv => ((document_text_iff h v).mp hv).2 hnumber⟩

end Program

end BoSyntax
