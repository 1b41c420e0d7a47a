import BoSyntax.Proofs.Program.Attempt
import BoSyntax.Proofs.Source.LineEnds
import BoSyntax.Proofs.Source.Utf8

/-!
# Programs from files

A file that holds the bytes of a text is attempted with the same success as the text itself. Its
line ends are unified when it is read, which keeps all words, and all places as well if no carriage
return stands alone.
-/

namespace BoSyntax

open Text Program

namespace Source

variable {store : Store} {path : String} {text : String}

/-- The bytes that encode characters are read as these with unified line ends. -/
theorem textOfBytes_encode (characters : List Char) :
    textOfBytes (Utf8.encode characters) = .ok (String.ofList (unifyLineEnds characters)) := by
  rw [textOfBytes, Utf8.decode_encode]

/-- A file that holds the bytes of a text is read as the text with unified line ends. -/
theorem read_file (hpath : '\x00' ∉ path.toList)
    (hstore : store (.ofString path) = .ok (Utf8.encode text.toList)) :
    (Source.file path).read store = .ok (String.ofList (unifyLineEnds text.toList)) := by
  have hnull : path.toList.contains '\x00' = false := by simpa using hpath
  simp only [read, hnull, hstore]
  exact textOfBytes_encode text.toList

/-- A text and a file that holds its bytes are attempted with the same success: both are programs,
which are equal, or both are reported on with the same words. If no carriage return of the text
stands alone, then also all places are the same, of tokens, of nodes and of the report. -/
theorem attempt_of_file (hpath : '\x00' ∉ path.toList)
    (hstore : store (.ofString path) = .ok (Utf8.encode text.toList)) (limit : Nat)
    (name : String) :
    ∃ content result result',
      (Source.file path).read store = .ok content ∧
      attempt limit content (some (Source.file path).name) = .ok result ∧
      (Source.text text name).read store = .ok text ∧
      attempt limit text (some (Source.text text name).name) = .ok result' ∧
      result.Agrees result' ∧
      (Paired text.toList →
        (∀ tokens, Program.tokens content (some (Source.file path).name) = .ok tokens ↔
          Program.tokens text (some (Source.text text name).name) = .ok tokens) ∧
        result.program = result'.program ∧
        result.report.bind Diagnostic.place? = result'.report.bind Diagnostic.place?) := by
  simp only [tokens_eq_ok_iff]
  cases h : Token.ofString text with
  | ok tokens =>
    obtain ⟨tokens', h', hwords, hpaired⟩ := Token.ofString_unifyLineEnds h
    obtain ⟨result, result', hresult, hresult', hagrees⟩ := attempt_of_words h' h hwords limit
      (some (Source.file path).name) (some (Source.text text name).name)
    refine ⟨_, result, result', read_file hpath hstore, hresult, rfl, hresult', hagrees,
      fun htext => ?_⟩
    obtain rfl := hpaired htext
    exact ⟨fun _ => by rw [h'], attempt_of_tokens h' h hresult hresult'⟩
  | error fault =>
    obtain ⟨c, place, place', rfl, h', hpaired⟩ := Token.ofString_unifyLineEnds_of_error h
    refine ⟨_, _, _, read_file hpath hstore, attempt_of_illegal h', rfl, attempt_of_illegal h,
      .reports rfl rfl, fun htext => ?_⟩
    obtain rfl := hpaired htext
    exact ⟨fun _ => by simp [h'], rfl, rfl⟩

/-- A return before the line feed does not move the report on the line behind it. -/
theorem attempt_of_file_with_return :
    '\x00' ∉ "é.bo".toList ∧ Paired "let é =\r\n  #".toList ∧ ∃ content result result',
      (Source.file "é.bo").read (fun _ => .ok (Utf8.encode "let é =\r\n  #".toList)) =
        .ok content ∧
      attempt 2 content (some "é.bo") = .ok result ∧
      attempt 2 "let é =\r\n  #" (some textName) = .ok result' ∧ result.Agrees result' ∧
      result.report.bind Diagnostic.place? = result'.report.bind Diagnostic.place? := by
  have hpath : '\x00' ∉ "é.bo".toList := by simp
  have hpaired : Paired "let é =\r\n  #".toList := by simp
  obtain ⟨content, result, result', hread, hresult, -, hresult', hagrees, hplaces⟩ :=
    @attempt_of_file (fun _ => .ok (Utf8.encode "let é =\r\n  #".toList)) _ _ hpath rfl 2 textName
  exact ⟨hpath, hpaired, content, result, result', hread, hresult, hresult', hagrees,
    (hplaces hpaired).2.2⟩

end Source

end BoSyntax
