import BoSyntax.Proofs.Node.Equality
import BoSyntax.Proofs.Program.Block
import BoSyntax.Proofs.Program.Height
import BoSyntax.Proofs.Program.Trimming
import BoSyntax.Proofs.Program.Wording
import BoSyntax.Session

/-!
# Entries of several lines

A session counts the braces of an entry line by line, without regard to their order. On a program
the count agrees with its blocks: a further line is asked for exactly when the last line break is in
a block. So a program all of whose line breaks are in blocks is one entry, which stands for it. That
entry is shown as the program if the stack has room for its levels, and else there is a trace.
-/

namespace BoSyntax

namespace Text

/-- The lines of a text, without the line feeds between them. -/
def linesOf (text : String) : List String :=
  (text.toList.splitOn '\n').map String.ofList

/-- A text has a line. -/
theorem linesOf_ne_nil (text : String) : linesOf text ≠ [] := by
  simp [linesOf]

/-- The lines joined by line feeds are the text. -/
theorem intercalate_linesOf (text : String) : "\n".intercalate (linesOf text) = text := by
  have hchars : (linesOf text).map String.toList = text.toList.splitOn '\n' := by
    simp [linesOf, Function.comp_def]
  rw [← String.toList_inj, String.toList_intercalate, hchars]
  exact List.intercalate_splitOn '\n'

/-- The first lines of a text, joined. -/
def firstLines (text : String) (count : Nat) : String :=
  "\n".intercalate ((linesOf text).take count)

/-- The lines of a text behind the first ones, joined. -/
def furtherLines (text : String) (count : Nat) : String :=
  "\n".intercalate ((linesOf text).drop count)

/-- All lines make the whole text. -/
theorem firstLines_of_length_le {text : String} {count : Nat} (h : (linesOf text).length ≤ count) :
    firstLines text count = text := by
  rw [firstLines, List.take_of_length_le h, intercalate_linesOf]

/-- A text is divided at any of its line breaks. -/
theorem firstLines_append_furtherLines {text : String} {count : Nat} (hpos : 0 < count)
    (hlt : count < (linesOf text).length) :
    text.toList = (firstLines text count).toList ++ '\n' :: (furtherLines text count).toList := by
  have htake : (linesOf text).take count ≠ [] := by
    simpa [linesOf_ne_nil] using Nat.ne_of_gt hpos
  have hdrop : (linesOf text).drop count ≠ [] := by simpa using hlt
  have hjoined := intercalate_linesOf text
  rw [← List.take_append_drop count (linesOf text),
    String.intercalate_append_of_ne_nil htake hdrop] at hjoined
  rw [firstLines, furtherLines, ← congrArg String.toList hjoined]
  simp

end Text

open Text

namespace Session

/-! ## Counting braces -/

/-- The braces of lines are those of the joined lines. -/
theorem foldl_braceBalance (lines : List String) (balance : Int) :
    lines.foldl (fun balance line => balance + braceBalance line) balance =
      balance + braceBalance ("\n".intercalate lines) := by
  induction lines generalizing balance with
  | nil => simp [braceBalance]
  | cons line lines ih =>
    rw [List.foldl_cons, ih]
    rcases eq_or_ne lines [] with rfl | hne
    · simp [braceBalance]
    · rw [String.intercalate_cons_of_ne_nil hne]
      simp [braceBalance]
      omega

/-- Lines are a complete entry when no more braces are opened than closed in them. -/
theorem isComplete_eq_false_iff {lines : List String} :
    isComplete lines = false ↔ ("\n".intercalate lines).toList.count '}' <
      ("\n".intercalate lines).toList.count '{' := by
  rw [isComplete, foldl_braceBalance, braceBalance, decide_eq_false_iff_not]
  omega

end Session

namespace Node

/-- The line break behind the first lines of a text is in a block of its program. -/
def BreakInBlock (program : Node) (source : String) (count : Nat) : Prop :=
  count < (linesOf source).length ∧
    program.InBlock (firstLines source count).toList ('\n' :: (furtherLines source count).toList)

end Node

namespace Session

section Lines

variable {limit : Nat} {source : String} {name : Option String} {program : Node}

/-- The first lines of a program are no complete entry exactly when the line break behind them is
in a block. -/
theorem isComplete_take_iff (h : Program.ofStringWithin limit source name = .ok program)
    {count : Nat} (hpos : 0 < count) :
    isComplete ((linesOf source).take count) = false ↔ program.BreakInBlock source count := by
  rw [isComplete_eq_false_iff]
  change (firstLines source count).toList.count '}' < (firstLines source count).toList.count '{' ↔ _
  rcases Nat.lt_or_ge count (linesOf source).length with hlt | hge
  · rw [← Program.inBlock_iff h (firstLines_append_furtherLines hpos hlt)]
    exact (and_iff_right hlt).symm
  · have hcount := (Program.balanced_and_opensBehind h).1.count_eq (by decide)
    rw [firstLines_of_length_le hge, hcount]
    exact iff_of_false (Nat.lt_irrefl _) fun hbreak => Nat.not_lt.mpr hge hbreak.1

end Lines

/-! ## Asking for lines -/

section Steps

variable {limits : Limits} {modes : Modes} {entered : List String} {line : String}

/-- A line that leaves more braces open than closed is followed by another one. -/
theorem step_of_not_isComplete (hfarewell : entered = [] → isFarewell line = false)
    (h : isComplete (entered ++ [line]) = false) :
    step limits ⟨modes, entered⟩ (.line line) = (some ⟨modes, entered ++ [line]⟩, []) := by
  have hstay : (entered.isEmpty && isFarewell line) = false := by
    cases entered with
    | nil => simpa using hfarewell rfl
    | cons => rfl
  simp [step, hstay, h]

/-- Any other line completes the entry, which is carried out. -/
theorem step_of_isComplete (hfarewell : entered = [] → isFarewell line = false)
    (h : isComplete (entered ++ [line]) = true) :
    step limits ⟨modes, entered⟩ (.line line) =
      (some (start (evaluate limits modes (entered ++ [line])).1),
        (evaluate limits modes (entered ++ [line])).2) := by
  have hstay : (entered.isEmpty && isFarewell line) = false := by
    cases entered with
    | nil => simpa using hfarewell rfl
    | cons => rfl
  simp [step, hstay, h, start]

/-- Only the first line of an entry may end the session. -/
theorem isFarewell_of_take_eq_nil {lines : List String} {count : Nat}
    (hfarewell : ∀ first ∈ lines.head?, isFarewell first = false)
    (hline : lines[count]? = some line) (hnil : lines.take count = []) :
    isFarewell line = false := by
  obtain rfl | rfl := List.take_eq_nil_iff.mp hnil
  · exact hfarewell line (by rw [List.head?_eq_getElem?, hline, Option.mem_some_iff])
  · simp at hline

/-- What a terminal shows while the lines of an entry are asked for: each line after a prompt. -/
def asked : List String → List Emission
  | [] => []
  | first :: rest =>
    .output ">>> " :: .line first :: rest.flatMap fun line => [.output "... ", .line line]

/-- The prompt for a line is that of its place in the entry. -/
theorem asked_append_prompt (modes : Modes) (rest : List Emission) :
    asked entered ++ .output (prompt ⟨modes, entered⟩) :: .line line :: rest =
      asked (entered ++ [line]) ++ rest := by
  cases entered <;> simp [asked, prompt]

/-- What is shown of an entry when one more line does not complete it. -/
theorem converse_of_not_isComplete {replies : List Reply}
    (hfarewell : entered = [] → isFarewell line = false)
    (h : isComplete (entered ++ [line]) = false) :
    asked entered ++ converse limits ⟨modes, entered⟩ (.line line :: replies) =
      asked (entered ++ [line]) ++ converse limits ⟨modes, entered ++ [line]⟩ replies := by
  rw [converse, step_of_not_isComplete hfarewell h, ← asked_append_prompt modes]
  rfl

/-- What is shown of an entry when one more line completes it. -/
theorem converse_of_isComplete {replies : List Reply}
    (hfarewell : entered = [] → isFarewell line = false)
    (h : isComplete (entered ++ [line]) = true) :
    asked entered ++ converse limits ⟨modes, entered⟩ (.line line :: replies) =
      asked (entered ++ [line]) ++ (evaluate limits modes (entered ++ [line])).2 ++
        converse limits (start (evaluate limits modes (entered ++ [line])).1) replies := by
  rw [converse, step_of_isComplete hfarewell h, List.append_assoc, ← asked_append_prompt modes]
  simp [echo]

/-- What is shown of an entry of one line. -/
theorem converse_of_line (hfarewell : isFarewell line = false) (h : isComplete [line] = true)
    (replies : List Reply) :
    converse limits (start modes) (.line line :: replies) =
      asked [line] ++ (evaluate limits modes [line]).2 ++
        converse limits (start (evaluate limits modes [line]).1) replies := by
  have hconverse := @converse_of_isComplete limits modes [] line replies (fun _ => hfarewell) h
  rwa [asked, List.nil_append, List.nil_append] at hconverse

/-- Lines after each of which a further one is asked for. -/
inductive Open : List String → Prop
  | nil : Open []
  | snoc {entered : List String} {line : String} : Open entered →
    (entered = [] → isFarewell line = false) → isComplete (entered ++ [line]) = false →
    Open (entered ++ [line])

/-- What is shown while open lines are asked for. -/
theorem converse_of_open (h : Open entered) (replies : List Reply) :
    converse limits (start modes) (entered.map .line ++ replies) =
      asked entered ++ converse limits ⟨modes, entered⟩ replies := by
  induction h generalizing replies with
  | nil => rfl
  | snoc _ hfarewell hopen ih =>
    rw [List.map_append, List.append_assoc, ih]
    exact converse_of_not_isComplete hfarewell hopen

/-- The first lines of a text are open if none of them completes an entry. -/
theorem open_take {lines : List String} {count : Nat} (hle : count ≤ lines.length)
    (hfarewell : ∀ first ∈ lines.head?, isFarewell first = false)
    (hopen : ∀ k, 0 < k → k ≤ count → isComplete (lines.take k) = false) :
    Open (lines.take count) := by
  induction count with
  | zero => exact .nil
  | succ count ih =>
    have hincomplete := hopen (count + 1) (Nat.succ_pos _) (Nat.le_refl _)
    rw [List.take_succ_eq_append_getElem hle] at hincomplete ⊢
    refine .snoc (ih (Nat.le_of_succ_le hle) fun k hk hle => hopen k hk (Nat.le_succ_of_le hle)) ?_
      hincomplete
    exact isFarewell_of_take_eq_nil hfarewell (List.getElem?_eq_getElem hle)

/-- Lines are asked for up to the first one that completes the entry. -/
theorem converse_lines {lines : List String} {count : Nat} (hlt : count < lines.length)
    (hfarewell : ∀ first ∈ lines.head?, isFarewell first = false)
    (hopen : ∀ k, 0 < k → k ≤ count → isComplete (lines.take k) = false)
    (hclosed : isComplete (lines.take (count + 1)) = true) (replies : List Reply) :
    converse limits (start modes) (lines.map .line ++ replies) =
      asked (lines.take (count + 1)) ++ (evaluate limits modes (lines.take (count + 1))).2 ++
        converse limits (start (evaluate limits modes (lines.take (count + 1))).1)
          ((lines.drop (count + 1)).map .line ++ replies) := by
  have hsplit : lines.map Reply.line ++ replies = (lines.take count).map .line ++
      .line lines[count] :: ((lines.drop (count + 1)).map .line ++ replies) := by
    rw [← List.cons_append, ← List.append_assoc, ← List.map_cons, ← List.map_append,
      ← List.drop_eq_getElem_cons hlt, List.take_append_drop]
  rw [List.take_succ_eq_append_getElem hlt] at hclosed ⊢
  rw [hsplit, converse_of_open (open_take (Nat.le_of_lt hlt) hfarewell hopen)]
  exact converse_of_isComplete
    (isFarewell_of_take_eq_nil hfarewell (List.getElem?_eq_getElem hlt)) hclosed

end Steps

/-! ## Programs as entries -/

section Programs

variable {limits : Limits} {source : String} {name : Option String} {program : Node}
  {modes : Modes}

/-- To trim a text takes blanks only. -/
theorem mem_trim {text : String} {c : Char} (h : c ∈ text.toList) (hblank : isBlank c = false) :
    c ∈ (trim text).toList := by
  obtain ⟨before, after, htext, hbefore, hafter⟩ := exists_trim_eq text
  rw [htext, List.mem_append, List.mem_append] at h
  rcases h with (h | h) | h
  · exact absurd (hbefore _ h) (by simp [hblank])
  · exact h
  · exact absurd (hafter _ h) (by simp [hblank])

/-- A line with another character than those of the farewells does not end the session. -/
theorem isFarewell_of_mem {line : String} {c : Char} (h : c ∈ line.toList)
    (hblank : isBlank c = false) (hexit : c ∉ "exit".toList) (hquit : c ∉ "quit".toList) :
    isFarewell line = false := by
  have hne : ∀ word : String, c ∉ word.toList → trim line ≠ word := by
    rintro _ hword rfl
    exact hword (mem_trim h hblank)
  simp [isFarewell, hne "exit" hexit, hne "quit" hquit]

/-- If all line breaks are in blocks, the first line ends the session only if it is the last. -/
theorem isFarewell_head_of_breaks
    (hbreaks : ∀ k, 0 < k → k < (linesOf source).length → program.BreakInBlock source k)
    (hfarewell : isFarewell source = false) :
    ∀ first ∈ (linesOf source).head?, isFarewell first = false := by
  intro first hfirst
  have hsource := intercalate_linesOf source
  cases hlines : linesOf source with
  | nil => exact absurd hlines (linesOf_ne_nil source)
  | cons line rest =>
    obtain rfl : line = first := by simpa [hlines] using hfirst
    cases rest with
    | nil =>
      rw [hlines, String.intercalate_singleton] at hsource
      rwa [hsource]
    | cons next rest =>
      obtain ⟨-, node, -, before, inner, -, -, -, hblock, -⟩ :=
        hbreaks 1 Nat.one_pos (by simp [hlines])
      have hline : firstLines source 1 = line := by simp [firstLines, hlines]
      exact @isFarewell_of_mem _ '{' (by simp [← hline, hblock]) (by decide) (by decide)
        (by decide)

/-- What is given off while a program is read as an entry: the tokens if these are shown, and the
records. -/
def shownReading (modes : Modes) (entry : String) (tokens : List Token) (program : Node) :
    List Emission :=
  (if modes.tokens then
    [Program.tokensRecord entry tokens, .line ("[tokens] >>> " ++ Token.listing tokens)]
  else []) ++
    [Program.tokensRecord entry tokens, Program.programRecord program]

/-- What is shown of a program as an entry: what is given off while it is read, and its outline or
JSON. -/
def shownProgram (modes : Modes) (entry : String) (tokens : List Token) (program : Node) :
    List Emission :=
  shownReading modes entry tokens program ++ [.line (Program.text program modes.json)]

/-- An entry that is a program is shown as such, unless the stack has no room for its levels. -/
theorem showEntry_of_ok {entry : String} {tokens : List Token}
    (htokens : Program.tokens entry (some sourceName) = .ok tokens)
    (hprogram : Program.ofStringWithin limits.nesting entry (some sourceName) = .ok program) :
    showEntry limits modes entry =
      if program.height ≤ limits.levels modes.json then shownProgram modes entry tokens program
      else shownReading modes entry tokens program ++ trace .exhausted := by
  have hrecords : Program.records limits.nesting entry sourceName =
      [Program.tokensRecord entry tokens, Program.programRecord program] := by
    simp [Program.records, htokens, hprogram]
  by_cases hroom : program.height ≤ limits.levels modes.json
  · simp only [showEntry, showProgram, htokens, hprogram, hrecords, Program.text?, if_pos hroom,
      shownProgram, shownReading]
    cases modes.tokens <;> rfl
  · simp only [showEntry, showProgram, htokens, hprogram, hrecords, Program.text?, if_neg hroom,
      shownReading]
    cases modes.tokens <;> rfl

/-- A program is read from its trimmed text as well. -/
theorem ofStringWithin_trim {limit : Nat}
    (h : Program.ofStringWithin limit source name = .ok program) :
    ∃ tokens program', Program.tokens (trim source) (some sourceName) = .ok tokens ∧
      Program.ofStringWithin limit (trim source) (some sourceName) = .ok program' ∧
      program'.equal program = true := by
  obtain ⟨ts, stop, htokens, -⟩ := Program.exists_programOf_of_ofStringWithin h
  obtain ⟨tokens, htrim, hwords⟩ := Token.ofString_trim htokens
  rcases Program.ofStringWithin_of_words htrim htokens hwords limit with
    ⟨program', program'', hprogram', hprogram'', hequal⟩ | ⟨_, _, -, herror, -⟩
  · obtain rfl := Except.ok.inj (h.symm.trans hprogram'')
    exact ⟨tokens, program', Program.tokens_eq_ok_iff.mpr htrim, hprogram', hequal⟩
  · cases h.symm.trans herror

/-- A further line is asked for exactly when the line break is in a block. -/
theorem asks_iff (h : Program.ofStringWithin limits.nesting source name = .ok program)
    (hfarewell : ∀ first ∈ (linesOf source).head?, isFarewell first = false) {count : Nat}
    {line : String} (hline : (linesOf source)[count]? = some line) :
    (step limits ⟨modes, (linesOf source).take count⟩ (.line line)).1 =
        some ⟨modes, (linesOf source).take (count + 1)⟩ ↔
      program.BreakInBlock source (count + 1) := by
  have htake : (linesOf source).take (count + 1) = (linesOf source).take count ++ [line] := by
    rw [List.take_add_one, hline, Option.toList_some]
  have hstay := isFarewell_of_take_eq_nil hfarewell hline
  rw [← isComplete_take_iff h (Nat.succ_pos count), htake]
  cases hcomplete : isComplete ((linesOf source).take count ++ [line]) with
  | false => simp [step_of_not_isComplete hstay hcomplete]
  | true => simp [step_of_isComplete hstay hcomplete, start]

/-- The entry ends at the first line break that is in no block. -/
theorem exists_entry (modes : Modes)
    (h : Program.ofStringWithin limits.nesting source name = .ok program)
    (hfarewell : ∀ first ∈ (linesOf source).head?, isFarewell first = false) :
    ∃ count, 0 < count ∧ count ≤ (linesOf source).length ∧
      (∀ k, 0 < k → k < count → program.BreakInBlock source k) ∧
      ¬program.BreakInBlock source count ∧
      ∀ replies, converse limits (start modes) ((linesOf source).map .line ++ replies) =
        asked ((linesOf source).take count) ++
          (evaluate limits modes ((linesOf source).take count)).2 ++
          converse limits (start (evaluate limits modes ((linesOf source).take count)).1)
            (((linesOf source).drop count).map .line ++ replies) := by
  have hiff {k : Nat} (hpos : 0 < k) := isComplete_take_iff h hpos
  have hpos := List.length_pos_iff.mpr (linesOf_ne_nil source)
  have hlast : isComplete ((linesOf source).take ((linesOf source).length - 1 + 1)) = true := by
    rw [Nat.sub_add_cancel hpos, ← Bool.not_eq_false, hiff hpos]
    exact fun hbreak => Nat.lt_irrefl _ hbreak.1
  have hexists : ∃ k, isComplete ((linesOf source).take (k + 1)) = true := ⟨_, hlast⟩
  let count := Nat.find hexists
  have hclosed : isComplete ((linesOf source).take (count + 1)) = true := Nat.find_spec hexists
  have hlt : count < (linesOf source).length := by
    have hle : count ≤ (linesOf source).length - 1 := Nat.find_min' hexists hlast
    omega
  have hopen : ∀ k, 0 < k → k ≤ count → isComplete ((linesOf source).take k) = false := by
    intro k hk hle
    have hmin := @Nat.find_min _ _ hexists (k - 1) (by omega)
    rwa [Nat.sub_add_cancel hk, Bool.not_eq_true] at hmin
  refine ⟨count + 1, Nat.succ_pos _, hlt, fun k hk hle => ?_, ?_, fun replies => ?_⟩
  · exact (hiff hk).mp (hopen k hk (Nat.le_of_lt_succ hle))
  · rw [← hiff (Nat.succ_pos _), hclosed]
    decide
  · exact converse_lines hlt hfarewell hopen hclosed replies

/-- The lines of a program that is no command are carried out as that program. -/
theorem evaluate_of_program (modes : Modes) {lines : List String}
    (hlines : "\n".intercalate lines = source)
    (h : Program.ofStringWithin limits.nesting source name = .ok program)
    (hne : trim source ≠ "") (hcommand : command? (trim source) = none) :
    ∃ tokens program', Program.tokens (trim source) (some sourceName) = .ok tokens ∧
      Program.ofStringWithin limits.nesting (trim source) (some sourceName) = .ok program' ∧
      program'.equal program = true ∧
      evaluate limits modes lines = (modes,
        if program.height ≤ limits.levels modes.json then
          shownProgram modes (trim source) tokens program'
        else shownReading modes (trim source) tokens program' ++ trace .exhausted) := by
  obtain ⟨tokens, program', htokens, hprogram', hequal⟩ := ofStringWithin_trim h
  refine ⟨tokens, program', htokens, hprogram', hequal, ?_⟩
  rw [← Node.height_eq_of_equal hequal]
  simp [evaluate, hlines, hne, hcommand, showEntry_of_ok htokens hprogram']

/-- A further line is asked for exactly when the last line break is in a block of the program that
the lines make. The entry ends at the first line break that is in no block, and if there is none it
is the program. That is shown as such if the stack has room for its levels; if not, the failure of
the stack is all that is shown behind the tokens. -/
theorem entry_of_program (h : Program.ofStringWithin limits.nesting source name = .ok program)
    (modes : Modes) :
    ((∀ first ∈ (linesOf source).head?, isFarewell first = false) →
      (∀ k line, (linesOf source)[k]? = some line →
        ((step limits ⟨modes, (linesOf source).take k⟩ (.line line)).1 =
            some ⟨modes, (linesOf source).take (k + 1)⟩ ↔
          program.BreakInBlock source (k + 1))) ∧
      ∃ count, 0 < count ∧ count ≤ (linesOf source).length ∧
        (∀ k, 0 < k → k < count → program.BreakInBlock source k) ∧
        ¬program.BreakInBlock source count ∧
        ∀ replies, converse limits (start modes) ((linesOf source).map .line ++ replies) =
          asked ((linesOf source).take count) ++
            (evaluate limits modes ((linesOf source).take count)).2 ++
            converse limits (start (evaluate limits modes ((linesOf source).take count)).1)
              (((linesOf source).drop count).map .line ++ replies)) ∧
    ((∀ k, 0 < k → k < (linesOf source).length → program.BreakInBlock source k) →
      trim source ≠ "" → isFarewell source = false → command? (trim source) = none →
      ∃ tokens program', Program.tokens (trim source) (some sourceName) = .ok tokens ∧
        Program.ofStringWithin limits.nesting (trim source) (some sourceName) = .ok program' ∧
        program'.equal program = true ∧
        (program.height ≤ limits.levels modes.json → ∀ replies,
          converse limits (start modes) ((linesOf source).map .line ++ replies) =
            asked (linesOf source) ++ shownProgram modes (trim source) tokens program' ++
              converse limits (start modes) replies) ∧
        (limits.levels modes.json < program.height → ∀ replies,
          converse limits (start modes) ((linesOf source).map .line ++ replies) =
            asked (linesOf source) ++
              (shownReading modes (trim source) tokens program' ++ trace .exhausted) ++
              converse limits (start modes) replies)) := by
  refine ⟨fun hfarewell => ⟨fun k line => asks_iff h hfarewell, exists_entry modes h hfarewell⟩, ?_⟩
  intro hbreaks hne hfarewell hcommand
  obtain ⟨tokens, program', htokens, hprogram', hequal, hevaluate⟩ :=
    evaluate_of_program modes (intercalate_linesOf source) h hne hcommand
  obtain ⟨count, hpos, hle, -, hend, hconverse⟩ :=
    exists_entry modes h (isFarewell_head_of_breaks hbreaks hfarewell)
  obtain rfl : count = (linesOf source).length :=
    Nat.le_antisymm hle (Nat.not_lt.mp fun hlt => hend (hbreaks count hpos hlt))
  rw [List.take_length, List.drop_length, hevaluate] at hconverse
  refine ⟨tokens, program', htokens, hprogram', hequal, fun hroom replies => ?_,
    fun hhigh replies => ?_⟩
  · rw [hconverse, if_pos hroom]
    rfl
  · rw [hconverse, if_neg (Nat.not_le.mpr hhigh)]
    rfl

/-- The line break in the body of a function is asked over. -/
theorem entry_of_function_body :
    ∃ program, Program.ofStringWithin 3 "fn f() \x7b\n\x7d" none = .ok program ∧
      program.BreakInBlock "fn f() \x7b\n\x7d" 1 ∧ program.height ≤ 2 ∧
      ∃ tokens program', program'.equal program = true ∧
        ∀ replies, converse ⟨3, 2, 2⟩ (start ⟨false, false⟩)
            (["fn f() \x7b", "\x7d"].map .line ++ replies) =
          asked ["fn f() \x7b", "\x7d"] ++
            shownProgram ⟨false, false⟩ (trim "fn f() \x7b\n\x7d") tokens program' ++
            converse ⟨3, 2, 2⟩ (start ⟨false, false⟩) replies := by
  obtain ⟨program, h⟩ := @exists_eq_ok_of_isOk _ _
    (Program.ofStringWithin 3 "fn f() \x7b\n\x7d" none) (by decide +kernel)
  have hheight : ((Program.ofStringWithin 3 "fn f() \x7b\n\x7d" none).map Node.height).toOption =
      some 2 := by decide +kernel
  have hroom : program.height ≤ 2 := by
    rw [h] at hheight
    exact (Option.some.inj hheight).le
  obtain ⟨hasks, hshown⟩ := @entry_of_program ⟨3, 2, 2⟩ _ _ _ h ⟨false, false⟩
  have hlines : linesOf "fn f() \x7b\n\x7d" = ["fn f() \x7b", "\x7d"] := by decide +kernel
  rw [hlines] at hasks hshown
  have hbreak : program.BreakInBlock "fn f() \x7b\n\x7d" 1 :=
    ((hasks (by decide +kernel)).1 0 "fn f() \x7b" rfl).mp (by decide +kernel)
  have hbreaks : ∀ k, 0 < k → k < 2 → program.BreakInBlock "fn f() \x7b\n\x7d" k := by
    intro k hpos hlt
    obtain rfl : k = 1 := by omega
    exact hbreak
  obtain ⟨tokens, program', -, -, hequal, hconverse, -⟩ :=
    hshown hbreaks (by decide +kernel) (by decide +kernel) (by decide +kernel)
  exact ⟨program, h, hbreak, hroom, tokens, program', hequal, hconverse hroom⟩

/-- Whatever room the stack has, there is a line that is a program, and of which the session shows
the failure of the stack. -/
theorem exists_line_of_trace (hnesting : 0 < limits.nesting) (modes : Modes) :
    ∃ line program reading, Program.ofStringWithin limits.nesting line none = .ok program ∧
      ∀ replies, converse limits (start modes) (.line line :: replies) =
        asked [line] ++ (reading ++ trace .exhausted) ++ converse limits (start modes) replies := by
  obtain ⟨line, program, -, hplus, hhigh, hread⟩ :=
    Program.exists_higher (limits.levels modes.json)
  have h := hread limits.nesting hnesting none
  have hmem := mem_trim hplus (by decide)
  have hne : trim line ≠ "" := fun hempty => by simp [hempty] at hmem
  have hcommand : command? (trim line) = none := by
    have hword : ∀ word : String, '+' ∉ word.toList →
        String.ofList ((trim line).toList.map lowered) ≠ word := by
      rintro _ hword rfl
      rw [String.toList_ofList] at hword
      exact hword (List.mem_map.mpr ⟨'+', hmem, by decide⟩)
    simp only [command?, hword "tokens-mode" (by decide), hword "json-mode" (by decide), if_false]
  have hcomplete : isComplete [line] = true := by
    have hcount := (Program.balanced_and_opensBehind h).1.count_eq (by decide)
    rw [← Bool.not_eq_false, isComplete_eq_false_iff, String.intercalate_singleton, hcount]
    exact Nat.lt_irrefl _
  obtain ⟨tokens, program', -, -, -, hevaluate⟩ :=
    evaluate_of_program modes (String.intercalate_singleton) h hne hcommand
  rw [if_neg (Nat.not_le.mpr hhigh)] at hevaluate
  refine ⟨line, program, shownReading modes (trim line) tokens program', h, fun replies => ?_⟩
  have hstays : isFarewell line = false :=
    isFarewell_of_mem hplus (by decide) (by decide) (by decide)
  rw [converse_of_line hstays hcomplete, hevaluate]

end Programs

end Session

end BoSyntax
