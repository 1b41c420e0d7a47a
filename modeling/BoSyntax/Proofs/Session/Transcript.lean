import BoSyntax.Proofs.Session.Entry
import Mathlib.Logic.Function.Iterate

/-!
# Sessions as rows of entries

What a session is given divides into entries, one after the other, up to where it ends. An entry is
complete, or cut off by a failure of the input. What is shown of it depends on its lines and on the
modes alone, and of an entry nothing is left behind but the modes that a command turns on or off.
-/

namespace BoSyntax

namespace Session

/-- The modes after a command. -/
def Command.turn (modes : Modes) : Command → Modes
  | .toggleTokens => { modes with tokens := !modes.tokens }
  | .toggleJson => { modes with json := !modes.json }

/-- Only a command changes the modes. -/
theorem evaluate_fst (limits : Limits) (modes : Modes) (lines : List String) :
    (evaluate limits modes lines).1 =
      (command? (Text.trim ("\n".intercalate lines))).elim modes (Command.turn modes) := by
  have hblank : command? "" = none := by decide
  simp only [evaluate]
  split
  · rename_i hempty
    rw [hempty, hblank]
    rfl
  · cases command? (Text.trim ("\n".intercalate lines)) with
    | none => rfl
    | some command => cases command <;> rfl

/-- An entry that does not end the session. -/
inductive Entry where
  /-- Lines up to the first that completes them. -/
  | complete (opening : List String) (last : String) (isOpen : Open opening)
    (stays : opening = [] → isFarewell last = false)
    (closed : isComplete (opening ++ [last]) = true)
  /-- Lines, and a failure of the input when a further one is asked for. -/
  | cut (lines : List String) (failure : UnexpectedFailure) (isOpen : Open lines)

namespace Entry

/-- The replies that make up an entry. -/
def replies : Entry → List Reply
  | complete opening last .. => opening.map .line ++ [.line last]
  | cut lines failure _ => lines.map .line ++ [.failure failure]

/-- The command that an entry is, if it is one. -/
def command? : Entry → Option Command
  | complete opening last .. => Session.command? (Text.trim ("\n".intercalate (opening ++ [last])))
  | cut .. => none

/-- The modes after an entry. -/
def modesAfter (modes : Modes) (entry : Entry) : Modes :=
  entry.command?.elim modes (Command.turn modes)

/-- What is shown while an entry is asked for, and of it. -/
def block (limits : Limits) (modes : Modes) : Entry → List Emission
  | complete opening last .. =>
    asked (opening ++ [last]) ++ (evaluate limits modes (opening ++ [last])).2
  | cut lines failure _ =>
    asked lines ++
      .output (prompt ⟨modes, lines⟩) :: (step limits ⟨modes, lines⟩ (.failure failure)).2

/-- The replies that make up entries. -/
def allReplies (entries : List Entry) : List Reply :=
  entries.flatMap replies

/-- The modes after entries. -/
def modesAfterAll (modes : Modes) (entries : List Entry) : Modes :=
  entries.foldl modesAfter modes

/-- What is shown of entries. -/
def blocks (limits : Limits) (modes : Modes) : List Entry → List Emission
  | [] => []
  | entry :: entries => entry.block limits modes ++ blocks limits (entry.modesAfter modes) entries

variable {limits : Limits} {modes : Modes}

/-- After an entry, the session goes on as one that starts with the modes then. -/
theorem converse_replies (entry : Entry) (rest : List Reply) :
    converse limits (start modes) (entry.replies ++ rest) =
      entry.block limits modes ++ converse limits (start (entry.modesAfter modes)) rest := by
  cases entry with
  | complete opening last isOpen stays closed =>
    rw [replies, List.append_assoc, converse_of_open isOpen]
    exact (converse_of_isComplete stays closed).trans (by rw [evaluate_fst]; rfl)
  | cut lines failure isOpen =>
    rw [replies, List.append_assoc, converse_of_open isOpen]
    simp [converse, step, echo, block, modesAfter, command?, start]

/-- Entries follow one another, each with the modes that those before it leave. -/
theorem converse_allReplies (entries : List Entry) (rest : List Reply) :
    converse limits (start modes) (allReplies entries ++ rest) =
      blocks limits modes entries ++
        converse limits (start (modesAfterAll modes entries)) rest := by
  induction entries generalizing modes with
  | nil => rfl
  | cons entry entries ih =>
    rw [allReplies, List.flatMap_cons, List.append_assoc, converse_replies, ← allReplies, ih,
      blocks, List.append_assoc]
    rfl

/-! ## Modes -/

/-- An entry changes whether tokens are shown if it is the command for that. -/
theorem tokens_modesAfter (entry : Entry) : (entry.modesAfter modes).tokens =
    if entry.command? = some .toggleTokens then !modes.tokens else modes.tokens := by
  rw [modesAfter]
  rcases entry.command? with _ | _ | _ <;> rfl

/-- An entry changes whether programs are shown as JSON if it is the command for that. -/
theorem json_modesAfter (entry : Entry) : (entry.modesAfter modes).json =
    if entry.command? = some .toggleJson then !modes.json else modes.json := by
  rw [modesAfter]
  rcases entry.command? with _ | _ | _ <;> rfl

/-- A value that some entries turn round and the others keep is turned round as often as there are
such entries. -/
theorem iterate_not_of_modesAfter {value : Modes → Bool} {command : Command}
    (h : ∀ (entry : Entry) modes, value (entry.modesAfter modes) =
      if entry.command? = some command then !value modes else value modes)
    (entries : List Entry) : value (modesAfterAll modes entries) =
      not^[entries.countP fun entry => entry.command? = some command] (value modes) := by
  induction entries generalizing modes with
  | nil => rfl
  | cons entry entries ih =>
    rw [modesAfterAll, List.foldl_cons, ← modesAfterAll, ih, h, List.countP_cons]
    by_cases hcommand : entry.command? = some command <;> simp [hcommand]

end Entry

/-! ## Where a session ends -/

/-- A reply to the prompt behind some lines ends the session. -/
def Leaves (session : Session) : Reply → Prop
  | .line text => prompt session = ">>> " ∧ isFarewell text = true
  | .interrupt | .endOfInput => True
  | .failure _ => False

/-- What is shown of a reply that ends the session. -/
def parting : Reply → Emission
  | .line _ => .line "Exiting BoLang REPL."
  | _ => .line "\nExiting BoLang REPL."

section Ends

variable {limits : Limits} {modes : Modes} {lines : List String} {reply : Reply}

/-- The prompt tells whether an entry begins. -/
theorem prompt_eq_start_iff : prompt ⟨modes, lines⟩ = ">>> " ↔ lines = [] := by
  cases lines <;> simp [prompt]

/-- A reply that ends the session is parted from, and there is none after it. -/
theorem step_of_leaves (h : Leaves ⟨modes, lines⟩ reply) :
    step limits ⟨modes, lines⟩ reply = (none, [parting reply]) := by
  cases reply with
  | line text =>
    obtain ⟨hprompt, hfarewell⟩ := h
    obtain rfl := prompt_eq_start_iff.mp hprompt
    simp [step, hfarewell, parting]
  | interrupt => rfl
  | endOfInput => rfl
  | failure => cases h

/-- Nothing is asked for after a reply that ends the session. -/
theorem converse_of_leaves (h : Leaves ⟨modes, lines⟩ reply) (rest : List Reply) :
    converse limits ⟨modes, lines⟩ (reply :: rest) =
      .output (prompt ⟨modes, lines⟩) :: echo reply ++ [parting reply] := by
  rw [converse, step_of_leaves h]
  simp

/-- A reply behind open lines ends the session, completes or cuts an entry, or keeps the lines
open. -/
theorem leaves_or_entry (modes : Modes) (h : Open lines) (reply : Reply) :
    Leaves ⟨modes, lines⟩ reply ∨
      (∃ entry : Entry, entry.replies = lines.map .line ++ [reply]) ∨
      ∃ text, reply = .line text ∧ Open (lines ++ [text]) := by
  cases reply with
  | line text =>
    by_cases hleaves : lines = [] ∧ isFarewell text = true
    · exact .inl ⟨prompt_eq_start_iff.mpr hleaves.1, hleaves.2⟩
    · have hstays : lines = [] → isFarewell text = false := by simpa using hleaves
      cases hclosed : isComplete (lines ++ [text]) with
      | true => exact .inr (.inl ⟨.complete lines text h hstays hclosed, rfl⟩)
      | false => exact .inr (.inr ⟨text, rfl, .snoc h hstays hclosed⟩)
  | interrupt => exact .inl trivial
  | endOfInput => exact .inl trivial
  | failure failure => exact .inr (.inl ⟨.cut lines failure h, rfl⟩)

/-- What a session is given behind open lines: entries, the first of which these lines begin, and
further open lines, up to the end or to a reply that ends the session. -/
theorem exists_division (modes : Modes) (h : Open lines) (replies : List Reply) :
    ∃ entries lines', Open lines' ∧
      (lines.map .line ++ replies = Entry.allReplies entries ++ lines'.map .line ∨
      ∃ reply rest, Leaves ⟨Entry.modesAfterAll modes entries, lines'⟩ reply ∧
        lines.map .line ++ replies =
          Entry.allReplies entries ++ lines'.map .line ++ reply :: rest) := by
  -- The lines stay open until a reply makes an entry of them; then the rest is divided anew.
  induction replies generalizing modes lines with
  | nil => exact ⟨[], lines, h, .inl (List.append_nil _)⟩
  | cons reply replies ih =>
    rcases leaves_or_entry modes h reply with hleaves | ⟨entry, hentry⟩ | ⟨text, rfl, hopen⟩
    · exact ⟨[], lines, h, .inr ⟨reply, replies, hleaves, rfl⟩⟩
    · obtain ⟨entries, lines', hopen, hdivision⟩ := ih (entry.modesAfter modes) .nil
      rw [List.map_nil, List.nil_append] at hdivision
      have hreplies : lines.map .line ++ reply :: replies = entry.replies ++ replies := by
        rw [hentry, List.append_assoc, List.singleton_append]
      refine ⟨entry :: entries, lines', hopen, ?_⟩
      rw [hreplies, Entry.allReplies, List.flatMap_cons, ← Entry.allReplies]
      rcases hdivision with hdivision | ⟨reply, rest, hleaves, hdivision⟩
      · exact .inl (by rw [hdivision, List.append_assoc])
      · exact .inr ⟨reply, rest, hleaves, by rw [hdivision]; simp only [List.append_assoc]⟩
    · obtain ⟨entries, lines', hopen, hdivision⟩ := ih modes hopen
      refine ⟨entries, lines', hopen, ?_⟩
      rwa [List.map_append, List.append_assoc] at hdivision

end Ends

/-! ## Transcripts -/

variable {limits : Limits} {modes : Modes}

/-- A session shows the blocks of its entries, and then what follows. -/
theorem transcript_append (entries : List Entry) (rest : List Reply) :
    transcript limits modes (Entry.allReplies entries ++ rest) =
      banner :: Entry.blocks limits modes entries ++
        converse limits (start (Entry.modesAfterAll modes entries)) rest := by
  rw [transcript, Entry.converse_allReplies]
  rfl

/-- Entries are independent but for the modes. An entry that is no command inserts its block, which
depends on the entry and the modes then, and changes nothing else; each mode is turned round as
often as there are commands for it; and a session goes on, entry by entry, exactly up to the first
farewell at the start of an entry, the first interrupt or the end of the input. -/
theorem transcript_of_entries (limits : Limits) (modes : Modes) :
    (∀ (before : List Entry) (entry : Entry) (after : List Reply), entry.command? = none →
      transcript limits modes (Entry.allReplies before ++ after) =
        banner :: Entry.blocks limits modes before ++
          converse limits (start (Entry.modesAfterAll modes before)) after ∧
      transcript limits modes (Entry.allReplies before ++ entry.replies ++ after) =
        banner :: Entry.blocks limits modes before ++
          entry.block limits (Entry.modesAfterAll modes before) ++
          converse limits (start (Entry.modesAfterAll modes before)) after) ∧
    (∀ before : List Entry,
      (Entry.modesAfterAll modes before).tokens =
        not^[before.countP fun entry => entry.command? = some .toggleTokens] modes.tokens ∧
      (Entry.modesAfterAll modes before).json =
        not^[before.countP fun entry => entry.command? = some .toggleJson] modes.json) ∧
    ∀ replies : List Reply, ∃ entries lines, Open lines ∧
      ((replies = Entry.allReplies entries ++ lines.map .line ∧
        transcript limits modes replies =
          banner :: Entry.blocks limits modes entries ++ asked lines ++
            [.output (prompt ⟨Entry.modesAfterAll modes entries, lines⟩), parting .endOfInput]) ∨
      ∃ reply rest, Leaves ⟨Entry.modesAfterAll modes entries, lines⟩ reply ∧
        replies = Entry.allReplies entries ++ lines.map .line ++ reply :: rest ∧
        transcript limits modes replies =
          banner :: Entry.blocks limits modes entries ++ asked lines ++
            (.output (prompt ⟨Entry.modesAfterAll modes entries, lines⟩) :: echo reply ++
              [parting reply])) := by
  refine ⟨fun before entry after hcommand => ⟨transcript_append before after, ?_⟩,
    fun before => ⟨Entry.iterate_not_of_modesAfter (fun entry _ => entry.tokens_modesAfter) before,
      Entry.iterate_not_of_modesAfter (fun entry _ => entry.json_modesAfter) before⟩,
    fun replies => ?_⟩
  · have hmodes : entry.modesAfter (Entry.modesAfterAll modes before) =
        Entry.modesAfterAll modes before := by rw [Entry.modesAfter, hcommand]; rfl
    rw [List.append_assoc, transcript_append, Entry.converse_replies, hmodes, List.append_assoc]
  · obtain ⟨entries, lines, hopen, hdivision⟩ := exists_division modes .nil replies
    rw [List.map_nil, List.nil_append] at hdivision
    refine ⟨entries, lines, hopen, ?_⟩
    rcases hdivision with rfl | ⟨reply, rest, hleaves, rfl⟩
    · refine .inl ⟨rfl, ?_⟩
      rw [transcript_append, ← List.append_nil (lines.map Reply.line), converse_of_open hopen,
        ← List.append_assoc]
      rfl
    · refine .inr ⟨reply, rest, hleaves, rfl, ?_⟩
      rw [List.append_assoc, transcript_append, converse_of_open hopen, converse_of_leaves hleaves,
        ← List.append_assoc]

/-- A failure in the body of a function drops the line before it, and the mode stays on. -/
theorem transcript_of_failure_in_body :
    ∃ before entry : Entry, before.replies = [.line "tokens-mode"] ∧
      entry.replies = [.line "fn f() \x7b", .failure ⟨"RuntimeError", [.text "boom"]⟩] ∧
      entry.command? = none ∧
      transcript ⟨100, 100, 100⟩ ⟨false, false⟩
          ([.line "tokens-mode"] ++ entry.replies ++ [.line "exit"]) =
        banner :: before.block ⟨100, 100, 100⟩ ⟨false, false⟩ ++
          entry.block ⟨100, 100, 100⟩ ⟨true, false⟩ ++
          converse ⟨100, 100, 100⟩ (start ⟨true, false⟩) [.line "exit"] := by
  let before : Entry := .complete [] "tokens-mode" .nil (fun _ => by decide +kernel)
    (by decide +kernel)
  let entry : Entry := .cut ["fn f() \x7b"] ⟨"RuntimeError", [.text "boom"]⟩
    (.snoc .nil (fun _ => by decide +kernel) (by decide +kernel))
  have hmodes : Entry.modesAfterAll ⟨false, false⟩ [before] = ⟨true, false⟩ := by decide +kernel
  have htranscript :=
    ((transcript_of_entries ⟨100, 100, 100⟩ ⟨false, false⟩).1 [before] entry [.line "exit"] rfl).2
  rw [hmodes] at htranscript
  refine ⟨before, entry, rfl, rfl, rfl, htranscript.trans ?_⟩
  rw [Entry.blocks, Entry.blocks, List.append_nil]

end Session

end BoSyntax
