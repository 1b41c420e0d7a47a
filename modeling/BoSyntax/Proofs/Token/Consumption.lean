import BoSyntax.Proofs.Token.Streaming
import Mathlib.Data.List.Induction

/-!
# What a cursor keeps count of

A text may be read from any offset, also from before it or past its end, with any line and column
to count on from, and by any calls in any order. Whatever is called and whatever fails, nothing but
the reading of one character moves the cursor. So its place is told at every moment by where it
started and by the characters that were consumed since.
-/

namespace BoSyntax

namespace TextCursor

/-! ## Characters consumed -/

/-- From one cursor to a later one characters are consumed: each is read where the one before left
off, before the end of the text and where what is in sight is as wanted. -/
inductive ConsumesWhile (wanted : Option Char → Bool) :
    TextCursor → List Char → TextCursor → Prop
  | nil {c} : ConsumesWhile wanted c [] c
  | cons {c d e a chars} : c.atEnd = false → wanted (c.peek 0) = true → Scan.next c = .ok a d →
    ConsumesWhile wanted d chars e → ConsumesWhile wanted c (a :: chars) e

/-- From one cursor to a later one characters are consumed, whatever is in sight. -/
abbrev Consumes : TextCursor → List Char → TextCursor → Prop :=
  ConsumesWhile fun _ => true

/-- The place of a later cursor is told by an earlier one and the characters between them: the
offset by their number, the line by the line feeds among them, and the column by those since the
last line feed, or by all of them if there is none. -/
structure Tracks (c : TextCursor) (chars : List Char) (d : TextCursor) : Prop where
  source : d.source = c.source
  offset : d.offset - c.offset = chars.length
  line : d.line - c.line = chars.count '\n'
  column : d.column =
    if '\n' ∈ chars then (1 : Int) + (chars.reverse.takeWhile (· ≠ '\n')).length
    else c.column + chars.length

variable {wanted : Option Char → Bool} {c d e : TextCursor} {chars more : List Char} {a : Char}

/-- Reading goes past a character before the end of the text, or leaves the cursor where it is. -/
theorem next_eq_or (c : TextCursor) :
    (∃ fault, Scan.next c = .error fault c) ∨
      c.atEnd = false ∧ ∃ a, Scan.next c = .ok a (c.after a) := by
  rw [Scan.next, get_bind]
  cases hend : c.atEnd with
  | true => exact .inl ⟨_, rfl⟩
  | false =>
    cases placeOfIndex c.source.size c.offset with
    | error fault => exact .inl ⟨_, rfl⟩
    | ok place => exact .inr ⟨rfl, _, rfl⟩

/-- A character is read before the end only, and the cursor moves behind it. -/
theorem of_next_eq_ok (h : Scan.next c = .ok a d) : c.atEnd = false ∧ d = c.after a := by
  rcases next_eq_or c with ⟨fault, hfault⟩ | ⟨hend, b, hnext⟩
  · cases h.symm.trans hfault
  · cases h.symm.trans hnext
    exact ⟨hend, rfl⟩

/-- A cursor is left where it was when no character can be read. -/
theorem eq_of_next_eq_error {fault : ReadFault} (h : Scan.next c = .error fault d) : d = c := by
  rcases next_eq_or c with ⟨fault', hfault⟩ | ⟨-, b, hnext⟩
  · cases h.symm.trans hfault
    rfl
  · cases h.symm.trans hnext

/-- To read a character consumes it. -/
theorem consumes_of_next (h : Scan.next c = .ok a d) : c.Consumes [a] d :=
  .cons (of_next_eq_ok h).1 rfl h .nil

/-- What is consumed as wanted is consumed. -/
theorem ConsumesWhile.consumes (h : c.ConsumesWhile wanted chars d) : c.Consumes chars d := by
  induction h with
  | nil => exact .nil
  | cons hend _ hnext _ ih => exact .cons hend rfl hnext ih

/-- What is consumed in two parts is consumed as a whole. -/
theorem ConsumesWhile.append (h : c.ConsumesWhile wanted chars d)
    (h' : d.ConsumesWhile wanted more e) : c.ConsumesWhile wanted (chars ++ more) e := by
  induction h with
  | nil => exact h'
  | cons hend hwanted hnext _ ih => exact .cons hend hwanted hnext (ih h')

/-- Between any two of the characters that are consumed there is a moment. -/
theorem ConsumesWhile.exists_of_append (h : c.ConsumesWhile wanted (chars ++ more) e) :
    ∃ d, c.ConsumesWhile wanted chars d ∧ d.ConsumesWhile wanted more e := by
  induction chars generalizing c with
  | nil => exact ⟨c, .nil, h⟩
  | cons a chars ih =>
    cases h with
    | cons hend hwanted hnext h =>
      obtain ⟨d, hchars, hmore⟩ := ih h
      exact ⟨d, .cons hend hwanted hnext hchars, hmore⟩

/-- Going past characters one after the other keeps count of them. -/
theorem tracks_foldl_after (c : TextCursor) (chars : List Char) :
    c.Tracks chars (chars.foldl after c) := by
  induction chars using List.reverseRecOn with
  | nil => exact ⟨rfl, by simp, by simp, by simp⟩
  | append_singleton chars a ih =>
    rw [List.foldl_append, List.foldl_cons, List.foldl_nil]
    have hoffset := ih.offset
    have hline := ih.line
    have hcolumn := ih.column
    by_cases ha : a = '\n'
    · subst ha
      refine ⟨by simp [after, ih.source], ?_, ?_, ?_⟩
      · simp [after]
        omega
      · simp [after]
        omega
      · simp [after]
    · refine ⟨by simp [after, ha, ih.source], ?_, ?_, ?_⟩
      · simp [after, ha]
        omega
      · simp [after, ha, hline]
      · by_cases hmem : '\n' ∈ chars <;> simp [after, ha, hmem, hcolumn, Ne.symm ha] <;> omega

/-- The later cursor is the earlier one moved behind each character. -/
theorem ConsumesWhile.eq_foldl (h : c.ConsumesWhile wanted chars d) : d = chars.foldl after c := by
  induction h with
  | nil => rfl
  | cons _ _ hnext _ ih =>
    rw [ih, (of_next_eq_ok hnext).2]
    rfl

/-- The characters that are consumed tell the place of the cursor. -/
theorem ConsumesWhile.tracks (h : c.ConsumesWhile wanted chars d) : c.Tracks chars d :=
  h.eq_foldl ▸ tracks_foldl_after c chars

end TextCursor

namespace Scan

open TextCursor

variable {α β : Type} {wanted : Option Char → Bool} {c d : TextCursor} {chars : List Char}

/-! ## Reading on -/

/-- What comes of reading on from a cursor for so many characters at most: it stops there, at the
end of the text or where what is in sight is not as wanted, or it fails where the next character is
wanted and cannot be read. -/
inductive ReadsOn (wanted : Option Char → Bool) (count : Nat) (c : TextCursor) :
    EStateM.Result ReadFault TextCursor (List Char) → Prop
  | stops {chars : List Char} {d : TextCursor} : c.ConsumesWhile wanted chars d →
    (chars.length = count ∨ d.atEnd = true ∨ wanted (d.peek 0) = false) →
    ReadsOn wanted count c (.ok chars d)
  | fails {chars : List Char} {fault : ReadFault} {d : TextCursor} :
    c.ConsumesWhile wanted chars d →
    d.atEnd = false → wanted (d.peek 0) = true → next d = .error fault d →
    ReadsOn wanted count c (.error fault d)

/-- Taking up to so many characters consumes those that are wanted. -/
theorem takeUpTo_readsOn (wanted : Option Char → Bool) (count : Nat) (c : TextCursor) :
    ReadsOn wanted count c (takeUpTo wanted count c) := by
  induction count generalizing c with
  | zero => exact .stops .nil (.inl rfl)
  | succ count ih =>
    rw [takeUpTo, get_bind]
    by_cases hstop : (c.atEnd || !wanted (c.peek 0)) = true
    · rw [if_pos hstop]
      rw [Bool.or_eq_true, Bool.not_eq_true'] at hstop
      exact .stops .nil (.inr hstop)
    · rw [if_neg hstop]
      simp only [Bool.or_eq_true, Bool.not_eq_true', not_or, Bool.not_eq_true,
        Bool.not_eq_false] at hstop
      obtain ⟨hend, hwanted⟩ := hstop
      cases hnext : next c with
      | error fault d =>
        rw [bind_of_eq_error hnext]
        obtain rfl := eq_of_next_eq_error hnext
        exact .fails .nil hend hwanted hnext
      | ok a d =>
        rw [bind_of_eq_ok hnext]
        have hreads := ih d
        cases hrest : takeUpTo wanted count d with
        | error fault e =>
          rw [hrest] at hreads
          rw [bind_of_eq_error hrest]
          cases hreads with
          | fails hchars hend' hwanted' hfault =>
            exact .fails (.cons hend hwanted hnext hchars) hend' hwanted' hfault
        | ok chars e =>
          rw [hrest] at hreads
          rw [bind_of_eq_ok hrest]
          cases hreads with
          | stops hchars hstop =>
            exact .stops (.cons hend hwanted hnext hchars) (hstop.imp_left (congrArg (· + 1)))

/-- Taking characters consumes those that are wanted, as far as the text goes. -/
theorem takeWhile_readsOn (wanted : Option Char → Bool) (c : TextCursor) :
    ReadsOn wanted c.remaining c (takeWhile wanted c) :=
  takeUpTo_readsOn wanted c.remaining c

/-- Reading on gives what it consumes, and stops at the end of the text or where what is in sight is
not as wanted. -/
theorem of_takeWhile_eq_ok (h : takeWhile wanted c = .ok chars d) :
    c.ConsumesWhile wanted chars d ∧ (d.atEnd = true ∨ wanted (d.peek 0) = false) := by
  have hreads := takeWhile_readsOn wanted c
  rw [h] at hreads
  cases hreads with
  | stops hchars hstop =>
    refine ⟨hchars, hstop.elim (fun hcount => .inl ?_) id⟩
    -- As many characters as are left lead to the end.
    have htracks := hchars.tracks
    have hoffset := htracks.offset
    rw [atEnd, htracks.source, decide_eq_true_iff]
    rw [hcount, remaining] at hoffset
    omega

/-- Reading on fails where the next character is wanted and cannot be read. -/
theorem of_takeWhile_eq_error {fault : ReadFault} (h : takeWhile wanted c = .error fault d) :
    ∃ chars, c.ConsumesWhile wanted chars d ∧ d.atEnd = false ∧ wanted (d.peek 0) = true ∧
      next d = .error fault d := by
  have hreads := takeWhile_readsOn wanted c
  rw [h] at hreads
  cases hreads with
  | fails hchars hend hwanted hfault => exact ⟨_, hchars, hend, hwanted, hfault⟩

/-! ## Steps that only consume -/

/-- A step moves the cursor by consuming characters only, also when it fails. -/
def Consuming (step : Scan α) : Prop :=
  ∀ c : TextCursor, ∃ chars, c.Consumes chars (c.apply step).2

/-- To give a value consumes nothing. -/
theorem consuming_pure (value : α) : Consuming (pure value) :=
  fun _ => ⟨[], .nil⟩

/-- To fail consumes nothing. -/
theorem consuming_throw (fault : ReadFault) : Consuming (throw fault : Scan α) :=
  fun _ => ⟨[], .nil⟩

/-- To look at the cursor consumes nothing. -/
theorem consuming_get : Consuming (get : Scan TextCursor) :=
  fun _ => ⟨[], .nil⟩

/-- One step after another consumes what the two consume. -/
theorem Consuming.bind {first : Scan α} {rest : α → Scan β} (h : Consuming first)
    (hrest : ∀ value, Consuming (rest value)) : Consuming (first >>= rest) := by
  intro c
  obtain ⟨chars, hchars⟩ := h c
  rw [TextCursor.apply] at hchars
  cases hfirst : first c with
  | error fault d =>
    rw [hfirst] at hchars
    exact ⟨chars, by rwa [TextCursor.apply, bind_of_eq_error hfirst]⟩
  | ok value d =>
    rw [hfirst] at hchars
    obtain ⟨more, hmore⟩ := hrest value d
    refine ⟨chars ++ more, ?_⟩
    rw [TextCursor.apply, bind_of_eq_ok hfirst]
    exact hchars.append hmore

/-- To change the value changes nothing about what is consumed. -/
theorem Consuming.map {step : Scan α} (f : α → β) (h : Consuming step) :
    Consuming (f <$> step) := by
  intro c
  rw [apply_map]
  exact h c

/-- To read a character consumes it or fails. -/
theorem consuming_next : Consuming next := by
  intro c
  rw [TextCursor.apply]
  cases h : next c with
  | ok a d => exact ⟨[a], consumes_of_next h⟩
  | error fault d => exact ⟨[], eq_of_next_eq_error h ▸ .nil⟩

/-- To take characters consumes them. -/
theorem consuming_takeWhile (wanted : Option Char → Bool) : Consuming (takeWhile wanted) := by
  intro c
  rw [TextCursor.apply]
  cases h : takeWhile wanted c with
  | ok chars d => exact ⟨chars, (of_takeWhile_eq_ok h).1.consumes⟩
  | error fault d =>
    obtain ⟨chars, hchars, -⟩ := of_takeWhile_eq_error h
    exact ⟨chars, hchars.consumes⟩

/-- To skip spacing consumes it. -/
theorem consuming_skipSpacing : Consuming skipSpacing :=
  (consuming_takeWhile _).map _

/-- To scan a token from its first character consumes what it has. -/
theorem consuming_tokenFrom (a : Char) (start : Position) : Consuming (tokenFrom a start) := by
  unfold tokenFrom
  split
  · exact consuming_next.bind fun _ => consuming_pure _
  · split
    · exact (consuming_takeWhile _).bind fun _ => consuming_pure _
    · split
      · exact (consuming_takeWhile _).bind fun _ => consuming_pure _
      · exact consuming_throw _

/-- To scan a token consumes the spacing before it and what it has. -/
theorem consuming_nextToken : Consuming nextToken := by
  refine consuming_skipSpacing.bind fun _ => consuming_get.bind fun cursor => ?_
  dsimp only
  split
  · exact consuming_pure _
  · split
    · exact consuming_throw _
    · exact consuming_tokenFrom _ _

/-! ## Calls -/

/-- The calls by which a text can be read and looked at. -/
inductive Call where
  | next
  | peek (distance : Int)
  | atEnd
  | takeWhile (wanted : Option Char → Bool)
  | skipSpacing
  | nextToken

/-- What a call is answered with. -/
inductive Answer where
  | character (c : Char)
  | sight (found : Option Char)
  | truth (holds : Bool)
  | characters (chars : List Char)
  | skipped
  | token (token : Token)

/-- The step that answers a call. -/
def Call.step : Call → Scan Answer
  | .next => .character <$> Scan.next
  | .peek distance => return .sight ((← get).peek distance)
  | .atEnd => return .truth (← get).atEnd
  | .takeWhile wanted => .characters <$> Scan.takeWhile wanted
  | .skipSpacing => (fun _ => .skipped) <$> Scan.skipSpacing
  | .nextToken => .token <$> Scan.nextToken

/-- Answers calls one after the other, each from where the one before left the cursor. -/
def answerAll : List Call → TextCursor → List (Except ReadFault Answer) × TextCursor
  | [], cursor => ([], cursor)
  | call :: calls, cursor =>
    let (answer, cursor) := cursor.apply call.step
    let (answers, cursor) := answerAll calls cursor
    (answer :: answers, cursor)

/-- A changed value comes of the value of the step. -/
theorem of_apply_map_eq_ok {f : α → β} {step : Scan α} {value : β}
    (h : c.apply (f <$> step) = (.ok value, d)) : ∃ a, step c = .ok a d ∧ value = f a := by
  rw [apply_map, TextCursor.apply] at h
  cases hstep : step c with
  | ok a e =>
    rw [hstep] at h
    cases h
    exact ⟨a, rfl, rfl⟩
  | error fault e =>
    rw [hstep] at h
    cases h

/-- To change the value changes nothing about a fault. -/
theorem of_apply_map_eq_error {f : α → β} {step : Scan α} {fault : ReadFault}
    (h : c.apply (f <$> step) = (.error fault, d)) : step c = .error fault d := by
  rw [apply_map, TextCursor.apply] at h
  cases hstep : step c with
  | ok a e =>
    rw [hstep] at h
    cases h
  | error fault e =>
    rw [hstep] at h
    cases h
    rfl

/-- Every call moves the cursor by consuming characters only. -/
theorem Call.consuming_step (call : Call) : Consuming call.step := by
  cases call with
  | next => exact consuming_next.map _
  | peek distance => exact consuming_get.bind fun _ => consuming_pure _
  | atEnd => exact consuming_get.bind fun _ => consuming_pure _
  | takeWhile wanted => exact (consuming_takeWhile wanted).map _
  | skipSpacing => exact consuming_skipSpacing.map _
  | nextToken => exact consuming_nextToken.map _

/-- Calls one after the other move the cursor by consuming characters only. -/
theorem exists_consumes_answerAll (calls : List Call) (c : TextCursor) :
    ∃ chars, c.Consumes chars (answerAll calls c).2 := by
  induction calls generalizing c with
  | nil => exact ⟨[], .nil⟩
  | cons call calls ih =>
    obtain ⟨chars, hchars⟩ := call.consuming_step c
    obtain ⟨more, hmore⟩ := ih (c.apply call.step).2
    exact ⟨chars ++ more, hchars.append hmore⟩

/-- Reading keeps count of offset, line and column. From any cursor and by any calls, whatever
fails, the cursor comes to a place that is told by the characters consumed since, and so it is at
every moment on the way. Looking moves nothing, and neither does a character that cannot be read.
Reading on gives the characters that it consumes and stops at the end of the text or at the first
place where what is in sight is not as wanted; it fails only where the next character cannot be
read. -/
theorem answerAll_tracks :
    (∀ (start : TextCursor) (calls : List Call), ∃ chars,
      start.Consumes chars (answerAll calls start).2 ∧
      ∀ before after, chars = before ++ after → ∃ d, start.Consumes before d ∧
        d.Consumes after (answerAll calls start).2 ∧ start.Tracks before d) ∧
    ∀ c : TextCursor,
      (∀ distance, c.apply (Call.peek distance).step = (.ok (.sight (c.peek distance)), c)) ∧
      c.apply Call.atEnd.step = (.ok (.truth c.atEnd), c) ∧
      (∀ answer d, c.apply Call.next.step = (.ok answer, d) →
        ∃ a, answer = .character a ∧ c.Consumes [a] d) ∧
      (∀ fault d, c.apply Call.next.step = (.error fault, d) → d = c) ∧
      (∀ wanted answer d, c.apply (Call.takeWhile wanted).step = (.ok answer, d) → ∃ chars,
        answer = .characters chars ∧ c.ConsumesWhile wanted chars d ∧
          (d.atEnd = true ∨ wanted (d.peek 0) = false)) ∧
      ∀ wanted fault d, c.apply (Call.takeWhile wanted).step = (.error fault, d) → ∃ chars,
        c.ConsumesWhile wanted chars d ∧ d.atEnd = false ∧ wanted (d.peek 0) = true ∧
          next d = .error fault d := by
  refine ⟨fun start calls => ?_, fun c => ⟨fun _ => rfl, rfl, fun answer d h => ?_,
    fun fault d h => ?_, fun wanted answer d h => ?_, fun wanted fault d h => ?_⟩⟩
  · obtain ⟨chars, hchars⟩ := exists_consumes_answerAll calls start
    refine ⟨chars, hchars, fun before after heq => ?_⟩
    obtain ⟨d, hbefore, hafter⟩ := (heq ▸ hchars).exists_of_append
    exact ⟨d, hbefore, hafter, hbefore.tracks⟩
  · obtain ⟨a, hnext, rfl⟩ := of_apply_map_eq_ok h
    exact ⟨a, rfl, consumes_of_next hnext⟩
  · exact eq_of_next_eq_error (of_apply_map_eq_error h)
  · obtain ⟨chars, hchars, rfl⟩ := of_apply_map_eq_ok h
    exact ⟨chars, rfl, of_takeWhile_eq_ok hchars⟩
  · exact of_takeWhile_eq_error (of_apply_map_eq_error h)

/-- From before the start of a text the last character is read, and later on once more. -/
example : (answerAll [.next, .takeWhile fun _ => true] ⟨#['a', '\n'], -1, 7, 3⟩).2 =
    ⟨#['a', '\n'], 2, 9, 1⟩ := by
  rfl

end Scan

end BoSyntax
