import BoSyntax.Grammar.Rule

/-!
# Segments of tokens

Reading takes tokens from the front of those that are ahead. The tokens between an earlier and a
later cursor form a segment, and a segment leads from a cursor to at most one other. A segment never
holds an end of input, because that token is never passed.
-/

namespace BoSyntax

/-- All other kinds of token are no end of input. -/
theorem Token.isEnd_eq_false_iff (token : Token) :
    token.isEnd = false ↔ token.type ≠ .endOfInput := by
  rw [Bool.eq_false_iff, Ne, isEnd_iff]

namespace TokenCursor

/-- From one cursor to a later one a segment of tokens is taken. -/
structure Takes (c : TokenCursor) (segment : List Token) (d : TokenCursor) : Prop where
  ahead : c.ahead = segment ++ d.ahead
  stop : d.stop = c.stop
  size : d.size = c.size

/-- The end of input is in sight exactly when no token is ahead. -/
theorem current_type_eq_endOfInput_iff (c : TokenCursor) :
    c.current.type = .endOfInput ↔ c.ahead = [] := by
  rw [← Token.isEnd_iff]
  cases h : c.ahead with
  | nil => simp [current, h, c.stop_isEnd]
  | cons token rest => simp [current, h, c.ahead_not_end token (by simp [h])]

/-- Cursors over the same tokens agree when the same tokens are ahead. -/
theorem eq_of_ahead {c d : TokenCursor} (hahead : c.ahead = d.ahead) (hstop : c.stop = d.stop)
    (hsize : c.size = d.size) : c = d := by
  cases c
  cases d
  simp_all

/-- An empty segment leads nowhere else. -/
theorem takes_nil_iff {c d : TokenCursor} : c.Takes [] d ↔ d = c := by
  constructor
  · intro h
    exact eq_of_ahead (by simpa using h.ahead.symm) h.stop h.size
  · rintro rfl
    exact ⟨rfl, rfl, rfl⟩

/-- The first token of a segment is the one in sight, and the others follow. -/
theorem takes_cons_iff {c d : TokenCursor} {token : Token} {segment : List Token} :
    c.Takes (token :: segment) d ↔
      token.type ≠ .endOfInput ∧ c.current = token ∧ c.next.Takes segment d := by
  constructor
  · intro h
    have hahead := h.ahead
    have hcurrent : c.current = token := by simp [current, hahead]
    refine ⟨?_, hcurrent, ⟨by simp [next, hahead], h.stop, h.size⟩⟩
    rw [← hcurrent, Ne, current_type_eq_endOfInput_iff, hahead]
    simp
  · rintro ⟨htype, rfl, h⟩
    rw [Ne, current_type_eq_endOfInput_iff] at htype
    obtain ⟨token, rest, hahead⟩ := List.exists_cons_of_ne_nil htype
    have hrest := h.ahead
    simp only [next, hahead, List.tail_cons] at hrest
    exact ⟨by simp [current, hahead, hrest], h.stop, h.size⟩

/-- A segment in two parts passes through a cursor between them. -/
theorem takes_append_iff {c e : TokenCursor} {first second : List Token} :
    c.Takes (first ++ second) e ↔ ∃ d, c.Takes first d ∧ d.Takes second e := by
  induction first generalizing c with
  | nil => simp [takes_nil_iff]
  | cons token first ih => simp [takes_cons_iff, ih, and_assoc]

/-- Taking nothing. -/
theorem Takes.refl (c : TokenCursor) : c.Takes [] c :=
  takes_nil_iff.mpr rfl

/-- Segments taken one after the other are taken together. -/
theorem Takes.trans {c d e : TokenCursor} {first second : List Token} (h : c.Takes first d)
    (h' : d.Takes second e) : c.Takes (first ++ second) e :=
  takes_append_iff.mpr ⟨d, h, h'⟩

/-- Any token in sight but the end of input can be taken. -/
theorem takes_current {c : TokenCursor} (h : c.current.type ≠ .endOfInput) :
    c.Takes [c.current] c.next :=
  takes_cons_iff.mpr ⟨h, rfl, Takes.refl _⟩

/-- The first tokens ahead can be taken, and then the others are ahead. -/
theorem exists_takes {c : TokenCursor} {segment rest : List Token}
    (h : c.ahead = segment ++ rest) : ∃ d, c.Takes segment d ∧ d.ahead = rest := by
  have hend : ∀ token ∈ rest, token.isEnd = false := fun token hmem =>
    c.ahead_not_end token (h ▸ List.mem_append_right _ hmem)
  have hle : rest.length ≤ c.size := by
    have hsize := c.ahead_le_size
    rw [h, List.length_append] at hsize
    omega
  exact ⟨⟨rest, c.stop, c.size, hend, c.stop_isEnd, hle⟩, ⟨h, rfl, rfl⟩, rfl⟩

/-- After a segment, fewer tokens are ahead by its length. -/
theorem Takes.length {c d : TokenCursor} {segment : List Token} (h : c.Takes segment d) :
    c.ahead.length = segment.length + d.ahead.length := by
  rw [h.ahead, List.length_append]

/-- A segment moves the position on by its length. -/
theorem Takes.position_eq_add {c d : TokenCursor} {segment : List Token} (h : c.Takes segment d) :
    d.position = c.position + segment.length := by
  have hlength := h.length
  have hsize := h.size
  have hle := c.ahead_le_size
  rw [position, position]
  omega

/-- What is in sight before a segment: its first token, or what is in sight after it. -/
theorem Takes.current {c d : TokenCursor} {segment : List Token} (h : c.Takes segment d) :
    c.current = segment.headD d.current := by
  cases segment with
  | nil => rw [takes_nil_iff.mp h]; rfl
  | cons token rest => exact (takes_cons_iff.mp h).2.1

/-- Only tokens that were ahead are taken. -/
theorem Takes.mem {c d : TokenCursor} {segment : List Token} (h : c.Takes segment d) {token : Token}
    (hmem : token ∈ segment) : token ∈ c.ahead := by
  rw [h.ahead]
  exact List.mem_append_left _ hmem

/-- What is in sight is ahead, or it is the end of input. -/
theorem current_mem (c : TokenCursor) : c.current ∈ c.ahead ++ [c.stop] := by
  rw [current]
  cases c.ahead <;> simp

/-- Only what was ahead, or the end of input, is taken or comes in sight. -/
theorem Takes.mem_concat {c d : TokenCursor} {segment : List Token} (h : c.Takes segment d)
    {token : Token} (hmem : token ∈ segment ∨ token = d.current) : token ∈ c.ahead ++ [c.stop] := by
  rw [h.ahead, ← h.stop, List.append_assoc, List.mem_append]
  rcases hmem with hmem | rfl
  · exact .inl hmem
  · exact .inr d.current_mem

end TokenCursor

end BoSyntax
