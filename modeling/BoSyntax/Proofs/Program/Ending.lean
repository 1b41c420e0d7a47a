import BoSyntax.Proofs.Program.Wording
import BoSyntax.Proofs.Token.Concatenation

/-!
# Where tokens end

Tokens are read up to the first end of input, and nothing behind it is looked at. Where there is
none it is supplied, and then only its place can differ from that of another one: it is told of an
empty program and of a token that is objected to at the end. Behind the last token of a text that
does not end in spacing it is supplied where the text ends, which is where it is read.
-/

namespace BoSyntax

open BoSyntax.Language TokenCursor

/-! ## The place of the end -/

/-- On one line every character leads to the next column. -/
theorem placeAfter_append_of_notMem (before : List Char) {text : List Char} (h : '\n' ∉ text) :
    placeAfter (before ++ text) =
      ⟨(placeAfter before).line, (placeAfter before).column + text.length⟩ := by
  induction text using List.reverseRecOn with
  | nil => simp
  | append_singleton text c ih =>
    rw [List.mem_append, List.mem_singleton, not_or] at h
    rw [← List.append_assoc, placeAfter_concat, if_neg (Ne.symm h.2), ih h.1]
    simp [Int.add_assoc]

/-- The last lexeme ends where the lexemes end. -/
theorem Segmented.placeAfter_eq {after before text : List Char} {tokens : List Token} {last : Token}
    (h : Segmented after before text tokens) (hlast : tokens.getLast? = some last) :
    placeAfter (before ++ text) =
      ⟨last.start.line, last.start.column + last.lexeme.length⟩ := by
  induction h with
  | nil => cases hlast
  | @cons before w v rest type tokens _ hlexeme hrest ih =>
    cases tokens with
    | nil =>
      obtain rfl := hrest.text_eq_nil
      rw [List.getLast?_singleton] at hlast
      obtain rfl := Option.some.inj hlast
      have hline : '\n' ∉ v := fun hmem => hlexeme.notMem_spacing '\n' hmem (by simp [spacing])
      rw [List.append_nil, ← List.append_assoc, placeAfter_append_of_notMem _ hline,
        String.length_ofList]
    | cons token tokens =>
      rw [List.getLast?_cons_cons] at hlast
      rw [← ih hlast]
      simp only [List.append_assoc]

/-- The place directly behind the last of some tokens, or the start of a text if there is none. -/
def Token.placeBehind (tokens : List Token) : Position :=
  match tokens.getLast? with
  | none => ⟨1, 1⟩
  | some last => ⟨last.start.line, last.start.column + last.lexeme.length⟩

/-- An end of input that is missing is supplied behind the last token. -/
theorem Token.complete_eq_concat {tokens : List Token}
    (h : ∀ token ∈ tokens, token.type ≠ .endOfInput) :
    complete tokens = tokens ++ [.ending (placeBehind tokens)] := by
  unfold complete placeBehind
  cases hlast : tokens.getLast? with
  | none =>
    obtain rfl := List.getLast?_eq_none_iff.mp hlast
    rfl
  | some last =>
    have hend := last.isEnd_eq_false_iff.mpr (h last (List.mem_of_getLast? hlast))
    simp only [hend]
    rfl

/-- Behind the last lexeme is where the lexemes end. -/
theorem Segmented.placeBehind_eq {after text : List Char} {tokens : List Token}
    (h : Segmented after [] text tokens) : Token.placeBehind tokens = placeAfter text := by
  unfold Token.placeBehind
  cases hlast : tokens.getLast? with
  | none =>
    obtain rfl := List.getLast?_eq_none_iff.mp hlast
    obtain rfl := h.text_eq_nil
    rfl
  | some last => exact (h.placeAfter_eq hlast).symm

/-- The tokens of a text that does not end in spacing get back the end of input that is taken from
them. -/
theorem Token.complete_dropLast_of_ofString {source : String} {tokens : List Token}
    (h : ofString source = .ok tokens) (hlast : ∀ c ∈ source.toList.getLast?, c ∉ spacing) :
    complete tokens.dropLast = tokens := by
  obtain ⟨lexemes, w, ts, hsource, hseg, hspaces, rfl⟩ := ofString_eq_ok_iff.mp h
  -- The text ends in its last lexeme.
  obtain rfl : w = [] := by
    by_contra hne
    have hw := List.getLast?_eq_some_getLast hne
    refine hlast (w.getLast hne) ?_ (hspaces _ (List.getLast_mem hne))
    rw [hsource, List.getLast?_append, hw, Option.some_or]
    exact rfl
  rw [List.append_nil] at hsource
  rw [List.dropLast_concat, complete_eq_concat hseg.type_ne_endOfInput, hseg.placeBehind_eq,
    hsource]

/-! ## Reading up to the end -/

/-- What comes behind the first end of input makes no difference to a cursor. -/
theorem TokenCursor.ofTokens_append_end {body : List Token} {stop : Token} (after : List Token)
    (hbody : ∀ token ∈ body, token.type ≠ .endOfInput) (hstop : stop.type = .endOfInput) :
    ofTokens (body ++ stop :: after) = ofTokens (body ++ [stop]) := by
  have hbody' : ∀ token ∈ body, token.isEnd = false := fun token hmem =>
    token.isEnd_eq_false_iff.mpr (hbody token hmem)
  obtain ⟨hahead, hlast⟩ := ofTokens_of_eq rfl (stop.isEnd_iff.mpr hstop) hbody'
  obtain ⟨hahead', hlast'⟩ := ofTokens_concat hbody hstop
  exact eq_of_ahead (hahead.trans hahead'.symm) (hlast.trans hlast'.symm)
    (congrArg List.length (hahead.trans hahead'.symm))

namespace Program

variable {limit : Nat} {body : List Token} {stop stop' : Token}

/-- Outcomes that differ at most in the place of the end of input: they are the same, or both are
the empty program that stands there, or there the same is objected to in the same words. -/
inductive AlikeButFor (stop stop' : Token) :
    Except ParseFault Node → Except ParseFault Node → Prop
  | same (outcome) : AlikeButFor stop stop' outcome outcome
  | empty : AlikeButFor stop stop' (.ok (.program stop.start [])) (.ok (.program stop'.start []))
  | atEnd {objection} : Objection.message stop objection = Objection.message stop' objection →
    AlikeButFor stop stop' (.error (.rejected objection stop)) (.error (.rejected objection stop'))

/-- There are no statements without tokens. -/
theorem eq_nil_of_statements {S : Language Node} (hnonempty : ∀ s v, S s v → s ≠ [])
    {vs : List Node} (h : Statements S [] vs) : vs = [] := by
  generalize hs : [] = s at h
  cases h with
  | none => rfl
  | more h _ _ => exact absurd (List.append_eq_nil_iff.mp hs.symm).1 (hnonempty _ _ h)

/-- Lists that differ in their last tokens differ nowhere else. -/
theorem eq_or_of_getElem?_concat {place : Nat} {token token' : Token}
    (h : (body ++ [stop])[place]? = some token) (h' : (body ++ [stop'])[place]? = some token') :
    token = token' ∨ token = stop ∧ token' = stop' := by
  rcases Nat.lt_or_ge place body.length with hlt | hge
  · rw [List.getElem?_append_left hlt] at h h'
    exact .inl (Option.some.inj (h.symm.trans h'))
  · rw [List.getElem?_append_right hge, List.getElem?_singleton] at h h'
    by_cases hlast : place - body.length = 0
    · rw [if_pos hlast] at h h'
      exact .inr ⟨(Option.some.inj h).symm, (Option.some.inj h').symm⟩
    · rw [if_neg hlast] at h
      cases h

/-- Tokens that form a program form the same one with another end of input, but for the place of a
program without statements. -/
theorem alikeButFor_of_ok {program : Node} (hbody : ∀ token ∈ body, token.type ≠ .endOfInput)
    (hstop : stop.type = .endOfInput) (hstop' : stop'.type = .endOfInput)
    (h : ofTokens limit (body ++ [stop]) = .ok program) :
    AlikeButFor stop stop' (ofTokens limit (body ++ [stop]))
      (ofTokens limit (body ++ [stop'])) := by
  rw [ofTokens_eq_ok_iff_programOf hbody hstop, programOf_concat_iff] at h
  obtain ⟨-, vs, hvs, rfl⟩ := h
  have hread : ∀ {stop : Token}, stop.type = .endOfInput →
      ofTokens limit (body ++ [stop]) = .ok (.program (body.headD stop).start vs) :=
    fun hstop => (ofTokens_eq_ok_iff_programOf hbody hstop).mpr
      (programOf_concat_iff.mpr ⟨hstop, vs, hvs, rfl⟩)
  rw [hread hstop, hread hstop']
  cases body with
  | nil =>
    obtain rfl := eq_nil_of_statements (fun _ _ h => h.starts.ne_nil) hvs
    exact .empty
  | cons token rest => exact .same _

/-- Tokens that form no program meet the same fault with another end of input, but for its place. -/
theorem alikeButFor_of_error {fault : ParseFault} (hword : stop.word = stop'.word)
    (hstop : stop.type = .endOfInput) (hstop' : stop'.type = .endOfInput)
    (h : ofTokens limit (body ++ [stop]) = .error fault) :
    AlikeButFor stop stop' (ofTokens limit (body ++ [stop]))
      (ofTokens limit (body ++ [stop'])) := by
  obtain ⟨verdict, hverdict⟩ := exists_verdict limit ((body ++ [stop]).map Token.word)
  have hfirst := hverdict _ rfl
  have hsecond := hverdict (body ++ [stop']) (by simp [hword])
  cases verdict with
  | read program =>
    obtain ⟨f, hf⟩ := hfirst
    rw [h] at hf
    cases hf
  | rejected objection message place =>
    obtain ⟨token, hplace, heq, -⟩ := hfirst
    obtain ⟨token', hplace', heq', -⟩ := hsecond
    rw [Token.complete_concat (stop.isEnd_iff.mpr hstop)] at hplace
    rw [Token.complete_concat (stop'.isEnd_iff.mpr hstop')] at hplace'
    rw [heq, heq']
    obtain rfl | ⟨rfl, rfl⟩ := eq_or_of_getElem?_concat hplace hplace'
    · exact .same _
    · exact .atEnd (objection.message_eq_of_word hword)
  | malformedNumber lexeme =>
    rw [hfirst, hsecond]
    exact .same _

/-- Another end of input of the same lexeme makes no difference but for its place. -/
theorem alikeButFor (limit : Nat) (hword : stop.word = stop'.word)
    (hbody : ∀ token ∈ body, token.type ≠ .endOfInput) (hstop : stop.type = .endOfInput)
    (hstop' : stop'.type = .endOfInput) :
    AlikeButFor stop stop' (ofTokens limit (body ++ [stop]))
      (ofTokens limit (body ++ [stop'])) := by
  cases h : ofTokens limit (body ++ [stop]) with
  | ok program => exact h ▸ alikeButFor_of_ok hbody hstop hstop' h
  | error fault => exact h ▸ alikeButFor_of_error hword hstop hstop' h

/-- Tokens are read up to their first end of input. What comes behind it makes no difference. Where
there is none, the outcome is the one with any end of input of the usual lexeme but for the place of
that token. And the tokens of a text that does not end in spacing are read alike without their end
of input, because it is supplied where it was. -/
theorem ofTokens_up_to_end (limit : Nat) :
    (∀ body stop after, (∀ token ∈ body, token.type ≠ .endOfInput) → stop.type = .endOfInput →
      stop.lexeme = endLexeme →
      ofTokens limit (body ++ stop :: after) = ofTokens limit (body ++ [stop]) ∧
      AlikeButFor (.ending (Token.placeBehind body)) stop
        (ofTokens limit body) (ofTokens limit (body ++ [stop]))) ∧
    ∀ source name tokens, Program.tokens source name = .ok tokens →
      (∀ c ∈ source.toList.getLast?, c ∉ spacing) →
      Token.complete tokens.dropLast = tokens ∧
        ofTokens limit tokens.dropLast = ofTokens limit tokens := by
  have hsupply : ∀ tokens, ofTokens limit tokens = ofTokens limit (Token.complete tokens) :=
    fun tokens => by rw [ofTokens, ofTokens, TokenCursor.ofTokens_complete]
  constructor
  · intro body stop after hbody hstop hlexeme
    refine ⟨by rw [ofTokens, ofTokens, ofTokens_append_end after hbody hstop], ?_⟩
    rw [hsupply body, Token.complete_eq_concat hbody]
    exact alikeButFor limit (Token.word_eq_iff.mpr ⟨hstop, hlexeme⟩).symm hbody rfl hstop
  · intro source name tokens htokens hlast
    have hcomplete := Token.complete_dropLast_of_ofString (tokens_eq_ok_iff.mp htokens) hlast
    exact ⟨hcomplete, by rw [hsupply, hcomplete]⟩

end Program

end BoSyntax
