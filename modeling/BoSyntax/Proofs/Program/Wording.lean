import BoSyntax.CommandLine.Run
import BoSyntax.Proofs.Grammar.Mirror
import BoSyntax.Proofs.Node.Numbers
import BoSyntax.Proofs.Program.Inventory
import BoSyntax.Proofs.Program.Spelling

/-!
# What the words of tokens decide

Tokens have words and places, and only the words decide what becomes of them: the program, up to
positions, or the objection and the number of the token that is objected to. The listing of the
tokens of a text tells their words and nothing else, so it decides what becomes of the text.
-/

namespace BoSyntax

open BoSyntax.Language TokenCursor

/-! ## Tokens by their words -/

namespace Token

/-- Tokens of some words, each on the line of its number. -/
def numbered (words : List Word) : List Token :=
  words.zipIdx.map fun entry => ⟨entry.1.1, entry.1.2, ⟨entry.2, 0⟩⟩

/-- Tokens numbered in place of their positions have the same words. -/
theorem map_word_numbered (words : List Word) : (numbered words).map word = words := by
  refine List.ext_getElem (by simp [numbered]) fun i hi hi' => ?_
  simp [numbered, word]

/-- From the lines of numbered tokens to the places of others. -/
def placeIn (tokens : List Token) (place : Position) : Position :=
  (tokens[place.line.toNat]?.map Token.start).getD place

/-- All tokens of the same words are numbered tokens at other places. -/
theorem map_relocate_numbered (tokens : List Token) :
    (numbered (tokens.map word)).map (relocate (placeIn tokens)) = tokens := by
  refine List.ext_getElem (by simp [numbered]) fun i hi hi' => ?_
  simp [numbered, relocate, placeIn, word, List.getElem?_eq_getElem hi']

/-- The words of a completed list of tokens. -/
def completedWords (words : List Word) : List Word :=
  match words.getLast? with
  | none => [(.endOfInput, endLexeme)]
  | some last =>
    if last.1 = .endOfInput then words else words ++ [(.endOfInput, endLexeme)]

/-- To complete a list of tokens is to complete its words. -/
theorem map_word_complete (tokens : List Token) :
    (complete tokens).map word = completedWords (tokens.map word) := by
  unfold complete completedWords
  rw [List.getLast?_map]
  cases tokens.getLast? with
  | none => rfl
  | some last =>
    have hiff : last.word.1 = .endOfInput ↔ last.isEnd = true := (isEnd_iff last).symm
    simp only [Option.map_some, hiff]
    split
    · rfl
    · exact List.map_append

end Token

/-- A token that is objected to is one of the tokens, if these have an end of input. -/
theorem ParseFault.Justified.mem {depth : Nat} {tokens : List Token} {d : TokenCursor}
    {objection : Objection} {token : Token}
    (h : (rejected objection token).Justified depth (.ofTokens tokens) d)
    (hend : ∃ token ∈ tokens, token.isEnd = true) : token ∈ tokens := by
  obtain ⟨stop, hfind⟩ := Option.isSome_iff_exists.mp (List.find?_isSome.mpr hend)
  obtain ⟨hstop, before, after, htokens, hbefore⟩ := List.find?_eq_some_iff_append.mp hfind
  replace hbefore : ∀ token ∈ before, token.isEnd = false := by simpa using hbefore
  obtain ⟨hahead, hlast⟩ := ofTokens_of_eq htokens hstop hbefore
  obtain ⟨⟨s, hs, htoken⟩, -⟩ := h
  have hmem := hs.mem_concat htoken
  rw [hahead, hlast, List.mem_append, List.mem_singleton] at hmem
  rw [htokens, List.mem_append, List.mem_cons]
  exact hmem.imp_right .inl

/-! ## Messages -/

/-- What is said of a token does not depend on its place. -/
theorem Objection.message_eq_of_word {token token' : Token} (h : token.word = token'.word)
    (objection : Objection) : objection.message token = objection.message token' := by
  obtain ⟨htype, hlexeme⟩ := Token.word_eq_iff.mp h
  have hshown : token.shown = token'.shown := by
    unfold Token.shown
    rw [htype, hlexeme]
  unfold message
  rw [hshown]

/-- An objection to a token is reported with its message. -/
theorem ParseFault.exists_report (objection : Objection) (token : Token) (name : Option String) :
    ∃ report : Diagnostic, (rejected objection token).failure name = .diagnosed report ∧
      report.heading = "ParseError" ∧ report.message = objection.message token :=
  ⟨_, rfl, rfl, rfl⟩

/-! ## Verdicts -/

namespace Program

variable {limit : Nat} {tokens tokens' : List Token} {program program' : Node}

/-- The numbers of a program are those of its tokens. -/
theorem exists_token_of_hasNumber {value : Binary64} (h : ofTokens limit tokens = .ok program)
    (hvalue : program.HasNumber value) :
    ∃ token ∈ tokens, token.type = .number ∧ Binary64.read? token.lexeme = some value := by
  obtain ⟨vs, hvs, rfl⟩ := ofTokens_eq_ok_iff_statements.mp h
  have hmade := hvs.madeOf fun _ _ h => Statement.madeOf ⟨limit, h⟩
  rw [Node.HasNumber, Node.atoms, ← hmade.atoms_eq, List.mem_filterMap] at hvalue
  obtain ⟨token, hmem, hatom⟩ := hvalue
  refine ⟨token, List.takeWhile_subset _ hmem, ?_⟩
  unfold Token.atom? at hatom
  split at hatom <;> simp_all

/-- What becomes of tokens, told without their places. -/
inductive Verdict where
  /-- They are read as a program. -/
  | read (program : Node)
  /-- The token of a number is objected to, with a message. -/
  | rejected (objection : Objection) (message : String) (place : Nat)
  /-- The lexeme of a number is no number. -/
  | malformedNumber (lexeme : String)

/-- A verdict holds of tokens under a limit. Programs are told up to positions, and what is objected
to is a token of the completed list. -/
def Verdict.Holds (limit : Nat) (tokens : List Token) : Verdict → Prop
  | .read program => ∃ f, ofTokens limit tokens = .ok (program.relocate f)
  | .rejected objection message place =>
    ∃ token, (Token.complete tokens)[place]? = some token ∧
      ofTokens limit tokens = .error (.rejected objection token) ∧
      ∀ name, ∃ report, (ParseFault.rejected objection token).failure name = .diagnosed report ∧
        report.heading = "ParseError" ∧ report.message = message
  | .malformedNumber lexeme => ofTokens limit tokens = .error (.malformedNumber lexeme)

/-- Words have a verdict that holds of all tokens of these words. -/
theorem exists_verdict (limit : Nat) (words : List Word) :
    ∃ verdict : Verdict, ∀ tokens, tokens.map Token.word = words → verdict.Holds limit tokens := by
  let model := Token.numbered (Token.completedWords words)
  -- All tokens of these words, once they are completed, are the model at other places.
  have hmodel : ∀ tokens : List Token, tokens.map Token.word = words →
      model.map (Token.relocate (Token.placeIn (Token.complete tokens))) =
        Token.complete tokens := by
    rintro tokens rfl
    have hmap := Token.map_relocate_numbered (Token.complete tokens)
    rwa [Token.map_word_complete] at hmap
  have hend : ∃ token ∈ model, token.isEnd = true := by
    obtain ⟨before, stop, after, hcomplete, hstop, -⟩ :=
      exists_complete_eq (Token.numbered words)
    have hmap := hmodel _ (Token.map_word_numbered words)
    have hmem : stop ∈ before ++ stop :: after := List.mem_append_right _ List.mem_cons_self
    rw [← hcomplete, ← hmap] at hmem
    obtain ⟨token, htoken, rfl⟩ := List.mem_map.mp hmem
    exact ⟨token, htoken, hstop⟩
  have hread : ∀ tokens : List Token, tokens.map Token.word = words → ∃ f,
      model.map (Token.relocate f) = Token.complete tokens ∧ ofTokens limit tokens =
        ((ofTokens limit model).map (Node.relocate f)).mapError (ParseFault.relocate f) := by
    intro tokens hwords
    refine ⟨_, hmodel tokens hwords, ?_⟩
    rw [← ofTokens_relocate _ hend, hmodel tokens hwords, ofTokens, ofTokens,
      TokenCursor.ofTokens_complete]
  cases heq : ofTokens limit model with
  | ok program =>
    refine ⟨.read program, fun tokens hwords => ?_⟩
    obtain ⟨f, -, hf⟩ := hread tokens hwords
    exact ⟨f, by rw [hf, heq]; rfl⟩
  | error fault =>
    obtain ⟨d, hfault⟩ := justified_of_ofTokens_eq_error heq
    cases fault with
    | rejected objection token =>
      obtain ⟨place, hplace⟩ := List.getElem?_of_mem (hfault.mem hend)
      refine ⟨.rejected objection (objection.message token) place, fun tokens hwords => ?_⟩
      obtain ⟨f, hcomplete, hf⟩ := hread tokens hwords
      refine ⟨token.relocate f, ?_, by rw [hf, heq]; rfl, fun name => ?_⟩
      · rw [← hcomplete, List.getElem?_map, hplace]
        rfl
      · have hword : (token.relocate f).word = token.word := rfl
        have hmessage := objection.message_eq_of_word hword
        exact hmessage ▸ ParseFault.exists_report objection (token.relocate f) name
    | malformedNumber lexeme =>
      refine ⟨.malformedNumber lexeme, fun tokens hwords => ?_⟩
      obtain ⟨f, -, hf⟩ := hread tokens hwords
      exact hf.trans (by rw [heq]; rfl)
    | invalidNode fault => exact hfault.elim
    | exhausted => exact absurd heq ofTokens_ne_exhausted

/-- Tokens of the same words are read as equal programs, unless a number is a nan. -/
theorem equal_of_words (hwords : tokens.map Token.word = tokens'.map Token.word)
    (h : ofTokens limit tokens = .ok program) (h' : ofTokens limit tokens' = .ok program')
    (hnan : ∀ token ∈ tokens, token.type = .number → Binary64.read? token.lexeme ≠ some .nan) :
    program.equal program' = true := by
  obtain ⟨verdict, hverdict⟩ := exists_verdict limit (tokens.map Token.word)
  have hfirst := hverdict tokens rfl
  have hsecond := hverdict tokens' hwords.symm
  cases verdict with
  | read model =>
    obtain ⟨f, hf⟩ := hfirst
    obtain ⟨g, hg⟩ := hsecond
    obtain rfl : model.relocate f = program := Except.ok.inj (hf.symm.trans h)
    obtain rfl : model.relocate g = program' := Except.ok.inj (hg.symm.trans h')
    refine Node.relocate_equal_relocate fun hvalue => ?_
    obtain ⟨token, hmem, htype, hread⟩ := exists_token_of_hasNumber h hvalue
    exact hnan token hmem htype hread
  | rejected objection message place =>
    obtain ⟨token, -, herror, -⟩ := hfirst
    rw [h] at herror
    cases herror
  | malformedNumber lexeme =>
    rw [Verdict.Holds, h] at hfirst
    cases hfirst

end Program

/-! ## Listings -/

/-- Different kinds of token have different labels. -/
theorem TokenType.label_injective : Function.Injective label := by
  have hfind (type : TokenType) :
      all.find? (fun other => other.label = type.label) = some type := by
    cases type <;> rfl
  intro type type' h
  rw [← Option.some.injEq, ← hfind, h, hfind]

/-- A label is a word without spaces and parentheses. -/
theorem TokenType.notMem_label {c : Char} (h : c = ' ' ∨ c = '(') (type : TokenType) :
    c ∉ type.label.toList := by
  rcases h with rfl | rfl <;> cases type <;> simp [label]

namespace Token

variable {tokens tokens' : List Token} {source : String}

/-- A token in a listing. -/
def entry (token : Token) : String :=
  token.type.label ++ "(" ++ token.lexeme ++ ")"

/-- The entry of a token tells its word, also when its lexeme is a parenthesis. -/
theorem entry_eq_iff {token token' : Token} :
    token.entry = token'.entry ↔ token.word = token'.word := by
  constructor
  · intro h
    have hchars : token.type.label.toList ++ ('(' :: token.lexeme.toList ++ [')']) =
        token'.type.label.toList ++ ('(' :: token'.lexeme.toList ++ [')']) := by
      simpa [entry] using congrArg String.toList h
    obtain ⟨hlabel, hrest⟩ := append_inj_of_notMem (token.type.notMem_label (.inr rfl))
      (token'.type.notMem_label (.inr rfl)) (by simp) (by simp) hchars
    have htype := TokenType.label_injective (String.toList_inj.mp hlabel)
    have hlexeme : token.lexeme = token'.lexeme := by
      rw [List.append_cancel_right_eq, List.cons.injEq] at hrest
      exact String.toList_inj.mp hrest.2
    exact Prod.ext htype hlexeme
  · intro h
    obtain ⟨htype, hlexeme⟩ := word_eq_iff.mp h
    rw [entry, htype, hlexeme]
    rfl

/-- Token lists are listed alike exactly if they have the same words. -/
theorem map_entry_eq_iff : tokens.map entry = tokens'.map entry ↔
    tokens.map word = tokens'.map word := by
  induction tokens generalizing tokens' with
  | nil => simp
  | cons token tokens ih => cases tokens' <;> simp [entry_eq_iff, ih]

/-- An entry of a listing has no spaces and is not empty. -/
theorem joinable_entry {token : Token} (h : ' ' ∉ token.lexeme.toList) :
    Joinable ' ' token.entry := by
  have hlabel := token.type.notMem_label (.inl rfl)
  simp [Joinable, entry, hlabel, h]

/-- Listings tell the words of tokens, if there are no spaces in these. -/
theorem listing_eq_iff (h : ∀ token ∈ tokens, ' ' ∉ token.lexeme.toList)
    (h' : ∀ token ∈ tokens', ' ' ∉ token.lexeme.toList) :
    listing tokens = listing tokens' ↔ tokens.map word = tokens'.map word := by
  rw [← map_entry_eq_iff]
  constructor
  · intro heq
    have hjoinable {tokens : List Token} (h : ∀ token ∈ tokens, ' ' ∉ token.lexeme.toList) :
        ∀ text ∈ tokens.map entry, Joinable ' ' text :=
      List.forall_mem_map.mpr fun token hmem => joinable_entry (h token hmem)
    have hspace : " ".toList = ' ' :: [] := rfl
    exact Joinable.intercalate_inj hspace (hjoinable h) (hjoinable h') heq
  · exact congrArg (" ".intercalate ·)

/-- There are no spaces in the tokens of a text. -/
theorem space_notMem_of_ofString (h : ofString source = .ok tokens) :
    ∀ token ∈ tokens, ' ' ∉ token.lexeme.toList := by
  obtain ⟨lexemes, w, ts, -, hseg, -, rfl⟩ := ofString_eq_ok_iff.mp h
  rw [List.forall_mem_append, List.forall_mem_singleton]
  refine ⟨fun token hmem => ?_, by simp [ending, endLexeme]⟩
  obtain ⟨v, rest, hlexeme, hkind⟩ := hseg.exists_lexeme_of_mem hmem
  rw [hlexeme, String.toList_ofList]
  exact fun hspace => hkind.notMem_spacing _ hspace (by simp [spacing])

end Token

/-! ## Texts -/

namespace Program

variable {source source' : String} {name name' : Option String} {tokens tokens' : List Token}

/-- No number of a text is a nan. -/
theorem read?_ne_nan_of_ofString (h : Token.ofString source = .ok tokens) :
    ∀ token ∈ tokens, token.type = .number → Binary64.read? token.lexeme ≠ some .nan := by
  intro token hmem htype hnan
  obtain ⟨n, hn⟩ := Token.readable_of_ofString h hmem htype
  rw [hnan] at hn
  have hnatural := Binary64.isNatural_ofRatio n
  rw [← Option.some.inj hn] at hnatural
  exact hnatural

/-- Texts of the same words are read as equal programs, or reported on with the same message. -/
theorem ofStringWithin_of_words (h : Token.ofString source = .ok tokens)
    (h' : Token.ofString source' = .ok tokens')
    (hwords : tokens.map Token.word = tokens'.map Token.word) (limit : Nat) :
    (∃ program program', ofStringWithin limit source name = .ok program ∧
      ofStringWithin limit source' name' = .ok program' ∧ program.equal program' = true) ∨
    ∃ report report', ofStringWithin limit source name = .error (.diagnosed report) ∧
      ofStringWithin limit source' name' = .error (.diagnosed report') ∧
      report.heading = report'.heading ∧ report.message = report'.message := by
  obtain ⟨verdict, hverdict⟩ := exists_verdict limit (tokens.map Token.word)
  have hfirst := hverdict tokens rfl
  have hsecond := hverdict tokens' hwords.symm
  rw [ofStringWithin_of_tokens h, ofStringWithin_of_tokens h']
  cases verdict with
  | read model =>
    obtain ⟨f, hf⟩ := hfirst
    obtain ⟨g, hg⟩ := hsecond
    have hequal := equal_of_words hwords hf hg (read?_ne_nan_of_ofString h)
    exact .inl ⟨_, _, by rw [hf]; rfl, by rw [hg]; rfl, hequal⟩
  | rejected objection message place =>
    obtain ⟨token, -, hf, hreport⟩ := hfirst
    obtain ⟨token', -, hg, hreport'⟩ := hsecond
    obtain ⟨report, hfailure, hheading, hmessage⟩ := hreport name
    obtain ⟨report', hfailure', hheading', hmessage'⟩ := hreport' name'
    refine .inr ⟨report, report', ?_, ?_, hheading.trans hheading'.symm,
      hmessage.trans hmessage'.symm⟩
    · rw [hf, ← hfailure]
      rfl
    · rw [hg, ← hfailure']
      rfl
  | malformedNumber lexeme =>
    rcases fault_of_ofTokens_eq_error hfirst with ⟨_, _, hfault⟩ | ⟨token, hmem, htype, hread, -⟩
    · cases hfault
    · obtain ⟨n, hn⟩ := Token.readable_of_ofString h hmem htype
      rw [hread] at hn
      cases hn

/-- The tokens of a text are displayed if it has some. -/
theorem exists_tokens_of_succeeded {name : String}
    (h : (CommandLine.showTokens name source).succeeded = .ok true) :
    ∃ tokens, Program.tokens source (some name) = .ok tokens := by
  unfold CommandLine.showTokens at h
  cases htokens : Program.tokens source (some name) with
  | ok tokens => exact ⟨tokens, rfl⟩
  | error failure =>
    rw [htokens] at h
    cases h

/-- What the display of the tokens of a text puts out. -/
theorem standardOutput_showTokens {name : String}
    (h : Program.tokens source (some name) = .ok tokens) :
    Emission.standardOutput (CommandLine.showTokens name source).emissions =
      Token.listing tokens ++ "\n" := by
  simp [CommandLine.showTokens, h, Emission.standardOutput, tokensRecord, Emission.line,
    Emission.toOutput]

/-- Words alone decide what becomes of tokens, with the same objection to the token of the same
number if it is one, and as equal programs if no number is a nan. The listing of the tokens of a
text tells its words, so texts of one listing, and of one display, share what becomes of them. -/
theorem words_decide :
    (∀ limit words, ∃ verdict : Verdict, ∀ tokens, tokens.map Token.word = words →
      verdict.Holds limit tokens) ∧
    (∀ limit tokens tokens' program program', tokens.map Token.word = tokens'.map Token.word →
      ofTokens limit tokens = .ok program → ofTokens limit tokens' = .ok program' →
      (∀ token ∈ tokens, token.type = .number → Binary64.read? token.lexeme ≠ some .nan) →
      program.equal program' = true) ∧
    (∀ source source' name name' tokens tokens', Program.tokens source name = .ok tokens →
      Program.tokens source' name' = .ok tokens' →
      (Token.listing tokens = Token.listing tokens' ↔
        tokens.map Token.word = tokens'.map Token.word)) ∧
    ∀ source source' name name', (CommandLine.showTokens name source).succeeded = .ok true →
      (CommandLine.showTokens name' source').succeeded = .ok true →
      Emission.standardOutput (CommandLine.showTokens name source).emissions =
        Emission.standardOutput (CommandLine.showTokens name' source').emissions →
      ∀ limit,
        (∃ program program', ofStringWithin limit source (some name) = .ok program ∧
          ofStringWithin limit source' (some name') = .ok program' ∧
          program.equal program' = true) ∨
        ∃ report report', ofStringWithin limit source (some name) = .error (.diagnosed report) ∧
          ofStringWithin limit source' (some name') = .error (.diagnosed report') ∧
          report.heading = report'.heading ∧ report.message = report'.message := by
  have hlisting : ∀ source source' name name' tokens tokens',
      Program.tokens source name = .ok tokens →
      Program.tokens source' name' = .ok tokens' →
      (Token.listing tokens = Token.listing tokens' ↔
        tokens.map Token.word = tokens'.map Token.word) := by
    intro source source' name name' tokens tokens' h h'
    exact Token.listing_eq_iff (Token.space_notMem_of_ofString (tokens_eq_ok_iff.mp h))
      (Token.space_notMem_of_ofString (tokens_eq_ok_iff.mp h'))
  refine ⟨exists_verdict, fun _ _ _ _ _ => equal_of_words, hlisting, ?_⟩
  intro source source' name name' hsucceeded hsucceeded' houtput limit
  obtain ⟨tokens, h⟩ := exists_tokens_of_succeeded hsucceeded
  obtain ⟨tokens', h'⟩ := exists_tokens_of_succeeded hsucceeded'
  rw [standardOutput_showTokens h, standardOutput_showTokens h', String.append_left_inj] at houtput
  exact ofStringWithin_of_words (tokens_eq_ok_iff.mp h) (tokens_eq_ok_iff.mp h')
    ((hlisting _ _ _ _ _ _ h h').mp houtput) limit

/-- A nan is not equal to itself, so tokens with one at two places are read as two programs. -/
theorem unequal_of_nan :
    ¬((∃ program program',
        ofTokens 2 [⟨.number, "nan", ⟨1, 1⟩⟩, .ending ⟨1, 4⟩] = .ok program ∧
        ofTokens 2 [⟨.number, "nan", ⟨2, 1⟩⟩, .ending ⟨2, 4⟩] = .ok program' ∧
        program.equal program' = true) ∨
      ∃ fault fault',
        ofTokens 2 [⟨.number, "nan", ⟨1, 1⟩⟩, .ending ⟨1, 4⟩] = .error fault ∧
        ofTokens 2 [⟨.number, "nan", ⟨2, 1⟩⟩, .ending ⟨2, 4⟩] = .error fault') := by
  have hread : ofTokens 2 [⟨.number, "nan", ⟨1, 1⟩⟩, .ending ⟨1, 4⟩] =
      .ok (.program ⟨1, 1⟩ [.number ⟨1, 1⟩ .nan]) :=
    rfl
  have hread' : ofTokens 2 [⟨.number, "nan", ⟨2, 1⟩⟩, .ending ⟨2, 4⟩] =
      .ok (.program ⟨2, 1⟩ [.number ⟨2, 1⟩ .nan]) :=
    rfl
  rintro (⟨program, program', h, h', hequal⟩ | ⟨fault, fault', h, -⟩)
  · obtain rfl := Except.ok.inj (hread.symm.trans h)
    obtain rfl := Except.ok.inj (hread'.symm.trans h')
    exact Bool.false_ne_true hequal
  · rw [hread] at h
    cases h

end Program

end BoSyntax
