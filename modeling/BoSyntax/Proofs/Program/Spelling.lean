import BoSyntax.Node.Walk
import BoSyntax.Proofs.Program.WellFormed

/-!
# Spelling trees

Every well-formed tree is the tree of some text. Words, which are tokens without places, spell a
tree when all tokens of these words stand for it up to positions. Each operand is spelled in
parentheses, each property with a comma behind it, and each expression that is a statement with a
semicolon, so the words of the parts of a tree can be put together without regard to what they are.
A text has the words of a tree as its tokens when spacing stands before each of them.
-/

namespace BoSyntax

open Text BoSyntax.Language

/-- A token without its place. -/
abbrev Word := TokenType × String

/-- The word of a token. -/
def Token.word (token : Token) : Word :=
  (token.type, token.lexeme)

/-- A token by its word. -/
theorem Token.word_eq_iff {token : Token} {type : TokenType} {lexeme : String} :
    token.word = (type, lexeme) ↔ token.type = type ∧ token.lexeme = lexeme :=
  Prod.ext_iff

/-- The words are lexemes where spacing follows. -/
def Spellable (words : List Word) : Prop :=
  ∀ word ∈ words, Lexeme word.1 word.2.toList []

/-- No words are lexemes. -/
theorem spellable_nil : Spellable [] :=
  fun _ hmem => absurd hmem List.not_mem_nil

/-- Lexemes one after the other are lexemes. -/
theorem spellable_append {words words' : List Word} (h : Spellable words)
    (h' : Spellable words') : Spellable (words ++ words') :=
  List.forall_mem_append.mpr ⟨h, h'⟩

/-- Each character in the table of punctuation is a word. -/
theorem spellable_punctuation {c : Char} {type : TokenType} {words : List Word}
    (h : punctuation.lookup c = some type) (hwords : Spellable words) :
    Spellable ((type, String.singleton c) :: words) := by
  refine List.forall_mem_cons.mpr ⟨?_, hwords⟩
  simpa using Lexeme.punctuation (lookup_punctuation_eq_some_iff.mp h)

/-- An identifier is a lexeme. -/
theorem spellable_identifier {name : String} {words : List Word} (h : IsIdentifier name)
    (hwords : Spellable words) : Spellable ((.identifier, name) :: words) := by
  refine List.forall_mem_cons.mpr ⟨?_, hwords⟩
  obtain ⟨hne, hall, hword⟩ := h
  exact .identifier hne (by simpa using hword) hall (by simp)

/-- A keyword is a lexeme. -/
theorem spellable_keyword {word : String} {type : TokenType} {words : List Word}
    (h : keywords.lookup word = some type) (hwords : Spellable words) :
    Spellable ((type, word) :: words) := by
  have hmem := lookup_keywords_eq_some_iff.mp h
  refine List.forall_mem_cons.mpr ⟨.keyword (by simpa using hmem) ?_ (by simp), hwords⟩
  exact isLetter_of_mem_keywords hmem

/-! ## Texts of words -/

/-- A lexeme at the end of a text is one before spacing as well. -/
theorem Lexeme.of_spacing {type : TokenType} {v rest : List Char} (h : Lexeme type v [])
    (hspacing : ∀ c ∈ rest.head?, c ∈ spacing) : Lexeme type v rest :=
  h.of_head fun c hmem => .inl (hspacing c hmem)

/-- Words with a space before each of them. -/
def spaced (words : List Word) : List Char :=
  words.flatMap fun word => ' ' :: word.2.toList

/-- Spaced words are segmented into their tokens. -/
theorem exists_segmented_spaced {words : List Word} (h : Spellable words) (before : List Char) :
    ∃ tokens, tokens.map Token.word = words ∧ Segmented [] before (spaced words) tokens := by
  induction words generalizing before with
  | nil => exact ⟨[], rfl, .nil⟩
  | cons word words ih =>
    obtain ⟨type, lexeme⟩ := word
    obtain ⟨hlexeme, hwords⟩ := List.forall_mem_cons.mp h
    obtain ⟨tokens, hmap, hseg⟩ := ih hwords (before ++ [' '] ++ lexeme.toList)
    have hspacing : ∀ c ∈ (spaced words ++ []).head?, c ∈ spacing := by
      cases words with
      | nil => simp [spaced]
      | cons => simp [spaced, spacing]
    refine ⟨_, ?_, .cons (w := [' ']) (v := lexeme.toList) (by simp [Spaces, spacing])
      (hlexeme.of_spacing hspacing) hseg⟩
    rw [List.map_cons, hmap, Token.word, String.ofList_toList]

/-- A text of spaced words has their tokens. -/
theorem exists_ofString_spaced {words : List Word} (h : Spellable words) :
    ∃ ts place, ts.map Token.word = words ∧ (∀ token ∈ ts, token.type ≠ .endOfInput) ∧
      Token.ofString (String.ofList (spaced words)) = .ok (ts ++ [.ending place]) := by
  obtain ⟨ts, hmap, hseg⟩ := exists_segmented_spaced h []
  have hok := @Token.ofString_of_segmented (String.ofList (spaced words)) (spaced words) [] ts
    (by simp) hseg (by simp [Spaces])
  exact ⟨ts, _, hmap, hseg.type_ne_endOfInput, hok⟩

/-! ## Words of trees -/

/-- The value is spelled by some words: any tokens of these words stand for it in a language, up to
what is not told apart. -/
def Spelled {α : Type} (same : α → α → Bool) (L : Language α) (value : α) : Prop :=
  ∃ words, Spellable words ∧
    ∀ s, s.map Token.word = words → ∃ read, L s read ∧ same read value = true

/-- What is spelled in a language is spelled in a larger one. -/
theorem Spelled.imp {α : Type} {same : α → α → Bool} {L L' : Language α} {value : α}
    (h : Spelled same L value) (himp : ∀ s v, L s v → L' s v) : Spelled same L' value := by
  obtain ⟨words, hwords, hspell⟩ := h
  refine ⟨words, hwords, fun s hs => ?_⟩
  obtain ⟨read, hread, hsame⟩ := hspell s hs
  exact ⟨read, himp s read hread, hsame⟩

section Joining

variable {α β γ : Type} {same : α → α → Bool} {same' : β → β → Bool} {alike : γ → γ → Bool}
  {L : Language α} {L' : Language β} {M : Language γ} {value : α} {value' : β} {whole : γ}

/-- The words of two parts, one after the other. -/
theorem Spelled.append (h : Spelled same L value) (h' : Spelled same' L' value')
    (hwhole : ∀ s t v w, L s v → L' t w → same v value = true → same' w value' = true →
      ∃ read, M (s ++ t) read ∧ alike read whole = true) : Spelled alike M whole := by
  obtain ⟨words, hwords, hspell⟩ := h
  obtain ⟨words', hwords', hspell'⟩ := h'
  refine ⟨words ++ words', spellable_append hwords hwords', fun u hu => ?_⟩
  obtain ⟨s, t, rfl, hs, ht⟩ := List.map_eq_append_iff.mp hu
  obtain ⟨v, hv, hsame⟩ := hspell s hs
  obtain ⟨w, hw, hsame'⟩ := hspell' t ht
  exact hwhole s t v w hv hw hsame hsame'

/-- The words of two parts with a word between them. -/
theorem Spelled.joined {type : TokenType} {lexeme : String} (hword : Spellable [(type, lexeme)])
    (h : Spelled same L value) (h' : Spelled same' L' value')
    (hwhole : ∀ s token t v w, L s v → token.type = type → token.lexeme = lexeme → L' t w →
      same v value = true → same' w value' = true →
      ∃ read, M (s ++ token :: t) read ∧ alike read whole = true) : Spelled alike M whole := by
  obtain ⟨words, hwords, hspell⟩ := h
  obtain ⟨words', hwords', hspell'⟩ := h'
  refine ⟨words ++ ([(type, lexeme)] ++ words'),
    spellable_append hwords (spellable_append hword hwords'), fun u hu => ?_⟩
  obtain ⟨s, _, rfl, hs, hu⟩ := List.map_eq_append_iff.mp hu
  obtain ⟨token, t, rfl, htoken, ht⟩ := List.map_eq_cons_iff.mp hu
  obtain ⟨htype, hlexeme⟩ := Token.word_eq_iff.mp htoken
  obtain ⟨v, hv, hsame⟩ := hspell s hs
  obtain ⟨w, hw, hsame'⟩ := hspell' t ht
  exact hwhole s token t v w hv htype hlexeme hw hsame hsame'

/-- The words of a part between two characters. -/
theorem Spelled.enclosed (first last : Char) {opening closing : TokenType}
    (hopening : punctuation.lookup first = some opening)
    (hclosing : punctuation.lookup last = some closing) (h : Spelled same L value)
    (hwhole : ∀ token s token' v, token.type = opening → L s v → token'.type = closing →
      same v value = true → ∃ read, M (token :: (s ++ [token'])) read ∧ alike read whole = true) :
    Spelled alike M whole := by
  obtain ⟨words, hwords, hspell⟩ := h
  refine ⟨(opening, String.singleton first) :: (words ++ [(closing, String.singleton last)]),
    spellable_punctuation hopening
      (spellable_append hwords (spellable_punctuation hclosing spellable_nil)), fun u hu => ?_⟩
  obtain ⟨token, _, rfl, htoken, hu⟩ := List.map_eq_cons_iff.mp hu
  obtain ⟨s, _, rfl, hs, hu⟩ := List.map_eq_append_iff.mp hu
  obtain ⟨token', _, rfl, htoken', hu⟩ := List.map_eq_cons_iff.mp hu
  obtain rfl := List.map_eq_nil_iff.mp hu
  obtain ⟨v, hv, hsame⟩ := hspell s hs
  exact hwhole token s token' v (Token.word_eq_iff.mp htoken).1 hv (Token.word_eq_iff.mp htoken').1
    hsame

end Joining

section Expressions

variable {start : Position} {v left right callee owner key target value : Node} {name : String}

/-- A primary expression is an expression. -/
theorem expression_of_primary {s : List Token} (h : Primary Expression s v) : Expression s v :=
  expression_iff.mpr (.object (.sum (.base (.base (.base (.base h))))))

/-- An expression is spelled as a primary one in parentheses. -/
theorem spelled_group (h : Spelled Node.equal Expression v) :
    Spelled Node.equal (Primary Expression) v := by
  refine h.enclosed '(' ')' rfl rfl fun _ _ _ v hopening hv hclosing hsame => ?_
  exact ⟨v, .group hopening hv hclosing, hsame⟩

/-- A name is spelled by itself. -/
theorem spelled_identifier (h : IsIdentifier name) :
    Spelled Node.equal (Primary Expression) (.identifier start name) := by
  refine ⟨[(.identifier, name)], spellable_identifier h spellable_nil, fun s hs => ?_⟩
  simp only [List.map_eq_cons_iff, List.map_eq_nil_iff, Token.word_eq_iff] at hs
  obtain ⟨token, _, rfl, ⟨htype, hlexeme⟩, rfl⟩ := hs
  exact ⟨_, .name htype, by simp [Node.equal, hlexeme]⟩

/-- A number is spelled by digits that are read as it. -/
theorem spelled_number {number : Binary64} (h : number.IsNatural) :
    Spelled Node.equal (Primary Expression) (.number start number) := by
  obtain ⟨n, hn⟩ := h.exists_ofRatio
  obtain ⟨digits, hne, hall, hvalue⟩ := Binary64.exists_digits n
  refine ⟨[(.number, String.ofList digits)], ?_, fun s hs => ?_⟩
  · refine List.forall_mem_cons.mpr ⟨.number ?_ ?_ (by simp), spellable_nil⟩
    · simpa using hne
    · simpa using hall
  · simp only [List.map_eq_cons_iff, List.map_eq_nil_iff, Token.word_eq_iff] at hs
    obtain ⟨token, _, rfl, ⟨htype, hlexeme⟩, rfl⟩ := hs
    have hread : Binary64.read? token.lexeme = some number := by
      rw [hlexeme, Binary64.read?_ofList_digits hne hall, hvalue, hn]
    exact ⟨_, .number htype hread, by rw [Node.equal]; exact h.equal_self⟩

/-- A named member is spelled by its owner, a dot and the name. -/
theorem spelled_dot (howner : Spelled Node.equal (Primary Expression) owner)
    (hname : IsIdentifier name) {place : Position} :
    Spelled Node.equal (Member Expression) (.dot start owner name place) := by
  obtain ⟨words, hwords, hspell⟩ := howner
  refine ⟨words ++ (TokenType.dot, ".") :: [(.identifier, name)], ?_, fun s hs => ?_⟩
  · exact spellable_append hwords (spellable_punctuation (c := '.') rfl
      (spellable_identifier hname spellable_nil))
  · simp only [List.map_eq_cons_iff, List.map_eq_append_iff, List.map_eq_nil_iff,
      Token.word_eq_iff] at hs
    obtain ⟨s, _, rfl, hs, dot, _, rfl, ⟨hdot, -⟩, token, _, rfl, ⟨htype, hlexeme⟩, rfl⟩ := hs
    obtain ⟨read, hread, hsame⟩ := hspell s hs
    refine ⟨_, .extend (.base hread) (.dot hdot (.name htype)), ?_⟩
    simp [Node.equal, hsame, hlexeme]

/-- A computed member is spelled by its owner and the key in brackets. -/
theorem spelled_index (howner : Spelled Node.equal (Primary Expression) owner)
    (hkey : Spelled Node.equal Expression key) :
    Spelled Node.equal (Member Expression) (.index start owner key) := by
  obtain ⟨words, hwords, hspell⟩ := howner
  obtain ⟨words', hwords', hspell'⟩ := hkey
  refine ⟨words ++ (TokenType.openBracket, "[") :: (words' ++ [(TokenType.closeBracket, "]")]), ?_,
    fun s hs => ?_⟩
  · exact spellable_append hwords (spellable_punctuation (c := '[') rfl
      (spellable_append hwords' (spellable_punctuation (c := ']') rfl spellable_nil)))
  · simp only [List.map_eq_cons_iff, List.map_eq_append_iff, List.map_eq_nil_iff,
      Token.word_eq_iff] at hs
    obtain ⟨s, _, rfl, hs, opening, _, rfl, ⟨hopening, -⟩, t, _, rfl, ht, closing, _, rfl,
      ⟨hclosing, -⟩, rfl⟩ := hs
    obtain ⟨read, hread, hsame⟩ := hspell s hs
    obtain ⟨read', hread', hsame'⟩ := hspell' t ht
    refine ⟨_, .extend (.base hread) (.index hopening hread' hclosing), ?_⟩
    simp [Node.equal, hsame, hsame']

/-- Expressions are spelled one after the other with commas between them. -/
theorem spelled_items {vs : List Node} (hne : vs ≠ [])
    (h : ∀ v ∈ vs, Spelled Node.equal Expression v) :
    Spelled Node.equalAll (Items Expression) vs := by
  induction vs with
  | nil => exact absurd rfl hne
  | cons v vs ih =>
    rw [List.forall_mem_cons] at h
    cases vs with
    | nil =>
      obtain ⟨words, hwords, hspell⟩ := h.1
      refine ⟨words, hwords, fun s hs => ?_⟩
      obtain ⟨read, hread, hsame⟩ := hspell s hs
      exact ⟨_, .one hread, by simp [Node.equalAll, hsame]⟩
    | cons w vs =>
      have hcomma : Spellable [(.comma, ",")] := spellable_punctuation (c := ',') rfl spellable_nil
      refine h.1.joined hcomma (ih (by simp) h.2) fun _ _ _ _ _ hv htype _ hvs hsame hsames => ?_
      exact ⟨_, .more hv htype hvs, by rw [Node.equalAll_cons, hsame, hsames, Bool.and_self]⟩

/-- Arguments are spelled between parentheses. -/
theorem spelled_arguments {vs : List Node} (h : ∀ v ∈ vs, Spelled Node.equal Expression v) :
    Spelled Node.equalAll (Arguments Expression) vs := by
  cases vs with
  | nil =>
    refine ⟨[(.openParen, "("), (.closeParen, ")")], ?_, fun s hs => ?_⟩
    · exact spellable_punctuation (c := '(') rfl
        (spellable_punctuation (c := ')') rfl spellable_nil)
    · simp only [List.map_eq_cons_iff, List.map_eq_nil_iff, Token.word_eq_iff] at hs
      obtain ⟨opening, _, rfl, ⟨hopening, -⟩, closing, _, rfl, ⟨hclosing, -⟩, rfl⟩ := hs
      exact ⟨_, .none hopening hclosing, rfl⟩
  | cons v vs =>
    have hitems := spelled_items (by simp) h
    refine hitems.enclosed '(' ')' rfl rfl fun _ _ _ vs hopening hvs hclosing hsames => ?_
    exact ⟨vs, .some hopening hvs hclosing, hsames⟩

/-- A call is spelled by its callee and its arguments. -/
theorem spelled_call {args : List Node} (hcallee : Spelled Node.equal (Primary Expression) callee)
    (hargs : Spelled Node.equalAll (Arguments Expression) args) :
    Spelled Node.equal (Call Expression) (.call start callee args) := by
  refine hcallee.append hargs fun _ _ _ _ hv hvs hsame hsames => ?_
  refine ⟨_, .extend (.base (.base hv)) (.arguments hvs), ?_⟩
  rw [Node.equal, hsame, hsames, Bool.and_self]

/-- An operation is spelled by its operands with the operator between them. -/
theorem spelled_operation {operators : List String} {operator : String} {L : Language Node}
    (hoperator : operator ∈ operators) (hspellable : Spellable [(.binaryOperator, operator)])
    (hleft : Spelled Node.equal L left) (hright : Spelled Node.equal L right) :
    Spelled Node.equal (Operation operators L) (.binary start left right operator) := by
  refine hleft.joined hspellable hright fun _ _ _ _ _ hv htype hlexeme hw hsame hsame' => ?_
  refine ⟨_, .extend (.base hv) (.operator htype (hlexeme ▸ hoperator) hw), ?_⟩
  simp [Node.equal, hsame, hsame', hlexeme]

/-- A binary operator is that of a sum or of a product. -/
theorem spelled_binary {operator : String}
    (hoperator : operator ∈ additiveOperators ++ multiplicativeOperators)
    (hleft : Spelled Node.equal (Primary Expression) left)
    (hright : Spelled Node.equal (Primary Expression) right) :
    Spelled Node.equal (Sum Expression) (.binary start left right operator) := by
  have hspellable : Spellable [(.binaryOperator, operator)] := by
    have htable : ∀ op ∈ additiveOperators ++ multiplicativeOperators,
        ∃ c, op = String.singleton c ∧ punctuation.lookup c = some .binaryOperator := by
      simp only [additiveOperators, multiplicativeOperators, List.cons_append, List.nil_append,
        List.forall_mem_cons]
      exact ⟨⟨'+', rfl, rfl⟩, ⟨'-', rfl, rfl⟩, ⟨'*', rfl, rfl⟩, ⟨'/', rfl, rfl⟩, ⟨'%', rfl, rfl⟩,
        by simp⟩
    obtain ⟨c, rfl, hlookup⟩ := htable operator hoperator
    exact spellable_punctuation hlookup spellable_nil
  have hcall : ∀ s v, Primary Expression s v → Call Expression s v :=
    fun _ _ h => .base (.base h)
  rcases List.mem_append.mp hoperator with hmem | hmem
  · exact spelled_operation hmem hspellable (hleft.imp fun s v h => .base (hcall s v h))
      (hright.imp fun s v h => .base (hcall s v h))
  · exact (spelled_operation hmem hspellable (hleft.imp hcall) (hright.imp hcall)).imp
      fun _ _ h => .base h

/-- An assignment is spelled by its target, an equals sign and its value. -/
theorem spelled_assign (htarget : Spelled Node.equal (Primary Expression) target)
    (hvalue : Spelled Node.equal Expression v) :
    Spelled Node.equal Expression (.assign start target v) := by
  have hequals : Spellable [(.equals, "=")] := spellable_punctuation (c := '=') rfl spellable_nil
  refine htarget.joined hequals hvalue fun s _ _ v _ hv htype _ hw hsame hsame' => ?_
  have htarget : Object Expression s v := .sum (.base (.base (.base (.base hv))))
  refine ⟨_, expression_iff.mpr (.assign htarget htype hw), ?_⟩
  rw [Node.equal, hsame, hsame', Bool.and_self]

/-- A property without a value is spelled by its key. -/
theorem spelled_shorthand (h : IsIdentifier name) :
    Spelled Node.equal (Property Expression) (.shorthand start name) := by
  refine ⟨[(.identifier, name)], spellable_identifier h spellable_nil, fun s hs => ?_⟩
  simp only [List.map_eq_cons_iff, List.map_eq_nil_iff, Token.word_eq_iff] at hs
  obtain ⟨token, _, rfl, ⟨htype, hlexeme⟩, rfl⟩ := hs
  exact ⟨_, .shorthand htype, by simp [Node.equal, hlexeme]⟩

/-- A property is spelled by its key, a colon and its value. -/
theorem spelled_property (h : IsIdentifier name) (hvalue : Spelled Node.equal Expression v) :
    Spelled Node.equal (Property Expression) (.property start name v) := by
  obtain ⟨words, hwords, hspell⟩ := hvalue
  refine ⟨(.identifier, name) :: (.colon, ":") :: words, ?_, fun s hs => ?_⟩
  · exact spellable_identifier h (spellable_punctuation (c := ':') rfl hwords)
  · simp only [List.map_eq_cons_iff, Token.word_eq_iff] at hs
    obtain ⟨token, _, rfl, ⟨htype, hlexeme⟩, colon, s, rfl, ⟨hcolon, -⟩, hs⟩ := hs
    obtain ⟨read, hread, hsame⟩ := hspell s hs
    refine ⟨_, .value htype hcolon hread, ?_⟩
    simp [Node.equal, hlexeme, hsame]

/-- Properties are spelled with a comma behind each of them. -/
theorem spelled_properties {vs : List Node}
    (h : ∀ v ∈ vs, Spelled Node.equal (Property Expression) v) :
    Spelled Node.equalAll (Properties Expression) vs := by
  induction vs with
  | nil =>
    refine ⟨[], spellable_nil, fun s hs => ?_⟩
    obtain rfl := List.map_eq_nil_iff.mp hs
    exact ⟨_, .none, rfl⟩
  | cons v vs ih =>
    rw [List.forall_mem_cons] at h
    have hcomma : Spellable [(.comma, ",")] := spellable_punctuation (c := ',') rfl spellable_nil
    refine h.1.joined hcomma (ih h.2) fun _ _ _ _ _ hv htype _ hvs hsame hsames => ?_
    exact ⟨_, .more hv htype hvs, by rw [Node.equalAll_cons, hsame, hsames, Bool.and_self]⟩

/-- An object is spelled by its properties between braces. -/
theorem spelled_object {vs : List Node} (h : Spelled Node.equalAll (Properties Expression) vs) :
    Spelled Node.equal Expression (.object start vs) := by
  refine h.enclosed '{' '}' rfl rfl fun _ _ _ vs hopening hvs hclosing hsames => ?_
  have hobject : Object Expression _ _ := .braces hopening hvs hclosing
  exact ⟨_, expression_iff.mpr (.object hobject), by rw [Node.equal, hsames]⟩

end Expressions

/-! ## Words of statements -/

section Statements

variable {start : Position} {v : Node} {name : String} {vs : List Node}

/-- Statements that end in a semicolon or in a closing brace. -/
def ClosedStatement : Language Node :=
  fun s v => Statement s v ∧ Closed s

/-- Closed statements can stand in any order. -/
theorem spelled_statements (h : ∀ v ∈ vs, Spelled Node.equal ClosedStatement v) :
    Spelled Node.equalAll (Statements Statement) vs := by
  induction vs with
  | nil =>
    refine ⟨[], spellable_nil, fun s hs => ?_⟩
    obtain rfl := List.map_eq_nil_iff.mp hs
    exact ⟨_, .none, rfl⟩
  | cons v vs ih =>
    rw [List.forall_mem_cons] at h
    refine h.1.append (ih h.2) fun _ _ _ _ hv hvs hsame hsames => ?_
    refine ⟨_, .more hv.1 hvs fun _ _ _ => hv.2, ?_⟩
    rw [Node.equalAll_cons, hsame, hsames, Bool.and_self]

/-- Names that are read as arguments are read as parameters. -/
theorem forall₂_isName_of_equalAll {args : List Node} {names : List String}
    (h : Node.equalAll args (names.map (.identifier start)) = true) :
    List.Forall₂ IsName args names := by
  induction names generalizing args with
  | nil =>
    cases args with
    | nil => exact .nil
    | cons => cases h
  | cons name names ih =>
    cases args with
    | nil => cases h
    | cons arg args =>
      rw [List.map_cons, Node.equalAll_cons, Bool.and_eq_true] at h
      obtain ⟨harg, hargs⟩ := h
      obtain ⟨place, symbol, rfl⟩ := Node.kind_eq_identifier_iff.mp (Node.kind_eq_of_equal harg)
      have hname : symbol = name := by simpa [Node.equal] using harg
      exact .cons ⟨place, by rw [hname]⟩ (ih hargs)

/-- A declaration without a value is spelled by its keyword, its name and a semicolon. -/
theorem spelled_declare (h : IsIdentifier name) :
    Spelled Node.equal ClosedStatement (.declare start name) := by
  refine ⟨[(.letKeyword, "let"), (.identifier, name), (.semicolon, ";")], ?_, fun s hs => ?_⟩
  · exact spellable_keyword rfl
      (spellable_identifier h (spellable_punctuation (c := ';') rfl spellable_nil))
  · simp only [List.map_eq_cons_iff, List.map_eq_nil_iff, Token.word_eq_iff] at hs
    obtain ⟨keyword, _, rfl, ⟨hkeyword, -⟩, token, _, rfl, ⟨htype, hlexeme⟩, semicolon, _, rfl,
      ⟨hsemicolon, -⟩, rfl⟩ := hs
    refine ⟨_, ⟨statement_iff.mpr (.declare hkeyword htype hsemicolon), ?_⟩, ?_⟩
    · exact @closed_concat [keyword, token] semicolon (by simp [hsemicolon])
    · simp [Node.equal, hlexeme]

/-- A declaration with a value is spelled with an equals sign and the value. -/
theorem spelled_define {constant : Bool} (h : IsIdentifier name)
    (hvalue : Spelled Node.equal Expression v) :
    Spelled Node.equal ClosedStatement (.define start name constant v) := by
  obtain ⟨words, hwords, hspell⟩ := hvalue
  have hkeyword : ∃ word, keywords.lookup word =
      some (if constant then TokenType.constKeyword else .letKeyword) := by
    cases constant
    · exact ⟨"let", rfl⟩
    · exact ⟨"const", rfl⟩
  obtain ⟨word, hword⟩ := hkeyword
  refine ⟨(if constant then .constKeyword else .letKeyword, word) :: (.identifier, name) ::
    (.equals, "=") :: (words ++ [(TokenType.semicolon, ";")]), ?_, fun s hs => ?_⟩
  · exact spellable_keyword hword (spellable_identifier h (spellable_punctuation (c := '=') rfl
      (spellable_append hwords (spellable_punctuation (c := ';') rfl spellable_nil))))
  · simp only [List.map_eq_cons_iff, List.map_eq_append_iff, List.map_eq_nil_iff,
      Token.word_eq_iff] at hs
    obtain ⟨keyword, _, rfl, ⟨hkeyword, -⟩, token, _, rfl, ⟨htype, hlexeme⟩, equals, _, rfl,
      ⟨hequals, -⟩, s, _, rfl, hs, semicolon, _, rfl, ⟨hsemicolon, -⟩, rfl⟩ := hs
    obtain ⟨read, hread, hsame⟩ := hspell s hs
    have hform := statement_iff.mpr (.define constant hkeyword htype hequals hread hsemicolon)
    refine ⟨_, ⟨hform, ?_⟩, ?_⟩
    · exact @closed_concat (keyword :: token :: equals :: s) semicolon (by simp [hsemicolon])
    · simp [Node.equal, hlexeme, hsame]

/-- A function is spelled by its name, its parameters between parentheses and its body between
braces. -/
theorem spelled_function {parameters : List String} (h : IsIdentifier name)
    (hparameters : ∀ p ∈ parameters, IsIdentifier p)
    (hbody : Spelled Node.equalAll (Statements Statement) vs) :
    Spelled Node.equal ClosedStatement (.function start name parameters vs) := by
  have hargs :
      Spelled Node.equalAll (Arguments Expression) (parameters.map (.identifier start)) := by
    refine spelled_arguments fun v hmem => ?_
    obtain ⟨p, hp, rfl⟩ := List.mem_map.mp hmem
    exact (spelled_identifier (hparameters p hp)).imp fun _ _ h => expression_of_primary h
  obtain ⟨words, hwords, hspell⟩ := hargs
  obtain ⟨words', hwords', hspell'⟩ := hbody
  refine ⟨(.fnKeyword, "fn") :: (.identifier, name) ::
    (words ++ (TokenType.openBrace, "\x7b") :: (words' ++ [(TokenType.closeBrace, "\x7d")])), ?_,
    fun s hs => ?_⟩
  · exact spellable_keyword rfl (spellable_identifier h (spellable_append hwords
      (spellable_punctuation (c := '{') rfl (spellable_append hwords'
        (spellable_punctuation (c := '}') rfl spellable_nil)))))
  · simp only [List.map_eq_cons_iff, List.map_eq_append_iff, List.map_eq_nil_iff,
      Token.word_eq_iff] at hs
    obtain ⟨keyword, _, rfl, ⟨hkeyword, -⟩, token, _, rfl, ⟨htype, hlexeme⟩, s, _, rfl, hs,
      opening, _, rfl, ⟨hopening, -⟩, t, _, rfl, ht, closing, _, rfl, ⟨hclosing, -⟩, rfl⟩ := hs
    obtain ⟨args, hargs, hnames⟩ := hspell s hs
    obtain ⟨reads, hreads, hsames⟩ := hspell' t ht
    have hform := statement_iff.mpr (.function hkeyword htype hargs
      (forall₂_isName_of_equalAll hnames) hopening hreads hclosing)
    refine ⟨_, ⟨hform, ?_⟩, ?_⟩
    · have hclosed := @closed_concat (keyword :: token :: (s ++ opening :: t)) closing
        (by simp [hclosing])
      simpa using hclosed
    · simp [Node.equal, hlexeme, hsames]

/-- An expression with a semicolon is a statement. -/
theorem spelled_terminated (h : Spelled Node.equal Expression v) :
    Spelled Node.equal ClosedStatement v := by
  obtain ⟨words, hwords, hspell⟩ := h
  refine ⟨words ++ [(TokenType.semicolon, ";")],
    spellable_append hwords (spellable_punctuation (c := ';') rfl spellable_nil), fun s hs => ?_⟩
  simp only [List.map_eq_cons_iff, List.map_eq_append_iff, List.map_eq_nil_iff,
    Token.word_eq_iff] at hs
  obtain ⟨s, _, rfl, hs, semicolon, _, rfl, ⟨hsemicolon, -⟩, rfl⟩ := hs
  obtain ⟨read, hread, hsame⟩ := hspell s hs
  have hclosed : Closed (s ++ [semicolon]) := closed_concat (by simp [hsemicolon])
  exact ⟨read, ⟨statement_iff.mpr (.terminated hread hsemicolon), hclosed⟩, hsame⟩

end Statements

/-! ## Well-formed trees are spelled -/

/-- What it takes to spell a node in its part. -/
def SpelledAs : Node.Role → Node → Prop
  | .program, v => ∃ start body, v = .program start body ∧
    Spelled Node.equalAll (Statements Statement) body
  | .statement, v => Spelled Node.equal ClosedStatement v
  | .expression, v => Spelled Node.equal Expression v
  | .property, v => Spelled Node.equal (Property Expression) v

/-- Every well-formed tree is spelled, by the words of its parts. -/
theorem Node.WellFormed.spelled {role : Node.Role} {v : Node} (h : v.WellFormed role) :
    SpelledAs role v := by
  induction h with
  | program _ ih => exact ⟨_, _, rfl, spelled_statements ih⟩
  | declare hname => exact spelled_declare hname
  | define hname _ ih => exact spelled_define hname ih
  | function hname hparameters _ ih =>
    exact spelled_function hname hparameters (spelled_statements ih)
  | expression _ ih => exact spelled_terminated ih
  | assign _ _ ihtarget ihvalue => exact spelled_assign (spelled_group ihtarget) ihvalue
  | binary _ _ hoperator ihleft ihright =>
    exact (spelled_binary hoperator (spelled_group ihleft) (spelled_group ihright)).imp
      fun _ _ h => expression_iff.mpr (.object (.sum h))
  | call _ _ ihcallee ihargs =>
    exact (spelled_call (spelled_group ihcallee) (spelled_arguments ihargs)).imp
      fun _ _ h => expression_iff.mpr (.object (.sum (.base (.base h))))
  | dot _ hname ih =>
    exact (spelled_dot (spelled_group ih) hname).imp
      fun _ _ h => expression_iff.mpr (.object (.sum (.base (.base (.base h)))))
  | index _ _ ihowner ihkey =>
    exact (spelled_index (spelled_group ihowner) ihkey).imp
      fun _ _ h => expression_iff.mpr (.object (.sum (.base (.base (.base h)))))
  | identifier hname => exact (spelled_identifier hname).imp fun _ _ h => expression_of_primary h
  | number hvalue => exact (spelled_number hvalue).imp fun _ _ h => expression_of_primary h
  | object _ ih => exact spelled_object (spelled_properties ih)
  | shorthand hname => exact spelled_shorthand hname
  | property hname _ ih => exact spelled_property hname ih

namespace Program

variable {limit : Nat} {source : String} {name : Option String} {program : Node}

/-- A well-formed program is read from some text, up to positions, if the nesting is not limited. -/
theorem exists_ofStringWithin_of_wellFormed (h : program.WellFormed .program) :
    ∃ source least, ∀ limit, least ≤ limit → ∀ name, ∃ read,
      ofStringWithin limit source name = .ok read ∧ read.equal program = true := by
  obtain ⟨start, body, rfl, words, hwords, hspell⟩ := h.spelled
  obtain ⟨ts, place, hmap, htypes, htokens⟩ := exists_ofString_spaced hwords
  obtain ⟨reads, hreads, hsames⟩ := hspell ts hmap
  refine ⟨String.ofList (spaced words), ts.length + 1, fun limit hlimit name =>
    ⟨.program (ts.headD (.ending place)).start reads, ?_, by rw [Node.equal, hsames]⟩⟩
  have hprogram : Language.Program (ts ++ [.ending place]) _ := .statements hreads rfl
  rw [← programOf_iff_program hlimit, ← ofTokens_eq_ok_iff_programOf htypes rfl] at hprogram
  rw [ofStringWithin_of_tokens htokens, hprogram]
  rfl

/-- The programs that texts are read as are the well-formed ones: with any limit to the nesting,
only these are read, and each of them is, up to positions, from one text with every limit that is
large enough. -/
theorem ofStringWithin_image :
    (∀ limit source name program, ofStringWithin limit source name = .ok program →
      program.WellFormed .program) ∧
    ∀ program : Node, program.WellFormed .program →
      ∃ source least, ∀ limit, least ≤ limit → ∀ name, ∃ read,
        ofStringWithin limit source name = .ok read ∧ read.equal program = true :=
  ⟨fun _ _ _ _ => wellFormed_of_ofStringWithin, fun _ => exists_ofStringWithin_of_wellFormed⟩

end Program

end BoSyntax
