import BoSyntax.Proofs.Grammar.Derivation

/-!
# First and last tokens

With which tokens phrases start and end. The first token tells a rule which way to go, and the last
one whether an opening parenthesis behind it belongs to the phrase.
-/

namespace BoSyntax.Language

/-- A segment starts with a token of one of some kinds. -/
def Starts (types : List TokenType) (s : List Token) : Prop :=
  ∃ token ∈ s.head?, token.type ∈ types

/-- A segment ends with a token of one of some kinds. -/
def Ends (types : List TokenType) (s : List Token) : Prop :=
  ∃ token ∈ s.getLast?, token.type ∈ types

section Segments

variable {types types' : List TokenType} {s t : List Token} {token : Token}

/-- The first token decides how a segment starts. -/
theorem starts_cons_iff : Starts types (token :: s) ↔ token.type ∈ types := by
  simp [Starts]

/-- A segment that starts with a token is not empty. -/
theorem Starts.ne_nil (h : Starts types s) : s ≠ [] := by
  rintro rfl
  simp [Starts] at h

/-- More tokens behind it do not change the start of a segment. -/
theorem Starts.append (h : Starts types s) : Starts types (s ++ t) := by
  obtain ⟨token, rest, rfl⟩ := List.exists_cons_of_ne_nil h.ne_nil
  rw [List.cons_append, starts_cons_iff]
  exact starts_cons_iff.mp h

/-- How a segment starts may be told less closely. -/
theorem Starts.mono (h : Starts types s) (hsub : types ⊆ types') : Starts types' s := by
  obtain ⟨token, hmem, htype⟩ := h
  exact ⟨token, hmem, hsub htype⟩

/-- What is in sight before a segment is its first token. -/
theorem Starts.headD (h : Starts types s) (token : Token) : (s.headD token).type ∈ types := by
  obtain ⟨first, rest, rfl⟩ := List.exists_cons_of_ne_nil h.ne_nil
  exact starts_cons_iff.mp h

/-- The last token decides how a segment ends. -/
theorem ends_concat_iff : Ends types (s ++ [token]) ↔ token.type ∈ types := by
  simp [Ends]

/-- More tokens before it do not change the end of a segment. -/
theorem Ends.append (h : Ends types t) : Ends types (s ++ t) := by
  obtain ⟨token, hmem, htype⟩ := h
  refine ⟨token, ?_, htype⟩
  rw [Option.mem_def] at *
  rw [List.getLast?_append, hmem]
  rfl

/-- More tokens in front do not change how a segment ends. -/
theorem Ends.cons (h : Ends types s) : Ends types (token :: s) :=
  Ends.append (s := [token]) h

/-- A segment that ends in a delimiter is enclosed by it. -/
theorem ends_enclosed {opening closing : Token} (h : closing.type ∈ types) :
    Ends types (opening :: (s ++ [closing])) :=
  (ends_concat_iff.mpr h).cons

end Segments

/-- A segment is closed when it ends in a semicolon or a closing brace. -/
theorem closed_iff {s : List Token} : Closed s ↔ Ends [.semicolon, .closeBrace] s := by
  simp [Closed, Ends]

/-- A segment is closed by a last token that is a semicolon or a closing brace. -/
theorem closed_concat {s : List Token} {token : Token}
    (h : token.type ∈ [.semicolon, .closeBrace]) : Closed (s ++ [token]) :=
  closed_iff.mpr (ends_concat_iff.mpr h)

/-- More tokens in front leave a segment closed. -/
theorem Closed.append {s t : List Token} (h : Closed t) : Closed (s ++ t) :=
  closed_iff.mpr (closed_iff.mp h).append

/-- What separates from the second of two segments separates from both. -/
theorem Separated.append {s t : List Token} {token : Token} (h : Separated t token) :
    Separated (s ++ t) token :=
  fun hopen => (h hopen).append

/-- What separates from two segments separates from the second one, unless that is empty. -/
theorem Separated.of_append {s t : List Token} {token : Token} (h : Separated (s ++ t) token)
    (ht : t ≠ []) : Separated t token := by
  intro hopen
  obtain ⟨last, hmem, hclosed⟩ := h hopen
  refine ⟨last, ?_, hclosed⟩
  rwa [List.getLast?_append_of_ne_nil _ ht] at hmem

/-- An opening parenthesis continues a segment unless it is closed. -/
theorem Separated.ne_openParen {types : List TokenType} {s : List Token} {token : Token}
    (h : Separated s token) (hends : Ends types s)
    (hopen : .semicolon ∉ types ∧ .closeBrace ∉ types) :
    token.type ≠ .openParen := by
  intro htype
  obtain ⟨last, hmem, hclosed⟩ := h htype
  obtain ⟨last', hmem', htypes⟩ := hends
  rw [Option.mem_def] at hmem hmem'
  rw [hmem, Option.some.injEq] at hmem'
  subst hmem'
  rcases hclosed with h | h <;> simp_all

/-! ## Where phrases start -/

/-- The kinds of token that a sum starts with. -/
def sumStarts : List TokenType :=
  [.identifier, .number, .openParen]

/-- The kinds of token that an expression starts with. -/
def expressionStarts : List TokenType :=
  .openBrace :: sumStarts

/-- The kinds of token that a statement starts with. -/
def statementStarts : List TokenType :=
  [.letKeyword, .constKeyword, .fnKeyword] ++ expressionStarts

section Starts

variable {E : Language Node} {s : List Token} {v : Node} {types : List TokenType}

/-- A chain starts as its base does. -/
theorem Chain.starts {Base : Language Node} {Suffix : Node → Language Node}
    (h : Chain Base Suffix s v) (hbase : ∀ t w, Base t w → Starts types t) : Starts types s := by
  induction h with
  | base h => exact hbase _ _ h
  | extend _ _ ih => exact ih.append

/-- A primary expression starts with a name, a number or a parenthesis. -/
theorem Primary.starts (h : Primary E s v) : Starts sumStarts s := by
  cases h <;> simp_all [Starts, sumStarts]

/-- A row of calls starts as its primary expression does. -/
theorem Call.starts (h : Call E s v) : Starts sumStarts s :=
  Chain.starts h fun _ _ h => Chain.starts h fun _ _ h => h.starts

/-- A product starts as its first factor does. -/
theorem Product.starts (h : Product E s v) : Starts sumStarts s :=
  Chain.starts h fun _ _ h => Call.starts h

/-- A sum starts as its first term does. -/
theorem Sum.starts (h : Sum E s v) : Starts sumStarts s :=
  Chain.starts h fun _ _ h => Product.starts h

/-- An object starts with a brace, and a sum as sums do. -/
theorem Object.starts (h : Object E s v) : Starts expressionStarts s := by
  cases h with
  | braces hopening _ _ => simp [Starts, expressionStarts, hopening]
  | sum h => exact h.starts.mono (List.subset_cons_self _ _)

/-- An assignment starts as its target does. -/
theorem Assignment.starts (h : Assignment E s v) : Starts expressionStarts s := by
  cases h with
  | object h => exact h.starts
  | assign h _ _ => exact h.starts.append

/-- An expression starts with a name, a number, a parenthesis or a brace. -/
theorem ExpressionWithin.starts {depth : Nat} (h : ExpressionWithin depth s v) :
    Starts expressionStarts s := by
  cases depth with
  | zero => exact h.elim
  | succ depth => exact Assignment.starts h

/-- Listed expressions start as the first of them does. -/
theorem Items.starts {vs : List Node} (h : Items E s vs) (hE : ∀ t w, E t w → Starts types t) :
    Starts types s := by
  cases h with
  | one h => exact hE _ _ h
  | more h _ _ => exact (hE _ _ h).append

/-- A property starts with its key. -/
theorem Property.starts (h : Property E s v) : Starts [.identifier] s := by
  cases h <;> simp_all [Starts]

/-- Properties start with a name, if there are any. -/
theorem Properties.type_of_cons {first : Token} {rest : List Token} {vs : List Node}
    (h : Properties E (first :: rest) vs) : first.type = .identifier := by
  have hstarts : Starts [.identifier] (first :: rest) := by
    generalize hs : first :: rest = s at h
    cases h with
    | none => cases hs
    | one h => exact h.starts
    | more h _ _ => exact h.starts.append
  simpa using starts_cons_iff.mp hstarts

/-- A declaration starts with its keyword, and any other statement as an expression does. -/
theorem StatementForm.starts {Parameter Body : Language Node}
    (h : StatementForm E Parameter Body s v) (hE : ∀ t w, E t w → Starts expressionStarts t) :
    Starts statementStarts s := by
  have hsub : expressionStarts ⊆ statementStarts := List.subset_append_right _ _
  cases h with
  | declare hkeyword _ _ => simp [Starts, statementStarts, hkeyword]
  | define constant hkeyword _ _ _ _ => cases constant <;> simp_all [Starts, statementStarts]
  | function hkeyword _ _ _ _ _ _ => simp [Starts, statementStarts, hkeyword]
  | expression h => exact (hE _ _ h).mono hsub
  | terminated h _ => exact ((hE _ _ h).mono hsub).append

/-- A statement starts with a keyword or as an expression does. -/
theorem StatementWithin.starts {depth : Nat} (h : StatementWithin depth s v) :
    Starts statementStarts s := by
  cases depth with
  | zero => exact h.elim
  | succ depth => exact StatementForm.starts h fun _ _ h => h.starts

end Starts

/-! ## Where sums end -/

/-- The kinds of token that a sum ends with. -/
def sumEnds : List TokenType :=
  [.identifier, .number, .closeParen, .closeBracket]

section Ends

variable {E : Language Node} {s : List Token} {v : Node} {types : List TokenType}

/-- A chain ends as its base and all suffixes do. -/
theorem Chain.ends {Base : Language Node} {Suffix : Node → Language Node}
    (h : Chain Base Suffix s v) (hbase : ∀ t w, Base t w → Ends types t)
    (hsuffix : ∀ u t w, Suffix u t w → Ends types t) : Ends types s := by
  cases h with
  | base h => exact hbase _ _ h
  | extend _ h => exact (hsuffix _ _ _ h).append

/-- A primary expression ends with a name, a number or a parenthesis. -/
theorem Primary.ends (h : Primary E s v) : Ends sumEnds s := by
  cases h with
  | name htype => simp [Ends, sumEnds, htype]
  | number htype _ => simp [Ends, sumEnds, htype]
  | group _ _ hclosing => exact ends_enclosed (by simp [sumEnds, hclosing])

/-- A row of members ends with a name, a number or a closing delimiter. -/
theorem Member.ends (h : Member E s v) : Ends sumEnds s := by
  refine Chain.ends h (fun _ _ h => h.ends) ?_
  rintro u t w (⟨_, h⟩ | ⟨_, _, hclosing⟩)
  · exact h.ends.cons
  · exact ends_enclosed (by simp [sumEnds, hclosing])

/-- Arguments end with a parenthesis. -/
theorem Arguments.ends {vs : List Node} (h : Arguments E s vs) : Ends sumEnds s := by
  cases h with
  | none _ hclosing => exact ends_enclosed (s := []) (by simp [sumEnds, hclosing])
  | some _ _ hclosing => exact ends_enclosed (by simp [sumEnds, hclosing])

/-- Operands joined by operators end as operands do. -/
theorem Operation.ends {operators : List String} {L : Language Node}
    (h : Operation operators L s v) (hL : ∀ t w, L t w → Ends types t) : Ends types s := by
  refine Chain.ends h hL ?_
  rintro u _ _ ⟨_, _, h⟩
  exact (hL _ _ h).cons

/-- A sum ends with a name, a number or a closing delimiter. -/
theorem Sum.ends (h : Sum E s v) : Ends sumEnds s := by
  refine Operation.ends h fun _ _ h => Operation.ends h fun _ _ h => Chain.ends h
    (fun _ _ h => Member.ends h) ?_
  rintro u t w ⟨h⟩
  exact h.ends

end Ends

end BoSyntax.Language
