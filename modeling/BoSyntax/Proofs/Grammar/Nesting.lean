import BoSyntax.Proofs.Grammar.Mirror

/-!
# Nesting

How deep a token is nested is told by the tokens: it is within all delimiters that are open at it,
and within the values of all assignments that it is part of. The nesting of a program and the limit
that it needs differ by at most one, so the limit is a matter of nesting alone, and not of length.
-/

namespace BoSyntax

open BoSyntax.Language TokenCursor

/-! ## The nesting of tokens -/

/-- Whether a token is an opening delimiter. -/
def Token.opens (token : Token) : Bool :=
  [TokenType.openParen, .openBracket, .openBrace].contains token.type

/-- Whether a token is a closing delimiter. -/
def Token.closes (token : Token) : Bool :=
  [TokenType.closeParen, .closeBracket, .closeBrace].contains token.type

/-- Whether a token may stand before the equals sign of a declaration, if the tokens before it may.
The equals sign of a declaration makes no assignment. -/
def Token.declares (declaring : Bool) (token : Token) : Bool :=
  [TokenType.letKeyword, .constKeyword].contains token.type ||
    (declaring && token.type == .identifier)

/-- How many tokens there are up to a closing delimiter, and that one, when so many more delimiters
are closed before it. -/
def closingLength : Nat → List Token → Nat
  | _, [] => 0
  | depth, token :: behind =>
    if token.opens then closingLength (depth + 1) behind + 1
    else if token.closes then
      if depth = 0 then 1 else closingLength (depth - 1) behind + 1
    else closingLength depth behind + 1

/-- How many tokens the value of an assignment has: those that are read as an expression. -/
def valueLength (behind : List Token) : Nat :=
  match Rule.expression (behind.length + 1) (.ofTokens behind) with
  | .ok _ d => d.position
  | .error _ _ => 0

/-- How many tokens behind a token are within what it opens: a delimiter, or the value of an
assignment. -/
def extent (declaring : Bool) (token : Token) (behind : List Token) : Nat :=
  if token.opens then closingLength 0 behind
  else if token.type == .equals && !declaring then valueLength behind
  else 0

/-- The first so many levels raised by one. -/
def raise (count : Nat) (levels : List Nat) : List Nat :=
  (levels.take count).map (· + 1) ++ levels.drop count

/-- How deep each token is nested: the number of delimiters that are open at it, itself included,
and of assignments that have it in their values. -/
def nestings (declaring : Bool) : List Token → List Nat
  | [] => []
  | token :: behind =>
    (if token.opens then 1 else 0) ::
      raise (extent declaring token behind) (nestings (token.declares declaring) behind)

/-- The deepest nesting of any token before the end of input; what comes after is never read. -/
def nesting (tokens : List Token) : Nat :=
  (nestings false (tokens.takeWhile fun token => !token.isEnd)).foldr max 0

/-- To raise no levels changes nothing. -/
@[simp] theorem raise_zero (levels : List Nat) : raise 0 levels = levels :=
  rfl

/-- To raise as many levels as there are in front raises all of these and no others. -/
theorem raise_append {count : Nat} {levels : List Nat} (h : levels.length = count)
    (levels' : List Nat) : raise count (levels ++ levels') = levels.map (· + 1) ++ levels' := by
  rw [raise, List.take_left' h, List.drop_left' h]

/-- There is one nesting for each token. -/
theorem length_nestings (declaring : Bool) (tokens : List Token) :
    (nestings declaring tokens).length = tokens.length := by
  induction tokens generalizing declaring with
  | nil => rfl
  | cons token behind ih =>
    rw [nestings, List.length_cons, raise, List.length_append, List.length_map,
      ← List.length_append, List.take_append_drop, ih, List.length_cons]

/-- No token is nested deeper than some depth exactly if that depth bounds the nesting. -/
theorem nesting_le_iff {tokens : List Token} {depth : Nat} :
    nesting tokens ≤ depth ↔
      ∀ m ∈ nestings false (tokens.takeWhile fun token => !token.isEnd), m ≤ depth := by
  rw [nesting]
  induction nestings false (tokens.takeWhile fun token => !token.isEnd) with
  | nil => simp
  | cons m levels ih => rw [List.foldr_cons, Nat.max_le, ih, List.forall_mem_cons]

/-! ## The extent of values -/

/-- What stands behind an expression does not continue it. -/
def Behind (s rest : List Token) : Prop :=
  ∀ token ∈ rest.head?, Rule.AfterExpression s token

/-- What does not continue two segments does not continue the second one, unless that is empty. -/
theorem Behind.of_append {s t rest : List Token} (h : Behind (s ++ t) rest) (ht : t ≠ []) :
    Behind t rest := fun token hmem =>
  have hafter := h token hmem
  ⟨⟨hafter.1.1, hafter.1.2.1, hafter.1.2.2.of_append ht⟩, hafter.2⟩

/-- The value of an assignment is the whole expression. -/
theorem valueLength_append {depth : Nat} {s rest : List Token} {v : Node}
    (h : ExpressionWithin depth s v) (hends : ∀ token ∈ s, token.type ≠ .endOfInput)
    (hrest : Behind s rest) : valueLength (s ++ rest) = s.length := by
  have hahead : (ofTokens (s ++ rest)).ahead = s ++ rest.takeWhile fun token => !token.isEnd := by
    refine List.takeWhile_append_of_pos fun token hmem => ?_
    rw [Bool.not_eq_true', Token.isEnd_eq_false_iff]
    exact hends token hmem
  obtain ⟨d, htakes, hd⟩ := exists_takes hahead
  have hafter : Rule.AfterExpression s d.current := by
    by_cases htype : d.current.type = .endOfInput
    · exact Rule.afterExpression_of_mem_closers (by simp [htype, Rule.closers])
    · rw [current_type_eq_endOfInput_iff, hd] at htype
      cases rest with
      | nil => exact absurd rfl htype
      | cons first rest =>
        cases hend : first.isEnd with
        | true => exact absurd (List.takeWhile_cons_of_neg (by simp [hend])) htype
        | false =>
          have hcurrent : d.current = first := by
            rw [current, hd, List.takeWhile_cons_of_pos (by simp [hend]), List.headD_cons]
          exact hcurrent ▸ hrest first rfl
  have hdepth : s.length + 1 ≤ (s ++ rest).length + 1 := by
    rw [List.length_append]
    omega
  have hread := Rule.expression_accepts _ _ _ _ _ (h.of_length.mono hdepth) htakes hafter
  have hlength := htakes.length
  have hsize : d.size = (ofTokens (s ++ rest)).ahead.length := htakes.size
  rw [valueLength, hread]
  change d.size - d.ahead.length = s.length
  omega

/-! ## Segments and what is nested in them -/

/-- The tokens of a segment are nested by themselves, when what stands behind is such as may follow:
delimiters match, and no value goes on. The nesting is at most some depth, and whatever bounds it is
enough for the segment to be a phrase. -/
structure Nests (Follow : List Token → Prop) (depth : Nat) (s : List Token) (Phrase : Nat → Prop) :
    Prop where
  ends : ∀ token ∈ s, token.type ≠ .endOfInput
  balanced : ∀ depth rest, closingLength depth (s ++ rest) = s.length + closingLength depth rest
  settled : ∀ rest, Follow rest →
    nestings false (s ++ rest) = nestings false s ++ nestings false rest
  le : ∀ m ∈ nestings false s, m ≤ depth
  phrase : ∀ n, (∀ m ∈ nestings false s, m ≤ n) → Phrase n

/-- The kinds of token that nothing is nested in and that start no declaration. -/
def plainTypes : List TokenType :=
  [.identifier, .number, .fnKeyword, .binaryOperator, .comma, .dot, .colon, .semicolon]

namespace Nests

variable {Follow Follow' : List Token → Prop} {depth : Nat} {s t : List Token}
  {P Q R : Nat → Prop} {token opening closing : Token}

/-- Nesting by itself may be asked behind fewer followers, and be enough for more. -/
theorem imp (h : Nests Follow depth s P) (hfollow : ∀ rest, Follow' rest → Follow rest)
    (himp : ∀ n, P n → Q n) : Nests Follow' depth s Q :=
  ⟨h.ends, h.balanced, fun rest hrest => h.settled rest (hfollow rest hrest), h.le,
    fun n hn => himp n (h.phrase n hn)⟩

/-- The empty segment is nested by itself. -/
theorem nil (h : ∀ n, P n) : Nests Follow depth [] P :=
  ⟨by simp, by simp, by simp [nestings], by simp [nestings], fun n _ => h n⟩

/-- Nothing is nested in a plain token. -/
theorem cons {type : TokenType} (h : Nests Follow depth s P) (htype : token.type = type)
    (hmem : type ∈ plainTypes) (himp : ∀ n, P n → R n) : Nests Follow depth (token :: s) R := by
  have hkinds : token.opens = false ∧ token.closes = false ∧ token.declares false = false ∧
      token.type ≠ .equals ∧ token.type ≠ .endOfInput := by
    simp only [plainTypes, List.mem_cons, List.not_mem_nil, or_false] at hmem
    rcases hmem with rfl | rfl | rfl | rfl | rfl | rfl | rfl | rfl <;>
      simp [Token.opens, Token.closes, Token.declares, htype]
  obtain ⟨hopens, hcloses, hdeclares, hequals, hends⟩ := hkinds
  have hnestings (rest : List Token) :
      nestings false (token :: rest) = 0 :: nestings false rest := by
    simp [nestings, extent, hopens, hdeclares, hequals]
  refine ⟨List.forall_mem_cons.mpr ⟨hends, h.ends⟩, fun depth rest => ?_, fun rest hrest => ?_, ?_,
    fun n hn => ?_⟩
  · simp [closingLength, hopens, hcloses, h.balanced]
    omega
  · rw [List.cons_append, hnestings, hnestings, h.settled rest hrest, List.cons_append]
  · rw [hnestings, List.forall_mem_cons]
    exact ⟨Nat.zero_le _, h.le⟩
  · rw [hnestings, List.forall_mem_cons] at hn
    exact himp n (h.phrase n hn.2)

/-- A token that neither opens nor closes and is no equals sign is nested by itself. -/
theorem singleton {type : TokenType} (htype : token.type = type) (hmem : type ∈ plainTypes)
    (h : ∀ n, P n) : Nests Follow depth [token] P :=
  (nil fun _ => trivial).cons htype hmem fun n _ => h n

/-- Segments one after the other. -/
theorem append (h : Nests Follow depth s P) (h' : Nests Follow' depth t Q)
    (hfollow : ∀ rest, Follow' rest → Follow (t ++ rest)) (hfollow' : Follow t)
    (himp : ∀ n, P n → Q n → R n) :
    Nests Follow' depth (s ++ t) R := by
  have hsettled := h.settled t hfollow'
  refine ⟨List.forall_mem_append.mpr ⟨h.ends, h'.ends⟩, fun depth rest => ?_,
    fun rest hrest => ?_, ?_, fun n hn => ?_⟩
  · rw [List.append_assoc, h.balanced, h'.balanced, List.length_append, Nat.add_assoc]
  · rw [List.append_assoc, h.settled _ (hfollow rest hrest), h'.settled rest hrest, hsettled,
      List.append_assoc]
  · rw [hsettled]
    exact List.forall_mem_append.mpr ⟨h.le, h'.le⟩
  · rw [hsettled, List.forall_mem_append] at hn
    exact himp n (h.phrase n hn.1) (h'.phrase n hn.2)

/-- Within delimiters everything is nested one level deeper. -/
theorem enclosed (h : Nests Follow depth s P) (hopens : opening.opens = true)
    (hcloses : closing.closes = true) (hfollow : ∀ rest, Follow (closing :: rest))
    (himp : ∀ n, P n → R (n + 1)) :
    Nests Follow' (depth + 1) (opening :: (s ++ [closing])) R := by
  have hopening : opening.declares false = false ∧ opening.type ≠ .endOfInput := by
    simp only [Token.opens, List.contains_cons, Bool.or_eq_true, beq_iff_eq] at hopens
    rcases hopens with h | h | h | h <;> simp_all [Token.declares]
  have hclosing : closing.opens = false ∧ closing.declares false = false ∧
      closing.type ≠ .equals ∧ closing.type ≠ .endOfInput := by
    simp only [Token.closes, List.contains_cons, Bool.or_eq_true, beq_iff_eq] at hcloses
    rcases hcloses with h | h | h | h <;> simp_all [Token.opens, Token.declares]
  have hextent : ∀ rest, closingLength 0 (s ++ closing :: rest) = s.length + 1 := fun rest => by
    rw [h.balanced]
    simp [closingLength, hclosing, hcloses]
  have hclosed : ∀ rest, nestings false (s ++ closing :: rest) =
      (nestings false s ++ [0]) ++ nestings false rest := fun rest => by
    rw [h.settled _ (hfollow rest)]
    simp [nestings, extent, hclosing]
  have hnestings : ∀ rest, nestings false (opening :: (s ++ closing :: rest)) =
      1 :: ((nestings false s ++ [0]).map (· + 1) ++ nestings false rest) := fun rest => by
    rw [nestings, extent, if_pos hopens, if_pos hopens, hopening.1, hextent, hclosed, raise_append]
    rw [List.length_append, length_nestings, List.length_singleton]
  have hwhole : nestings false (opening :: (s ++ [closing])) =
      1 :: ((nestings false s).map (· + 1) ++ [1]) := by
    rw [hnestings]
    simp [nestings]
  refine ⟨?_, fun depth rest => ?_, fun rest _ => ?_, ?_, fun n hn => ?_⟩
  · simp only [List.forall_mem_cons, List.forall_mem_append]
    exact ⟨hopening.2, h.ends, hclosing.2.2.2, by simp⟩
  · rw [List.cons_append, List.append_assoc, closingLength, if_pos hopens, h.balanced]
    simp [closingLength, hclosing, hcloses]
    omega
  · rw [List.cons_append, List.append_assoc, List.singleton_append, hnestings, hwhole]
    simp
  · rw [hwhole]
    simp only [List.forall_mem_cons, List.forall_mem_append, List.forall_mem_map]
    exact ⟨by omega, fun m hm => Nat.succ_le_succ (h.le m hm), by omega, by simp⟩
  · rw [hwhole] at hn
    simp only [List.forall_mem_cons, List.forall_mem_append, List.forall_mem_map] at hn
    obtain ⟨hpos, hinner, -⟩ := hn
    cases n with
    | zero => omega
    | succ n => exact himp n (h.phrase n fun m hm => Nat.le_of_succ_le_succ (hinner m hm))

/-- In the value of an assignment everything is nested one level deeper. -/
theorem value {equals : Token} (h : Nests Follow depth s P) (hequals : equals.type = .equals)
    (hne : s ≠ []) (hvalue : ∀ rest, Follow rest → valueLength (s ++ rest) = s.length)
    (hnil : Follow []) (himp : ∀ n, P n → R (n + 1)) :
    Nests Follow (depth + 1) (equals :: s) R := by
  have hkinds : equals.opens = false ∧ equals.closes = false ∧ equals.declares false = false := by
    simp [Token.opens, Token.closes, Token.declares, hequals]
  have hnestings : ∀ rest, Follow rest → nestings false (equals :: (s ++ rest)) =
      0 :: ((nestings false s).map (· + 1) ++ nestings false rest) := fun rest hrest => by
    rw [nestings, extent, hkinds.2.2, hvalue rest hrest, h.settled rest hrest]
    simp [hkinds, hequals, raise_append (length_nestings _ _)]
  have hwhole : nestings false (equals :: s) = 0 :: (nestings false s).map (· + 1) := by
    simpa [nestings] using hnestings [] hnil
  refine ⟨?_, fun depth rest => ?_, fun rest hrest => ?_, ?_, fun n hn => ?_⟩
  · exact List.forall_mem_cons.mpr ⟨by simp [hequals], h.ends⟩
  · simp [closingLength, hkinds, h.balanced]
    omega
  · rw [List.cons_append, hnestings rest hrest, hwhole, List.cons_append]
  · rw [hwhole, List.forall_mem_cons, List.forall_mem_map]
    exact ⟨by omega, fun m hm => Nat.succ_le_succ (h.le m hm)⟩
  · rw [hwhole, List.forall_mem_cons, List.forall_mem_map] at hn
    cases n with
    | zero =>
      obtain ⟨m, hm⟩ := List.exists_mem_of_ne_nil (nestings false s) fun hnone =>
        hne (List.length_eq_zero_iff.mp (by rw [← length_nestings false s, hnone, List.length_nil]))
      have hle := hn.2 m hm
      omega
    | succ n => exact himp n (h.phrase n fun m hm => Nat.le_of_succ_le_succ (hn.2 m hm))

/-- Nothing is nested in the start of a declaration. -/
theorem declaration {keyword name last : Token}
    (hkeyword : keyword.type = .letKeyword ∨ keyword.type = .constKeyword)
    (hname : name.type = .identifier) (hlast : last.type = .equals ∨ last.type = .semicolon)
    (h : ∀ n, P n) : Nests Follow depth [keyword, name, last] P := by
  have hnestings : ∀ rest, nestings false (keyword :: name :: last :: rest) =
      [0, 0, 0] ++ nestings false rest := fun rest => by
    rcases hkeyword with h | h <;> rcases hlast with h' | h' <;>
      simp [nestings, extent, Token.opens, Token.declares, h, hname, h'] <;> rfl
  have hclosing : ∀ depth rest, closingLength depth (keyword :: name :: last :: rest) =
      closingLength depth rest + 3 := fun depth rest => by
    rcases hkeyword with h | h <;> rcases hlast with h' | h' <;>
      simp [closingLength, Token.opens, Token.closes, h, hname, h']
  have hwhole : nestings false [keyword, name, last] = [0, 0, 0] := by
    rw [hnestings]
    rfl
  refine ⟨?_, fun depth rest => ?_, fun rest _ => ?_, ?_, fun n _ => h n⟩
  · rcases hkeyword with h | h <;> rcases hlast with h' | h' <;> simp [h, hname, h']
  · rw [List.cons_append, List.cons_append, List.cons_append, List.nil_append, hclosing]
    exact Nat.add_comm _ _
  · rw [hwhole]
    exact hnestings rest
  · simp [hwhole]

end Nests

/-! ## Expressions -/

namespace Language

variable {depth : Nat} {s : List Token} {v : Node}

/-- A token that closes something stands behind what it closes. -/
def Closing (rest : List Token) : Prop :=
  ∀ token ∈ rest.head?, token.type ∈ Rule.closers

/-- What closes an expression stands behind it without continuing it. -/
theorem Closing.behind {rest : List Token} (h : Closing rest) : Behind s rest :=
  fun token hmem => Rule.afterExpression_of_mem_closers (h token hmem)

/-- A closing token closes, whatever stands behind it. -/
theorem closing_cons {token : Token} {type : TokenType} (htype : token.type = type)
    (hmem : type ∈ Rule.closers) (rest : List Token) : Closing (token :: rest) := by
  simpa [Closing, htype]

/-- A chain is nested by itself if its base and its suffixes are. -/
theorem Chain.nests {Base : Language Node} {Suffix : Node → Language Node}
    {Base' : Nat → Language Node} {Suffix' : Nat → Node → Language Node}
    (h : Chain Base Suffix s v)
    (hbase : ∀ t w, Base t w → Nests (fun _ => True) depth t fun n => Base' n t w)
    (hsuffix : ∀ u t w, Suffix u t w → Nests (fun _ => True) depth t fun n => Suffix' n u t w) :
    Nests (fun _ => True) depth s fun n => Chain (Base' n) (Suffix' n) s v := by
  induction h with
  | base h => exact (hbase _ _ h).imp (fun _ h => h) fun _ h => .base h
  | extend _ h ih =>
    exact ih.append (hsuffix _ _ _ h) (fun _ h => h) trivial fun _ h h' => .extend h h'

section Expressions

variable (hE : ∀ t w, ExpressionWithin depth t w →
  Nests (Behind t) depth t fun n => ExpressionWithin (n + 1) t w)
include hE

/-- A primary expression is nested by itself. -/
theorem Primary.nests (h : Primary (ExpressionWithin depth) s v) :
    Nests (fun _ => True) (depth + 1) s fun n => Primary (ExpressionWithin n) s v := by
  cases h with
  | name htype => exact .singleton htype (by decide) fun _ => .name htype
  | number htype hread => exact .singleton htype (by decide) fun _ => .number htype hread
  | group hopening h hclosing =>
    exact (hE _ _ h).enclosed (by simp [Token.opens, hopening]) (by simp [Token.closes, hclosing])
      (fun rest => (closing_cons hclosing (by decide) rest).behind)
      fun _ h => .group hopening h hclosing

/-- A row of members is nested by itself. -/
theorem Member.nests (h : Member (ExpressionWithin depth) s v) :
    Nests (fun _ => True) (depth + 1) s fun n => Member (ExpressionWithin n) s v := by
  refine Chain.nests h (fun _ _ h => h.nests hE) fun u t w h => ?_
  cases h with
  | dot hdot h => exact (h.nests hE).cons hdot (by decide) fun _ h => .dot hdot h
  | index hopening h hclosing =>
    exact (hE _ _ h).enclosed (by simp [Token.opens, hopening]) (by simp [Token.closes, hclosing])
      (fun rest => (closing_cons hclosing (by decide) rest).behind)
      fun _ h => .index hopening h hclosing

/-- Listed expressions are nested by themselves within the delimiters that close them. -/
theorem Items.nests {vs : List Node} (h : Items (ExpressionWithin depth) s vs) :
    Nests Closing depth s fun n => Items (ExpressionWithin (n + 1)) s vs := by
  induction h with
  | one h => exact (hE _ _ h).imp (fun _ h => h.behind) fun _ h => .one h
  | more h hcomma _ ih =>
    have hclosing := closing_cons hcomma (by decide)
    exact (hE _ _ h).append (ih.cons hcomma (by decide) fun _ h => h)
      (fun _ _ => (hclosing _).behind) (hclosing _).behind fun _ h h' => .more h hcomma h'

/-- Arguments are nested by themselves. -/
theorem Arguments.nests {vs : List Node} (h : Arguments (ExpressionWithin depth) s vs) :
    Nests (fun _ => True) (depth + 1) s fun n => Arguments (ExpressionWithin n) s vs := by
  cases h with
  | none hopening hclosing =>
    have hnone : Nests (fun _ => True) depth [] fun _ => True := .nil fun _ => trivial
    exact hnone.enclosed (by simp [Token.opens, hopening]) (by simp [Token.closes, hclosing])
      (fun _ => trivial) fun _ _ => .none hopening hclosing
  | some hopening h hclosing =>
    exact (h.nests hE).enclosed (by simp [Token.opens, hopening])
      (by simp [Token.closes, hclosing]) (closing_cons hclosing (by decide))
      fun _ h => .some hopening h hclosing

/-- A row of calls is nested by itself. -/
theorem Call.nests (h : Call (ExpressionWithin depth) s v) :
    Nests (fun _ => True) (depth + 1) s fun n => Call (ExpressionWithin n) s v := by
  refine Chain.nests h (fun _ _ h => Member.nests hE h) fun u t w h => ?_
  obtain ⟨h⟩ := h
  exact (h.nests hE).imp (fun _ h => h) fun _ h => .arguments h

omit hE in
/-- Operands joined by operators are nested by themselves if the operands are. -/
theorem Operation.nests {operators : List String} {L : Language Node} {L' : Nat → Language Node}
    (hL : ∀ t w, L t w → Nests (fun _ => True) depth t fun n => L' n t w)
    (h : Operation operators L s v) :
    Nests (fun _ => True) depth s fun n => Operation operators (L' n) s v := by
  refine Chain.nests h hL fun u t w h => ?_
  obtain ⟨htype, hmem, h⟩ := h
  exact (hL _ _ h).cons htype (by decide) fun _ h => .operator htype hmem h

/-- A sum is nested by itself. -/
theorem Sum.nests (h : Sum (ExpressionWithin depth) s v) :
    Nests (fun _ => True) (depth + 1) s fun n => Sum (ExpressionWithin n) s v :=
  Operation.nests (fun _ _ h => Operation.nests (fun _ _ h => Call.nests hE h) h) h

/-- A property is nested by itself within its braces. -/
theorem Property.nests (h : Property (ExpressionWithin depth) s v) :
    Nests Closing depth s fun n => Property (ExpressionWithin (n + 1)) s v := by
  cases h with
  | shorthand hkey => exact .singleton hkey (by decide) fun _ => .shorthand hkey
  | value hkey hcolon h =>
    have hvalue := (hE _ _ h).imp (fun _ (h : Closing _) => h.behind) fun _ h => h
    exact (hvalue.cons hcolon (by decide) fun _ h => h).cons hkey (by decide)
      fun _ h => .value hkey hcolon h

/-- Properties are nested by themselves within their braces. -/
theorem Properties.nests {vs : List Node} (h : Properties (ExpressionWithin depth) s vs) :
    Nests Closing depth s fun n => Properties (ExpressionWithin (n + 1)) s vs := by
  induction h with
  | none => exact .nil fun _ => .none
  | one h => exact (h.nests hE).imp (fun _ h => h) fun _ h => .one h
  | more h hcomma _ ih =>
    have hclosing := closing_cons hcomma (by decide)
    exact (h.nests hE).append (ih.cons hcomma (by decide) fun _ h => h) (fun _ _ => hclosing _)
      (hclosing _) fun _ h h' => .more h hcomma h'

/-- An object or sum is nested by itself. -/
theorem Object.nests (h : Object (ExpressionWithin depth) s v) :
    Nests (fun _ => True) (depth + 1) s fun n => Object (ExpressionWithin n) s v := by
  cases h with
  | braces hopening h hclosing =>
    exact (h.nests hE).enclosed (by simp [Token.opens, hopening])
      (by simp [Token.closes, hclosing]) (closing_cons hclosing (by decide))
      fun _ h => .braces hopening h hclosing
  | sum h => exact (Sum.nests hE h).imp (fun _ h => h) fun _ h => .sum h

/-- An assignment is nested by itself if nothing behind continues its value, which the equals sign
nests by one. -/
theorem Assignment.nests (h : Assignment (ExpressionWithin depth) s v) :
    Nests (Behind s) (depth + 1) s fun n => Assignment (ExpressionWithin n) s v := by
  cases h with
  | object h => exact (h.nests hE).imp (fun _ _ => trivial) fun _ h => .object h
  | @assign s equals t target v h hequals h' =>
    have hne := h'.starts.ne_nil
    have hright := hE _ _ h'
    have hvalue : Nests (Behind t) (depth + 1) (equals :: t) fun n => ExpressionWithin n t v :=
      hright.value hequals hne (fun _ hrest => valueLength_append h' hright.ends hrest)
        (by simp [Behind]) fun _ h => h
    refine (h.nests hE).append (hvalue.imp (fun rest hrest => ?_) fun _ h => h) (fun _ _ => trivial)
      trivial fun _ h h' => .assign h hequals h'
    rw [← List.singleton_append, ← List.append_assoc] at hrest
    exact hrest.of_append hne

end Expressions

/-- How the tokens of an expression are nested, and what they need. -/
theorem ExpressionWithin.nests (h : ExpressionWithin depth s v) :
    Nests (Behind s) depth s fun n => ExpressionWithin (n + 1) s v := by
  induction depth generalizing s v with
  | zero => exact h.elim
  | succ depth ih => exact Assignment.nests (fun _ _ h => ih h) h

/-! ## Statements -/

/-- What stands behind a statement ends the statements or starts another one. -/
def Continued (s rest : List Token) : Prop :=
  ∀ token ∈ rest.head?, Rule.AfterStatement s token

/-- What stands behind statements ends them. -/
def Ended (rest : List Token) : Prop :=
  ∀ token ∈ rest.head?, token.type ∈ [TokenType.closeBrace, .endOfInput]

/-- What stands behind a statement does not continue its expression. -/
theorem Continued.behind {rest : List Token} (h : Continued s rest) : Behind s rest :=
  fun token hmem => (h token hmem).afterExpression.1

/-- Behind a statement stand the next ones and what ends them. -/
theorem continued_append {S : Language Node} (hstarts : ∀ t w, S t w → Starts statementStarts t)
    {t rest : List Token} {vs : List Node} (h : Statements S t vs)
    (hsep : ∀ token ∈ t.head?, Separated s token) (hrest : Ended rest) :
    Continued s (t ++ rest) := by
  intro token hmem
  have hstop : (rest.headD (.ending ⟨1, 1⟩)).type ∈ [TokenType.closeBrace, .endOfInput] := by
    cases rest with
    | nil => exact List.mem_cons_of_mem _ (List.mem_singleton_self _)
    | cons first rest => exact hrest first rfl
  have hafter := Rule.afterStatement_of_statements h hstarts hsep hstop
  cases t <;> cases rest <;> simp_all

/-- Statements are nested by themselves if each is. -/
theorem Statements.nests {S : Language Node} {S' : Nat → Language Node}
    (hS : ∀ t w, S t w → Nests (Continued t) depth t fun n => S' n t w)
    (hstarts : ∀ t w, S t w → Starts statementStarts t) {vs : List Node} (h : Statements S s vs) :
    Nests Ended depth s fun n => Statements (S' n) s vs := by
  induction h with
  | none => exact .nil fun _ => .none
  | @more s t v vs h ht hsep ih =>
    have hcontinued := fun rest => @continued_append s S hstarts t rest vs ht hsep
    have halone : Continued s t := by simpa using hcontinued [] (by simp [Ended])
    exact (hS _ _ h).append ih hcontinued halone fun _ h h' => .more h h' hsep

/-- How the tokens of a statement are nested, and what they need. -/
theorem StatementWithin.nests (h : StatementWithin depth s v) :
    Nests (Continued s) depth s fun n => StatementWithin (n + 1) s v := by
  induction depth generalizing s v with
  | zero => exact h.elim
  | succ depth ih =>
    have hterminated : ∀ {s semicolon v}, ExpressionWithin (depth + 1) s v →
        semicolon.type = .semicolon →
        Nests (fun _ => True) (depth + 1) (s ++ [semicolon])
          fun n => ExpressionWithin (n + 1) s v := fun h hsemicolon =>
        have hclosing := closing_cons hsemicolon (by decide)
        h.nests.append (.singleton hsemicolon (by decide) fun _ => trivial)
          (fun _ _ => (hclosing _).behind) (hclosing _).behind fun _ h _ => h
    cases h with
    | declare hkeyword hname hsemicolon =>
      exact .declaration (.inl hkeyword) hname (.inr hsemicolon)
        fun _ => .declare hkeyword hname hsemicolon
    | @define keyword name equals s semicolon v constant hkeyword hname hequals h hsemicolon =>
      have hword : keyword.type = .letKeyword ∨ keyword.type = .constKeyword := by
        cases constant <;> simp [hkeyword]
      have hstart : Nests (fun _ => True) (depth + 1) [keyword, name, equals] fun _ => True :=
        .declaration hword hname (.inl hequals) fun _ => trivial
      exact (hstart.append (hterminated h hsemicolon) (fun _ h => h) trivial fun _ _ h => h).imp
        (fun _ _ => trivial) fun _ h => .define constant hkeyword hname hequals h hsemicolon
    | @function keyword name s opening t closing args parameters body hkeyword hname hargs hnames
        hopening hbody hclosing =>
      have hended : ∀ rest, Ended (closing :: rest) := fun rest => by simp [Ended, hclosing]
      have hblock : Nests (fun _ => True) (depth + 1) (opening :: (t ++ [closing])) fun n =>
          Statements (StatementWithin n) t body :=
        (hbody.nests (fun _ _ h => ih h) fun _ _ h => h.starts).enclosed
          (by simp [Token.opens, hopening]) (by simp [Token.closes, hclosing]) hended fun _ h => h
      have hrest := (hargs.nests fun _ _ h => h.nests).append hblock (fun _ h => h) trivial
        fun _ hargs hbody => And.intro hargs hbody
      exact ((hrest.cons hname (by decide) fun _ h => h).cons hkeyword (by decide) fun _ h => h).imp
        (fun _ _ => trivial) fun _ h =>
          .function hkeyword hname h.1 hnames hopening h.2 hclosing
    | expression h => exact h.nests.imp (fun _ h => h.behind) fun _ h => .expression h
    | terminated h hsemicolon =>
      exact (hterminated h hsemicolon).imp (fun _ _ => trivial) fun _ h => .terminated h hsemicolon

end Language

/-! ## Programs -/

namespace Program

variable {limit : Nat} {tokens : List Token} {program : Node}

/-- How the tokens of a program are nested, and what they need. -/
theorem nests_of_ofTokens_eq_ok (h : ofTokens limit tokens = .ok program) :
    nesting tokens ≤ limit ∧
      ∀ limit', nesting tokens + 1 ≤ limit' → ofTokens limit' tokens = .ok program := by
  obtain ⟨vs, hvs, rfl⟩ := ofTokens_eq_ok_iff_statements.mp h
  have hnests := hvs.nests (fun _ _ h => h.nests) fun _ _ h => h.starts
  refine ⟨nesting_le_iff.mpr hnests.le, fun limit' hlimit' => ?_⟩
  have hstatements := hnests.phrase (nesting tokens) (nesting_le_iff.mp (Nat.le_refl _))
  exact ofTokens_eq_ok_iff_statements.mpr
    ⟨vs, hstatements.imp fun _ _ _ h => h.mono hlimit', rfl⟩

/-- The limit is a matter of nesting alone. Whatever comes of tokens under a limit, other than an
objection to their nesting, comes of them under every higher one; a program is read whenever the
limit is higher than the nesting of its tokens, and never when it is lower. -/
theorem ofTokens_limit (tokens : List Token) :
    (∀ limit limit', limit ≤ limit' →
      (∀ token, ofTokens limit tokens ≠ .error (.rejected .tooDeep token)) →
      ofTokens limit' tokens = ofTokens limit tokens) ∧
    (∀ program, (∃ limit, ofTokens limit tokens = .ok program) →
      ∀ limit, nesting tokens + 1 ≤ limit → ofTokens limit tokens = .ok program) ∧
    ∀ limit program, ofTokens limit tokens = .ok program → nesting tokens ≤ limit := by
  refine ⟨fun _ _ => ofTokens_mono, ?_, fun _ _ h => (nests_of_ofTokens_eq_ok h).1⟩
  rintro program ⟨limit, h⟩
  exact (nests_of_ofTokens_eq_ok h).2

/-- The value of the first assignment has the second one in it, and the parentheses of a call are
nested in both. -/
example : nestings false [⟨.identifier, "x", ⟨1, 1⟩⟩, ⟨.equals, "=", ⟨1, 2⟩⟩,
    ⟨.identifier, "y", ⟨1, 3⟩⟩, ⟨.equals, "=", ⟨1, 4⟩⟩, ⟨.identifier, "f", ⟨1, 5⟩⟩,
    ⟨.openParen, "(", ⟨1, 6⟩⟩, ⟨.closeParen, ")", ⟨1, 7⟩⟩, ⟨.semicolon, ";", ⟨1, 8⟩⟩] =
      [0, 0, 1, 1, 2, 3, 3, 0] := by
  decide +kernel

end Program

end BoSyntax
