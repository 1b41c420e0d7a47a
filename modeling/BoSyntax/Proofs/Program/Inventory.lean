import BoSyntax.Proofs.Node.Inventory
import BoSyntax.Proofs.Program.Failure

/-!
# No token is lost

A tree that is read is made of just the tokens of its text: its names, operators and numbers are
theirs, in the same order, and its marks are theirs as well. The only tokens that a tree does not
tell are commas, semicolons and the parentheses around expressions.
-/

namespace BoSyntax

open BoSyntax.Language

/-- The kinds of token that trees have marks for. -/
def markTypes : List TokenType :=
  [.letKeyword, .constKeyword, .fnKeyword, .equals, .dot, .colon, .openParen, .closeParen,
    .openBrace, .closeBrace, .openBracket, .closeBracket]

/-- So many pairs of parentheses. -/
def parentheses (pairs : Nat) : List TokenType :=
  List.replicate pairs .openParen ++ List.replicate pairs .closeParen

/-- A pair has one parenthesis of each kind. -/
theorem count_parentheses (type : TokenType) (pairs : Nat) :
    (parentheses pairs).count type =
      if type = .openParen ∨ type = .closeParen then pairs else 0 := by
  cases type <;> simp [parentheses, List.count_replicate]

/-- Tokens are told by what is read in a tree and by its marks, but for commas, semicolons and some
pairs of parentheses. -/
structure Accounted (s : List Token) (atoms : List Atom) (marks : List TokenType) : Prop where
  atoms_eq : s.filterMap Token.atom? = atoms
  exists_count_eq : ∃ pairs, ∀ type ∈ markTypes,
    (s.map Token.type).count type = (marks ++ parentheses pairs).count type

namespace Accounted

variable {s t : List Token} {atoms atoms' : List Atom} {marks marks' : List TokenType}
  {token opening closing : Token}

/-- No tokens are told by nothing. -/
theorem nil : Accounted [] [] [] :=
  ⟨rfl, 0, fun _ _ => rfl⟩

/-- Segments one after the other are told by what tells each of them. -/
theorem append (h : Accounted s atoms marks) (h' : Accounted t atoms' marks') :
    Accounted (s ++ t) (atoms ++ atoms') (marks ++ marks') := by
  obtain ⟨hatoms, pairs, hcount⟩ := h
  obtain ⟨hatoms', pairs', hcount'⟩ := h'
  refine ⟨by rw [List.filterMap_append, hatoms, hatoms'], pairs + pairs', fun type hmem => ?_⟩
  rw [List.map_append, List.count_append, hcount type hmem, hcount' type hmem]
  simp only [parentheses, List.count_append, List.count_replicate]
  split <;> split <;> omega

/-- Marks are told without their order. -/
theorem perm (h : Accounted s atoms marks) (hperm : marks.Perm marks') :
    Accounted s atoms marks' := by
  obtain ⟨hatoms, pairs, hcount⟩ := h
  refine ⟨hatoms, pairs, fun type hmem => ?_⟩
  rw [hcount type hmem, List.count_append, List.count_append, hperm.count_eq]

/-- A name, an operator or a number is told in its place. -/
theorem atom {atom : Atom} (h : token.atom? = some atom) : Accounted [token] [atom] [] := by
  refine ⟨by simp [h], 0, fun type hmem => ?_⟩
  have hne : token.type ≠ type := by
    rintro rfl
    unfold Token.atom? at h
    simp only [markTypes, List.mem_cons, List.not_mem_nil, or_false] at hmem
    rcases hmem with h' | h' | h' | h' | h' | h' | h' | h' | h' | h' | h' | h' <;> simp [h'] at h
  simp [parentheses, hne]

/-- A name is told as such. -/
theorem name (h : token.type = .identifier) : Accounted [token] [.name token.lexeme] [] :=
  atom (by simp [Token.atom?, h])

/-- An operator is told as such. -/
theorem operator (h : token.type = .binaryOperator) :
    Accounted [token] [.operator token.lexeme] [] :=
  atom (by simp [Token.atom?, h])

/-- A number is told by its value. -/
theorem number {value : Binary64} (h : token.type = .number)
    (hread : Binary64.read? token.lexeme = some value) :
    Accounted [token] [.number (some value)] [] :=
  atom (by simp [Token.atom?, h, hread])

/-- Commas and semicolons are not told. -/
theorem separator (h : token.type = .comma ∨ token.type = .semicolon) :
    Accounted [token] [] [] := by
  rcases h with h | h <;>
    exact ⟨by simp [Token.atom?, h], 0, by simp [h, markTypes, parentheses]⟩

/-- Any other token is a mark. -/
theorem mark {type : TokenType} (h : token.type = type) (hmem : type ∈ markTypes) :
    Accounted [token] [] [type] := by
  refine ⟨?_, 0, fun type' _ => by simp [parentheses, h]⟩
  simp only [markTypes, List.mem_cons, List.not_mem_nil, or_false] at hmem
  rcases hmem with rfl | rfl | rfl | rfl | rfl | rfl | rfl | rfl | rfl | rfl | rfl | rfl <;>
    simp [Token.atom?, h]

/-- Delimiters are told as marks. -/
theorem enclosed {type type' : TokenType} (h : Accounted s atoms marks)
    (hopening : opening.type = type) (hclosing : closing.type = type') (hmem : type ∈ markTypes)
    (hmem' : type' ∈ markTypes) :
    Accounted (opening :: (s ++ [closing])) atoms (type :: type' :: marks) := by
  have haccounted := (mark hopening hmem).append (h.append (mark hclosing hmem'))
  rw [List.nil_append, List.append_nil] at haccounted
  exact haccounted.perm ((List.perm_append_singleton _ _).cons _)

/-- Parentheses may also be left untold. -/
theorem grouped (h : Accounted s atoms marks) (hopening : opening.type = .openParen)
    (hclosing : closing.type = .closeParen) :
    Accounted (opening :: (s ++ [closing])) atoms marks := by
  obtain ⟨hatoms, pairs, hcount⟩ := h.enclosed hopening hclosing (by decide) (by decide)
  refine ⟨hatoms, pairs + 1, fun type hmem => ?_⟩
  rw [hcount type hmem]
  simp only [parentheses, List.cons_append, List.count_cons, List.count_append,
    List.count_replicate]
  cases type <;> simp +arith

end Accounted

/-- A tree is made of the tokens of a segment. -/
def MadeOf (s : List Token) (v : Node) : Prop :=
  Accounted s v.atoms v.marks

/-- Neighbouring trees are made of the tokens of a segment. -/
def AllMadeOf (s : List Token) (vs : List Node) : Prop :=
  Accounted s (Node.allAtoms vs) (vs.flatMap Node.marks)

/-- A tree is made of tokens that tell its atoms, and its marks from the root on. -/
theorem Accounted.madeOf {s : List Token} {v : Node} {marks : List TokenType}
    (h : Accounted s v.atoms marks)
    (hperm : marks.Perm (v.ownMarks ++ v.children.flatMap Node.marks)) : MadeOf s v := by
  rw [MadeOf, Node.marks_eq]
  exact h.perm hperm

/-- One tree is made of the tokens that it is made of. -/
theorem allMadeOf_singleton {s : List Token} {v : Node} (h : MadeOf s v) : AllMadeOf s [v] := by
  simpa [AllMadeOf, Node.allAtoms] using Accounted.append h .nil

/-- Trees one after the other are made of their tokens. -/
theorem allMadeOf_cons {s t : List Token} {v : Node} {vs : List Node} (h : MadeOf s v)
    (h' : AllMadeOf t vs) : AllMadeOf (s ++ t) (v :: vs) :=
  Accounted.append h h'

/-! ## Trees that are read -/

namespace Language

open Accounted

section Expressions

variable {E : Language Node} {s : List Token} {v : Node}

/-- A chain is made of its tokens, if its base is and each suffix adds just its own. -/
theorem Chain.madeOf {Base : Language Node} {Suffix : Node → Language Node}
    (h : Chain Base Suffix s v) (hbase : ∀ t w, Base t w → MadeOf t w)
    (hsuffix : ∀ s u t w, MadeOf s u → Suffix u t w → MadeOf (s ++ t) w) : MadeOf s v := by
  induction h with
  | base h => exact hbase _ _ h
  | extend _ h ih => exact hsuffix _ _ _ _ ih h

variable (hE : ∀ t w, E t w → MadeOf t w)
include hE

/-- A primary expression is made of its tokens, parentheses aside. -/
theorem Primary.madeOf (h : Primary E s v) : MadeOf s v := by
  cases h with
  | name htype => exact (Accounted.name htype).madeOf .rfl
  | number htype hread => exact (Accounted.number htype hread).madeOf .rfl
  | group hopening h hclosing => exact (hE _ _ h).grouped hopening hclosing

/-- A row of members is made of its tokens. -/
theorem Member.madeOf (h : Member E s v) : MadeOf s v := by
  refine Chain.madeOf h (fun _ _ h => h.madeOf hE) fun s u t w hu h => ?_
  cases h with
  | dot hdot h =>
    have hname := (mark hdot (by decide)).append (h.madeOf hE)
    exact (Accounted.append hu hname).madeOf (List.perm_append_comm_assoc _ [TokenType.dot] _)
  | index hopening h hclosing =>
    have hkey := (hE _ _ h).enclosed hopening hclosing (by decide) (by decide)
    refine (Accounted.append hu hkey).madeOf ?_
    rw [Node.children, List.flatMap_cons, List.flatMap_singleton]
    exact List.perm_append_comm_assoc _ [TokenType.openBracket, TokenType.closeBracket] _

/-- Listed expressions are made of their tokens, commas aside. -/
theorem Items.madeOf {vs : List Node} (h : Items E s vs) : AllMadeOf s vs := by
  induction h with
  | one h => exact allMadeOf_singleton (hE _ _ h)
  | more h hcomma _ ih =>
    exact allMadeOf_cons (hE _ _ h) ((separator (.inl hcomma)).append ih)

/-- Arguments are told by their parentheses and by what they are made of. -/
theorem Arguments.accounted {vs : List Node} (h : Arguments E s vs) :
    Accounted s (Node.allAtoms vs)
      ([.openParen, .closeParen] ++ vs.flatMap Node.marks) := by
  cases h with
  | none hopening hclosing =>
    exact Accounted.nil.enclosed hopening hclosing (by decide) (by decide)
  | some hopening h hclosing =>
    exact (h.madeOf hE).enclosed hopening hclosing (by decide) (by decide)

/-- A row of calls is made of its tokens. -/
theorem Call.madeOf (h : Call E s v) : MadeOf s v := by
  refine Chain.madeOf h (fun _ _ h => Member.madeOf hE h) fun s u t w hu h => ?_
  obtain ⟨h⟩ := h
  refine (Accounted.append hu (h.accounted hE)).madeOf ?_
  rw [Node.children, List.flatMap_cons]
  exact List.perm_append_comm_assoc _ _ _

omit hE in
/-- Operands joined by operators are made of their tokens. -/
theorem Operation.madeOf {operators : List String} {L : Language Node}
    (hL : ∀ t w, L t w → MadeOf t w) (h : Operation operators L s v) : MadeOf s v := by
  refine Chain.madeOf h hL fun s u t w hu h => ?_
  obtain ⟨htype, -, h⟩ := h
  have hright := (Accounted.operator htype).append (hL _ _ h)
  exact (Accounted.append hu hright).madeOf (by simp [Node.ownMarks, Node.children])

/-- A sum is made of its tokens. -/
theorem Sum.madeOf (h : Sum E s v) : MadeOf s v :=
  Operation.madeOf (fun _ _ h => Operation.madeOf (fun _ _ h => Call.madeOf hE h) h) h

/-- A property is made of its tokens. -/
theorem Property.madeOf (h : Property E s v) : MadeOf s v := by
  cases h with
  | shorthand hkey => exact (Accounted.name hkey).madeOf .rfl
  | value hkey hcolon h =>
    have hvalue := (mark hcolon (by decide)).append (hE _ _ h)
    have hproperty := (Accounted.name hkey).append hvalue
    exact hproperty.madeOf (by simp [Node.ownMarks, Node.children])

/-- Properties are made of their tokens, commas aside. -/
theorem Properties.madeOf {vs : List Node} (h : Properties E s vs) : AllMadeOf s vs := by
  induction h with
  | none => exact .nil
  | one h => exact allMadeOf_singleton (h.madeOf hE)
  | more h hcomma _ ih =>
    exact allMadeOf_cons (h.madeOf hE) ((separator (.inl hcomma)).append ih)

/-- An object or sum is made of its tokens. -/
theorem Object.madeOf (h : Object E s v) : MadeOf s v := by
  cases h with
  | braces hopening h hclosing =>
    exact ((h.madeOf hE).enclosed hopening hclosing (by decide) (by decide)).madeOf .rfl
  | sum h => exact Sum.madeOf hE h

/-- An assignment is made of its tokens. -/
theorem Assignment.madeOf (h : Assignment E s v) : MadeOf s v := by
  cases h with
  | object h => exact h.madeOf hE
  | assign h hequals h' =>
    have hvalue := (mark hequals (by decide)).append (hE _ _ h')
    refine (Accounted.append (h.madeOf hE) hvalue).madeOf ?_
    rw [Node.children, List.flatMap_cons, List.flatMap_singleton]
    exact List.perm_append_comm_assoc _ [TokenType.equals] _

end Expressions

/-- Expressions are made of their tokens. -/
theorem Expression.madeOf {s : List Token} {v : Node} (h : Expression s v) : MadeOf s v :=
  Expression.induction (fun _ _ h => Assignment.madeOf (fun _ _ h => h.2) h) h

/-- Statements are made of their tokens, semicolons aside. -/
theorem Statements.madeOf {S : Language Node} (hS : ∀ t w, S t w → MadeOf t w) {s : List Token}
    {vs : List Node} (h : Statements S s vs) : AllMadeOf s vs := by
  induction h with
  | none => exact .nil
  | more h _ _ ih => exact allMadeOf_cons (hS _ _ h) ih

/-- Arguments that are names hold these names and nothing else. -/
theorem atoms_of_forall₂ {args : List Node} {names : List String}
    (h : List.Forall₂ IsName args names) :
    Node.allAtoms args = names.map .name ∧ args.flatMap Node.marks = [] := by
  induction h with
  | nil => exact ⟨rfl, rfl⟩
  | cons h _ ih =>
    obtain ⟨place, rfl⟩ := h
    exact ⟨congrArg _ ih.1, ih.2⟩

/-- Statements are made of their tokens. -/
theorem Statement.madeOf {s : List Token} {v : Node} (h : Statement s v) : MadeOf s v := by
  refine Statement.induction (P := MadeOf) ?_ h
  intro s v h
  cases h with
  | declare hkeyword hname hsemicolon =>
    have hword := (Accounted.name hname).append (separator (.inr hsemicolon))
    exact ((mark hkeyword (by decide)).append hword).madeOf .rfl
  | define constant hkeyword hname hequals h hsemicolon =>
    have hvalue := h.madeOf.append (separator (.inr hsemicolon))
    rw [List.append_nil, List.append_nil] at hvalue
    have hrest := (Accounted.name hname).append
      ((mark hequals (by decide)).append hvalue)
    refine ((mark hkeyword (by cases constant <;> decide)).append hrest).madeOf ?_
    cases constant <;> simp [Node.ownMarks, Node.children]
  | function hkeyword hname hargs hnames hopening hbody hclosing =>
    have hbody := hbody.madeOf fun _ _ h => h.2
    have hblock := hbody.enclosed hopening hclosing (by decide) (by decide)
    have hargs := hargs.accounted fun _ _ => Expression.madeOf
    rw [(atoms_of_forall₂ hnames).1, (atoms_of_forall₂ hnames).2] at hargs
    have hrest := (Accounted.name hname).append (hargs.append hblock)
    exact ((mark hkeyword (by decide)).append hrest).madeOf .rfl
  | expression h => exact h.madeOf
  | terminated h hsemicolon =>
    simpa [MadeOf] using Accounted.append h.madeOf (separator (.inr hsemicolon))

/-- Programs are made of their tokens. -/
theorem Program.madeOf {s : List Token} {v : Node} (h : Program s v) : MadeOf s v := by
  cases h with
  | @statements s stop vs hbody hstop =>
    have hlast : Accounted [stop] [] [] :=
      ⟨by simp [Token.atom?, hstop], 0, by simp [hstop, markTypes, parentheses]⟩
    have hprogram := Accounted.append (hbody.madeOf fun _ _ => Statement.madeOf) hlast
    rw [List.append_nil, List.append_nil] at hprogram
    exact hprogram.madeOf .rfl

end Language

namespace Program

open Node

variable {limit : Nat} {source : String} {name : Option String} {program : Node}

/-- The tokens of a text are those that its program tells: what is read in it, in the same order,
and for each kind of mark as many as there are nodes that have it. -/
theorem ofStringWithin_inventory (h : ofStringWithin limit source name = .ok program) :
    ∃ ts, tokens source name = .ok ts ∧ ts.filterMap Token.atom? = program.atoms ∧
      (ts.map Token.type).count .letKeyword = program.nodes.countP (·.constant? == some false) ∧
      (ts.map Token.type).count .constKeyword = program.nodes.countP (·.constant? == some true) ∧
      (ts.map Token.type).count .fnKeyword =
        program.nodes.countP (·.kind == .functionDeclaration) ∧
      (ts.map Token.type).count .equals =
        program.nodes.countP (·.kind == .assignmentExpr) +
          program.nodes.countP (fun v => v.kind == .varDeclaration && v.value?.isSome) ∧
      (ts.map Token.type).count .dot = program.nodes.countP (·.computed? == some false) ∧
      (ts.map Token.type).count .openBracket = program.nodes.countP (·.computed? == some true) ∧
      (ts.map Token.type).count .closeBracket = program.nodes.countP (·.computed? == some true) ∧
      (ts.map Token.type).count .colon =
        program.nodes.countP (fun v => v.kind == .property && v.value?.isSome) ∧
      (ts.map Token.type).count .openBrace =
        program.nodes.countP (·.kind == .functionDeclaration) +
          program.nodes.countP (·.kind == .objectLiteral) ∧
      (ts.map Token.type).count .closeBrace =
        program.nodes.countP (·.kind == .functionDeclaration) +
          program.nodes.countP (·.kind == .objectLiteral) ∧
      (ts.map Token.type).count .openParen = (ts.map Token.type).count .closeParen ∧
      program.nodes.countP (·.kind == .callExpr) +
          program.nodes.countP (·.kind == .functionDeclaration) ≤
        (ts.map Token.type).count .openParen := by
  obtain ⟨ts, stop, htokens, hprogram⟩ := exists_programOf_of_ofStringWithin h
  obtain ⟨hatoms, pairs, hcount⟩ :=
    Language.Program.madeOf (hprogram.imp fun _ _ _ h => ⟨limit, h⟩)
  generalize ts ++ [stop] = ts at *
  have hmarks : ∀ type ∈ markTypes, ¬(type = .openParen ∨ type = .closeParen) →
      (ts.map Token.type).count type = program.marks.count type := fun type hmem hne => by
    rw [hcount type hmem, List.count_append, count_parentheses, if_neg hne, Nat.add_zero]
  have hone {type : TokenType} {p : Node → Bool} (hmem : type ∈ markTypes)
      (hne : ¬(type = .openParen ∨ type = .closeParen))
      (hown : ∀ v : Node, v.ownMarks.count type = if p v then 1 else 0) :
      (ts.map Token.type).count type = program.nodes.countP p := by
    rw [hmarks type hmem hne, count_marks hown]
  have htwo {type : TokenType} {p q : Node → Bool} (hmem : type ∈ markTypes)
      (hne : ¬(type = .openParen ∨ type = .closeParen))
      (hown : ∀ v : Node,
        v.ownMarks.count type = (if p v then 1 else 0) + (if q v then 1 else 0)) :
      (ts.map Token.type).count type = program.nodes.countP p + program.nodes.countP q := by
    rw [hmarks type hmem hne, count_marks_add hown]
  -- Every call and every function has one pair of parentheses of its own.
  have hparens : ∀ type, type = .openParen ∨ type = .closeParen →
      (ts.map Token.type).count type =
        program.nodes.countP (·.kind == .callExpr) +
          program.nodes.countP (·.kind == .functionDeclaration) + pairs := by
    intro type htype
    have hmem : type ∈ markTypes := by rcases htype with rfl | rfl <;> decide
    have hown : ∀ v : Node, v.ownMarks.count type =
        (if v.kind == .callExpr then 1 else 0) +
          if v.kind == .functionDeclaration then 1 else 0 := by
      intro v
      rcases htype with rfl | rfl <;> fun_cases ownMarks v <;> simp [kind]
    rw [hcount type hmem, List.count_append, count_parentheses, if_pos htype,
      count_marks_add hown]
  refine ⟨_, by rw [tokens, htokens], hatoms, ?_, ?_, ?_, ?_, ?_, ?_, ?_, ?_, ?_, ?_, ?_, ?_⟩
  · exact hone (by decide) (by decide) fun v => by fun_cases ownMarks v <;> simp [constant?]
  · exact hone (by decide) (by decide) fun v => by fun_cases ownMarks v <;> simp [constant?]
  · exact hone (by decide) (by decide) fun v => by fun_cases ownMarks v <;> simp [kind]
  · exact htwo (by decide) (by decide) fun v => by fun_cases ownMarks v <;> simp [kind, value?]
  · exact hone (by decide) (by decide) fun v => by fun_cases ownMarks v <;> simp [computed?]
  · exact hone (by decide) (by decide) fun v => by fun_cases ownMarks v <;> simp [computed?]
  · exact hone (by decide) (by decide) fun v => by fun_cases ownMarks v <;> simp [computed?]
  · exact hone (by decide) (by decide) fun v => by fun_cases ownMarks v <;> simp [kind, value?]
  · exact htwo (by decide) (by decide) fun v => by fun_cases ownMarks v <;> simp [kind]
  · exact htwo (by decide) (by decide) fun v => by fun_cases ownMarks v <;> simp [kind]
  · rw [hparens _ (by decide), hparens _ (by decide)]
  · rw [hparens _ (by decide)]
    exact Nat.le_add_right _ _

/-- What is read in a constant with all sorts of members, calls and operations. -/
theorem inventory_of_constant :
    ∃ program ts, ofStringWithin 4 "const a = { b: (c[0] + d.e)(f = 1), g };" none = .ok program ∧
      tokens "const a = { b: (c[0] + d.e)(f = 1), g };" none = .ok ts ∧
      ts.filterMap Token.atom? = program.atoms ∧
      program.nodes.countP (·.kind == .callExpr) +
          program.nodes.countP (·.kind == .functionDeclaration) ≤
        (ts.map Token.type).count .openParen := by
  obtain ⟨program, h⟩ := @exists_eq_ok_of_isOk _ _
    (ofStringWithin 4 "const a = { b: (c[0] + d.e)(f = 1), g };" none) (by decide +kernel)
  obtain ⟨ts, htokens, hatoms, -, -, -, -, -, -, -, -, -, -, -, hcalls⟩ :=
    ofStringWithin_inventory h
  exact ⟨program, ts, h, htokens, hatoms, hcalls⟩

end Program

end BoSyntax
