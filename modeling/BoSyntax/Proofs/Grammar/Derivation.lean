import Mathlib.Data.List.Forall2
import Mathlib.Order.Nat
import BoSyntax.Grammar.Statement

/-!
# The grammar as languages

What the grammar allows, told without a cursor. A language says which segments of tokens stand for
which values, and the rules of the grammar build languages from languages: from that of whole
expressions those of primary expressions, members, calls, products, sums and objects, and from these
that of whole expressions again. Expressions of bounded nesting are defined first and
`expression_iff` closes the circle.

A text of statements can be divided in one way only because a statement is followed by an opening
parenthesis only after a semicolon or a closing brace.
-/

namespace BoSyntax

/-- A language: which segments of tokens stand for which values. -/
abbrev Language (α : Type) := List Token → α → Prop

namespace Language

/-- A phrase and any number of suffixes to it, grouped from the left. -/
inductive Chain (Base : Language Node) (Suffix : Node → Language Node) : Language Node
  | base {s v} : Base s v → Chain Base Suffix s v
  | extend {s t v w} : Chain Base Suffix s v → Suffix v t w → Chain Base Suffix (s ++ t) w

section Expressions

variable (E : Language Node)

/-- A name, a number, or an expression in parentheses. -/
inductive Primary : Language Node
  | name {token} : token.type = .identifier →
    Primary [token] (.identifier token.start token.lexeme)
  | number {token value} : token.type = .number → Binary64.read? token.lexeme = some value →
    Primary [token] (.number token.start value)
  | group {opening s closing v} : opening.type = .openParen → E s v →
    closing.type = .closeParen → Primary (opening :: (s ++ [closing])) v

/-- What makes a member of an expression: a dot and a primary expression that is a name, or an
expression between brackets. -/
inductive MemberSuffix (owner : Node) : Language Node
  | dot {dot s place name} : dot.type = .dot → Primary E s (.identifier place name) →
    MemberSuffix owner (dot :: s) (.dot owner.start owner name place)
  | index {opening s closing key} : opening.type = .openBracket → E s key →
    closing.type = .closeBracket →
    MemberSuffix owner (opening :: (s ++ [closing])) (.index owner.start owner key)

/-- A primary expression, or a member of a member. -/
def Member : Language Node :=
  Chain (Primary E) (MemberSuffix E)

/-- One or more expressions separated by commas. -/
inductive Items : Language (List Node)
  | one {s v} : E s v → Items s [v]
  | more {s comma t v vs} : E s v → comma.type = .comma → Items t vs →
    Items (s ++ comma :: t) (v :: vs)

/-- Expressions separated by commas, in parentheses. -/
inductive Arguments : Language (List Node)
  | none {opening closing} : opening.type = .openParen → closing.type = .closeParen →
    Arguments [opening, closing] []
  | some {opening s closing vs} : opening.type = .openParen → Items E s vs →
    closing.type = .closeParen → Arguments (opening :: (s ++ [closing])) vs

/-- What makes a call of an expression. -/
inductive CallSuffix (callee : Node) : Language Node
  | arguments {s args} : Arguments E s args → CallSuffix callee s (.call callee.start callee args)

/-- A member, or a call of a call. -/
def Call : Language Node :=
  Chain (Member E) (CallSuffix E)

/-- What makes an operation of a left operand: an operator and a right operand. -/
inductive OperationSuffix (operators : List String) (Operand : Language Node) (left : Node) :
    Language Node
  | operator {operator s right} : operator.type = .binaryOperator → operator.lexeme ∈ operators →
    Operand s right →
    OperationSuffix operators Operand left (operator :: s)
      (.binary left.start left right operator.lexeme)

/-- An operand, or operands joined by operators of one rank. -/
def Operation (operators : List String) (Operand : Language Node) : Language Node :=
  Chain Operand (OperationSuffix operators Operand)

/-- A call, or a product of calls. -/
def Product : Language Node :=
  Operation multiplicativeOperators (Call E)

/-- A product, or a sum of products. -/
def Sum : Language Node :=
  Operation additiveOperators (Product E)

/-- A key, alone or with a colon and a value. -/
inductive Property : Language Node
  | shorthand {key} : key.type = .identifier → Property [key] (.shorthand key.start key.lexeme)
  | value {key colon s v} : key.type = .identifier → colon.type = .colon → E s v →
    Property (key :: colon :: s) (.property key.start key.lexeme v)

/-- Properties separated by commas; a comma may also follow the last one. -/
inductive Properties : Language (List Node)
  | none : Properties [] []
  | one {s v} : Property E s v → Properties s [v]
  | more {s comma t v vs} : Property E s v → comma.type = .comma → Properties t vs →
    Properties (s ++ comma :: t) (v :: vs)

/-- Properties in braces, or a sum. -/
inductive Object : Language Node
  | braces {opening s closing vs} : opening.type = .openBrace → Properties E s vs →
    closing.type = .closeBrace → Object (opening :: (s ++ [closing])) (.object opening.start vs)
  | sum {s v} : Sum E s v → Object s v

/-- An object or sum, which may be the target of an assignment. -/
inductive Assignment : Language Node
  | object {s v} : Object E s v → Assignment s v
  | assign {s equals t target v} : Object E s target → equals.type = .equals → E t v →
    Assignment (s ++ equals :: t) (.assign target.start target v)

end Expressions

/-- Expressions that nest to at most so many levels. -/
def ExpressionWithin : Nat → Language Node
  | 0 => fun _ _ => False
  | depth + 1 => Assignment (ExpressionWithin depth)

/-- Expressions. -/
def Expression : Language Node :=
  fun s v => ∃ depth, ExpressionWithin depth s v

/-- A segment ends in a semicolon or in a closing brace. -/
def Closed (s : List Token) : Prop :=
  ∃ token ∈ s.getLast?, token.type = .semicolon ∨ token.type = .closeBrace

/-- A token does not continue a segment as the opening of its arguments. -/
def Separated (s : List Token) (token : Token) : Prop :=
  token.type = .openParen → Closed s

/-- Statements in order. What follows a statement may not continue it. -/
inductive Statements (Statement : Language Node) : Language (List Node)
  | none : Statements Statement [] []
  | more {s t v vs} : Statement s v → Statements Statement t vs →
    (∀ token ∈ t.head?, Separated s token) → Statements Statement (s ++ t) (v :: vs)

/-- The argument is a name. -/
def IsName (argument : Node) (name : String) : Prop :=
  ∃ place, argument = .identifier place name

/-- The forms of statements: declarations of a variable, a variable or constant with a value, or a
function; and expressions, with or without a semicolon. Parameters and body of a function have
languages of their own. -/
inductive StatementForm (Expr Parameter Body : Language Node) : Language Node
  | declare {keyword name semicolon} : keyword.type = .letKeyword → name.type = .identifier →
    semicolon.type = .semicolon →
    StatementForm Expr Parameter Body [keyword, name, semicolon]
      (.declare keyword.start name.lexeme)
  | define {keyword name equals s semicolon v} (constant : Bool) :
    keyword.type = (if constant then .constKeyword else .letKeyword) → name.type = .identifier →
    equals.type = .equals → Expr s v → semicolon.type = .semicolon →
    StatementForm Expr Parameter Body (keyword :: name :: equals :: (s ++ [semicolon]))
      (.define keyword.start name.lexeme constant v)
  | function {keyword name s opening t closing args parameters body} :
    keyword.type = .fnKeyword → name.type = .identifier → Arguments Parameter s args →
    List.Forall₂ IsName args parameters → opening.type = .openBrace → Statements Body t body →
    closing.type = .closeBrace →
    StatementForm Expr Parameter Body (keyword :: name :: (s ++ opening :: (t ++ [closing])))
      (.function keyword.start name.lexeme parameters body)
  | expression {s v} : Expr s v → StatementForm Expr Parameter Body s v
  | terminated {s semicolon v} : Expr s v → semicolon.type = .semicolon →
    StatementForm Expr Parameter Body (s ++ [semicolon]) v

/-- Statements that nest to at most so many levels. -/
def StatementWithin : Nat → Language Node
  | 0 => fun _ _ => False
  | depth + 1 =>
    StatementForm (ExpressionWithin (depth + 1)) (ExpressionWithin depth) (StatementWithin depth)

/-- Statements. -/
def Statement : Language Node :=
  fun s v => ∃ depth, StatementWithin depth s v

/-- Programs made of the statements of a language: statements, and the end of input. -/
inductive ProgramOf (Statement : Language Node) : Language Node
  | statements {s stop vs} : Statements Statement s vs → stop.type = .endOfInput →
    ProgramOf Statement (s ++ [stop]) (.program (s.headD stop).start vs)

/-- Programs. -/
def Program : Language Node :=
  ProgramOf Statement

/-! ## Whole expressions within a phrase

All rules are monotone in the language of whole expressions. More precisely, what they hold of whole
expressions is shorter than what they make of them, except where it is all there is. -/

section Monotone

variable {E E' : Language Node}

/-- Delimiters make a segment longer. -/
theorem length_lt_enclosed (opening closing : Token) (s : List Token) :
    s.length < (opening :: (s ++ [closing])).length := by
  simp only [List.length_cons, List.length_append]
  omega

/-- What stands behind a token is shorter than the whole. -/
theorem length_lt_after (s : List Token) (token : Token) (t : List Token) :
    t.length < (s ++ token :: t).length := by
  simp only [List.length_append, List.length_cons]
  omega

/-- A chain of a language is one of another language that has its base and its suffixes. -/
theorem Chain.imp {Base Base' : Language Node} {Suffix Suffix' : Node → Language Node}
    {s : List Token} {v : Node} (h : Chain Base Suffix s v)
    (hbase : ∀ t w, t.length ≤ s.length → Base t w → Base' t w)
    (hsuffix : ∀ u t w, t.length ≤ s.length → Suffix u t w → Suffix' u t w) :
    Chain Base' Suffix' s v := by
  induction h with
  | base h => exact .base (hbase _ _ (Nat.le_refl _) h)
  | @extend s t v w _ h ih =>
    have hs : s.length ≤ (s ++ t).length := by simp
    have ht : t.length ≤ (s ++ t).length := by simp
    exact .extend
      (ih (fun t' w' hle => hbase t' w' (hle.trans hs))
        fun u t' w' hle => hsuffix u t' w' (hle.trans hs))
      (hsuffix _ _ _ ht h)

/-- Only shorter expressions matter to a primary expression. -/
theorem Primary.imp {s : List Token} {v : Node} (h : Primary E s v)
    (himp : ∀ t w, t.length < s.length → E t w → E' t w) : Primary E' s v := by
  cases h with
  | name htype => exact .name htype
  | number htype hread => exact .number htype hread
  | group hopening h hclosing =>
    exact .group hopening (himp _ _ (length_lt_enclosed _ _ _) h) hclosing

/-- Only shorter expressions matter to a suffix of a member. -/
theorem MemberSuffix.imp {owner : Node} {s : List Token} {v : Node} (h : MemberSuffix E owner s v)
    (himp : ∀ t w, t.length < s.length → E t w → E' t w) : MemberSuffix E' owner s v := by
  cases h with
  | dot hdot h =>
    exact .dot hdot (h.imp fun t w hlt => himp t w (hlt.trans (by simp)))
  | index hopening h hclosing =>
    exact .index hopening (himp _ _ (length_lt_enclosed _ _ _) h) hclosing

/-- Only shorter expressions matter to a row of members. -/
theorem Member.imp {s : List Token} {v : Node} (h : Member E s v)
    (himp : ∀ t w, t.length < s.length → E t w → E' t w) : Member E' s v :=
  Chain.imp h (fun _ _ hle h => h.imp fun t w hlt => himp t w (hlt.trans_le hle))
    fun _ _ _ hle h => h.imp fun t w hlt => himp t w (hlt.trans_le hle)

/-- Only expressions that are no longer matter to a list of them. -/
theorem Items.imp {s : List Token} {vs : List Node} (h : Items E s vs)
    (himp : ∀ t w, t.length ≤ s.length → E t w → E' t w) : Items E' s vs := by
  induction h with
  | one h => exact .one (himp _ _ (Nat.le_refl _) h)
  | more h hcomma _ ih =>
    exact .more (himp _ _ (by simp) h) hcomma
      (ih fun t w hle => himp t w (hle.trans (length_lt_after _ _ _).le))

/-- Only shorter expressions matter to arguments. -/
theorem Arguments.imp {s : List Token} {vs : List Node} (h : Arguments E s vs)
    (himp : ∀ t w, t.length < s.length → E t w → E' t w) : Arguments E' s vs := by
  cases h with
  | none hopening hclosing => exact .none hopening hclosing
  | some hopening h hclosing =>
    exact .some hopening (h.imp fun t w hle => himp t w (hle.trans_lt (length_lt_enclosed _ _ _)))
      hclosing

/-- Only shorter expressions matter to a row of calls. -/
theorem Call.imp {s : List Token} {v : Node} (h : Call E s v)
    (himp : ∀ t w, t.length < s.length → E t w → E' t w) : Call E' s v := by
  refine Chain.imp h (fun _ _ hle h => h.imp fun t w hlt => himp t w (hlt.trans_le hle)) ?_
  rintro u t w hle ⟨h⟩
  exact ⟨h.imp fun t w hlt => himp t w (hlt.trans_le hle)⟩

/-- Only operands that are no longer matter to what operators join. -/
theorem Operation.imp {operators : List String} {L L' : Language Node} {s : List Token} {v : Node}
    (h : Operation operators L s v) (himp : ∀ t w, t.length ≤ s.length → L t w → L' t w) :
    Operation operators L' s v := by
  refine Chain.imp h himp ?_
  rintro u _ _ hle ⟨htype, hmem, h⟩
  refine .operator htype hmem (himp _ _ ?_ h)
  simp only [List.length_cons] at hle
  omega

/-- Only shorter expressions matter to a sum. -/
theorem Sum.imp {s : List Token} {v : Node} (h : Sum E s v)
    (himp : ∀ t w, t.length < s.length → E t w → E' t w) : Sum E' s v :=
  Operation.imp h fun _ _ hle h => Operation.imp h fun _ _ hle' h =>
    h.imp fun t w hlt => himp t w (hlt.trans_le (hle'.trans hle))

/-- Only shorter expressions matter to a property. -/
theorem Property.imp {s : List Token} {v : Node} (h : Property E s v)
    (himp : ∀ t w, t.length < s.length → E t w → E' t w) : Property E' s v := by
  cases h with
  | shorthand hkey => exact .shorthand hkey
  | value hkey hcolon h =>
    refine .value hkey hcolon (himp _ _ ?_ h)
    simp only [List.length_cons]
    omega

/-- Only shorter expressions matter to properties. -/
theorem Properties.imp {s : List Token} {vs : List Node} (h : Properties E s vs)
    (himp : ∀ t w, t.length < s.length → E t w → E' t w) : Properties E' s vs := by
  induction h with
  | none => exact .none
  | one h => exact .one (h.imp himp)
  | more h hcomma _ ih =>
    exact .more (h.imp fun t w hlt => himp t w (hlt.trans_le (by simp))) hcomma
      (ih fun t w hlt => himp t w (hlt.trans (length_lt_after _ _ _)))

/-- Only shorter expressions matter to an object or sum. -/
theorem Object.imp {s : List Token} {v : Node} (h : Object E s v)
    (himp : ∀ t w, t.length < s.length → E t w → E' t w) : Object E' s v := by
  cases h with
  | braces hopening h hclosing =>
    exact .braces hopening
      (h.imp fun t w hlt => himp t w (hlt.trans (length_lt_enclosed _ _ _))) hclosing
  | sum h => exact .sum (h.imp himp)

/-- Only shorter expressions matter to an assignment. -/
theorem Assignment.imp {s : List Token} {v : Node} (h : Assignment E s v)
    (himp : ∀ t w, t.length < s.length → E t w → E' t w) : Assignment E' s v := by
  cases h with
  | object h => exact .object (h.imp himp)
  | assign h hequals h' =>
    exact .assign (h.imp fun t w hlt => himp t w (hlt.trans_le (by simp))) hequals
      (himp _ _ (length_lt_after _ _ _) h')

end Monotone

/-- Expressions within a depth are within every greater one. -/
theorem ExpressionWithin.mono {m n : Nat} (hle : m ≤ n) {s : List Token} {v : Node}
    (h : ExpressionWithin m s v) : ExpressionWithin n s v := by
  induction m generalizing n s v with
  | zero => exact h.elim
  | succ m ih =>
    cases n with
    | zero => omega
    | succ n => exact Assignment.imp h fun t w _ h => ih (Nat.le_of_succ_le_succ hle) h

/-- An expression nests no deeper than it has tokens. -/
theorem ExpressionWithin.of_length {n : Nat} {s : List Token} {v : Node}
    (h : ExpressionWithin n s v) : ExpressionWithin (s.length + 1) s v := by
  induction n generalizing s v with
  | zero => exact h.elim
  | succ n ih => exact Assignment.imp h fun t w hlt h => (ih h).mono hlt

/-- An expression is an object or sum, or assigns an expression to one. -/
theorem expression_iff {s : List Token} {v : Node} :
    Expression s v ↔ Assignment Expression s v := by
  constructor
  · rintro ⟨_ | depth, h⟩
    · exact h.elim
    · exact Assignment.imp h fun t w _ h => ⟨depth, h⟩
  · intro h
    refine ⟨s.length + 1, Assignment.imp h ?_⟩
    rintro t w hlt ⟨depth, h⟩
    exact h.of_length.mono hlt

/-- Expressions are the least language with this property. -/
theorem Expression.induction {P : Language Node}
    (step : ∀ s v, Assignment (fun t w => Expression t w ∧ P t w) s v → P s v) {s : List Token}
    {v : Node} (h : Expression s v) : P s v := by
  obtain ⟨depth, h⟩ := h
  induction depth generalizing s v with
  | zero => exact h.elim
  | succ depth ih => exact step s v (Assignment.imp h fun t w _ h => ⟨⟨depth, h⟩, ih h⟩)

/-! ## Statements within statements -/

/-- Only statements that are no longer matter to a list of them. -/
theorem Statements.imp {S S' : Language Node} {s : List Token} {vs : List Node}
    (h : Statements S s vs) (himp : ∀ t w, t.length ≤ s.length → S t w → S' t w) :
    Statements S' s vs := by
  induction h with
  | none => exact .none
  | @more s t v vs h _ hsep ih =>
    refine .more (himp _ _ (by simp) h) (ih fun t' w hle => himp t' w (hle.trans (by simp))) hsep

/-- Only expressions that are no longer, and shorter parameters and statements, matter to a
statement. -/
theorem StatementForm.imp {E E' Parameter Parameter' Body Body' : Language Node} {s : List Token}
    {v : Node} (h : StatementForm E Parameter Body s v)
    (hexpr : ∀ t w, t.length ≤ s.length → E t w → E' t w)
    (hparameter : ∀ t w, t.length < s.length → Parameter t w → Parameter' t w)
    (hbody : ∀ t w, t.length < s.length → Body t w → Body' t w) :
    StatementForm E' Parameter' Body' s v := by
  cases h with
  | declare hkeyword hname hsemicolon => exact .declare hkeyword hname hsemicolon
  | define constant hkeyword hname hequals h hsemicolon =>
    refine .define constant hkeyword hname hequals (hexpr _ _ ?_ h) hsemicolon
    simp only [List.length_append, List.length_cons]
    omega
  | function hkeyword hname hargs hnames hopening h hclosing =>
    refine .function hkeyword hname (hargs.imp fun t w hlt => hparameter t w (hlt.trans ?_)) hnames
      hopening (h.imp fun t w hle => hbody t w (hle.trans_lt ?_)) hclosing
    all_goals
      simp only [List.length_append, List.length_cons]
      omega
  | expression h => exact .expression (hexpr _ _ (Nat.le_refl _) h)
  | terminated h hsemicolon => exact .terminated (hexpr _ _ (by simp) h) hsemicolon

/-- Only shorter statements matter to a program. -/
theorem ProgramOf.imp {S S' : Language Node} {s : List Token} {v : Node} (h : ProgramOf S s v)
    (himp : ∀ t w, t.length < s.length → S t w → S' t w) : ProgramOf S' s v := by
  cases h with
  | statements h hstop =>
    refine .statements (h.imp fun t w hle h => himp t w ?_ h) hstop
    simp only [List.length_append, List.length_singleton]
    omega

/-- A program is made of the statements before its end of input. -/
theorem programOf_concat_iff {S : Language Node} {s : List Token} {stop : Token} {v : Node} :
    ProgramOf S (s ++ [stop]) v ↔
      stop.type = .endOfInput ∧ ∃ vs, Statements S s vs ∧ v = .program (s.headD stop).start vs := by
  constructor
  · intro h
    generalize htokens : s ++ [stop] = tokens at h
    cases h with
    | statements hvs hstop =>
      obtain ⟨rfl, hstops⟩ := List.append_inj' htokens rfl
      obtain rfl := List.singleton_inj.mp hstops
      exact ⟨hstop, _, hvs, rfl⟩
  · rintro ⟨hstop, vs, hvs, rfl⟩
    exact .statements hvs hstop

/-- Statements within a depth are within every greater one. -/
theorem StatementWithin.mono {m n : Nat} (hle : m ≤ n) {s : List Token} {v : Node}
    (h : StatementWithin m s v) : StatementWithin n s v := by
  induction m generalizing n s v with
  | zero => exact h.elim
  | succ m ih =>
    cases n with
    | zero => omega
    | succ n =>
      have hle' := Nat.le_of_succ_le_succ hle
      exact StatementForm.imp h (fun _ _ _ h => h.mono hle) (fun _ _ _ h => h.mono hle')
        fun _ _ _ h => ih hle' h

/-- A statement nests no deeper than it has tokens. -/
theorem StatementWithin.of_length {n : Nat} {s : List Token} {v : Node}
    (h : StatementWithin n s v) : StatementWithin (s.length + 1) s v := by
  induction n generalizing s v with
  | zero => exact h.elim
  | succ n ih =>
    exact StatementForm.imp h (fun _ _ hle h => h.of_length.mono (Nat.succ_le_succ hle))
      (fun _ _ hlt h => h.of_length.mono hlt) fun _ _ hlt h => (ih h).mono hlt

/-- A statement is a declaration or an expression, and holds statements in bodies of functions. -/
theorem statement_iff {s : List Token} {v : Node} :
    Statement s v ↔ StatementForm Expression Expression Statement s v := by
  constructor
  · rintro ⟨_ | depth, h⟩
    · exact h.elim
    · exact StatementForm.imp h (fun _ _ _ h => ⟨_, h⟩) (fun _ _ _ h => ⟨_, h⟩)
        fun _ _ _ h => ⟨_, h⟩
  · intro h
    refine ⟨s.length + 1, StatementForm.imp h ?_ ?_ ?_⟩
    · rintro t w hle ⟨depth, h⟩
      exact h.of_length.mono (Nat.succ_le_succ hle)
    · rintro t w hlt ⟨depth, h⟩
      exact h.of_length.mono hlt
    · rintro t w hlt ⟨depth, h⟩
      exact h.of_length.mono hlt

/-- Statements are the least language with this property. -/
theorem Statement.induction {P : Language Node}
    (step : ∀ s v, StatementForm Expression Expression (fun t w => Statement t w ∧ P t w) s v →
      P s v) {s : List Token} {v : Node} (h : Statement s v) : P s v := by
  obtain ⟨depth, h⟩ := h
  induction depth generalizing s v with
  | zero => exact h.elim
  | succ depth ih =>
    exact step s v (StatementForm.imp h (fun _ _ _ h => ⟨_, h⟩) (fun _ _ _ h => ⟨_, h⟩)
      fun _ _ _ h => ⟨⟨depth, h⟩, ih h⟩)

end Language

end BoSyntax
