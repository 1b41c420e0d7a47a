import BoSyntax.Node.Walk
import BoSyntax.Proofs.Program.Failure

/-!
# Well-formed trees

What the grammar and the alphabet make sure of in every tree that is read: which nodes stand where,
with which operators and names, and with which numbers.
-/

namespace BoSyntax

open Text BoSyntax.Language

/-- The text is that of an identifier: a run of letters that is no keyword. -/
def IsIdentifier (name : String) : Prop :=
  name.toList ≠ [] ∧ (∀ c ∈ name.toList, isLetter c = true) ∧ ∀ type, (name, type) ∉ keywords

/-- There are only letters in an identifier. -/
theorem IsIdentifier.notMem {name : String} (h : IsIdentifier name) {c : Char}
    (hc : isLetter c = false) : c ∉ name.toList := fun hmem =>
  Bool.false_ne_true (hc.symm.trans (h.2.1 c hmem))

namespace Node

/-- The parts that nodes play in a tree. -/
inductive Role where
  | program
  | statement
  | expression
  | property
  deriving DecidableEq, Repr

/-- A node is well formed in its part. Statements stand in programs and in the bodies of functions,
properties in objects, and expressions everywhere else; an expression is also a statement. All names
are runs of letters, and all numbers natural or infinite. -/
inductive WellFormed : Role → Node → Prop
  | program {start body} : (∀ v ∈ body, WellFormed .statement v) →
    WellFormed .program (.program start body)
  | declare {start name} : IsIdentifier name → WellFormed .statement (.declare start name)
  | define {start name constant value} : IsIdentifier name → WellFormed .expression value →
    WellFormed .statement (.define start name constant value)
  | function {start name parameters body} : IsIdentifier name → (∀ p ∈ parameters, IsIdentifier p) →
    (∀ v ∈ body, WellFormed .statement v) →
    WellFormed .statement (.function start name parameters body)
  | expression {v} : WellFormed .expression v → WellFormed .statement v
  | assign {start target value} : WellFormed .expression target → WellFormed .expression value →
    WellFormed .expression (.assign start target value)
  | binary {start left right operator} : WellFormed .expression left →
    WellFormed .expression right → operator ∈ additiveOperators ++ multiplicativeOperators →
    WellFormed .expression (.binary start left right operator)
  | call {start callee arguments} : WellFormed .expression callee →
    (∀ v ∈ arguments, WellFormed .expression v) →
    WellFormed .expression (.call start callee arguments)
  | dot {start owner name place} : WellFormed .expression owner → IsIdentifier name →
    WellFormed .expression (.dot start owner name place)
  | index {start owner key} : WellFormed .expression owner → WellFormed .expression key →
    WellFormed .expression (.index start owner key)
  | identifier {start symbol} : IsIdentifier symbol →
    WellFormed .expression (.identifier start symbol)
  | number {start value} : value.IsNatural → WellFormed .expression (.number start value)
  | object {start properties} : (∀ v ∈ properties, WellFormed .property v) →
    WellFormed .expression (.object start properties)
  | shorthand {start key} : IsIdentifier key → WellFormed .property (.shorthand start key)
  | property {start key value} : IsIdentifier key → WellFormed .expression value →
    WellFormed .property (.property start key value)

/-- Trees that are equal to themselves one by one are so together. -/
theorem equalAll_self {nodes : List Node} (h : ∀ v ∈ nodes, equal v v = true) :
    equalAll nodes nodes = true := by
  induction nodes with
  | nil => rfl
  | cons node nodes ih =>
    rw [List.forall_mem_cons] at h
    rw [equalAll, h.1, ih h.2, Bool.and_self]

/-- A well-formed tree is equal to itself, because its numbers are. -/
theorem WellFormed.equal_self {role : Role} {node : Node} (h : WellFormed role node) :
    equal node node = true := by
  induction h with
  | program _ ih => exact equalAll_self ih
  | function _ _ _ ih => simp [equal, equalAll_self ih]
  | call _ _ hcallee ih => simp [equal, hcallee, equalAll_self ih]
  | object _ ih => exact equalAll_self ih
  | number h => exact h.equal_self
  | expression _ ih => exact ih
  | _ => simp_all [equal]

/-- What stands below the root of a well-formed tree is well formed in some part. -/
theorem WellFormed.exists_of_mem_children {role : Role} {node : Node} (h : WellFormed role node) :
    ∀ child ∈ node.children, ∃ role, WellFormed role child := by
  induction h with
  | expression _ ih => exact ih
  | program h _ | function _ _ h _ | object h _ => exact fun child hmem => ⟨_, h child hmem⟩
  | declare | identifier | number | shorthand => simp [children]
  | define _ h _ | property _ h _ => simpa [children] using ⟨_, h⟩
  | assign h h' | binary h h' _ | index h h' => simpa [children] using ⟨⟨_, h⟩, _, h'⟩
  | call h h' =>
    rw [children, List.forall_mem_cons]
    exact ⟨⟨_, h⟩, fun child hmem => ⟨_, h' child hmem⟩⟩
  | dot h hname => simpa [children] using ⟨⟨_, h⟩, _, .identifier hname⟩

/-- The names of a well-formed function are identifiers. -/
theorem WellFormed.names_of_function {role : Role} {start : Position} {name : String}
    {parameters : List String} {body : List Node}
    (h : WellFormed role (.function start name parameters body)) :
    IsIdentifier name ∧ ∀ p ∈ parameters, IsIdentifier p := by
  cases h with
  | function hname hparameters _ => exact ⟨hname, hparameters⟩
  | expression h => cases h

/-- The number of a well-formed literal is natural or infinite. -/
theorem WellFormed.isNatural_of_number {role : Role} {start : Position} {value : Binary64}
    (h : WellFormed role (.number start value)) : value.IsNatural := by
  cases h with
  | number h => exact h
  | expression h =>
    cases h with
    | number h => exact h

end Node

/-! ## Tokens of a text -/

/-- The names and numbers among some tokens are such as a text has. -/
def Genuine (s : List Token) : Prop :=
  ∀ token ∈ s, (token.type = .identifier → IsIdentifier token.lexeme) ∧
    (token.type = .number →
      ∀ value, Binary64.read? token.lexeme = some value → value.IsNatural)

/-- Tokens one after the other are genuine if all of them are. -/
theorem genuine_append {s t : List Token} : Genuine (s ++ t) ↔ Genuine s ∧ Genuine t :=
  List.forall_mem_append

/-- Tokens are genuine if the first is and the others are. -/
theorem genuine_cons {token : Token} {s : List Token} :
    Genuine (token :: s) ↔ ((token.type = .identifier → IsIdentifier token.lexeme) ∧
      (token.type = .number →
        ∀ value, Binary64.read? token.lexeme = some value → value.IsNatural)) ∧ Genuine s :=
  List.forall_mem_cons

/-- The tokens of a text are genuine. -/
theorem genuine_of_ofString {source : String} {tokens : List Token}
    (h : Token.ofString source = .ok tokens) : Genuine tokens := by
  intro token hmem
  constructor
  · intro htype
    obtain ⟨lexemes, w, ts, -, hseg, -, rfl⟩ := Token.ofString_eq_ok_iff.mp h
    rcases List.mem_append.mp hmem with hmem | hmem
    · obtain ⟨v, rest, hlexeme, hkind⟩ := hseg.exists_lexeme_of_mem hmem
      rw [htype] at hkind
      have hletters := hkind.letters_of_identifier
      rw [hlexeme, IsIdentifier, String.toList_ofList]
      exact hletters
    · obtain rfl := List.mem_singleton.mp hmem
      cases htype
  · intro htype value hvalue
    obtain ⟨n, hn⟩ := Token.readable_of_ofString h hmem htype
    rw [hn, Option.some.injEq] at hvalue
    exact hvalue ▸ Binary64.isNatural_ofRatio n

/-! ## Trees that are read -/

namespace Language

open Node

section Expressions

variable {E : Language Node} {s : List Token} {v : Node}

/-- A chain is well-formed if its base is and each suffix keeps it so. -/
theorem Chain.wellFormed {Base : Language Node} {Suffix : Node → Language Node}
    (h : Chain Base Suffix s v) (hs : Genuine s)
    (hbase : ∀ t w, Genuine t → Base t w → WellFormed .expression w)
    (hsuffix : ∀ u t w, WellFormed .expression u → Genuine t → Suffix u t w →
      WellFormed .expression w) : WellFormed .expression v := by
  induction h with
  | base h => exact hbase _ _ hs h
  | extend _ h ih =>
    obtain ⟨hs, ht⟩ := genuine_append.mp hs
    exact hsuffix _ _ _ (ih hs) ht h

variable (hE : ∀ t w, Genuine t → E t w → WellFormed .expression w)
include hE

/-- A primary expression of genuine tokens is well-formed. -/
theorem Primary.wellFormed (h : Primary E s v) (hs : Genuine s) : WellFormed .expression v := by
  cases h with
  | name htype => exact .identifier ((genuine_cons.mp hs).1.1 htype)
  | number htype hread => exact .number ((genuine_cons.mp hs).1.2 htype _ hread)
  | group _ h _ => exact hE _ _ (genuine_append.mp (genuine_cons.mp hs).2).1 h

/-- A row of members of genuine tokens is well-formed. -/
theorem Member.wellFormed (h : Member E s v) (hs : Genuine s) : WellFormed .expression v := by
  refine Chain.wellFormed h hs (fun _ _ hs h => h.wellFormed hE hs) fun u t w hu ht h => ?_
  cases h with
  | dot _ h =>
    cases h.wellFormed hE (genuine_cons.mp ht).2 with
    | identifier hname => exact .dot hu hname
  | index _ h _ => exact .index hu (hE _ _ (genuine_append.mp (genuine_cons.mp ht).2).1 h)

/-- Listed expressions of genuine tokens are well-formed. -/
theorem Items.wellFormed {vs : List Node} (h : Items E s vs) (hs : Genuine s) :
    ∀ v ∈ vs, WellFormed .expression v := by
  induction h with
  | one h => simpa using hE _ _ hs h
  | more h _ _ ih =>
    obtain ⟨hs, ht⟩ := genuine_append.mp hs
    rw [List.forall_mem_cons]
    exact ⟨hE _ _ hs h, ih (genuine_cons.mp ht).2⟩

/-- Arguments of genuine tokens are well-formed. -/
theorem Arguments.wellFormed {vs : List Node} (h : Arguments E s vs) (hs : Genuine s) :
    ∀ v ∈ vs, WellFormed .expression v := by
  cases h with
  | none _ _ => simp
  | some _ h _ => exact h.wellFormed hE (genuine_append.mp (genuine_cons.mp hs).2).1

/-- A row of calls of genuine tokens is well-formed. -/
theorem Call.wellFormed (h : Call E s v) (hs : Genuine s) : WellFormed .expression v := by
  refine Chain.wellFormed h hs (fun _ _ hs h => Member.wellFormed hE h hs) fun u t w hu ht h => ?_
  obtain ⟨h⟩ := h
  exact .call hu (h.wellFormed hE ht)

omit hE in
/-- Well-formed operands joined by operators are well-formed. -/
theorem Operation.wellFormed {operators : List String} {L : Language Node}
    (hL : ∀ t w, Genuine t → L t w → WellFormed .expression w)
    (hsub : operators ⊆ additiveOperators ++ multiplicativeOperators)
    (h : Operation operators L s v) (hs : Genuine s) : WellFormed .expression v := by
  refine Chain.wellFormed h hs hL fun u t w hu ht h => ?_
  obtain ⟨_, hmem, h⟩ := h
  exact .binary hu (hL _ _ (genuine_cons.mp ht).2 h) (hsub hmem)

/-- A sum of genuine tokens is well-formed. -/
theorem Sum.wellFormed (h : Sum E s v) (hs : Genuine s) : WellFormed .expression v :=
  Operation.wellFormed
    (fun _ _ hs h => Operation.wellFormed (fun _ _ hs h => Call.wellFormed hE h hs)
      (List.subset_append_right _ _) h hs)
    (List.subset_append_left _ _) h hs

/-- A property of genuine tokens is well-formed. -/
theorem Property.wellFormed (h : Property E s v) (hs : Genuine s) : WellFormed .property v := by
  cases h with
  | shorthand hkey => exact .shorthand ((genuine_cons.mp hs).1.1 hkey)
  | value hkey _ h =>
    obtain ⟨⟨hname, -⟩, hs⟩ := genuine_cons.mp hs
    exact .property (hname hkey) (hE _ _ (genuine_cons.mp hs).2 h)

/-- Properties of genuine tokens are well-formed. -/
theorem Properties.wellFormed {vs : List Node} (h : Properties E s vs) (hs : Genuine s) :
    ∀ v ∈ vs, WellFormed .property v := by
  induction h with
  | none => simp
  | one h => simpa using h.wellFormed hE hs
  | more h _ _ ih =>
    obtain ⟨hs, ht⟩ := genuine_append.mp hs
    rw [List.forall_mem_cons]
    exact ⟨h.wellFormed hE hs, ih (genuine_cons.mp ht).2⟩

/-- An object or sum of genuine tokens is well-formed. -/
theorem Object.wellFormed (h : Object E s v) (hs : Genuine s) : WellFormed .expression v := by
  cases h with
  | braces _ h _ =>
    exact .object (h.wellFormed hE (genuine_append.mp (genuine_cons.mp hs).2).1)
  | sum h => exact Sum.wellFormed hE h hs

/-- An assignment of genuine tokens is well-formed. -/
theorem Assignment.wellFormed (h : Assignment E s v) (hs : Genuine s) :
    WellFormed .expression v := by
  cases h with
  | object h => exact h.wellFormed hE hs
  | assign h _ h' =>
    obtain ⟨hs, ht⟩ := genuine_append.mp hs
    exact .assign (h.wellFormed hE hs) (hE _ _ (genuine_cons.mp ht).2 h')

end Expressions

/-- Expressions of genuine tokens are well formed. -/
theorem Expression.wellFormed {s : List Token} {v : Node} (h : Expression s v) :
    Genuine s → WellFormed .expression v := by
  refine Expression.induction (P := fun s v => Genuine s → WellFormed .expression v) ?_ h
  intro s v h hs
  exact Assignment.wellFormed (fun _ _ hs h => h.2 hs) h hs

/-- Statements of genuine tokens are well-formed. -/
theorem Statements.wellFormed {S : Language Node}
    (hS : ∀ t w, Genuine t → S t w → WellFormed .statement w) {s : List Token} {vs : List Node}
    (h : Statements S s vs) (hs : Genuine s) : ∀ v ∈ vs, WellFormed .statement v := by
  induction h with
  | none => simp
  | more h _ _ ih =>
    obtain ⟨hs, ht⟩ := genuine_append.mp hs
    rw [List.forall_mem_cons]
    exact ⟨hS _ _ hs h, ih ht⟩

/-- The names that well-formed arguments consist of. -/
theorem isIdentifier_of_forall₂ {args : List Node} {names : List String}
    (h : List.Forall₂ IsName args names) (hargs : ∀ v ∈ args, WellFormed .expression v) :
    ∀ name ∈ names, IsIdentifier name := by
  induction h with
  | nil => simp
  | cons h _ ih =>
    rw [List.forall_mem_cons] at hargs ⊢
    refine ⟨?_, ih hargs.2⟩
    obtain ⟨place, rfl⟩ := h
    cases hargs.1 with
    | identifier hname => exact hname

/-- Statements of genuine tokens are well formed. -/
theorem Statement.wellFormed {s : List Token} {v : Node} (h : Statement s v) :
    Genuine s → WellFormed .statement v := by
  refine Statement.induction (P := fun s v => Genuine s → WellFormed .statement v) ?_ h
  intro s v h hs
  cases h with
  | declare _ hname _ =>
    have hrest := (genuine_cons.mp hs).2
    exact .declare ((genuine_cons.mp hrest).1.1 hname)
  | define constant _ hname _ h _ =>
    obtain ⟨⟨hword, -⟩, hrest⟩ := genuine_cons.mp (genuine_cons.mp hs).2
    have hvalue := (genuine_append.mp (genuine_cons.mp hrest).2).1
    exact .define (hword hname) (h.wellFormed hvalue)
  | function _ hname hargs hnames _ hbody _ =>
    obtain ⟨⟨hword, -⟩, hrest⟩ := genuine_cons.mp (genuine_cons.mp hs).2
    obtain ⟨hsargs, hrest⟩ := genuine_append.mp hrest
    have hsbody := (genuine_append.mp (genuine_cons.mp hrest).2).1
    have hargs' := hargs.wellFormed (fun _ _ hs h => Expression.wellFormed h hs) hsargs
    exact .function (hword hname) (isIdentifier_of_forall₂ hnames hargs')
      (hbody.wellFormed (fun _ _ hs h => h.2 hs) hsbody)
  | expression h => exact .expression (h.wellFormed hs)
  | terminated h _ => exact .expression (h.wellFormed (genuine_append.mp hs).1)

end Language

/-- A program that is read is well formed. -/
theorem Program.wellFormed_of_ofStringWithin {limit : Nat} {source : String} {name : Option String}
    {program : Node} (h : ofStringWithin limit source name = .ok program) :
    program.WellFormed .program := by
  obtain ⟨ts, stop, htokens, hprogram⟩ := exists_programOf_of_ofStringWithin h
  have hgenuine := genuine_of_ofString htokens
  generalize ts ++ [stop] = tokens at hprogram hgenuine
  cases hprogram with
  | statements hbody _ =>
    exact .program (hbody.wellFormed (fun _ _ hs h => Statement.wellFormed ⟨limit, h⟩ hs)
      (genuine_append.mp hgenuine).1)

end BoSyntax
