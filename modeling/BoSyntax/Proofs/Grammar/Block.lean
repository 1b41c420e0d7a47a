import BoSyntax.Proofs.Grammar.Derivation
import BoSyntax.Proofs.Node.Inventory
import BoSyntax.Proofs.Text.Balance

/-!
# Blocks

A block is what stands between braces: the body of a function, or the properties of an object. The
braces among the tokens of a tree are balanced, and each opening one opens a block of some node of
the tree: it is the token that an object starts with, or the first brace behind the keyword that a
function starts with.
-/

namespace BoSyntax

open BoSyntax.Language

/-- Behind some tokens, a brace opens the block of a node. -/
inductive OpensBlock (before : List Token) (brace : Token) (node : Node) : Prop
  | object : node.kind = .objectLiteral → node.start = brace.start → OpensBlock before brace node
  | function {head keyword rest} : node.kind = .functionDeclaration →
    node.start = keyword.start → before = head ++ keyword :: rest →
    (∀ token ∈ keyword :: rest, token.type ≠ .openBrace) → OpensBlock before brace node

/-- More tokens may stand before the brace. -/
theorem OpensBlock.append {before : List Token} {brace : Token} {node : Node}
    (h : OpensBlock before brace node) (first : List Token) :
    OpensBlock (first ++ before) brace node := by
  cases h with
  | object hkind hstart => exact .object hkind hstart
  | function hkind hstart hbefore hrest =>
    rw [hbefore, ← List.append_assoc]
    exact .function hkind hstart rfl hrest

/-- The braces among some tokens are balanced and open the blocks of some nodes. -/
structure Blocks (s : List Token) (nodes : List Node) : Prop where
  balanced : Balanced TokenType.openBrace .closeBrace (s.map Token.type)
  opens : ∀ before brace after, s = before ++ brace :: after → brace.type = .openBrace →
    ∃ node ∈ nodes, OpensBlock before brace node

/-- The kinds of token that are braces. -/
def braceTypes : List TokenType :=
  [.openBrace, .closeBrace]

namespace Blocks

variable {s t : List Token} {nodes nodes' : List Node} {token opening closing : Token}

/-- More nodes may have their blocks elsewhere. -/
theorem mono (h : Blocks s nodes) (hsub : nodes ⊆ nodes') : Blocks s nodes' where
  balanced := h.balanced
  opens := fun before brace after hs hbrace => by
    obtain ⟨node, hmem, hnode⟩ := h.opens before brace after hs hbrace
    exact ⟨node, hsub hmem, hnode⟩

/-- No tokens are balanced, and nothing opens among them. -/
theorem nil : Blocks [] nodes where
  balanced := .nil
  opens := fun _ _ _ hs => by simp at hs

/-- Tokens without an opening brace open no block of any node. -/
theorem of_notMem (h : Blocks s nodes) (hs : ∀ token ∈ s, token.type ≠ .openBrace) :
    Blocks s nodes' where
  balanced := h.balanced
  opens := fun _ brace _ heq hbrace =>
    absurd hbrace (hs brace (heq ▸ List.mem_append_right _ List.mem_cons_self))

/-- Segments one after the other. -/
theorem append (h : Blocks s nodes) (h' : Blocks t nodes) : Blocks (s ++ t) nodes where
  balanced := by
    rw [List.map_append]
    exact h.balanced.append h'.balanced
  opens := fun before brace after hst hbrace => by
    rcases append_cons_eq_append hst.symm with ⟨rest, rfl, ht⟩ | ⟨rest, hs, rfl⟩
    · obtain ⟨node, hmem, hnode⟩ := h'.opens rest brace after ht hbrace
      exact ⟨node, hmem, hnode.append s⟩
    · exact h.opens before brace rest hs hbrace

/-- A token that is no brace. -/
theorem cons {type : TokenType} (h : Blocks s nodes) (htype : token.type = type)
    (hplain : type ∉ braceTypes) : Blocks (token :: s) nodes := by
  have hne : token.type ≠ .openBrace ∧ token.type ≠ .closeBrace := by
    simpa [braceTypes, htype] using hplain
  have hsingle : Blocks [token] nodes :=
    { balanced := .other hne.1 hne.2 .nil
      opens := fun before brace after hs hbrace => by
        have hmem : brace ∈ [token] := hs ▸ List.mem_append_right _ List.mem_cons_self
        rw [List.mem_singleton.mp hmem] at hbrace
        exact absurd hbrace hne.1 }
  exact hsingle.append h

/-- A single token that is no brace. -/
theorem singleton {type : TokenType} (htype : token.type = type) (hplain : type ∉ braceTypes) :
    Blocks [token] nodes :=
  nil.cons htype hplain

/-- A token that is no brace may stand behind the others. -/
theorem concat {type : TokenType} (h : Blocks s nodes) (htype : token.type = type)
    (hplain : type ∉ braceTypes) : Blocks (s ++ [token]) nodes :=
  h.append (.singleton htype hplain)

/-- A block of a node behind other tokens. -/
theorem block {node : Node} (h : Blocks s nodes) (h' : Blocks t nodes)
    (hopening : opening.type = .openBrace) (hclosing : closing.type = .closeBrace)
    (hmem : node ∈ nodes) (hnode : OpensBlock s opening node) :
    Blocks (s ++ opening :: (t ++ [closing])) nodes where
  balanced := by simpa [hopening, hclosing] using h.balanced.append h'.balanced.enclosed
  opens := fun before brace after hst hbrace => by
    rcases append_cons_eq_append hst.symm with ⟨rest, rfl, hrest⟩ | ⟨rest, hs, -⟩
    · rcases List.cons_eq_append_iff.mp hrest with ⟨rfl, hcons⟩ | ⟨inner, rfl, hinner⟩
      · obtain ⟨rfl, -⟩ := List.cons.inj hcons
        exact ⟨node, hmem, by rwa [List.append_nil]⟩
      · rcases append_cons_eq_append hinner.symm with ⟨_ | ⟨_, last⟩, rfl, hlast⟩ | ⟨last, ht, -⟩
        · obtain ⟨rfl, -⟩ := List.cons.inj hlast
          rw [hclosing] at hbrace
          cases hbrace
        · simp at hlast
        · obtain ⟨node, hmem, hnode⟩ := h'.opens _ brace last ht hbrace
          refine ⟨node, hmem, ?_⟩
          have happend := hnode.append (s ++ [opening])
          rwa [List.append_assoc] at happend
    · exact h.opens before brace rest hs hbrace

end Blocks

/-! ## Trees that are read -/

namespace Node

/-- A node is one of the nodes of its tree. -/
theorem mem_nodes_self (node : Node) : node ∈ node.nodes := by
  rw [nodes_eq]
  exact List.mem_cons_self

end Node

/-- What opens blocks of the nodes below a node opens blocks of nodes of that tree. -/
theorem Blocks.children {s : List Token} (node : Node)
    (h : Blocks s (node.children.flatMap Node.nodes)) : Blocks s node.nodes := by
  rw [Node.nodes_eq]
  exact h.mono (List.subset_cons_self _ _)

/-- What opens blocks of the nodes of a child opens blocks of nodes of its parent. -/
theorem Blocks.child {s : List Token} {node child : Node} (h : Blocks s child.nodes)
    (hmem : child ∈ node.children) : Blocks s node.nodes :=
  .children node (h.mono fun _ h => List.mem_flatMap.mpr ⟨child, hmem, h⟩)

namespace Language

open Node

section Expressions

variable {E : Language Node} {s : List Token} {v : Node}

/-- The blocks of a chain are those of its base and of its suffixes. -/
theorem Chain.blocks {Base : Language Node} {Suffix : Node → Language Node}
    (h : Chain Base Suffix s v) (hbase : ∀ t w, Base t w → Blocks t w.nodes)
    (hsuffix : ∀ u t w, Suffix u t w → u ∈ w.children ∧ Blocks t w.nodes) :
    Blocks s v.nodes := by
  induction h with
  | base h => exact hbase _ _ h
  | extend _ h ih =>
    obtain ⟨hmem, ht⟩ := hsuffix _ _ _ h
    exact (ih.child hmem).append ht

variable (hE : ∀ t w, E t w → Blocks t w.nodes)
include hE

/-- The blocks of a primary expression are those of the expression in its parentheses. -/
theorem Primary.blocks (h : Primary E s v) : Blocks s v.nodes := by
  cases h with
  | name htype => exact .singleton htype (by decide)
  | number htype _ => exact .singleton htype (by decide)
  | group hopening h hclosing =>
    exact ((hE _ _ h).concat hclosing (by decide)).cons hopening (by decide)

/-- The blocks of a row of members are those of the primary expression and of the keys. -/
theorem Member.blocks (h : Member E s v) : Blocks s v.nodes := by
  refine Chain.blocks h (fun _ _ h => h.blocks hE) fun u t w h => ?_
  cases h with
  | dot hdot h =>
    exact ⟨by simp [children], ((h.blocks hE).child (by simp [children])).cons hdot (by decide)⟩
  | index hopening h hclosing =>
    exact ⟨by simp [children],
      (((hE _ _ h).child (by simp [children])).concat hclosing (by decide)).cons hopening
        (by decide)⟩

/-- The blocks of items are those of each of them. -/
theorem Items.blocks {vs : List Node} (h : Items E s vs) : Blocks s (vs.flatMap nodes) := by
  induction h with
  | one h => exact (hE _ _ h).mono (by simp)
  | more h hcomma _ ih =>
    rw [List.flatMap_cons]
    exact ((hE _ _ h).mono (List.subset_append_left _ _)).append
      ((ih.mono (List.subset_append_right _ _)).cons hcomma (by decide))

/-- The blocks of arguments are those of each of them. -/
theorem Arguments.blocks {vs : List Node} (h : Arguments E s vs) :
    Blocks s (vs.flatMap nodes) := by
  cases h with
  | none hopening hclosing =>
    exact (Blocks.singleton hclosing (by decide)).cons hopening (by decide)
  | some hopening h hclosing =>
    exact ((h.blocks hE).concat hclosing (by decide)).cons hopening (by decide)

/-- The blocks of a row of calls are those of the callee and of the arguments. -/
theorem Call.blocks (h : Call E s v) : Blocks s v.nodes := by
  refine Chain.blocks h (fun _ _ h => Member.blocks hE h) fun u t w h => ?_
  obtain ⟨h⟩ := h
  refine ⟨by simp [children], .children _ ((h.blocks hE).mono ?_)⟩
  exact List.subset_append_right _ _

omit hE in
/-- The blocks of an operation are those of its operands. -/
theorem Operation.blocks {operators : List String} {L : Language Node}
    (hL : ∀ t w, L t w → Blocks t w.nodes) (h : Operation operators L s v) :
    Blocks s v.nodes := by
  refine Chain.blocks h hL fun u t w h => ?_
  obtain ⟨htype, -, h⟩ := h
  exact ⟨by simp [children], ((hL _ _ h).child (by simp [children])).cons htype (by decide)⟩

/-- The blocks of a sum are those of the calls in it. -/
theorem Sum.blocks (h : Sum E s v) : Blocks s v.nodes :=
  Operation.blocks (fun _ _ h => Operation.blocks (fun _ _ h => Call.blocks hE h) h) h

/-- The blocks of a property are those of its value. -/
theorem Property.blocks (h : Property E s v) : Blocks s v.nodes := by
  cases h with
  | shorthand hkey => exact .singleton hkey (by decide)
  | value hkey hcolon h =>
    exact (((hE _ _ h).child (by simp [children])).cons hcolon (by decide)).cons hkey (by decide)

/-- The blocks of properties are those of each of them. -/
theorem Properties.blocks {vs : List Node} (h : Properties E s vs) :
    Blocks s (vs.flatMap nodes) := by
  induction h with
  | none => exact .nil
  | one h => exact (h.blocks hE).mono (by simp)
  | more h hcomma _ ih =>
    rw [List.flatMap_cons]
    exact ((h.blocks hE).mono (List.subset_append_left _ _)).append
      ((ih.mono (List.subset_append_right _ _)).cons hcomma (by decide))

/-- The braces of an object open its own block; in it are the blocks of its properties. -/
theorem Object.blocks (h : Object E s v) : Blocks s v.nodes := by
  cases h with
  | braces hopening h hclosing =>
    exact Blocks.nil.block (.children (.object _ _) (h.blocks hE)) hopening hclosing
      (mem_nodes_self _) (.object rfl rfl)
  | sum h => exact Sum.blocks hE h

/-- The blocks of an assignment are those of its target and of its value. -/
theorem Assignment.blocks (h : Assignment E s v) : Blocks s v.nodes := by
  cases h with
  | object h => exact h.blocks hE
  | assign h hequals h' =>
    exact ((h.blocks hE).child (by simp [children])).append
      (((hE _ _ h').child (by simp [children])).cons hequals (by decide))

end Expressions

/-- The blocks of an expression. -/
theorem Expression.blocks {s : List Token} {v : Node} (h : Expression s v) : Blocks s v.nodes :=
  Expression.induction (fun _ _ h => Assignment.blocks (fun _ _ h => h.2) h) h

/-- The blocks of statements are those of each of them. -/
theorem Statements.blocks {S : Language Node} (hS : ∀ t w, S t w → Blocks t w.nodes)
    {s : List Token} {vs : List Node} (h : Statements S s vs) : Blocks s (vs.flatMap nodes) := by
  induction h with
  | none => exact .nil
  | more h _ _ ih =>
    rw [List.flatMap_cons]
    exact ((hS _ _ h).mono (List.subset_append_left _ _)).append
      (ih.mono (List.subset_append_right _ _))

/-- No block stands among names, so there is no brace among them. -/
theorem ne_openBrace_of_forall₂ {s : List Token} {args : List Node} {names : List String}
    (h : Blocks s (args.flatMap nodes)) (hnames : List.Forall₂ IsName args names) :
    ∀ token ∈ s, token.type ≠ .openBrace := by
  have hkind : ∀ node ∈ args.flatMap nodes, node.kind = .identifier := by
    clear h
    induction hnames with
    | nil => simp
    | cons hname _ ih =>
      obtain ⟨place, rfl⟩ := hname
      rw [List.flatMap_cons, nodes_eq]
      exact List.forall_mem_cons.mpr ⟨rfl, ih⟩
  intro token hmem hbrace
  obtain ⟨before, after, rfl⟩ := List.append_of_mem hmem
  obtain ⟨node, hnode, hopens⟩ := h.opens before token after rfl hbrace
  have hname := hkind node hnode
  cases hopens with
  | object hobject => exact absurd (hname.symm.trans hobject) (by decide)
  | function hfunction => exact absurd (hname.symm.trans hfunction) (by decide)

/-- The blocks of a statement. -/
theorem Statement.blocks {s : List Token} {v : Node} (h : Statement s v) : Blocks s v.nodes := by
  refine Statement.induction (P := fun s v => Blocks s v.nodes) ?_ h
  intro s v h
  cases h with
  | declare hkeyword hname hsemicolon =>
    exact ((Blocks.singleton hsemicolon (by decide)).cons hname (by decide)).cons hkeyword
      (by decide)
  | define constant hkeyword hname hequals h hsemicolon =>
    exact ((((h.blocks.child (by simp [children])).concat hsemicolon (by decide)).cons hequals
      (by decide)).cons hname (by decide)).cons hkeyword (by cases constant <;> decide)
  | @function keyword name s opening t closing args parameters body hkeyword hname hargs hnames
      hopening hbody hclosing =>
    have hargs := hargs.blocks fun _ _ => Expression.blocks
    have hplain := ne_openBrace_of_forall₂ hargs hnames
    have hhead {nodes} : Blocks (keyword :: name :: s) nodes :=
      ((hargs.of_notMem hplain).cons hname (by decide)).cons hkeyword (by decide)
    have hbody := hbody.blocks fun _ _ h => h.2
    refine hhead.block (.children (.function _ _ _ _) hbody) hopening hclosing (mem_nodes_self _)
      (.function rfl rfl (List.nil_append _).symm ?_)
    simpa [hkeyword, hname] using hplain
  | expression h => exact h.blocks
  | terminated h hsemicolon => exact h.blocks.concat hsemicolon (by decide)

end Language

end BoSyntax
