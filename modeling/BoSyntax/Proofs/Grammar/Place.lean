import BoSyntax.Proofs.Grammar.Block
import BoSyntax.Proofs.Grammar.Soundness
import BoSyntax.Proofs.Token.Order

/-!
# The places of nodes

Parentheses around an expression leave no trace in its tree, and what extends an expression starts
where the expression does. So a node starts at the first token of its phrase that is no opening
parenthesis. The nodes below it start at further tokens of the phrase, in the order of these: each
name and each number at a token of its own, all others together with a node below them or before it.
-/

namespace BoSyntax

open BoSyntax.Language TokenCursor

/-! ## Where a node starts -/

namespace NodeKind

/-- Whether nodes of a kind start at tokens of a kind of their own. -/
def isAnchored : NodeKind → Bool
  | .varDeclaration | .functionDeclaration | .objectLiteral => true
  | _ => false

/-- Whether nodes of a kind are one token each. -/
def isTerminal : NodeKind → Bool
  | .identifier | .numericLiteral => true
  | _ => false

end NodeKind

namespace Node

/-- A node starts at a token: a declaration at its keyword, and an object at its brace. -/
structure StartsAt (node : Node) (token : Token) : Prop where
  start : node.start = token.start
  of_variable : node.kind = .varDeclaration → token.type = .letKeyword ∨ token.type = .constKeyword
  of_function : node.kind = .functionDeclaration → token.type = .fnKeyword
  of_object : node.kind = .objectLiteral → token.type = .openBrace

/-- Nodes of other kinds start at a token if their place is that of the token. -/
theorem StartsAt.of_start {node : Node} {token : Token} (h : node.start = token.start)
    (hkind : node.kind.isAnchored = false) : node.StartsAt token where
  start := h
  of_variable := fun heq => by simp [heq, NodeKind.isAnchored] at hkind
  of_function := fun heq => by simp [heq, NodeKind.isAnchored] at hkind
  of_object := fun heq => by simp [heq, NodeKind.isAnchored] at hkind

end Node

/-- The first of some tokens that is no opening parenthesis. -/
def Token.leading? (tokens : List Token) : Option Token :=
  tokens.find? fun token => token.type ≠ .openParen

/-- The first token ahead that is no opening parenthesis. -/
def TokenCursor.leading (cursor : TokenCursor) : Token :=
  (Token.leading? cursor.ahead).getD cursor.stop

namespace Language

/-- A node starts at the first token of a segment that is no opening parenthesis. -/
def Leads (s : List Token) (v : Node) : Prop :=
  ∃ token, Token.leading? s = some token ∧ v.StartsAt token

section Leads

variable {E : Language Node} {s t : List Token} {u v : Node} {token : Token}

/-- More tokens behind it do not change where a segment starts. -/
theorem Leads.append (h : Leads s v) : Leads (s ++ t) v := by
  obtain ⟨token, htoken, hstart⟩ := h
  exact ⟨token, by rw [Token.leading?, List.find?_append, ← Token.leading?, htoken]; rfl, hstart⟩

/-- An opening parenthesis does not count. -/
theorem Leads.cons_openParen (h : Leads s v) (htoken : token.type = .openParen) :
    Leads (token :: s) v := by
  obtain ⟨first, hfirst, hstart⟩ := h
  exact ⟨first, by rwa [Token.leading?, List.find?_cons_of_neg (by simp [htoken])], hstart⟩

/-- Any other token is the first one. -/
theorem leads_cons (htoken : token.type ≠ .openParen) (h : v.StartsAt token) :
    Leads (token :: s) v :=
  ⟨token, by rw [Token.leading?, List.find?_cons_of_pos (by simp [htoken])], h⟩

/-- What starts with another node starts where that one does. -/
theorem Leads.of_start (h : Leads s u) (hstart : v.start = u.start)
    (hkind : v.kind.isAnchored = false) : Leads s v := by
  obtain ⟨token, htoken, hat⟩ := h
  exact ⟨token, htoken, .of_start (hstart.trans hat.start) hkind⟩

/-- A chain starts where its base does, if each suffix keeps the start of what it extends. -/
theorem Chain.leads {Base : Language Node} {Suffix : Node → Language Node}
    (h : Chain Base Suffix s v) (hbase : ∀ t w, Base t w → Leads t w)
    (hsuffix : ∀ u t w, Suffix u t w → w.start = u.start ∧ w.kind.isAnchored = false) :
    Leads s v := by
  induction h with
  | base h => exact hbase _ _ h
  | extend _ h ih =>
    obtain ⟨hstart, hkind⟩ := hsuffix _ _ _ h
    exact ih.append.of_start hstart hkind

/-- Operands joined by operators start where the first operand does. -/
theorem Operation.leads {operators : List String} {L : Language Node}
    (hL : ∀ t w, L t w → Leads t w) (h : Operation operators L s v) : Leads s v := by
  refine Chain.leads h hL ?_
  rintro u t w ⟨_, _, _⟩
  exact ⟨rfl, rfl⟩

variable (hE : ∀ t w, E t w → Leads t w)
include hE

/-- A primary expression starts at its token, or behind its parenthesis where the inner expression
does. -/
theorem Primary.leads (h : Primary E s v) : Leads s v := by
  cases h with
  | name htype => exact leads_cons (by simp [htype]) (.of_start rfl rfl)
  | number htype _ => exact leads_cons (by simp [htype]) (.of_start rfl rfl)
  | group hopening h _ => exact (hE _ _ h).append.cons_openParen hopening

/-- A row of members starts where its primary expression does. -/
theorem Member.leads (h : Member E s v) : Leads s v := by
  refine Chain.leads h (fun _ _ h => h.leads hE) ?_
  rintro u t w (⟨_, _⟩ | ⟨_, _, _⟩) <;> exact ⟨rfl, rfl⟩

/-- A row of calls starts where its member does. -/
theorem Call.leads (h : Call E s v) : Leads s v := by
  refine Chain.leads h (fun _ _ h => Member.leads hE h) ?_
  rintro u t w ⟨_⟩
  exact ⟨rfl, rfl⟩

/-- A product starts where its first factor does. -/
theorem Product.leads (h : Product E s v) : Leads s v :=
  Operation.leads (fun _ _ h => Call.leads hE h) h

/-- A sum starts where its first term does. -/
theorem Sum.leads (h : Sum E s v) : Leads s v :=
  Operation.leads (fun _ _ h => Product.leads hE h) h

/-- An object starts at its brace, and a sum in its place where the sum does. -/
theorem Object.leads (h : Object E s v) : Leads s v := by
  cases h with
  | braces hopening _ _ =>
    exact leads_cons (by simp [hopening])
      { start := rfl, of_variable := nofun, of_function := nofun, of_object := fun _ => hopening }
  | sum h => exact h.leads hE

/-- An assignment starts where its target does. -/
theorem Assignment.leads (h : Assignment E s v) : Leads s v := by
  cases h with
  | object h => exact h.leads hE
  | assign h _ _ => exact (h.leads hE).append.of_start rfl rfl

/-- A declaration starts at its keyword, and an expression statement where the expression does. -/
theorem StatementForm.leads {P S : Language Node} (h : StatementForm E P S s v) : Leads s v := by
  cases h with
  | declare hkeyword _ _ =>
    exact leads_cons (by simp [hkeyword])
      { start := rfl, of_variable := fun _ => .inl hkeyword, of_function := nofun,
        of_object := nofun }
  | @define keyword _ _ _ _ _ constant hkeyword _ _ _ _ =>
    have hword : keyword.type = .letKeyword ∨ keyword.type = .constKeyword := by
      cases constant <;> simp [hkeyword]
    exact leads_cons (by rcases hword with h | h <;> simp [h])
      { start := rfl, of_variable := fun _ => hword, of_function := nofun, of_object := nofun }
  | function hkeyword _ _ _ _ _ _ =>
    exact leads_cons (by simp [hkeyword])
      { start := rfl, of_variable := nofun, of_function := fun _ => hkeyword, of_object := nofun }
  | expression h => exact hE _ _ h
  | terminated h _ => exact (hE _ _ h).append

end Leads

/-- An expression starts at its first token that is no opening parenthesis. -/
theorem ExpressionWithin.leads {depth : Nat} {s : List Token} {v : Node}
    (h : ExpressionWithin depth s v) : Leads s v := by
  induction depth generalizing s v with
  | zero => exact h.elim
  | succ depth ih => exact Assignment.leads (fun _ _ h => ih h) h

/-- A statement starts at its first token that is no opening parenthesis. -/
theorem StatementWithin.leads {depth : Nat} {s : List Token} {v : Node}
    (h : StatementWithin depth s v) : Leads s v := by
  cases depth with
  | zero => exact h.elim
  | succ depth => exact StatementForm.leads (fun _ _ h => h.leads) h

end Language

namespace Rule

variable {depth limit : Nat} {c d : TokenCursor} {v : Node}

/-- The rules for statements and for expressions, from loose to tight, that are handed no expression
already read. -/
def phraseRules (depth : Nat) : List (Rule Node) :=
  [statement depth, expression depth, assignment (expression depth), object (expression depth),
    additive (expression depth), multiplicative (expression depth), callMember (expression depth),
    member (expression depth), primary (expression depth)]

/-- What a rule gives starts at the first token ahead that is no opening parenthesis, if it does in
its segment. -/
theorem Reads.startsAt_leading {rule : Rule Node} {Related : List Token → Node → Token → Prop}
    (hreads : rule.Reads depth Related) (hleads : ∀ s v token, Related s v token → Leads s v)
    (h : rule c = .ok v d) : v.StartsAt c.leading := by
  obtain ⟨s, hs, hrelated⟩ := hreads.of_eq_ok h
  obtain ⟨token, htoken, hstart⟩ := (hleads _ _ _ hrelated).append (t := d.ahead)
  rwa [leading, hs.ahead, htoken]

/-- Statements and expressions start at the first token ahead that is no opening parenthesis. -/
theorem startsAt_leading {rule : Rule Node} (hrule : rule ∈ phraseRules depth)
    (h : rule c = .ok v d) : v.StartsAt c.leading := by
  have hreads := expression_reads depth
  have hE : ∀ t w, ExpressionWithin depth t w → Leads t w := fun _ _ h => h.leads
  simp only [phraseRules, List.mem_cons, List.not_mem_nil, or_false] at hrule
  rcases hrule with rfl | rfl | rfl | rfl | rfl | rfl | rfl | rfl | rfl
  · exact (statement_reads depth).startsAt_leading (fun _ _ _ h => h.1.leads) h
  · exact hreads.startsAt_leading (fun _ _ _ h => h.1.leads) h
  · exact (assignment_reads hreads).startsAt_leading (fun _ _ _ h => h.1.leads hE) h
  · exact (object_reads hreads).startsAt_leading (fun _ _ _ h => h.1.leads hE) h
  · exact (additive_reads hreads).startsAt_leading (fun _ _ _ h => Sum.leads hE h.1) h
  · exact (operation_reads (callMember_reads hreads)).startsAt_leading
      (fun _ _ _ h => Product.leads hE h.1) h
  · exact (callMember_reads hreads).startsAt_leading (fun _ _ _ h => Call.leads hE h.1) h
  · exact (member_reads hreads).startsAt_leading (fun _ _ _ h => Member.leads hE h) h
  · exact (primary_reads hreads).startsAt_leading (fun _ _ _ h => h.leads hE) h

/-- A declaration starts at its keyword. -/
theorem startsAt_current_of_declaration
    (h : (c.current.type = .letKeyword ∨ c.current.type = .constKeyword) ∧
        variableDeclaration (expression depth) c = .ok v d ∨
      c.current.type = .fnKeyword ∧
        functionDeclaration (expression depth) (statement depth) c = .ok v d) :
    v.StartsAt c.current := by
  have hform : ∃ s, c.Takes s d ∧ Phrase (StatementForm (ExpressionWithin depth)
      (ExpressionWithin depth) (StatementWithin depth)) s v d.current := by
    rcases h with ⟨hkeyword | hkeyword, h⟩ | ⟨hkeyword, h⟩
    · exact (variableDeclaration_reads (expression_reads depth) false hkeyword).of_eq_ok h
    · exact (variableDeclaration_reads (expression_reads depth) true hkeyword).of_eq_ok h
    · exact (functionDeclaration_reads (expression_reads depth) (statement_reads depth)
        (fun _ _ h => h.starts.ne_nil) hkeyword).of_eq_ok h
  obtain ⟨s, hs, hphrase, -⟩ := hform
  obtain ⟨token, htoken, hstart⟩ := StatementForm.leads (fun _ _ h => h.leads) hphrase
  have hcurrent : c.current.type ≠ .openParen := by
    rcases h with ⟨h | h, -⟩ | ⟨h, -⟩ <;> simp [h]
  rw [hs.current] at hcurrent ⊢
  cases s with
  | nil => cases htoken
  | cons first rest =>
    rw [Token.leading?, List.find?_cons_of_pos (by simpa using hcurrent),
      Option.some.injEq] at htoken
    rwa [List.headD_cons, htoken]

/-- A property has the name of its key and starts there. -/
theorem eq_entry_of_propertyStep (h : propertyStep (expression depth) c = .ok (some v) d) :
    c.current.type = .identifier ∧
      ∃ value, v = .entry c.current.start c.current.lexeme value := by
  obtain ⟨s, hs, hround⟩ := (propertyStep_reads (expression_reads depth)).of_eq_ok h
  have hproperty : ∃ t, Property (ExpressionWithin depth) t v ∧
      c.current = t.headD d.current := by
    rw [hs.current]
    cases hround with
    | last h _ => exact ⟨s, h, rfl⟩
    | @further t _ _ _ h _ =>
      obtain ⟨token, rest, rfl⟩ := List.exists_cons_of_ne_nil h.starts.ne_nil
      exact ⟨_, h, rfl⟩
  obtain ⟨t, ht, hcurrent⟩ := hproperty
  rw [hcurrent]
  cases ht with
  | shorthand hkey => exact ⟨hkey, none, rfl⟩
  | value hkey _ _ => exact ⟨hkey, some _, rfl⟩

/-- A program starts at the first token. -/
theorem start_of_program (h : program limit c = .ok v d) : v.start = c.current.start := by
  obtain ⟨s, hs, -, vs, -, rfl⟩ := (program_reads limit).of_eq_ok h
  rw [hs.current]
  rfl

end Rule

/-! ## The nodes of a tree along its tokens -/

namespace Node

/-- Of two nodes the second one does not start before the first one, and if both are one token each
it starts behind it. -/
def Precedes (u v : Node) : Prop :=
  u.start ≤ v.start ∧ (u.kind.isTerminal = true → v.kind.isTerminal = true → u.start < v.start)

/-- A node starts at a token, and if it is a name, that is the token. -/
def StandsAt (node : Node) (token : Token) : Prop :=
  node.start = token.start ∧ ∀ place symbol, node = .identifier place symbol →
    token.type = .identifier ∧ token.lexeme = symbol

end Node

/-- Nodes stand at tokens of a segment, and in their order if the tokens are in order. -/
structure Along (s : List Token) (nodes : List Node) : Prop where
  exists_token : ∀ node ∈ nodes, ∃ token ∈ s, node.StandsAt token
  ordered : (s.map Token.start).Pairwise (· < ·) → nodes.Pairwise Node.Precedes

namespace Along

variable {s t : List Token} {nodes nodes' : List Node} {token : Token} {node child : Node}

/-- No nodes stand along any tokens. -/
theorem nil : Along s [] :=
  ⟨by simp, fun _ => .nil⟩

/-- Segments one after the other. -/
theorem append (h : Along s nodes) (h' : Along t nodes') : Along (s ++ t) (nodes ++ nodes') where
  exists_token := List.forall_mem_append.mpr
    ⟨fun node hmem => (h.exists_token node hmem).imp fun _ h => ⟨List.mem_append_left _ h.1, h.2⟩,
      fun node hmem =>
        (h'.exists_token node hmem).imp fun _ h => ⟨List.mem_append_right _ h.1, h.2⟩⟩
  ordered := by
    rw [List.map_append, List.pairwise_append, List.pairwise_append]
    refine fun ⟨hs, ht, hst⟩ => ⟨h.ordered hs, h'.ordered ht, fun u hu v hv => ?_⟩
    obtain ⟨token, htoken, hat, -⟩ := h.exists_token u hu
    obtain ⟨token', htoken', hat', -⟩ := h'.exists_token v hv
    have hlt := hst _ (List.mem_map_of_mem htoken) _ (List.mem_map_of_mem htoken')
    rw [Node.Precedes, hat, hat']
    exact ⟨hlt.le, fun _ _ => hlt⟩

/-- There may be further tokens. -/
theorem mono (h : Along s nodes) (hsub : s.Sublist t) : Along t nodes where
  exists_token := fun node hmem =>
    (h.exists_token node hmem).imp fun _ h => ⟨hsub.subset h.1, h.2⟩
  ordered := fun ht => h.ordered (ht.sublist (hsub.map _))

/-- Delimiters around tokens change nothing about what stands along them. -/
theorem enclosed {opening closing : Token} (h : Along s nodes) :
    Along (opening :: (s ++ [closing])) nodes :=
  h.mono ((List.sublist_append_left _ _).cons _)

/-- A name or a number stands at its token. -/
theorem terminal (hchildren : node.children = []) (h : node.StandsAt token) :
    Along [token] node.nodes := by
  rw [Node.nodes_eq, hchildren]
  exact ⟨by simpa using h, fun _ => List.pairwise_singleton _ _⟩

/-- A node that stands at a token and not behind the nodes below it. -/
theorem root (h : Along s (node.children.flatMap Node.nodes))
    (hkind : node.kind.isTerminal = false) (htoken : ∃ token ∈ s, node.start = token.start)
    (hle : (s.map Token.start).Pairwise (· < ·) →
      ∀ v ∈ node.children.flatMap Node.nodes, node.start ≤ v.start) :
    Along s node.nodes := by
  rw [Node.nodes_eq]
  refine ⟨List.forall_mem_cons.mpr ⟨?_, h.exists_token⟩, fun hs => List.pairwise_cons.mpr
    ⟨fun v hmem => ⟨hle hs v hmem, fun h => absurd h (by simp [hkind])⟩, h.ordered hs⟩⟩
  obtain ⟨token, hmem, hstart⟩ := htoken
  refine ⟨token, hmem, hstart, ?_⟩
  rintro place symbol rfl
  exact absurd hkind Bool.noConfusion

/-- A node that stands at the first token. -/
theorem first (h : Along (token :: s) (node.children.flatMap Node.nodes))
    (hkind : node.kind.isTerminal = false) (hstart : node.start = token.start) :
    Along (token :: s) node.nodes := by
  refine h.root hkind ⟨token, List.mem_cons_self, hstart⟩ fun hs v hmem => ?_
  obtain ⟨token', htoken', hat, -⟩ := h.exists_token v hmem
  rw [hstart, hat]
  rcases List.mem_cons.mp htoken' with rfl | htoken'
  · exact le_rfl
  · exact ((List.pairwise_cons.mp hs).1 _ (List.mem_map_of_mem htoken')).le

/-- A node that stands where the first node below it does. -/
theorem leftmost (h : Along s (node.children.flatMap Node.nodes))
    (hkind : node.kind.isTerminal = false) {rest : List Node}
    (hchildren : node.children = child :: rest) (hstart : node.start = child.start) :
    Along s node.nodes := by
  have hnodes : node.children.flatMap Node.nodes =
      child :: (child.children ++ rest).flatMap Node.nodes := by
    rw [hchildren, List.flatMap_cons, Node.nodes_eq, List.cons_append, List.flatMap_append]
  refine h.root hkind ?_ fun hs v hmem => ?_
  · rw [hnodes] at h
    obtain ⟨token, hmem, hat, -⟩ := h.exists_token child List.mem_cons_self
    exact ⟨token, hmem, hstart.trans hat⟩
  · have hordered := h.ordered hs
    rw [hnodes] at hordered hmem
    rw [hstart]
    rcases List.mem_cons.mp hmem with rfl | hmem
    · exact le_rfl
    · exact ((List.pairwise_cons.mp hordered).1 v hmem).1

end Along

namespace Language

open Node

section Expressions

variable {E : Language Node} {s : List Token} {v : Node}

/-- The nodes of a chain stand along its tokens, if those of the base and of each suffix do and a
suffix starts where what it extends does. -/
theorem Chain.along {Base : Language Node} {Suffix : Node → Language Node}
    (h : Chain Base Suffix s v) (hbase : ∀ t w, Base t w → Along t w.nodes)
    (hsuffix : ∀ u t w, Suffix u t w → w.kind.isTerminal = false ∧ w.start = u.start ∧
      ∃ rest, w.children = u :: rest ∧ Along t (rest.flatMap nodes)) : Along s v.nodes := by
  induction h with
  | base h => exact hbase _ _ h
  | extend _ h ih =>
    obtain ⟨hkind, hstart, rest, hchildren, hrest⟩ := hsuffix _ _ _ h
    have hall := ih.append hrest
    rw [← List.flatMap_cons, ← hchildren] at hall
    exact hall.leftmost hkind hchildren hstart

/-- The nodes of operands joined by operators stand along their tokens. -/
theorem Operation.along {operators : List String} {L : Language Node}
    (hL : ∀ t w, L t w → Along t w.nodes) (h : Operation operators L s v) :
    Along s v.nodes := by
  refine Chain.along h hL fun u t w h => ?_
  obtain ⟨_, _, h⟩ := h
  refine ⟨rfl, rfl, _, rfl, ?_⟩
  rw [List.flatMap_singleton]
  exact (hL _ _ h).mono (List.sublist_cons_self _ _)

variable (hE : ∀ t w, E t w → Along t w.nodes)
include hE

/-- The nodes of a primary expression stand along its tokens. -/
theorem Primary.along (h : Primary E s v) : Along s v.nodes := by
  cases h with
  | name htype => exact .terminal rfl ⟨rfl, by simp [htype]⟩
  | number _ _ => exact .terminal rfl ⟨rfl, by simp⟩
  | group _ h _ => exact (hE _ _ h).enclosed

/-- The nodes of a row of members stand along its tokens. -/
theorem Member.along (h : Member E s v) : Along s v.nodes := by
  refine Chain.along h (fun _ _ h => h.along hE) fun u t w h => ?_
  cases h with
  | dot _ h =>
    refine ⟨rfl, rfl, _, rfl, ?_⟩
    rw [List.flatMap_singleton]
    exact (h.along hE).mono (List.sublist_cons_self _ _)
  | index _ h _ =>
    refine ⟨rfl, rfl, _, rfl, ?_⟩
    rw [List.flatMap_singleton]
    exact (hE _ _ h).enclosed

/-- The nodes of listed expressions stand along their tokens. -/
theorem Items.along {vs : List Node} (h : Items E s vs) : Along s (vs.flatMap nodes) := by
  induction h with
  | one h =>
    rw [List.flatMap_singleton]
    exact hE _ _ h
  | more h _ _ ih =>
    rw [List.flatMap_cons]
    exact (hE _ _ h).append (ih.mono (List.sublist_cons_self _ _))

/-- The nodes of arguments stand along their tokens. -/
theorem Arguments.along {vs : List Node} (h : Arguments E s vs) : Along s (vs.flatMap nodes) := by
  cases h with
  | none _ _ => exact .nil
  | some _ h _ => exact (h.along hE).enclosed

/-- The nodes of a row of calls stand along its tokens. -/
theorem Call.along (h : Call E s v) : Along s v.nodes := by
  refine Chain.along h (fun _ _ h => Member.along hE h) fun u t w h => ?_
  obtain ⟨h⟩ := h
  exact ⟨rfl, rfl, _, rfl, h.along hE⟩

/-- The nodes of a sum stand along its tokens. -/
theorem Sum.along (h : Sum E s v) : Along s v.nodes :=
  Operation.along (fun _ _ h => Operation.along (fun _ _ h => Call.along hE h) h) h

/-- The nodes of a property stand along its tokens, its own at the key. -/
theorem Property.along (h : Property E s v) : Along s v.nodes := by
  cases h with
  | shorthand _ => exact Along.nil.first rfl rfl
  | value _ _ h =>
    refine Along.first ?_ rfl rfl
    rw [children, List.flatMap_singleton]
    exact (hE _ _ h).mono (((List.sublist_cons_self _ _).cons _))

/-- The nodes of properties stand along their tokens. -/
theorem Properties.along {vs : List Node} (h : Properties E s vs) :
    Along s (vs.flatMap nodes) := by
  induction h with
  | none => exact .nil
  | one h =>
    rw [List.flatMap_singleton]
    exact h.along hE
  | more h _ _ ih =>
    rw [List.flatMap_cons]
    exact (h.along hE).append (ih.mono (List.sublist_cons_self _ _))

/-- The nodes of an object or sum stand along its tokens. -/
theorem Object.along (h : Object E s v) : Along s v.nodes := by
  cases h with
  | braces _ h _ => exact Along.first ((h.along hE).enclosed) rfl rfl
  | sum h => exact Sum.along hE h

/-- The nodes of an assignment stand along its tokens. -/
theorem Assignment.along (h : Assignment E s v) : Along s v.nodes := by
  cases h with
  | object h => exact h.along hE
  | assign h _ h' =>
    refine Along.leftmost ?_ rfl rfl rfl
    rw [children, List.flatMap_cons, List.flatMap_singleton]
    exact (h.along hE).append ((hE _ _ h').mono (List.sublist_cons_self _ _))

end Expressions

/-- The nodes of an expression along its tokens. -/
theorem Expression.along {s : List Token} {v : Node} (h : Expression s v) : Along s v.nodes :=
  Expression.induction (fun _ _ h => Assignment.along (fun _ _ h => h.2) h) h

/-- The nodes of statements stand along their tokens. -/
theorem Statements.along {S : Language Node} (hS : ∀ t w, S t w → Along t w.nodes)
    {s : List Token} {vs : List Node} (h : Statements S s vs) : Along s (vs.flatMap nodes) := by
  induction h with
  | none => exact .nil
  | more h _ _ ih =>
    rw [List.flatMap_cons]
    exact (hS _ _ h).append ih

/-- The nodes of a statement along its tokens. -/
theorem Statement.along {s : List Token} {v : Node} (h : Statement s v) : Along s v.nodes := by
  refine Statement.induction (P := fun s v => Along s v.nodes) ?_ h
  intro s v h
  cases h with
  | declare _ _ _ => exact Along.nil.first rfl rfl
  | define constant _ _ _ h _ =>
    refine Along.first ?_ rfl rfl
    rw [children, List.flatMap_singleton]
    exact h.along.enclosed.mono ((List.sublist_cons_self _ _).cons _)
  | function _ _ _ _ _ hbody _ =>
    refine Along.first (Along.mono ?_ (((List.sublist_append_right _ _).cons _).cons _)) rfl rfl
    exact (hbody.along fun _ _ h => h.2).enclosed
  | expression h => exact h.along
  | terminated h _ => exact h.along.mono (List.sublist_append_left _ _)

/-- The nodes of a program along its tokens. -/
theorem Program.along {s : List Token} {v : Node} (h : Program s v) : Along s v.nodes := by
  cases h with
  | @statements s stop vs hbody _ =>
    have hall := (hbody.along fun _ _ h => h.along).mono (List.sublist_append_left s [stop])
    cases s with
    | nil => exact Along.first hall rfl rfl
    | cons token s => exact Along.first hall rfl rfl

end Language

end BoSyntax
