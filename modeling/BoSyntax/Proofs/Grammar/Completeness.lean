import BoSyntax.Proofs.Grammar.Soundness
import BoSyntax.Proofs.Step

/-!
# What the rules of the grammar accept

Each rule accepts every phrase of its language, if the token behind it does not continue the phrase.
Loops end where they should because such a token starts no further round, and inside a chain because
the first token of a suffix continues none of the phrases before it.
-/

namespace BoSyntax.Rule

open BoSyntax.Language TokenCursor

variable {α : Type}

/-- A rule accepts a language: it gives the value of every segment that a fitting token follows. -/
def Accepts (rule : Rule α) (L : Language α) (Follow : List Token → Token → Prop) : Prop :=
  ∀ c s v d, L s v → c.Takes s d → Follow s d.current → rule c = .ok v d

/-! ## What may follow a phrase -/

/-- The token is one of some operators. -/
def IsOperator (operators : List String) (token : Token) : Prop :=
  token.type = .binaryOperator ∧ token.lexeme ∈ operators

/-- The token does not continue a member. -/
def AfterMember (token : Token) : Prop :=
  token.type ≠ .dot ∧ token.type ≠ .openBracket

/-- The token does not continue a call. -/
def AfterCall (token : Token) : Prop :=
  AfterMember token ∧ token.type ≠ .openParen

/-- The token does not continue a product. -/
def AfterProduct (token : Token) : Prop :=
  AfterCall token ∧ ¬IsOperator multiplicativeOperators token

/-- The token does not continue a sum. -/
def AfterSum (token : Token) : Prop :=
  AfterProduct token ∧ ¬IsOperator additiveOperators token

/-- The token does not continue an object or sum. -/
def AfterObject (s : List Token) (token : Token) : Prop :=
  AfterMember token ∧ token.type ≠ .binaryOperator ∧ Separated s token

/-- The token does not continue an expression. -/
def AfterExpression (s : List Token) (token : Token) : Prop :=
  AfterObject s token ∧ token.type ≠ .equals

/-- The token ends the statements or starts another one, and does not continue the one before. -/
def AfterStatement (s : List Token) (token : Token) : Prop :=
  token.type ∈ [.closeBrace, .endOfInput] ++ statementStarts ∧ Separated s token

/-- The kinds of token that close what an expression is part of. -/
def closers : List TokenType :=
  [.closeParen, .closeBracket, .closeBrace, .comma, .semicolon, .endOfInput]

/-- A token that closes something may follow every expression. -/
theorem afterExpression_of_mem_closers {s : List Token} {token : Token}
    (h : token.type ∈ closers) : AfterExpression s token := by
  simp only [closers, List.mem_cons, List.not_mem_nil, or_false] at h
  rcases h with h | h | h | h | h | h <;>
    simp [AfterExpression, AfterObject, AfterMember, Separated, h]

/-! ## Chains -/

section Chains

variable {Base : Language Node} {Suffix : Node → Language Node} {After Stop : Token → Prop}

/-- Extending goes through a chain: from the value of its base it comes to that of the chain, which
is extended from there on. -/
theorem grow_of_chain {operand : Rule Node} {extend : Node → Rule (Option Node)}
    (hshortens : ∀ v, (extend v).Shortens)
    (hoperand : operand.Accepts Base fun _ => After)
    (hextend : ∀ u c s w d, Suffix u s w → c.Takes s d → After d.current →
      extend u c = .ok (some w) d)
    (hhead : ∀ u s w token, Suffix u s w → After (s.headD token))
    {c d : TokenCursor} {s : List Token} {v : Node} (h : Chain Base Suffix s v) (hs : c.Takes s d)
    (hafter : After d.current) :
    (do grow extend (← operand) : Rule Node) c = grow extend v d := by
  induction h generalizing d with
  | base h => exact bind_of_eq_ok (hoperand _ _ _ _ h hs hafter)
  | @extend s t v w _ h ih =>
    obtain ⟨e, hs, ht⟩ := takes_append_iff.mp hs
    have hfirst : After e.current := by
      rw [ht.current]
      exact hhead v t w _ h
    rw [ih hs hfirst, grow_eq hshortens]
    exact bind_of_eq_ok (hextend v e t w d h ht hafter)

/-- A rule for an operand and suffixes accepts a chain, if no suffix can follow it. -/
theorem chain_accepts {operand : Rule Node} {extend : Node → Rule (Option Node)}
    (hshortens : ∀ v, (extend v).Shortens)
    (hoperand : operand.Accepts Base fun _ => After)
    (hextend : ∀ u c s w d, Suffix u s w → c.Takes s d → After d.current →
      extend u c = .ok (some w) d)
    (hhead : ∀ u s w token, Suffix u s w → After (s.headD token))
    (hstop : ∀ u c, Stop c.current → extend u c = .ok none c) :
    (do grow extend (← operand) : Rule Node).Accepts (Chain Base Suffix) fun _ token =>
      After token ∧ Stop token := by
  intro c s v d h hs ⟨hafter, hlast⟩
  rw [grow_of_chain hshortens hoperand hextend hhead h hs hafter, grow_eq hshortens]
  exact bind_of_eq_ok (hstop v d hlast)

end Chains

/-! ## Expressions -/

section Expressions

variable {inner : Rule Node} {depth : Nat} {E : Language Node}

/-- The rule for primary expressions accepts all of them, whatever follows. -/
theorem primary_accepts (hinner : inner.Accepts E AfterExpression) :
    (primary inner).Accepts (Primary E) fun _ _ => True := by
  intro c s v d h hs _
  rw [eq_ok_iff_ensures]
  cases h with
  | name htype =>
    obtain ⟨-, rfl, hnext⟩ := takes_cons_iff.mp hs
    rw [takes_nil_iff.mp hnext]
    simp only [primary, ensures_bind, ensures_current, htype, ensures_discard, ensures_advance,
      ensures_pure, and_self]
  | number htype hread =>
    obtain ⟨-, rfl, hnext⟩ := takes_cons_iff.mp hs
    rw [takes_nil_iff.mp hnext]
    simp only [primary, ensures_bind, ensures_current, htype, hread, ensures_discard,
      ensures_advance, ensures_pure, and_self]
  | group hopening h hclosing =>
    simp only [takes_cons_iff, takes_append_iff, takes_nil_iff] at hs
    obtain ⟨-, rfl, e, hs, -, rfl, rfl⟩ := hs
    have hv := hinner _ _ _ _ h hs (afterExpression_of_mem_closers (by simp [closers, hclosing]))
    simp only [primary, ensures_bind, ensures_current, hopening, ensures_discard, ensures_advance,
      ensures_of_eq_ok hv, ensures_expect, hclosing, ensures_pure, and_self, Ne, not_true,
      false_implies, true_implies]

/-- A suffix of a member is read as a round of the loop. -/
theorem memberStep_accepts (hinner : inner.Accepts E AfterExpression) {owner v : Node}
    {c d : TokenCursor} {s : List Token} (h : MemberSuffix E owner s v) (hs : c.Takes s d) :
    memberStep inner owner c = .ok (some v) d := by
  rw [eq_ok_iff_ensures]
  cases h with
  | dot hdot h =>
    obtain ⟨-, rfl, hrest⟩ := takes_cons_iff.mp hs
    have hname := primary_accepts hinner _ _ _ _ h hrest trivial
    simp only [memberStep, ensures_bind, ensures_current, hdot, ensures_discard, ensures_advance,
      ensures_of_eq_ok hname, ensures_ite, ensures_throw, ensures_build, ensures_pure]
    simp [Node.kind, Node.member?]
  | index hopening h hclosing =>
    simp only [takes_cons_iff, takes_append_iff, takes_nil_iff] at hs
    obtain ⟨-, rfl, e, hs, -, rfl, rfl⟩ := hs
    have hkey := hinner _ _ _ _ h hs (afterExpression_of_mem_closers (by simp [closers, hclosing]))
    simp only [memberStep, ensures_bind, ensures_current, hopening, ensures_discard,
      ensures_advance, ensures_of_eq_ok hkey, ensures_expect, hclosing, ensures_build, Node.member?,
      if_true, ensures_pure, and_self, Ne, not_true, false_implies, true_implies]

/-- A token that continues no member ends the loop. -/
theorem memberStep_stop {owner : Node} {c : TokenCursor} (h : AfterMember c.current) :
    memberStep inner owner c = .ok none c := by
  rw [eq_ok_iff_ensures]
  simp only [memberStep, ensures_bind, ensures_current]
  split
  next htype => exact absurd htype h.1
  next htype => exact absurd htype h.2
  next => simp only [ensures_pure, and_self]

/-- The rule for members accepts all of them. -/
theorem member_accepts (hreads : inner.Reads depth (Phrase E))
    (hinner : inner.Accepts E AfterExpression) :
    (member inner).Accepts (Member E) fun _ => AfterMember := by
  have hchain := chain_accepts (memberStep_shortens hreads) (primary_accepts hinner)
    (fun _ _ _ _ _ h hs _ => memberStep_accepts hinner h hs) (fun _ _ _ _ _ => trivial)
    fun _ _ h => memberStep_stop h
  exact fun c s v d h hs hafter => hchain c s v d h hs ⟨trivial, hafter⟩

/-- What follows a comma is read as a list of arguments is. -/
theorem ensures_many_furtherArgument (hreads : inner.Reads depth (Phrase E)) {c : TokenCursor}
    {done : List Node → TokenCursor → Prop} {failed : ParseFault → TokenCursor → Prop}
    (hcomma : c.current.type = .comma) :
    (many (furtherArgument inner)).Ensures c done failed ↔
      (argumentList inner).Ensures c.next done failed := by
  rw [many_eq (furtherArgument_shortens hreads)]
  simp only [furtherArgument, argumentList, ensures_bind, ensures_sees, ensures_ite, hcomma,
    beq_self_eq_true, ensures_discard, ensures_advance, ensures_pure]
  simp

/-- Arguments end where no comma follows. -/
theorem ensures_many_furtherArgument_stop (hreads : inner.Reads depth (Phrase E)) {c : TokenCursor}
    {done : List Node → TokenCursor → Prop} {failed : ParseFault → TokenCursor → Prop}
    (hcomma : c.current.type ≠ .comma) :
    (many (furtherArgument inner)).Ensures c done failed ↔ done [] c := by
  rw [many_eq (furtherArgument_shortens hreads)]
  simp only [furtherArgument, ensures_bind, ensures_sees, ensures_ite, beq_iff_eq, hcomma,
    ensures_pure]
  simp

/-- The rule for arguments without their parentheses accepts all lists of expressions. -/
theorem argumentList_accepts (hreads : inner.Reads depth (Phrase E))
    (hinner : inner.Accepts E AfterExpression) :
    (argumentList inner).Accepts (Items E) fun _ token => token.type = .closeParen := by
  intro c s vs d h hs hclose
  rw [eq_ok_iff_ensures]
  induction h generalizing c with
  | one h =>
    have hv := hinner _ _ _ _ h hs (afterExpression_of_mem_closers (by simp [closers, hclose]))
    have hcomma : d.current.type ≠ .comma := by simp [hclose]
    simp only [argumentList, ensures_bind, ensures_of_eq_ok hv,
      ensures_many_furtherArgument_stop hreads hcomma, ensures_pure, and_self]
  | more h hcomma _ ih =>
    simp only [takes_append_iff, takes_cons_iff] at hs
    obtain ⟨e, hs, -, rfl, ht⟩ := hs
    have hv := hinner _ _ _ _ h hs (afterExpression_of_mem_closers (by simp [closers, hcomma]))
    rw [argumentList, ensures_bind, ensures_of_eq_ok hv, ensures_bind,
      ensures_many_furtherArgument hreads hcomma]
    refine (ih _ ht).mono ?_ fun _ _ h => h
    rintro vs' d' ⟨rfl, rfl⟩
    exact ⟨rfl, rfl⟩

/-- The rule for arguments accepts all of them, whatever follows. -/
theorem arguments_accepts (hreads : inner.Reads depth (Phrase E))
    (hinner : inner.Accepts E AfterExpression)
    (hstarts : ∀ s v, E s v → Starts expressionStarts s) :
    (arguments inner).Accepts (Arguments E) fun _ _ => True := by
  intro c s vs d h hs _
  rw [eq_ok_iff_ensures]
  cases h with
  | none hopening hclosing =>
    simp only [takes_cons_iff, takes_nil_iff] at hs
    obtain ⟨-, rfl, -, rfl, rfl⟩ := hs
    simp only [arguments, ensures_bind, ensures_discard, ensures_expect, ensures_sees, ensures_ite,
      hopening, hclosing, ensures_pure, beq_self_eq_true]
    simp
  | some hopening h hclosing =>
    simp only [takes_cons_iff, takes_append_iff, takes_nil_iff] at hs
    obtain ⟨-, rfl, e, hs, -, rfl, rfl⟩ := hs
    have hvs := argumentList_accepts hreads hinner _ _ _ _ h hs hclosing
    have hfirst : c.next.current.type ∈ expressionStarts := by
      rw [hs.current]
      exact (h.starts hstarts).headD _
    have hne : c.next.current.type ≠ .closeParen := by
      intro hclose
      rw [hclose] at hfirst
      simp [expressionStarts, sumStarts] at hfirst
    simp only [arguments, ensures_bind, ensures_discard, ensures_expect, ensures_sees, ensures_ite,
      beq_iff_eq, hopening, hclosing, hne, ensures_of_eq_ok hvs, ensures_pure]
    simp

/-- A suffix of a call is read as a round of the loop. -/
theorem callStep_accepts (hreads : inner.Reads depth (Phrase E))
    (hinner : inner.Accepts E AfterExpression)
    (hstarts : ∀ s v, E s v → Starts expressionStarts s) {callee v : Node} {c d : TokenCursor}
    {s : List Token} (h : CallSuffix E callee s v) (hs : c.Takes s d) :
    callStep inner callee c = .ok (some v) d := by
  obtain ⟨hargs⟩ := h
  have hok := arguments_accepts hreads hinner hstarts _ _ _ _ hargs hs trivial
  have hopening : c.current.type = .openParen := by
    rw [hs.current]
    cases hargs <;> assumption
  rw [eq_ok_iff_ensures]
  simp only [callStep, ensures_bind, ensures_sees, ensures_ite, hopening, beq_self_eq_true,
    ensures_of_eq_ok hok, ensures_pure]
  simp

/-- A token that opens no arguments ends the loop. -/
theorem callStep_stop {callee : Node} {c : TokenCursor} (h : c.current.type ≠ .openParen) :
    callStep inner callee c = .ok none c := by
  rw [eq_ok_iff_ensures]
  simp only [callStep, ensures_bind, ensures_sees, ensures_ite, beq_iff_eq, h, ensures_pure]
  simp

/-- The rule for calls accepts all of them. -/
theorem callMember_accepts (hreads : inner.Reads depth (Phrase E))
    (hinner : inner.Accepts E AfterExpression)
    (hstarts : ∀ s v, E s v → Starts expressionStarts s) :
    (callMember inner).Accepts (Call E) fun _ => AfterCall := by
  rw [callMember_eq hreads]
  refine chain_accepts (callStep_shortens hreads) (member_accepts hreads hinner)
    (fun _ _ _ _ _ h hs _ => callStep_accepts hreads hinner hstarts h hs) ?_
    fun _ _ h => callStep_stop h
  rintro u s w token ⟨hargs⟩
  cases hargs <;> simp_all [AfterMember]

/-- An operator and its right operand are read as a round of the loop. -/
theorem operationStep_accepts {operators : List String} {operand : Rule Node} {L : Language Node}
    {After : Token → Prop} (hoperand : operand.Accepts L fun _ => After) {left v : Node}
    {c d : TokenCursor} {s : List Token} (h : OperationSuffix operators L left s v)
    (hs : c.Takes s d) (hafter : After d.current) :
    operationStep operators operand left c = .ok (some v) d := by
  obtain ⟨htype, hmem, h⟩ := h
  obtain ⟨-, rfl, hrest⟩ := takes_cons_iff.mp hs
  have hright := hoperand _ _ _ _ h hrest hafter
  rw [eq_ok_iff_ensures]
  simp only [operationStep, ensures_bind, ensures_current, ensures_ite, htype, ensures_discard,
    ensures_advance, ensures_of_eq_ok hright, ensures_pure]
  simp [hmem]

/-- A token that is none of the operators ends the loop. -/
theorem operationStep_stop {operators : List String} {operand : Rule Node} {left : Node}
    {c : TokenCursor} (h : ¬IsOperator operators c.current) :
    operationStep operators operand left c = .ok none c := by
  rw [eq_ok_iff_ensures]
  simp only [operationStep, ensures_bind, ensures_current, ensures_ite, Bool.and_eq_true,
    beq_iff_eq, List.contains_iff_mem, ensures_pure, and_self, implies_true, and_true]
  exact fun hoperator => absurd hoperator h

/-- A rule for operands joined by operators accepts what its operands allow. -/
theorem operation_accepts {operators : List String} {operand : Rule Node} {L : Language Node}
    {After : Token → Prop}
    (hreads : operand.Reads depth fun s v token => L s v ∧ token.type ≠ .openParen)
    (hoperand : operand.Accepts L fun _ => After)
    (hafter : ∀ token, IsOperator operators token → After token) :
    (operation operators operand).Accepts (Operation operators L) fun _ token =>
      After token ∧ ¬IsOperator operators token := by
  refine chain_accepts (operationStep_shortens hreads) hoperand
    (fun _ _ _ _ _ h hs hafter => operationStep_accepts hoperand h hs hafter) ?_
    fun _ _ h => operationStep_stop h
  rintro u s w token ⟨htype, hmem, -⟩
  exact hafter _ ⟨htype, hmem⟩

/-- The rule for sums accepts all of them. -/
theorem additive_accepts (hreads : inner.Reads depth (Phrase E))
    (hinner : inner.Accepts E AfterExpression)
    (hstarts : ∀ s v, E s v → Starts expressionStarts s) :
    (additive inner).Accepts (Sum E) fun _ => AfterSum := by
  have hcall := callMember_reads hreads
  have hproduct : (multiplicative inner).Accepts (Product E) fun _ => AfterProduct :=
    operation_accepts hcall (callMember_accepts hreads hinner hstarts) fun token h => by
      simp [AfterCall, AfterMember, h.1]
  refine operation_accepts (operation_reads hcall) hproduct fun token ⟨htype, hmem⟩ => ?_
  refine ⟨by simp [AfterCall, AfterMember, htype], fun ⟨_, hmem'⟩ => ?_⟩
  simp only [additiveOperators, multiplicativeOperators, List.mem_cons, List.not_mem_nil,
    or_false] at hmem hmem'
  rcases hmem with hmem | hmem <;> simp [hmem] at hmem'

/-- A closing brace ends the loop over properties. -/
theorem propertyStep_stop {c : TokenCursor} (h : c.current.type = .closeBrace) :
    propertyStep inner c = .ok none c := by
  rw [eq_ok_iff_ensures]
  simp only [propertyStep, ensures_bind, ensures_current, h, ensures_pure, and_self]

/-- A property is taken with the comma behind it, or without one where the braces close. -/
theorem propertyStep_accepts (hinner : inner.Accepts E AfterExpression) {v : Node}
    {c d : TokenCursor} {s : List Token} (h : Property E s v) (hs : c.Takes s d) :
    (d.current.type = .closeBrace → propertyStep inner c = .ok (some v) d) ∧
      (d.current.type = .comma → propertyStep inner c = .ok (some v) d.next) := by
  cases h with
  | shorthand hkey =>
    obtain ⟨-, rfl, hnext⟩ := takes_cons_iff.mp hs
    obtain rfl := takes_nil_iff.mp hnext
    constructor <;> intro hafter <;> rw [eq_ok_iff_ensures] <;>
      simp only [propertyStep, propertyValue, ensures_bind, ensures_current, hkey, ensures_expect,
        hafter, ensures_discard, ensures_advance, ensures_pure] <;>
      simp [Node.entry]
  | value hkey hcolon h =>
    simp only [takes_cons_iff] at hs
    obtain ⟨-, rfl, -, rfl, hs⟩ := hs
    constructor <;> intro hafter <;> rw [eq_ok_iff_ensures]
    · have hv := hinner _ _ _ _ h hs (afterExpression_of_mem_closers (by simp [closers, hafter]))
      simp only [propertyStep, propertyValue, ensures_bind, ensures_current, hkey, ensures_expect,
        hcolon, ensures_discard, ensures_of_eq_ok hv, ensures_sees, ensures_ite, hafter,
        ensures_pure]
      simp [Node.entry]
    · have hv := hinner _ _ _ _ h hs (afterExpression_of_mem_closers (by simp [closers, hafter]))
      simp only [propertyStep, propertyValue, ensures_bind, ensures_current, hkey, ensures_expect,
        hcolon, ensures_discard, ensures_of_eq_ok hv, ensures_sees, ensures_ite, hafter,
        ensures_pure]
      simp [Node.entry]

/-- The loop over properties accepts all lists of them. -/
theorem properties_accepts (hreads : inner.Reads depth (Phrase E))
    (hinner : inner.Accepts E AfterExpression) :
    (many (propertyStep inner)).Accepts (Properties E) fun _ token => token.type = .closeBrace := by
  have hshortens := propertyStep_shortens hreads
  have hnone : ∀ c : TokenCursor, c.current.type = .closeBrace →
      many (propertyStep inner) c = .ok [] c := by
    intro c hclose
    rw [many_eq hshortens]
    exact bind_of_eq_ok (propertyStep_stop hclose)
  intro c s vs d h hs hclose
  induction h generalizing c with
  | none =>
    obtain rfl := takes_nil_iff.mp hs
    exact hnone d hclose
  | one h =>
    rw [many_eq hshortens, bind_of_eq_ok ((propertyStep_accepts hinner h hs).1 hclose)]
    exact bind_of_eq_ok (hnone d hclose)
  | more h hcomma _ ih =>
    simp only [takes_append_iff, takes_cons_iff] at hs
    obtain ⟨e, hs, -, rfl, ht⟩ := hs
    rw [many_eq hshortens, bind_of_eq_ok ((propertyStep_accepts hinner h hs).2 hcomma)]
    exact bind_of_eq_ok (ih _ ht)

/-- The rule for objects and sums accepts all of them. -/
theorem object_accepts (hreads : inner.Reads depth (Phrase E))
    (hinner : inner.Accepts E AfterExpression)
    (hstarts : ∀ s v, E s v → Starts expressionStarts s) :
    (object inner).Accepts (Object E) AfterObject := by
  intro c s v d h hs hafter
  rw [eq_ok_iff_ensures]
  cases h with
  | braces hopening h hclosing =>
    simp only [takes_cons_iff, takes_append_iff, takes_nil_iff] at hs
    obtain ⟨-, rfl, e, hs, -, rfl, rfl⟩ := hs
    have hvs := properties_accepts hreads hinner _ _ _ _ h hs hclosing
    simp only [object, ensures_bind, ensures_sees, ensures_ite, hopening, ensures_advance,
      ensures_of_eq_ok hvs, ensures_discard, ensures_expect, hclosing, ensures_pure]
    simp
  | sum h =>
    have hne := hafter.2.2.ne_openParen h.ends (by simp [sumEnds])
    have hv := additive_accepts hreads hinner hstarts _ _ _ _ h hs
      ⟨⟨⟨hafter.1, hne⟩, fun hoperator => hafter.2.1 hoperator.1⟩,
        fun hoperator => hafter.2.1 hoperator.1⟩
    have hfirst := h.starts.headD d.current
    rw [← hs.current] at hfirst
    have hopening : c.current.type ≠ .openBrace := by
      intro hopening
      rw [hopening] at hfirst
      simp [sumStarts] at hfirst
    simp only [object, ensures_bind, ensures_sees, ensures_ite, beq_iff_eq, hopening,
      ensures_of_eq_ok hv]
    simp

/-- The rule for assignments accepts all of them. -/
theorem assignment_accepts (hreads : inner.Reads depth (Phrase E))
    (hinner : inner.Accepts E AfterExpression)
    (hstarts : ∀ s v, E s v → Starts expressionStarts s) :
    (assignment inner).Accepts (Assignment E) AfterExpression := by
  intro c s v d h hs hafter
  rw [eq_ok_iff_ensures]
  cases h with
  | object h =>
    have hv := object_accepts hreads hinner hstarts _ _ _ _ h hs hafter.1
    simp only [assignment, ensures_bind, ensures_of_eq_ok hv, ensures_sees, ensures_ite, beq_iff_eq,
      hafter.2, ensures_pure]
    simp
  | assign h hequals h' =>
    simp only [takes_append_iff, takes_cons_iff] at hs
    obtain ⟨e, hs, -, rfl, ht⟩ := hs
    have htarget := object_accepts hreads hinner hstarts _ _ _ _ h hs
      (by simp [AfterObject, AfterMember, Separated, hequals])
    have hv := hinner _ _ _ _ h' ht ⟨⟨hafter.1.1, hafter.1.2.1,
      (hafter.1.2.2.of_append (by simp)).of_append (s := [e.current]) (hstarts _ _ h').ne_nil⟩,
      hafter.2⟩
    simp only [assignment, ensures_bind, ensures_of_eq_ok htarget, ensures_sees, ensures_ite,
      hequals, ensures_discard, ensures_advance, ensures_of_eq_ok hv, ensures_pure]
    simp

end Expressions

/-- A rule for expressions of bounded nesting accepts all of them. -/
theorem expression_accepts (depth : Nat) :
    (expression depth).Accepts (ExpressionWithin depth) AfterExpression := by
  induction depth with
  | zero => exact fun _ _ _ _ h => h.elim
  | succ depth ih =>
    exact assignment_accepts (expression_reads depth) ih fun _ _ h => h.starts

/-! ## Statements and programs -/

section Statements

variable {c d : TokenCursor} {s : List Token} {v : Node} {E P S : Language Node}

/-- A token behind a statement continues no expression and is no semicolon. -/
theorem AfterStatement.afterExpression {token : Token} (h : AfterStatement s token) :
    AfterExpression s token ∧ token.type ≠ .semicolon := by
  obtain ⟨htype, hsep⟩ := h
  simp only [statementStarts, expressionStarts, sumStarts, List.cons_append, List.nil_append,
    List.mem_cons, List.not_mem_nil, or_false] at htype
  rcases htype with h | h | h | h | h | h | h | h | h <;>
    simp [AfterExpression, AfterObject, AfterMember, h, hsep]

/-- Behind a statement stands the next one, or what ends them all. -/
theorem afterStatement_of_statements {t : List Token} {vs : List Node} {token : Token}
    (h : Statements S t vs) (hstarts : ∀ s v, S s v → Starts statementStarts s)
    (hsep : ∀ first ∈ t.head?, Separated s first)
    (hstop : token.type ∈ [.closeBrace, .endOfInput]) : AfterStatement s (t.headD token) := by
  cases h with
  | none =>
    refine ⟨List.mem_append_left _ hstop, fun hopen => ?_⟩
    rw [List.headD_nil] at hopen
    simp [hopen] at hstop
  | @more u w v vs h _ _ =>
    obtain ⟨first, rest, rfl⟩ := List.exists_cons_of_ne_nil (hstarts u v h).ne_nil
    exact ⟨List.mem_append_right _ (starts_cons_iff.mp (hstarts _ v h)), hsep first rfl⟩

/-- Statements are accepted up to a token where they stop. -/
theorem many_accepts {item : Rule (Option Node)} {Stop : Token → Prop} (hshortens : item.Shortens)
    (hitem : ∀ c s v d, S s v → c.Takes s d → AfterStatement s d.current →
      item c = .ok (some v) d)
    (hstop : ∀ c, Stop c.current → item c = .ok none c)
    (hstarts : ∀ s v, S s v → Starts statementStarts s)
    (htype : ∀ token, Stop token → token.type ∈ [.closeBrace, .endOfInput]) :
    (many item).Accepts (Statements S) fun _ => Stop := by
  intro c s vs d h hs hend
  rw [many_eq hshortens]
  induction h generalizing c with
  | none =>
    obtain rfl := takes_nil_iff.mp hs
    exact bind_of_eq_ok (hstop d hend)
  | @more s t v vs h hrest hsep ih =>
    obtain ⟨e, hs, ht⟩ := takes_append_iff.mp hs
    have hafter := afterStatement_of_statements hrest hstarts hsep (htype _ hend)
    rw [← ht.current] at hafter
    rw [bind_of_eq_ok (hitem c s v e h hs hafter)]
    simp only
    rw [many_eq hshortens]
    exact bind_of_eq_ok (ih e ht)

/-- A declaration without a value is read as such. -/
theorem declare_accepts (expr : Rule Node) {keyword name semicolon : Token}
    (hkeyword : keyword.type = .letKeyword) (hname : name.type = .identifier)
    (hsemicolon : semicolon.type = .semicolon) (hs : c.Takes [keyword, name, semicolon] d) :
    variableDeclaration expr c = .ok (.declare keyword.start name.lexeme) d := by
  simp only [takes_cons_iff, takes_nil_iff] at hs
  obtain ⟨-, rfl, -, rfl, -, rfl, rfl⟩ := hs
  rw [eq_ok_iff_ensures]
  simp only [variableDeclaration, ensures_bind, ensures_advance, ensures_expect, ensures_sees,
    ensures_ite, ensures_discard, ensures_build, ensures_reject, hkeyword, hname, hsemicolon]
  simp [Node.declaration?]

/-- A declaration with a value is read as such, if the value is accepted. -/
theorem define_accepts {expr : Rule Node} (hexpr : expr.Accepts E AfterExpression)
    {keyword name equals semicolon : Token} (constant : Bool)
    (hkeyword : keyword.type = if constant then .constKeyword else .letKeyword)
    (hname : name.type = .identifier) (hequals : equals.type = .equals) (h : E s v)
    (hsemicolon : semicolon.type = .semicolon)
    (hs : c.Takes (keyword :: name :: equals :: (s ++ [semicolon])) d) :
    variableDeclaration expr c = .ok (.define keyword.start name.lexeme constant v) d := by
  simp only [takes_cons_iff, takes_append_iff, takes_nil_iff] at hs
  obtain ⟨-, rfl, -, rfl, -, rfl, e, hs, -, rfl, rfl⟩ := hs
  have hv := hexpr _ _ _ _ h hs (afterExpression_of_mem_closers (by simp [closers, hsemicolon]))
  have hconstant : (c.current.type == .constKeyword) = constant := by
    cases constant <;> simp [hkeyword]
  rw [eq_ok_iff_ensures]
  simp only [variableDeclaration, ensures_bind, ensures_advance, ensures_expect, ensures_sees,
    ensures_ite, ensures_discard, ensures_build, ensures_of_eq_ok hv, hname, hequals, hsemicolon,
    hconstant]
  simp [Node.declaration?]

/-- A closing brace ends the loop over the statements of a body. -/
theorem bodyStep_stop {statement : Rule Node} (h : c.current.type = .closeBrace) :
    bodyStep statement c = .ok none c := by
  rw [eq_ok_iff_ensures]
  simp only [bodyStep, ensures_bind, ensures_current, h, ensures_pure, and_self]

/-- A statement is read as a round of the loop over the statements of a body. -/
theorem bodyStep_accepts {statement : Rule Node} (hstatement : statement.Accepts S AfterStatement)
    (hstarts : ∀ s v, S s v → Starts statementStarts s) (h : S s v) (hs : c.Takes s d)
    (hafter : AfterStatement s d.current) : bodyStep statement c = .ok (some v) d := by
  have hv := hstatement _ _ _ _ h hs hafter
  have hfirst : c.current.type ∈ statementStarts := by
    rw [hs.current]
    exact (hstarts _ _ h).headD _
  rw [eq_ok_iff_ensures]
  simp only [bodyStep, ensures_bind, ensures_current]
  split
  next htype => simp [htype, statementStarts, expressionStarts, sumStarts] at hfirst
  next htype => simp [htype, statementStarts, expressionStarts, sumStarts] at hfirst
  next => simp only [ensures_bind, ensures_of_eq_ok hv, ensures_pure, and_self]

/-- A function is read as such, if its parameters and the statements of its body are accepted. -/
theorem functionDeclaration_accepts {inner statement : Rule Node} {depth : Nat}
    (hreads : inner.Reads depth (Phrase P)) (hinner : inner.Accepts P AfterExpression)
    (hparameter : ∀ s v, P s v → Starts expressionStarts s)
    (hsreads : statement.Reads depth (Phrase S))
    (hstatement : statement.Accepts S AfterStatement)
    (hstarts : ∀ s v, S s v → Starts statementStarts s)
    {keyword name opening closing : Token} {s t : List Token} {args body : List Node}
    {parameters : List String} (hname : name.type = .identifier) (hargs : Arguments P s args)
    (hnames : List.Forall₂ IsName args parameters) (hopening : opening.type = .openBrace)
    (hbody : Statements S t body) (hclosing : closing.type = .closeBrace)
    (hs : c.Takes (keyword :: name :: (s ++ opening :: (t ++ [closing]))) d) :
    functionDeclaration inner statement c =
      .ok (.function keyword.start name.lexeme parameters body) d := by
  simp only [takes_cons_iff, takes_append_iff, takes_nil_iff] at hs
  obtain ⟨-, rfl, -, rfl, e, hs, -, rfl, f, ht, -, rfl, rfl⟩ := hs
  have hshortens := bodyStep_shortens hsreads fun s v h => (hstarts s v h).ne_nil
  have hokArgs := arguments_accepts hreads hinner hparameter _ _ _ _ hargs hs trivial
  have haccepts : (many (bodyStep statement)).Accepts (Statements S) fun _ token =>
      token.type = .closeBrace :=
    many_accepts hshortens
      (fun _ _ _ _ h hs hafter => bodyStep_accepts hstatement hstarts h hs hafter)
      (fun _ h => bodyStep_stop h) hstarts fun _ h => by simp [h]
  have hokBody := haccepts _ _ _ _ hbody ht hclosing
  rw [eq_ok_iff_ensures]
  simp only [functionDeclaration, ensures_bind, ensures_advance, ensures_expect, ensures_current,
    ensures_of_eq_ok hokArgs, parameterNames_eq_some_iff.mpr hnames, ensures_discard,
    ensures_of_eq_ok hokBody, ensures_pure, hname, hopening, hclosing]
  simp

/-- An expression is read as a statement if what follows ends it. -/
theorem expressionStatement_accepts {expr : Rule Node} (hexpr : expr.Accepts E AfterExpression)
    (h : E s v) (hs : c.Takes s d) (hafter : AfterStatement s d.current) :
    expressionStatement expr c = .ok v d := by
  obtain ⟨hafter, hsemicolon⟩ := hafter.afterExpression
  have hv := hexpr _ _ _ _ h hs hafter
  rw [eq_ok_iff_ensures]
  simp only [expressionStatement, ensures_bind, ensures_of_eq_ok hv, ensures_sees, ensures_ite,
    beq_iff_eq, hsemicolon, ensures_pure]
  simp

/-- An expression with a semicolon is read as a statement, whatever follows. -/
theorem terminated_accepts {expr : Rule Node} (hexpr : expr.Accepts E AfterExpression) (h : E s v)
    {semicolon : Token} (hsemicolon : semicolon.type = .semicolon)
    (hs : c.Takes (s ++ [semicolon]) d) : expressionStatement expr c = .ok v d := by
  simp only [takes_append_iff, takes_cons_iff, takes_nil_iff] at hs
  obtain ⟨e, hs, -, rfl, rfl⟩ := hs
  have hv := hexpr _ _ _ _ h hs (afterExpression_of_mem_closers (by simp [closers, hsemicolon]))
  rw [eq_ok_iff_ensures]
  simp only [expressionStatement, ensures_bind, ensures_of_eq_ok hv, ensures_sees, ensures_ite,
    hsemicolon, ensures_discard, ensures_advance, ensures_pure]
  simp

end Statements

/-- What starts like an expression is read as one. -/
theorem statement_eq_ok_of_starts {depth : Nat} {c d : TokenCursor} {s : List Token} {v : Node}
    (hstarts : Starts expressionStarts s) (hs : c.Takes s d)
    (h : expressionStatement (expression (depth + 1)) c = .ok v d) :
    statement (depth + 1) c = .ok v d := by
  have hfirst : c.current.type ∈ expressionStarts := by
    rw [hs.current]
    exact hstarts.headD _
  rw [eq_ok_iff_ensures] at h ⊢
  simp only [statement, ensures_bind, ensures_current]
  split
  next htype => simp [htype, expressionStarts, sumStarts] at hfirst
  next htype => simp [htype, expressionStarts, sumStarts] at hfirst
  next htype => simp [htype, expressionStarts, sumStarts] at hfirst
  next => exact h

/-- A rule for statements of bounded nesting accepts all of them. -/
theorem statement_accepts (depth : Nat) :
    (statement depth).Accepts (StatementWithin depth) AfterStatement := by
  induction depth with
  | zero => exact fun _ _ _ _ h => h.elim
  | succ depth ih =>
    intro c s v d h hs hafter
    have hexpr := expression_accepts (depth + 1)
    cases h with
    | declare hkeyword hname hsemicolon =>
      have hok := declare_accepts (expression (depth + 1)) hkeyword hname hsemicolon hs
      rw [eq_ok_iff_ensures] at hok ⊢
      simp only [statement, ensures_bind, ensures_current, hs.current, List.headD_cons, hkeyword]
      exact hok
    | define constant hkeyword hname hequals h hsemicolon =>
      have hok := define_accepts hexpr constant hkeyword hname hequals h hsemicolon hs
      rw [eq_ok_iff_ensures] at hok ⊢
      simp only [statement, ensures_bind, ensures_current, hs.current, List.headD_cons, hkeyword]
      cases constant <;> exact hok
    | function hkeyword hname hargs hnames hopening h hclosing =>
      have hok := functionDeclaration_accepts (expression_reads depth) (expression_accepts depth)
        (fun _ _ h => h.starts) (statement_reads depth) ih (fun _ _ h => h.starts) hname hargs
        hnames hopening h hclosing hs
      rw [eq_ok_iff_ensures] at hok ⊢
      simp only [statement, ensures_bind, ensures_current, hs.current, List.headD_cons, hkeyword]
      exact hok
    | expression h =>
      exact statement_eq_ok_of_starts h.starts hs (expressionStatement_accepts hexpr h hs hafter)
    | terminated h hsemicolon =>
      exact statement_eq_ok_of_starts h.starts.append hs (terminated_accepts hexpr h hsemicolon hs)

/-- The end of the input ends the loop over the statements of a program. -/
theorem programStep_stop {limit : Nat} {c : TokenCursor} (h : c.current.type = .endOfInput) :
    programStep limit c = .ok none c := by
  rw [eq_ok_iff_ensures]
  simp only [programStep, ensures_bind, ensures_sees, ensures_ite, h, ensures_pure]
  simp

/-- A statement is read as a round of the loop over the statements of a program. -/
theorem programStep_accepts {limit : Nat} {c d : TokenCursor} {s : List Token} {v : Node}
    (h : StatementWithin limit s v) (hs : c.Takes s d) (hafter : AfterStatement s d.current) :
    programStep limit c = .ok (some v) d := by
  have hv := statement_accepts limit _ _ _ _ h hs hafter
  have hfirst := h.starts.headD d.current
  rw [← hs.current] at hfirst
  have hne : c.current.type ≠ .endOfInput := by
    intro htype
    simp [htype, statementStarts, expressionStarts, sumStarts] at hfirst
  rw [eq_ok_iff_ensures]
  simp only [programStep, ensures_bind, ensures_sees, ensures_ite, beq_iff_eq, hne, ensures_pure,
    ensures_of_eq_ok hv]
  simp

/-- A rule for programs accepts statements up to the end of input. -/
theorem program_accepts {limit : Nat} {c d : TokenCursor} {s : List Token} {vs : List Node}
    (h : Statements (StatementWithin limit) s vs) (hs : c.Takes s d)
    (hstop : d.current.type = .endOfInput) :
    program limit c = .ok (.program (s.headD d.current).start vs) d := by
  have hshortens := programStep_shortens limit
  have haccepts : (many (programStep limit)).Accepts (Statements (StatementWithin limit))
      fun _ token => token.type = .endOfInput :=
    many_accepts hshortens (fun _ _ _ _ h hs hafter => programStep_accepts h hs hafter)
      (fun _ h => programStep_stop h) (fun _ _ h => h.starts) fun _ h => by simp [h]
  have hok := haccepts _ _ _ _ h hs hstop
  rw [eq_ok_iff_ensures]
  simp only [program, ensures_bind, ensures_current, ensures_reportingDepth, ensures_of_eq_ok hok,
    ensures_pure, hs.current, and_self]

end BoSyntax.Rule
