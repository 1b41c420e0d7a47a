import BoSyntax.Proofs.Grammar.Recognition
import BoSyntax.Proofs.Node.Relocation

/-!
# Two runs of a rule

A rule does not look at places, so on the same tokens at other places it comes to the same outcome
at other places. Nor does it matter how deep tokens may nest, unless that is what a rule objects to.
Both are told by one relation of two runs, in which certain faults of the first run excuse it.
-/

namespace BoSyntax

open BoSyntax.Language

/-- Tokens that are being read, at other places. -/
def TokenCursor.relocate (f : Position → Position) (c : TokenCursor) : TokenCursor where
  ahead := c.ahead.map (Token.relocate f)
  stop := c.stop.relocate f
  size := c.size
  ahead_not_end := fun token hmem => by
    obtain ⟨old, hold, rfl⟩ := List.mem_map.mp hmem
    exact c.ahead_not_end old hold
  stop_isEnd := c.stop_isEnd
  ahead_le_size := by
    rw [List.length_map]
    exact c.ahead_le_size

/-- A fault at another place. -/
def ParseFault.relocate (f : Position → Position) : ParseFault → ParseFault
  | .rejected objection token => .rejected objection (token.relocate f)
  | .malformedNumber lexeme => .malformedNumber lexeme
  | .invalidNode fault => .invalidNode fault
  | .exhausted => .exhausted

/-- The report of a fault elsewhere is on the token elsewhere. -/
theorem ParseFault.reported_relocate (f : Position → Position) (sight : Token)
    (fault : ParseFault) :
    (fault.relocate f).reported (sight.relocate f) = (fault.reported sight).relocate f := by
  cases fault <;> rfl

namespace TokenCursor

variable (f : Position → Position) (c : TokenCursor)

/-- The token in sight elsewhere is the token in sight, elsewhere. -/
theorem current_relocate : (c.relocate f).current = c.current.relocate f := by
  cases h : c.ahead <;> simp [current, relocate, h]

/-- To move on elsewhere is to move on, elsewhere. -/
theorem next_relocate : (c.relocate f).next = c.next.relocate f := by
  simp [next, relocate]

end TokenCursor

namespace Rule

variable {α β γ δ : Type} {f : Position → Position} {Excused : ParseFault → Prop}

/-- Two runs of rules agree, the second one on tokens at other places, unless the first one meets a
fault that excuses it. -/
def Mirrors (f : Position → Position) (Excused : ParseFault → Prop) (g : α → β) (rule : Rule α)
    (rule' : Rule β) : Prop :=
  ∀ c, rule.Ensures c (fun value d => rule' (c.relocate f) = .ok (g value) (d.relocate f))
    fun fault d => Excused fault ∨ rule' (c.relocate f) = .error (fault.relocate f) (d.relocate f)

/-! ## Ways of building rules -/

section Building

variable {g : α → β} {g' : γ → δ} {rule first : Rule α} {rule' first' : Rule β}

/-- Two runs agree step by step: if the first steps agree and what follows them does, the whole
agrees. -/
theorem Mirrors.bind {rest : α → Rule γ} {rest' : β → Rule δ}
    (h : Mirrors f Excused g first first')
    (hrest : ∀ value, Mirrors f Excused g' (rest value) (rest' (g value))) :
    Mirrors f Excused g' (first >>= rest) (first' >>= rest') := by
  intro c
  rw [ensures_bind]
  refine (h c).mono (fun value d hfirst => ?_) fun fault d hfirst => ?_
  · rw [bind_of_eq_ok hfirst]
    exact hrest value d
  · exact hfirst.imp_right bind_of_eq_error

/-- Steps that only give a value agree if the values do. -/
theorem mirrors_pure {value : α} {value' : β} (h : value' = g value) :
    Mirrors f Excused g (pure value) (pure value') := by
  intro c
  rw [h]
  exact rfl

/-- Steps that only meet a fault agree if the faults do. -/
theorem mirrors_throw {fault fault' : ParseFault} (h : fault' = fault.relocate f) :
    Mirrors f Excused g (throw fault) (throw fault') := by
  intro c
  rw [h]
  exact .inr rfl

/-- Choices agree if both alternatives do and they are made alike. -/
theorem Mirrors.ite {p p' : Prop} [Decidable p] [Decidable p'] {no : Rule α} {no' : Rule β}
    (h : Mirrors f Excused g rule rule') (hno : Mirrors f Excused g no no') (hiff : p ↔ p') :
    Mirrors f Excused g (if p then rule else no) (if p' then rule' else no') := by
  by_cases hp : p
  · rwa [if_pos hp, if_pos (hiff.mp hp)]
  · rwa [if_neg hp, if_neg fun hp' => hp (hiff.mpr hp')]

/-- Rules that agree also agree when their values are left unused. -/
theorem Mirrors.discard (h : Mirrors f Excused g rule rule') :
    Mirrors f Excused id (discard rule) (discard rule') :=
  h.bind fun _ => mirrors_pure rfl

/-- The tokens in sight agree. -/
theorem mirrors_current : Mirrors f Excused (Token.relocate f) current current := by
  intro c
  rw [ensures_current, ← TokenCursor.current_relocate]
  rfl

/-- The tokens that are taken agree. -/
theorem mirrors_advance : Mirrors f Excused (Token.relocate f) advance advance := by
  intro c
  rw [ensures_advance, ← TokenCursor.current_relocate, ← TokenCursor.next_relocate]
  rfl

/-- The types of the tokens in sight are the same. -/
theorem mirrors_sees (type : TokenType) : Mirrors f Excused id (sees type) (sees type) :=
  mirrors_current.bind fun _ => mirrors_pure rfl

/-- Objections to the tokens in sight agree. -/
theorem mirrors_reject (objection : Objection) :
    Mirrors f Excused g (reject objection) (reject objection) :=
  mirrors_current.bind fun _ => mirrors_throw rfl

/-- A fault that excuses the first run is no matter to the second one. -/
theorem mirrors_of_excused {fault : ParseFault} (h : Excused fault) (rule' : Rule β) :
    Mirrors f Excused g (throw fault) rule' :=
  fun _ => .inl h

/-- Reports agree where the faults do, and a fault excuses the first run if its report does. -/
theorem Mirrors.reportingDepth
    (h : Mirrors f (fun fault => ∀ sight, Excused (fault.reported sight)) g rule rule') :
    Mirrors f Excused g (reportingDepth rule) (reportingDepth rule') := by
  intro c
  rw [ensures_reportingDepth]
  refine (h c).mono (fun value d hok => ?_) fun fault d hfault => ?_
  · rw [reportingDepth_apply, hok]
  · refine hfault.imp (fun hexcused => hexcused _) fun herror => ?_
    rw [reportingDepth_apply, herror, ← ParseFault.reported_relocate,
      ← TokenCursor.current_relocate]

/-- Tokens of some type are wanted of both runs alike. -/
theorem mirrors_expect (type : TokenType) (purpose : String) :
    Mirrors f Excused (Token.relocate f) (expect type purpose) (expect type purpose) :=
  (mirrors_sees type).bind fun _ => mirrors_advance.ite (mirrors_reject _) .rfl

/-- Nodes that are built agree if what they are made of does. -/
theorem mirrors_build {made made' : Except NodeFault Node}
    (h : made' = made.map (Node.relocate f)) :
    Mirrors f Excused (Node.relocate f) (build made) (build made') := by
  rw [h]
  cases made with
  | ok node => exact mirrors_pure rfl
  | error fault => exact mirrors_throw rfl

/-- Repetitions agree round by round, and their bounds are the same. -/
theorem Mirrors.many {item : Rule (Option α)} {item' : Rule (Option β)}
    (h : Mirrors f Excused (Option.map g) item item') :
    Mirrors f Excused (List.map g) (many item) (many item') := by
  have hcount : ∀ count, Mirrors f Excused (List.map g) (manyUpTo item count)
      (manyUpTo item' count) := fun count => by
    induction count with
    | zero => exact mirrors_pure rfl
    | succ count ih =>
      refine h.bind fun value => ?_
      cases value with
      | none => exact mirrors_pure rfl
      | some value => exact ih.bind fun _ => mirrors_pure rfl
  exact fun c => hcount (c.size + 1) c

/-- Values that grow agree round by round, and the bounds of the rounds are the same. -/
theorem mirrors_grow {extend : α → Rule (Option α)} {extend' : β → Rule (Option β)}
    (h : ∀ value, Mirrors f Excused (Option.map g) (extend value) (extend' (g value)))
    (value : α) : Mirrors f Excused g (grow extend value) (grow extend' (g value)) := by
  have hcount : ∀ count value, Mirrors f Excused g (growUpTo extend count value)
      (growUpTo extend' count (g value)) := fun count => by
    induction count with
    | zero => exact fun _ => mirrors_pure rfl
    | succ count ih =>
      refine fun value => (h value).bind fun larger => ?_
      cases larger with
      | none => exact mirrors_pure rfl
      | some larger => exact ih larger
  exact fun c => hcount (c.size + 1) value c

end Building

/-! ## Expressions -/

section Expressions

variable {inner inner' : Rule Node} (h : Mirrors f Excused (Node.relocate f) inner inner')
include h

/-- Two runs on a primary expression agree if they do on whole expressions. -/
theorem primary_mirrors :
    Mirrors f Excused (Node.relocate f) (primary inner) (primary inner') := by
  refine mirrors_current.bind fun token => ?_
  dsimp only [Token.relocate]
  split
  · exact mirrors_advance.discard.bind fun _ => mirrors_pure rfl
  · refine mirrors_advance.discard.bind fun _ => ?_
    split
    · exact mirrors_pure rfl
    · exact mirrors_throw rfl
  · exact mirrors_advance.discard.bind fun _ => h.bind fun _ =>
      (mirrors_expect _ _).discard.bind fun _ => mirrors_pure rfl
  · exact mirrors_reject _

/-- Two runs on one step to a member agree if they do on whole expressions. -/
theorem memberStep_mirrors (owner : Node) :
    Mirrors f Excused (Option.map (Node.relocate f)) (memberStep inner owner)
      (memberStep inner' (owner.relocate f)) := by
  refine mirrors_current.bind fun token => ?_
  dsimp only [Token.relocate]
  split
  · refine mirrors_advance.discard.bind fun _ => mirrors_current.bind fun _ =>
      (primary_mirrors h).bind fun key => ?_
    rw [Node.relocate_kind, Node.relocate_start]
    refine (mirrors_throw rfl).ite ?_ .rfl
    refine (mirrors_build ?_).bind fun _ => mirrors_pure rfl
    cases key <;> rfl
  · refine mirrors_advance.discard.bind fun _ => h.bind fun key =>
      (mirrors_expect _ _).discard.bind fun _ => ?_
    rw [Node.relocate_start]
    exact (mirrors_build rfl).bind fun _ => mirrors_pure rfl
  · exact mirrors_pure rfl

/-- Two runs on a row of members agree if they do on whole expressions. -/
theorem member_mirrors : Mirrors f Excused (Node.relocate f) (member inner) (member inner') :=
  (primary_mirrors h).bind fun owner => mirrors_grow (memberStep_mirrors h) owner

/-- Two runs on a further argument agree if they do on whole expressions. -/
theorem furtherArgument_mirrors :
    Mirrors f Excused (Option.map (Node.relocate f)) (furtherArgument inner)
      (furtherArgument inner') := by
  refine (mirrors_sees _).bind fun _ => Mirrors.ite ?_ (mirrors_pure rfl) .rfl
  exact mirrors_advance.discard.bind fun _ => h.bind fun _ => mirrors_pure rfl

/-- Two runs on the arguments of a call agree if they do on whole expressions. -/
theorem arguments_mirrors :
    Mirrors f Excused (List.map (Node.relocate f)) (arguments inner) (arguments inner') := by
  have hclose : ∀ args : List Node, Mirrors f Excused (List.map (Node.relocate f))
      (do discard (expect .closeParen "Missing closing parenthesis inside arguments list.")
          return args)
      (do discard (expect .closeParen "Missing closing parenthesis inside arguments list.")
          return args.map (Node.relocate f)) :=
    fun _ => (mirrors_expect _ _).discard.bind fun _ => mirrors_pure rfl
  have hlist : Mirrors f Excused (List.map (Node.relocate f)) (argumentList inner)
      (argumentList inner') :=
    h.bind fun _ => (furtherArgument_mirrors h).many.bind fun _ => mirrors_pure rfl
  refine (mirrors_expect _ _).discard.bind fun _ => (mirrors_sees _).bind fun _ => ?_
  exact Mirrors.ite (hclose []) (hlist.bind hclose) .rfl

/-- Two runs on one call of a callee agree if they do on whole expressions. -/
theorem callStep_mirrors (callee : Node) :
    Mirrors f Excused (Option.map (Node.relocate f)) (callStep inner callee)
      (callStep inner' (callee.relocate f)) := by
  refine (mirrors_sees _).bind fun _ => Mirrors.ite ?_ (mirrors_pure rfl) .rfl
  refine (arguments_mirrors h).bind fun args => mirrors_pure ?_
  rw [Node.relocate_start, ← Node.relocateAll_eq_map]
  rfl

/-- Two runs on a row of calls agree if they do on whole expressions. -/
theorem callMember_mirrors :
    Mirrors f Excused (Node.relocate f) (callMember inner) (callMember inner') := by
  refine (member_mirrors h).bind fun callee => (mirrors_sees _).bind fun _ => ?_
  refine Mirrors.ite ?_ (mirrors_pure rfl) .rfl
  refine (arguments_mirrors h).bind fun args => ?_
  rw [Node.relocate_start, ← Node.relocateAll_eq_map]
  exact mirrors_grow (callStep_mirrors h) _

omit h in
/-- Two runs on operands joined by operators of one rank agree if they do on the operands. -/
theorem operation_mirrors (operators : List String) {operand operand' : Rule Node}
    (h : Mirrors f Excused (Node.relocate f) operand operand') :
    Mirrors f Excused (Node.relocate f) (operation operators operand)
      (operation operators operand') := by
  refine h.bind fun left => mirrors_grow (fun left => ?_) left
  refine mirrors_current.bind fun token => Mirrors.ite ?_ (mirrors_pure rfl) .rfl
  refine mirrors_advance.discard.bind fun _ => h.bind fun right => ?_
  rw [Node.relocate_start]
  exact mirrors_pure rfl

/-- Two runs on a sum agree if they do on whole expressions. -/
theorem additive_mirrors :
    Mirrors f Excused (Node.relocate f) (additive inner) (additive inner') :=
  operation_mirrors _ (operation_mirrors _ (callMember_mirrors h))

/-- Two runs on a property of an object agree if they do on whole expressions. -/
theorem propertyStep_mirrors :
    Mirrors f Excused (Option.map (Node.relocate f)) (propertyStep inner)
      (propertyStep inner') := by
  have hvalue : Mirrors f Excused (Option.map (Node.relocate f)) (propertyValue inner)
      (propertyValue inner') := by
    refine mirrors_current.bind fun token => ?_
    dsimp only [Token.relocate]
    split
    · exact mirrors_advance.discard.bind fun _ => mirrors_pure rfl
    · exact mirrors_pure rfl
    · refine (mirrors_expect _ _).discard.bind fun _ => h.bind fun _ =>
        (mirrors_sees _).bind fun _ => Mirrors.ite ?_ (mirrors_pure rfl) .rfl
      exact (mirrors_expect _ _).discard.bind fun _ => mirrors_pure rfl
  refine mirrors_current.bind fun token => ?_
  dsimp only [Token.relocate]
  split
  · exact mirrors_pure rfl
  · exact mirrors_pure rfl
  · refine (mirrors_expect _ _).bind fun key => hvalue.bind fun value => ?_
    cases value <;> exact mirrors_pure rfl

/-- Two runs on an object or sum agree if they do on whole expressions. -/
theorem object_mirrors : Mirrors f Excused (Node.relocate f) (object inner) (object inner') := by
  refine (mirrors_sees _).bind fun _ => Mirrors.ite ?_ (additive_mirrors h) .rfl
  refine mirrors_advance.bind fun brace => (propertyStep_mirrors h).many.bind fun properties => ?_
  rw [← Node.relocateAll_eq_map]
  exact (mirrors_expect _ _).discard.bind fun _ => mirrors_pure rfl

/-- Two runs on an assignment agree if they do on whole expressions. -/
theorem assignment_mirrors :
    Mirrors f Excused (Node.relocate f) (assignment inner) (assignment inner') := by
  refine (object_mirrors h).bind fun left => (mirrors_sees _).bind fun _ => ?_
  refine Mirrors.ite ?_ (mirrors_pure rfl) .rfl
  rw [Node.relocate_start]
  exact mirrors_advance.discard.bind fun _ => h.bind fun _ => mirrors_pure rfl

end Expressions

/-! ## Statements -/

section Statements

variable {expr expr' inner inner' statement statement' : Rule Node}

/-- Two runs on the declaration of a variable agree if they do on its value. -/
theorem variableDeclaration_mirrors (h : Mirrors f Excused (Node.relocate f) expr expr') :
    Mirrors f Excused (Node.relocate f) (variableDeclaration expr) (variableDeclaration expr') := by
  refine mirrors_advance.bind fun keyword => (mirrors_expect _ _).bind fun name =>
    (mirrors_sees _).bind fun _ => Mirrors.ite ?_ ?_ .rfl
  · have hdeclare : Mirrors f Excused (Node.relocate f)
        (do discard advance
            build (Node.declaration? keyword.start name.lexeme false none))
        (do discard advance
            build (Node.declaration? (f keyword.start) name.lexeme false none)) :=
      mirrors_advance.discard.bind fun _ => mirrors_build rfl
    exact Mirrors.ite ((mirrors_reject (g := id) _).bind fun _ => hdeclare) hdeclare .rfl
  · exact (mirrors_expect _ _).discard.bind fun _ => h.bind fun _ =>
      (mirrors_expect _ _).discard.bind fun _ => mirrors_build rfl

/-- Names are names elsewhere. -/
theorem parameterNames_relocate (args : List Node) :
    parameterNames (args.map (Node.relocate f)) = parameterNames args := by
  fun_induction parameterNames args with
  | case1 => rfl
  | case2 start name rest ih => exact congrArg _ ih
  | case3 arg rest hname =>
    cases arg with
    | identifier start name => exact absurd rfl (hname start name)
    | _ => rfl

/-- Two runs on the declaration of a function agree if they do on its parameters and on the
statements of its body. -/
theorem functionDeclaration_mirrors (h : Mirrors f Excused (Node.relocate f) inner inner')
    (hbody : Mirrors f Excused (Node.relocate f) statement statement') :
    Mirrors f Excused (Node.relocate f) (functionDeclaration inner statement)
      (functionDeclaration inner' statement') := by
  have hstep : Mirrors f Excused (Option.map (Node.relocate f)) (bodyStep statement)
      (bodyStep statement') := by
    refine mirrors_current.bind fun token => ?_
    dsimp only [Token.relocate]
    split
    · exact mirrors_pure rfl
    · exact mirrors_pure rfl
    · exact hbody.bind fun _ => mirrors_pure rfl
  refine mirrors_advance.bind fun keyword => (mirrors_expect _ _).bind fun name =>
    mirrors_current.bind fun token => (arguments_mirrors h).bind fun args => ?_
  rw [parameterNames_relocate]
  cases parameterNames args with
  | none => exact mirrors_throw rfl
  | some parameters =>
    refine (mirrors_expect _ _).discard.bind fun _ => hstep.many.bind fun body => ?_
    rw [← Node.relocateAll_eq_map]
    exact (mirrors_expect _ _).discard.bind fun _ => mirrors_pure rfl

/-- Two runs on an expression as a statement agree if they do on expressions. -/
theorem expressionStatement_mirrors (h : Mirrors f Excused (Node.relocate f) expr expr') :
    Mirrors f Excused (Node.relocate f) (expressionStatement expr) (expressionStatement expr') := by
  refine h.bind fun value => (mirrors_sees _).bind fun _ => Mirrors.ite ?_ (mirrors_pure rfl) .rfl
  exact mirrors_advance.discard.bind fun _ => mirrors_pure rfl

end Statements

/-! ## Nesting -/

section Nesting

variable {depth depth' : Nat} (hle : depth ≤ depth')
include hle

section Levels

variable (hdeep : depth = depth' ∨ Excused .exhausted)
include hdeep

/-- The second run may nest deeper than the first one if that excuses the first one. -/
theorem expression_mirrors :
    Mirrors f Excused (Node.relocate f) (expression depth) (expression depth') := by
  induction depth generalizing depth' with
  | zero =>
    rcases hdeep with rfl | hdeep
    · exact mirrors_throw rfl
    · exact mirrors_of_excused hdeep _
  | succ depth ih =>
    cases depth' with
    | zero => omega
    | succ depth' =>
      exact assignment_mirrors (ih (Nat.le_of_succ_le_succ hle) (hdeep.imp_left Nat.succ.inj))

/-- So it is with statements: the second run may nest deeper if that excuses the first one. -/
theorem statement_mirrors :
    Mirrors f Excused (Node.relocate f) (statement depth) (statement depth') := by
  induction depth generalizing depth' with
  | zero =>
    rcases hdeep with rfl | hdeep
    · exact mirrors_throw rfl
    · exact mirrors_of_excused hdeep _
  | succ depth ih =>
    cases depth' with
    | zero => omega
    | succ depth' =>
      have hexpr := expression_mirrors (f := f) hle hdeep
      have hle := Nat.le_of_succ_le_succ hle
      have hdeep := hdeep.imp_left Nat.succ.inj
      refine mirrors_current.bind fun token => ?_
      dsimp only [Token.relocate]
      split
      · exact variableDeclaration_mirrors hexpr
      · exact variableDeclaration_mirrors hexpr
      · exact functionDeclaration_mirrors (expression_mirrors hle hdeep) (ih hle hdeep)
      · exact expressionStatement_mirrors hexpr

end Levels

/-- A program may nest deeper in the second run if the report on the first one excuses it. -/
theorem program_mirrors
    (hdeep : depth = depth' ∨ ∀ token, Excused (.rejected .tooDeep token)) :
    Mirrors f Excused (Node.relocate f) (program depth) (program depth') := by
  have hstep : Mirrors f (fun fault => ∀ sight, Excused (fault.reported sight))
      (Option.map (Node.relocate f)) (programStep depth) (programStep depth') := by
    refine (mirrors_sees _).bind fun _ => (mirrors_pure rfl).ite ?_ .rfl
    exact (statement_mirrors hle hdeep).bind fun _ => mirrors_pure rfl
  refine mirrors_current.bind fun first => hstep.many.reportingDepth.bind fun body => ?_
  rw [← Node.relocateAll_eq_map]
  exact mirrors_pure rfl

end Nesting

end Rule

/-! ## Programs -/

namespace TokenCursor

/-- A cursor starts with the tokens before the first end of input, whatever comes after. -/
theorem ofTokens_of_eq {tokens before after : List Token} {stop : Token}
    (htokens : tokens = before ++ stop :: after) (hstop : stop.isEnd = true)
    (hbefore : ∀ token ∈ before, token.isEnd = false) :
    (ofTokens tokens).ahead = before ∧ (ofTokens tokens).stop = stop := by
  obtain ⟨heq, -⟩ | ⟨last, -, heq⟩ := Token.complete_eq tokens
  · exact ofTokens_of_complete_eq (heq.trans htokens) hstop hbefore
  · rw [htokens, List.append_assoc, List.cons_append] at heq
    rw [htokens]
    exact ofTokens_of_complete_eq heq hstop hbefore

/-- When there is an end of input, the cursor on tokens elsewhere is the cursor elsewhere. -/
theorem ofTokens_map_relocate {tokens : List Token} (f : Position → Position)
    (h : ∃ token ∈ tokens, token.isEnd = true) :
    ofTokens (tokens.map (Token.relocate f)) = (ofTokens tokens).relocate f := by
  obtain ⟨stop, hfind⟩ := Option.isSome_iff_exists.mp (List.find?_isSome.mpr h)
  obtain ⟨hstop, before, after, rfl, hbefore⟩ := List.find?_eq_some_iff_append.mp hfind
  replace hbefore : ∀ token ∈ before, token.isEnd = false := by simpa using hbefore
  obtain ⟨hahead, hlast⟩ := ofTokens_of_eq rfl hstop hbefore
  have hmap : (before ++ stop :: after).map (Token.relocate f) =
      before.map (Token.relocate f) ++ stop.relocate f :: after.map (Token.relocate f) := by
    rw [List.map_append, List.map_cons]
  obtain ⟨hahead', hlast'⟩ := ofTokens_of_eq hmap hstop fun token hmem => by
    obtain ⟨old, hold, rfl⟩ := List.mem_map.mp hmem
    exact hbefore old hold
  refine eq_of_ahead ?_ ?_ ?_
  · rw [hahead']
    exact congrArg _ hahead.symm
  · rw [hlast']
    exact congrArg _ hlast.symm
  · have hsize := congrArg List.length hahead
    have hsize' := congrArg List.length hahead'
    rw [List.length_map] at hsize'
    exact hsize'.trans hsize.symm

/-- Tokens at their own places are as they were. -/
theorem relocate_id (c : TokenCursor) : c.relocate id = c :=
  eq_of_ahead (List.map_id _) rfl rfl

end TokenCursor

/-- A fault at its own place is as it was. -/
theorem ParseFault.relocate_id (fault : ParseFault) : fault.relocate id = fault := by
  cases fault <;> rfl

namespace Program

variable {limit limit' : Nat} {tokens : List Token}

/-- Tokens elsewhere are read as the same program elsewhere, or with the same fault elsewhere. -/
theorem ofTokens_relocate (f : Position → Position) (h : ∃ token ∈ tokens, token.isEnd = true) :
    ofTokens limit (tokens.map (Token.relocate f)) =
      ((ofTokens limit tokens).map (Node.relocate f)).mapError (ParseFault.relocate f) := by
  have hmirrors : Rule.Mirrors f (fun _ => False) (Node.relocate f) (Rule.program limit)
      (Rule.program limit) :=
    Rule.program_mirrors (Nat.le_refl limit) (.inl rfl)
  have hrun := hmirrors (TokenCursor.ofTokens tokens)
  unfold ofTokens
  rw [TokenCursor.ofTokens_map_relocate f h]
  cases heq : Rule.program limit (TokenCursor.ofTokens tokens) with
  | ok program d =>
    rw [hrun.of_eq_ok heq]
    rfl
  | error fault d =>
    rw [(hrun.of_eq_error heq).resolve_left id]
    rfl

/-- The program of tokens elsewhere is derived from them there. -/
theorem programOf_relocate {body : List Token} {stop : Token} {program : Node}
    (hbody : ∀ token ∈ body, token.type ≠ .endOfInput) (hstop : stop.type = .endOfInput)
    (h : ProgramOf (StatementWithin limit) (body ++ [stop]) program) (f : Position → Position) :
    ProgramOf (StatementWithin limit) (body.map (Token.relocate f) ++ [stop.relocate f])
      (program.relocate f) := by
  have hend : ∃ token ∈ body ++ [stop], token.isEnd = true :=
    ⟨stop, List.mem_append_right _ (List.mem_singleton_self _), (Token.isEnd_iff _).mpr hstop⟩
  have hread := @ofTokens_relocate limit _ f hend
  rw [(ofTokens_eq_ok_iff_programOf hbody hstop).mpr h, List.map_append] at hread
  have hstop' : (stop.relocate f).type = .endOfInput := hstop
  refine (ofTokens_eq_ok_iff_programOf (fun token hmem => ?_) hstop').mp hread
  obtain ⟨old, hold, rfl⟩ := List.mem_map.mp hmem
  exact hbody old hold

/-- A higher limit changes nothing unless the nesting was too deep. -/
theorem ofTokens_mono (hle : limit ≤ limit')
    (h : ∀ token, ofTokens limit tokens ≠ .error (.rejected .tooDeep token)) :
    ofTokens limit' tokens = ofTokens limit tokens := by
  have hmirrors : Rule.Mirrors id (fun fault => ∃ token, fault = .rejected .tooDeep token)
      (Node.relocate id) (Rule.program limit) (Rule.program limit') :=
    Rule.program_mirrors hle (.inr fun token => ⟨token, rfl⟩)
  have hrun := hmirrors (TokenCursor.ofTokens tokens)
  rw [TokenCursor.relocate_id] at hrun
  unfold ofTokens at h ⊢
  cases heq : Rule.program limit (TokenCursor.ofTokens tokens) with
  | ok program d => rw [hrun.of_eq_ok heq, Node.relocate_id]
  | error fault d =>
    rw [heq] at h
    rcases hrun.of_eq_error heq with ⟨token, rfl⟩ | heq'
    · exact absurd rfl (h token)
    · rw [heq', fault.relocate_id]

end Program

end BoSyntax
