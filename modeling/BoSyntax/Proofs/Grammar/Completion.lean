import BoSyntax.Proofs.Grammar.Viability

/-!
# Beginnings of statements

Where a statement or a program breaks off, plain tokens could have been completed. The parameters of
a function are read as arguments and only then found to be names or not, so that a beginning of
arguments begins a declaration only if it consists of names, as it does when the tokens are plain.
-/

namespace BoSyntax

open BoSyntax.Language TokenCursor

namespace Language

/-- The lists of a language that consist of names. -/
def Named (L : Language (List Node)) : Language (List Node) :=
  fun s args => L s args ∧ ∃ names, List.Forall₂ IsName args names

/-- A name is an expression. -/
theorem expressionWithin_name {depth : Nat} {token : Token} (h : token.type = .identifier) :
    ExpressionWithin (depth + 1) [token] (.identifier token.start token.lexeme) :=
  .object (.sum (.base (.base (.base (.base (.name h))))))

end Language

namespace Rule

open ParseFault

/-! ## Parameters of functions -/

section Parameters

variable {depth : Nat} {c d : TokenCursor} {token : Token} {s : List Token} {v : Node}

/-- A name by itself is no other expression. -/
theorem eq_identifier_of_expression (h : ExpressionWithin depth [token] v)
    (htype : token.type = .identifier) : v = .identifier token.start token.lexeme := by
  obtain ⟨d, hs, hcurrent⟩ := @exists_takes_body [token] (.ending ⟨1, 1⟩) (by simp [htype]) rfl
  have hafter : AfterExpression [token] d.current :=
    afterExpression_of_mem_closers (by simp [hcurrent, Token.ending, closers])
  have hv := expression_accepts (depth + 1) _ _ _ _ (h.mono (Nat.le_succ depth)) hs hafter
  have hname := expression_accepts (depth + 1) _ _ _ _ (expressionWithin_name htype) hs hafter
  rw [hname] at hv
  cases hv
  rfl

/-- Where only names and commas are read, an expression starts with a name and is read as it, unless
nothing is known of the token behind it. -/
theorem expression_of_namesOnly (hs : c.Takes (token :: s) d)
    (hstarts : token.type ∈ expressionStarts) (hnames : NamesOnly (token :: s)) :
    token.type = .identifier ∧ (s ≠ [] → ∃ e, e.Takes s d ∧
      expression (depth + 1) c = .ok (.identifier token.start token.lexeme) e) := by
  have hopen : token.type ≠ .closeParen := by
    intro h
    simp [h, expressionStarts, sumStarts] at hstarts
  rw [NamesOnly, List.takeWhile_cons_of_pos (by simpa using hopen), List.forall_mem_cons] at hnames
  have htype : token.type = .identifier := by
    refine hnames.1.resolve_right fun h => ?_
    simp [h, expressionStarts, sumStarts] at hstarts
  refine ⟨htype, fun hne => ?_⟩
  obtain ⟨next, rest, rfl⟩ := List.exists_cons_of_ne_nil hne
  obtain ⟨e, hfirst, hrest⟩ := takes_append_iff.mp (List.singleton_append ▸ hs)
  refine ⟨e, hrest, expression_accepts (depth + 1) _ _ _ _ (expressionWithin_name htype) hfirst ?_⟩
  have hnext : next.type = .closeParen ∨ next.type = .identifier ∨ next.type = .comma := by
    by_cases hclose : next.type = .closeParen
    · exact .inl hclose
    · exact .inr (hnames.2 next (by simp [hclose]))
  rw [hrest.current, List.headD_cons]
  rcases hnext with h | h | h <;> simp [AfterExpression, AfterObject, AfterMember, Separated, h]

/-- An expression that consists of names and commas is one name. -/
theorem name_of_expression (hs : c.Takes s d) (h : expression (depth + 1) c = .ok v d)
    (hv : ExpressionWithin (depth + 1) s v) (hnames : NamesOnly s) :
    ∃ token, s = [token] ∧ token.type = .identifier ∧ IsName v token.lexeme := by
  obtain ⟨token, rest, rfl⟩ := List.exists_cons_of_ne_nil hv.starts.ne_nil
  obtain ⟨htype, hrest⟩ := expression_of_namesOnly hs (starts_cons_iff.mp hv.starts) hnames
  rcases eq_or_ne rest [] with rfl | hne
  · exact ⟨token, rfl, htype, _, eq_identifier_of_expression hv htype⟩
  · obtain ⟨e, he, hname⟩ := hrest hne
    rw [hname] at h
    cases h
    have hlength := he.length
    have hpos := List.length_pos_iff.mpr hne
    omega

/-- Where only names and commas are read, an expression breaks off before or behind a name. -/
theorem expression_breaks_namesOnly (depth : Nat) :
    (expression depth).Breaks fun s => NamesOnly s →
      Begins (Named (Items (ExpressionWithin depth))) s := by
  intro c
  cases depth with
  | zero => exact breaksOff_exhausted
  | succ depth =>
    cases heq : expression (depth + 1) c with
    | ok _ _ => simp only [Ensures, heq]
    | error fault d =>
      simp only [Ensures, heq]
      refine ((expression_breaks (depth + 1) c).of_eq_error heq).of_takes (.refl c) ?_
      intro s hs hbegins hnames
      cases s with
      | nil =>
        exact begins_of_fillers [.identifier] (by decide)
          ⟨.one (expressionWithin_name rfl), ["x"], .cons ⟨_, rfl⟩ .nil⟩
      | cons token rest =>
        intro hplain
        obtain ⟨types, w, -, hw⟩ := hbegins hplain
        obtain ⟨htype, hrest⟩ := expression_of_namesOnly hs (starts_cons_iff.mp hw.starts) hnames
        rcases eq_or_ne rest [] with rfl | hne
        · exact begins_self
            ⟨.one (expressionWithin_name htype), [token.lexeme], .cons ⟨_, rfl⟩ .nil⟩ hplain
        · -- A name with another name, a comma or a parenthesis behind it would have been read.
          obtain ⟨e, -, hname⟩ := hrest hne
          rw [hname] at heq
          cases heq

/-- Where only names and commas are read, a list of arguments is one of names, and where it breaks
off it could have been completed to one. -/
theorem argumentList_names (depth : Nat) (c : TokenCursor) :
    (argumentList (expression depth)).Ensures c
      (fun args d => ∃ s, c.Takes s d ∧ Items (ExpressionWithin depth) s args ∧
        (NamesOnly s → ∃ names, List.Forall₂ IsName args names))
      fun fault d => fault.BreaksOff
        (fun s => NamesOnly s → Begins (Named (Items (ExpressionWithin depth))) s) c d := by
  cases depth with
  | zero => exact breaksOff_exhausted
  | succ depth =>
    have hreads := expression_reads (depth + 1)
    induction hn : c.ahead.length using Nat.strongRecOn generalizing c with
    | ind n ih =>
      rw [argumentList, ensures_bind]
      cases heq : expression (depth + 1) c with
      | error fault d =>
        simp only [Ensures, heq]
        exact (expression_breaks_namesOnly (depth + 1) c).of_eq_error heq
      | ok v d =>
        obtain ⟨s, hs, hv, -⟩ := hreads.of_eq_ok heq
        rw [ensures_of_eq_ok heq, ensures_bind]
        by_cases hcomma : d.current.type = .comma
        · rw [ensures_many_furtherArgument hreads hcomma]
          have hnext := takes_current (c := d) (by simp [hcomma])
          have hrest : ∀ t, NamesOnly (s ++ [d.current] ++ t) →
              (∃ name, IsName v name) ∧ NamesOnly t := by
            intro t h
            obtain ⟨token, rfl, htype, hname⟩ :=
              name_of_expression hs heq hv h.of_append.of_append
            exact ⟨⟨_, hname⟩, (h.of_cons htype (by decide)).of_cons hcomma (by decide)⟩
          have hlength := hs.length
          have hlength' : d.ahead.length = 1 + d.next.ahead.length := hnext.length
          refine (ih d.next.ahead.length (by omega) d.next rfl).mono ?_ ?_
          · rintro args e ⟨t, ht, hargs, hnames⟩
            refine ⟨_, (hs.trans hnext).trans ht, by simpa using Items.more hv hcomma hargs,
              fun h => ?_⟩
            obtain ⟨⟨name, hname⟩, ht⟩ := hrest t h
            obtain ⟨names, hall⟩ := hnames ht
            exact ⟨name :: names, .cons hname hall⟩
          · intro fault e hfault
            refine hfault.of_takes (hs.trans hnext) fun t _ hbegins h => ?_
            obtain ⟨⟨name, hname⟩, ht⟩ := hrest t h
            refine (hbegins ht).prepend ?_
            rintro u args ⟨hargs, names, hall⟩
            exact ⟨v :: args, by simpa using Items.more hv hcomma hargs, name :: names,
              .cons hname hall⟩
        · rw [ensures_many_furtherArgument_stop hreads hcomma]
          refine ⟨s, hs, .one hv, fun hnames => ?_⟩
          obtain ⟨token, -, -, hname⟩ := name_of_expression hs heq hv hnames
          exact ⟨_, .cons hname .nil⟩

/-- Where only names and commas are read, arguments that are begun could have been names. -/
theorem arguments_names (depth : Nat) : (arguments (expression depth)).Breaks fun s =>
    (∀ first ∈ s.head?, first.type = .openParen) ∧
      (NamesOnly s.tail → Begins (Named (Arguments (ExpressionWithin depth))) s) := by
  intro c
  simp only [arguments, ensures_bind, ensures_discard, ensures_expect, ensures_sees, ensures_ite,
    ensures_pure, beq_iff_eq]
  refine ⟨fun hopening => ?_, fun _ => breaksOff_after (.refl c) ⟨by simp, fun _ =>
    begins_of_fillers [.openParen, .closeParen] (by decide) ⟨.none rfl rfl, [], .nil⟩⟩⟩
  have htakes := takes_current (c := c) (by simp [hopening])
  have hnamed : ∀ {s args}, Named (Items (ExpressionWithin depth)) s args →
      Named (Arguments (ExpressionWithin depth))
        ([c.current] ++ s ++ [.filler .closeParen]) args :=
    fun h => ⟨.some hopening h.1 rfl, h.2⟩
  refine ⟨fun hclosing => ⟨fun _ => trivial, fun hne => absurd hclosing hne⟩, fun _ => ?_⟩
  refine (argumentList_names depth c.next).mono ?_ fun fault d hfault =>
    hfault.of_takes htakes fun t _ ht => ⟨by simpa using hopening, fun hnames =>
      (ht hnames).close [.closeParen] (by decide) fun u args h =>
        ⟨args, by simpa using hnamed h⟩⟩
  rintro args d ⟨s, hs, hargs, hnames⟩
  refine ⟨fun _ => trivial, fun _ =>
    breaksOff_after (htakes.trans hs) ⟨by simpa using hopening, fun h => ?_⟩⟩
  exact begins_of_fillers [.closeParen] (by decide) (hnamed ⟨hargs, hnames h⟩)

end Parameters

/-! ## Statements and programs -/

section Statements

variable {c : TokenCursor} {depth : Nat} {E P S : Language Node}

/-- Statements that are begun are complete ones and one that is begun. -/
theorem statements_breaks {item : Rule (Option Node)} {Stop : Token → Prop}
    (hreads : item.Reads depth (StatementRound S Stop)) (hnonempty : ∀ s v, S s v → s ≠ [])
    (hitem : item.Breaks (Begins S)) : (many item).Breaks (Begins (Statements S)) := by
  refine many_breaks hreads (statementRound_ne_nil hnonempty) hitem
    (fun s h => h.mono fun t v h => ⟨[v], ?_⟩) fun s v t token hround ht => ?_
  · simpa using Statements.more h .none (by simp)
  · cases hround with
    | statement h =>
      cases t with
      | nil => exact begins_self (.more h.1 .none (by simp))
      | cons first t =>
        refine ht.prepend fun u vs hvs => ⟨v :: vs, ?_⟩
        rw [List.append_assoc]
        exact .more h.1 hvs (by simpa using h.2)

/-- Where the loop over a body objects, statements of the body have begun. -/
theorem body_breaks {statement : Rule Node} (hreads : statement.Reads depth (Phrase S))
    (hnonempty : ∀ s v, S s v → s ≠ []) (hstatement : statement.Breaks (Begins S)) :
    (many (bodyStep statement)).Breaks (Begins (Statements S)) := by
  refine statements_breaks (bodyStep_reads hreads) hnonempty fun c => ?_
  simp only [bodyStep, ensures_bind, ensures_current]
  split
  next => trivial
  next => trivial
  next => simpa only [ensures_bind, ensures_pure] using hstatement c

/-- Where the rule for declarations objects, a declaration has begun, if an expression can be a
name. -/
theorem variableDeclaration_breaks {expr : Rule Node} (hreads : expr.Reads depth (Phrase E))
    (hexpr : expr.Breaks (Begins E)) (hname : ∃ v, E [.filler .identifier] v) (constant : Bool)
    (hkeyword : c.current.type = if constant then .constKeyword else .letKeyword) :
    (variableDeclaration expr).Ensures c (fun _ _ => True)
      fun fault d => fault.BreaksOff (Begins (StatementForm E P S)) c d := by
  obtain ⟨v, hv⟩ := hname
  have hdefine : ∀ {name equals : Token} {s w}, name.type = .identifier → equals.type = .equals →
      E s w → StatementForm E P S (c.current :: name :: equals :: (s ++ [.filler .semicolon]))
        (.define c.current.start name.lexeme constant w) :=
    fun hname hequals h => .define constant hkeyword hname hequals h rfl
  simp only [variableDeclaration, ensures_bind, ensures_advance, ensures_expect, ensures_sees,
    ensures_ite, ensures_discard, ensures_build, ensures_reject, beq_iff_eq]
  have hkey : c.Takes [c.current] c.next := takes_current (by cases constant <;> simp [hkeyword])
  refine ⟨fun hname => ?_, fun _ => breaksOff_after hkey (begins_of_fillers
    [.identifier, .equals, .identifier, .semicolon] (by decide) (hdefine rfl rfl hv))⟩
  have hhead := hkey.trans (takes_current (by simp [hname]))
  have hvalue : Begins (StatementForm E P S) ([c.current] ++ [c.next.current]) :=
    begins_of_fillers [.equals, .identifier, .semicolon] (by decide) (hdefine hname rfl hv)
  refine ⟨fun _ => ⟨fun _ => breaksOff_after hhead hvalue, fun _ => ?_⟩,
    fun _ => ⟨fun hequals => ?_, fun _ => breaksOff_after hhead hvalue⟩⟩
  · simp [Node.declaration?]
  · have htakes := hhead.trans (takes_current (by simp [hequals]))
    refine hexpr.ensures_after hreads htakes (fun t ht => ht.close [.semicolon] (by decide)
        fun u w h => ⟨_, by simpa using hdefine hname hequals h⟩) fun w d s hs _ hw =>
      ⟨fun _ => ?_, fun _ => breaksOff_after hs (begins_of_fillers [.semicolon] (by decide)
        (by simpa using hdefine hname hequals hw.1))⟩
    simp [Node.declaration?]

/-- Where the rule for functions objects, a function has begun. -/
theorem functionDeclaration_breaks (hstatement : (statement depth).Breaks
      (Begins (StatementWithin depth))) (hkeyword : c.current.type = .fnKeyword) :
    (functionDeclaration (expression depth) (statement depth)).Ensures c (fun _ _ => True)
      fun fault d => fault.BreaksOff
        (Begins (StatementForm E (ExpressionWithin depth) (StatementWithin depth))) c d := by
  have hform : ∀ {name opening : Token} {s args parameters t body}, name.type = .identifier →
      Arguments (ExpressionWithin depth) s args → List.Forall₂ IsName args parameters →
      opening.type = .openBrace → Statements (StatementWithin depth) t body →
      StatementForm E (ExpressionWithin depth) (StatementWithin depth)
        (c.current :: name :: (s ++ opening :: (t ++ [.filler .closeBrace])))
        (.function c.current.start name.lexeme parameters body) :=
    fun hname hargs hnames hopening hbody =>
      .function hkeyword hname hargs hnames hopening hbody rfl
  simp only [functionDeclaration, ensures_bind, ensures_advance, ensures_expect, ensures_current]
  have hkey : c.Takes [c.current] c.next := takes_current (by simp [hkeyword])
  refine ⟨fun hname => ?_, fun _ => breaksOff_after hkey (begins_of_fillers
    [.identifier, .openParen, .closeParen, .openBrace, .closeBrace] (by decide)
    (hform rfl (.none rfl rfl) .nil rfl .none))⟩
  have hhead := hkey.trans (takes_current (by simp [hname]))
  refine (arguments_names depth).ensures_after (arguments_reads (expression_reads depth)) hhead
    (fun t ht hplain => ?_) fun args d s hs _ hargs => ?_
  · have hnames : NamesOnly t.tail := by
      cases t with
      | nil => simp [NamesOnly]
      | cons first t => exact hplain.parameters [] _ _ first t rfl hkeyword hname (ht.1 first rfl)
    refine (ht.2 hnames).close [.openBrace, .closeBrace] (by decide) ?_ hplain
    rintro u args ⟨hargs, names, hall⟩
    exact ⟨_, by simpa using hform hname hargs hall rfl .none⟩
  split
  next => exact breaksOff_of_not_immediate rfl
  next parameters hparameters =>
    rw [parameterNames_eq_some_iff] at hparameters
    simp only [ensures_bind, ensures_discard, ensures_expect, ensures_pure]
    refine ⟨fun hopening => ?_, fun _ => breaksOff_after hs (begins_of_fillers
      [.openBrace, .closeBrace] (by decide)
      (by simpa using hform hname hargs hparameters rfl .none))⟩
    have htakes := hs.trans (takes_current (by simp [hopening]))
    have hnonempty : ∀ s v, StatementWithin depth s v → s ≠ [] := fun _ _ h => h.starts.ne_nil
    have hmany := statements_reads (bodyStep_reads (statement_reads depth)) hnonempty
    have hbody := body_breaks (statement_reads depth) hnonempty hstatement
    refine hbody.ensures_after hmany htakes (fun t ht => ht.close [.closeBrace] (by decide)
        fun u body h => ⟨_, by simpa using hform hname hargs hparameters hopening h⟩)
      fun body e t ht _ hbody => ⟨fun _ => trivial, fun _ => breaksOff_after ht ?_⟩
    have hall := hform hname hargs hparameters hopening hbody.1
    exact begins_of_fillers [.closeBrace] (by decide) (by simpa using hall)

/-- Where the rule for expression statements objects, such a statement has begun. -/
theorem expressionStatement_breaks {expr : Rule Node} (hexpr : expr.Breaks (Begins E)) :
    (expressionStatement expr).Breaks (Begins (StatementForm E P S)) := by
  intro c
  simp only [expressionStatement, ensures_bind, ensures_sees, ensures_ite, ensures_discard,
    ensures_advance, ensures_pure]
  exact (hexpr.mono (fun _ h => h.mono fun _ _ h => ⟨_, .expression h⟩) c).mono
    (fun _ _ _ => ⟨fun _ => trivial, fun _ => trivial⟩) fun _ _ h => h

end Statements

/-- Where a statement breaks off, it could have been completed without nesting deeper. -/
theorem statement_breaks (depth : Nat) :
    (statement depth).Breaks (Begins (StatementWithin depth)) := by
  induction depth with
  | zero => exact fun c => breaksOff_exhausted
  | succ depth ih =>
    intro c
    have hreads := expression_reads (depth + 1)
    have hexpr := expression_breaks (depth + 1)
    have hname : ∃ v, ExpressionWithin (depth + 1) [.filler .identifier] v :=
      ⟨_, expressionWithin_name rfl⟩
    simp only [statement, ensures_bind, ensures_current]
    split
    next htype => exact variableDeclaration_breaks hreads hexpr hname false (by simp [htype])
    next htype => exact variableDeclaration_breaks hreads hexpr hname true (by simp [htype])
    next htype => exact functionDeclaration_breaks ih htype
    next => exact expressionStatement_breaks hexpr c

/-- Where a program breaks off, its statements could have been completed without nesting deeper. -/
theorem program_breaks (limit : Nat) :
    (program limit).Breaks (Begins (Statements (StatementWithin limit))) := by
  have hmany : (many (programStep limit)).Breaks (Begins (Statements (StatementWithin limit))) := by
    refine statements_breaks (programStep_reads limit) (fun _ _ h => h.starts.ne_nil) fun c => ?_
    simp only [programStep, ensures_bind, ensures_sees, ensures_ite, ensures_pure]
    exact ⟨fun _ => trivial, fun _ => statement_breaks limit c⟩
  intro c
  simp only [program, ensures_bind, ensures_current, ensures_pure]
  exact hmany.reportingDepth c

end Rule

end BoSyntax
