import BoSyntax.Proofs.Token.Segmentation

/-!
# Tokens one by one

Tokens may be asked for one by one, and spacing may be skipped in between. What comes is what the
whole text gives: its tokens in order, and then the end of input or the first illegal character,
time and again. What is to come from a cursor is told by the characters that are left, and neither
skipping nor failing changes it.
-/

namespace BoSyntax

open Text TextCursor

/-- Takes a step of reading: what it gives, and the cursor as it leaves it, also when it fails. -/
def TextCursor.apply {α : Type} (cursor : TextCursor) (step : Scan α) :
    Except ReadFault α × TextCursor :=
  match step cursor with
  | .ok value cursor => (.ok value, cursor)
  | .error fault cursor => (.error fault, cursor)

namespace Scan

/-- What may be asked for while a text is read: the next token, or that spacing is skipped. -/
inductive Request where
  | token
  | spacing
  deriving DecidableEq

/-- The step that serves a request. Only a request for a token gives one. -/
def Request.step : Request → Scan (Option Token)
  | .token => some <$> nextToken
  | .spacing => (fun _ => none) <$> skipSpacing

/-- Serves requests one after the other, each from where the one before left the cursor. -/
def serve : List Request → TextCursor → List (Except ReadFault (Option Token)) × TextCursor
  | [], cursor => ([], cursor)
  | request :: requests, cursor =>
    let (reply, cursor) := cursor.apply request.step
    let (replies, cursor) := serve requests cursor
    (reply :: replies, cursor)

/-- The reply of one who has tokens to hand out, and the tokens that are left. When there are none
the reply to a request for a token is the same every time. -/
def handOne (last : Except ReadFault Token) :
    Request → List Token → Except ReadFault (Option Token) × List Token
  | .spacing, ts => (.ok none, ts)
  | .token, [] => (last.map some, [])
  | .token, token :: ts => (.ok (some token), ts)

/-- The replies of one who has tokens to hand out. -/
def handOut (last : Except ReadFault Token) :
    List Request → List Token → List (Except ReadFault (Option Token))
  | [], _ => []
  | request :: requests, ts =>
    let (reply, ts) := handOne last request ts
    reply :: handOut last requests ts

/-! ## What is to come -/

/-- What comes at the end of the text, or at a character that starts no token. -/
inductive Stops (before : List Char) : List Char → Except ReadFault Token → Prop
  | ending : Stops before [] (.ok (.ending (placeAfter before)))
  | illegal {c after} : ¬Legal c →
    Stops before (c :: after) (.error (.illegal c (placeAfter before)))

/-- What is to come between two parts of a text: the tokens of the lexemes that the second one
starts with, and then what stops them. -/
def Pending (before rest : List Char) (ts : List Token) (last : Except ReadFault Token) : Prop :=
  ∃ lexemes w stop, rest = lexemes ++ (w ++ stop) ∧ Segmented (w ++ stop) before lexemes ts ∧
    Spaces w ∧ Stops (before ++ lexemes ++ w) stop last

variable {before rest : List Char} {ts : List Token} {last : Except ReadFault Token}

/-- There are tokens pending in what is left of any text, up to the last answer. -/
theorem exists_pending (before rest : List Char) : ∃ ts last, Pending before rest ts last := by
  obtain ⟨ts, lexemes, w, stop, rfl, hseg, hspaces, hillegal⟩ := exists_segmented before rest
  cases stop with
  | nil => exact ⟨ts, _, lexemes, w, [], by simp, hseg, hspaces, .ending⟩
  | cons c after =>
    exact ⟨ts, _, lexemes, w, c :: after, by simp, hseg, hspaces, .illegal (hillegal c rfl)⟩

/-- Where no token is to come there is spacing up to where the text stops. -/
theorem pending_nil_iff : Pending before rest [] last ↔
    ∃ w stop, rest = w ++ stop ∧ Spaces w ∧ Stops (before ++ w) stop last := by
  constructor
  · rintro ⟨lexemes, w, stop, rfl, hseg, hspaces, hstop⟩
    cases hseg
    rw [List.append_nil] at hstop
    exact ⟨w, stop, rfl, hspaces, hstop⟩
  · rintro ⟨w, stop, rfl, hspaces, hstop⟩
    exact ⟨[], w, stop, rfl, .nil, hspaces, by rwa [List.append_nil]⟩

/-- Where a token is to come there is its lexeme behind spacing, and then what comes behind it. -/
theorem pending_cons_iff {token : Token} : Pending before rest (token :: ts) last ↔
    ∃ w v after type, rest = w ++ (v ++ after) ∧ Spaces w ∧ Lexeme type v after ∧
      token = ⟨type, String.ofList v, placeAfter (before ++ w)⟩ ∧
      Pending (before ++ w ++ v) after ts last := by
  constructor
  · rintro ⟨lexemes, w', stop, rfl, hseg, hspaces', hstop⟩
    cases hseg with
    | @cons _ w v lexemes type _ hspaces hlexeme hseg =>
      refine ⟨w, v, lexemes ++ (w' ++ stop), type, by simp, hspaces, hlexeme, rfl, lexemes, w',
        stop, rfl, hseg, hspaces', ?_⟩
      simpa only [List.append_assoc] using hstop
  · rintro ⟨w, v, after, type, rfl, hspaces, hlexeme, rfl, lexemes, w', stop, rfl, hseg, hspaces',
      hstop⟩
    refine ⟨w ++ v ++ lexemes, w', stop, by simp, .cons hspaces hlexeme hseg, hspaces', ?_⟩
    simpa only [List.append_assoc] using hstop

/-- The end of input stands where the text ends. -/
theorem Pending.eq_ending {token : Token} (h : Pending before rest ts (.ok token)) :
    token = .ending (placeAfter (before ++ rest)) := by
  obtain ⟨lexemes, w, stop, rfl, -, -, hstop⟩ := h
  cases hstop
  rw [List.append_nil, List.append_assoc]

/-- The tokens that are to come are those of a segment that reaches to the first illegal character.
-/
theorem Pending.exists_segmented (h : Pending before rest ts last) :
    ∃ lexemes w stop, rest = lexemes ++ w ++ stop ∧ Segmented (w ++ stop) before lexemes ts ∧
      Spaces w ∧ ∀ c ∈ stop.head?, ¬Legal c := by
  obtain ⟨lexemes, w, stop, rfl, hseg, hspaces, hstop⟩ := h
  refine ⟨lexemes, w, stop, by rw [List.append_assoc], hseg, hspaces, ?_⟩
  cases hstop with
  | ending => simp
  | illegal hillegal => simpa

/-! ## Spacing -/

/-- Spaces are taken up to the first character that is no spacing. -/
theorem takeWhile_spaces {w : List Char} (hspaces : Spaces w)
    (hrest : ∀ c ∈ rest.head?, c ∉ spacing) :
    (w ++ rest).takeWhile spacing.contains = w ∧ (w ++ rest).dropWhile spacing.contains = rest := by
  have hall : ∀ c ∈ w, spacing.contains c = true := fun c hmem => by simpa using hspaces c hmem
  have hhead : ∀ c ∈ rest.head?, spacing.contains c = false := fun c hmem => by
    simpa using hrest c hmem
  exact ⟨takeWhile_run_append hall hhead, dropWhile_run_append hall hhead⟩

/-- No spacing is in sight where a text stops. -/
theorem Stops.notMem_spacing {stop : List Char} (h : Stops before stop last) :
    ∀ c ∈ stop.head?, c ∉ spacing := by
  cases h with
  | ending => simp
  | illegal hillegal =>
    intro c hc hspacing
    obtain rfl := Option.mem_some.mp hc
    exact hillegal (.inl hspacing)

/-- Skipping spacing does not change what is to come. -/
theorem Pending.skip (h : Pending before rest ts last) :
    Pending (before ++ rest.takeWhile spacing.contains) (rest.dropWhile spacing.contains) ts
      last := by
  cases ts with
  | nil =>
    obtain ⟨w, stop, rfl, hspaces, hstop⟩ := pending_nil_iff.mp h
    obtain ⟨htake, hdrop⟩ := takeWhile_spaces hspaces hstop.notMem_spacing
    rw [htake, hdrop, pending_nil_iff]
    exact ⟨[], stop, rfl, by simp [Spaces], by rwa [List.append_nil]⟩
  | cons token ts =>
    obtain ⟨w, v, after, type, rfl, hspaces, hlexeme, rfl, hafter⟩ := pending_cons_iff.mp h
    obtain ⟨c, u, rfl, hspacing⟩ := hlexeme.exists_cons
    obtain ⟨htake, hdrop⟩ := @takeWhile_spaces (c :: u ++ after) w hspaces (by simpa)
    rw [htake, hdrop, pending_cons_iff]
    exact ⟨[], c :: u, after, type, rfl, by simp [Spaces], hlexeme, by rw [List.append_nil],
      by rwa [List.append_nil]⟩

/-! ## Tokens -/

/-- The token that is to come next is read, and with it at least one character. -/
theorem Pending.nextToken_eq_ok {token : Token} (h : Pending before rest (token :: ts) last) :
    ∃ consumed after, rest = consumed ++ after ∧ consumed ≠ [] ∧ token.type ≠ .endOfInput ∧
      nextToken (between before rest) = .ok token (between (before ++ consumed) after) ∧
      Pending (before ++ consumed) after ts last := by
  obtain ⟨w, v, after, type, rfl, hspaces, hlexeme, rfl, hafter⟩ := pending_cons_iff.mp h
  have hne : v ≠ [] := by
    obtain ⟨c, u, rfl, -⟩ := hlexeme.exists_cons
    exact List.cons_ne_nil c u
  refine ⟨w ++ v, after, by simp, by simp [hne], hlexeme.type_ne_endOfInput, ?_, ?_⟩
  · rw [nextToken_spaces before (v ++ after) hspaces, nextToken_lexeme (before ++ w) after hlexeme,
      List.append_assoc]
  · rwa [← List.append_assoc]

/-- When no token is to come, what stops the text is told, and the cursor is left there. -/
theorem Pending.nextToken_apply (h : Pending before rest [] last) :
    (between before rest).apply nextToken =
      (last, between (before ++ rest.takeWhile spacing.contains)
        (rest.dropWhile spacing.contains)) := by
  obtain ⟨w, stop, rfl, hspaces, hstop⟩ := pending_nil_iff.mp h
  obtain ⟨htake, hdrop⟩ := takeWhile_spaces hspaces hstop.notMem_spacing
  rw [htake, hdrop, TextCursor.apply, nextToken_spaces before stop hspaces]
  cases hstop with
  | ending => rw [nextToken_nil]
  | illegal hillegal => rw [nextToken_illegal _ _ hillegal]

/-- The next token fails just when the character behind spacing is illegal. The spacing is taken
then, but not the character. -/
theorem nextToken_eq_error_iff {fault : ReadFault} {cursor : TextCursor} :
    nextToken (between before rest) = .error fault cursor ↔
      ∃ c after, rest.dropWhile spacing.contains = c :: after ∧ ¬Legal c ∧
        fault = .illegal c (placeAfter (before ++ rest.takeWhile spacing.contains)) ∧
        cursor = between (before ++ rest.takeWhile spacing.contains) (c :: after) := by
  have hspaces : Spaces (rest.takeWhile spacing.contains) := fun c hmem => by
    simpa using List.mem_takeWhile_imp hmem
  have htoken := nextToken_spaces before (rest.dropWhile spacing.contains) hspaces
  rw [List.takeWhile_append_dropWhile] at htoken
  rw [htoken]
  generalize before ++ rest.takeWhile spacing.contains = front
  cases hrest : rest.dropWhile spacing.contains with
  | nil => simp [nextToken_nil]
  | cons c after =>
    have hspacing : c ∉ spacing := by
      have hnot := List.head?_dropWhile_not spacing.contains rest
      simpa [hrest] using hnot
    by_cases hlegal : Legal c
    · obtain ⟨type, v, after', heq, hlexeme⟩ := exists_lexeme hlegal hspacing after
      rw [heq, nextToken_lexeme front after' hlexeme, ← heq]
      simp [hlegal]
    · rw [nextToken_illegal front after hlegal]
      constructor
      · intro h
        obtain ⟨rfl, rfl⟩ := EStateM.Result.error.inj h
        exact ⟨c, after, rfl, hlegal, rfl, rfl⟩
      · rintro ⟨c', after', heq, -, rfl, rfl⟩
        obtain ⟨rfl, rfl⟩ := List.cons.inj heq
        rfl

/-- A fault that is met is the one that was to come. -/
theorem Pending.last_eq_error {fault : ReadFault} {cursor : TextCursor}
    (h : Pending before rest ts last)
    (hfault : nextToken (between before rest) = .error fault cursor) :
    last = .error fault := by
  cases ts with
  | nil =>
    have hlast := congrArg Prod.fst h.nextToken_apply
    rw [TextCursor.apply, hfault] at hlast
    exact hlast.symm
  | cons token ts =>
    obtain ⟨consumed, after, -, -, -, htoken, -⟩ := h.nextToken_eq_ok
    rw [htoken] at hfault
    cases hfault

/-- A token that is no end of input leads on. -/
theorem Pending.offset_lt {token : Token} {cursor : TextCursor} (h : Pending before rest ts last)
    (htoken : nextToken (between before rest) = .ok token cursor)
    (htype : token.type ≠ .endOfInput) :
    (between before rest).offset < cursor.offset := by
  cases ts with
  | nil =>
    have happly := congrArg Prod.fst h.nextToken_apply
    rw [TextCursor.apply, htoken] at happly
    have hlast : last = .ok token := happly.symm
    have hending := (hlast ▸ h).eq_ending
    exact absurd (by rw [hending]; rfl) htype
  | cons next ts =>
    obtain ⟨consumed, after, -, hne, -, hnext, -⟩ := h.nextToken_eq_ok
    obtain ⟨rfl, rfl⟩ := EStateM.Result.ok.inj (htoken.symm.trans hnext)
    have hpos := List.length_pos_iff.mpr hne
    simp only [between, List.length_append]
    omega

/-! ## Requests -/

/-- To change the value of a step changes nothing else about it. -/
theorem apply_map {α β : Type} (f : α → β) (step : Scan α) (cursor : TextCursor) :
    cursor.apply (f <$> step) = ((cursor.apply step).1.map f, (cursor.apply step).2) := by
  rw [TextCursor.apply, TextCursor.apply, map_apply]
  cases step cursor <;> rfl

/-- A request takes from what is to come the token that it is given, and nothing else. -/
theorem Pending.apply (h : Pending before rest ts last) (request : Request) :
    ∃ consumed after, rest = consumed ++ after ∧
      (between before rest).apply request.step =
        ((handOne last request ts).1, between (before ++ consumed) after) ∧
      Pending (before ++ consumed) after (handOne last request ts).2 last := by
  cases request with
  | spacing =>
    refine ⟨_, _, List.takeWhile_append_dropWhile.symm, ?_, h.skip⟩
    rw [Request.step, apply_map, TextCursor.apply, skipSpacing_between]
    rfl
  | token =>
    rw [Request.step, apply_map]
    cases ts with
    | nil =>
      rw [h.nextToken_apply]
      exact ⟨_, _, List.takeWhile_append_dropWhile.symm, rfl, h.skip⟩
    | cons token ts =>
      obtain ⟨consumed, after, hrest, -, -, htoken, hafter⟩ := h.nextToken_eq_ok
      rw [TextCursor.apply, htoken]
      exact ⟨consumed, after, hrest, rfl, hafter⟩

/-- Only a request for a token can fail, and it fails as reading the token does. -/
theorem Request.step_eq_error_iff {request : Request} {fault : ReadFault} {cursor : TextCursor} :
    request.step (between before rest) = .error fault cursor ↔
      request = .token ∧ nextToken (between before rest) = .error fault cursor := by
  cases request with
  | spacing => simp [step, map_apply, skipSpacing_between]
  | token =>
    rw [step, map_apply]
    cases nextToken (between before rest) <;> simp

/-- As many tokens are left as were not asked for. -/
theorem handOne_snd (last : Except ReadFault Token) (request : Request) (ts : List Token) :
    (handOne last request ts).2 = ts.drop ([request].count .token) := by
  cases request with
  | spacing => rfl
  | token => cases ts <;> rfl

/-- Requests are replied to as by one who hands out the tokens that are to come. -/
theorem Pending.serve (h : Pending before rest ts last) (requests : List Request) :
    ∃ consumed after, rest = consumed ++ after ∧
      serve requests (between before rest) =
        (handOut last requests ts, between (before ++ consumed) after) ∧
      Pending (before ++ consumed) after (ts.drop (requests.count .token)) last := by
  induction requests generalizing before rest ts with
  | nil => exact ⟨[], rest, rfl, by rw [List.append_nil]; rfl, by rwa [List.append_nil]⟩
  | cons request requests ih =>
    obtain ⟨consumed, after, rfl, hreply, hleft⟩ := h.apply request
    obtain ⟨consumed', after', rfl, hreplies, hleft'⟩ := ih hleft
    rw [handOne_snd, List.drop_drop, ← List.count_append] at hleft'
    refine ⟨consumed ++ consumed', after', by rw [List.append_assoc], ?_, ?_⟩
    · simp only [Scan.serve, hreply, hreplies, List.append_assoc]
      rfl
    · rwa [← List.append_assoc]

/-- All that is to come, at once. -/
theorem Pending.tokens_apply (h : Pending before rest ts last) :
    ((between before rest).apply tokens).1 = last.map fun token => ts ++ [token] := by
  obtain ⟨lexemes, w, stop, rfl, hseg, hspaces, hstop⟩ := h
  rw [TextCursor.apply]
  cases hstop with
  | ending =>
    rw [List.append_nil] at hseg ⊢
    rw [tokens_of_segmented before hseg hspaces]
    rfl
  | illegal hillegal =>
    rw [tokens_of_illegal before hseg hspaces hillegal]
    rfl

/-- The tokens of a text are what asking for all of them gives. -/
theorem ofString_eq_apply (source : String) :
    Token.ofString source = ((ofString source).apply tokens).1 := by
  rw [Token.ofString, TextCursor.apply]
  cases tokens (ofString source) <;> rfl

/-- Reading token by token agrees with reading all tokens at once, however much spacing is skipped
in between. Requests for tokens are given the tokens of the whole text in order, and then the end of
input or the fault of the text every time. A request fails just when it is for a token and the
character behind spacing is illegal, and leaves the cursor at that character. Every token that is
not the end of input leads on, so all that are left can be read at any time. -/
theorem serve_ofString (source : String) :
    ∃ ts last, Token.ofString source = last.map (fun token => ts ++ [token]) ∧
      (∀ token ∈ ts, token.type ≠ .endOfInput) ∧
      (∀ token, last = .ok token → token = .ending (placeAfter source.toList)) ∧
      (∃ lexemes w stop, source.toList = lexemes ++ w ++ stop ∧
        Segmented (w ++ stop) [] lexemes ts ∧ Spaces w ∧ ∀ c ∈ stop.head?, ¬Legal c) ∧
      ∀ requests, ∃ before rest, source.toList = before ++ rest ∧
        serve requests (ofString source) = (handOut last requests ts, between before rest) ∧
        (∀ (request : Request) (fault : ReadFault) (cursor : TextCursor),
          request.step (between before rest) = .error fault cursor ↔
            request = .token ∧ ∃ c after, rest.dropWhile spacing.contains = c :: after ∧ ¬Legal c ∧
              Token.ofString source = .error fault ∧
              cursor = between (before ++ rest.takeWhile spacing.contains) (c :: after)) ∧
        (∀ token cursor, nextToken (between before rest) = .ok token cursor →
          token.type ≠ .endOfInput → (between before rest).offset < cursor.offset) ∧
        ((between before rest).apply tokens).1 =
          last.map fun token => ts.drop (requests.count .token) ++ [token] := by
  obtain ⟨ts, last, h⟩ := exists_pending [] source.toList
  have hstring : Token.ofString source = last.map fun token => ts ++ [token] := by
    rw [ofString_eq_apply, ofString_eq_between, h.tokens_apply]
  have hends : ∀ token ∈ ts, token.type ≠ .endOfInput := by
    obtain ⟨lexemes, w, stop, -, hseg, -, -⟩ := h.exists_segmented
    exact hseg.type_ne_endOfInput
  have hlast : ∀ token, last = .ok token → token = .ending (placeAfter source.toList) :=
    fun token heq => (heq ▸ h).eq_ending
  refine ⟨ts, last, hstring, hends, hlast, h.exists_segmented, fun requests => ?_⟩
  obtain ⟨before, rest, hsplit, hserve, hleft⟩ := h.serve requests
  rw [List.nil_append] at hserve hleft
  have hfault : ∀ fault cursor, nextToken (between before rest) = .error fault cursor →
      Token.ofString source = .error fault := by
    intro fault cursor herror
    rw [hstring, hleft.last_eq_error herror]
    rfl
  refine ⟨before, rest, hsplit, hserve, fun request fault cursor => ?_,
    fun token cursor => hleft.offset_lt, hleft.tokens_apply⟩
  rw [Request.step_eq_error_iff]
  refine and_congr_right fun _ => ⟨fun herror => ?_, ?_⟩
  · obtain ⟨c, after, hrest, hillegal, -, hcursor⟩ := nextToken_eq_error_iff.mp herror
    exact ⟨c, after, hrest, hillegal, hfault _ _ herror, hcursor⟩
  · rintro ⟨c, after, hrest, hillegal, hstring', rfl⟩
    have herror : nextToken (between before rest) = .error _ _ :=
      nextToken_eq_error_iff.mpr ⟨c, after, hrest, hillegal, rfl, rfl⟩
    have heq := Except.error.inj (hstring'.symm.trans (hfault _ _ herror))
    rwa [heq]

example : (serve [.spacing, .token, .token, .spacing, .token] (ofString "a ?")).1 =
    [.ok none, .ok (some ⟨.identifier, "a", ⟨1, 1⟩⟩), .error (.illegal '?' ⟨1, 3⟩), .ok none,
      .error (.illegal '?' ⟨1, 3⟩)] := by
  decide +kernel

end Scan

end BoSyntax
