import BoSyntax.Grammar.Fault

/-!
# Rules over tokens

A rule reads tokens from a cursor. It may fail, and then leaves the cursor where the failure was
met. The cursor holds the tokens still ahead, up to the first end of input, which is never passed:
there it is in sight for good.

Repetition is bounded by the number of tokens there were at the start. Every round of it takes at
least one token, so the bound is never met.
-/

namespace BoSyntax

/-- Tokens that are being read. -/
structure TokenCursor where
  /-- The tokens ahead, before the end of input. -/
  ahead : List Token
  /-- The end of input. -/
  stop : Token
  /-- How many tokens there were ahead at the start. -/
  size : Nat
  ahead_not_end : ∀ token ∈ ahead, token.isEnd = false
  stop_isEnd : stop.isEnd = true
  ahead_le_size : ahead.length ≤ size
  deriving Repr

namespace TokenCursor

/-- A cursor at the start of a list of tokens. The list is completed by an end of input. -/
def ofTokens (tokens : List Token) : TokenCursor where
  ahead := tokens.takeWhile fun token => !token.isEnd
  stop := ((Token.complete tokens).find? Token.isEnd).getD (.ending ⟨1, 1⟩)
  size := (tokens.takeWhile fun token => !token.isEnd).length
  ahead_not_end := fun token member => by
    simpa using List.all_eq_true.mp List.all_takeWhile token member
  stop_isEnd := by
    cases found : (Token.complete tokens).find? Token.isEnd with
    | none => rfl
    | some stop => exact List.find?_some found
  ahead_le_size := Nat.le_refl _

/-- The token in sight. -/
def current (cursor : TokenCursor) : Token :=
  cursor.ahead.headD cursor.stop

/-- The cursor after the token in sight; at the end of input it stays. -/
def next (cursor : TokenCursor) : TokenCursor :=
  { cursor with
    ahead := cursor.ahead.tail
    ahead_not_end := fun token member => cursor.ahead_not_end token (List.mem_of_mem_tail member)
    ahead_le_size := by
      have := cursor.ahead_le_size
      simp only [List.length_tail]
      omega }

/-- How many tokens have been taken. -/
def position (cursor : TokenCursor) : Nat :=
  cursor.size - cursor.ahead.length

end TokenCursor

/-- A rule: reads tokens, and gives a value or a fault. -/
abbrev Rule := EStateM ParseFault TokenCursor

namespace Rule

/-- The token in sight. -/
def current : Rule Token :=
  return (← get).current

/-- Takes the token in sight. The end of input stays in sight. -/
def advance : Rule Token :=
  modifyGet fun cursor => (cursor.current, cursor.next)

/-- Whether the token in sight is of a kind. -/
def sees (type : TokenType) : Rule Bool :=
  return (← current).type == type

/-- Objects to the token in sight. -/
def reject {α : Type} (objection : Objection) : Rule α := do
  throw (.rejected objection (← current))

/-- Takes the token in sight, which must be of a kind. -/
def expect (type : TokenType) (purpose : String) : Rule Token := do
  if (← sees type) then advance else reject (.expected purpose type)

/-- Reads values for as long as a rule gives one, at most so many. -/
def manyUpTo {α : Type} (item : Rule (Option α)) : Nat → Rule (List α)
  | 0 => return []
  | count + 1 => do
    match ← item with
    | none => return []
    | some value => return value :: (← manyUpTo item count)

/-- Reads values for as long as a rule gives one. -/
def many {α : Type} (item : Rule (Option α)) : Rule (List α) := do
  manyUpTo item ((← get).size + 1)

/-- Extends a value for as long as a rule gives a larger one, at most so many times. -/
def growUpTo {α : Type} (extend : α → Rule (Option α)) : Nat → α → Rule α
  | 0, value => return value
  | count + 1, value => do
    match ← extend value with
    | none => return value
    | some larger => growUpTo extend count larger

/-- Extends a value for as long as a rule gives a larger one. -/
def grow {α : Type} (extend : α → Rule (Option α)) (value : α) : Rule α := do
  growUpTo extend ((← get).size + 1) value

end Rule

end BoSyntax
