/-!
# Steps that may fail

Rules over tokens and steps of reading a text have one form: from a state they come to another one
with a value or with a fault. One step after another goes on from the state that the first leaves.
-/

namespace BoSyntax

variable {ε σ α β : Type} {first : EStateM ε σ α} {s t : σ}

/-- The next step is taken with the value of the one before. -/
theorem bind_of_eq_ok {rest : α → EStateM ε σ β} {value : α} (h : first s = .ok value t) :
    (first >>= rest) s = rest value t := by
  change EStateM.bind first rest s = _
  simp only [EStateM.bind, h]

/-- No further step is taken after a fault. -/
theorem bind_of_eq_error {rest : α → EStateM ε σ β} {fault : ε} (h : first s = .error fault t) :
    (first >>= rest) s = .error fault t := by
  change EStateM.bind first rest s = _
  simp only [EStateM.bind, h]

/-- A value may be changed, but not a fault. -/
theorem map_apply (f : α → β) :
    (f <$> first) s =
      match first s with
      | .ok value t => .ok (f value) t
      | .error fault t => .error fault t := by
  change EStateM.map f first s = _
  unfold EStateM.map
  cases first s <;> rfl

/-- A value may be left unused. -/
theorem discard_of_eq_ok {value : α} (h : first s = .ok value t) :
    (discard first) s = .ok ⟨⟩ t := by
  change EStateM.map (fun _ => PUnit.unit) first s = _
  simp only [EStateM.map, h]

/-- What comes out well gives a value. -/
theorem exists_eq_ok_of_isOk {result : Except ε α} (h : result.isOk = true) :
    ∃ value, result = .ok value := by
  cases result with
  | ok value => exact ⟨value, rfl⟩
  | error fault => cases h

/-- Looking at the state does not change it. -/
theorem get_bind {rest : σ → EStateM ε σ β} : (get >>= rest) s = rest s s :=
  rfl

end BoSyntax
