/-!
# Indices

An index into a sequence counts from its start, or if it is negative from its end. It must be a
signed word of 64 bits.
-/

namespace BoSyntax

/-- Why an index stands for no place in a sequence. -/
inductive IndexFault where
  /-- It is before the start of the sequence or past its end. -/
  | outOfRange
  /-- It is no signed word of 64 bits. -/
  | tooLarge
  deriving DecidableEq, Repr

/-- What is said of a fault, with a word for the kind of sequence. -/
def IndexFault.message (sequence : String) : IndexFault → String
  | .outOfRange => sequence ++ " index out of range"
  | .tooLarge => "cannot fit 'int' into an index-sized integer"

/-- The place that an index stands for in a sequence of some length. Only an index without a place
can be too large: sequences are shorter than any such word. -/
def placeOfIndex (length : Nat) (index : Int) : Except IndexFault (Fin length) :=
  let place := if index < 0 then index + length else index
  if h : 0 ≤ place ∧ place < length then .ok ⟨place.toNat, by omega⟩
  else if index < Int64.minValue.toInt ∨ Int64.maxValue.toInt < index then .error .tooLarge
  else .error .outOfRange

end BoSyntax
