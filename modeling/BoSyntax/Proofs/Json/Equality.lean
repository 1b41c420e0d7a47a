import BoSyntax.Json

/-!
# Equality of JSON values

Values in the JSON data model are equal when they have equal items in the same order, or equal
fields in any order.
-/

namespace BoSyntax.Json

/-- The number that a truth value is equal to. -/
def truthNumber (value : Bool) : Binary64 :=
  if value then .ofRatio false 1 1 else .zero

mutual

/-- Whether two values are equal. The order of fields does not matter, and a truth value is equal to
a number. -/
def equal : Json → Json → Bool
  | .null, .null => true
  | .bool value, .bool value' => value == value'
  | .bool value, .number x => (truthNumber value).equal x
  | .number x, .bool value => x.equal (truthNumber value)
  | .number x, .number x' => x.equal x'
  | .string text, .string text' => text == text'
  | .array items, .array items' => equalItems items items'
  | .object fields, .object fields' =>
    fields.length == fields'.length && equalFields fields fields'
  | _, _ => false

/-- Whether two lists of values are equal, one by one. -/
def equalItems : List Json → List Json → Bool
  | [], [] => true
  | item :: items, item' :: items' => equal item item' && equalItems items items'
  | _, _ => false

/-- Whether fields are found among others, with equal values. -/
def equalFields : List (String × Json) → List (String × Json) → Bool
  | [], _ => true
  | (name, value) :: fields, fields' =>
    (match fields'.lookup name with
      | some value' => equal value value'
      | none => false) && equalFields fields fields'

end

/-- Null is equal to itself. -/
@[simp] theorem null_equal_null : null.equal .null = true := by
  rw [equal]

/-- Truth values are compared as such. -/
@[simp] theorem equal_bool (value value' : Bool) :
    (bool value).equal (.bool value') = (value == value') := by
  rw [equal]

/-- Numbers are compared as such, so not-a-number is unequal to itself. -/
@[simp] theorem equal_number (x x' : Binary64) : (number x).equal (.number x') = x.equal x' := by
  rw [equal]

/-- Strings are compared as texts. -/
@[simp] theorem equal_string (text text' : String) :
    (string text).equal (.string text') = (text == text') := by
  rw [equal]

/-- Arrays are compared item by item. -/
@[simp] theorem equal_array (items items' : List Json) :
    (array items).equal (.array items') = equalItems items items' := by
  rw [equal]

/-- Objects are compared field by field, if they have as many. -/
@[simp] theorem equal_object (fields fields' : List (String × Json)) :
    (object fields).equal (.object fields') =
      (fields.length == fields'.length && equalFields fields fields') := by
  rw [equal]

/-- Lists of strings are compared as lists of texts. -/
@[simp] theorem equalItems_strings (texts texts' : List String) :
    equalItems (texts.map .string) (texts'.map .string) = (texts == texts') := by
  induction texts generalizing texts' with
  | nil => cases texts' <;> rfl
  | cons text texts ih =>
    cases texts' with
    | nil => rfl
    | cons text' texts' =>
      rw [List.map_cons, List.map_cons, equalItems, ih, equal_string]
      rfl

end BoSyntax.Json
