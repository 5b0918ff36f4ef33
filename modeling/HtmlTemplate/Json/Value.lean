import HtmlTemplate.Number.Basic

/-!
Template data: JSON values whose objects keep the order of their fields. A key stands once in an
object; setting it again changes the value in place.
-/

namespace HtmlTemplate

inductive Value
  | null
  | bool (value : Bool)
  | number (value : Number)
  | string (value : Text)
  | array (items : List Value)
  | object (fields : List (Text × Value))

namespace Value

instance : Inhabited Value := ⟨null⟩

def ofNat (n : Nat) : Value := number (.int n)

/-- Sets the field `key`, in its old place if there is one and at the end otherwise. -/
def setField (key : Text) (value : Value) : List (Text × Value) → List (Text × Value)
  | [] => [(key, value)]
  | (k, v) :: fields =>
    if k = key then (key, value) :: fields else (k, v) :: setField key value fields

/-- The value of field `key`, if the value is an object and has it. -/
def field? (key : Text) : Value → Option Value
  | object fields => fields.lookup key
  | _ => none

end Value

end HtmlTemplate
