import HtmlTemplate.Library.Basic
import HtmlTemplate.Json.Conversion

/-! The standard filters: a test for emptiness, and sorting. Missing arguments count as `null`. -/

namespace HtmlTemplate.Filters

def argument (arguments : List Value) (i : Nat) : Value := (arguments[i]?).getD .null

/-- Whether a condition on the value fails, or it has neither items nor fields nor characters.
Numbers and booleans have none. -/
def isEmptyValue (v : Value) : Bool :=
  !Value.holds (some v) ||
    match v with
    | .array items => items.isEmpty
    | .object fields => fields.isEmpty
    | .string s => s.isEmpty
    | _ => true

def isEmpty (arguments : List Value) : Value := .bool (isEmptyValue (argument arguments 0))

/-- Puts an item after all items of a sorted list, given last item first, that it is not less
than. -/
def insertLast {α : Type} (less : α → α → Bool) (x : α) : List α → List α
  | [] => [x]
  | y :: ys => if less x y then y :: insertLast less x ys else x :: y :: ys

/-- Stable sorting by insertion from the end. Where the order is no total preorder of the items,
this is one result of many, and another method may give none. -/
def sortBy {α : Type} (order : α → α → Ordering) (items : List α) : List α :=
  (items.foldl (fun sorted x => insertLast (fun a b => order a b == .lt) x sorted) []).reverse

/-- Stable sorting by a key that is worked out once for each item. -/
def sortOn {α β : Type} (key : α → β) (order : β → β → Ordering) (items : List α) : List α :=
  (sortBy (fun a b => order a.1 b.1) (items.map fun x => (key x, x))).map (·.2)

def sortItems (orderBy : Value) (items : List Value) : List Value :=
  if Value.holds (some orderBy) then
    let key := orderBy.text
    sortOn (·.field? key) Value.compareValues items
  else sortOn Value.text Text.compareUnits items

def sortFields (fields : List (Text × Value)) : List (Text × Value) :=
  sortOn (·.1) Text.compareUnits fields

/-- Sorts the items of an array, by their text or by the property `orderBy`, or the fields of an
object by key. The second argument is `orderBy` unless it is a boolean, which tells whether to
reverse the result; the third is `orderBy` then. -/
def sort (arguments : List Value) : Value :=
  let (reverse, orderBy) : Bool × Value :=
    match argument arguments 1 with
    | .bool b => (b, argument arguments 2)
    | other => (false, other)
  match argument arguments 0 with
  | .array items =>
    let sorted := sortItems orderBy items
    .array (if reverse then sorted.reverse else sorted)
  | .object fields =>
    let sorted := sortFields fields
    .object (if reverse then sorted.reverse else sorted)
  | value => value

def all : List (Text × Filter) := [("isEmpty".toList, isEmpty), ("sort".toList, sort)]

end HtmlTemplate.Filters
