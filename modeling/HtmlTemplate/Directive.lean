import HtmlTemplate.Markup.Attribute

/-!
Directives are attributes that make an element control flow. An element may carry several; they
open in a fixed order, whatever the order of its attributes, and close in the reverse order.
-/

namespace HtmlTemplate

inductive Directive
  | inclusion
  | partialSlot
  | condition
  | iteration
deriving DecidableEq

namespace Directive

/-- The order in which directives open. -/
def priority : List Directive := [inclusion, partialSlot, condition, iteration]

def ofKey? (key : Text) : Option Directive :=
  [("data-include".toList, inclusion), ("data-partial".toList, partialSlot),
    ("data-if".toList, condition), ("data-each".toList, iteration),
    ("data-for".toList, iteration)].lookup key

/-- Whether the directive goes around the tags of its element and not between them. A partial
inside an include is handed on, tags and all; elsewhere it fills its element. -/
def wraps (depth : Nat) : Directive → Bool
  | inclusion => false
  | partialSlot => depth > 0
  | condition | iteration => true

/-- Whether the directive has a form for an element without content. -/
def isInvocable : Directive → Bool
  | inclusion | partialSlot => true
  | condition | iteration => false

end Directive

structure Clause where
  directive : Directive
  value : Text
deriving DecidableEq

namespace Clause

/-- The clause of an attribute, if it is a directive. A missing value counts as empty. -/
def ofAttribute? (a : Attribute) : Option Clause :=
  (Directive.ofKey? a.key).map fun d => ⟨d, a.value.getD []⟩

/-- Sorted by priority; clauses of one directive keep their order. -/
def sort (clauses : List Clause) : List Clause :=
  Directive.priority.flatMap fun d => clauses.filter (·.directive == d)

def ofAttributes (attributes : List Attribute) : List Clause :=
  sort (attributes.filterMap ofAttribute?)

/-- The attributes that are no directives, in order. -/
def remaining (attributes : List Attribute) : List Attribute :=
  attributes.filter fun a => (Directive.ofKey? a.key).isNone

/-- The clauses that go around the tags of the element, and those that go between them. -/
def split (depth : Nat) (clauses : List Clause) : List Clause × List Clause :=
  clauses.partition (·.directive.wraps depth)

end Clause

end HtmlTemplate
