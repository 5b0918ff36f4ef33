import HtmlTemplate.Json.Value

/-!
The functions that templates can name: handlers, which change an interpolated value, and filters,
which expressions call. A name stands for the function that was added under it last.
-/

namespace HtmlTemplate

/-- Changes a value; further arguments come from an explicit call only. -/
abbrev Handler := Value → List Value → Value

abbrev Filter := List Value → Value

structure Library where
  handlers : List (Text × Handler)
  filters : List (Text × Filter)

namespace Library

/-- The library without any function, not even `escape`. -/
def empty : Library := ⟨[], []⟩

def handler? (l : Library) (name : Text) : Option Handler := l.handlers.lookup name

def filter? (l : Library) (name : Text) : Option Filter := l.filters.lookup name

/-- An association list with `name` bound to `value` and to nothing else. -/
def bind {α : Type} (name : Text) (value : α) (entries : List (Text × α)) : List (Text × α) :=
  (name, value) :: entries.filter (·.1 != name)

def addHandler (l : Library) (name : Text) (h : Handler) : Library :=
  { l with handlers := bind name h l.handlers }

def addFilter (l : Library) (name : Text) (f : Filter) : Library :=
  { l with filters := bind name f l.filters }

end Library

end HtmlTemplate
