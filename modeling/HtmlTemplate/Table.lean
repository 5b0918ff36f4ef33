import HtmlTemplate.Text.Basic

/-! Tables by name. Two tables with the same entries are equal. -/

namespace HtmlTemplate

structure Table (α : Type) where
  get? : Text → Option α

namespace Table

def empty {α : Type} : Table α := ⟨fun _ => none⟩

/-- Binds a name, in place of what it was bound to. -/
def insert {α : Type} (t : Table α) (name : Text) (value : α) : Table α :=
  ⟨fun n => if n = name then some value else t.get? n⟩

def erase {α : Type} (t : Table α) (name : Text) : Table α :=
  ⟨fun n => if n = name then none else t.get? n⟩

def contains {α : Type} (t : Table α) (name : Text) : Bool := (t.get? name).isSome

/-- The table of a list; a later entry replaces an earlier one of its name. -/
def ofList {α : Type} (entries : List (Text × α)) : Table α :=
  entries.foldl (fun t (name, value) => t.insert name value) empty

@[ext] theorem ext {α : Type} {s t : Table α} (h : ∀ name, s.get? name = t.get? name) : s = t := by
  cases s
  cases t
  congr
  exact funext h

end Table

end HtmlTemplate
