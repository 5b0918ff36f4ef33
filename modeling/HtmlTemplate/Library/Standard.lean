import HtmlTemplate.Library.Handlers
import HtmlTemplate.Library.Filters
import HtmlTemplate.Text.Quoted

/-! The library with the standard handlers and filters, and the printed form of a library. -/

namespace HtmlTemplate.Library

def standard : Library := ⟨Handlers.all, Filters.all⟩

/-- The names of an association list, sorted by code point and quoted. -/
def nameList {α : Type} (entries : List (Text × α)) : Text :=
  let names := Filters.sortBy (fun (a b : Text) => compare a b) (entries.map (·.1))
  "[" ++ Text.join ", " (names.map Text.quoted) ++ "]"

def describe (l : Library) : Text :=
  "Library \x7b handlers: " ++ nameList l.handlers ++ ", filters: " ++ nameList l.filters ++ " \x7d"

end HtmlTemplate.Library
