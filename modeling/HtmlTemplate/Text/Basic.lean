/-!
Text is a list of characters. Positions in it are counted in UTF-8 bytes; cutting, searching and
joining work on characters, so every cut falls between two of them.
-/

namespace HtmlTemplate

/-- Template source, names and output. -/
abbrev Text := List Char

instance : Coe String Text := ⟨String.toList⟩

namespace Text

/-- Length in UTF-8 bytes. -/
def byteSize (t : Text) : Nat := t.foldr (fun c size => c.utf8Size + size) 0

/-- Lower-cases the letters `A` to `Z` and nothing else. -/
def lowerAscii (t : Text) : Text := t.map Char.toLower

def digits (n : Nat) : Text := Nat.toDigits 10 n

/-- The texts in order with `separator` between neighbours. -/
def join (separator : Text) (parts : List Text) : Text := separator.intercalate parts

/-- What stands before and after the first occurrence of `needle`. -/
def breakOn (needle : Text) : Text → Option (Text × Text)
  | [] => none
  | c :: cs =>
    if needle.isPrefixOf (c :: cs) then some ([], (c :: cs).drop needle.length)
    else (breakOn needle cs).map fun (before, after) => (c :: before, after)

/-- The pieces between the characters that satisfy `p`; one more than there are such characters. -/
def splitWhere (p : Char → Bool) : Text → List Text
  | [] => [[]]
  | c :: cs =>
    if p c then [] :: splitWhere p cs
    else match splitWhere p cs with
      | [] => [[c]]
      | piece :: pieces => (c :: piece) :: pieces

@[simp] theorem byteSize_nil : byteSize [] = 0 := rfl

@[simp] theorem byteSize_cons (c : Char) (t : Text) :
    byteSize (c :: t) = c.utf8Size + byteSize t := rfl

@[simp] theorem byteSize_append (s t : Text) : byteSize (s ++ t) = byteSize s + byteSize t := by
  induction s with
  | nil => simp
  | cons c cs ih => simp [ih, Nat.add_assoc]

/-- A search cuts the text around the occurrence it found. -/
theorem eq_of_breakOn_eq_some {needle t before after : Text}
    (h : breakOn needle t = some (before, after)) : t = before ++ needle ++ after := by
  induction t generalizing before with
  | nil => simp [breakOn] at h
  | cons c cs ih =>
    by_cases hp : needle.isPrefixOf (c :: cs)
    · simp only [breakOn, hp, if_true, Option.some.injEq, Prod.mk.injEq] at h
      obtain ⟨rfl, rfl⟩ := h
      obtain ⟨rest, hrest⟩ := List.isPrefixOf_iff_prefix.mp hp
      simp [← hrest]
    · simp only [breakOn, hp, Bool.false_eq_true, if_false, Option.map_eq_some_iff] at h
      obtain ⟨⟨b, a⟩, hfound, heq⟩ := h
      simp only [Prod.mk.injEq] at heq
      obtain ⟨rfl, rfl⟩ := heq
      simp [ih hfound]

end Text

end HtmlTemplate
