import HtmlTemplate.Library.Standard
import HtmlTemplate.Expr.Eval
import HtmlTemplate.Proofs.Text.Units

/-!
Items and lengths of arrays and texts. The items of a text are its characters, while its length
counts UTF-16 units: it is greater than the number of items by the number of characters outside of
the basic plane (`member?_length`). An index expression is defined below the number of items, which
is the length exactly if there is no such character.
-/

namespace HtmlTemplate

namespace Value

/-- Whether a value has items and a length. -/
def IsIndexed (v : Value) : Prop := (∃ items, v = array items) ∨ ∃ s, v = string s

def itemCount : Value → Nat
  | array items => items.length
  | string s => s.length
  | _ => 0

/-- The number of characters outside of the basic plane, if the value is a text. -/
def wideCount : Value → Nat
  | string s => Text.wideCount s
  | _ => 0

variable {v : Value}

theorem member?_length (h : v.IsIndexed) :
    v.member? (.name "length") = some (.ofNat (v.itemCount + v.wideCount)) := by
  rcases h with ⟨items, rfl⟩ | ⟨s, rfl⟩
  · rfl
  · show some (ofNat (Text.units s).length) = _
    rw [Text.length_units]
    rfl

theorem isSome_member?_index (h : v.IsIndexed) (i : Nat) :
    (v.member? (.index i)).isSome ↔ i < v.itemCount := by
  rcases h with ⟨items, rfl⟩ | ⟨s, rfl⟩
  · show items[i]?.isSome ↔ i < items.length
    simp
  · show (s[i]?.map fun c => string [c]).isSome ↔ i < s.length
    simp

end Value

theorem MemberKey.ofValue_ofNat (i : Nat) : ofValue (.ofNat i) = .index i := by
  simp [ofValue, Value.ofNat, Number.index?]

namespace Expr

variable {scope : Scope} {library : Library} {source : Text} {base key : Expr} {v : Value}

theorem eval_member (h : base.eval scope library source = .ok (some v)) (property : Text) :
    (member base property).eval scope library source = .ok (v.member? (.name property)) := by
  rw [eval, h]
  rfl

theorem eval_index {i : Nat} (h : base.eval scope library source = .ok (some v))
    (hkey : key.eval scope library source = .ok (some (.ofNat i))) :
    (index base key).eval scope library source = .ok (v.member? (.index i)) := by
  rw [eval, h, ← MemberKey.ofValue_ofNat, hkey]
  rfl

/-- Indexing gives something defined at the natural numbers below `n` and at no other. The index
can be any expression of that value, such as a literal. -/
def IndexedBelow (scope : Scope) (library : Library) (source : Text) (base : Expr) (n : Nat) :
    Prop :=
  ∀ i key, eval scope library source key = .ok (some (.ofNat i)) →
    ∃ w, (index base key).eval scope library source = .ok w ∧ (w.isSome ↔ i < n)

theorem indexedBelow_itemCount (h : base.eval scope library source = .ok (some v))
    (hv : v.IsIndexed) : IndexedBelow scope library source base v.itemCount :=
  fun i _ hkey => ⟨_, eval_index h hkey, Value.isSome_member?_index hv i⟩

theorem IndexedBelow.unique {m n : Nat} (hm : IndexedBelow scope library source base m)
    (hn : IndexedBelow scope library source base n) : m = n := by
  have hiff (i : Nat) : i < m ↔ i < n := by
    obtain ⟨w, hw, hiff⟩ := hm i (literal (.number (.int i))) rfl
    obtain ⟨w', hw', hiff'⟩ := hn i (literal (.number (.int i))) rfl
    obtain rfl : w = w' := Except.ok.inj (hw.symm.trans hw')
    exact hiff.symm.trans hiff'
  have hmn := hiff m
  have hnm := hiff n
  omega

/-- An array or text can be indexed below the number of its items. That number is its length if and
only if it is no text with characters outside of the basic plane. -/
theorem indexedBelow_length_iff (hbase : base.eval scope library source = .ok (some v))
    (hv : v.IsIndexed) :
    (member base "length").eval scope library source =
        .ok (some (.ofNat (v.itemCount + v.wideCount))) ∧
      IndexedBelow scope library source base v.itemCount ∧
      (IndexedBelow scope library source base (v.itemCount + v.wideCount) ↔ v.wideCount = 0) := by
  have hitems := indexedBelow_itemCount hbase hv
  refine ⟨?_, hitems, ?_⟩
  · rw [eval_member hbase, Value.member?_length hv]
  · constructor
    · intro h
      have hcount := h.unique hitems
      omega
    · intro hwide
      rw [hwide]
      exact hitems

/-- Three characters of four units. -/
theorem indexedBelow_length_iff_wide :
    let scope := Scope.ofRoot (.string "a😀b".toList)
    (member (binding .data) "length").eval scope .standard [] = .ok (some (.ofNat 4)) ∧
      IndexedBelow scope .standard [] (binding .data) 3 ∧
      ¬IndexedBelow scope .standard [] (binding .data) 4 := by
  intro scope
  obtain ⟨hlength, hitems, hiff⟩ :=
    @indexedBelow_length_iff scope .standard [] (binding .data) (.string "a😀b".toList) rfl
      (.inr ⟨_, rfl⟩)
  exact ⟨hlength, hitems, fun h => absurd (hiff.mp h) (by decide)⟩

/-- One character of two units: there is no item at position 1, which is below the length. -/
theorem index_undefined_below_length :
    let scope := Scope.ofRoot (.string "😀".toList)
    (Formula.ofSource "data.length").eval scope .standard = .ok (some (.ofNat 2)) ∧
      (Formula.ofSource "data[1]").eval scope .standard = .ok none ∧
      (Formula.ofSource "!data[1]").eval scope .standard = .ok (some (.bool true)) := by
  intro scope
  exact ⟨rfl, rfl, rfl⟩

end Expr

end HtmlTemplate
