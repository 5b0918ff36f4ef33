import HtmlTemplate.Proofs.Library.Sorting
import HtmlTemplate.Proofs.Text.Units

/-!
Sorting by text. Sorting is stable: items that tie keep their order (`filter_sortBy`). Different
texts do not tie in the order of UTF-16 units, so only one list has the items in the order of their
texts and those with one text as they stood (`IsStableSort.unique`). The filter gives that list or
its reverse, and sorting once more changes nothing.
-/

namespace HtmlTemplate

namespace Filters

variable {α β : Type} {order : α → α → Ordering} {less : α → α → Bool} {p : α → Bool}

/-! ## Stability -/

/-- Among items that tie, an item is put last. The sorted items stand last first. -/
theorem filter_insertLast {x : α} (hties : ∀ y, p x → p y → less x y = false) (sorted : List α) :
    (insertLast less x sorted).filter p = (x :: sorted).filter p := by
  induction sorted with
  | nil => rfl
  | cons y ys ih =>
    rw [insertLast]
    split
    · next hless =>
      have hnot : ¬(p x ∧ p y) := by
        rintro ⟨hx, hy⟩
        rw [hties y hx hy] at hless
        cases hless
      rw [List.filter_cons, ih]
      by_cases hx : p x
      · have hy : ¬p y := fun hy => hnot ⟨hx, hy⟩
        simp [hx, hy]
      · simp [hx, List.filter_cons]
    · rfl

theorem filter_foldl_insertLast (hties : ∀ x y, p x → p y → less x y = false)
    (items sorted : List α) :
    (items.foldl (fun sorted x => insertLast less x sorted) sorted).filter p =
      (items.reverse ++ sorted).filter p := by
  induction items generalizing sorted with
  | nil => rfl
  | cons x xs ih =>
    rw [List.foldl_cons, ih, List.filter_append, filter_insertLast (hties x), ← List.filter_append,
      List.reverse_cons, List.append_assoc, List.singleton_append]

/-- Items of which none is less than another keep their order. -/
theorem filter_sortBy (hties : ∀ x y, p x → p y → order x y ≠ .lt) (items : List α) :
    (sortBy order items).filter p = items.filter p := by
  have hless (x y : α) (hx : p x) (hy : p y) : (order x y == .lt) = false :=
    beq_eq_false_iff_ne.mpr (hties x y hx hy)
  rw [sortBy, List.filter_reverse, filter_foldl_insertLast hless, List.append_nil,
    List.filter_reverse, List.reverse_reverse]

/-! ## The order of texts -/

/-- The items in the order of their texts, those with one text in their old order. -/
structure IsStableSort (text : α → Text) (items sorted : List α) : Prop where
  perm : sorted.Perm items
  ascends : Ascends (fun x y => Text.compareUnits (text x) (text y)) sorted
  stable : ∀ t, sorted.filter (text · = t) = items.filter (text · = t)

variable {text : α → Text} {items sorted : List α}

theorem isPreorderOn_compareUnits (texts : List Text) : IsPreorderOn Text.compareUnits texts where
  swap _ _ _ _ := Std.OrientedOrd.eq_swap
  trans _ _ _ _ _ _ := Value.compare_ne_gt_trans

theorem isStableSort_sortOn (text : α → Text) (items : List α) :
    IsStableSort text items (sortOn text Text.compareUnits items) where
  perm := sortOn_perm text Text.compareUnits items
  ascends := ascends_sortOn (IsPreorderOn.map_iff.mp (isPreorderOn_compareUnits _))
  stable t := by
    rw [sortOn_eq_sortBy]
    refine filter_sortBy (fun x y hx hy => ?_) items
    rw [of_decide_eq_true hx, of_decide_eq_true hy, Text.compareUnits_eq_iff.mpr rfl]
    exact nofun

/-- A list in the order of its texts is told by the items of each text. -/
theorem Ascends.eq_of_filter_eq {xs ys : List α}
    (hxs : Ascends (fun x y => Text.compareUnits (text x) (text y)) xs)
    (hys : Ascends (fun x y => Text.compareUnits (text x) (text y)) ys)
    (h : ∀ t, xs.filter (text · = t) = ys.filter (text · = t)) : xs = ys := by
  induction xs generalizing ys with
  | nil =>
    cases ys with
    | nil => rfl
    | cons y ys => simpa using h (text y)
  | cons x xs ih =>
    cases ys with
    | nil => simpa using h (text x)
    | cons y ys =>
      have hmem (z : α) : z ∈ x :: xs ↔ z ∈ y :: ys := by
        have hz := congrArg (z ∈ ·) (h (text z))
        simpa using hz
      have hxy : text x = text y := by
        have hle {a b : α} {cs : List α}
            (hcs : Ascends (fun x y => Text.compareUnits (text x) (text y)) (a :: cs))
            (hb : b ∈ a :: cs) : Text.compareUnits (text a) (text b) ≠ .gt := by
          rcases List.mem_cons.mp hb with rfl | hb
          · rw [Text.compareUnits_eq_iff.mpr rfl]
            exact nofun
          · exact (List.pairwise_cons.mp hcs).1 b hb
        exact Text.eq_of_compareUnits_ne_gt (hle hxs ((hmem y).mpr List.mem_cons_self))
          (hle hys ((hmem x).mp List.mem_cons_self))
      obtain ⟨rfl, -⟩ : x = y ∧ _ := by simpa [hxy] using h (text x)
      have htail (t : Text) : xs.filter (text · = t) = ys.filter (text · = t) := by
        have ht := h t
        by_cases hx : text x = t
        · simpa [hx] using ht
        · simpa [hx] using ht
      rw [ih hxs.of_cons hys.of_cons htail]

namespace IsStableSort

theorem unique {others : List α} (h : IsStableSort text items sorted)
    (hothers : IsStableSort text items others) : sorted = others :=
  h.ascends.eq_of_filter_eq hothers.ascends fun t => (h.stable t).trans (hothers.stable t).symm

/-- Sorted items are sorted already. -/
theorem self (h : IsStableSort text items sorted) : IsStableSort text sorted sorted :=
  ⟨.refl sorted, h.ascends, fun _ => rfl⟩

end IsStableSort

/-! ## The filter -/

open Value

inductive SortsTo (reverse : Bool) : Value → Value → Prop
  | array {items sorted : List Value} (h : IsStableSort Value.text items sorted) :
      SortsTo reverse (.array items) (.array (if reverse then sorted.reverse else sorted))
  | object {fields sorted : List (Text × Value)} (h : IsStableSort Prod.fst fields sorted) :
      SortsTo reverse (.object fields) (.object (if reverse then sorted.reverse else sorted))
  | other {v : Value} (harray : ∀ items, v ≠ .array items)
      (hobject : ∀ fields, v ≠ .object fields) :
      SortsTo reverse v v

namespace SortsTo

variable {reverse : Bool} {v w : Value}

theorem unique {x : Value} (hw : SortsTo reverse v w) (hx : SortsTo reverse v x) : w = x := by
  cases hw with
  | array h =>
    cases hx with
    | array h' => rw [h.unique h']
    | other harray => exact absurd rfl (harray _)
  | object h =>
    cases hx with
    | object h' => rw [h.unique h']
    | other _ hobject => exact absurd rfl (hobject _)
  | other harray hobject =>
    cases hx with
    | array => exact absurd rfl (harray _)
    | object => exact absurd rfl (hobject _)
    | other => rfl

/-- A sorted value is sorted already. -/
theorem self (h : SortsTo false v w) : SortsTo false w w := by
  cases h with
  | array h => exact .array h.self
  | object h => exact .object h.self
  | other harray hobject => exact .other harray hobject

end SortsTo

variable {arguments : List Value}

theorem sortsTo_sort (h : holds (some (orderBy arguments)) = false) :
    SortsTo (reverses arguments) (argument arguments 0) (sort arguments) := by
  by_cases harray : ∃ items, argument arguments 0 = .array items
  · obtain ⟨items, hv⟩ := harray
    rw [sort_array hv, hv, sortItems, h]
    exact .array (isStableSort_sortOn Value.text items)
  · by_cases hobject : ∃ fields, argument arguments 0 = .object fields
    · obtain ⟨fields, hv⟩ := hobject
      rw [sort_object hv, hv]
      exact .object (isStableSort_sortOn Prod.fst fields)
    · rw [not_exists] at harray hobject
      rw [sort_other harray hobject]
      exact .other harray hobject

/-- Without a property to sort by, the filter puts items in the order of their texts and fields in
the order of their keys, or reverses that list, and leaves every other value as it is. A value that
it has sorted it leaves as it is, too. -/
theorem sort_by_text (h : holds (some (orderBy arguments)) = false) :
    (∀ v, sort arguments = v ↔ SortsTo (reverses arguments) (argument arguments 0) v) ∧
      (reverses arguments = false → ∀ again, argument again 0 = sort arguments →
        holds (some (orderBy again)) = false → reverses again = false →
          sort again = sort arguments) := by
  have hsort := sortsTo_sort h
  constructor
  · intro v
    constructor
    · rintro rfl
      exact hsort
    · exact hsort.unique
  · intro hforward again hagain hagainOrder hagainForward
    rw [hforward] at hsort
    have hsortAgain := sortsTo_sort hagainOrder
    rw [hagainForward, hagain] at hsortAgain
    exact hsortAgain.unique hsort.self

/-- A character outside of the basic plane stands before the last ones of that plane, and items
with one text stay as they stood. -/
theorem sort_by_text_surrogates :
    let items : List Value :=
      [.string "\uff5e", .string "😀", .string "1", .number (.int 1), .array [.number (.int 1)]]
    let sorted : List Value :=
      [.string "1", .number (.int 1), .array [.number (.int 1)], .string "😀", .string "\uff5e"]
    SortsTo false (.array items) (.array sorted) ∧ sort [.array sorted] = .array sorted := by
  intro items sorted
  have hsort : sort [.array items] = .array sorted := by rfl
  obtain ⟨hiff, hagain⟩ := @sort_by_text [.array items] rfl
  refine ⟨(hiff _).mp hsort, ?_⟩
  rw [hagain rfl [.array sorted] hsort.symm rfl rfl, hsort]

end Filters

end HtmlTemplate
