import HtmlTemplate.Library.Filters
import Mathlib.Order.Compare

/-!
Sorting by a property. A method of sorting puts items in order if the comparison is a total preorder
on them, and may do anything otherwise (`Sorter.Sorts`). The comparison of values is one on keys of
one kind and on keys of which no two differ, and on no others (`isPreorderOn_compareValues_iff`):
keys of different kinds tie, so they can stand between two that are out of order. On keys that can
be ordered the filter orders the items by any method (`sort_by_property`).
-/

namespace HtmlTemplate

namespace Filters

variable {α β : Type}

/-- The comparison is a total preorder on the items of a list. -/
structure IsPreorderOn (order : α → α → Ordering) (items : List α) : Prop where
  swap : ∀ a ∈ items, ∀ b ∈ items, order a b = (order b a).swap
  trans : ∀ a ∈ items, ∀ b ∈ items, ∀ c ∈ items,
    order a b ≠ .gt → order b c ≠ .gt → order a c ≠ .gt

/-- No item is greater than a later one. -/
def Ascends (order : α → α → Ordering) (items : List α) : Prop :=
  items.Pairwise fun a b => order a b ≠ .gt

/-- No item is less than a later one. -/
def Descends (order : α → α → Ordering) (items : List α) : Prop :=
  items.Pairwise fun a b => order a b ≠ .lt

variable {order : α → α → Ordering} {items sorted : List α}

namespace IsPreorderOn

theorem subset {others : List α} (h : IsPreorderOn order items) (hsubset : others ⊆ items) :
    IsPreorderOn order others where
  swap a ha b hb := h.swap a (hsubset ha) b (hsubset hb)
  trans a ha b hb c hc := h.trans a (hsubset ha) b (hsubset hb) c (hsubset hc)

/-- Comparing items is comparing their keys. -/
theorem map_iff {key : β → α} {xs : List β} :
    IsPreorderOn order (xs.map key) ↔ IsPreorderOn (fun x y => order (key x) (key y)) xs := by
  constructor
  · rintro ⟨hswap, htrans⟩
    simp only [List.forall_mem_map] at hswap htrans
    exact ⟨hswap, htrans⟩
  · rintro ⟨hswap, htrans⟩
    refine ⟨?_, ?_⟩
    · simpa only [List.forall_mem_map] using hswap
    · simpa only [List.forall_mem_map] using htrans

theorem ne_gt_of_ne_lt (h : IsPreorderOn order items) {a b : α} (ha : a ∈ items) (hb : b ∈ items)
    (hab : order a b ≠ .lt) : order b a ≠ .gt := by
  rw [h.swap b hb a ha]
  exact fun hgt => hab (Ordering.swap_eq_gt.mp hgt)

end IsPreorderOn

theorem Ascends.reverse (h : IsPreorderOn order items) (hitems : Ascends order items) :
    Descends order items.reverse := by
  refine List.pairwise_reverse.mpr (List.Pairwise.imp_of_mem ?_ hitems)
  intro a b ha hb hab
  rw [h.swap b hb a ha]
  exact fun hlt => hab (Ordering.swap_eq_lt.mp hlt)

/-! ## Sorting -/

theorem insertLast_perm (less : α → α → Bool) (x : α) (sorted : List α) :
    (insertLast less x sorted).Perm (x :: sorted) := by
  induction sorted with
  | nil => exact .refl _
  | cons y ys ih =>
    rw [insertLast]
    split
    · exact (ih.cons y).trans (.swap x y ys)
    · exact .refl _

/-- An item is put in its place. The sorted items stand last first. -/
theorem pairwise_insertLast {x : α} (h : IsPreorderOn order (x :: sorted))
    (hsorted : sorted.Pairwise fun a b => order b a ≠ .gt) :
    (insertLast (fun a b => order a b == .lt) x sorted).Pairwise fun a b => order b a ≠ .gt := by
  induction sorted with
  | nil => exact List.pairwise_singleton _ _
  | cons y ys ih =>
    obtain ⟨hy, hys⟩ := List.pairwise_cons.mp hsorted
    rw [insertLast]
    split
    · next hless =>
      have hxy : order x y ≠ .gt := by
        rw [beq_iff_eq.mp hless]
        exact nofun
      have htail : x :: ys ⊆ x :: y :: ys := List.cons_subset_cons x (List.subset_cons_self y ys)
      refine List.pairwise_cons.mpr ⟨?_, ih (h.subset htail) hys⟩
      intro z hz
      rcases List.mem_cons.mp ((insertLast_perm _ x ys).subset hz) with rfl | hz
      · exact hxy
      · exact hy z hz
    · next hless =>
      have hymem : y ∈ x :: y :: ys := List.mem_cons_of_mem x List.mem_cons_self
      have hyx : order y x ≠ .gt :=
        h.ne_gt_of_ne_lt List.mem_cons_self hymem (by simpa using hless)
      refine List.pairwise_cons.mpr ⟨?_, hsorted⟩
      intro z hz
      have hzmem : z ∈ x :: y :: ys := List.mem_cons_of_mem x hz
      rcases List.mem_cons.mp hz with rfl | hz
      · exact hyx
      · exact h.trans z hzmem y hymem x List.mem_cons_self (hy z hz) hyx

theorem foldl_insertLast_perm (less : α → α → Bool) (items sorted : List α) :
    (items.foldl (fun sorted x => insertLast less x sorted) sorted).Perm (items ++ sorted) := by
  induction items generalizing sorted with
  | nil => exact .refl _
  | cons x xs ih =>
    have hinsert := (insertLast_perm less x sorted).append_left xs
    exact (ih _).trans (hinsert.trans List.perm_middle)

theorem pairwise_foldl_insertLast (h : IsPreorderOn order (items ++ sorted))
    (hsorted : sorted.Pairwise fun a b => order b a ≠ .gt) :
    (items.foldl (fun sorted x => insertLast (fun a b => order a b == .lt) x sorted)
      sorted).Pairwise fun a b => order b a ≠ .gt := by
  induction items generalizing sorted with
  | nil => exact hsorted
  | cons x xs ih =>
    have hinsert := insertLast_perm (fun a b => order a b == .lt) x sorted
    have hall := (hinsert.append_left xs).trans List.perm_middle
    have hmine : x :: sorted ⊆ x :: xs ++ sorted :=
      List.cons_subset_cons x (List.subset_append_right xs sorted)
    exact ih (h.subset hall.subset) (pairwise_insertLast (h.subset hmine) hsorted)

theorem sortBy_perm (order : α → α → Ordering) (items : List α) :
    (sortBy order items).Perm items := by
  have hfold := foldl_insertLast_perm (fun a b => order a b == .lt) items []
  rw [List.append_nil] at hfold
  exact (List.reverse_perm _).trans hfold

theorem ascends_sortBy (h : IsPreorderOn order items) : Ascends order (sortBy order items) := by
  rw [← List.append_nil items] at h
  exact List.pairwise_reverse.mpr (pairwise_foldl_insertLast h .nil)

theorem map_insertLast (f : β → α) (less : α → α → Bool) (x : β) (sorted : List β) :
    (insertLast (fun a b => less (f a) (f b)) x sorted).map f =
      insertLast less (f x) (sorted.map f) := by
  induction sorted with
  | nil => rfl
  | cons y ys ih =>
    rw [insertLast, List.map_cons, insertLast, ← ih]
    split <;> rfl

theorem map_sortBy (f : β → α) (order : α → α → Ordering) (items : List β) :
    (sortBy (fun a b => order (f a) (f b)) items).map f = sortBy order (items.map f) := by
  have hfold : items.foldl (fun sorted x => insertLast (fun a b => order a b == .lt) (f x) sorted)
        (List.map f []) =
      (items.foldl (fun sorted x => insertLast (fun a b => order (f a) (f b) == .lt) x sorted)
        []).map f :=
    List.foldl_hom (List.map f) fun sorted x =>
      (map_insertLast f (fun a b => order a b == .lt) x sorted).symm
  rw [sortBy, sortBy, List.map_reverse, List.foldl_map]
  exact congrArg List.reverse hfold.symm

variable {key : β → α} {xs : List β}

/-- Sorting by a key is sorting by the order of the keys. -/
theorem sortOn_eq_sortBy (key : β → α) (order : α → α → Ordering) (xs : List β) :
    sortOn key order xs = sortBy (fun x y => order (key x) (key y)) xs := by
  have hpairs := map_sortBy (fun x => (key x, x)) (fun a b => order a.1 b.1) xs
  rw [sortOn, ← hpairs, List.map_map, List.map_id'']
  exact fun _ => rfl

theorem sortOn_perm (key : β → α) (order : α → α → Ordering) (xs : List β) :
    (sortOn key order xs).Perm xs := by
  rw [sortOn_eq_sortBy]
  exact sortBy_perm _ xs

theorem ascends_sortOn (h : IsPreorderOn (fun x y => order (key x) (key y)) xs) :
    Ascends (fun x y => order (key x) (key y)) (sortOn key order xs) := by
  rw [sortOn_eq_sortBy]
  exact ascends_sortBy h

end Filters

namespace Value

/-! ## Keys -/

/-- The kinds of values of which one can be less than another. -/
inductive KeyKind
  | number
  | string
  | bool
deriving DecidableEq

def keyKind? : Option Value → Option KeyKind
  | some (number _) => some .number
  | some (string _) => some .string
  | some (bool _) => some .bool
  | _ => none

variable {a b c : Option Value} {kind : KeyKind}

theorem eq_of_keyKind? (h : keyKind? a = some kind) :
    match kind with
    | .number => ∃ n, a = some (number n)
    | .string => ∃ t, a = some (string t)
    | .bool => ∃ b, a = some (bool b) := by
  unfold keyKind? at h
  split at h
  · cases h
    exact ⟨_, rfl⟩
  · cases h
    exact ⟨_, rfl⟩
  · cases h
    exact ⟨_, rfl⟩
  · cases h

/-- Keys tie if they are not of one kind. -/
theorem compareValues_of_keyKind?_ne
    (h : ∀ kind, keyKind? a = some kind → keyKind? b ≠ some kind) : compareValues a b = .eq := by
  unfold compareValues
  split
  · exact absurd rfl (h .number rfl)
  · exact absurd rfl (h .string rfl)
  · exact absurd rfl (h .bool rfl)
  · rfl

theorem compareValues_swap (a b : Option Value) :
    compareValues a b = (compareValues b a).swap := by
  by_cases hkind : ∃ kind, keyKind? a = some kind ∧ keyKind? b = some kind
  · obtain ⟨kind, ha, hb⟩ := hkind
    have ha := eq_of_keyKind? ha
    have hb := eq_of_keyKind? hb
    cases kind with
    | number | string | bool =>
      obtain ⟨x, rfl⟩ := ha
      obtain ⟨y, rfl⟩ := hb
      exact Std.OrientedOrd.eq_swap
  · have hne (kind : KeyKind) (ha : keyKind? a = some kind) : keyKind? b ≠ some kind :=
      fun hb => hkind ⟨kind, ha, hb⟩
    rw [compareValues_of_keyKind?_ne hne,
      compareValues_of_keyKind?_ne fun kind hb ha => hne kind ha hb]
    rfl

theorem compare_ne_gt_trans {γ : Type} [Ord γ] [Std.TransOrd γ] {x y z : γ}
    (hxy : compare x y ≠ .gt) (hyz : compare y z ≠ .gt) : compare x z ≠ .gt :=
  Ordering.isLE_iff_ne_gt.mp (Std.TransCmp.isLE_trans (Ordering.isLE_iff_ne_gt.mpr hxy)
    (Ordering.isLE_iff_ne_gt.mpr hyz))

/-- Among keys of one kind the order is transitive. -/
theorem compareValues_trans (ha : keyKind? a = some kind) (hb : keyKind? b = some kind)
    (hc : keyKind? c = some kind) (hab : compareValues a b ≠ .gt) (hbc : compareValues b c ≠ .gt) :
    compareValues a c ≠ .gt := by
  have ha := eq_of_keyKind? ha
  have hb := eq_of_keyKind? hb
  have hc := eq_of_keyKind? hc
  cases kind with
  | number | string | bool =>
    obtain ⟨x, rfl⟩ := ha
    obtain ⟨y, rfl⟩ := hb
    obtain ⟨z, rfl⟩ := hc
    exact compare_ne_gt_trans hab hbc

/-- Two keys that differ are of one kind. -/
theorem exists_keyKind?_of_lt (h : compareValues a b = .lt) :
    ∃ kind, keyKind? a = some kind ∧ keyKind? b = some kind := by
  by_contra hkind
  rw [compareValues_of_keyKind?_ne fun kind ha hb => hkind ⟨kind, ha, hb⟩] at h
  cases h

end Value

namespace Filters

open Value

/-- Keys are ordered by their values if and only if none of them differ or all are of one kind. -/
theorem isPreorderOn_compareValues_iff {keys : List (Option Value)} :
    IsPreorderOn compareValues keys ↔
      (∀ a ∈ keys, ∀ b ∈ keys, compareValues a b = .eq) ∨
        ∃ kind, ∀ a ∈ keys, keyKind? a = some kind := by
  constructor
  · intro h
    by_cases hless : ∃ a ∈ keys, ∃ b ∈ keys, compareValues a b = .lt
    · obtain ⟨a, ha, b, hb, hab⟩ := hless
      obtain ⟨kind, hakind, hbkind⟩ := exists_keyKind?_of_lt hab
      refine .inr ⟨kind, fun c hc => ?_⟩
      -- A key of another kind would stand between the greater and the less.
      by_contra hckind
      have hbc : compareValues b c = .eq :=
        compareValues_of_keyKind?_ne fun _ hb hc => hckind (hc.trans (hb.symm.trans hbkind))
      have hca : compareValues c a = .eq :=
        compareValues_of_keyKind?_ne fun _ hc ha => hckind (hc.trans (ha.symm.trans hakind))
      have hba := h.trans b hb c hc a ha (by rw [hbc]; exact nofun) (by rw [hca]; exact nofun)
      rw [compareValues_swap, hab] at hba
      exact hba rfl
    · refine .inl fun a ha b hb => ?_
      cases hab : compareValues a b with
      | lt => exact absurd ⟨a, ha, b, hb, hab⟩ hless
      | eq => rfl
      | gt =>
        rw [compareValues_swap] at hab
        exact absurd ⟨b, hb, a, ha, Ordering.swap_eq_gt.mp hab⟩ hless
  · rintro (hties | ⟨kind, hkind⟩)
    · refine ⟨fun a _ b _ => compareValues_swap a b, fun a ha b hb c hc _ _ => ?_⟩
      rw [hties a ha c hc]
      exact nofun
    · refine ⟨fun a _ b _ => compareValues_swap a b, fun a ha b hb c hc => ?_⟩
      exact compareValues_trans (hkind a ha) (hkind b hb) (hkind c hc)

/-! ## The filter -/

def reverses (arguments : List Value) : Bool :=
  match argument arguments 1 with
  | .bool b => b
  | _ => false

def orderBy (arguments : List Value) : Value :=
  match argument arguments 1 with
  | .bool _ => argument arguments 2
  | other => other

theorem sort_array {arguments items : List Value} (h : argument arguments 0 = .array items) :
    let sorted := sortItems (orderBy arguments) items
    sort arguments = .array (if reverses arguments then sorted.reverse else sorted) := by
  unfold sort reverses orderBy
  rw [h]
  cases argument arguments 1 <;> rfl

/-- A method of sorting by a comparison. It may fail. -/
def Sorter : Type 1 := ∀ {α : Type}, (α → α → Ordering) → List α → Option (List α)

/-- The items by a comparison, from the least on or, in reverse, from the greatest on. -/
structure IsSorted (order : α → α → Ordering) (reverse : Bool) (items sorted : List α) : Prop where
  perm : sorted.Perm items
  ordered : if reverse then Descends order sorted else Ascends order sorted

/-- The method sorts items on which the comparison is a total preorder. -/
def Sorter.Sorts (sorter : Sorter) : Prop :=
  ∀ {α : Type} {order : α → α → Ordering} {items : List α}, IsPreorderOn order items →
    ∃ sorted, sorter order items = some sorted ∧ IsSorted order false items sorted

def insertion : Sorter := fun order items => some (sortBy order items)

theorem sorts_insertion : Sorter.Sorts insertion :=
  fun h => ⟨_, rfl, sortBy_perm _ _, ascends_sortBy h⟩

/-- The order in which the filter puts array items. -/
def itemOrder (orderBy : Value) (a b : Value) : Ordering :=
  if holds (some orderBy) then compareValues (a.field? orderBy.text) (b.field? orderBy.text)
  else Text.compareUnits a.text b.text

/-- The filter with the method of sorting as a parameter. One item or field needs no sorting. -/
def sortWith (sorter : Sorter) (arguments : List Value) : Option Value :=
  let turned {α : Type} (sorted : List α) := if reverses arguments then sorted.reverse else sorted
  match argument arguments 0 with
  | .array items =>
    if items.length ≤ 1 then some (.array items)
    else (sorter (itemOrder (orderBy arguments)) items).map fun sorted => .array (turned sorted)
  | .object fields =>
    if fields.length ≤ 1 then some (.object fields)
    else (sorter (fun a b => Text.compareUnits a.1 b.1) fields).map fun sorted =>
      .object (turned sorted)
  | value => some value

theorem sortItems_eq_sortBy (orderBy : Value) (items : List Value) :
    sortItems orderBy items = sortBy (itemOrder orderBy) items := by
  unfold sortItems itemOrder
  split
  · exact sortOn_eq_sortBy _ _ items
  · exact sortOn_eq_sortBy _ _ items

theorem reverse_of_length_le_one {xs : List α} (h : xs.length ≤ 1) : xs.reverse = xs := by
  match xs, h with
  | [], _ | [_], _ => rfl

theorem sortBy_of_length_le_one {xs : List α} (h : xs.length ≤ 1) : sortBy order xs = xs := by
  match xs, h with
  | [], _ | [_], _ => rfl

theorem sort_object {arguments : List Value} {fields : List (Text × Value)}
    (h : argument arguments 0 = .object fields) :
    let sorted := sortFields fields
    sort arguments = .object (if reverses arguments then sorted.reverse else sorted) := by
  unfold sort reverses
  rw [h]
  cases argument arguments 1 <;> rfl

theorem sort_other {arguments : List Value} (harray : ∀ items, argument arguments 0 ≠ .array items)
    (hobject : ∀ fields, argument arguments 0 ≠ .object fields) :
    sort arguments = argument arguments 0 := by
  unfold sort
  cases hv : argument arguments 0 with
  | array items => exact absurd hv (harray items)
  | object fields => exact absurd hv (hobject fields)
  | null | bool | number | string => rfl

/-- The filter sorts by insertion. -/
theorem sortWith_insertion (arguments : List Value) :
    sortWith insertion arguments = some (sort arguments) := by
  unfold sortWith
  cases hv : argument arguments 0 with
  | array items =>
    simp only [sort_array hv, sortItems_eq_sortBy, insertion, Option.map_some]
    split
    · next hlength => simp [sortBy_of_length_le_one hlength, reverse_of_length_le_one hlength]
    · rfl
  | object fields =>
    simp only [sort_object hv, sortFields, sortOn_eq_sortBy, insertion, Option.map_some]
    split
    · next hlength => simp [sortBy_of_length_le_one hlength, reverse_of_length_le_one hlength]
    · rfl
  | null | bool | number | string =>
    rw [sort_other (by simp [hv]) (by simp [hv]), hv]

/-- What sorts puts the items of an array in their order. -/
theorem Sorter.Sorts.sortWith {sorter : Sorter} (h : sorter.Sorts) {arguments items : List Value}
    (harray : argument arguments 0 = .array items)
    (horder : IsPreorderOn (itemOrder (orderBy arguments)) items) :
    ∃ sorted, Filters.sortWith sorter arguments = some (.array sorted) ∧
      IsSorted (itemOrder (orderBy arguments)) (reverses arguments) items sorted := by
  simp only [Filters.sortWith, harray]
  split
  · next hlength =>
    refine ⟨items, rfl, .refl items, ?_⟩
    match items, hlength with
    | [], _ => split <;> exact .nil
    | [_], _ => split <;> exact List.pairwise_singleton _ _
  · obtain ⟨sorted, hsorted, hperm, hascends⟩ := h horder
    rw [hsorted, Option.map_some]
    refine ⟨_, rfl, ?_, ?_⟩
    · split
      · exact (List.reverse_perm sorted).trans hperm
      · exact hperm
    · split
      · exact Ascends.reverse (horder.subset hperm.subset) hascends
      · exact hascends

/-- Where the order of the properties is a total preorder, the filter sorts by them, and so it does
by any method that sorts. This order is one if none of them differ or all are of one kind. -/
theorem sort_by_property {arguments items : List Value}
    (harray : argument arguments 0 = .array items) (horderBy : holds (some (orderBy arguments))) :
    let order (a b : Value) : Ordering := compareValues (a.field? (orderBy arguments).text)
      (b.field? (orderBy arguments).text)
    (IsPreorderOn order items →
      (∃ sorted, sort arguments = .array sorted ∧
        IsSorted order (reverses arguments) items sorted) ∧
      ∀ sorter : Sorter, sorter.Sorts → ∃ sorted, sortWith sorter arguments = some (.array sorted) ∧
        IsSorted order (reverses arguments) items sorted) ∧
      (IsPreorderOn order items ↔
        (∀ a ∈ items, ∀ b ∈ items, order a b = .eq) ∨
          ∃ kind, ∀ a ∈ items, keyKind? (a.field? (orderBy arguments).text) = some kind) := by
  intro order
  let property (a : Value) : Option Value := a.field? (orderBy arguments).text
  have horder : itemOrder (orderBy arguments) = order :=
    funext fun a => funext fun b => if_pos horderBy
  have hpreorder : IsPreorderOn order items ↔ IsPreorderOn compareValues (items.map property) :=
    IsPreorderOn.map_iff.symm
  refine ⟨fun h => ⟨?_, fun sorter hsorter => ?_⟩, ?_⟩
  · obtain ⟨sorted, hsort, hsorted⟩ := sorts_insertion.sortWith harray (horder ▸ h)
    rw [sortWith_insertion] at hsort
    exact ⟨sorted, Option.some.inj hsort, horder ▸ hsorted⟩
  · have hsort := hsorter.sortWith harray (horder ▸ h)
    rwa [horder] at hsort
  · rw [hpreorder, isPreorderOn_compareValues_iff]
    simp only [List.forall_mem_map]
    exact Iff.rfl

/-- Numbers in reverse order. -/
theorem sort_by_property_numbers :
    let item (n : Number) : Value := .object [("k".toList, .number n)]
    let items : List Value := [item (.int 2), item (.int 10), item (.int 1)]
    let order (a b : Value) : Ordering := compareValues (a.field? "k") (b.field? "k")
    Sorter.Sorts insertion ∧ IsPreorderOn order items ∧
      ∃ sorted, sortWith insertion [.array items, .bool true, .string "k"] = some (.array sorted) ∧
        IsSorted order true items sorted := by
  intro item items order
  obtain ⟨hsort, hiff⟩ := @sort_by_property [.array items, .bool true, .string "k"] items rfl rfl
  have hkind : ∀ a ∈ items, keyKind? (a.field? "k") = some .number := by decide
  have hpreorder : IsPreorderOn order items := hiff.mpr (.inr ⟨.number, hkind⟩)
  exact ⟨sorts_insertion, hpreorder, (hsort hpreorder).2 insertion sorts_insertion⟩

/-- A text between two numbers ties with both, and they stay out of order. -/
theorem sort_mixed :
    let item (v : Value) : Value := .object [("k".toList, v)]
    let items : List Value :=
      [item (.number (.int 1)), item (.string "a"), item (.number (.int 0))]
    holds (some (.string "k")) ∧ sort [.array items, .string "k"] = .array items ∧
      ¬Ascends (fun a b : Value => compareValues (a.field? "k") (b.field? "k")) items := by
  intro item items
  have hgreater : compareValues ((item (.number (.int 1))).field? "k")
      ((item (.number (.int 0))).field? "k") = .gt := by decide +kernel
  refine ⟨rfl, rfl, fun h => ?_⟩
  have hlater : item (.number (.int 0)) ∈ [item (.string "a"), item (.number (.int 0))] :=
    List.mem_cons_of_mem _ List.mem_cons_self
  exact (List.pairwise_cons.mp h).1 _ hlater hgreater

end Filters

end HtmlTemplate
