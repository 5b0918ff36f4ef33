import HtmlTemplate.Text.Units
import Mathlib.Order.Compare

/-!
The UTF-16 form of a text. It tells the text (`units_injective`), because no character is a
surrogate, so the order of units is a linear order of texts. It is longer than the text by one unit
for each character outside of the basic plane (`length_units`).
-/

namespace HtmlTemplate.Text

variable {s t : Text}

@[simp] theorem units_nil : units [] = [] := rfl

@[simp] theorem units_cons (c : Char) (cs : Text) : units (c :: cs) = charUnits c ++ units cs := rfl

theorem charUnits_of_lt {c : Char} (h : c.toNat < 0x10000) : charUnits c = [c.toNat] := if_pos h

theorem charUnits_of_le {c : Char} (h : 0x10000 ≤ c.toNat) :
    charUnits c = [0xD800 + (c.toNat - 0x10000) / 0x400, 0xDC00 + (c.toNat - 0x10000) % 0x400] :=
  if_neg (Nat.not_lt.mpr h)

/-! ## Length -/

/-- The number of characters outside of the basic plane. -/
def wideCount (t : Text) : Nat := t.countP fun c => decide (0x10000 ≤ c.toNat)

theorem wideCount_cons (c : Char) (cs : Text) :
    wideCount (c :: cs) = wideCount [c] + wideCount cs := by
  simp [wideCount, List.countP_cons, Nat.add_comm]

theorem length_charUnits (c : Char) : (charUnits c).length = 1 + wideCount [c] := by
  by_cases h : c.toNat < 0x10000
  · rw [charUnits_of_lt h]
    simp [wideCount, Nat.not_le.mpr h]
  · rw [charUnits_of_le (Nat.not_lt.mp h)]
    simp [wideCount, Nat.not_lt.mp h]

theorem length_units (t : Text) : (units t).length = t.length + wideCount t := by
  induction t with
  | nil => rfl
  | cons c cs ih =>
    rw [units_cons, List.length_append, length_charUnits, ih, wideCount_cons c cs, List.length_cons]
    omega

/-! ## Order -/

theorem toNat_bounds (c : Char) : c.toNat < 0xD800 ∨ 0xDFFF < c.toNat ∧ c.toNat < 0x110000 :=
  c.valid

/-- The first unit tells whether a character has a second one: no character is a surrogate. -/
theorem charUnits_append_inj {c d : Char} {us vs : List Nat}
    (h : charUnits c ++ us = charUnits d ++ vs) : c = d ∧ us = vs := by
  have hc := toNat_bounds c
  have hd := toNat_bounds d
  rw [← Char.toNat_inj]
  by_cases hcwide : c.toNat < 0x10000
  · rw [charUnits_of_lt hcwide] at h
    by_cases hdwide : d.toNat < 0x10000
    · rw [charUnits_of_lt hdwide] at h
      exact List.cons.inj h
    · rw [charUnits_of_le (Nat.not_lt.mp hdwide)] at h
      have hfirst := (List.cons.inj h).1
      omega
  · rw [charUnits_of_le (Nat.not_lt.mp hcwide)] at h
    by_cases hdwide : d.toNat < 0x10000
    · rw [charUnits_of_lt hdwide] at h
      have hfirst := (List.cons.inj h).1
      omega
    · rw [charUnits_of_le (Nat.not_lt.mp hdwide)] at h
      obtain ⟨hfirst, htail⟩ := List.cons.inj h
      obtain ⟨hsecond, hrest⟩ := List.cons.inj htail
      exact ⟨by omega, hrest⟩

theorem charUnits_ne_nil (c : Char) : charUnits c ≠ [] := by
  unfold charUnits
  split <;> exact List.cons_ne_nil _ _

theorem units_injective (h : units s = units t) : s = t := by
  induction s generalizing t with
  | nil =>
    cases t with
    | nil => rfl
    | cons d ds => exact absurd (List.append_eq_nil_iff.mp h.symm).1 (charUnits_ne_nil d)
  | cons c cs ih =>
    cases t with
    | nil => exact absurd (List.append_eq_nil_iff.mp h).1 (charUnits_ne_nil c)
    | cons d ds =>
      obtain ⟨rfl, hrest⟩ := charUnits_append_inj h
      rw [ih hrest]

theorem compareUnits_eq_iff : compareUnits s t = .eq ↔ s = t := by
  constructor
  · intro h
    exact units_injective (Std.LawfulEqOrd.eq_of_compare h)
  · rintro rfl
    exact Std.ReflOrd.compare_self

/-- The order of units is antisymmetric. -/
theorem eq_of_compareUnits_ne_gt (hst : compareUnits s t ≠ .gt) (hts : compareUnits t s ≠ .gt) :
    s = t := by
  have hswap : compareUnits t s = (compareUnits s t).swap := Std.OrientedOrd.eq_swap
  rw [hswap] at hts
  apply compareUnits_eq_iff.mp
  cases h : compareUnits s t with
  | lt => exact absurd (congrArg Ordering.swap h) hts
  | eq => rfl
  | gt => exact absurd h hst

end HtmlTemplate.Text
