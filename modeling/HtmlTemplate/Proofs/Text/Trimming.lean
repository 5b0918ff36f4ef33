import HtmlTemplate.Text.Blank

/-!
Blanks at the ends of a text, and the run of characters with which a text starts.
-/

namespace HtmlTemplate.Text

variable {gap t : Text}

/-- The characters of ASCII that are printed are not blank. -/
theorem not_isBlank_of_bounds {c : Char} (hlow : 0x21 ≤ c.toNat) (hhigh : c.toNat ≤ 0x7E) :
    isBlank c = false := by
  simp only [isBlank, inRanges, blankRanges, List.any_cons, List.any_nil, Bool.or_false,
    Bool.or_eq_false_iff, Bool.and_eq_false_iff, decide_eq_false_iff_not]
  omega

theorem toNat_of_isAlphanum {c : Char} (h : c.isAlphanum = true) :
    48 ≤ c.toNat ∧ c.toNat ≤ 122 := by
  have hcases : (c.isUpper || c.isLower || c.isDigit) = true := h
  rw [Bool.or_eq_true, Bool.or_eq_true] at hcases
  have hbounds : 48 ≤ c.val ∧ c.val ≤ 122 := by
    rcases hcases with (hupper | hlower) | hdigit
    · obtain ⟨hlow, hhigh⟩ : 65 ≤ c.val ∧ c.val ≤ 90 := of_decide_eq_true hupper
      exact ⟨UInt32.le_trans (by decide) hlow, UInt32.le_trans hhigh (by decide)⟩
    · obtain ⟨hlow, hhigh⟩ := Bool.and_eq_true_iff.mp hlower
      exact ⟨UInt32.le_trans (by decide) (of_decide_eq_true hlow), of_decide_eq_true hhigh⟩
    · obtain ⟨hlow, hhigh⟩ := Bool.and_eq_true_iff.mp hdigit
      exact ⟨of_decide_eq_true hlow, UInt32.le_trans (of_decide_eq_true hhigh) (by decide)⟩
  exact ⟨UInt32.le_iff_toNat_le.mp hbounds.1, UInt32.le_iff_toNat_le.mp hbounds.2⟩

theorem not_isBlank_of_isAlphanum {c : Char} (h : c.isAlphanum = true) : isBlank c = false := by
  obtain ⟨hlow, hhigh⟩ := toNat_of_isAlphanum h
  exact not_isBlank_of_bounds (by omega) (by omega)

/-- A run of characters ends where one comes that is none of them. -/
theorem takeWhile_append {p : Char → Bool} {rest : Text} (ht : t.all p = true)
    (hrest : ∀ c ∈ rest.head?, p c = false) :
    (t ++ rest).takeWhile p = t ∧ (t ++ rest).dropWhile p = rest := by
  have htake : rest.takeWhile p = [] ∧ rest.dropWhile p = rest := by
    cases rest with
    | nil => exact ⟨rfl, rfl⟩
    | cons c cs => simp [hrest c rfl]
  rw [List.all_eq_true] at ht
  rw [List.takeWhile_append_of_pos ht, List.dropWhile_append_of_pos ht, htake.1, htake.2,
    List.append_nil]
  exact ⟨rfl, rfl⟩

theorem head?_dropWhile_not {p : Char → Bool} {t : Text} :
    ∀ c ∈ (t.dropWhile p).head?, p c = false := by
  intro c hc
  have hnot := List.head?_dropWhile_not p t
  rw [Option.mem_def.mp hc] at hnot
  simpa using hnot

/-! ## Blanks at the start -/

theorem trimStart_cons {c : Char} (h : isBlank c = false) (cs : Text) :
    trimStart (c :: cs) = c :: cs := by
  simp [trimStart, h]

theorem trimStart_append_of_blank (h : ∀ c ∈ gap, isBlank c = true) (t : Text) :
    trimStart (gap ++ t) = trimStart t :=
  List.dropWhile_append_of_pos h

theorem trimStart_of_blank (h : ∀ c ∈ gap, isBlank c = true) : trimStart gap = [] := by
  rw [← List.append_nil gap, trimStart_append_of_blank h]
  rfl

/-! ## Blanks at the end -/

theorem trimEnd_of_blank (h : ∀ c ∈ gap, isBlank c = true) : trimEnd gap = [] := by
  rw [trimEnd, List.reverse_eq_nil_iff]
  exact trimStart_of_blank fun c hc => h c (List.mem_reverse.mp hc)

/-- What comes before a character that is no blank is not trimmed. -/
theorem trimEnd_append_cons {c : Char} (h : isBlank c = false) (s t : Text) :
    trimEnd (s ++ c :: t) = s ++ c :: trimEnd t := by
  have hstop (u : Text) : (c :: u).dropWhile isBlank = c :: u := trimStart_cons h u
  rw [trimEnd, trimEnd, List.reverse_append, List.reverse_cons, List.append_assoc,
    List.dropWhile_append]
  split
  · next hempty =>
    rw [List.isEmpty_iff.mp hempty]
    simp [hstop]
  · simp

theorem trimEnd_of_forall (h : ∀ c ∈ t, isBlank c = false) : trimEnd t = t := by
  induction t with
  | nil => rfl
  | cons c t ih =>
    obtain ⟨hc, ht⟩ := List.forall_mem_cons.mp h
    have htrim := trimEnd_append_cons hc [] t
    rwa [ih ht] at htrim

theorem trim_of_forall (h : ∀ c ∈ t, isBlank c = false) : trim t = t := by
  cases t with
  | nil => rfl
  | cons c t => rw [trim, trimStart_cons (h c List.mem_cons_self), trimEnd_of_forall h]

end HtmlTemplate.Text
