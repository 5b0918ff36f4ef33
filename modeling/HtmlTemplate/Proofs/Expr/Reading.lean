import HtmlTemplate.Expr.Script
import HtmlTemplate.Proofs.Text.Trimming
import Mathlib.Data.List.Basic

/-!
Reading of what scripts are made of: symbols, identifiers, strings and integers, each in front of a
text that starts with a delimiter or is empty. Blanks are skipped before a symbol is looked for, so
the statements are about the text without the blanks at its start.
-/

namespace HtmlTemplate

namespace Expr

/-- The characters that may come after an identifier or a number in a script. -/
def delimiters : List Char := ['.', '[', ']', '(', ')', ',']

def Delimited (t : Text) : Prop := ∀ c ∈ t.head?, c ∈ delimiters

def isIdent : Text → Bool
  | [] => false
  | c :: cs => isIdentStart c && cs.all isIdentChar

/-! ## Symbols -/

theorem trimStart_of_delimited {t : Text} (h : Delimited t) : Text.trimStart t = t := by
  cases t with
  | nil => rfl
  | cons c cs =>
    have hblank : ∀ c ∈ delimiters, Text.isBlank c = false :=
      List.forall_iff_forall_mem.mp (by decide)
    exact Text.trimStart_cons (hblank c (h c rfl)) cs

theorem eat?_of_trimStart {c : Char} {cs rest : Text} (h : Text.trimStart cs = c :: rest) :
    eat? c cs = some rest := by
  simp [eat?, h]

theorem eat?_of_head?_ne {c : Char} {cs : Text} (h : (Text.trimStart cs).head? ≠ some c) :
    eat? c cs = none := by
  unfold eat?
  split
  · next hd =>
    rw [hd] at h
    exact if_neg fun heq => h (congrArg some heq)
  · rfl

theorem expect_of_trimStart {c : Char} {cs rest : Text} (h : Text.trimStart cs = c :: rest) :
    expect c cs = .ok rest := by
  rw [expect, eat?_of_trimStart h]

/-! ## Identifiers -/

/-- An identifier starts with a letter, an underscore or a dollar sign. -/
theorem toNat_of_isIdentStart {c : Char} (h : isIdentStart c = true) :
    c.toNat = 36 ∨ c.toNat = 95 ∨ (65 ≤ c.toNat ∧ c.toNat ≤ 90) ∨ 97 ≤ c.toNat ∧ c.toNat ≤ 122 := by
  rw [isIdentStart, Bool.or_eq_true, Bool.or_eq_true, beq_iff_eq, beq_iff_eq] at h
  rcases h with (halpha | rfl) | rfl
  · rcases (Bool.or_eq_true c.isUpper c.isLower).mp halpha with hupper | hlower
    · obtain ⟨hlo, hhi⟩ : 65 ≤ c.val ∧ c.val ≤ 90 := of_decide_eq_true hupper
      exact .inr (.inr (.inl ⟨UInt32.le_iff_toNat_le.mp hlo, UInt32.le_iff_toNat_le.mp hhi⟩))
    · obtain ⟨hlo, hhi⟩ := (Bool.and_eq_true (decide (97 ≤ c.val)) (decide (c.val ≤ 122))).mp hlower
      exact .inr (.inr (.inr ⟨UInt32.le_iff_toNat_le.mp (of_decide_eq_true hlo),
        UInt32.le_iff_toNat_le.mp (of_decide_eq_true hhi)⟩))
  · exact .inr (.inl rfl)
  · exact .inl rfl

theorem not_isBlank_of_isIdentStart {c : Char} (h : isIdentStart c = true) :
    Text.isBlank c = false := by
  have hrange := toNat_of_isIdentStart h
  exact Text.not_isBlank_of_bounds (by omega) (by omega)

theorem not_isIdentChar_of_mem {c : Char} (h : c ∈ delimiters) : isIdentChar c = false := by
  have hall : ∀ c ∈ delimiters, isIdentChar c = false :=
    List.forall_iff_forall_mem.mp (by decide)
  exact hall c h

theorem readIdent_append (wanted : Wanted) {ident rest : Text} (h : isIdent ident = true)
    (hrest : Delimited rest) : readIdent wanted (ident ++ rest) = .ok (ident, rest) := by
  cases ident with
  | nil => simp [isIdent] at h
  | cons c cs =>
    rw [isIdent, Bool.and_eq_true] at h
    have hstart := Text.trimStart_cons (not_isBlank_of_isIdentStart h.1) (cs ++ rest)
    obtain ⟨htake, hdrop⟩ :=
      Text.takeWhile_append h.2 fun c hc => not_isIdentChar_of_mem (hrest c hc)
    rw [readIdent, List.cons_append, hstart]
    simp only [h.1, if_true, htake, hdrop]

/-! ## Strings -/

/-- A character that is printed so that it can be read again. -/
def isPrintable (c : Char) : Bool := 0x20 ≤ c.toNat || c == '\n' || c == '\r' || c == '\t'

theorem readString_plain {quote c : Char} {cs s rest : Text} (hescape : c ≠ '\\')
    (hquote : c ≠ quote) (h : readString quote cs = .ok (s, rest)) :
    readString quote (c :: cs) = .ok (c :: s, rest) := by
  unfold readString
  rw [if_neg hescape, if_neg hquote, h]
  rfl

theorem readString_escaped {quote d : Char} {cs s rest : Text}
    (h : readString quote cs = .ok (s, rest)) :
    readString quote ('\\' :: d :: cs) = .ok (unescape d :: s, rest) := by
  unfold readString
  rw [if_pos rfl]
  simp only [h]
  rfl

/-- A printable character is printed as it is or as the escape that is read as it. -/
theorem escapeChar_of_isPrintable {c : Char} (h : isPrintable c = true) :
    (Json.escapeChar c = [c] ∧ c ≠ '\\' ∧ c ≠ '"') ∨
      ∃ d, Json.escapeChar c = ['\\', d] ∧ unescape d = c := by
  by_cases hescaped : c ∈ ['"', '\\', '\n', '\r', '\t']
  · simp only [List.mem_cons, List.not_mem_nil, or_false] at hescaped
    rcases hescaped with rfl | rfl | rfl | rfl | rfl
    all_goals exact .inr ⟨_, rfl, rfl⟩
  · simp only [List.mem_cons, List.not_mem_nil, or_false, not_or] at hescaped
    obtain ⟨hquote, hescape, hline, hreturn, htab⟩ := hescaped
    have hlarge : 0x20 ≤ c.toNat := by simpa [isPrintable, hline, hreturn, htab] using h
    have hbackspace : c ≠ '\x08' := by
      rintro rfl
      simp at hlarge
    have hfeed : c ≠ '\x0c' := by
      rintro rfl
      simp at hlarge
    refine .inl ⟨?_, hescape, hquote⟩
    rw [Json.escapeChar, if_neg hquote, if_neg hescape, if_neg hline, if_neg hreturn, if_neg htab,
      if_neg hbackspace, if_neg hfeed, if_neg (Nat.not_lt.mpr hlarge)]

theorem readString_quoted {s : Text} (h : s.all isPrintable = true) (rest : Text) :
    readString '"' (s.flatMap Json.escapeChar ++ '"' :: rest) = .ok (s, rest) := by
  induction s with
  | nil =>
    unfold readString
    rfl
  | cons c s ih =>
    rw [List.all_cons, Bool.and_eq_true] at h
    rw [List.flatMap_cons, List.append_assoc]
    rcases escapeChar_of_isPrintable h.1 with ⟨hc, hescape, hquote⟩ | ⟨d, hd, hdc⟩
    · rw [hc]
      exact readString_plain hescape hquote (ih h.2)
    · rw [hd, ← hdc]
      exact readString_escaped (ih h.2)

/-! ## Integers -/

/-- An integer of 64 bits, which is what an integer in an expression is read as. -/
def isInt64 (i : Int) : Bool := -(Nat.pow 2 63 : Int) ≤ i && i < (Nat.pow 2 63 : Int)

theorem digitsValue_digits (n : Nat) : digitsValue (Text.digits n) = n := by
  have hvalue := Nat.ofDigitChars_toDigits (b := 10) (n := n) (by decide) (by decide)
  rw [Nat.ofDigitChars] at hvalue
  simpa only [digitsValue, Text.digits, Nat.mul_comm 10] using hvalue

theorem isDigit_of_mem_digits {n : Nat} {c : Char} (h : c ∈ Text.digits n) : c.isDigit = true :=
  Nat.isDigit_of_mem_toDigits (by decide) (by decide) h

/-- The text of an integer is digits, after a minus sign if it is negative. -/
theorem intText_cases (i : Int) :
    ∃ d ds, digitsValue (d :: ds) = i.natAbs ∧ (∀ c ∈ d :: ds, c.isDigit = true) ∧
      ((i < 0 ∧ Number.intText i = '-' :: d :: ds) ∨ (0 ≤ i ∧ Number.intText i = d :: ds)) := by
  obtain ⟨d, ds, hds⟩ := List.exists_cons_of_ne_nil (Nat.toDigits_ne_nil (n := i.natAbs) (b := 10))
  have hdigits : Text.digits i.natAbs = d :: ds := hds
  refine ⟨d, ds, ?_, ?_, ?_⟩
  · rw [← hdigits, digitsValue_digits]
  · rw [← hdigits]
    exact fun c hc => isDigit_of_mem_digits hc
  · by_cases hneg : i < 0
    · exact .inl ⟨hneg, by rw [Number.intText, if_pos hneg, hdigits]; rfl⟩
    · exact .inr ⟨Int.not_lt.mp hneg, by rw [Number.intText, if_neg hneg, hdigits]⟩

theorem ne_of_isDigit {c d : Char} (h : c.isDigit = true) (hd : d.isDigit = false) : c ≠ d := by
  rintro rfl
  simp [hd] at h

theorem not_isBlank_of_isDigit {c : Char} (h : c.isDigit = true) : Text.isBlank c = false :=
  Text.not_isBlank_of_isAlphanum (by simp [Char.isAlphanum, h])

theorem numberOfText?_intText {i : Int} (h : isInt64 i = true) :
    numberOfText? (Number.intText i) = some (.int i) := by
  obtain ⟨d, ds, hvalue, hdigit, hcases⟩ := intText_cases i
  have hwhole : (d :: ds).takeWhile (· != '.') = d :: ds := by
    have hpoint : (d :: ds).all (· != '.') = true :=
      List.all_eq_true.mpr fun c hc => bne_iff_ne.mpr (ne_of_isDigit (hdigit c hc) rfl)
    have hnil : ∀ c ∈ ([] : Text).head?, (c != '.') = false := by simp
    simpa using (Text.takeWhile_append hpoint hnil).1
  obtain ⟨hlow, hhigh⟩ := by simpa [isInt64] using h
  rcases hcases with ⟨hneg, htext⟩ | ⟨hpos, htext⟩
  · have hi : -(i.natAbs : Int) = i := by omega
    rw [htext]
    simp only [numberOfText?, hwhole, hvalue, if_true, hi]
    exact if_pos ⟨trivial, hlow, hhigh⟩
  · have hi : (i.natAbs : Int) = i := by omega
    have hminus : d ≠ '-' := ne_of_isDigit (hdigit d List.mem_cons_self) rfl
    rw [htext]
    unfold numberOfText?
    split
    next negative unsigned hsign =>
      split at hsign
      · next heq => exact absurd (List.cons.inj heq).1 hminus
      · obtain ⟨rfl, rfl⟩ := Prod.mk.inj hsign
        simp only [hwhole, hvalue, hi]
        exact if_pos ⟨trivial, hlow, hhigh⟩

def isNumberPart (c : Char) : Bool := c.isDigit || c == '.'

theorem not_isNumberPart_of_isIdentStart {c : Char} (h : isIdentStart c = true) :
    isNumberPart c = false := by
  have hrange := toNat_of_isIdentStart h
  have hpoint : c ≠ '.' := by
    rintro rfl
    simp at hrange
  have hdigit : c.isDigit = false := by
    simp only [Char.isDigit, Bool.and_eq_false_iff, decide_eq_false_iff_not, ge_iff_le,
      UInt32.le_iff_toNat_le]
    change ¬48 ≤ c.toNat ∨ ¬c.toNat ≤ 57
    omega
  simp [isNumberPart, hpoint, hdigit]

theorem not_startsNumber_of_isIdentStart {c : Char} (h : isIdentStart c = true) (cs : Text) :
    startsNumber (c :: cs) = false := by
  have hdigit := (Bool.or_eq_false_iff.mp (not_isNumberPart_of_isIdentStart h)).1
  unfold startsNumber
  split
  · next heq =>
    obtain rfl := (List.cons.inj heq).1
    exact absurd h (by decide)
  · next heq => exact (List.cons.inj heq).1 ▸ hdigit
  · rfl

theorem readNumber_cons (c : Char) (cs : Text) : readNumber (c :: cs) =
    match numberOfText? (c :: cs.takeWhile isNumberPart) with
    | some n => .ok (n, cs.dropWhile isNumberPart)
    | none => .error (.invalidNumber (c :: cs.takeWhile isNumberPart)) := rfl

theorem exists_intText_eq (i : Int) :
    ∃ c t, Number.intText i = c :: t ∧ t.all isNumberPart = true := by
  have hpart (ds : Text) (h : ∀ c ∈ ds, c.isDigit = true) : ds.all isNumberPart = true :=
    List.all_eq_true.mpr fun d hd => by simp [isNumberPart, h d hd]
  obtain ⟨d, ds, -, hdigit, ⟨-, htext⟩ | ⟨-, htext⟩⟩ := intText_cases i
  · exact ⟨'-', d :: ds, htext, hpart _ hdigit⟩
  · exact ⟨d, ds, htext, hpart _ (List.forall_mem_cons.mp hdigit).2⟩

theorem readNumber_intText {i : Int} (h : isInt64 i = true) {rest : Text} (hrest : Delimited rest)
    (hpoint : rest.head? ≠ some '.') :
    readNumber (Number.intText i ++ rest) = .ok (.int i, rest) := by
  obtain ⟨c, t, htext, hpart⟩ := exists_intText_eq i
  have hstop : ∀ d ∈ rest.head?, isNumberPart d = false := by
    have hall : ∀ d ∈ delimiters, d ≠ '.' → isNumberPart d = false :=
      List.forall_iff_forall_mem.mp (by decide)
    intro d hd
    exact hall d (hrest d hd) fun heq => hpoint (heq ▸ hd)
  obtain ⟨htake, hdrop⟩ := Text.takeWhile_append hpart hstop
  rw [htext, List.cons_append, readNumber_cons, htake, hdrop, ← htext, numberOfText?_intText h]

/-- A point after a number is taken for a part of it. -/
theorem rest_of_readNumber_point {i : Int} {c : Char} (hc : isIdentStart c = true) {cs : Text}
    {r : Number × Text} (h : readNumber (Number.intText i ++ '.' :: c :: cs) = .ok r) :
    r.2 = c :: cs := by
  obtain ⟨d, t, htext, hpart⟩ := exists_intText_eq i
  have hstop : ∀ e ∈ (c :: cs).head?, isNumberPart e = false := by
    intro e he
    obtain rfl := Option.some.inj he
    exact not_isNumberPart_of_isIdentStart hc
  have hpoint : (t ++ ['.']).all isNumberPart = true := by
    rw [List.all_append, hpart]
    rfl
  obtain ⟨-, hdrop⟩ := Text.takeWhile_append hpoint hstop
  rw [List.append_assoc, List.singleton_append] at hdrop
  rw [htext, List.cons_append, readNumber_cons, hdrop] at h
  split at h
  · exact congrArg Prod.snd (Except.ok.inj h).symm
  · cases h

theorem startsNumber_intText (i : Int) (rest : Text) :
    startsNumber (Number.intText i ++ rest) = true := by
  obtain ⟨d, ds, -, hdigit, ⟨-, htext⟩ | ⟨-, htext⟩⟩ := intText_cases i
  · rw [htext]
    exact hdigit d List.mem_cons_self
  · have hminus : d ≠ '-' := ne_of_isDigit (hdigit d List.mem_cons_self) rfl
    rw [htext, List.cons_append]
    unfold startsNumber
    split
    · next heq => exact absurd (List.cons.inj heq).1 hminus
    · next heq => exact (List.cons.inj heq).1 ▸ hdigit d List.mem_cons_self
    · next heq => cases heq

end Expr

end HtmlTemplate
