import HtmlTemplate.Proofs.Expr.Shape
import Mathlib.Data.List.DropRight

/-!
The tokens of expressions, as texts between what stands before and after them. Each comes after
blanks (`Lexeme`). An identifier and a number are as long as they can be, and a string ends at the
first quote of its kind without a backslash. For each token there is a reader, and it succeeds
exactly if the token comes next.
-/

namespace HtmlTemplate

namespace Expr

/-- The text `cs` is blanks, the text `t` and then `rest`. -/
def Lexeme (t cs rest : Text) : Prop :=
  ∃ blanks, (∀ c ∈ blanks, Text.isBlank c = true) ∧ cs = blanks ++ (t ++ rest)

theorem trimStart_trimStart (t : Text) : Text.trimStart (Text.trimStart t) = Text.trimStart t :=
  List.dropWhile_idempotent Text.isBlank t

/-- A lexeme that starts with no blank is what comes after the blanks. -/
theorem lexeme_iff {c : Char} (hc : Text.isBlank c = false) {t cs rest : Text} :
    Lexeme (c :: t) cs rest ↔ Text.trimStart cs = c :: t ++ rest := by
  constructor
  · rintro ⟨blanks, hblanks, rfl⟩
    rw [Text.trimStart_append_of_blank hblanks, List.cons_append, Text.trimStart_cons hc]
  · intro h
    refine ⟨cs.takeWhile Text.isBlank, fun c hc => List.mem_takeWhile_imp hc, ?_⟩
    rw [← h]
    exact List.takeWhile_append_dropWhile.symm

theorem Lexeme.length_le {t cs rest : Text} (h : Lexeme t cs rest) :
    rest.length ≤ cs.length := by
  obtain ⟨blanks, -, rfl⟩ := h
  simp only [List.length_append]
  omega

theorem trimStart_eq_nil_iff {t : Text} :
    Text.trimStart t = [] ↔ ∀ c ∈ t, Text.isBlank c = true :=
  List.dropWhile_eq_nil_iff

/-! ## Symbols -/

abbrev Symbol (c : Char) (cs rest : Text) : Prop := Lexeme [c] cs rest

theorem Symbol.length_lt {c : Char} {cs rest : Text} (h : Symbol c cs rest) :
    rest.length < cs.length := by
  obtain ⟨blanks, -, rfl⟩ := h
  simp only [List.length_append, List.length_singleton]
  omega

theorem eat?_eq_some_iff {c : Char} (hc : Text.isBlank c = false) {cs rest : Text} :
    eat? c cs = some rest ↔ Symbol c cs rest := by
  rw [Symbol, lexeme_iff hc]
  constructor
  · intro h
    unfold eat? at h
    split at h
    · next d tail hcs =>
      split at h
      · next hd => rw [hcs, hd, Option.some.inj h, List.singleton_append]
      · cases h
    · cases h
  · exact eat?_of_trimStart

theorem expect_eq_ok_iff {c : Char} (hc : Text.isBlank c = false) {cs rest : Text} :
    expect c cs = .ok rest ↔ Symbol c cs rest := by
  rw [← eat?_eq_some_iff hc, expect]
  cases eat? c cs <;> simp

/-! ## Identifiers -/

/-- The identifier comes next, and no longer one. -/
structure Identifier (name cs rest : Text) : Prop where
  isIdent : isIdent name = true
  lexeme : Lexeme name cs rest
  maximal : ∀ c ∈ rest.head?, isIdentChar c = false

theorem Identifier.trimStart {name cs rest : Text} (h : Identifier name cs rest) :
    ∃ c t, name = c :: t ∧ isIdentStart c = true ∧ t.all isIdentChar = true ∧
      Text.trimStart cs = c :: t ++ rest := by
  obtain ⟨hident, hlexeme, -⟩ := h
  cases name with
  | nil => simp [Expr.isIdent] at hident
  | cons c t =>
    obtain ⟨hc, ht⟩ := (Bool.and_eq_true _ _).mp hident
    exact ⟨c, t, rfl, hc, ht, (lexeme_iff (not_isBlank_of_isIdentStart hc)).mp hlexeme⟩

theorem readIdent_trimStart (wanted : Wanted) (cs : Text) :
    readIdent wanted (Text.trimStart cs) = readIdent wanted cs := by
  simp only [readIdent, trimStart_trimStart]

theorem readIdent_eq_ok_iff (wanted : Wanted) {name cs rest : Text} :
    readIdent wanted cs = .ok (name, rest) ↔ Identifier name cs rest := by
  constructor
  · intro h
    have hident := isIdent_of_readIdent h
    unfold readIdent at h
    split at h
    · cases h
    · next c tail hcs =>
      split at h
      · next hc =>
        obtain ⟨rfl, rfl⟩ := Prod.mk.inj (Except.ok.inj h)
        refine ⟨hident, (lexeme_iff (not_isBlank_of_isIdentStart hc)).mpr ?_,
          Text.head?_dropWhile_not⟩
        rw [hcs, List.cons_append, List.takeWhile_append_dropWhile]
      · cases h
  · intro h
    obtain ⟨c, t, rfl, hc, ht, hcs⟩ := h.trimStart
    obtain ⟨htake, hdrop⟩ := Text.takeWhile_append ht h.maximal
    rw [readIdent, hcs]
    simp only [List.cons_append, hc, if_true, htake, hdrop]

/-! ## Strings -/

inductive StringItem
  | plain (c : Char)
  | escape (c : Char)

namespace StringItem

def source : StringItem → Text
  | plain c => [c]
  | escape c => ['\\', c]

def value : StringItem → Char
  | plain c => c
  | escape c => unescape c

/-- Inside of quotes a quote and a backslash stand for themselves only after a backslash. -/
def Fits (quote : Char) : StringItem → Prop
  | plain c => c ≠ '\\' ∧ c ≠ quote
  | escape _ => True

end StringItem

/-- A string comes next, between two quotes of one kind. -/
def Quoted (s cs rest : Text) : Prop :=
  ∃ (quote : Char) (items : List StringItem),
    (quote = '\'' ∨ quote = '"') ∧ (∀ i ∈ items, i.Fits quote) ∧
    s = items.map StringItem.value ∧
    Lexeme (quote :: (items.flatMap StringItem.source ++ [quote])) cs rest

theorem readString_of_items {quote : Char} (hquote : quote ≠ '\\') {items : List StringItem}
    (h : ∀ i ∈ items, i.Fits quote) (rest : Text) :
    readString quote (items.flatMap StringItem.source ++ quote :: rest) =
      .ok (items.map StringItem.value, rest) := by
  induction items with
  | nil =>
    simp only [List.flatMap_nil, List.nil_append, List.map_nil]
    unfold readString
    rw [if_neg hquote, if_pos rfl]
  | cons i items ih =>
    have hrest := ih fun j hj => h j (List.mem_cons_of_mem i hj)
    cases i with
    | plain c =>
      obtain ⟨hescape, hc⟩ := h _ List.mem_cons_self
      exact readString_plain hescape hc hrest
    | escape c => exact readString_escaped hrest

theorem exists_items_of_readString {quote : Char} {cs s rest : Text}
    (h : readString quote cs = .ok (s, rest)) :
    ∃ items : List StringItem, (∀ i ∈ items, i.Fits quote) ∧ s = items.map StringItem.value ∧
      cs = items.flatMap StringItem.source ++ quote :: rest := by
  induction hn : cs.length using Nat.strongRecOn generalizing cs s with
  | ind n ih =>
    have hitem (i : StringItem) (hi : i.Fits quote) (tail : Text) (hcs : cs = i.source ++ tail)
        (hshort : tail.length < n)
        (htail : (do
          let p ← readString quote tail
          .ok (i.value :: p.1, p.2)) = Except.ok (s, rest)) :
        ∃ items : List StringItem, (∀ i ∈ items, i.Fits quote) ∧ s = items.map StringItem.value ∧
          cs = items.flatMap StringItem.source ++ quote :: rest := by
      obtain ⟨⟨s', rest'⟩, hread, heq⟩ := exists_of_bind_eq_ok htail
      obtain ⟨rfl, rfl⟩ := Prod.mk.inj (Except.ok.inj heq)
      obtain ⟨items, hfits, rfl, rfl⟩ := ih _ hshort hread rfl
      exact ⟨i :: items, List.forall_mem_cons.mpr ⟨hi, hfits⟩, rfl, by simp [hcs]⟩
    cases cs with
    | nil =>
      unfold readString at h
      cases h
    | cons c cs =>
      rw [List.length_cons] at hn
      unfold readString at h
      split at h
      · next hescape =>
        obtain rfl := hescape
        cases cs with
        | nil => cases h
        | cons d cs =>
          rw [List.length_cons] at hn
          exact hitem (.escape d) trivial cs rfl (by omega) h
      · next hescape =>
        split at h
        · next hquote =>
          obtain ⟨rfl, rfl⟩ := Prod.mk.inj (Except.ok.inj h)
          exact ⟨[], by simp, rfl, by rw [hquote]; rfl⟩
        · next hquote => exact hitem (.plain c) ⟨hescape, hquote⟩ cs rfl (by omega) h

/-- A string comes next exactly if one can be read after a quote. -/
theorem quoted_iff {s cs rest : Text} :
    Quoted s cs rest ↔ ∃ quote t, Text.trimStart cs = quote :: t ∧ (quote = '\'' ∨ quote = '"') ∧
      readString quote t = .ok (s, rest) := by
  have hblank {quote : Char} (h : quote = '\'' ∨ quote = '"') : Text.isBlank quote = false := by
    rcases h with rfl | rfl <;> rfl
  constructor
  · rintro ⟨quote, items, hquote, hfits, rfl, hcs⟩
    have hescape : quote ≠ '\\' := by rcases hquote with rfl | rfl <;> decide
    rw [lexeme_iff (hblank hquote)] at hcs
    refine ⟨quote, _, hcs, hquote, ?_⟩
    simpa using readString_of_items hescape hfits rest
  · rintro ⟨quote, t, hcs, hquote, hread⟩
    obtain ⟨items, hfits, rfl, rfl⟩ := exists_items_of_readString hread
    refine ⟨quote, items, hquote, hfits, rfl, (lexeme_iff (hblank hquote)).mpr ?_⟩
    simpa using hcs

/-! ## Numbers -/

def signText (negative : Bool) : Text := if negative then ['-'] else []

def signedValue (negative : Bool) (n : Nat) : Int := if negative then -(n : Int) else n

/-- The number of which a text is the decimal notation. An integer of more than 64 bits and a number
with a point are rounded, and there is none if they are too large for that. -/
inductive Numeral : Text → Number → Prop
  | int {negative : Bool} {digits : Text} (nonempty : digits ≠ [])
    (isDigit : ∀ c ∈ digits, c.isDigit = true)
    (isInt64 : isInt64 (signedValue negative (digitsValue digits)) = true) :
    Numeral (signText negative ++ digits) (.int (signedValue negative (digitsValue digits)))
  | large {negative : Bool} {digits : Text} {x : Binary64} (nonempty : digits ≠ [])
    (isDigit : ∀ c ∈ digits, c.isDigit = true)
    (not_isInt64 : isInt64 (signedValue negative (digitsValue digits)) = false)
    (value_eq : Binary64.ofDecimal? (digitsValue digits) 0 = some x) :
    Numeral (signText negative ++ digits) (.float (x.withSign negative))
  | decimal {negative : Bool} {whole fraction : Text} {x : Binary64} (nonempty : whole ≠ [])
    (isDigit : ∀ c ∈ whole ++ fraction, c.isDigit = true)
    (value_eq : Binary64.ofDecimal? (digitsValue (whole ++ fraction)) (-fraction.length) = some x) :
    Numeral (signText negative ++ (whole ++ '.' :: fraction)) (.float (x.withSign negative))

/-- A number comes next, and no longer run of digits and points. -/
def Numeric (n : Number) (cs rest : Text) : Prop :=
  ∃ text, Numeral text n ∧ Lexeme text cs rest ∧ ∀ c ∈ rest.head?, isNumberPart c = false

/-- What is read off a text after its sign. -/
theorem numberOfText?_signText (negative : Bool) {d : Char} (hd : d.isDigit = true) (ds : Text) :
    numberOfText? (signText negative ++ d :: ds) =
      let whole := (d :: ds).takeWhile (· != '.')
      let fraction := ((d :: ds).dropWhile (· != '.')).drop 1
      let value := signedValue negative (digitsValue whole)
      if whole.length = (d :: ds).length ∧ isInt64 value = true then some (.int value)
      else if fraction.contains '.' then none
      else
        (Binary64.ofDecimal? (digitsValue (whole ++ fraction)) (-fraction.length)).map fun x =>
          .float (x.withSign negative) := by
  have hminus : d ≠ '-' := ne_of_isDigit hd rfl
  have hint (i : Int) : isInt64 i = true ↔
      -(Nat.pow 2 63 : Int) ≤ i ∧ i < (Nat.pow 2 63 : Int) := by
    simp [isInt64]
  simp only [hint]
  cases negative with
  | true => rfl
  | false =>
    rw [signText, if_neg Bool.false_ne_true, List.nil_append]
    unfold numberOfText?
    split
    next negative unsigned hsign =>
      split at hsign
      · next heq => exact absurd (List.cons.inj heq).1 hminus
      · obtain ⟨rfl, rfl⟩ := Prod.mk.inj hsign
        rfl

theorem all_ne_point {digits : Text} (h : ∀ c ∈ digits, c.isDigit = true) :
    digits.all (· != '.') = true :=
  List.all_eq_true.mpr fun c hc => bne_iff_ne.mpr (ne_of_isDigit (h c hc) rfl)

theorem numberOfText?_digits (negative : Bool) {digits : Text} (hne : digits ≠ [])
    (h : ∀ c ∈ digits, c.isDigit = true) :
    numberOfText? (signText negative ++ digits) =
      if isInt64 (signedValue negative (digitsValue digits)) = true then
        some (.int (signedValue negative (digitsValue digits)))
      else (Binary64.ofDecimal? (digitsValue digits) 0).map fun x =>
        .float (x.withSign negative) := by
  obtain ⟨d, ds, rfl⟩ := List.exists_cons_of_ne_nil hne
  obtain ⟨htake, hdrop⟩ :=
    Text.takeWhile_append (all_ne_point h) (show ∀ c ∈ [].head?, _ from nofun)
  rw [List.append_nil] at htake hdrop
  rw [numberOfText?_signText negative (h d List.mem_cons_self), htake, hdrop]
  simp

theorem numberOfText?_point (negative : Bool) {whole : Text} (hne : whole ≠ [])
    (h : ∀ c ∈ whole, c.isDigit = true) (fraction : Text) :
    numberOfText? (signText negative ++ (whole ++ '.' :: fraction)) =
      if fraction.contains '.' then none
      else (Binary64.ofDecimal? (digitsValue (whole ++ fraction)) (-fraction.length)).map fun x =>
        .float (x.withSign negative) := by
  obtain ⟨d, ds, rfl⟩ := List.exists_cons_of_ne_nil hne
  have hpoint : ∀ c ∈ ('.' :: fraction).head?, (c != '.') = false := by simp
  obtain ⟨htake, hdrop⟩ := Text.takeWhile_append (all_ne_point h) hpoint
  rw [List.cons_append] at htake hdrop
  rw [List.cons_append, numberOfText?_signText negative (h d List.mem_cons_self), htake, hdrop]
  simp

theorem numberOfText?_of_numeral {text : Text} {n : Number} (h : Numeral text n) :
    numberOfText? text = some n := by
  cases h with
  | int nonempty isDigit isInt64 =>
    rw [numberOfText?_digits _ nonempty isDigit]
    exact if_pos isInt64
  | large nonempty isDigit not_isInt64 value_eq =>
    rw [numberOfText?_digits _ nonempty isDigit]
    simp only [not_isInt64, value_eq]
    rfl
  | @decimal negative whole fraction x nonempty isDigit value_eq =>
    have hpoint : fraction.contains '.' = false := by
      rw [List.contains_eq_any_beq, List.any_eq_false]
      intro c hc
      have hne := ne_of_isDigit (isDigit c (List.mem_append_right _ hc)) (d := '.') rfl
      simpa using hne.symm
    rw [numberOfText?_point _ nonempty fun c hc => isDigit c (List.mem_append_left _ hc), hpoint,
      value_eq]
    rfl

/-- A run of digits and points that is read as a number is the notation of it. -/
theorem numeral_of_numberOfText? {negative : Bool} {d : Char} (hd : d.isDigit = true) {ds : Text}
    (hds : ds.all isNumberPart = true) {n : Number}
    (h : numberOfText? (signText negative ++ d :: ds) = some n) :
    Numeral (signText negative ++ d :: ds) n := by
  have hparts : ∀ c ∈ d :: ds, isNumberPart c = true := by
    rw [List.all_eq_true] at hds
    exact List.forall_mem_cons.mpr ⟨by simp [isNumberPart, hd], hds⟩
  -- The digits up to the first point, which are not none, and the rest.
  have hsplit := List.takeWhile_append_dropWhile (p := Char.isDigit) (l := d :: ds)
  have hwhole : ∀ c ∈ (d :: ds).takeWhile Char.isDigit, c.isDigit = true :=
    fun c hc => List.mem_takeWhile_imp hc
  have hne : (d :: ds).takeWhile Char.isDigit ≠ [] := by simp [hd]
  have hnext : ∀ c ∈ ((d :: ds).dropWhile Char.isDigit).head?, c.isDigit = false :=
    Text.head?_dropWhile_not
  generalize (d :: ds).takeWhile Char.isDigit = whole at hsplit hwhole hne
  generalize (d :: ds).dropWhile Char.isDigit = tail at hsplit hnext
  rw [← hsplit] at hparts h ⊢
  cases tail with
  | nil =>
    rw [List.append_nil] at h ⊢
    rw [numberOfText?_digits negative hne hwhole] at h
    split at h
    · next hint =>
      obtain rfl := Option.some.inj h
      exact .int hne hwhole hint
    · next hint =>
      obtain ⟨x, hx, rfl⟩ := Option.map_eq_some_iff.mp h
      exact .large hne hwhole (Bool.eq_false_iff.mpr hint) hx
  | cons c fraction =>
    have hpoint : c = '.' := by
      have hc := hparts c (by simp)
      simpa [isNumberPart, hnext c rfl] using hc
    obtain rfl := hpoint
    rw [numberOfText?_point negative hne hwhole] at h
    split at h
    · cases h
    · next hcontains =>
      obtain ⟨x, hx, rfl⟩ := Option.map_eq_some_iff.mp h
      refine .decimal hne (fun c hc => ?_) hx
      rcases List.mem_append.mp hc with hc | hc
      · exact hwhole c hc
      · have hpart := hparts c (by simp [hc])
        have hcpoint : c ≠ '.' := by
          rintro rfl
          exact hcontains (List.contains_iff_mem.mpr hc)
        simpa [isNumberPart, hcpoint] using hpart

/-- A numeral has a sign or none, a digit, and digits and points. -/
theorem Numeral.eq_signText {text : Text} {n : Number} (h : Numeral text n) :
    ∃ negative d ds, text = signText negative ++ d :: ds ∧ d.isDigit = true ∧
      ds.all isNumberPart = true := by
  have hall {ds : Text} (hds : ∀ c ∈ ds, c.isDigit = true) : ds.all isNumberPart = true :=
    List.all_eq_true.mpr fun c hc => by simp [isNumberPart, hds c hc]
  cases h with
  | @int negative digits nonempty isDigit _ | @large negative digits _ nonempty isDigit _ _ =>
    obtain ⟨d, ds, rfl⟩ := List.exists_cons_of_ne_nil nonempty
    obtain ⟨hd, hds⟩ := List.forall_mem_cons.mp isDigit
    exact ⟨negative, d, ds, rfl, hd, hall hds⟩
  | @decimal negative whole fraction x nonempty isDigit _ =>
    obtain ⟨d, ds, rfl⟩ := List.exists_cons_of_ne_nil nonempty
    obtain ⟨hd, hds⟩ := List.forall_mem_cons.mp isDigit
    obtain ⟨hwhole, hfraction⟩ := List.forall_mem_append.mp hds
    refine ⟨negative, d, ds ++ '.' :: fraction, rfl, hd, ?_⟩
    simp [List.all_append, hall hwhole, hall hfraction, isNumberPart]

theorem startsNumber_iff {t : Text} :
    startsNumber t = true ↔
      ∃ negative d ds, t = signText negative ++ d :: ds ∧ d.isDigit = true := by
  constructor
  · intro h
    unfold startsNumber at h
    split at h
    · next d ds => exact ⟨true, d, ds, rfl, h⟩
    · next d ds _ => exact ⟨false, d, ds, rfl, h⟩
    · cases h
  · rintro ⟨negative, d, ds, rfl, hd⟩
    cases negative with
    | true => exact hd
    | false =>
      rw [signText, if_neg Bool.false_ne_true, List.nil_append]
      unfold startsNumber
      split
      · next heq => exact absurd (List.cons.inj heq).1 (ne_of_isDigit hd rfl)
      · next heq => exact (List.cons.inj heq).1 ▸ hd
      · next heq => cases heq

theorem readNumber_signText (negative : Bool) {d : Char} (hd : d.isDigit = true) (ds : Text) :
    readNumber (signText negative ++ d :: ds) =
      match numberOfText? (signText negative ++ d :: ds.takeWhile isNumberPart) with
      | some n => .ok (n, ds.dropWhile isNumberPart)
      | none =>
        .error (.invalidNumber (signText negative ++ d :: ds.takeWhile isNumberPart)) := by
  have hpart : isNumberPart d = true := by simp [isNumberPart, hd]
  cases negative with
  | true =>
    have hrun := readNumber_cons '-' (d :: ds)
    rwa [List.takeWhile_cons_of_pos hpart, List.dropWhile_cons_of_pos hpart] at hrun
  | false => exact readNumber_cons d ds

/-- A number comes next exactly if one can be read where one starts. -/
theorem numeric_iff {n : Number} {cs rest : Text} :
    Numeric n cs rest ↔ startsNumber (Text.trimStart cs) = true ∧
      readNumber (Text.trimStart cs) = .ok (n, rest) := by
  have hlexeme (negative : Bool) {d : Char} (hd : d.isDigit = true) (ds : Text) :
      Lexeme (signText negative ++ d :: ds) cs rest ↔
        Text.trimStart cs = signText negative ++ d :: ds ++ rest := by
    cases negative with
    | true => exact lexeme_iff rfl
    | false => exact lexeme_iff (not_isBlank_of_isDigit hd)
  constructor
  · rintro ⟨text, hnumeral, hcs, hmaximal⟩
    have hvalue := numberOfText?_of_numeral hnumeral
    obtain ⟨negative, d, ds, rfl, hd, hds⟩ := hnumeral.eq_signText
    obtain ⟨htake, hdrop⟩ := Text.takeWhile_append hds hmaximal
    rw [(hlexeme negative hd ds).mp hcs, List.append_assoc, List.cons_append]
    refine ⟨startsNumber_iff.mpr ⟨negative, d, ds ++ rest, rfl, hd⟩, ?_⟩
    rw [readNumber_signText negative hd, htake, hdrop, hvalue]
  · rintro ⟨hstarts, hread⟩
    obtain ⟨negative, d, ds, hcs, hd⟩ := startsNumber_iff.mp hstarts
    rw [hcs, readNumber_signText negative hd] at hread
    split at hread
    · next value hvalue =>
      obtain ⟨rfl, rfl⟩ := Prod.mk.inj (Except.ok.inj hread)
      refine ⟨_, numeral_of_numberOfText? hd List.all_takeWhile hvalue,
        (hlexeme negative hd _).mpr ?_, Text.head?_dropWhile_not⟩
      rw [hcs, List.append_assoc, List.cons_append, List.takeWhile_append_dropWhile]
    · cases hread

end Expr

end HtmlTemplate
