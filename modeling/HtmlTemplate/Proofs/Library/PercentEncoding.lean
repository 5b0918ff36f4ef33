import HtmlTemplate.Library.Handlers
import HtmlTemplate.Json.Reader
import HtmlTemplate.Proofs.Text.Bytes

/-!
Texts as components of addresses. Such a component holds letters, digits and a few marks, and all
else as percent signs with two hexadecimal digits (`PercentEncoded`). The handler `url` makes one of
the text of any value, and decoding takes it back (`url_decodes`): a percent sign in the component
always begins a byte, because one in the text is written as its byte too. This holds for every
encoder that writes the chosen characters byte by byte (`PercentEncodes`), in digits of either case.
-/

namespace HtmlTemplate

namespace Text

/-- Whether a component of an address holds the character in front of a text. -/
def IsAddressed (c : Char) (t : Text) : Prop :=
  c.isAlphanum ∨ c ∈ "-_.!~*'()".toList ∨
    c = '%' ∧ ∃ high low rest, t = high :: low :: rest ∧ (Json.hexDigit? high).isSome ∧
      (Json.hexDigit? low).isSome

/-- Letters, digits, marks, and percent signs with two hexadecimal digits behind each. -/
def PercentEncoded : Text → Prop
  | [] => True
  | c :: cs => IsAddressed c cs ∧ PercentEncoded cs

/-- The bytes of a text in which a percent sign and two hexadecimal digits stand for a byte and
every other character for its own bytes. -/
def percentBytes? : Text → Option (List UInt8)
  | [] => some []
  | '%' :: high :: low :: rest => do
    let high ← Json.hexDigit? high
    let low ← Json.hexDigit? low
    let bytes ← percentBytes? rest
    some (UInt8.ofNat (16 * high + low) :: bytes)
  | c :: rest => if c = '%' then none else (percentBytes? rest).map (utf8 [c] ++ ·)

def percentDecode? (t : Text) : Option Text := (percentBytes? t).bind ofUtf8?

theorem percentBytes?_cons {c : Char} (h : c ≠ '%') (t : Text) :
    percentBytes? (c :: t) = (percentBytes? t).map (utf8 [c] ++ ·) := by
  rw [percentBytes?, if_neg h]
  rintro high low rest rfl
  exact absurd rfl h

end Text

open Text

namespace Handlers

/-! ## One byte -/

/-- The byte as a percent sign and its two hexadecimal digits. -/
def IsPercentByte (b : UInt8) (t : Text) : Prop :=
  ∃ high low, t = ['%', high, low] ∧ Json.hexDigit? high = some (b.toNat / 16) ∧
    Json.hexDigit? low = some (b.toNat % 16)

def hexDigit (n : Nat) : Char := if n < 10 then Char.ofNat (48 + n) else Char.ofNat (55 + n)

theorem hexDigit?_hexDigit {n : Nat} (h : n < 16) : Json.hexDigit? (hexDigit n) = some n := by
  have hall : ∀ n < 16, Json.hexDigit? (hexDigit n) = some n := by decide
  exact hall n h

theorem isPercentByte_percentByte (b : UInt8) : IsPercentByte b (percentByte b) := by
  have hb := b.toNat_lt
  refine ⟨hexDigit (b.toNat / 16), hexDigit (b.toNat % 16), rfl, ?_, ?_⟩
  · exact hexDigit?_hexDigit (by omega)
  · exact hexDigit?_hexDigit (by omega)

theorem isAlphanum_of_hexDigit? {c : Char} (h : (Json.hexDigit? c).isSome) : c.isAlphanum := by
  show (c.isUpper || c.isLower || c.isDigit) = true
  rw [Bool.or_eq_true, Bool.or_eq_true]
  unfold Json.hexDigit? at h
  split at h
  · next hdigit => exact .inr hdigit
  split at h
  · next hlower =>
    have hz : c ≤ 'z' := Char.le_trans hlower.2 (by decide)
    exact .inl (.inr (Bool.and_eq_true_iff.mpr ⟨decide_eq_true hlower.1, decide_eq_true hz⟩))
  split at h
  · next hupper =>
    have hz : c ≤ 'Z' := Char.le_trans hupper.2 (by decide)
    exact .inl (.inl (decide_eq_true ⟨hupper.1, hz⟩))
  · cases h

variable {b : UInt8} {s t : Text}

theorem IsPercentByte.percentEncoded_append (h : IsPercentByte b s) (ht : PercentEncoded t) :
    PercentEncoded (s ++ t) := by
  obtain ⟨high, low, rfl, hhigh, hlow⟩ := h
  have hdigit {c : Char} {n : Nat} (hc : Json.hexDigit? c = some n) (u : Text) :
      IsAddressed c u := .inl (isAlphanum_of_hexDigit? (Option.isSome_of_eq_some hc))
  refine ⟨.inr (.inr ⟨rfl, high, low, t, rfl, ?_, ?_⟩), hdigit hhigh _, hdigit hlow _, ht⟩
  · exact Option.isSome_of_eq_some hhigh
  · exact Option.isSome_of_eq_some hlow

/-- A percent sign with its digits is read as the byte, whatever follows. -/
theorem IsPercentByte.percentBytes?_append (h : IsPercentByte b s) (t : Text) :
    percentBytes? (s ++ t) = (percentBytes? t).map (b :: ·) := by
  obtain ⟨high, low, rfl, hhigh, hlow⟩ := h
  have hbyte : UInt8.ofNat (16 * (b.toNat / 16) + b.toNat % 16) = b := by
    rw [Nat.div_add_mod, UInt8.ofNat_toNat]
  simp only [List.cons_append, List.nil_append, percentBytes?, hhigh, hlow, Option.bind_eq_bind,
    Option.bind_some, hbyte]
  cases percentBytes? t <;> rfl

/-! ## Encoders -/

/-- An encoder of texts that writes the characters chosen by a test byte by byte and the others as
they are. -/
def PercentEncodes (encode : (Char → Bool) → Text → Text) : Prop :=
  ∃ write : UInt8 → Text, (∀ b, IsPercentByte b (write b)) ∧
    ∀ chosen t, encode chosen t =
      t.flatMap fun c => if chosen c then (utf8 [c]).flatMap write else [c]

/-- The encoder that takes upper-case digits. -/
def percentEncode (chosen : Char → Bool) (t : Text) : Text :=
  t.flatMap fun c => if chosen c then (utf8 [c]).flatMap percentByte else [c]

theorem percentEncodes_percentEncode : PercentEncodes percentEncode :=
  ⟨percentByte, isPercentByte_percentByte, fun _ _ => rfl⟩

/-- The handler `url` with the encoder as a parameter. -/
def urlWith (encode : (Char → Bool) → Text → Text) (v : Value) : Value :=
  .string (encode (fun c => !isUrlChar c) v.text)

theorem urlText_eq_percentEncode (t : Text) :
    urlText t = percentEncode (fun c => !isUrlChar c) t := by
  refine congrArg (t.flatMap ·) (funext fun c => ?_)
  cases hc : isUrlChar c <;> simp [hc]

/-! ## Components -/

theorem isAddressed_of_isUrlChar {c : Char} (h : isUrlChar c) (t : Text) : IsAddressed c t := by
  rw [isUrlChar, Bool.or_eq_true, List.contains_iff_mem] at h
  exact h.imp id .inl

theorem ne_percent_of_isUrlChar {c : Char} (h : isUrlChar c) : c ≠ '%' := by
  rintro rfl
  exact absurd h (by decide)

section Encoder

variable {write : UInt8 → Text} (hwrite : ∀ b, IsPercentByte b (write b))
include hwrite

theorem percentEncoded_flatMap_append (bs : List UInt8) (ht : PercentEncoded t) :
    PercentEncoded (bs.flatMap write ++ t) := by
  induction bs with
  | nil => exact ht
  | cons b bs ih =>
    rw [List.flatMap_cons, List.append_assoc]
    exact (hwrite b).percentEncoded_append ih

theorem percentBytes?_flatMap_append (bs : List UInt8) (t : Text) :
    percentBytes? (bs.flatMap write ++ t) = (percentBytes? t).map (bs ++ ·) := by
  induction bs with
  | nil => simp
  | cons b bs ih =>
    rw [List.flatMap_cons, List.append_assoc, (hwrite b).percentBytes?_append, ih, Option.map_map]
    rfl

/-- What a text is written as is a component that stands for the bytes of the text. -/
theorem percentBytes?_component (s : Text) :
    let component := s.flatMap fun c => if !isUrlChar c then (utf8 [c]).flatMap write else [c]
    PercentEncoded component ∧ percentBytes? component = some (utf8 s) := by
  induction s with
  | nil => exact ⟨trivial, rfl⟩
  | cons c cs ih =>
    obtain ⟨hencoded, hbytes⟩ := ih
    have hutf8 : utf8 (c :: cs) = utf8 [c] ++ utf8 cs := by simp [utf8]
    simp only [List.flatMap_cons]
    cases hc : isUrlChar c with
    | false =>
      refine ⟨percentEncoded_flatMap_append hwrite _ hencoded, ?_⟩
      rw [hutf8, Bool.not_false, if_pos rfl, percentBytes?_flatMap_append hwrite, hbytes]
      rfl
    | true =>
      refine ⟨⟨isAddressed_of_isUrlChar hc _, hencoded⟩, ?_⟩
      rw [hutf8, Bool.not_true, if_neg Bool.false_ne_true, List.singleton_append,
        percentBytes?_cons (ne_percent_of_isUrlChar hc), hbytes]
      rfl

end Encoder

theorem percentDecode?_of_percentEncodes {encode : (Char → Bool) → Text → Text}
    (h : PercentEncodes encode) (v : Value) :
    ∃ t, urlWith encode v = .string t ∧ PercentEncoded t ∧ percentDecode? t = some v.text := by
  obtain ⟨write, hwrite, hencode⟩ := h
  obtain ⟨hencoded, hbytes⟩ := percentBytes?_component hwrite v.text
  refine ⟨_, congrArg Value.string (hencode _ _), hencoded, ?_⟩
  rw [percentDecode?, hbytes]
  exact ofUtf8?_utf8 v.text

/-- The handler makes a component of an address of every value, which is decoded to the text of the
value. So it does with any other encoder. -/
theorem url_decodes :
    (∀ v, ∃ t, url v = .string t ∧ PercentEncoded t ∧ percentDecode? t = some v.text) ∧
      ∀ encode, PercentEncodes encode → ∀ v, ∃ t, urlWith encode v = .string t ∧
        PercentEncoded t ∧ percentDecode? t = some v.text := by
  constructor
  · intro v
    have hurl : url v = urlWith percentEncode v :=
      congrArg Value.string (urlText_eq_percentEncode v.text)
    rw [hurl]
    exact percentDecode?_of_percentEncodes percentEncodes_percentEncode v
  · intro encode h
    exact percentDecode?_of_percentEncodes h

/-- Percent signs of the text are written as their byte, and characters of two to four bytes as two
to four bytes. -/
theorem url_decodes_array :
    let v : Value := .array [.string "5%25 é", .null, .string "€😀"]
    PercentEncodes percentEncode ∧
      ∃ t, urlWith percentEncode v = .string t ∧
        t = "5%2525%20%C3%A9%2C%2C%E2%82%AC%F0%9F%98%80".toList ∧ PercentEncoded t ∧
          percentDecode? t = some "5%25 é,,€😀".toList := by
  intro v
  obtain ⟨t, ht, hencoded, hdecoded⟩ := url_decodes.2 percentEncode percentEncodes_percentEncode v
  refine ⟨percentEncodes_percentEncode, t, ht, ?_, hencoded, hdecoded⟩
  exact (Value.string.inj ht).symm

end Handlers

end HtmlTemplate
