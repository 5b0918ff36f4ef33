import HtmlTemplate.Proofs.Text.Trimming
import HtmlTemplate.Text.Utf8
import Mathlib.Tactic.SplitIfs

/-!
Texts by bytes. A slice between two byte offsets is there exactly if both offsets lie in the text,
in order and between characters (`slice?_eq_some_iff`). ASCII characters are bytes of their own and
no byte of another character is ASCII (`bytes_cons_cases`), so a search for an ASCII pattern finds
the same among the bytes of a text as among its characters (`isPrefixOf_bytes`, `breakOn_bytes`).
-/

namespace HtmlTemplate.Text

/-! ## Slices -/

/-- Cuts the text at a byte offset, if that lies between two characters or at an end. -/
def cutAt? : Nat → Text → Option (Text × Text)
  | 0, t => some ([], t)
  | _ + 1, [] => none
  | n + 1, c :: cs =>
    if c.utf8Size ≤ n + 1 then
      (cutAt? (n + 1 - c.utf8Size) cs).map fun (before, after) => (c :: before, after)
    else none

/-- The text between two byte offsets. There is none if they are out of order or range or lie inside
a character. -/
def slice? (t : Text) (lo hi : Nat) : Option Text :=
  (cutAt? lo t).bind fun cut => if lo ≤ hi then (cutAt? (hi - lo) cut.2).map (·.1) else none

theorem cutAt?_append (s t : Text) : cutAt? (byteSize s) (s ++ t) = some (s, t) := by
  induction s with
  | nil => cases t <;> rfl
  | cons c s ih =>
    obtain ⟨n, hn⟩ := Nat.exists_eq_add_one_of_ne_zero (Nat.pos_iff_ne_zero.mp c.utf8Size_pos)
    have hsize : byteSize (c :: s) = n + byteSize s + 1 := by rw [byteSize_cons, hn]; omega
    have hrest : n + byteSize s + 1 - (n + 1) = byteSize s := by omega
    rw [hsize, List.cons_append, cutAt?, hn, if_pos (by omega), hrest, ih]
    rfl

theorem eq_append_of_cutAt? {n : Nat} {t before after : Text}
    (h : cutAt? n t = some (before, after)) : t = before ++ after ∧ byteSize before = n := by
  induction t generalizing n before with
  | nil =>
    cases n with
    | zero =>
      obtain ⟨rfl, rfl⟩ := Prod.mk.inj (Option.some.inj h)
      exact ⟨rfl, rfl⟩
    | succ n => cases h
  | cons c cs ih =>
    cases n with
    | zero =>
      obtain ⟨rfl, rfl⟩ := Prod.mk.inj (Option.some.inj h)
      exact ⟨rfl, rfl⟩
    | succ n =>
      rw [cutAt?] at h
      split at h
      · obtain ⟨⟨before', after'⟩, hcut, heq⟩ := Option.map_eq_some_iff.mp h
        obtain ⟨rfl, rfl⟩ := Prod.mk.inj heq
        obtain ⟨rfl, hsize⟩ := ih hcut
        refine ⟨rfl, ?_⟩
        rw [byteSize_cons, hsize]
        omega
      · cases h

/-- A slice is there exactly if its ends lie between characters of the text, and then it is what
stands between them. -/
theorem slice?_eq_some_iff {t s : Text} {lo hi : Nat} :
    slice? t lo hi = some s ↔
      ∃ before after, t = before ++ s ++ after ∧ byteSize before = lo ∧
        byteSize before + byteSize s = hi := by
  constructor
  · intro h
    obtain ⟨⟨before, rest⟩, hbefore, hslice⟩ := Option.bind_eq_some_iff.mp h
    obtain ⟨rfl, hlo⟩ := eq_append_of_cutAt? hbefore
    split at hslice
    · obtain ⟨⟨inside, after⟩, hinside, heq⟩ := Option.map_eq_some_iff.mp hslice
      obtain rfl : inside = s := heq
      obtain ⟨rfl, hhi⟩ := eq_append_of_cutAt? hinside
      exact ⟨before, after, by rw [List.append_assoc], hlo, by omega⟩
    · cases hslice
  · rintro ⟨before, after, rfl, rfl, rfl⟩
    have hbefore := cutAt?_append before (s ++ after)
    have hinside := cutAt?_append s after
    rw [slice?, List.append_assoc, hbefore, Option.bind_some, if_pos (Nat.le_add_right _ _),
      Nat.add_sub_cancel_left, hinside]
    rfl

theorem slice?_append (before s after : Text) :
    slice? (before ++ s ++ after) (byteSize before) (byteSize before + byteSize s) = some s :=
  slice?_eq_some_iff.mpr ⟨before, after, rfl, rfl, rfl⟩

/-! ## Bytes -/

/-- The bytes of the text in order, each as a character with the code of the byte. -/
def bytes (t : Text) : Text := (utf8 t).map fun b => Char.ofNat b.toNat

@[simp] theorem bytes_nil : bytes [] = [] := rfl

theorem bytes_append (s t : Text) : bytes (s ++ t) = bytes s ++ bytes t := by
  simp [bytes, utf8]

theorem bytes_cons (c : Char) (t : Text) : bytes (c :: t) = bytes [c] ++ bytes t :=
  bytes_append [c] t

theorem length_bytes (t : Text) : (bytes t).length = byteSize t := by
  induction t with
  | nil => rfl
  | cons c t ih =>
    rw [bytes_cons, List.length_append, ih, byteSize_cons]
    simp [bytes, utf8]

/-- The bytes of a text are read as the text. -/
theorem ofUtf8?_utf8 (t : Text) : ofUtf8? (utf8 t) = some t := by
  have hbytes : ⟨(utf8 t).toArray⟩ = (String.ofList t).toByteArray := by
    rw [String.toByteArray_ofList]
    exact ByteArray.ext List.data_toByteArray.symm
  rw [ofUtf8?, hbytes, String.fromUTF8?, dif_pos (String.ofList t).isValidUTF8]
  exact congrArg some String.toList_ofList

def IsAscii (c : Char) : Prop := c.toNat < 128

instance (c : Char) : Decidable (IsAscii c) := inferInstanceAs (Decidable (_ < _))

/-- All characters of a text are ASCII if a test of each says so. -/
theorem forall_isAscii {t : Text} (h : t.all (·.toNat < 128) = true) : ∀ c ∈ t, IsAscii c := by
  simpa [IsAscii] using h

theorem utf8Size_of_isAscii {c : Char} (h : IsAscii c) : c.utf8Size = 1 :=
  Char.utf8Size_eq_one_iff.mpr (UInt32.le_iff_toNat_le.mpr (Nat.le_of_lt_succ h))

theorem toNat_ofNat_of_lt {n : Nat} (h : n < 256) : (UInt8.ofNat n).toNat = n :=
  UInt8.toNat_ofNat_of_lt' h

/-- The byte of an ASCII character is its code. -/
theorem utf8EncodeChar_of_isAscii {c : Char} (h : IsAscii c) :
    String.utf8EncodeChar c = [UInt8.ofNat c.toNat] :=
  if_pos (Nat.le_of_lt_succ h)

/-- All bytes of a character beyond ASCII are. -/
theorem le_of_mem_utf8EncodeChar {c : Char} (h : ¬IsAscii c) :
    ∀ b ∈ String.utf8EncodeChar c, 128 ≤ b.toNat := by
  have hcode : ¬c.val.toNat ≤ 127 := fun hle => h (Nat.lt_succ_of_le hle)
  simp only [String.utf8EncodeChar, hcode, if_false]
  split_ifs
  all_goals
    simp only [List.forall_mem_cons, List.not_mem_nil, false_implies, implies_true, and_true]
    repeat' apply And.intro
  all_goals
    rw [toNat_ofNat_of_lt (by omega)]
    omega

theorem bytes_of_isAscii {c : Char} (h : IsAscii c) : bytes [c] = [c] := by
  have hcode : (UInt8.ofNat c.toNat).toNat = c.toNat :=
    toNat_ofNat_of_lt (Nat.lt_trans h (by decide))
  simp only [bytes, utf8, List.flatMap_cons, List.flatMap_nil, List.append_nil,
    utf8EncodeChar_of_isAscii h, List.map_cons, List.map_nil, hcode, Char.ofNat_toNat]

/-- No byte of a character beyond ASCII is ASCII. -/
theorem not_isAscii_of_mem_bytes {c d : Char} (h : ¬IsAscii c) (hd : d ∈ bytes [c]) :
    ¬IsAscii d := by
  obtain ⟨b, hb, rfl⟩ := List.mem_map.mp hd
  have hmem : b ∈ String.utf8EncodeChar c := by simpa [utf8] using hb
  have hlt := UInt8.toNat_lt b
  have hvalid : b.toNat.isValidChar := .inl (by omega)
  have hcode : (Char.ofNat b.toNat).toNat = b.toNat := by
    rw [Char.ofNat, dif_pos hvalid]
    rfl
  have hbound := le_of_mem_utf8EncodeChar h b hmem
  rw [IsAscii, hcode]
  omega

theorem bytes_cons_of_isAscii {c : Char} (h : IsAscii c) (t : Text) :
    bytes (c :: t) = c :: bytes t := by
  rw [bytes_cons, bytes_of_isAscii h]
  rfl

/-- A character is its own only byte, or neither it nor any of its bytes is ASCII. -/
theorem bytes_cons_cases (c : Char) (t : Text) :
    (IsAscii c ∧ bytes (c :: t) = c :: bytes t) ∨
      ¬IsAscii c ∧ ∃ b bs, bytes [c] = b :: bs ∧ ∀ d ∈ b :: bs, ¬IsAscii d := by
  by_cases hc : IsAscii c
  · exact .inl ⟨hc, bytes_cons_of_isAscii hc t⟩
  · right
    refine ⟨hc, ?_⟩
    obtain ⟨b, bs, hbytes⟩ : ∃ b bs, bytes [c] = b :: bs := by
      apply List.exists_cons_of_length_pos
      rw [length_bytes]
      exact Nat.lt_of_lt_of_le c.utf8Size_pos (Nat.le_add_right _ _)
    exact ⟨b, bs, hbytes, fun d hd => not_isAscii_of_mem_bytes hc (hbytes ▸ hd)⟩

theorem bytes_of_all_isAscii {t : Text} (h : ∀ c ∈ t, IsAscii c) : bytes t = t := by
  induction t with
  | nil => rfl
  | cons c t ih =>
    rw [bytes_cons_of_isAscii (h c List.mem_cons_self),
      ih fun d hd => h d (List.mem_cons_of_mem c hd)]

theorem toLower_of_not_isAscii {c : Char} (h : ¬IsAscii c) : c.toLower = c := by
  unfold Char.toLower
  refine dif_neg fun hupper => h ?_
  have hle : c.toNat ≤ 90 := UInt32.le_iff_toNat_le.mp hupper.2
  exact Nat.lt_of_le_of_lt hle (by decide)

theorem isAscii_of_isAlphanum {c : Char} (h : c.isAlphanum = true) : IsAscii c :=
  Nat.lt_of_le_of_lt (toNat_of_isAlphanum h).2 (by decide)

/-! ## Patterns -/

theorem isPrefixOf_bytes {p : Text} (hp : ∀ c ∈ p, IsAscii c) (t : Text) :
    p.isPrefixOf (bytes t) = p.isPrefixOf t := by
  induction p generalizing t with
  | nil => simp
  | cons a p ih =>
    cases t with
    | nil => rfl
    | cons c t =>
      rcases bytes_cons_cases c t with ⟨hc, hbytes⟩ | ⟨hc, b, bs, hbytes, hb⟩
      · rw [hbytes, List.isPrefixOf_cons_cons, List.isPrefixOf_cons_cons,
          ih fun d hd => hp d (List.mem_cons_of_mem a hd)]
      · have hne {d : Char} (hd : ¬IsAscii d) : (a == d) = false :=
          beq_false_of_ne fun heq => hd (heq ▸ hp a List.mem_cons_self)
        rw [bytes_cons, hbytes, List.cons_append, List.isPrefixOf_cons_cons,
          List.isPrefixOf_cons_cons, hne hc, hne (hb b List.mem_cons_self), Bool.false_and,
          Bool.false_and]

theorem prefix_bytes_iff {p t : Text} (hp : ∀ c ∈ p, IsAscii c) : p <+: bytes t ↔ p <+: t := by
  rw [← List.isPrefixOf_iff_prefix, ← List.isPrefixOf_iff_prefix, isPrefixOf_bytes hp]

theorem lowerAscii_take_bytes {p : Text} (hp : ∀ c ∈ p, IsAscii c) (t : Text) :
    lowerAscii ((bytes t).take p.length) = p ↔ lowerAscii (t.take p.length) = p := by
  induction p generalizing t with
  | nil => simp
  | cons a p ih =>
    cases t with
    | nil => rfl
    | cons c t =>
      rcases bytes_cons_cases c t with ⟨hc, hbytes⟩ | ⟨hc, b, bs, hbytes, hb⟩
      · have htail := ih (fun d hd => hp d (List.mem_cons_of_mem a hd)) t
        simpa [hbytes, lowerAscii] using fun _ => htail
      · have hne {d : Char} (hd : ¬IsAscii d) : d.toLower ≠ a := by
          rw [toLower_of_not_isAscii hd]
          rintro rfl
          exact hd (hp d List.mem_cons_self)
        simp [bytes_cons, hbytes, lowerAscii, hne hc, hne (hb b List.mem_cons_self)]

theorem breakOn_append_of_not_isAscii {a : Char} {p : Text} (bs t : Text) (ha : IsAscii a)
    (hbs : ∀ d ∈ bs, ¬IsAscii d) :
    breakOn (a :: p) (bs ++ t) = (breakOn (a :: p) t).map (Prod.map (bs ++ ·) id) := by
  induction bs with
  | nil =>
    rw [List.nil_append]
    cases breakOn (a :: p) t <;> rfl
  | cons d bs ih =>
    have hd : (a == d) = false :=
      beq_false_of_ne fun heq => hbs d List.mem_cons_self (heq ▸ ha)
    rw [List.cons_append, breakOn, List.isPrefixOf_cons_cons, hd, Bool.false_and,
      if_neg Bool.false_ne_true, ih fun e he => hbs e (List.mem_cons_of_mem d he), Option.map_map]
    rfl

theorem breakOn_bytes {a : Char} {p : Text} (hp : ∀ c ∈ a :: p, IsAscii c) (t : Text) :
    breakOn (a :: p) (bytes t) = (breakOn (a :: p) t).map (Prod.map bytes bytes) := by
  induction t with
  | nil => rfl
  | cons c t ih =>
    rcases bytes_cons_cases c t with ⟨hc, hbytes⟩ | ⟨hc, b, bs, hbytes, hb⟩
    · have hhere := isPrefixOf_bytes hp (c :: t)
      rw [hbytes] at hhere ⊢
      unfold breakOn
      rw [hhere]
      split
      · next hp' =>
        obtain ⟨rest, hrest⟩ := List.isPrefixOf_iff_prefix.mp hp'
        have hdrop : (c :: bytes t).drop (a :: p).length = bytes rest := by
          rw [← hbytes, ← hrest, bytes_append, bytes_of_all_isAscii hp, List.drop_left]
        rw [hdrop, ← hrest, List.drop_left]
        rfl
      · rw [ih, Option.map_map, Option.map_map]
        refine congrArg (Option.map · _) (funext fun q => ?_)
        exact Prod.ext (bytes_cons_of_isAscii hc q.1).symm rfl
    · have hskip : breakOn (a :: p) (c :: t) = (breakOn (a :: p) t).map (Prod.map (c :: ·) id) :=
        breakOn_append_of_not_isAscii [c] t (hp a List.mem_cons_self)
          fun d hd => List.mem_singleton.mp hd ▸ hc
      rw [bytes_cons, hbytes, breakOn_append_of_not_isAscii _ _ (hp a List.mem_cons_self) hb, ih,
        hskip, Option.map_map, Option.map_map]
      refine congrArg (Option.map · _) (funext fun q => Prod.ext ?_ rfl)
      exact (congrArg (· ++ bytes q.1) hbytes).symm.trans (bytes_cons c q.1).symm

end HtmlTemplate.Text
