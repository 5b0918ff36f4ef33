import HtmlTemplate.Emission.Interpolation
import HtmlTemplate.Library.Standard
import HtmlTemplate.Render.Template

/-!
What an escaped interpolation writes. The handler `escape` works on texts and is the last one, so a
text is written with its special characters as entities, and so is what any other standard handler
made, for that is a text. Other values pass through unchanged. Of these only arrays write special
characters: those of the texts in them (`escaped_write_iff`).
-/

namespace HtmlTemplate

namespace Text

def entities : List Text := ["&#38;", "&#60;", "&#62;", "&#34;"].map String.toList

/-- Of the special characters only ampersands occur, and each starts an entity. -/
def Escaped : Text → Prop
  | [] => True
  | c :: cs => c ∉ ['<', '>', '"'] ∧ (c = '&' → ∃ e ∈ entities, e <+: c :: cs) ∧ Escaped cs

instance instDecidableEscaped : (t : Text) → Decidable (Escaped t)
  | [] => .isTrue trivial
  | _ :: cs =>
    have := instDecidableEscaped cs
    inferInstanceAs (Decidable (_ ∧ _ ∧ _))

def IsPlain (c : Char) : Prop := c ∉ ['&', '<', '>', '"']

instance (c : Char) : Decidable (IsPlain c) := inferInstanceAs (Decidable (_ ∉ _))

theorem isPlain_iff {c : Char} : IsPlain c ↔ c ≠ '&' ∧ c ≠ '<' ∧ c ≠ '>' ∧ c ≠ '"' := by
  simp only [IsPlain, List.mem_cons, List.not_mem_nil, or_false, not_or]

theorem not_isPlain_iff {c : Char} : ¬IsPlain c ↔ c = '&' ∨ c = '<' ∨ c = '>' ∨ c = '"' := by
  simp only [IsPlain, List.mem_cons, List.not_mem_nil, or_false, Decidable.not_not]

theorem isPlain_of_all {p : Char → Bool} (h : ['&', '<', '>', '"'].all (fun d => !p d) = true)
    {c : Char} (hc : p c) : IsPlain c := by
  intro hmem
  have hnot := List.all_eq_true.mp h c hmem
  simp [hc] at hnot

theorem escaped_cons {c : Char} (hc : IsPlain c) (cs : Text) : Escaped (c :: cs) ↔ Escaped cs := by
  have hmarkup : c ∉ ['<', '>', '"'] := fun hmem => hc (List.mem_cons_of_mem '&' hmem)
  constructor
  · rintro ⟨-, -, hcs⟩
    exact hcs
  · intro hcs
    exact ⟨hmarkup, fun heq => absurd heq (isPlain_iff.mp hc).1, hcs⟩

theorem escaped_of_plain {t : Text} (h : ∀ c ∈ t, IsPlain c) : Escaped t := by
  induction t with
  | nil => trivial
  | cons c cs ih =>
    rw [escaped_cons (h c List.mem_cons_self)]
    exact ih fun d hd => h d (List.mem_cons_of_mem c hd)

theorem Escaped.append {s t : Text} (hs : Escaped s) (ht : Escaped t) : Escaped (s ++ t) := by
  induction s with
  | nil => exact ht
  | cons c cs ih =>
    obtain ⟨hmarkup, hamp, hcs⟩ := hs
    refine ⟨hmarkup, fun heq => ?_, ih hcs⟩
    obtain ⟨e, he, hprefix⟩ := hamp heq
    exact ⟨e, he, hprefix.trans (List.prefix_append (c :: cs) t)⟩

theorem Escaped.of_append_right {s t : Text} (h : Escaped (s ++ t)) : Escaped t := by
  induction s with
  | nil => exact h
  | cons c cs ih => exact ih h.2.2

/-- A prefix without a certain character does not reach behind it. -/
theorem isPrefix_of_append_cons {e s t : Text} {c : Char} (hc : c ∉ e) (h : e <+: s ++ c :: t) :
    e <+: s := by
  have hsc : s ++ [c] <+: s ++ c :: t := by simp
  rcases List.prefix_or_prefix_of_prefix h hsc with hle | hle
  · rcases List.prefix_concat_iff.mp hle with rfl | hle
    · exact absurd (List.mem_append_right s List.mem_cons_self) hc
    · exact hle
  · exact absurd (hle.subset (List.mem_append_right s List.mem_cons_self)) hc

/-- No entity holds a comma, so none reaches behind one. -/
theorem Escaped.of_append_comma {s t : Text} (h : Escaped (s ++ ',' :: t)) : Escaped s := by
  have hcomma : ∀ e ∈ entities, ',' ∉ e := by decide
  induction s with
  | nil => trivial
  | cons c cs ih =>
    obtain ⟨hmarkup, hamp, hcs⟩ := h
    refine ⟨hmarkup, fun heq => ?_, ih hcs⟩
    obtain ⟨e, he, hprefix⟩ := hamp heq
    exact ⟨e, he, isPrefix_of_append_cons (hcomma e he) hprefix⟩

theorem escaped_append_comma (s t : Text) : Escaped (s ++ ',' :: t) ↔ Escaped s ∧ Escaped t := by
  have hcomma : Escaped (',' :: t) ↔ Escaped t := escaped_cons (by decide) t
  constructor
  · intro h
    exact ⟨h.of_append_comma, hcomma.mp h.of_append_right⟩
  · rintro ⟨hs, ht⟩
    exact hs.append (hcomma.mpr ht)

theorem escaped_join (ts : List Text) : Escaped (join "," ts) ↔ ∀ t ∈ ts, Escaped t := by
  induction ts with
  | nil => simp [join, Escaped]
  | cons t ts ih =>
    cases ts with
    | nil => simp [join]
    | cons u us =>
      have hjoin : join "," (t :: u :: us) = t ++ ',' :: join "," (u :: us) := by
        simp [join, List.intercalate_cons_cons]
      rw [hjoin, escaped_append_comma, ih, List.forall_mem_cons (l := u :: us)]

end Text

open Text

namespace Handlers

theorem escapeChar_of_isPlain {c : Char} (h : IsPlain c) : escapeChar c = [c] := by
  obtain ⟨hamp, hlt, hgt, hquote⟩ := isPlain_iff.mp h
  rw [escapeChar, if_neg hamp, if_neg hlt, if_neg hgt, if_neg hquote]

theorem escaped_escapeChar (c : Char) : Escaped (escapeChar c) := by
  by_cases hc : IsPlain c
  · rw [escapeChar_of_isPlain hc]
    exact escaped_of_plain (List.forall_mem_singleton.mpr hc)
  · rcases not_isPlain_iff.mp hc with rfl | rfl | rfl | rfl <;> decide

theorem escaped_escapeText (t : Text) : Escaped (escapeText t) := by
  induction t with
  | nil => trivial
  | cons c cs ih => exact (escaped_escapeChar c).append ih

end Handlers

/-! ## Values -/

namespace Number

def IsNumeral (c : Char) : Prop := c.isDigit ∨ c ∈ ['-', '.']

instance (c : Char) : Decidable (IsNumeral c) := inferInstanceAs (Decidable (_ ∨ _))

theorem IsNumeral.isPlain {c : Char} (h : IsNumeral c) : IsPlain c :=
  isPlain_of_all (p := fun d => decide (IsNumeral d)) (by decide) (decide_eq_true h)

theorem isNumeral_digits {n : Nat} {c : Char} (h : c ∈ Text.digits n) : IsNumeral c :=
  .inl (Nat.isDigit_of_mem_toDigits (by decide) (by decide) h)

theorem isNumeral_replicate {n : Nat} {c : Char} (h : c ∈ List.replicate n '0') : IsNumeral c := by
  rw [List.eq_of_mem_replicate h]
  exact .inl rfl

theorem isNumeral_positional {d : Binary64.Decimal} {c : Char} (h : c ∈ d.positional []) :
    IsNumeral c := by
  have hpoint : ∀ c ∈ ['.'], IsNumeral c := List.forall_mem_singleton.mpr (.inr (by decide))
  have hzero : ∀ c ∈ ['0', '.'], IsNumeral c := List.forall_mem_cons.mpr ⟨.inl rfl, hpoint⟩
  unfold Binary64.Decimal.positional at h
  simp only at h
  split at h
  · rw [List.append_nil] at h
    rcases List.mem_append.mp h with h | h
    · exact isNumeral_digits h
    · exact isNumeral_replicate h
  · split at h
    · rcases List.mem_append.mp h with h | h
      · rcases List.mem_append.mp h with h | h
        · exact isNumeral_digits (List.mem_of_mem_take h)
        · exact hpoint c h
      · exact isNumeral_digits (List.mem_of_mem_drop h)
    · rcases List.mem_append.mp h with h | h
      · rcases List.mem_append.mp h with h | h
        · exact hzero c h
        · exact isNumeral_replicate h
      · exact isNumeral_digits h

theorem isNumeral_outputText {n : Number} {c : Char} (h : c ∈ n.outputText) : IsNumeral c := by
  have hminus {t : Text} (ht : ∀ c ∈ t, IsNumeral c) : ∀ c ∈ '-' :: t, IsNumeral c :=
    List.forall_mem_cons.mpr ⟨.inr (by decide), ht⟩
  cases n with
  | int i =>
    change c ∈ intText i at h
    unfold intText at h
    split at h
    · exact hminus (fun _ => isNumeral_digits) c h
    · exact isNumeral_digits h
  | float x =>
    change c ∈ x.write outputLayout at h
    unfold Binary64.write outputLayout at h
    simp only at h
    split at h
    · exact hminus (fun _ => isNumeral_positional) c h
    · exact isNumeral_positional h

theorem escaped_outputText (n : Number) : Escaped n.outputText :=
  escaped_of_plain fun _ hc => (isNumeral_outputText hc).isPlain

end Number

namespace Value

mutual

/-- The texts that stand in the text of a value as they are. -/
def strings : Value → List Text
  | string s => [s]
  | array items => itemStrings items
  | _ => []

def itemStrings : List Value → List Text
  | [] => []
  | item :: items => strings item ++ itemStrings items

end

theorem escaped_text_of_atom {v : Value} (hstring : ∀ s, v ≠ string s)
    (harray : ∀ items, v ≠ array items) : Escaped v.text := by
  cases v with
  | null =>
    change Escaped ("null" : Text)
    decide
  | bool b =>
    cases b
    · change Escaped ("false" : Text)
      decide
    · change Escaped ("true" : Text)
      decide
  | number n => exact n.escaped_outputText
  | string s => exact absurd rfl (hstring s)
  | array items => exact absurd rfl (harray items)
  | object fields =>
    change Escaped ("[object Object]" : Text)
    decide

theorem itemTexts_cons {item : Value} (h : item ≠ null) (items : List Value) :
    itemTexts (item :: items) = item.text :: itemTexts items := by
  cases item with
  | null => exact absurd rfl h
  | bool | number | string | array | object => rfl

mutual

/-- The text of a value is escaped when those texts are that it holds as they are. -/
theorem escaped_text : (v : Value) → (Escaped v.text ↔ ∀ s ∈ v.strings, Escaped s)
  | string s => by
    change Escaped s ↔ ∀ t ∈ [s], Escaped t
    rw [List.forall_mem_singleton]
  | array items => by
    change Escaped (Text.join "," (itemTexts items)) ↔ ∀ s ∈ itemStrings items, Escaped s
    rw [escaped_join]
    exact escaped_itemTexts items
  | null | bool _ | number _ | object _ => by
    refine iff_of_true (escaped_text_of_atom nofun nofun) ?_
    intro s hs
    exact absurd hs List.not_mem_nil

theorem escaped_itemTexts : (items : List Value) →
    ((∀ t ∈ itemTexts items, Escaped t) ↔ ∀ s ∈ itemStrings items, Escaped s)
  | [] => by simp [itemTexts, itemStrings]
  | item :: items => by
    have hitem := escaped_text item
    have hitems := escaped_itemTexts items
    have hstrings : (∀ s ∈ itemStrings (item :: items), Escaped s) ↔
        (∀ s ∈ item.strings, Escaped s) ∧ ∀ s ∈ itemStrings items, Escaped s :=
      List.forall_mem_append
    rw [hstrings, ← hitem, ← hitems]
    by_cases hnull : item = null
    · -- An item that is `null` is blank.
      subst hnull
      change (∀ t ∈ [] :: itemTexts items, Escaped t) ↔ _
      rw [List.forall_mem_cons]
      exact and_congr_left fun _ => iff_of_true trivial (escaped_text_of_atom nofun nofun)
    · rw [itemTexts_cons hnull, List.forall_mem_cons]

end

end Value

/-! ## Handlers -/

namespace Handlers

/-- What `escape` makes of a value that is no array is written escaped. -/
theorem escaped_outputText_escape {v : Value} (h : ∀ items, v ≠ .array items) :
    Escaped (escape v).outputText := by
  cases v with
  | null => trivial
  | string s => exact escaped_escapeText s
  | array items => exact absurd rfl (h items)
  | bool | number | object => exact Value.escaped_text_of_atom nofun nofun

end Handlers

namespace Library

theorem handler?_escape : standard.handler? "escape" = some fun v _ => Handlers.escape v := rfl

/-- Every standard handler but `escape` gives a text. -/
theorem handler?_standard {name : Text} {h : Handler} (hname : standard.handler? name = some h) :
    (name = "escape" ∧ h = fun v _ => Handlers.escape v) ∨
      ∀ v arguments, ∃ s, h v arguments = .string s := by
  have hmem : (name, h) ∈ Handlers.all := by
    obtain ⟨before, after, hall, -⟩ := List.lookup_eq_some_iff.mp hname
    change Handlers.all = _ at hall
    rw [hall]
    exact List.mem_append_right before List.mem_cons_self
  obtain ⟨⟨n, f⟩, hentry, heq⟩ := List.mem_map.mp hmem
  obtain ⟨rfl, rfl⟩ := Prod.mk.inj heq
  simp only [List.mem_cons, Prod.mk.injEq, List.not_mem_nil, or_false] at hentry
  rcases hentry with ⟨rfl, rfl⟩ | ⟨-, rfl⟩ | ⟨-, rfl⟩ | ⟨-, rfl⟩ | ⟨-, rfl⟩ | ⟨-, rfl⟩ | ⟨-, rfl⟩ |
    ⟨-, rfl⟩
  · exact .inl ⟨rfl, rfl⟩
  all_goals exact .inr fun v _ => ⟨_, rfl⟩

/-- A value that is no text passes only through `escape`. -/
theorem applyHandlers_standard {names : List Text} {v w : Value}
    (h : standard.applyHandlers v names = .ok w) :
    (∃ s, w = .string s) ∨ w = v ∧ ∀ name ∈ names, name = "escape" := by
  induction names generalizing v with
  | nil =>
    obtain rfl : v = w := Except.ok.inj h
    exact .inr ⟨rfl, fun name hname => absurd hname List.not_mem_nil⟩
  | cons name names ih =>
    unfold applyHandlers at h
    cases hname : standard.handler? name with
    | none =>
      rw [hname] at h
      cases h
    | some f =>
      rw [hname] at h
      rcases ih h with hstring | ⟨rfl, hnames⟩
      · exact .inl hstring
      · rcases handler?_standard hname with ⟨rfl, rfl⟩ | htext
        · cases v with
          | string s => exact .inl ⟨_, rfl⟩
          | null | bool | number | array | object =>
            exact .inr ⟨rfl, List.forall_mem_cons.mpr ⟨rfl, hnames⟩⟩
        · exact .inl (htext v [])

theorem applyHandlers_escape {names : List Text} {items : List Value}
    (h : ∀ name ∈ names, name = "escape") :
    standard.applyHandlers (.array items) names = .ok (.array items) := by
  induction names with
  | nil => rfl
  | cons name names ih =>
    obtain ⟨rfl, hnames⟩ := List.forall_mem_cons.mp h
    rw [applyHandlers, handler?_escape]
    exact ih hnames

theorem applyHandlers_concat (l : Library) (v : Value) (names : List Text) (last : Text) :
    l.applyHandlers v (names ++ [last]) =
      (l.applyHandlers v names).bind fun u => l.applyHandlers u [last] := by
  induction names generalizing v with
  | nil => rfl
  | cons name names ih =>
    rw [List.cons_append, applyHandlers, applyHandlers]
    cases l.handler? name with
    | none => rfl
    | some f => exact ih (f v [])

theorem escaped_applyHandlers_iff {names : List Text} {v w : Value}
    (h : standard.applyHandlers v (names ++ ["escape".toList]) = .ok w) :
    Escaped w.outputText ↔ ∀ items, v = .array items → (∀ name ∈ names, name = "escape") →
      ∀ s ∈ (Value.array items).strings, Escaped s := by
  rw [applyHandlers_concat] at h
  cases hu : standard.applyHandlers v names with
  | error e =>
    rw [hu] at h
    cases h
  | ok u =>
    rw [hu] at h
    obtain rfl : Handlers.escape u = w := Except.ok.inj h
    by_cases harray : ∃ items, u = .array items
    · obtain ⟨items, rfl⟩ := harray
      obtain ⟨s, hs⟩ | ⟨rfl, hnames⟩ := applyHandlers_standard hu
      · cases hs
      · refine (Value.escaped_text (.array items)).trans ⟨fun hstrings => ?_, fun hstrings => ?_⟩
        · intro items' heq _
          obtain rfl := Value.array.inj heq
          exact hstrings
        · exact hstrings items rfl hnames
    · have hescaped : Escaped (Handlers.escape u).outputText :=
        Handlers.escaped_outputText_escape fun items heq => harray ⟨items, heq⟩
      refine iff_of_true hescaped fun items heq hnames => ?_
      rw [heq, applyHandlers_escape hnames] at hu
      exact absurd ⟨items, (Except.ok.inj hu).symm⟩ harray

end Library

namespace Part

variable {scope : Scope} {library : Library} {formula : Formula} {handlers : List Text}

theorem write_value_of_error {e : RenderError} (h : formula.eval scope library = .error e) :
    (value formula handlers).write scope library = .error e := by
  rw [write, h]
  rfl

theorem write_value_of_missing {v : Option Value} (h : formula.eval scope library = .ok v)
    (hv : v = none ∨ v = some .null) : (value formula handlers).write scope library = .ok [] := by
  rw [write, h]
  rcases hv with rfl | rfl <;> rfl

theorem write_value_of_some {v : Value} (h : formula.eval scope library = .ok (some v))
    (hv : v ≠ .null) : (value formula handlers).write scope library =
      (library.applyHandlers v handlers).map Value.outputText := by
  rw [write, h]
  cases v with
  | null => exact absurd rfl hv
  | bool | number | string | array | object => rfl

/-- What an escaped interpolation writes is escaped, unless its value is an array that reaches the
output as it is and holds a text that is not escaped. -/
theorem escaped_write_iff (content : Text) (scope : Scope) (t : Text)
    (h : (ofPiece (.value (.ofContent true content))).write scope .standard = .ok t) :
    Escaped t ↔ ∀ items,
      (Formula.ofSource (Variable.ofContent true content).expr).eval scope .standard =
        .ok (some (.array items)) →
      (∀ name ∈ (Variable.ofContent true content).handlers, name = "escape") →
      ∀ s ∈ (Value.array items).strings, Escaped s := by
  obtain ⟨names, hhandlers⟩ : ∃ names,
      (Variable.ofContent true content).handlers = names ++ ["escape".toList] := ⟨_, rfl⟩
  have hlast : (∀ name ∈ names ++ ["escape".toList], name = "escape") ↔
      ∀ name ∈ names, name = "escape" := by
    rw [List.forall_mem_append, List.forall_mem_singleton]
    exact and_iff_left rfl
  rw [ofPiece, hhandlers] at h
  rw [hhandlers, hlast]
  cases heval : (Formula.ofSource (Variable.ofContent true content).expr).eval scope .standard with
  | error e =>
    rw [write_value_of_error heval] at h
    cases h
  | ok v =>
    by_cases hv : v = none ∨ v = some .null
    · rw [write_value_of_missing heval hv] at h
      obtain rfl : [] = t := Except.ok.inj h
      refine iff_of_true trivial fun items heq => ?_
      rcases hv with rfl | rfl <;> cases heq
    · cases v with
      | none => exact absurd (.inl rfl) hv
      | some v =>
        rw [write_value_of_some heval fun hnull => hv (.inr (congrArg some hnull))] at h
        cases hw : Library.standard.applyHandlers v (names ++ ["escape".toList]) with
        | error e =>
          rw [hw] at h
          cases h
        | ok w =>
          rw [hw] at h
          obtain rfl : w.outputText = t := Except.ok.inj h
          refine (Library.escaped_applyHandlers_iff hw).trans ?_
          refine forall_congr' fun items => imp_congr_left ?_
          rw [Except.ok.injEq, Option.some.injEq]

/-- An array with an array in it. -/
theorem escaped_write_iff_nested :
    let items : List Value := [.string "&#38;".toList, .array [.null, .bool true]]
    let scope := Scope.ofRoot (.object [("x".toList, .array items)])
    (ofPiece (.value (.ofContent true "x"))).write scope .standard = .ok "&#38;,,true".toList ∧
      Escaped "&#38;,,true" := by
  intro items scope
  have hwrite : (ofPiece (.value (.ofContent true "x"))).write scope .standard =
      .ok "&#38;,,true".toList := by rfl
  have heval : (Formula.ofSource (Variable.ofContent true "x").expr).eval scope .standard =
      .ok (some (.array items)) := by rfl
  refine ⟨hwrite, (escaped_write_iff _ _ _ hwrite).mpr ?_⟩
  intro items' heq _
  rw [heval] at heq
  obtain rfl : items = items' := Value.array.inj (Option.some.inj (Except.ok.inj heq))
  decide

/-- A text in an array is written as it is. -/
theorem not_escaped_write :
    let scope := Scope.ofRoot (.object [("x".toList, .array [.string "<b>".toList])])
    (ofPiece (.value (.ofContent true "x"))).write scope .standard = .ok "<b>".toList ∧
      ¬ Escaped "<b>" := by
  intro scope
  exact ⟨rfl, by decide⟩

end Part

end HtmlTemplate
