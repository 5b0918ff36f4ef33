import HtmlTemplate.Json.Reader
import HtmlTemplate.Proofs.Instr.Nesting
import HtmlTemplate.Proofs.Text.Units

/-!
String literals of JavaScript in single quotes. `readLiteral?` reads one by the rules of that
language and gives its UTF-16 units. A quoted text is read as its units, whatever follows, so in a
function body a text of the template stays inside of its literals: the code around them does not
depend on it (`quote_literal`).
-/

namespace HtmlTemplate.JavaScript

open Text

/-! ## Reading literals -/

/-- Whether a line ends with the character. New editions of the language allow the last two in
literals. -/
def isLineEnd (c : Char) : Bool :=
  c == '\n' || c == '\r' || c.toNat == 0x2028 || c.toNat == 0x2029

/-- The units of a code point. A surrogate is a unit by itself. -/
def pointUnits (n : Nat) : List Nat := if n.isValidChar then charUnits (Char.ofNat n) else [n]

/-- The units of a code point in braces whose first digits are those of `n`. -/
def readPoint? (n : Nat) : Text → Option (List Nat × Text)
  | [] => none
  | c :: rest =>
    if c = '\x7d' then (if n ≤ 0x10FFFF then some (pointUnits n, rest) else none)
    else (Json.hexDigit? c).bind fun d => readPoint? (16 * n + d) rest

/-- Letters that stand for a control character behind a backslash. -/
def letterEscapes : List (Char × Nat) :=
  [('b', 0x08), ('t', 0x09), ('n', 0x0A), ('v', 0x0B), ('f', 0x0C), ('r', 0x0D)]

/-- The units of one character behind a backslash. The end of a line continues the literal on the
next line, and of the digits only a zero is an escape, if no digit follows. -/
def escapeUnits? (c : Char) (next : Option Char) : Option (List Nat) :=
  if isLineEnd c then some []
  else if c = 'x' then none
  else if c.isDigit then (if c = '0' ∧ next.all (!·.isDigit) then some [0] else none)
  else some ((letterEscapes.lookup c).elim (charUnits c) ([·]))

def readEscape? : Text → Option (List Nat × Text)
  | [] => none
  | 'x' :: high :: low :: rest =>
    (Json.hexDigit? high).bind fun high =>
      (Json.hexDigit? low).map fun low => ([16 * high + low], rest)
  | 'u' :: '\x7b' :: first :: rest => (Json.hexDigit? first).bind fun d => readPoint? d rest
  | 'u' :: rest => (Json.readHex4 rest).map fun (n, rest) => ([n], rest)
  | '\r' :: '\n' :: rest => some ([], rest)
  | c :: rest => (escapeUnits? c rest.head?).map (·, rest)

theorem length_readPoint?_lt {n : Nat} {t rest : Text} {us : List Nat}
    (h : readPoint? n t = some (us, rest)) : rest.length < t.length := by
  induction t generalizing n with
  | nil => cases h
  | cons c cs ih =>
    rw [readPoint?] at h
    split at h
    · split at h
      · obtain ⟨-, rfl⟩ := Prod.mk.inj (Option.some.inj h)
        exact Nat.lt_succ_self _
      · cases h
    · obtain ⟨d, -, hd⟩ := Option.bind_eq_some_iff.mp h
      exact Nat.lt_succ_of_lt (ih hd)

theorem length_readHex4_lt {t rest : Text} {n : Nat} (h : Json.readHex4 t = some (n, rest)) :
    rest.length < t.length := by
  unfold Json.readHex4 at h
  split at h
  · simp only [Option.bind_eq_bind, Option.bind_eq_some_iff] at h
    obtain ⟨_, -, _, -, _, -, _, -, heq⟩ := h
    obtain ⟨-, rfl⟩ := Prod.mk.inj (Option.some.inj heq)
    simp only [List.length_cons]
    omega
  · cases h

theorem length_readEscape?_lt {t rest : Text} {us : List Nat}
    (h : readEscape? t = some (us, rest)) : rest.length < t.length := by
  unfold readEscape? at h
  split at h
  · cases h
  · obtain ⟨_, -, hlow⟩ := Option.bind_eq_some_iff.mp h
    obtain ⟨_, -, heq⟩ := Option.map_eq_some_iff.mp hlow
    obtain ⟨-, rfl⟩ := Prod.mk.inj heq
    simp only [List.length_cons]
    omega
  · obtain ⟨_, -, hpoint⟩ := Option.bind_eq_some_iff.mp h
    have hlt := length_readPoint?_lt hpoint
    simp only [List.length_cons]
    omega
  · obtain ⟨⟨n, s⟩, hn, heq⟩ := Option.map_eq_some_iff.mp h
    obtain ⟨-, rfl⟩ := Prod.mk.inj heq
    exact Nat.lt_succ_of_lt (length_readHex4_lt hn)
  · obtain ⟨-, rfl⟩ := Prod.mk.inj (Option.some.inj h)
    exact Nat.lt_succ_of_lt (Nat.lt_succ_self _)
  · obtain ⟨_, -, heq⟩ := Option.map_eq_some_iff.mp h
    obtain ⟨-, rfl⟩ := Prod.mk.inj heq
    exact Nat.lt_succ_self _

/-- The units up to the quote that ends the literal, and what follows that quote. -/
def readUnits? : Text → Option (List Nat × Text)
  | [] => none
  | c :: cs =>
    if c = '\'' then some ([], cs)
    else if c = '\\' then
      match h : readEscape? cs with
      | none => none
      | some (us, rest) =>
        have := length_readEscape?_lt h
        (readUnits? rest).map (Prod.map (us ++ ·) id)
    else if isLineEnd c then none
    else (readUnits? cs).map (Prod.map (charUnits c ++ ·) id)
termination_by t => t.length
decreasing_by
  · exact Nat.lt_succ_of_lt this
  · exact Nat.lt_succ_self _

/-- The units of the literal with which a text begins, and what follows the literal. -/
def readLiteral? : Text → Option (List Nat × Text)
  | [] => none
  | c :: cs => if c = '\'' then readUnits? cs else none

theorem readUnits?_escape {t rest : Text} {us : List Nat} (h : readEscape? t = some (us, rest)) :
    readUnits? ('\\' :: t) = (readUnits? rest).map (Prod.map (us ++ ·) id) := by
  rw [readUnits?, if_neg (by decide), if_pos rfl]
  split
  · next hnone => rw [h] at hnone; cases hnone
  · next hsome =>
    obtain ⟨rfl, rfl⟩ := Prod.mk.inj (Option.some.inj (h.symm.trans hsome))
    rfl

example : readLiteral? "'\\v\\u\x7b1f600\x7d\\\n\\q\\'';".toList =
    some ([0x0B, 0xD83D, 0xDE00, 0x71, 0x27], [';']) := by
  cbv

/-! ## Quoted texts -/

def escapedChars : List Char :=
  ['\'', '\\', '\x08', '\x0c', '\n', '\r', '\t', '\u2028', '\u2029']

theorem toNat_ne_of_not_mem {c d : Char} (h : c ∉ escapedChars) (hd : d ∈ escapedChars) :
    c.toNat ≠ d.toNat := by
  rw [Ne, Char.toNat_inj]
  rintro rfl
  exact h hd

theorem escapeChar_of_not_mem {c : Char} (h : c ∉ escapedChars) : escapeChar c = [c] := by
  have hls : c.toNat ≠ 0x2028 := toNat_ne_of_not_mem h (d := '\u2028') (by decide)
  have hps : c.toNat ≠ 0x2029 := toNat_ne_of_not_mem h (d := '\u2029') (by decide)
  simp only [escapedChars, List.mem_cons, List.not_mem_nil, or_false, not_or] at h
  simp [escapeChar, h, hls, hps]

/-- A character that is not escaped is no quote, backslash or end of a line. -/
theorem plain_of_not_mem {c : Char} (h : c ∉ escapedChars) :
    c ≠ '\'' ∧ c ≠ '\\' ∧ isLineEnd c = false := by
  have hls : c.toNat ≠ 0x2028 := toNat_ne_of_not_mem h (d := '\u2028') (by decide)
  have hps : c.toNat ≠ 0x2029 := toNat_ne_of_not_mem h (d := '\u2029') (by decide)
  simp only [escapedChars, List.mem_cons, List.not_mem_nil, or_false, not_or] at h
  simp [isLineEnd, h, hls, hps]

theorem escapeChar_of_mem {c : Char} (h : c ∈ escapedChars) :
    ∃ e, escapeChar c = '\\' :: e ∧ ∀ t, readEscape? (e ++ t) = some (charUnits c, t) := by
  simp only [escapedChars, List.mem_cons, List.not_mem_nil, or_false] at h
  rcases h with rfl | rfl | rfl | rfl | rfl | rfl | rfl | rfl | rfl
  all_goals exact ⟨_, rfl, fun t => rfl⟩

/-- What stands for a character is read as its units, whatever follows. -/
theorem readUnits?_escapeChar_append (c : Char) (t : Text) :
    readUnits? (escapeChar c ++ t) = (readUnits? t).map (Prod.map (charUnits c ++ ·) id) := by
  by_cases hc : c ∈ escapedChars
  · obtain ⟨e, himage, hread⟩ := escapeChar_of_mem hc
    rw [himage]
    exact readUnits?_escape (hread t)
  · obtain ⟨hquote, hbackslash, hline⟩ := plain_of_not_mem hc
    rw [escapeChar_of_not_mem hc, List.singleton_append, readUnits?, if_neg hquote,
      if_neg hbackslash, if_neg (Bool.eq_false_iff.mp hline)]

theorem readUnits?_flatMap_append (t rest : Text) :
    readUnits? (t.flatMap escapeChar ++ '\'' :: rest) = some (units t, rest) := by
  induction t with
  | nil =>
    rw [List.flatMap_nil, List.nil_append, readUnits?, if_pos rfl]
    rfl
  | cons c cs ih =>
    rw [List.flatMap_cons, List.append_assoc, readUnits?_escapeChar_append, ih]
    rfl

theorem readLiteral?_quote_append (t rest : Text) :
    readLiteral? (quote t ++ rest) = some (units t, rest) := by
  rw [quote, List.cons_append, List.cons_append, List.append_assoc, readLiteral?, if_pos rfl,
    List.singleton_append, readUnits?_flatMap_append]

theorem quote_injective : Function.Injective quote := by
  intro s t h
  have hs := readLiteral?_quote_append s []
  rw [h, readLiteral?_quote_append t []] at hs
  exact (units_injective (Prod.mk.inj (Option.some.inj hs)).1).symm

/-- Every quote of the text is escaped, and what follows the text is not. A character is escaped
behind a backslash that is not. -/
def QuotesEscaped (escaped : Bool) : Text → Prop
  | [] => escaped = false
  | c :: cs => (c = '\'' → escaped = true) ∧ QuotesEscaped (!escaped && c == '\\') cs

theorem QuotesEscaped.append {escaped : Bool} {s t : Text} (hs : QuotesEscaped escaped s)
    (ht : QuotesEscaped false t) : QuotesEscaped escaped (s ++ t) := by
  induction s generalizing escaped with
  | nil =>
    cases hs
    exact ht
  | cons c cs ih => exact ⟨hs.1, ih hs.2⟩

theorem quotesEscaped_escapeChar (c : Char) : QuotesEscaped false (escapeChar c) := by
  by_cases hc : c ∈ escapedChars
  · simp only [escapedChars, List.mem_cons, List.not_mem_nil, or_false] at hc
    rcases hc with rfl | rfl | rfl | rfl | rfl | rfl | rfl | rfl | rfl <;>
      simp [QuotesEscaped, escapeChar]
  · obtain ⟨hquote, hbackslash, -⟩ := plain_of_not_mem hc
    simp [QuotesEscaped, escapeChar_of_not_mem hc, hquote, hbackslash]

theorem quotesEscaped_flatMap (t : Text) : QuotesEscaped false (t.flatMap escapeChar) := by
  induction t with
  | nil => rfl
  | cons c cs ih => exact (quotesEscaped_escapeChar c).append ih

theorem any_isLineEnd_escapeChar (c : Char) : (escapeChar c).any isLineEnd = false := by
  by_cases hc : c ∈ escapedChars
  · simp only [escapedChars, List.mem_cons, List.not_mem_nil, or_false] at hc
    rcases hc with rfl | rfl | rfl | rfl | rfl | rfl | rfl | rfl | rfl <;> rfl
  · simp [escapeChar_of_not_mem hc, plain_of_not_mem hc]

theorem any_isLineEnd_quote (t : Text) : (quote t).any isLineEnd = false := by
  have hquote : isLineEnd '\'' = false := by decide
  simp [quote, hquote, List.any_flatMap, any_isLineEnd_escapeChar]

/-! ## Literals in a function body -/

inductive Place
  | piece (before after : List Piece)
  | includeClose (data : Text)
  | includeInvoke (data : Text)
  | partialOpen
  | partialInvoke (data : Text)

namespace Place

def fill : Place → Text → Instr
  | piece before after, t => .append (before ++ .text t :: after)
  | includeClose data, t => .includeClose ⟨t, data⟩
  | includeInvoke data, t => .includeInvoke ⟨t, data⟩
  | partialOpen, t => .partialOpen t
  | partialInvoke data, t => .partialInvoke ⟨t, data⟩

end Place

/-- Code in which `none` stands for the literal of a text. -/
def codeWith (t : Text) (code : List (Option Text)) : Text := code.flatMap (·.getD (quote t))

/-- A function of a text that has the text in literals only, and in at least one. -/
def Quotes (f : Text → Text) : Prop := ∃ code, none ∈ code ∧ ∀ t, f t = codeWith t code

theorem codeWith_append (t : Text) (before after : List (Option Text)) :
    codeWith t (before ++ after) = codeWith t before ++ codeWith t after :=
  List.flatMap_append

theorem quotes_quote : Quotes quote :=
  ⟨[none], List.mem_singleton_self none, fun t => by simp [codeWith]⟩

section Quotes

variable {f g : Text → Text}

theorem Quotes.prepend (h : Quotes f) (before : Text) : Quotes fun t => before ++ f t := by
  obtain ⟨code, hnone, hf⟩ := h
  refine ⟨some before :: code, List.mem_cons_of_mem _ hnone, fun t => ?_⟩
  simp only [hf]
  rfl

theorem Quotes.concat (h : Quotes f) (after : Text) : Quotes fun t => f t ++ after := by
  obtain ⟨code, hnone, hf⟩ := h
  refine ⟨code ++ [some after], List.mem_append_left _ hnone, fun t => ?_⟩
  simp [hf, codeWith]

theorem Quotes.append (hf : Quotes f) (hg : Quotes g) : Quotes fun t => f t ++ g t := by
  obtain ⟨code, hnone, hf⟩ := hf
  obtain ⟨code', -, hg⟩ := hg
  refine ⟨code ++ code', List.mem_append_left _ hnone, fun t => ?_⟩
  simp only [hf, hg, codeWith_append]

theorem Quotes.congr (h : Quotes f) (heq : ∀ t, g t = f t) : Quotes g := by
  rwa [funext heq]

/-- A line that quotes the text, in front of lines that do not. -/
theorem Quotes.lines (h : Quotes f) (offset : Int) (rest : List Line) (level : Int) :
    Quotes fun t =>
      (⟨offset, f t⟩ :: rest).flatMap fun l => indented (level + l.offset) l.text := by
  simp only [List.flatMap_cons, indented]
  exact ((h.prepend _).concat _).concat _

end Quotes

/-- What stands around one of the joined texts does not depend on it. -/
theorem exists_join_eq (separator : Text) (before after : List Text) :
    ∃ b a, ∀ t, Text.join separator (before ++ t :: after) = b ++ t ++ a := by
  induction before with
  | nil =>
    cases after with
    | nil => exact ⟨[], [], fun t => by simp [Text.join]⟩
    | cons s after =>
      refine ⟨[], separator ++ Text.join separator (s :: after), fun t => ?_⟩
      simp [Text.join, List.intercalate_cons_cons]
  | cons s before ih =>
    obtain ⟨b, a, hjoin⟩ := ih
    refine ⟨s ++ separator ++ b, a, fun t => ?_⟩
    have hne : before ++ t :: after ≠ [] := by simp
    have hrest := hjoin t
    rw [Text.join] at hrest ⊢
    rw [List.cons_append, List.intercalate_cons_of_ne_nil hne, hrest]
    simp

theorem quotes_append (before after : List Piece) :
    Quotes fun t => "result += " ++ Text.join " + " ((before ++ .text t :: after).map piece) ++
      ";" := by
  obtain ⟨b, a, hjoin⟩ := exists_join_eq " + " (before.map piece) (after.map piece)
  have hpieces : Quotes fun t => Text.join " + " ((before ++ .text t :: after).map piece) := by
    refine ((quotes_quote.prepend b).concat a).congr fun t => ?_
    rw [List.map_append, List.map_cons]
    exact hjoin (quote t)
  exact (hpieces.prepend _).concat _

theorem quotes_includeCall (data partials : Text) :
    Quotes fun t => includeCall ⟨t, data⟩ partials := by
  have hcall := (quotes_quote.prepend ("result += runtime.render(" ++ Expr.scriptOfSource data ++
    ", " ++ partials ++ ", ")).concat ");"
  exact hcall

theorem quotes_lines (place : Place) (level : Int) :
    Quotes fun t => (lines (place.fill t)).flatMap fun l => indented (level + l.offset) l.text := by
  cases place with
  | piece before after => exact (quotes_append before after).lines 0 [] level
  | includeClose data => exact (quotes_includeCall data "outputPartials").lines _ _ level
  | includeInvoke data => exact (quotes_includeCall data "null").lines _ _ level
  | partialOpen =>
    have hopen := (quotes_quote.prepend "outputPartials[").concat "] = function (data) \x7b"
    exact hopen.lines _ _ level
  | partialInvoke data =>
    have htest := (quotes_quote.prepend "result += inputPartials && inputPartials[").concat
      "] ? inputPartials["
    have hcall := (((htest.append quotes_quote).concat "](").concat
      (Expr.scriptOfSource data)).concat ") : '';"
    exact hcall.lines _ _ level

/-- A text in its place is in literals only: the code around them does not depend on it. -/
theorem quotes_ofInstrs (before : List Instr) (place : Place) (after : List Instr) :
    Quotes fun t => ofInstrs (before ++ place.fill t :: after) := by
  have hindent (t : Text) : indentChange (place.fill t) = indentChange (place.fill []) := by
    cases place <;> rfl
  have hlines := ((quotes_lines place (0 + Instr.level before)).concat
    (body (0 + Instr.level before + indentChange (place.fill [])) after)).prepend (body 0 before)
  obtain ⟨code, hnone, hcode⟩ :=
    (hlines.prepend (prelude.flatMap (indented 0))).concat (indented 0 "return result;")
  refine ⟨code, hnone, fun t => ?_⟩
  rw [← hcode]
  simp only [ofInstrs, body_append, body, hindent t]

/-- A quoted text is one literal: it begins and ends with a quote, all quotes between are escaped,
no line ends in it, and it is read as the units of the text, whatever follows. So it tells the text,
and in a function body a text of the template is inside of its literals, each of which ends where it
is meant to. -/
theorem quote_literal :
    (∀ t, (∃ inside, quote t = '\'' :: inside ++ ['\''] ∧ QuotesEscaped false inside) ∧
        (quote t).any isLineEnd = false ∧
        ∀ rest, readLiteral? (quote t ++ rest) = some (units t, rest)) ∧
      Function.Injective quote ∧
      ∀ before (place : Place) after, ∃ code, none ∈ code ∧
        ∀ t, ofInstrs (before ++ place.fill t :: after) = codeWith t code ∧
          ∀ behind, readLiteral? (codeWith t (none :: behind)) =
            some (units t, codeWith t behind) := by
  refine ⟨fun t => ⟨⟨_, rfl, quotesEscaped_flatMap t⟩, any_isLineEnd_quote t,
    readLiteral?_quote_append t⟩, quote_injective, fun before place after => ?_⟩
  obtain ⟨code, hnone, hcode⟩ := quotes_ofInstrs before place after
  refine ⟨code, hnone, fun t => ⟨hcode t, fun behind => ?_⟩⟩
  exact readLiteral?_quote_append t (codeWith t behind)

end HtmlTemplate.JavaScript
