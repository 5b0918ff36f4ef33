import HtmlTemplate.Proofs.Markup.Chunks
import HtmlTemplate.Proofs.Markup.Scanning

/-!
Opening tags in their parts: the name as written, the inside and the end. The text of such a tag is
one token (`OpeningTag.lex_text`), and every opening tag of a template has these parts
(`exists_openingTag_of_mem_lex`).
-/

namespace HtmlTemplate
open Attribute

/-- The parts of an opening tag. They are told apart in its text, and its end is the first one. -/
structure OpeningTag where
  /-- The name as written. -/
  written : Text
  /-- What stands between the name and the end. -/
  inner : Text
  /-- Whether the end is `/>` and not `>`. -/
  closesItself : Bool
  letter : ∃ c ∈ written.head?, c.isAlpha = true
  named : ∀ c ∈ written, Token.isNameChar c = true
  next : ∀ c ∈ inner.head?, Token.isNameChar c = false
  slash : closesItself = false → inner.getLast? ≠ some '/'
  hides : HidesClose none inner

namespace OpeningTag
open Token

def ending (closesItself : Bool) : Text := if closesItself then "/>" else ">"

def text (g : OpeningTag) : Text := '<' :: g.written ++ g.inner ++ ending g.closesItself

def token (g : OpeningTag) (start : Nat) : Token :=
  ⟨.tagOpen, start, g.text, Text.lowerAscii g.written, split g.inner,
    g.closesItself || voidElements.contains (Text.lowerAscii g.written)⟩

def withInner (g : OpeningTag) (inner : Text) (closesItself : Bool)
    (blank : ∀ c ∈ inner.head?, c = ' ') (slash : closesItself = false → inner.getLast? ≠ some '/')
    (hides : HidesClose none inner) : OpeningTag where
  written := g.written
  inner := inner
  closesItself := closesItself
  letter := g.letter
  named := g.named
  next c hc := by
    rw [blank c hc]
    rfl
  slash := slash
  hides := hides

/-- A tag with the same end is standalone if and only if the tag is. -/
theorem standalone_token_withInner {g : OpeningTag} {inner : Text} {closesItself : Bool}
    (hcloses : closesItself = g.closesItself) (blank : ∀ c ∈ inner.head?, c = ' ')
    (slash : closesItself = false → inner.getLast? ≠ some '/') (hides : HidesClose none inner)
    (start : Nat) : ((g.withInner inner closesItself blank slash hides).token 0).standalone =
      (g.token start).standalone := by
  subst hcloses
  rfl

/-! ## The token of the text -/

theorem isSuffixOf_text (g : OpeningTag) : "/>".toList.isSuffixOf g.text = g.closesItself := by
  obtain ⟨written, inner, closesItself, -, named, -, slash, -⟩ := g
  cases closesItself with
  | true => exact List.isSuffixOf_iff_suffix.mpr (List.suffix_append _ _)
  | false =>
    rw [Bool.eq_false_iff]
    intro hsuffix
    obtain ⟨before, hbefore⟩ := List.isSuffixOf_iff_suffix.mp hsuffix
    have hslash : before ++ ['/'] = '<' :: written ++ inner := by
      refine List.append_cancel_right (?_ : _ ++ ['>'] = _ ++ ['>'])
      rw [List.append_assoc]
      exact hbefore
    have hlast : ('<' :: written ++ inner).getLast? = some '/' := by
      rw [← hslash, List.getLast?_concat]
    rw [List.getLast?_append] at hlast
    cases hinner : inner.getLast? with
    | some c =>
      rw [hinner, Option.some_or] at hlast
      exact slash rfl (hinner.trans hlast)
    | none =>
      rw [hinner, Option.none_or] at hlast
      rcases List.mem_cons.mp (List.mem_of_getLast? hlast) with heq | hmem
      · cases heq
      · cases named '/' hmem

theorem interior_text (g : OpeningTag) : Token.interior g.written g.text = g.inner := by
  have hdrop : g.text.drop (g.written.length + 1) = g.inner ++ ending g.closesItself := by
    rw [text, List.append_assoc]
    exact List.drop_left
  rw [Token.interior, g.isSuffixOf_text, hdrop]
  cases g.closesItself <;> simp [ending]

theorem takeWhile_text (g : OpeningTag) : (g.text.drop 1).takeWhile isNameChar = g.written := by
  have hend : ∀ c ∈ (g.inner ++ ending g.closesItself).head?, isNameChar c = false := by
    intro c hc
    rw [List.head?_append] at hc
    cases hinner : g.inner.head? with
    | some d =>
      rw [hinner] at hc
      exact g.next c (hinner ▸ hc)
    | none =>
      rw [hinner] at hc
      cases hcloses : g.closesItself <;> (rw [hcloses] at hc; cases hc; rfl)
  change (g.written ++ g.inner ++ _).takeWhile isNameChar = g.written
  rw [List.append_assoc, List.takeWhile_append_of_pos g.named]
  generalize g.inner ++ ending g.closesItself = rest at hend ⊢
  cases rest with
  | nil => exact List.append_nil g.written
  | cons c rest => rw [List.takeWhile_cons_of_neg (by simp [hend c rfl]), List.append_nil]

theorem ofMarkup_text (g : OpeningTag) (start : Nat) :
    ofMarkup .tagOpen start g.text = g.token start := by
  have hempty : g.written.isEmpty = false := by
    obtain ⟨c, hc, -⟩ := g.letter
    cases hwritten : g.written with
    | nil => simp [hwritten] at hc
    | cons d ds => rfl
  have hlast : g.text.getLast? = some '>' := by
    cases hcloses : g.closesItself <;>
      simp [text, hcloses, ending, List.getLast?_append, List.getLast?_cons]
  change ofTag .tagOpen start _ = _
  unfold ofTag
  simp only [reduceCtorEq, if_false, g.takeWhile_text, g.isSuffixOf_text, g.interior_text, hlast,
    hempty, Bool.false_eq_true, ne_eq, not_true, or_self, if_true]
  rfl

/-! ## The text as a template -/

theorem begins_text (g : OpeningTag) : Begins .tagOpen g.text := by
  obtain ⟨c, hc, halpha⟩ := g.letter
  obtain ⟨cs, hwritten⟩ := List.head?_eq_some_iff.mp hc
  exact ⟨c, halpha, cs ++ g.inner ++ ending g.closesItself, by simp [text, hwritten]⟩

theorem nextQuote_of_isNameChar {c : Char} (h : isNameChar c = true) : nextQuote none c = none := by
  have hquote : isQuote c = false := by
    cases hquote : isQuote c with
    | false => rfl
    | true =>
      rcases (by simpa [isQuote] using hquote : c = '"' ∨ c = '\'') with rfl | rfl <;> cases h
  simp [nextQuote, hquote]

theorem hidesClose_name_append {written inner : Text} (h : ∀ c ∈ written, isNameChar c = true) :
    HidesClose none ('<' :: written ++ inner) ↔ HidesClose none inner := by
  change _ ∧ HidesClose none (written ++ inner) ↔ _
  rw [and_iff_right (by decide)]
  induction written with
  | nil => rfl
  | cons c cs ih =>
    obtain ⟨hc, hcs⟩ := List.forall_mem_cons.mp h
    have hclose : c ≠ '>' := by
      rintro rfl
      cases hc
    rw [List.cons_append, HidesClose, nextQuote_of_isNameChar hc, ih hcs]
    exact and_iff_right fun heq => absurd heq hclose

/-- Whatever is open, the tag goes up to its end. -/
theorem cutAfterTag_ending (open? : Option Char) (closesItself : Bool) :
    cutAfterTag open? (ending closesItself) = (ending closesItself, []) := by
  have hlast (open? : Option Char) : cutAfterTag open? ['>'] = (['>'], []) := by
    unfold cutAfterTag
    split <;> rfl
  cases closesItself with
  | false => exact hlast open?
  | true =>
    change cutAfterTag open? ('/' :: ['>']) = _
    rw [cutAfterTag, if_neg (by simp), hlast]
    rfl

theorem cutAfterMarkup_text (g : OpeningTag) : cutAfterMarkup .tagOpen g.text = (g.text, []) := by
  have hides := (hidesClose_name_append g.named).mpr g.hides
  rw [cutAfterMarkup_eq_cutAfterTag (by decide) (head?_of_begins g.begins_text), text,
    cutAfterTag_append hides, cutAfterTag_ending]

/-- An opening tag is one token, for there is no raw text to follow it. -/
theorem lex_text (g : OpeningTag) : lex g.text = [g.token 0] := by
  have hraw (t : Token) : t.rawTextAfter [] = ([], []) := by
    unfold rawTextAfter
    split <;> rfl
  obtain ⟨cs, hcs⟩ := List.head?_eq_some_iff.mp (head?_of_begins g.begins_text)
  have hlex := lexFrom_of_markup?_some (hcs ▸ markup?_of_begins g.begins_text) 0
  simp only [← hcs, g.cutAfterMarkup_text, g.ofMarkup_text, hraw] at hlex
  rw [lex, hlex, lexFrom]
  rfl

end OpeningTag

namespace Token

/-! ## The opening tags of a template -/

theorem eq_ofMarkup_of_mem_lexFrom {start : Nat} {cs : Text} :
    ∀ t ∈ lexFrom start cs, t.kind = .tagOpen → t = ofMarkup .tagOpen t.start t.text := by
  induction start, cs using lexFrom_induction with
  | nil start => exact fun t ht => absurd ht List.not_mem_nil
  | text start c cs rest hmarkup ih => exact List.forall_mem_cons.mpr ⟨nofun, ih⟩
  | markup start c cs kind rest hmarkup cut token raw ih =>
    rw [List.cons_append, List.forall_mem_cons, List.forall_mem_append]
    refine ⟨fun hkind => ?_, ?_, ih⟩
    · change (ofMarkup kind start cut.1).kind = .tagOpen at hkind
      rw [ofMarkup_start, ofMarkup_text]
      rcases ofMarkup_cases kind start cut.1 with ⟨k, rfl | rfl, heq⟩ | ⟨-, _, _, _, heq, -⟩
      · rw [heq] at hkind
        obtain rfl : k = .tagOpen := hkind
        rfl
      · rw [heq] at hkind
        cases hkind
      · rw [heq] at hkind
        obtain rfl : kind = .tagOpen := hkind
        rfl
    · intro t ht
      unfold textToken at ht
      split at ht
      · exact absurd ht List.not_mem_nil
      · rw [List.mem_singleton.mp ht]
        nofun

/-- What follows the name of a tag that ends with its first `>` outside of quotes is its inside and
its end. -/
theorem exists_openingTag {text written inside : Text} (htext : text = '<' :: written ++ inside)
    (hletter : ∃ c ∈ written.head?, c.isAlpha = true) (hnamed : ∀ c ∈ written, isNameChar c = true)
    (hnext : ∀ c ∈ inside.head?, ¬isNameChar c = true) (hlast : text.getLast? = some '>')
    (hquoted : ∀ before after, text = before ++ '>' :: after → after ≠ [] →
      (openAfter before).isSome) :
    ∃ g : OpeningTag, text = g.text := by
  have hname : '>' ∉ '<' :: written := by
    intro hmem
    rcases List.mem_cons.mp hmem with heq | hmem
    · cases heq
    · cases hnamed '>' hmem
  obtain ⟨body, rfl⟩ := exists_eq_concat hname (htext ▸ hlast)
  have hides : HidesClose none body := by
    refine (OpeningTag.hidesClose_name_append hnamed).mp ?_
    refine hidesClose_of_forall fun before after hbefore => ?_
    refine hquoted before (after ++ ['>']) ?_ (by simp)
    rw [htext, ← List.append_assoc, hbefore, List.append_assoc]
    rfl
  have hhead {inner rest : Text} (hbody : body = inner ++ rest) :
      ∀ c ∈ inner.head?, isNameChar c = false := by
    intro c hc
    obtain ⟨cs, rfl⟩ := List.head?_eq_some_iff.mp hc
    simpa using hnext c (by rw [hbody]; rfl)
  by_cases hslash : body.getLast? = some '/'
  · obtain ⟨inner, rfl⟩ := List.getLast?_eq_some_iff.mp hslash
    have hinner := (hidesClose_append.mp hides).1
    refine ⟨⟨written, inner, true, hletter, hnamed, hhead rfl, nofun, hinner⟩, ?_⟩
    rw [htext, List.append_assoc inner, ← List.append_assoc]
    rfl
  · have hbody := hhead (List.append_nil body).symm
    refine ⟨⟨written, body, false, hletter, hnamed, hbody, fun _ => hslash, hides⟩, ?_⟩
    rw [htext, ← List.append_assoc]
    rfl

/-- What begins as an opening tag and ends with its first `>` outside of quotes is one. -/
theorem exists_openingTag_of_begins {text : Text} (hbegins : Begins .tagOpen text)
    (hlast : text.getLast? = some '>')
    (hquoted : ∀ before after, text = before ++ '>' :: after → after ≠ [] →
      (openAfter before).isSome) :
    ∃ g : OpeningTag, text = g.text := by
  obtain ⟨c, halpha, rest, rfl⟩ := hbegins
  have htext : ['<', c] ++ rest =
      '<' :: (c :: rest).takeWhile isNameChar ++ (c :: rest).dropWhile isNameChar := by
    show '<' :: c :: rest = '<' :: (_ ++ _)
    rw [List.takeWhile_append_dropWhile]
  have hname : isNameChar c = true := by simp [isNameChar, Char.isAlphanum, halpha]
  refine exists_openingTag htext ⟨c, ?_, halpha⟩ (List.all_eq_true.mp List.all_takeWhile) ?_ hlast
    hquoted
  · rw [List.takeWhile_cons_of_pos hname]
    rfl
  · simpa using Text.head?_dropWhile_not (p := isNameChar) (t := c :: rest)

/-- An opening tag of a template has the parts of one. -/
theorem exists_openingTag_of_mem_lex {source : Text} {t : Token} (ht : t ∈ lex source)
    (hkind : t.kind = .tagOpen) : ∃ g : OpeningTag, t = g.token t.start := by
  obtain ⟨before, after, hsource⟩ := List.append_of_mem ht
  have hclassified := classified_lex source before t after hsource
  simp only [IsClassified, hkind] at hclassified
  obtain ⟨hbegins, hends, hlast, -⟩ := hclassified
  obtain ⟨g, hg⟩ := exists_openingTag_of_begins hbegins hlast hends.quoted
  refine ⟨g, ?_⟩
  rw [← g.ofMarkup_text, ← hg]
  exact eq_ofMarkup_of_mem_lexFrom t ht hkind

end Token

end HtmlTemplate
