import HtmlTemplate.Proofs.Markup.RespacedTags

/-!
Templates that differ in their blanks. Markup begins at the same places in them
(`Respaced.markup?_eq`) and the raw text of an element ends at the same closing tag, so they are
lexed into the same tokens but for the blanks and for text tokens that are nothing else
(`respaced_lexFrom`). Cleaning a template without comments changes nothing but blanks, so it leaves
the markup as it is (`respaced_lex_clean`).
-/

namespace HtmlTemplate
open Text

namespace Token

/-- A text token without a character that is not blank. -/
def isBlankText (t : Token) : Bool := t.kind == .text && t.text.all isBlank

structure Respaced (t u : Token) : Prop where
  kind : t.kind = u.kind
  name : t.name = u.name
  standalone : t.standalone = u.standalone
  text : t.text.inked = u.text.inked
  attributes : List.Forall₂ Attribute.Respaced t.attributes u.attributes

/-- Cuts the text before the first place where `p` holds of the rest. -/
def cutBefore (p : Text → Bool) : Text → Text × Text
  | [] => ([], [])
  | c :: cs => if p (c :: cs) then ([], c :: cs) else (c :: (cutBefore p cs).1, (cutBefore p cs).2)

theorem cutBeforeMarkup_eq (cs : Text) :
    cutBeforeMarkup cs = cutBefore (fun cs => (markup? cs).isSome) cs := by
  induction cs with
  | nil => rfl
  | cons c cs ih => rw [cutBeforeMarkup, cutBefore, ih]

theorem cutBeforeClosing_eq (name cs : Text) : cutBeforeClosing name cs =
    cutBefore (fun cs => decide (lowerAscii (cs.take (name.length + 2)) = "</" ++ name)) cs := by
  induction cs with
  | nil => rfl
  | cons c cs ih =>
    rw [cutBeforeClosing, cutBefore, ih]
    simp only [decide_eq_true_eq]

end Token

open Token

namespace Text.Respaced

variable {last : Option Char} {t t' : Text}

/-! ## Cuts before markup -/

theorem begins_iff {c : Char} (h : Respaced (some c) t t') (kind : TokenKind) :
    Begins kind (c :: t) ↔ Begins kind (c :: t') := by
  have hletter {c : Char} (hc : c.isAlpha = true) : isBlank c = false ∧ c ≠ '<' :=
    OpeningTag.plain_of_isNameChar (by simp [isNameChar, Char.isAlphanum, hc])
  cases kind with
  | text => rfl
  | comment =>
    exact List.cons_prefix_cons.trans
      ((and_congr_right' (h.prefix_iff (by decide))).trans List.cons_prefix_cons.symm)
  | doctype =>
    exact List.cons_prefix_cons.trans
      ((and_congr_right' (h.lowerAscii.prefix_iff (by decide))).trans List.cons_prefix_cons.symm)
  | tagOpen =>
    refine exists_congr fun d => and_congr_right fun hd => ?_
    rw [List.cons_prefix_cons, List.cons_prefix_cons,
      h.prefix_iff (List.forall_mem_singleton.mpr (hletter hd))]
  | tagClose =>
    refine exists_congr fun d => and_congr_right fun hd => ?_
    rw [List.cons_prefix_cons, List.cons_prefix_cons,
      h.prefix_iff (List.forall_mem_cons.mpr
        ⟨by decide, List.forall_mem_singleton.mpr (hletter hd)⟩)]

theorem markup?_eq {c : Char} (h : Respaced (some c) t t') :
    markup? (c :: t) = markup? (c :: t') := by
  apply Option.ext
  intro kind
  rw [markup?_eq_some_iff, markup?_eq_some_iff, h.begins_iff]

/-- A condition on the rest of the text that fails before a blank and does not depend on the blanks
after the first character. -/
structure Sees (p : Text → Bool) : Prop where
  blank : ∀ c cs, isBlank c = true → p (c :: cs) = false
  ink : ∀ c cs cs', Respaced (some c) cs cs' → p (c :: cs) = p (c :: cs')

theorem Sees.cutBefore_gap_append {p : Text → Bool} (hp : Sees p) {gap : Text} (isGap : IsGap gap)
    (rest : Text) : Token.cutBefore p (gap ++ rest) =
      (gap ++ (Token.cutBefore p rest).1, (Token.cutBefore p rest).2) := by
  induction gap with
  | nil => rfl
  | cons c gap ih =>
    obtain ⟨hc, hgap⟩ := List.forall_mem_cons.mp isGap
    rw [List.cons_append, Token.cutBefore, if_neg (by simp [hp.blank c _ hc]), ih hgap]
    rfl

/-- The texts are cut before the same character. -/
theorem cutBefore {p : Text → Bool} (hp : Sees p) (h : Respaced last t t') :
    inked (Token.cutBefore p t).1 = inked (Token.cutBefore p t').1 ∧
      ((Token.cutBefore p t).2 = [] ∧ (Token.cutBefore p t').2 = [] ∨
        ∃ c u u', (Token.cutBefore p t).2 = c :: u ∧ (Token.cutBefore p t').2 = c :: u' ∧
          isBlank c = false ∧ Respaced (some c) u u') := by
  induction h with
  | gap isGap isGap' =>
    have hcut {gap : Text} (isGap : IsGap gap) : Token.cutBefore p gap = (gap, []) := by
      have happend := hp.cutBefore_gap_append isGap []
      rwa [List.append_nil, Token.cutBefore, List.append_nil] at happend
    rw [hcut isGap, hcut isGap']
    exact ⟨by rw [isGap.inked_eq, isGap'.inked_eq], .inl ⟨rfl, rfl⟩⟩
  | @ink last c gap gap' u u' isGap isGap' _ inked rest ih =>
    rw [hp.cutBefore_gap_append isGap, hp.cutBefore_gap_append isGap', Token.cutBefore,
      Token.cutBefore, hp.ink c u u' rest]
    split
    · rw [List.append_nil, List.append_nil, isGap.inked_eq, isGap'.inked_eq]
      exact ⟨rfl, .inr ⟨c, u, u', rfl, rfl, inked, rest⟩⟩
    · refine ⟨?_, ih.2⟩
      rw [isGap.inked_append_cons inked, isGap'.inked_append_cons inked, ih.1]

theorem sees_markup? : Sees fun cs => (markup? cs).isSome where
  blank c cs hc := by
    rw [Bool.eq_false_iff]
    intro hmarkup
    rw [Option.some.inj (head?_of_markup? hmarkup)] at hc
    cases hc
  ink c cs cs' h := by rw [h.markup?_eq]

theorem sees_closing {name : Text} (hname : IsWord name) :
    Sees fun cs => decide (Text.lowerAscii (cs.take (name.length + 2)) = "</" ++ name) where
  blank c cs hc := by
    rw [decide_eq_false_iff_not]
    intro hclosing
    rw [Option.some.inj (head?_of_lowerAscii_take hclosing)] at hc
    cases hc
  ink c cs cs' h := by
    have hrest : IsWord ('/' :: name) :=
      List.forall_mem_cons.mpr ⟨by decide, hname⟩
    have hclosing (cs : Text) :
        Text.lowerAscii ((c :: cs).take (name.length + 2)) = "</" ++ name ↔
          '<' = c.toLower ∧ '/' :: name <+: Text.lowerAscii cs := by
      rw [← List.cons_prefix_cons]
      exact lowerAscii_take_eq_iff (p := '<' :: '/' :: name)
    rw [decide_eq_decide, hclosing, hclosing, h.lowerAscii.prefix_iff hrest]

/-- The raw text after a token ends before the same closing tag. -/
theorem rawTextAfter {u u' : Token} (hopens : u.opensRawText = u'.opensRawText)
    (hname : u.name = u'.name) (h : Respaced last t t') :
    inked (u.rawTextAfter t).1 = inked (u'.rawTextAfter t').1 ∧
      ∃ last, Respaced last (u.rawTextAfter t).2 (u'.rawTextAfter t').2 := by
  have hplain : ∀ name ∈ rawTextElements, IsWord name := by decide
  unfold Token.rawTextAfter
  rw [← hopens, ← hname]
  split
  · next hraw =>
    rw [cutBeforeClosing_eq, cutBeforeClosing_eq]
    obtain ⟨hrun, hrest⟩ := h.cutBefore (sees_closing (hplain _ (name_of_opensRawText hraw)))
    refine ⟨hrun, ?_⟩
    rcases hrest with ⟨hnil, hnil'⟩ | ⟨c, v, v', hcons, hcons', hc, hv⟩
    · rw [hnil, hnil']
      exact ⟨none, nil⟩
    · rw [hcons, hcons']
      exact ⟨none, cons hc hv⟩
  · exact ⟨rfl, last, h⟩

end Text.Respaced

namespace Token

/-! ## Tokens -/

theorem all_isBlank_eq (text : Text) : text.all isBlank = decide (text.inked = []) := by
  rw [Bool.eq_iff_iff, List.all_eq_true, decide_eq_true_eq]
  exact isGap_iff_inked

theorem Respaced.isBlankText_eq {t u : Token} (h : t.Respaced u) :
    t.isBlankText = u.isBlankText := by
  rw [isBlankText, isBlankText, all_isBlank_eq, all_isBlank_eq, h.kind, h.text]

theorem Respaced.opensRawText_eq {t u : Token} (h : t.Respaced u) :
    t.opensRawText = u.opensRawText := by
  rw [opensRawText, opensRawText, h.kind, h.standalone, h.name]

theorem respaced_plain (kind : TokenKind) (start start' : Nat) {text text' : Text}
    (h : text.inked = text'.inked) : (plain kind start text).Respaced (plain kind start' text') :=
  ⟨rfl, rfl, rfl, h, .nil⟩

theorem respaced_filter {ts us : List Token} (h : List.Forall₂ Respaced ts us) :
    List.Forall₂ Respaced (ts.filter (!·.isBlankText)) (us.filter (!·.isBlankText)) :=
  List.rel_filter (fun _ _ hhead => by simp only [hhead.isBlankText_eq]) h

theorem respaced_filter_append {ts us ts' us' : List Token}
    (h : List.Forall₂ Respaced (ts.filter (!·.isBlankText)) (us.filter (!·.isBlankText)))
    (h' : List.Forall₂ Respaced (ts'.filter (!·.isBlankText)) (us'.filter (!·.isBlankText))) :
    List.Forall₂ Respaced ((ts ++ ts').filter (!·.isBlankText))
      ((us ++ us').filter (!·.isBlankText)) := by
  rw [List.filter_append, List.filter_append]
  exact List.rel_append h h'

theorem filter_textToken (start : Nat) (text : Text) :
    (textToken start text).filter (!·.isBlankText) =
      if text.inked = [] then [] else [plain .text start text] := by
  cases text with
  | nil => rfl
  | cons c text =>
    have hblank : (plain .text start (c :: text)).isBlankText = decide (inked (c :: text) = []) :=
      all_isBlank_eq (c :: text)
    rw [textToken, if_neg (by simp), List.filter_singleton, hblank]
    split <;> simp_all

theorem respaced_textToken (start start' : Nat) {text text' : Text}
    (h : text.inked = text'.inked) :
    List.Forall₂ Respaced ((textToken start text).filter (!·.isBlankText))
      ((textToken start' text').filter (!·.isBlankText)) := by
  rw [filter_textToken, filter_textToken, ← h]
  split
  · exact .nil
  · exact .cons (respaced_plain .text start start' h) .nil

/-- An opening tag stays one, and one without an end stays text. -/
theorem respaced_ofMarkup_tagOpen {tag tag' : Text} (h : Text.Respaced (some '<') tag tag')
    (hbegins : Begins .tagOpen ('<' :: tag))
    (hquoted : ∀ before after, '<' :: tag = before ++ '>' :: after → after ≠ [] →
      (openAfter before).isSome) (start start' : Nat) :
    (ofMarkup .tagOpen start ('<' :: tag)).Respaced (ofMarkup .tagOpen start' ('<' :: tag')) := by
  have htext : Text.Respaced none ('<' :: tag) ('<' :: tag') := .cons rfl h
  have hends := htext.getLast?_iff (d := '>') rfl (by decide)
  by_cases hlast : ('<' :: tag).getLast? = some '>'
  · obtain ⟨g, hg⟩ := exists_openingTag_of_begins hbegins hlast hquoted
    obtain ⟨g', hg', hwritten, hcloses, last, hinner⟩ := OpeningTag.exists_respaced hg.symm h
    rw [hg, ← hg'] at htext ⊢
    rw [g.ofMarkup_text, g'.ofMarkup_text]
    refine ⟨rfl, ?_, ?_, htext.inked_eq, hinner.split g.hides⟩
    · rw [OpeningTag.token, OpeningTag.token, hwritten]
    · rw [OpeningTag.token, OpeningTag.token, hwritten, hcloses]
  · have hplain (start : Nat) {text : Text} (hlast : text.getLast? ≠ some '>') :
        ofMarkup .tagOpen start text = plain .text start text := by
      change ofTag .tagOpen start text = _
      exact if_pos (Or.inr hlast)
    rw [hplain start hlast, hplain start' (mt hends.mpr hlast)]
    exact respaced_plain .text start start' htext.inked_eq

/-- A closing tag is told by its name and its end. -/
theorem respaced_ofMarkup_tagClose {tag tag' : Text} (h : Text.Respaced (some '<') tag tag')
    (hbegins : Begins .tagClose ('<' :: tag)) (start start' : Nat) :
    (ofMarkup .tagClose start ('<' :: tag)).Respaced (ofMarkup .tagClose start' ('<' :: tag')) := by
  obtain ⟨c, halpha, rest, hrest⟩ := hbegins
  obtain rfl : '/' :: c :: rest = tag := (List.cons.inj hrest).2
  obtain ⟨rest', rfl, hname⟩ := h.exists_of_word_append (w := ['/']) (by decide)
  have htext : Text.Respaced none ('<' :: '/' :: c :: rest) ('<' :: '/' :: rest') :=
    .cons rfl h
  have hwritten : rest'.takeWhile isNameChar = (c :: rest).takeWhile isNameChar :=
    hname.takeWhile_eq fun _ => OpeningTag.plain_of_isNameChar
  have hlast := htext.getLast?_iff (d := '>') rfl (by decide)
  have hmarkup (start : Nat) (u : Text) : ofMarkup .tagClose start ('<' :: '/' :: u) =
      if (u.takeWhile isNameChar).isEmpty ∨ ('<' :: '/' :: u).getLast? ≠ some '>' then
        plain .text start ('<' :: '/' :: u)
      else ⟨.tagClose, start, '<' :: '/' :: u, lowerAscii (u.takeWhile isNameChar), [], false⟩ :=
  rfl
  rw [List.singleton_append, hmarkup, hmarkup, hwritten]
  simp only [ne_eq, hlast]
  split
  · exact respaced_plain .text start start' htext.inked_eq
  · exact ⟨rfl, rfl, rfl, htext.inked_eq, .nil⟩

/-- Markup other than a comment becomes the same token and ends at the same place. -/
theorem respaced_ofMarkup {kind : TokenKind} {c : Char} {t t' : Text} (hkind : kind ≠ .comment)
    (hbegins : Begins kind (c :: t)) (h : Text.Respaced (some c) t t') (start start' : Nat) :
    (ofMarkup kind start (cutAfterMarkup kind (c :: t)).1).Respaced
        (ofMarkup kind start' (cutAfterMarkup kind (c :: t')).1) ∧
      Text.Respaced (some '>') (cutAfterMarkup kind (c :: t)).2
        (cutAfterMarkup kind (c :: t')).2 := by
  obtain rfl : c = '<' := Option.some.inj (head?_of_begins hbegins)
  have hcut (t : Text) : cutAfterMarkup kind ('<' :: t) =
      ('<' :: (cutAfterTag none t).1, (cutAfterTag none t).2) :=
    cutAfterMarkup_eq_cutAfterTag hkind rfl
  have hopen : ∀ q ∈ (none : Option Char), Attribute.isQuote q = true := by simp
  obtain ⟨htag, hrest⟩ := h.cutAfterTag hopen
  have htagBegins : Begins kind ('<' :: (cutAfterTag none t).1) := begins_cutAfterTag hkind hbegins
  rw [hcut, hcut]
  refine ⟨?_, hrest⟩
  cases kind with
  | text => exact hbegins.elim
  | comment => exact absurd rfl hkind
  | doctype =>
    have htext : Text.Respaced none _ _ := .cons (c := '<') rfl htag
    exact respaced_plain .doctype start start' htext.inked_eq
  | tagOpen =>
    have hends := endsAtClose_cutAfterTag ('<' :: t)
    exact respaced_ofMarkup_tagOpen htag htagBegins hends.quoted start start'
  | tagClose => exact respaced_ofMarkup_tagClose htag htagBegins start start'

/-! ## Templates -/

/-- Markup with the raw text after it becomes the same tokens, and what follows them differs in its
blanks only. -/
theorem respaced_markup {kind : TokenKind} {c : Char} {t t' : Text} (hkind : kind ≠ .comment)
    (hbegins : Begins kind (c :: t)) (h : Text.Respaced (some c) t t') (start start' : Nat) :
    let cut := cutAfterMarkup kind (c :: t)
    let cut' := cutAfterMarkup kind (c :: t')
    let token := ofMarkup kind start cut.1
    let token' := ofMarkup kind start' cut'.1
    let raw := token.rawTextAfter cut.2
    let raw' := token'.rawTextAfter cut'.2
    List.Forall₂ Respaced ((token :: textToken token.stop raw.1).filter (!·.isBlankText))
        ((token' :: textToken token'.stop raw'.1).filter (!·.isBlankText)) ∧
      ∃ last, Text.Respaced last raw.2 raw'.2 := by
  intro cut cut' token token' raw raw'
  obtain ⟨htoken, hafter⟩ := respaced_ofMarkup hkind hbegins h start start'
  obtain ⟨hraw, hrest⟩ := hafter.rawTextAfter htoken.opensRawText_eq htoken.name
  refine ⟨?_, hrest⟩
  have hhead : List.Forall₂ Respaced [token] [token'] := .cons htoken .nil
  exact respaced_filter_append (respaced_filter hhead) (respaced_textToken _ _ hraw)

/-- What follows markup and the raw text after it is a shorter part of the template. -/
theorem suffix_rawTextAfter (t : Token) (kind : TokenKind) (c : Char) (cs : Text) :
    (t.rawTextAfter (cutAfterMarkup kind (c :: cs)).2).2 <:+ c :: cs ∧
      (t.rawTextAfter (cutAfterMarkup kind (c :: cs)).2).2.length < (c :: cs).length := by
  have hcut : (cutAfterMarkup kind (c :: cs)).2 <:+ c :: cs := ⟨_, append_cutAfterMarkup kind _⟩
  have hraw : (t.rawTextAfter (cutAfterMarkup kind (c :: cs)).2).2 <:+
      (cutAfterMarkup kind (c :: cs)).2 := ⟨_, append_rawTextAfter t _⟩
  exact ⟨hraw.trans hcut, Nat.lt_of_le_of_lt hraw.length_le (length_cutAfterMarkup_lt kind c cs)⟩

/-- The induction is along the tokens of the first text, which are markup after a run of text. -/
theorem respaced_lexFrom {last : Option Char} {cs cs' : Text} (h : Text.Respaced last cs cs')
    (hcomment : ¬cs.HasComment) (start start' : Nat) :
    List.Forall₂ Respaced ((lexFrom start cs).filter (!·.isBlankText))
      ((lexFrom start' cs').filter (!·.isBlankText)) := by
  induction hn : cs.length using Nat.strongRecOn generalizing last cs cs' start start' with
  | ind n ih =>
    have hcut := h.cutBefore Text.Respaced.sees_markup?
    rw [← cutBeforeMarkup_eq, ← cutBeforeMarkup_eq] at hcut
    obtain ⟨hrun, hrest⟩ := hcut
    rw [lexFrom_eq_textToken_append start cs, lexFrom_eq_textToken_append start' cs']
    refine respaced_filter_append (respaced_textToken start start' hrun) ?_
    rcases hrest with ⟨hnil, hnil'⟩ | ⟨c, u, u', hcons, hcons', -, hu⟩
    · rw [hnil, hnil', lexFrom, lexFrom]
      exact .nil
    · have hmarkup := markup?_cutBeforeMarkup cs
      have hsuffix : c :: u <:+ cs := ⟨_, hcons ▸ append_cutBeforeMarkup cs⟩
      rw [hcons] at hmarkup
      obtain ⟨kind, hkind⟩ :=
        Option.isSome_iff_exists.mp (hmarkup.resolve_left (List.cons_ne_nil c u))
      have hbegins := begins_of_markup? hkind
      have hne : kind ≠ .comment := by
        rintro rfl
        exact hcomment (hbegins.isInfix.trans hsuffix.isInfix)
      rw [hcons, hcons', lexFrom_of_markup?_some hkind,
        lexFrom_of_markup?_some (hu.markup?_eq ▸ hkind)]
      obtain ⟨hmarkup, last, hafter⟩ := respaced_markup hne hbegins hu _ _
      obtain ⟨hafterSuffix, hlt⟩ := suffix_rawTextAfter _ kind c u
      have hshorter := Nat.lt_of_lt_of_le hlt hsuffix.length_le
      refine respaced_filter_append hmarkup (ih _ (hn ▸ hshorter) hafter (fun hsome => ?_) _ _ rfl)
      exact hcomment (hsome.trans (hafterSuffix.trans hsuffix).isInfix)

/-- Cleaning a template without comments changes its tokens in blanks only, but for text tokens that
are nothing else. -/
theorem respaced_lex_clean {source : Text} (h : ¬source.HasComment) :
    List.Forall₂ Respaced ((lex source).filter (!·.isBlankText))
      ((lex (Markup.clean source)).filter (!·.isBlankText)) := by
  rw [Markup.clean, Markup.removeComments_of_not_hasComment h]
  exact respaced_lexFrom (Markup.respaced_collapseAfter isGap_nil none source) h 0 0

/-- Blanks in a tag, in a quoted value with a `>`, around an equals sign and between two tags. -/
theorem respaced_lex_clean_condition :
    let source : Text := "<p\n  title=\"a >  b\" data-if = \"x\" >  y</p>\n\n  <br >"
    ¬source.HasComment ∧
      Markup.clean source = "<p title=\"a > b\" data-if = \"x\" > y</p><br >".toList ∧
      List.Forall₂ Respaced ((lex source).filter (!·.isBlankText))
        ((lex (Markup.clean source)).filter (!·.isBlankText)) := by
  intro source
  have hcomment : ¬source.HasComment := by decide +kernel
  have hclean : Markup.clean source =
      "<p title=\"a > b\" data-if = \"x\" > y</p><br >".toList := by
    rw [Markup.clean, Markup.removeComments_of_not_hasComment hcomment]
    rfl
  exact ⟨hcomment, hclean, respaced_lex_clean hcomment⟩

end Token

end HtmlTemplate
