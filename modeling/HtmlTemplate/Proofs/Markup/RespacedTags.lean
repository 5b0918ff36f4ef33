import HtmlTemplate.Proofs.Markup.AttributeLists
import HtmlTemplate.Proofs.Markup.Attributes
import HtmlTemplate.Proofs.Markup.OpeningTags
import HtmlTemplate.Proofs.Markup.Respacing

/-!
Tags that differ in their blanks. They end at the same `>` (`Respaced.cutAfterTag`), they are split
at the same blanks (`Respaced.chunks`), and the attributes in them have the same keys and values but
for the blanks (`Respaced.split`), so an opening tag stays one (`OpeningTag.exists_respaced`).
-/

namespace HtmlTemplate
open Text Attribute

variable {last open? : Option Char} {t t' : Text}

namespace Attribute

/-! ## Quotes -/

theorem nextQuote_of_blank {c : Char} (hopen : ∀ q ∈ open?, isQuote q = true)
    (hc : isBlank c = true) : nextQuote open? c = open? := by
  cases open? with
  | none => exact nextQuote_of_isBlank hc
  | some q =>
    refine if_neg ?_
    rintro rfl
    simp [not_isBlank_of_isQuote (hopen c rfl)] at hc

/-- A `>` inside quotes does not end them. -/
theorem nextQuote_close_ne_none (hopen : ∀ q ∈ open?, isQuote q = true) (h : open?.isSome) :
    nextQuote open? '>' ≠ none := by
  obtain ⟨q, rfl⟩ := Option.isSome_iff_exists.mp h
  have hne : '>' ≠ q := by
    rintro rfl
    cases hopen '>' rfl
  simp [nextQuote, hne]

/-- Blanks end no tag and no quote. -/
theorem hidesClose_gap {gap : Text} (hopen : ∀ q ∈ open?, isQuote q = true) (isGap : IsGap gap) :
    HidesClose open? gap ∧ gap.foldl nextQuote open? = open? := by
  induction gap with
  | nil => exact ⟨trivial, rfl⟩
  | cons c gap ih =>
    obtain ⟨hc, hgap⟩ := List.forall_mem_cons.mp isGap
    have hclose : c ≠ '>' := by
      rintro rfl
      cases hc
    rw [HidesClose, List.foldl_cons, nextQuote_of_blank hopen hc]
    exact ⟨⟨fun heq => absurd heq hclose, (ih hgap).1⟩, (ih hgap).2⟩

theorem hidesClose_gap_append {gap : Text} (hopen : ∀ q ∈ open?, isQuote q = true)
    (isGap : IsGap gap) : HidesClose open? (gap ++ t) ↔ HidesClose open? t := by
  obtain ⟨hides, hsame⟩ := hidesClose_gap hopen isGap
  rw [hidesClose_append, hsame, and_iff_right hides]

theorem cutAfterTag_gap_append {gap : Text} (hopen : ∀ q ∈ open?, isQuote q = true)
    (isGap : IsGap gap) (rest : Text) : Token.cutAfterTag open? (gap ++ rest) =
      (gap ++ (Token.cutAfterTag open? rest).1, (Token.cutAfterTag open? rest).2) := by
  obtain ⟨hides, hsame⟩ := hidesClose_gap hopen isGap
  rw [cutAfterTag_append hides, hsame]

end Attribute

namespace Text.Respaced

theorem hidesClose (h : Respaced last t t') (hopen : ∀ q ∈ open?, isQuote q = true)
    (hides : HidesClose open? t) : HidesClose open? t' := by
  induction h generalizing open? with
  | gap _ isGap' => exact (hidesClose_gap hopen isGap').1
  | ink isGap isGap' _ _ _ ih =>
    obtain ⟨hclose, hrest⟩ := (hidesClose_gap_append hopen isGap).mp hides
    exact (hidesClose_gap_append hopen isGap').mpr
      ⟨hclose, ih (forall_mem_nextQuote (fun _ => id) hopen) hrest⟩

/-- The tag ends at the same place. -/
theorem cutAfterTag (h : Respaced last t t') (hopen : ∀ q ∈ open?, isQuote q = true) :
    Respaced last (Token.cutAfterTag open? t).1 (Token.cutAfterTag open? t').1 ∧
      Respaced (some '>') (Token.cutAfterTag open? t).2 (Token.cutAfterTag open? t').2 := by
  induction h generalizing open? with
  | @gap last gap gap' isGap isGap' same =>
    have hcut {gap : Text} (isGap : IsGap gap) : Token.cutAfterTag open? gap = (gap, []) := by
      have happend := cutAfterTag_gap_append hopen isGap []
      rwa [List.append_nil, Token.cutAfterTag, List.append_nil] at happend
    rw [hcut isGap, hcut isGap']
    exact ⟨.gap isGap isGap' same, nil⟩
  | @ink last c gap gap' t t' isGap isGap' same inked rest ih =>
    rw [cutAfterTag_gap_append hopen isGap, cutAfterTag_gap_append hopen isGap',
      Token.cutAfterTag, Token.cutAfterTag]
    split
    · next hclose =>
      obtain ⟨-, rfl⟩ := by simpa using hclose
      exact ⟨.ink isGap isGap' same inked nil, rest⟩
    · obtain ⟨htag, hrest⟩ := ih (forall_mem_nextQuote (fun _ => id) hopen)
      exact ⟨.ink isGap isGap' same inked htag, hrest⟩

end Text.Respaced

namespace Attribute

/-! ## Chunks -/

/-- Blanks at the start are no part of a chunk. -/
theorem chunks_gap_append {gap : Text} (isGap : IsGap gap) (rest : Text) :
    chunks (gap ++ rest) = chunks rest := by
  induction gap with
  | nil => rfl
  | cons c gap ih =>
    obtain ⟨hc, hgap⟩ := List.forall_mem_cons.mp isGap
    rw [← ih hgap]
    exact if_pos hc

/-- The blanks before the character `c` do not end the unfinished chunk. -/
def Joins (open? : Option Char) (r gap : Text) (c : Char) : Prop :=
  open? ≠ none ∨ gap = [] ∨ c = '=' ∨ r.getLast? = some '='

section Step

variable {r gap : Text} {c : Char} (hr : r ≠ []) (isGap : IsGap gap)
include hr isGap

/-- The blanks and the character after them make the unfinished chunk longer. -/
theorem chunksAfter_join (hopen : ∀ q ∈ open?, isQuote q = true) (hc : isBlank c = false)
    (hjoin : Joins open? r gap c) (rest : Text) :
    chunksAfter open? r.reverse [] (gap ++ c :: rest) =
      chunksAfter (nextQuote open? c) (r ++ gap ++ [c]).reverse [] rest := by
  cases open? with
  | some q =>
    have hfree : q ∉ gap := isGap.not_mem (not_isBlank_of_isQuote (hopen q rfl))
    obtain ⟨hides, hsame⟩ := hidesBlanks_of_not_mem hfree
    rw [chunksAfter_append hides, hsame, chunksAfter, if_neg (by simp), if_pos (by simp)]
    simp
  | none =>
    rw [chunksAfter_blanks (by simpa using hr) isGap, List.append_nil, chunksAfter,
      if_neg (by simp [hc]), if_pos (by simpa [Joins, or_assoc] using hjoin)]
    simp

/-- The blanks end the unfinished chunk. -/
theorem chunksAfter_split (hc : isBlank c = false) (hsplit : ¬Joins open? r gap c) (rest : Text) :
    chunksAfter open? r.reverse [] (gap ++ c :: rest) =
      r :: chunksAfter (nextQuote open? c) [c] [] rest := by
  rw [Joins, not_or, not_not, not_or, not_or] at hsplit
  obtain ⟨rfl, hgap, hne, hlast⟩ := hsplit
  rw [chunksAfter_blanks (by simpa using hr) isGap, List.append_nil, chunksAfter,
    if_neg (by simp [hc]), if_neg (by simp [hgap, hne, hlast]), List.reverse_reverse]

theorem chunksAfter_gap (hopen : ∀ q ∈ open?, isQuote q = true) :
    chunksAfter open? r.reverse [] gap = [if open? = none then r else r ++ gap] := by
  rw [← List.append_nil gap]
  cases open? with
  | some q =>
    have hfree : q ∉ gap := isGap.not_mem (not_isBlank_of_isQuote (hopen q rfl))
    obtain ⟨hides, hsame⟩ := hidesBlanks_of_not_mem hfree
    rw [chunksAfter_append hides, chunksAfter]
    simp [hr]
  | none =>
    rw [chunksAfter_blanks (by simpa using hr) isGap, chunksAfter]
    simp [hr]

end Step

/-- Unfinished chunks of both texts, which end in the character `last` before what is left of the
texts. Between `>` and `<` one of the texts may lack the blanks, but there a quote is open. -/
structure Unfinished (last open? : Option Char) (r r' : Text) : Prop where
  respaced : Text.Respaced none r r'
  ne_nil : r ≠ []
  left : r.getLast? = last
  right : r'.getLast? = last
  inked_left : (inked r).getLast? = last
  quote : ∀ q ∈ open?, isQuote q = true
  hidden : last = some '>' → open? ≠ none

namespace Unfinished

variable {r r' : Text}

theorem ne_nil_right (h : Unfinished last open? r r') : r' ≠ [] :=
  mt h.respaced.eq_nil_iff.mpr h.ne_nil

theorem append {s s' : Text} (h : Unfinished last open? r r') (hs : Text.Respaced last s s') :
    Text.Respaced none (r ++ s) (r' ++ s') := by
  apply h.respaced.append
  rwa [h.inked_left, Option.or_none]

theorem joins_iff {gap gap' : Text} {c : Char} (h : Unfinished last open? r r')
    (same : (gap = [] ↔ gap' = []) ∨ last = some '>' ∧ c = '<') :
    Joins open? r gap c ↔ Joins open? r' gap' c := by
  rw [Joins, Joins, h.left, h.right]
  by_cases hnone : open? = none
  · rw [same.resolve_right fun hbetween => h.hidden hbetween.1 hnone]
  · simp [hnone]

/-- The chunks with the next character at their ends. -/
theorem concat {s s' : Text} {c : Char} (hopen : ∀ q ∈ open?, isQuote q = true)
    (hc : isBlank c = false) (hclose : c = '>' → open?.isSome)
    (hs : Text.Respaced none (s ++ [c]) (s' ++ [c])) :
    Unfinished (some c) (nextQuote open? c) (s ++ [c]) (s' ++ [c]) where
  respaced := hs
  ne_nil := by simp
  left := List.getLast?_concat
  right := List.getLast?_concat
  inked_left := by
    rw [inked_append, inked_cons_of_not_blank (by simp [hc])]
    exact List.getLast?_concat
  quote := forall_mem_nextQuote (fun _ => id) hopen
  hidden heq := by
    obtain rfl := Option.some.inj heq
    exact nextQuote_close_ne_none hopen (hclose rfl)

/-- Both chunks begin with the next character. -/
theorem start {c : Char} (hopen : ∀ q ∈ open?, isQuote q = true) (hc : isBlank c = false)
    (hclose : c = '>' → open?.isSome) : Unfinished (some c) (nextQuote open? c) [c] [c] := by
  have hs : Text.Respaced none ([] ++ [c]) ([] ++ [c]) := .cons hc .nil
  exact concat hopen hc hclose hs

end Unfinished

end Attribute

namespace Text.Respaced

/-- The induction is along the texts, with the unfinished chunks before them. -/
theorem chunksAfter (h : Respaced last t t') {r r' : Text} (hr : Unfinished last open? r r')
    (hides : HidesClose open? t) :
    List.Forall₂ (Respaced none) (Attribute.chunksAfter open? r.reverse [] t)
      (Attribute.chunksAfter open? r'.reverse [] t') := by
  induction h generalizing open? r r' with
  | gap isGap isGap' same =>
    rw [chunksAfter_gap hr.ne_nil isGap hr.quote, chunksAfter_gap hr.ne_nil_right isGap' hr.quote]
    refine .cons ?_ .nil
    split
    · exact hr.respaced
    · exact hr.append (.gap isGap isGap' same)
  | @ink last c gap gap' t t' isGap isGap' same inked rest ih =>
    obtain ⟨hc, hrest⟩ := (hidesClose_gap_append hr.quote isGap).mp hides
    have hjoins := hr.joins_iff same
    by_cases hjoin : Joins open? r gap c
    · rw [chunksAfter_join hr.ne_nil isGap hr.quote inked hjoin,
        chunksAfter_join hr.ne_nil_right isGap' hr.quote inked (hjoins.mp hjoin)]
      have hstep : Respaced none (r ++ gap ++ [c]) (r' ++ gap' ++ [c]) := by
        rw [List.append_assoc, List.append_assoc]
        exact hr.append (.ink isGap isGap' same inked nil)
      exact ih (.concat hr.quote inked hc hstep) hrest
    · rw [chunksAfter_split hr.ne_nil isGap inked hjoin,
        chunksAfter_split hr.ne_nil_right isGap' inked (mt hjoins.mpr hjoin)]
      exact .cons hr.respaced (ih (.start hr.quote inked hc) hrest)

/-- The texts are split at the same blanks. -/
theorem chunks (h : Respaced last t t') (hides : HidesClose none t) :
    List.Forall₂ (Respaced none) (Attribute.chunks t) (Attribute.chunks t') := by
  cases h with
  | gap isGap isGap' =>
    have hnil {gap : Text} (isGap : IsGap gap) : Attribute.chunks gap = [] := by
      rw [← List.append_nil gap, chunks_gap_append isGap]
      rfl
    rw [hnil isGap, hnil isGap']
    exact .nil
  | @ink _ c gap gap' u u' isGap isGap' _ inked rest =>
    have hstart (u : Text) :
        Attribute.chunks (c :: u) = Attribute.chunksAfter (nextQuote none c) [c] [] u := by
      rw [Attribute.chunks, Attribute.chunksAfter, if_neg (by simp [inked]), if_pos (by simp)]
      rfl
    have hopen : ∀ q ∈ (none : Option Char), isQuote q = true := by simp
    obtain ⟨hc, hides⟩ := (hidesClose_gap_append hopen isGap).mp hides
    rw [chunks_gap_append isGap, chunks_gap_append isGap', hstart, hstart]
    exact rest.chunksAfter (.start hopen inked hc) hides

end Text.Respaced

/-! ## Attributes -/

theorem Text.Respaced.ofKey?_eq (h : Respaced last t t') :
    Directive.ofKey? t = Directive.ofKey? t' := by
  have hplain : ∀ key ∈ Directive.keys, IsWord key := by decide
  have hword {last : Option Char} {t t' : Text} (h : Respaced last t t')
      (hkey : (Directive.ofKey? t).isSome) : t' = t :=
    h.eq_of_word (hplain t (Directive.mem_keys_of_ofKey? hkey))
  by_cases hkey : (Directive.ofKey? t).isSome
  · rw [hword h hkey]
  · by_cases hkey' : (Directive.ofKey? t').isSome
    · rw [hword h.symm hkey']
    · rw [Option.not_isSome_iff_eq_none.mp hkey, Option.not_isSome_iff_eq_none.mp hkey']

/-- The attributes differ in their blanks only, and name the same directive or none. -/
structure Attribute.Respaced (a b : Attribute) : Prop where
  key : a.key.inked = b.key.inked
  value : a.value.map inked = b.value.map inked
  quote : a.quote = b.quote
  hasEndQuote : a.hasEndQuote = b.hasEndQuote
  raw : a.raw.inked = b.raw.inked
  directive : Directive.ofKey? a.key = Directive.ofKey? b.key

namespace Text.Respaced

theorem ofChunk (h : Respaced none t t') :
    (Attribute.ofChunk t).Respaced (Attribute.ofChunk t') := by
  by_cases hmem : '=' ∈ t
  · obtain ⟨key, after, ht, hfree⟩ := List.eq_append_cons_of_mem hmem
    obtain ⟨key', after', ht', hkey, hafter⟩ := h.exists_of_append ht rfl (by decide)
    have hfree' : '=' ∉ key' := mt (hkey.mem_iff rfl).mpr hfree
    have hkeys := hkey.trim.lowerAscii
    rcases hafter.trimStart_cases with
      ⟨hnil, hnil'⟩ | ⟨q, inside, inside', hcons, hcons', hq, hinside⟩
    · rw [ofChunk_of_empty ht hfree hnil, ofChunk_of_empty ht' hfree' hnil']
      exact ⟨hkeys.inked_eq, rfl, rfl, rfl, h.inked_eq, hkeys.ofKey?_eq⟩
    · cases hquote : isQuote q with
      | false =>
        have hvalue : Respaced none (q :: inside) (q :: inside') := cons hq hinside
        rw [ofChunk_of_unquoted ht hfree hcons hquote, ofChunk_of_unquoted ht' hfree' hcons' hquote]
        exact ⟨hkeys.inked_eq, congrArg some hvalue.inked_eq, rfl, rfl, h.inked_eq, hkeys.ofKey?_eq⟩
      | true =>
        have hne : q ≠ '<' := by
          rintro rfl
          cases hquote
        have hends := hinside.getLast?_iff hq hne
        by_cases hlast : inside.getLast? = some q
        · obtain ⟨value', rfl⟩ := List.getLast?_eq_some_iff.mp (hends.mp hlast)
          obtain ⟨value, rfl⟩ := List.getLast?_eq_some_iff.mp hlast
          have hvalue := hinside.inked_eq
          rw [inked_append, inked_append, List.append_left_inj] at hvalue
          rw [ofChunk_of_quoted ht hfree hcons hquote, ofChunk_of_quoted ht' hfree' hcons' hquote]
          exact ⟨hkeys.inked_eq, congrArg some hvalue, rfl, rfl, h.inked_eq, hkeys.ofKey?_eq⟩
        · rw [ofChunk_of_open_quote ht hfree hcons hquote hlast,
            ofChunk_of_open_quote ht' hfree' hcons' hquote (mt hends.mpr hlast)]
          exact ⟨hkeys.inked_eq, congrArg some hinside.inked_eq, rfl, rfl, h.inked_eq,
            hkeys.ofKey?_eq⟩
  · rw [ofChunk_of_not_mem hmem, ofChunk_of_not_mem (mt (h.mem_iff rfl).mpr hmem)]
    have hkeys := h.lowerAscii
    exact ⟨hkeys.inked_eq, rfl, rfl, rfl, h.inked_eq, hkeys.ofKey?_eq⟩

theorem split (h : Respaced last t t') (hides : HidesClose none t) :
    List.Forall₂ Attribute.Respaced (Attribute.split t) (Attribute.split t') := by
  have hslash {r r' : Text} (h : Respaced none r r') : r = ['/'] → r' = ['/'] := by
    rintro rfl
    exact h.eq_of_word (by decide)
  have hchunks := h.chunks hides
  rw [Attribute.split, Attribute.split]
  generalize Attribute.chunks t = rs, Attribute.chunks t' = rs' at hchunks
  induction hchunks with
  | nil => exact .nil
  | @cons r r' rs rs' hr _ ih =>
    by_cases hlone : r = ['/']
    · rw [hslash hr hlone, hlone]
      exact ih
    · rw [List.filter_cons_of_pos (by simpa using hlone),
        List.filter_cons_of_pos (by simpa using mt (hslash hr.symm) hlone)]
      exact .cons hr.ofChunk ih

end Text.Respaced

/-! ## Opening tags -/

namespace OpeningTag

theorem plain_of_isNameChar {c : Char} (h : Token.isNameChar c = true) :
    isBlank c = false ∧ c ≠ '<' := by
  constructor
  · simp only [Token.isNameChar, Bool.or_eq_true, beq_iff_eq] at h
    rcases h with ((hc | rfl) | rfl) | rfl
    · exact not_isBlank_of_isAlphanum hc
    · rfl
    · rfl
    · rfl
  · rintro rfl
    cases h

/-- With other blanks the tag has the same name and the same end. -/
theorem exists_respaced {g : OpeningTag} {inside inside' : Text} (hg : g.text = '<' :: inside)
    (h : Respaced (some '<') inside inside') :
    ∃ g' : OpeningTag, g'.text = '<' :: inside' ∧ g'.written = g.written ∧
      g'.closesItself = g.closesItself ∧ ∃ last, Respaced last g.inner g'.inner := by
  have hinside : inside = g.written ++ (g.inner ++ ending g.closesItself) := by
    rw [text, List.append_assoc] at hg
    exact (List.cons.inj hg).2.symm
  have hending : IsWord (ending g.closesItself) := by
    cases g.closesItself <;> decide
  have hne : ending g.closesItself ≠ [] := by
    cases g.closesItself <;> decide
  rw [hinside] at h
  obtain ⟨rest, rfl, hrest⟩ :=
    h.exists_of_word_append fun c hc => plain_of_isNameChar (g.named c hc)
  obtain ⟨inner, rfl, hinner⟩ := hrest.exists_of_append_word hne hending
  refine ⟨⟨g.written, inner, g.closesItself, g.letter, g.named, ?_, ?_, ?_⟩, ?_, rfl, rfl, _,
    hinner⟩
  · exact hinner.head?_of (fun c => plain_of_isNameChar) g.next
  · exact fun hcloses => mt (hinner.getLast?_iff rfl (by decide)).mpr (g.slash hcloses)
  · exact hinner.hidesClose (by simp) g.hides
  · rw [text, List.append_assoc]
    rfl

end OpeningTag

end HtmlTemplate
