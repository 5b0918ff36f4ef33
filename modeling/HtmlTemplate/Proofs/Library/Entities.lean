import HtmlTemplate.Proofs.Library.Escaping
import HtmlTemplate.Proofs.Text.Trimming

/-!
Entities in texts. The escaped texts are those that `escape` makes (`escaped_iff`), and `unescape`
takes them back: it decodes the entity of each character before it looks further. The handler `html`
leaves exactly those texts alone in which every special character is the ampersand of an entity
(`htmlText_eq_self_iff`), and it makes such a text: what makes an ampersand start an entity are
plain characters, and they stand in the result as they are.
-/

namespace HtmlTemplate

open Text

namespace Handlers

/-! ## Numeric entities -/

theorem unescapeText_cons {c : Char} (h : c ≠ '&') (cs : Text) :
    unescapeText (c :: cs) = c :: unescapeText cs := by
  rw [unescapeText]
  rintro a b rest rfl
  exact absurd rfl h

/-- What stands for a character is decoded to it, whatever follows. -/
theorem unescapeText_escapeChar_append (c : Char) (t : Text) :
    unescapeText (escapeChar c ++ t) = c :: unescapeText t := by
  by_cases hc : IsPlain c
  · rw [escapeChar_of_isPlain hc]
    exact unescapeText_cons (isPlain_iff.mp hc).1 t
  · rcases not_isPlain_iff.mp hc with rfl | rfl | rfl | rfl <;> rfl

theorem unescapeText_escapeText (t : Text) : unescapeText (escapeText t) = t := by
  induction t with
  | nil => rfl
  | cons c cs ih =>
    show unescapeText (escapeChar c ++ escapeText cs) = c :: cs
    rw [unescapeText_escapeChar_append, ih]

theorem escapeChar_ne_nil (c : Char) : escapeChar c ≠ [] := by
  intro h
  have hdecoded := unescapeText_escapeChar_append c []
  rw [h] at hdecoded
  cases hdecoded

theorem entities_eq : entities = ['&', '<', '>', '"'].map escapeChar := rfl

/-- An escaped text starts with what stands for some character. -/
theorem exists_escapeChar_prefix {c : Char} {cs : Text} (h : Escaped (c :: cs)) :
    ∃ d, escapeChar d <+: c :: cs := by
  obtain ⟨hmarkup, hamp, -⟩ := h
  by_cases hc : c = '&'
  · obtain ⟨e, he, hprefix⟩ := hamp hc
    rw [entities_eq] at he
    obtain ⟨d, -, rfl⟩ := List.mem_map.mp he
    exact ⟨d, hprefix⟩
  · have hplain : IsPlain c := fun hmem => (List.mem_cons.mp hmem).elim hc hmarkup
    refine ⟨c, ?_⟩
    rw [escapeChar_of_isPlain hplain]
    exact List.prefix_append [c] cs

theorem escaped_iff {t : Text} : Escaped t ↔ ∃ s, t = escapeText s := by
  constructor
  · intro h
    -- By the length: behind what stands for the first character the text is shorter and escaped.
    induction hn : t.length using Nat.strongRecOn generalizing t with
    | ind n ih =>
      cases t with
      | nil => exact ⟨[], rfl⟩
      | cons c cs =>
        obtain ⟨d, rest, hrest⟩ := exists_escapeChar_prefix h
        rw [← hrest] at h hn ⊢
        have hshorter : rest.length < n := by
          have hpos := List.length_pos_iff.mpr (escapeChar_ne_nil d)
          rw [List.length_append] at hn
          omega
        obtain ⟨s, rfl⟩ := ih rest.length hshorter h.of_append_right rfl
        exact ⟨d :: s, rfl⟩
  · rintro ⟨s, rfl⟩
    exact escaped_escapeText s

/-- Escaping makes an escaped text of every text, and decoding takes it back. A text is escaped if
and only if escaping makes it of what it is decoded to. -/
theorem unescape_escape :
    (∀ s, ∃ t, escape (.string s) = .string t ∧ Escaped t ∧ unescape (.string t) = .string s) ∧
      ∀ t, Escaped t ↔ escape (unescape (.string t)) = .string t := by
  constructor
  · intro s
    refine ⟨escapeText s, rfl, escaped_escapeText s, ?_⟩
    exact congrArg Value.string (unescapeText_escapeText s)
  · intro t
    show Escaped t ↔ Value.string (escapeText (unescapeText t)) = .string t
    rw [Value.string.injEq, escaped_iff]
    constructor
    · rintro ⟨s, rfl⟩
      rw [unescapeText_escapeText]
    · intro h
      exact ⟨unescapeText t, h.symm⟩

end Handlers

/-! ## Named entities -/

namespace Text

/-- What makes an entity of an ampersand in front of it: letters, digits and underscores, at least
one, and then a semicolon. -/
def NamesEntity (t : Text) : Prop :=
  ∃ name rest, name ≠ [] ∧ (∀ c ∈ name, c.isAlphanum ∨ c = '_') ∧ t = name ++ ';' :: rest

/-- Of the special characters only ampersands occur, and each starts a named entity. -/
def Referenced : Text → Prop
  | [] => True
  | c :: cs => c ∉ ['<', '>', '"'] ∧ (c = '&' → NamesEntity cs) ∧ Referenced cs

/-- Whether `html` leaves a character in front of a text as it is. -/
def IsKept (c : Char) (t : Text) : Prop := IsPlain c ∨ c = '&' ∧ NamesEntity t

variable {s t cs : Text} {c : Char}

theorem referenced_cons_iff : Referenced (c :: cs) ↔ IsKept c cs ∧ Referenced cs := by
  rw [Referenced, ← and_assoc]
  refine and_congr_left fun _ => ?_
  constructor
  · rintro ⟨hmarkup, hamp⟩
    by_cases hc : c = '&'
    · exact .inr ⟨hc, hamp hc⟩
    · exact .inl fun hmem => (List.mem_cons.mp hmem).elim hc hmarkup
  · rintro (hplain | ⟨rfl, hentity⟩)
    · exact ⟨fun hmem => hplain (List.mem_cons_of_mem '&' hmem),
        fun hamp => absurd hamp (isPlain_iff.mp hplain).1⟩
    · exact ⟨by decide, fun _ => hentity⟩

theorem referenced_plain_append (hs : ∀ c ∈ s, IsPlain c) (ht : Referenced t) :
    Referenced (s ++ t) := by
  induction s with
  | nil => exact ht
  | cons c cs ih =>
    obtain ⟨hc, hcs⟩ := List.forall_mem_cons.mp hs
    exact referenced_cons_iff.mpr ⟨.inl hc, ih hcs⟩

theorem NamesEntity.append (h : NamesEntity s) (t : Text) : NamesEntity (s ++ t) := by
  obtain ⟨name, rest, hname, hword, rfl⟩ := h
  exact ⟨name, rest ++ t, hname, hword, by rw [List.append_assoc, List.cons_append]⟩

end Text

namespace Handlers

theorem isWordChar_iff {c : Char} : isWordChar c ↔ c.isAlphanum ∨ c = '_' := by
  rw [isWordChar, Bool.or_eq_true, beq_iff_eq]

theorem isPlain_of_isWordChar {c : Char} (h : isWordChar c) : IsPlain c :=
  isPlain_of_all (p := isWordChar) (by decide) h

theorem completesEntity_iff {t : Text} : completesEntity t ↔ NamesEntity t := by
  rw [completesEntity, Bool.and_eq_true, Bool.not_eq_true', List.isEmpty_eq_false_iff, beq_iff_eq]
  constructor
  · rintro ⟨hname, hend⟩
    obtain ⟨rest, hrest⟩ := List.head?_eq_some_iff.mp hend
    refine ⟨t.takeWhile isWordChar, rest, hname, fun c hc => ?_, ?_⟩
    · exact isWordChar_iff.mp (List.all_eq_true.mp List.all_takeWhile c hc)
    · rw [← hrest, List.takeWhile_append_dropWhile]
  · rintro ⟨name, rest, hname, hword, rfl⟩
    have hall : name.all isWordChar = true :=
      List.all_eq_true.mpr fun c hc => isWordChar_iff.mpr (hword c hc)
    have hend : ∀ c ∈ (';' :: rest).head?, isWordChar c = false := by
      rintro c ⟨⟩
      decide
    obtain ⟨htake, hdrop⟩ := Text.takeWhile_append hall hend
    rw [htake, hdrop]
    exact ⟨hname, rfl⟩

/-- What `html` writes behind an ampersand for a special character. -/
def entityNames : List Text := ["amp;", "lt;", "gt;", "quot;"].map String.toList

variable {c : Char} {cs t : Text}

theorem referenced_entity {name : Text} (hname : name ∈ entityNames) (ht : Referenced t) :
    Referenced ('&' :: (name ++ t)) := by
  have hentities : entityNames.all (fun name =>
      completesEntity name && name.all fun c => decide (IsPlain c)) = true := by decide
  obtain ⟨hentity, hplain⟩ := Bool.and_eq_true_iff.mp (List.all_eq_true.mp hentities name hname)
  simp only [List.all_eq_true, decide_eq_true_eq] at hplain
  exact referenced_cons_iff.mpr
    ⟨.inr ⟨rfl, (completesEntity_iff.mp hentity).append t⟩, referenced_plain_append hplain ht⟩

theorem htmlText_cons_of_isKept (h : IsKept c cs) : htmlText (c :: cs) = c :: htmlText cs := by
  rcases h with hplain | ⟨rfl, hentity⟩
  · obtain ⟨hamp, hlt, hgt, hquote⟩ := isPlain_iff.mp hplain
    simp [htmlText, hamp, hlt, hgt, hquote]
  · simp [htmlText, completesEntity_iff.mpr hentity]

theorem htmlText_cons_of_not_isKept (h : ¬IsKept c cs) :
    ∃ name ∈ entityNames, htmlText (c :: cs) = '&' :: (name ++ htmlText cs) := by
  obtain ⟨hspecial, hentity⟩ := not_or.mp h
  rcases not_isPlain_iff.mp hspecial with rfl | rfl | rfl | rfl
  · have hnot : ¬completesEntity cs := fun hcs => hentity ⟨rfl, completesEntity_iff.mp hcs⟩
    refine ⟨"amp;".toList, by decide, ?_⟩
    simp [htmlText, hnot]
  · exact ⟨"lt;".toList, by decide, rfl⟩
  · exact ⟨"gt;".toList, by decide, rfl⟩
  · exact ⟨"quot;".toList, by decide, rfl⟩

theorem htmlText_plain_append {s : Text} (hs : ∀ c ∈ s, IsPlain c) (t : Text) :
    htmlText (s ++ t) = s ++ htmlText t := by
  induction s with
  | nil => rfl
  | cons c cs ih =>
    obtain ⟨hc, hcs⟩ := List.forall_mem_cons.mp hs
    rw [List.cons_append, htmlText_cons_of_isKept (.inl hc), ih hcs, List.cons_append]

/-- What makes an entity of an ampersand stands in the result as it is. -/
theorem namesEntity_htmlText (h : NamesEntity t) : NamesEntity (htmlText t) := by
  obtain ⟨name, rest, hname, hword, rfl⟩ := h
  have hplain : ∀ c ∈ name, IsPlain c :=
    fun c hc => isPlain_of_isWordChar (isWordChar_iff.mpr (hword c hc))
  refine ⟨name, htmlText rest, hname, hword, ?_⟩
  rw [htmlText_plain_append hplain, htmlText_cons_of_isKept (.inl (by decide))]

theorem referenced_htmlText (t : Text) : Referenced (htmlText t) := by
  induction t with
  | nil => trivial
  | cons c cs ih =>
    by_cases hc : IsKept c cs
    · rw [htmlText_cons_of_isKept hc]
      exact referenced_cons_iff.mpr ⟨hc.imp_right (And.imp_right namesEntity_htmlText), ih⟩
    · obtain ⟨name, hname, himage⟩ := htmlText_cons_of_not_isKept hc
      rw [himage]
      exact referenced_entity hname ih

theorem htmlText_eq_self_iff : htmlText t = t ↔ Referenced t := by
  constructor
  · intro h
    rw [← h]
    exact referenced_htmlText t
  · intro h
    induction t with
    | nil => rfl
    | cons c cs ih =>
      obtain ⟨hc, hcs⟩ := referenced_cons_iff.mp h
      rw [htmlText_cons_of_isKept hc, ih hcs]

/-- The handler makes a text in which every special character is the ampersand of an entity, and
these are the texts that it leaves as they are. -/
theorem html_html :
    (∀ v, ∃ t, html v = .string t ∧ Referenced t ∧ html (html v) = html v) ∧
      ∀ t, Referenced t ↔ html (.string t) = .string t := by
  have hkept (t : Text) : Referenced t ↔ html (.string t) = .string t := by
    show Referenced t ↔ Value.string (htmlText t) = .string t
    rw [Value.string.injEq]
    exact htmlText_eq_self_iff.symm
  refine ⟨fun v => ?_, hkept⟩
  have hreferenced : Referenced (htmlText v.text) := referenced_htmlText v.text
  exact ⟨htmlText v.text, rfl, hreferenced, (hkept _).mp hreferenced⟩

end Handlers

end HtmlTemplate
