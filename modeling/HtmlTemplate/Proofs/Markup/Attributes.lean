import HtmlTemplate.Proofs.Emission.Plain

/-!
Attributes as parts of the template. Every attribute key stands in the template, but for the case
of its letters (`key_infix_of_mem`), so a template in which `data-` does not occur has no directives
(`isPlain_of_mem_associate_lex`).
-/

namespace HtmlTemplate

namespace Text

theorem lowerAscii_infix {s t : Text} (h : s <:+: t) : lowerAscii s <:+: lowerAscii t :=
  h.map Char.toLower

theorem trim_infix (t : Text) : trim t <:+: t := by
  have hstart : trimStart t <:+: t := (List.dropWhile_suffix isBlank).isInfix
  have hend : trim t <+: trimStart t := by
    have hsuffix := List.dropWhile_suffix isBlank (l := (trimStart t).reverse)
    simpa [trim, trimEnd] using List.reverse_prefix.mpr hsuffix
  exact hend.isInfix.trans hstart

end Text

namespace Attribute

/-- The chunks stand in the unfinished chunk, the blanks after it and the rest of the text. -/
theorem infix_of_mem_chunksAfter {open? : Option Char} {chunk gap cs piece : Text}
    (h : piece ∈ chunksAfter open? chunk gap cs) :
    piece <:+: chunk.reverse ++ gap.reverse ++ cs := by
  induction cs generalizing open? chunk gap with
  | nil =>
    unfold chunksAfter at h
    split at h
    · exact absurd h List.not_mem_nil
    · rw [List.mem_singleton.mp h, List.append_nil]
      exact (List.prefix_append _ _).isInfix
  | cons c cs ih =>
    unfold chunksAfter at h
    split at h
    · have hrest := ih h
      cases hchunk : chunk with
      | nil =>
        rw [hchunk] at hrest
        have hsuffix : cs <:+ gap.reverse ++ c :: cs :=
          (List.suffix_cons c cs).trans (List.suffix_append gap.reverse (c :: cs))
        exact List.IsInfix.trans (by simpa using hrest) hsuffix.isInfix
      | cons d chunk =>
        rw [hchunk] at hrest
        simpa using hrest
    · split at h
      · have hrest := ih h
        simpa using hrest
      · rcases List.mem_cons.mp h with rfl | hmem
        · rw [List.append_assoc]
          exact (List.prefix_append _ _).isInfix
        · have hrest := ih hmem
          exact List.IsInfix.trans (by simpa using hrest) (List.suffix_append _ (c :: cs)).isInfix

theorem key_infix_ofChunk (chunk : Text) : (ofChunk chunk).key <:+: Text.lowerAscii chunk := by
  have hkey : Text.lowerAscii (Text.trim (chunk.takeWhile (· != '='))) <:+:
      Text.lowerAscii chunk :=
    Text.lowerAscii_infix ((Text.trim_infix _).trans (List.takeWhile_prefix _).isInfix)
  unfold ofChunk
  split
  · exact List.infix_rfl
  · simp only
    split
    · exact hkey
    · split
      · exact hkey
      · split <;> exact hkey

theorem key_infix_split {a : Attribute} {interior : Text} (h : a ∈ split interior) :
    a.key <:+: Text.lowerAscii interior := by
  obtain ⟨chunk, hchunk, rfl⟩ := List.mem_map.mp h
  have hmem := infix_of_mem_chunksAfter (List.mem_filter.mp hchunk).1
  exact (key_infix_ofChunk chunk).trans (Text.lowerAscii_infix (by simpa using hmem))

end Attribute

namespace Directive

def keys : List Text := ["data-include", "data-partial", "data-if", "data-each", "data-for"]

theorem mem_keys_of_ofKey? {key : Text} (h : (ofKey? key).isSome) : key ∈ keys := by
  obtain ⟨p, hp, hkey⟩ := List.lookup_isSome_iff.mp h
  rw [eq_of_beq hkey]
  exact List.mem_map_of_mem (f := Prod.fst) hp

/-- Every directive is named by a key of one family. -/
theorem data_infix_of_ofKey? {key : Text} (h : (ofKey? key).isSome) : "data-".toList <:+: key := by
  have hall : ∀ key ∈ keys, "data-".toList <:+: key := by decide
  exact hall key (mem_keys_of_ofKey? h)

end Directive

namespace Token

theorem interior_isInfix (name text : Text) : interior name text <:+: text :=
  (List.take_prefix _ _).isInfix.trans (List.drop_suffix _ _).isInfix

theorem key_infix_ofMarkup {kind : TokenKind} {start : Nat} {text : Text} {a : Attribute}
    (h : a ∈ (ofMarkup kind start text).attributes) : a.key <:+: Text.lowerAscii text := by
  rcases ofMarkup_cases kind start text with ⟨k, -, htoken⟩ | ⟨-, written, _, _, htoken, rfl | rfl⟩
  · rw [htoken] at h
    exact absurd h List.not_mem_nil
  · rw [htoken] at h
    exact absurd h List.not_mem_nil
  · rw [htoken] at h
    exact (Attribute.key_infix_split h).trans
      (Text.lowerAscii_infix (interior_isInfix written text))

theorem key_infix_of_mem_lexFrom {start : Nat} {cs : Text} :
    ∀ t ∈ lexFrom start cs, ∀ a ∈ t.attributes, a.key <:+: Text.lowerAscii t.text := by
  induction start, cs using lexFrom_induction with
  | nil start => exact fun t ht => absurd ht List.not_mem_nil
  | text start c cs rest hmarkup ih => exact List.forall_mem_cons.mpr ⟨nofun, ih⟩
  | markup start c cs kind rest hmarkup cut token raw ih =>
    rw [List.cons_append, List.forall_mem_cons, List.forall_mem_append]
    refine ⟨fun a ha => ?_, ?_, ih⟩
    · rw [ofMarkup_text]
      exact key_infix_ofMarkup ha
    · intro t ht
      unfold textToken at ht
      split at ht
      · exact absurd ht List.not_mem_nil
      · rw [List.mem_singleton.mp ht]
        nofun

/-- The key of an attribute stands in the template, but for the case of its letters. -/
theorem key_infix_of_mem {source : Text} {t : Paired} (ht : t ∈ associate (lex source))
    {a : Attribute} (ha : a ∈ t.token.attributes) : a.key <:+: Text.lowerAscii source := by
  obtain ⟨u, hu, hut⟩ := Neutralized.exists_left (neutralized_associate (lex source))
    (List.mem_map_of_mem ht)
  obtain ⟨before, after, hsource, -⟩ := isSpanOf_associate_lex source t ht
  have htext : Text.lowerAscii t.token.text <:+: Text.lowerAscii source :=
    Text.lowerAscii_infix ⟨before, after, hsource.symm⟩
  rcases hut with rfl | hplain
  · exact (key_infix_of_mem_lexFrom _ hu a ha).trans htext
  · rw [hplain] at ha
    exact absurd ha List.not_mem_nil

/-- Without `data-` in any case there are no directives. -/
theorem isPlain_of_mem_associate_lex {source : Text}
    (h : ¬"data-".toList <:+: Text.lowerAscii source) :
    ∀ t ∈ associate (lex source), t.token.IsPlain := by
  intro t ht _ a ha
  by_contra hkey
  exact h ((Directive.data_infix_of_ofKey? (Option.isSome_iff_ne_none.mpr hkey)).trans
    (key_infix_of_mem ht ha))

end Token

end HtmlTemplate
