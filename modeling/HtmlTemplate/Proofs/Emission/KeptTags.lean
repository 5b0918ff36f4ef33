import HtmlTemplate.Proofs.Markup.OpeningTags
import HtmlTemplate.Emission.Element

/-!
What the tag of an element with directives is read as. The lexer finds one opening tag of the same
name in it, and that tag has the attributes that were kept and closes itself as the tag of the
template does if and only if the last attribute does not run into the end of the tag
(`exists_lex_openTagWith`).
-/

namespace HtmlTemplate.Token
open Attribute

/-- The last attribute and the end of the tag do not run into each other: its quote is closed before
the end that is set off by a blank, and it has no slash before the end that is not. -/
def EndsApart (t : Token) (attributes : List Attribute) : Prop :=
  ∀ a ∈ attributes.getLast?,
    if "/>".toList.isSuffixOf t.text then openAfter a.raw = none else a.raw.getLast? ≠ some '/'

variable {kept : List Attribute}

/-- The new tag has the name and the end of the tag, and a blank before `/>`. -/
theorem openTagWith_token (g : OpeningTag) (start : Nat) (kept : List Attribute) :
    (g.token start).openTagWith kept = '<' :: g.written ++
      (joined (kept.map raw) ++ if g.closesItself then [' '] else []) ++
        OpeningTag.ending g.closesItself := by
  have hname : (g.text.drop 1).take (Text.lowerAscii g.written).length = g.written := by
    change (g.written ++ g.inner ++ _).take _ = g.written
    rw [List.append_assoc, Text.lowerAscii, List.length_map, List.take_left]
  simp only [openTagWith, OpeningTag.token, hname, g.isSuffixOf_text]
  cases g.closesItself <;> simp [OpeningTag.ending, joined, List.flatMap_map]

/-- The end is set off by a blank, which an open quote takes in. -/
theorem exists_lex_of_closesItself {g : OpeningTag} (start : Nat) (hcloses : g.closesItself = true)
    (hkept : Joinable kept) :
    ∃ u, lex ((g.token start).openTagWith kept) = [u] ∧ u.kind = .tagOpen ∧
      u.name = (g.token start).name ∧ (u.standalone = (g.token start).standalone ∧
        u.attributes = kept ↔ ∀ a ∈ kept.getLast?, openAfter a.raw = none) := by
  have hides : HidesClose none (joined (kept.map raw) ++ [' ']) :=
    hidesClose_append.mpr ⟨hidesClose_joined hkept.chunked, nofun, trivial⟩
  have hblank : ∀ c ∈ (joined (kept.map raw) ++ [' ']).head?, c = ' ' := by cases kept <;> simp
  let tag := g.withInner (joined (kept.map raw) ++ [' ']) true hblank (by simp) hides
  have htext : (g.token start).openTagWith kept = tag.text := by
    rw [openTagWith_token, hcloses]
    rfl
  rw [htext]
  refine ⟨_, tag.lex_text, rfl, rfl, ?_⟩
  have hstandalone : (tag.token 0).standalone = (g.token start).standalone :=
    OpeningTag.standalone_token_withInner hcloses.symm hblank (by simp) hides start
  exact (and_iff_right hstandalone).trans (split_joined_blank_iff hkept)

/-- A slash before the end becomes part of it, and the last attribute loses it. -/
theorem exists_lex_of_not_closesItself {g : OpeningTag} (start : Nat)
    (hcloses : g.closesItself = false) (hkept : Joinable kept) :
    ∃ u, lex ((g.token start).openTagWith kept) = [u] ∧ u.kind = .tagOpen ∧
      u.name = (g.token start).name ∧ (u.standalone = (g.token start).standalone ∧
        u.attributes = kept ↔ ∀ a ∈ kept.getLast?, a.raw.getLast? ≠ some '/') := by
  have hides := hidesClose_joined hkept.chunked
  have hnew : (g.token start).openTagWith kept =
      '<' :: g.written ++ joined (kept.map raw) ++ ['>'] := by
    rw [openTagWith_token, hcloses]
    simp [OpeningTag.ending]
  have hslashes : (∀ a ∈ kept.getLast?, a.raw.getLast? ≠ some '/') ↔
      (joined (kept.map raw)).getLast? ≠ some '/' := by
    rw [ne_eq, getLast?_joined_map_raw hkept]
    simp only [not_exists, not_and, ne_eq]
  rw [hslashes]
  by_cases hslash : (joined (kept.map raw)).getLast? = some '/'
  · obtain ⟨body, hbody⟩ := List.getLast?_eq_some_iff.mp hslash
    have hblank : ∀ c ∈ body.head?, c = ' ' := by
      intro c hc
      obtain ⟨cs, rfl⟩ := List.head?_eq_some_iff.mp hc
      exact head?_joined (kept.map raw) c (by rw [hbody]; rfl)
    let tag := g.withInner body true hblank (by simp) (hidesClose_append.mp (hbody ▸ hides)).1
    have htext : (g.token start).openTagWith kept = tag.text := by
      rw [hnew, hbody]
      simp [tag, OpeningTag.withInner, OpeningTag.text, OpeningTag.ending]
    rw [htext]
    refine ⟨_, tag.lex_text, rfl, rfl, iff_of_false (fun hsame => ?_) fun hne => hne hslash⟩
    exact split_ne_of_joined_eq hbody hsame.2
  · let tag := g.withInner (joined (kept.map raw)) false (head?_joined _) (fun _ => hslash) hides
    have hstandalone : (tag.token 0).standalone = (g.token start).standalone :=
      OpeningTag.standalone_token_withInner hcloses.symm (head?_joined _) (fun _ => hslash) hides
        start
    have htext : (g.token start).openTagWith kept = tag.text := hnew
    rw [htext]
    exact ⟨_, tag.lex_text, rfl, rfl, iff_of_true ⟨hstandalone, split_joined hkept⟩ hslash⟩

/-- The tag of an element with directives is one opening tag of the same name. It is standalone as
the tag of the template is and has the attributes that are no directives, if and only if the last
one of them and the end of the tag do not run into each other. -/
theorem exists_lex_openTagWith {source : Text} {t : Token} (ht : t ∈ lex source)
    (hkind : t.kind = .tagOpen) :
    let remaining := Clause.remaining t.attributes
    (∀ a ∈ remaining, Directive.ofKey? a.key = none) ∧
      ∃ u, lex (t.openTagWith remaining) = [u] ∧ u.kind = .tagOpen ∧ u.name = t.name ∧
        (u.standalone = t.standalone ∧ u.attributes = remaining ↔ t.EndsApart remaining) := by
  intro remaining
  refine ⟨fun a ha => by simpa using (List.mem_filter.mp ha).2, ?_⟩
  obtain ⟨g, hg⟩ := exists_openingTag_of_mem_lex ht hkind
  have hkept : Joinable remaining := by
    have hattributes : t.attributes = split g.inner := by rw [hg]; rfl
    refine joinable_of_sublist g.hides ?_
    rw [← hattributes]
    exact List.filter_sublist
  have hsuffix : "/>".toList.isSuffixOf t.text = g.closesItself := by
    rw [hg]
    exact g.isSuffixOf_text
  unfold EndsApart
  rw [hsuffix]
  cases hcloses : g.closesItself with
  | true =>
    have hread := exists_lex_of_closesItself t.start hcloses hkept
    rwa [← hg] at hread
  | false =>
    have hread := exists_lex_of_not_closesItself t.start hcloses hkept
    rwa [← hg] at hread

/-- A loop whose value has a blank inside quotes. -/
theorem exists_lex_openTagWith_loop :
    let source := "<p data-each=xs class='a b'>x</p>".toList
    let t := ofMarkup .tagOpen 0 "<p data-each=xs class='a b'>".toList
    let remaining := Clause.remaining t.attributes
    t ∈ lex source ∧ t.kind = .tagOpen ∧ (∀ a ∈ remaining, Directive.ofKey? a.key = none) ∧
      ∃ u, lex (t.openTagWith remaining) = [u] ∧ u.kind = .tagOpen ∧ u.name = t.name ∧
        (u.standalone = t.standalone ∧ u.attributes = remaining ↔ t.EndsApart remaining) := by
  intro source t remaining
  have ht : t ∈ lex source := by decide +kernel
  have hkind : t.kind = .tagOpen := by decide +kernel
  exact ⟨ht, hkind, exists_lex_openTagWith ht hkind⟩

/-- A slash at the end of the last attribute makes the tag standalone, and an open quote takes in
the blank before the end. -/
theorem openTagWith_misread :
    (∃ t ∈ lex "<a href=/about/ data-if=x>About</a>", t.kind = .tagOpen ∧
      t.openTagWith (Clause.remaining t.attributes) = "<a href=/about/>".toList ∧
        ¬∃ u ∈ lex "<a href=/about/>", u.standalone = t.standalone ∧
          u.attributes = Clause.remaining t.attributes) ∧
      ∃ t ∈ lex "<a data-if=x title=\"/>", t.kind = .tagOpen ∧
        t.openTagWith (Clause.remaining t.attributes) = "<a title=\" />".toList ∧
          ¬∃ u ∈ lex "<a title=\" />", u.standalone = t.standalone ∧
            u.attributes = Clause.remaining t.attributes := by
  decide +kernel

end HtmlTemplate.Token
