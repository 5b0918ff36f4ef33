import HtmlTemplate.Proofs.Emission.Simulation
import Mathlib.Data.List.Perm.Basic

/-!
The order of attributes. Attributes may change places as long as directives of one kind, and the
attributes that are no directives, keep their order (`Attribute.Reordered`). What an element emits
does not change then, in whatever state it is emitted (`openElement_of_reorders`,
`loneTag_of_reorders`), and neither does what the whole token list emits (`emitFrom_of_reorders`).
-/

namespace HtmlTemplate

namespace Attribute

/-- The same attributes, in an order that is the same for each directive and for the attributes that
are none. -/
structure Reordered (as bs : List Attribute) : Prop where
  perm : as.Perm bs
  order : ∀ kind : Option Directive, as.filter (fun a => Directive.ofKey? a.key == kind) =
    bs.filter fun a => Directive.ofKey? a.key == kind

variable {as bs : List Attribute}

/-- The clauses of a directive are those of its attributes. -/
theorem filter_ofAttribute? (as : List Attribute) (d : Directive) :
    (as.filterMap Clause.ofAttribute?).filter (·.directive == d) =
      (as.filter fun a => Directive.ofKey? a.key == some d).filterMap Clause.ofAttribute? := by
  induction as with
  | nil => rfl
  | cons a as ih =>
    cases hkey : Directive.ofKey? a.key with
    | none =>
      have hnone : Clause.ofAttribute? a = none := by simp [Clause.ofAttribute?, hkey]
      rw [List.filterMap_cons_none hnone, List.filter_cons_of_neg (by simp [hkey]), ih]
    | some e =>
      have hsome : Clause.ofAttribute? a = some ⟨e, a.value.getD []⟩ := by
        simp [Clause.ofAttribute?, hkey]
      rw [List.filterMap_cons_some hsome]
      by_cases he : e = d
      · rw [List.filter_cons_of_pos (by simp [he]), List.filter_cons_of_pos (by simp [hkey, he]),
          List.filterMap_cons_some hsome, ih]
      · rw [List.filter_cons_of_neg (by simp [he]), List.filter_cons_of_neg (by simp [hkey, he]),
          ih]

theorem Reordered.ofAttributes_eq (h : Reordered as bs) :
    Clause.ofAttributes as = Clause.ofAttributes bs := by
  unfold Clause.ofAttributes Clause.sort
  congr 1
  funext d
  rw [filter_ofAttribute?, filter_ofAttribute?, h.order]

theorem Reordered.remaining_eq (h : Reordered as bs) :
    Clause.remaining as = Clause.remaining bs := by
  have hnone (a : Attribute) :
      (Directive.ofKey? a.key).isNone = (Directive.ofKey? a.key == none) := by
    cases Directive.ofKey? a.key <;> rfl
  simp only [Clause.remaining, hnone]
  exact h.order none

end Attribute

namespace Token

/-- The second tag is the first one with its attributes in another order. Its text may be another
one, in which the name is spelled the same and which closes itself if the first does. -/
structure Reorders (t u : Token) : Prop where
  kind : u.kind = t.kind
  name : u.name = t.name
  attributes : Attribute.Reordered t.attributes u.attributes
  spelling : (u.text.drop 1).take t.name.length = (t.text.drop 1).take t.name.length
  ending : "/>".toList.isSuffixOf u.text = "/>".toList.isSuffixOf t.text

variable {t u : Token}

theorem Reorders.keptTag?_eq (h : Reorders t u) (options : Options) :
    u.keptTag? options = t.keptTag? options := by
  simp only [keptTag?, openTagWith, h.attributes.remaining_eq, h.name, h.spelling, h.ending]

end Token

namespace Emission

variable {t u : Token}

/-- Of the text of a tag with directives nothing else counts. -/
def SameText (t u : Token) : Prop :=
  u.text = t.text ∨ t.kind = .tagOpen ∧ Clause.ofAttributes t.attributes ≠ []

/-- The text is read only where there are no directives. -/
theorem SameText.ite_eq (h : SameText t u) {α : Type} (f : Text → α) (x : α) :
    (if (Clause.ofAttributes t.attributes).isEmpty then f u.text else x) =
      if (Clause.ofAttributes t.attributes).isEmpty then f t.text else x := by
  rcases h with htext | ⟨-, hclauses⟩
  · rw [htext]
  · have hnonempty : (Clause.ofAttributes t.attributes).isEmpty = false := by simpa using hclauses
    simp only [hnonempty, Bool.false_eq_true, if_false]

theorem openElement_of_reorders (options : Options) (s : Emission) (h : t.Reorders u)
    (htext : SameText t u) (stop : Nat) :
    openElement options s u stop = openElement options s t stop := by
  unfold openElement
  rw [← h.attributes.ofAttributes_eq, h.keptTag?_eq]
  exact htext.ite_eq (fun text => (s.writeLiteral text, (⟨stop, true, [], []⟩ : Element))) _

theorem loneTag_of_reorders (options : Options) (s : Emission) (h : t.Reorders u)
    (htext : SameText t u) : loneTag options s u = loneTag options s t := by
  unfold loneTag
  rw [← h.attributes.ofAttributes_eq, h.keptTag?_eq]
  exact htext.ite_eq s.writeLiteral _

theorem emitInside_of_reorders (options : Options) (limit i : Nat) (p : Progress)
    (h : t.Reorders u) (htext : SameText t u) (partner : Option Nat) :
    emitInside options limit i p ⟨u, partner⟩ = emitInside options limit i p ⟨t, partner⟩ := by
  unfold emitInside
  simp only [h.kind, loneTag_of_reorders options _ h htext,
    openElement_of_reorders options _ h htext]
  rcases htext with htext | ⟨hkind, -⟩
  · simp only [htext]
  · simp only [hkind]

/-! ## The whole token list -/

/-- A token opens at most one element, which ends at its partner. -/
theorem mem_waiting_emitInside (options : Options) {limit i : Nat} {p : Progress}
    {t : Token.Paired} {e : Element} (h : e ∈ (emitInside options limit i p t).waiting) :
    e ∈ p.waiting ∨ t.partner = some e.stop := by
  unfold emitInside at h
  split at h
  · exact .inl h
  · exact .inl h
  · exact .inl h
  · split at h <;> exact .inl h
  · split at h
    · next stop hpartner =>
      split at h
      · rcases List.mem_cons.mp h with rfl | hmem
        · exact .inr (by rw [hpartner, openElement_stop])
        · exact .inl hmem
      · exact .inl h
    · exact .inl h

theorem mem_waiting_emitToken (options : Options) {count i : Nat} {p : Progress}
    {t : Token.Paired} {e : Element} (h : e ∈ (emitToken options count i p t).waiting) :
    e ∈ p.waiting ∨ t.partner = some e.stop := by
  unfold emitToken at h
  split at h
  · exact mem_waiting_emitInside options h
  · next f waiting hwaiting =>
    split at h
    · exact .inl (hwaiting ▸ List.mem_cons_of_mem f h)
    · exact mem_waiting_emitInside options h

/-- What waits was waiting before or has been opened by one of the tokens. -/
theorem mem_waiting_emitFrom (options : Options) {count i : Nat} {p : Progress}
    {ts : List Token.Paired} {e : Element} (h : e ∈ (emitFrom options count i p ts).waiting) :
    e ∈ p.waiting ∨ ∃ t ∈ ts, t.partner = some e.stop := by
  induction ts generalizing i p with
  | nil => exact .inl h
  | cons t ts ih =>
    rcases ih h with hmem | ⟨u, hu, hpartner⟩
    · rcases mem_waiting_emitToken options hmem with hwaiting | hpartner
      · exact .inl hwaiting
      · exact .inr ⟨t, List.mem_cons_self, hpartner⟩
    · exact .inr ⟨u, List.mem_cons_of_mem t hu, hpartner⟩

theorem emitToken_of_reorders (options : Options) (count i : Nat) (p : Progress)
    (h : t.Reorders u) (partner : Option Nat)
    (htext : u.text = t.text ∨ SameText t u ∧ ∀ e ∈ p.waiting, e.stop ≠ i) :
    emitToken options count i p ⟨u, partner⟩ = emitToken options count i p ⟨t, partner⟩ := by
  have hsame : SameText t u := htext.elim .inl (·.1)
  unfold emitToken
  split
  · exact emitInside_of_reorders options count i p h hsame partner
  · next e waiting hwaiting =>
    split
    · next hstop =>
      rcases htext with htext | ⟨-, hstops⟩
      · simp only [htext]
      · exact absurd hstop (hstops e (hwaiting ▸ List.mem_cons_self))
    · exact emitInside_of_reorders options e.stop i p h hsame partner

/-- Reordering the attributes of one tag does not change what a token list emits, whatever stands
around the tag and whatever the state is in which emission starts. The text of the tag may be
another one as long as nothing reads it: the tag has directives and closes no element. -/
theorem emitFrom_of_reorders (options : Options) (count : Nat) (s : Emission)
    (before after : List Token.Paired) (partner : Option Nat) (h : t.Reorders u)
    (htext : u.text = t.text ∨ (t.kind = .tagOpen ∧ Clause.ofAttributes t.attributes ≠ []) ∧
      ∀ p ∈ before, p.partner ≠ some before.length) :
    emitFrom options count 0 ⟨s, []⟩ (before ++ ⟨u, partner⟩ :: after) =
      emitFrom options count 0 ⟨s, []⟩ (before ++ ⟨t, partner⟩ :: after) := by
  rw [emitFrom_append, emitFrom_append, Nat.zero_add]
  have hstep := emitToken_of_reorders options count before.length
    (emitFrom options count 0 ⟨s, []⟩ before) h partner <| by
      refine htext.imp_right fun ⟨hdirectives, hpartners⟩ => ⟨.inr hdirectives, fun e he => ?_⟩
      rcases mem_waiting_emitFrom options he with hmem | ⟨p, hp, hpartner⟩
      · exact absurd hmem List.not_mem_nil
      · exact fun hstop => hpartners p hp (hstop ▸ hpartner)
  simp only [emitFrom, hstep]

/-- Three attributes in two orders, inside an include and between a text and the closing tag. -/
theorem emitFrom_of_reorders_paragraph :
    let t := Token.ofMarkup .tagOpen 0 "<p class=a data-if=x data-for=y>".toList
    let u := Token.ofMarkup .tagOpen 0 "<p data-for=y class=a data-if=x>".toList
    let text : Token.Paired := ⟨Token.plain .text 0 "{{ x }}".toList, none⟩
    let close : Token.Paired := ⟨Token.ofMarkup .tagClose 0 "</p>".toList, some 1⟩
    let inside : Emission := { start with depth := 1 }
    t.Reorders u ∧ Clause.ofAttributes t.attributes ≠ [] ∧
      emitFrom Options.default 3 0 ⟨inside, []⟩ ([text] ++ ⟨u, some 2⟩ :: [close]) =
        emitFrom Options.default 3 0 ⟨inside, []⟩ ([text] ++ ⟨t, some 2⟩ :: [close]) := by
  intro t u text close inside
  have hreorders : t.Reorders u :=
    { kind := by decide +kernel
      name := by decide +kernel
      attributes := ⟨by decide +kernel, by rintro (_ | _ | _ | _ | _) <;> decide +kernel⟩
      spelling := by decide +kernel
      ending := by decide +kernel }
  have hdirectives : Clause.ofAttributes t.attributes ≠ [] := by decide +kernel
  exact ⟨hreorders, hdirectives,
    emitFrom_of_reorders Options.default 3 inside [text] [close] (some 2) hreorders
      (.inr ⟨⟨by decide +kernel, hdirectives⟩, by simp [text]⟩)⟩

end Emission

end HtmlTemplate
