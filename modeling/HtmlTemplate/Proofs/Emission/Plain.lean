import HtmlTemplate.Proofs.Emission.Simulation
import HtmlTemplate.Proofs.Markup.Tokens

/-!
Templates of markup alone, without interpolations and directives. Emission keeps the texts of the
tokens in order and drops the comments that are not conditional (`atoms_rangeInstrs_of_plain`), so
such a template is compiled to its kept text (`instrs_of_plain`).
-/

namespace HtmlTemplate

/-! ## Texts -/

namespace Text

/-- No interpolation begins in the text. -/
def IsLiteral (t : Text) : Prop := ¬['#', '\x7b'] <:+: t ∧ ¬['!', '\x7b'] <:+: t

instance (t : Text) : Decidable t.IsLiteral := inferInstanceAs (Decidable (_ ∧ _))

theorem IsLiteral.of_infix {s t : Text} (h : t.IsLiteral) (hst : s <:+: t) : s.IsLiteral :=
  ⟨fun hs => h.1 (hs.trans hst), fun hs => h.2 (hs.trans hst)⟩

end Text

namespace Fragment

theorem interpolation?_of_isLiteral {t : Text} (h : t.IsLiteral) : interpolation? t = none := by
  unfold interpolation?
  split
  · next sigil cs =>
    have hprefix : [sigil, '\x7b'] <:+: sigil :: '\x7b' :: cs :=
      (List.prefix_append [sigil, '\x7b'] cs).isInfix
    refine if_neg ?_
    rintro (rfl | rfl)
    · exact h.1 hprefix
    · exact h.2 hprefix
  · rfl

theorem split_of_isLiteral {t : Text} (h : t.IsLiteral) :
    split t = if t.isEmpty then [] else [text t] := by
  induction t with
  | nil =>
    unfold split
    rfl
  | cons c t ih =>
    have hnone := interpolation?_of_isLiteral h
    have htail := ih (h.of_infix (List.suffix_cons c t).isInfix)
    unfold split
    split
    · next hsome => simp [hsome] at hnone
    · rw [htail]
      cases t <;> rfl

end Fragment

namespace Instr

theorem atoms_literal_of_isLiteral {t : Text} (h : t.IsLiteral) :
    allAtoms (literal t) = t.map .char := by
  rw [literal, Fragment.split_of_isLiteral h]
  cases t with
  | nil => rfl
  | cons c t => simp [Fragment.instr]

/-- Instructions that write one text are that text in normal form. -/
theorem optimize_of_atoms_eq {xs : List Instr} {t : Text} (h : allAtoms xs = t.map .char) :
    optimize xs = if t.isEmpty then [] else [text t] := by
  have hnormal : optimize (if t.isEmpty then [] else [text t]) =
      if t.isEmpty then [] else [text t] := by
    cases t <;> rfl
  rw [← hnormal, optimize_eq_iff, h]
  cases t with
  | nil => rfl
  | cons c t => simp

end Instr

/-! ## Tokens -/

namespace Token

/-- An opening tag without directives, or any other token. -/
def IsPlain (t : Token) : Prop :=
  t.kind = .tagOpen → ∀ a ∈ t.attributes, Directive.ofKey? a.key = none

instance (t : Token) : Decidable t.IsPlain :=
  inferInstanceAs
    (Decidable (t.kind = .tagOpen → ∀ a ∈ t.attributes, Directive.ofKey? a.key = none))

theorem ofAttributes_of_isPlain {t : Token} (h : t.IsPlain) (hkind : t.kind = .tagOpen) :
    Clause.ofAttributes t.attributes = [] := by
  have hnone : t.attributes.filterMap Clause.ofAttribute? = [] := by
    rw [List.filterMap_eq_nil_iff]
    intro a ha
    rw [Clause.ofAttribute?, h hkind a ha]
    rfl
  rw [Clause.ofAttributes, hnone]
  rfl

theorem elementInstrs_of_isPlain (options : Options) (x : Context) {t : Token} (h : t.IsPlain)
    (hkind : t.kind = .tagOpen) (closingTag : Text) (body : Context → List Instr) :
    t.elementInstrs options x closingTag body =
      Instr.literal t.text ++ body x ++ Instr.literal closingTag := by
  rw [elementInstrs, Clause.inOrder_eq_ofAttributes, ofAttributes_of_isPlain h hkind]
  rfl

theorem atoms_instrs_of_isPlain (options : Options) (x : Context) {t : Token} (h : t.IsPlain)
    (htext : t.text.IsLiteral) :
    Instr.allAtoms (t.instrs options x) = if t.isDropped then [] else t.text.map .char := by
  have hliteral := Instr.atoms_literal_of_isLiteral htext
  unfold instrs
  cases hkind : t.kind with
  | comment =>
    cases hconditional : isConditionalComment t.text <;> simp [isDropped, hkind, hconditional]
  | tagOpen =>
    rw [loneInstrs, Clause.inOrder_eq_ofAttributes, ofAttributes_of_isPlain h hkind]
    simpa [isDropped, hkind] using hliteral
  | _ => simpa [isDropped, hkind] using hliteral

structure Plain (tokens : List Paired) : Prop where
  text : ∀ t ∈ tokens, t.token.text.IsLiteral
  directive : ∀ t ∈ tokens, t.token.IsPlain
  partner : ∀ (i e : Nat) (t : Paired), tokens[i]? = some t → t.token.kind = .tagOpen →
    t.partner = some e → ∃ u : Paired, tokens[e]? = some u ∧ u.token.kind = .tagClose

/-- A range of tokens writes the texts that are kept. The induction is on the length of the range:
an element divides it into the range between its tags and the range after it. -/
theorem atoms_rangeInstrs_of_plain (options : Options) {tokens : List Paired} (h : Plain tokens)
    (x : Context) {lo hi : Nat} (hhi : hi ≤ tokens.length) :
    Instr.allAtoms (rangeInstrs options tokens x lo hi) =
      (keptText ((Emission.segment tokens lo hi).map (·.token))).map .char := by
  induction hn : hi - lo using Nat.strongRecOn generalizing lo hi with
  | ind n ih =>
    rcases Nat.lt_or_ge lo hi with hlt | hge
    · obtain ⟨t, ht⟩ : ∃ t, tokens[lo]? = some t := ⟨_, List.getElem?_eq_getElem (by omega)⟩
      have hmem := List.mem_of_getElem? ht
      have hsegment := Emission.segment_eq_append (Nat.le_refl lo) hlt ht
      rw [Emission.segment_self, List.nil_append] at hsegment
      cases hc : t.closing? lo hi with
      | none =>
        have hrest := ih (hi - (lo + 1)) (by omega) hhi rfl
        rw [rangeInstrs_single hlt ht hc, Instr.allAtoms_append, hrest, hsegment,
          atoms_instrs_of_isPlain options x (h.directive t hmem) (h.text t hmem)]
        cases hdropped : t.token.isDropped with
        | true =>
          rw [if_pos rfl, List.map_cons, keptText_cons_of_dropped hdropped, List.nil_append]
        | false => simp [keptText_cons_of_kept hdropped]
      | some e =>
        obtain ⟨hloe, hehi⟩ := Paired.lt_of_closing? hc
        obtain ⟨hkind, hpartner⟩ := Paired.kind_of_closing? hc
        obtain ⟨u, hu, hclose⟩ := h.partner lo e t ht hkind hpartner
        have hbody := ih (e - (lo + 1)) (by omega) (by omega) rfl
        have hrest := ih (hi - (e + 1)) (by omega) hhi rfl
        have htext : textAt tokens e = u.token.text := by simp [textAt, hu]
        have hkept : t.token.isDropped = false := isDropped_of_ne_comment (by simp [hkind])
        have hkept' : u.token.isDropped = false := isDropped_of_ne_comment (by simp [hclose])
        rw [rangeInstrs_element ht hc,
          elementInstrs_of_isPlain options x (h.directive t hmem) hkind, htext, hsegment,
          Emission.segment_eq_append hloe hehi hu]
        simp [hbody, hrest, keptText_append, keptText_cons_of_kept hkept,
          keptText_cons_of_kept hkept', Instr.atoms_literal_of_isLiteral (h.text t hmem),
          Instr.atoms_literal_of_isLiteral (h.text u (List.mem_of_getElem? hu))]
    · have hempty : Emission.segment tokens lo hi = [] :=
        List.drop_eq_nil_of_le (Nat.le_trans (List.length_take_le _ _) hge)
      unfold rangeInstrs
      rw [dif_neg (Nat.not_lt.mpr hge), hempty]
      rfl

/-- The tokens of a template without interpolations, the directives apart. -/
theorem plain_associate_lex {source : Text} (hsource : source.IsLiteral)
    (hdirective : ∀ t ∈ associate (lex source), t.token.IsPlain) :
    Plain (associate (lex source)) where
  text t ht := by
    refine hsource.of_infix ?_
    rw [← flatMap_text_associate_lex source, List.flatMap_def]
    exact List.infix_of_mem_flatten (List.mem_map_of_mem ht)
  directive := hdirective
  partner _ _ _ := kind_of_partner

end Token

namespace Compile

/-- A template without interpolations and directives is compiled to the text that is kept. -/
theorem instrs_of_plain {source : Text} {options : Options}
    (h : Token.Plain (tokens source options)) :
    instrs source options =
      let out := Token.keptText ((tokens source options).map (·.token))
      if out.isEmpty then [] else [.text out] := by
  apply Instr.optimize_of_atoms_eq
  have hall : Emission.segment (tokens source options) 0 (tokens source options).length =
      tokens source options := by simp [Emission.segment]
  rw [emission, Emission.allAtoms_finish_ofTokens,
    Token.atoms_rangeInstrs_of_plain options h ⟨0, 0⟩ (Nat.le_refl _), hall]

end Compile

end HtmlTemplate
