import HtmlTemplate.Markup.Cleaning
import HtmlTemplate.Proofs.Markup.Tokens

/-!
Cleaning against lexing. Cleaning finds comments by their first characters wherever they stand,
lexing finds them as tokens. The two agree (`commentsAgree`) where cleaning finds a comment to
remove only as a token, and then the source without its comments is the kept text of its tokens
(`keptText_associate_lex`). Collapsing changes nothing but blanks (`inked_clean`).
-/

namespace HtmlTemplate

namespace Text

/-- The characters of the text that are not blank. -/
def inked (t : Text) : Text := t.filter (!isBlank ·)

theorem inked_cons_of_blank {c : Char} (h : isBlank c = true) (t : Text) :
    inked (c :: t) = inked t := by
  simp [inked, h]

theorem inked_cons_of_not_blank {c : Char} (h : ¬isBlank c = true) (t : Text) :
    inked (c :: t) = c :: inked t := by
  simp [inked, h]

def HasComment (t : Text) : Prop := "<!--".toList <:+: t

instance (t : Text) : Decidable t.HasComment := inferInstanceAs (Decidable (_ <:+: _))

/-- Capital letters are moved, and nothing else. -/
theorem toLower_cases (c : Char) :
    c.toLower = c ∨ 65 ≤ c.toNat ∧ c.toNat ≤ 90 ∧ c.toLower.toNat = c.toNat + 32 := by
  unfold Char.toLower
  split
  · next hupper =>
    have hlo : 65 ≤ c.toNat := UInt32.le_iff_toNat_le.mp hupper.1
    have hhi : c.toNat ≤ 90 := UInt32.le_iff_toNat_le.mp hupper.2
    refine .inr ⟨hlo, hhi, ?_⟩
    change (c.val + 32).toNat = c.toNat + 32
    rw [UInt32.toNat_add]
    exact Nat.mod_eq_of_lt (by change c.toNat + 32 < _; omega)
  · exact .inl rfl

theorem eq_of_toLower_eq {c d : Char} (h : c.toLower = d) (hd : d.isLower = false) : c = d := by
  rcases toLower_cases c with hsame | ⟨hlo, hhi, hval⟩
  · exact hsame ▸ h
  · rw [h] at hval
    have hlo' : 97 ≤ d.toNat := by omega
    have hhi' : d.toNat ≤ 122 := by omega
    have hlower : d.isLower = true := (Bool.and_eq_true _ _).mpr
      ⟨decide_eq_true (UInt32.le_iff_toNat_le.mpr hlo'),
        decide_eq_true (UInt32.le_iff_toNat_le.mpr hhi')⟩
    simp [hd] at hlower

theorem head?_of_lowerAscii_take {n : Nat} {t u : Text} (h : lowerAscii (t.take n) = '<' :: u) :
    t.head? = some '<' := by
  cases t with
  | nil => simp [lowerAscii] at h
  | cons c t =>
    cases n with
    | zero => simp [lowerAscii] at h
    | succ n => exact congrArg some (eq_of_toLower_eq (List.cons.inj h).1 rfl)

/-! ## Searching across a seam -/

/-- Where the texts meet, the first one ends with `>` or the other one begins with `<`. -/
def Seam (t rest : Text) : Prop := ∀ c ∈ t.getLast?, ∀ d ∈ rest.head?, c = '>' ∨ d = '<'

theorem seam_of_cut {t rest : Text}
    (h : rest = [] ∨ rest.head? = some '<' ∨ t.getLast? = some '>') : Seam t rest := by
  intro c hc d hd
  rcases h with rfl | hrest | ht
  · cases hd
  · exact .inr (Option.some.inj (hd.symm.trans hrest))
  · exact .inl (Option.some.inj (hc.symm.trans ht))

theorem Seam.of_append {t u rest : Text} (h : Seam (t ++ u) rest) : Seam u rest := by
  intro c hc
  refine h c ?_
  rw [List.getLast?_append, Option.mem_def.mp hc]
  rfl

/-- Text to search for that cannot lie across a seam. -/
def StaysWhole (needle : Text) : Prop := '<' ∉ needle.tail ∧ '>' ∉ needle.dropLast

instance (needle : Text) : Decidable (StaysWhole needle) := inferInstanceAs (Decidable (_ ∧ _))

theorem not_prefix_append {needle t rest : Text} (hwhole : StaysWhole needle) (hne : t ≠ [])
    (hseam : Seam t rest) (h : ¬needle <+: t) : ¬needle <+: t ++ rest := by
  intro hprefix
  rcases List.prefix_or_prefix_of_prefix hprefix (List.prefix_append t rest) with hin | ⟨more, rfl⟩
  · exact h hin
  · have hmore : more <+: rest := (List.prefix_append_right_inj t).mp hprefix
    cases more with
    | nil => exact h (by simp)
    | cons d more =>
      obtain ⟨behind, rfl⟩ := hmore
      rcases hseam _ (List.getLast?_eq_some_getLast hne) d rfl with hlast | rfl
      · refine hwhole.2 ?_
        rw [List.dropLast_append_of_ne_nil (List.cons_ne_nil d more), ← hlast]
        exact List.mem_append_left _ (List.getLast_mem hne)
      · refine hwhole.1 ?_
        rw [List.tail_append_of_ne_nil hne]
        exact List.mem_append_right _ List.mem_cons_self

theorem breakOn_append_of_none {needle t rest : Text} (hwhole : StaysWhole needle)
    (hseam : Seam t rest) (h : breakOn needle t = none) :
    breakOn needle (t ++ rest) = (breakOn needle rest).map fun cut => (t ++ cut.1, cut.2) := by
  induction t with
  | nil => simp
  | cons c t ih =>
    by_cases hprefix : needle.isPrefixOf (c :: t) = true
    · simp [breakOn, hprefix] at h
    · have hnone : breakOn needle t = none := by simpa [breakOn, hprefix] using h
      have happend : ¬needle.isPrefixOf (c :: (t ++ rest)) = true := by
        rw [List.isPrefixOf_iff_prefix] at hprefix ⊢
        exact not_prefix_append hwhole (List.cons_ne_nil c t) hseam hprefix
      rw [List.cons_append, breakOn, if_neg happend, ih (hseam.of_append (t := [c])) hnone,
        Option.map_map]
      rfl

theorem breakOn_append_of_some {needle t before after : Text}
    (h : breakOn needle t = some (before, after)) (rest : Text) :
    breakOn needle (t ++ rest) = some (before, after ++ rest) := by
  induction t generalizing before with
  | nil => cases h
  | cons c t ih =>
    by_cases hprefix : needle.isPrefixOf (c :: t) = true
    · obtain ⟨rfl, rfl⟩ : [] = before ∧ (c :: t).drop needle.length = after := by
        simpa [breakOn, hprefix] using h
      rw [List.isPrefixOf_iff_prefix] at hprefix
      have happend := List.isPrefixOf_iff_prefix.mpr
        (List.IsPrefix.trans hprefix (List.prefix_append _ rest))
      rw [List.cons_append] at happend ⊢
      rw [breakOn, if_pos happend, ← List.cons_append,
        List.drop_append_of_le_length hprefix.length_le]
    · obtain ⟨⟨before, after'⟩, hfound, hcut⟩ :
          ∃ cut, breakOn needle t = some cut ∧ (c :: cut.1, cut.2) = (_, after) := by
        simpa [breakOn, hprefix] using h
      obtain ⟨rfl, rfl⟩ := Prod.mk.inj hcut
      have hlength : needle.length ≤ t.length := by
        rw [eq_of_breakOn_eq_some hfound]
        simp
        omega
      have happend : ¬needle.isPrefixOf (c :: (t ++ rest)) = true := by
        rw [List.isPrefixOf_iff_prefix] at hprefix ⊢
        exact fun hneedle => hprefix (List.prefix_of_prefix_length_le hneedle
          (List.prefix_append (c :: t) rest) (Nat.le_succ_of_le hlength))
      rw [List.cons_append, breakOn, if_neg happend, ih hfound]
      rfl

theorem breakOn_of_not_hasComment {t : Text} (h : ¬t.HasComment) : breakOn "<!--" t = none := by
  cases hbreak : breakOn "<!--" t with
  | none => rfl
  | some cut =>
    rw [eq_of_breakOn_eq_some hbreak] at h
    exact absurd (List.infix_append _ _ _) h

/-- Reads a text that stands inside of a conditional comment or outside, and tells where it ends.
There is no result if a comment of another kind begins. -/
def conditionalAfter (inside : Bool) (t : Text) : Option Bool :=
  match inside with
  | true =>
    match _h : breakOn "-->" t with
    | none => some true
    | some (_, rest) => conditionalAfter false rest
  | false =>
    match _h : breakOn "<!--" t with
    | none => some false
    | some (_, body) => if body.head? = some '[' then conditionalAfter true body else none
termination_by t.length
decreasing_by
  all_goals
    rw [eq_of_breakOn_eq_some _h]
    simp
    omega

theorem conditionalAfter_true (t : Text) :
    conditionalAfter true t =
      (breakOn "-->" t).elim (some true) fun cut => conditionalAfter false cut.2 := by
  rw [conditionalAfter]
  split
  · next h => rw [h, Option.elim_none]
  · next h => rw [h, Option.elim_some]

theorem conditionalAfter_false (t : Text) :
    conditionalAfter false t =
      (breakOn "<!--" t).elim (some false) fun cut =>
        if cut.2.head? = some '[' then conditionalAfter true cut.2 else none := by
  rw [conditionalAfter]
  split
  · next h => rw [h, Option.elim_none]
  · next h => rw [h, Option.elim_some]

end Text

namespace Markup

/-! ## Removing comments -/

@[simp] theorem removeComments_nil : removeComments [] = [] := by
  unfold removeComments
  rfl

theorem removeComments_of_none {source : Text} (h : Text.breakOn "<!--" source = none) :
    removeComments source = source := by
  unfold removeComments
  split
  · rfl
  · next hsome => cases h.symm.trans hsome

theorem removeComments_of_some {source before body : Text}
    (h : Text.breakOn "<!--" source = some (before, body)) :
    removeComments source =
      before ++ (if body.head? = some '[' then "<!--" ++ (Token.cutAfterComment body).1 else []) ++
        removeComments (Token.cutAfterComment body).2 := by
  conv => lhs; unfold removeComments
  split
  · next hnone => cases h.symm.trans hnone
  · next before' body' hsome =>
    obtain ⟨rfl, rfl⟩ := Prod.mk.inj (Option.some.inj (h.symm.trans hsome))
    rfl

theorem removeComments_comment (body : Text) :
    removeComments ("<!--" ++ body) =
      (if body.head? = some '[' then "<!--" ++ (Token.cutAfterComment body).1 else []) ++
        removeComments (Token.cutAfterComment body).2 := by
  have hbreak : Text.breakOn "<!--" ("<!--" ++ body) = some ([], body) := rfl
  rw [removeComments_of_some hbreak, List.nil_append]

theorem removeComments_of_not_hasComment {source : Text} (h : ¬source.HasComment) :
    removeComments source = source :=
  removeComments_of_none (Text.breakOn_of_not_hasComment h)

/-- What is left of a text that stands inside of a conditional comment or outside. -/
def removeFrom (inside : Bool) (cs : Text) : Text :=
  if inside then (Token.cutAfterComment cs).1 ++ removeComments (Token.cutAfterComment cs).2
  else removeComments cs

theorem removeComments_append_of_none {t rest : Text} (hseam : Text.Seam t rest)
    (h : Text.breakOn "<!--" t = none) :
    removeComments (t ++ rest) = t ++ removeComments rest := by
  have hcut := Text.breakOn_append_of_none (by decide) hseam h
  cases hrest : Text.breakOn "<!--" rest with
  | none =>
    rw [hrest] at hcut
    rw [removeComments_of_none hcut, removeComments_of_none hrest]
  | some cut =>
    rw [hrest] at hcut
    rw [removeComments_of_some hcut, removeComments_of_some hrest]
    simp only [List.append_assoc]

/-- A text with conditional comments only is left as it is, whatever follows it behind a seam. -/
theorem removeFrom_append {inside behind : Bool} {t rest : Text} (hseam : Text.Seam t rest)
    (h : t.conditionalAfter inside = some behind) :
    removeFrom inside (t ++ rest) = t ++ removeFrom behind rest := by
  induction inside, t using Text.conditionalAfter.induct with
  | case1 t hbreak =>
    rw [Text.conditionalAfter_true, hbreak] at h
    obtain rfl := Option.some.inj h
    have hcut := Text.breakOn_append_of_none (by decide) hseam hbreak
    simp only [removeFrom, if_true, Token.cutAfterComment, hcut]
    cases Text.breakOn "-->" rest <;> simp
  | case2 t before after hbreak ih =>
    rw [Text.conditionalAfter_true, hbreak] at h
    have ht := Text.eq_of_breakOn_eq_some hbreak
    have hafter := ih (Text.Seam.of_append (ht ▸ hseam)) h
    have hcut := Text.breakOn_append_of_some hbreak rest
    simp only [removeFrom, if_true, Bool.false_eq_true, if_false, Token.cutAfterComment, hcut]
      at hafter ⊢
    rw [hafter, ht]
    simp only [List.append_assoc]
  | case3 t hbreak =>
    rw [Text.conditionalAfter_false, hbreak] at h
    obtain rfl := Option.some.inj h
    exact removeComments_append_of_none hseam hbreak
  | case4 t before body hbreak hbracket ih =>
    rw [Text.conditionalAfter_false, hbreak, Option.elim_some, if_pos hbracket] at h
    have ht := Text.eq_of_breakOn_eq_some hbreak
    have hbody := ih (Text.Seam.of_append (ht ▸ hseam)) h
    have hcut := Text.breakOn_append_of_some hbreak rest
    have hhead : (body ++ rest).head? = some '[' := by
      rw [List.head?_append, hbracket, Option.some_or]
    simp only [removeFrom, if_true, Bool.false_eq_true, if_false] at hbody ⊢
    rw [removeComments_of_some hcut, if_pos hhead, ht]
    simp only [List.append_assoc, hbody]
  | case5 t before body hbreak hbracket =>
    rw [Text.conditionalAfter_false, hbreak, Option.elim_some, if_neg hbracket] at h
    cases h

end Markup

namespace Token

/-! ## Where tokens meet -/

theorem head?_of_markup? {cs : Text} (h : (markup? cs).isSome) : cs.head? = some '<' := by
  unfold markup? at h
  split at h
  · next hcomment =>
    obtain ⟨rest, rfl⟩ := List.isPrefixOf_iff_prefix.mp hcomment
    rfl
  · split at h
    · next hdoctype => exact Text.head?_of_lowerAscii_take hdoctype
    · split at h <;> first | rfl | simp at h

theorem edge_cutBeforeMarkup (cs : Text) :
    (cutBeforeMarkup cs).2 = [] ∨ (cutBeforeMarkup cs).2.head? = some '<' := by
  induction cs with
  | nil => exact .inl rfl
  | cons c cs ih =>
    unfold cutBeforeMarkup
    split
    · next hmarkup => exact .inr (head?_of_markup? hmarkup)
    · exact ih

theorem edge_cutAfterTag (open? : Option Char) (cs : Text) :
    (cutAfterTag open? cs).2 = [] ∨ (cutAfterTag open? cs).1.getLast? = some '>' := by
  induction cs generalizing open? with
  | nil => exact .inl rfl
  | cons c cs ih =>
    unfold cutAfterTag
    split
    · next hclose =>
      obtain ⟨-, rfl⟩ := by simpa using hclose
      exact .inr rfl
    · refine (ih _).imp_right fun hlast => ?_
      simp [List.getLast?_cons, hlast]

theorem edge_cutBeforeClosing (name cs : Text) :
    (cutBeforeClosing name cs).2 = [] ∨ (cutBeforeClosing name cs).2.head? = some '<' := by
  induction cs with
  | nil => exact .inl rfl
  | cons c cs ih =>
    unfold cutBeforeClosing
    split
    · next hclosing => exact .inr (Text.head?_of_lowerAscii_take hclosing)
    · exact ih

theorem cutAfterComment_ne_nil {body : Text} (h : body ≠ []) :
    (cutAfterComment body).1 ≠ [] := by
  unfold cutAfterComment
  split
  · simp
  · exact h

theorem head?_cutAfterComment (body : Text) : (cutAfterComment body).1.head? = body.head? := by
  by_cases hbody : body = []
  · rw [hbody]
    rfl
  · obtain ⟨c, comment, hcomment⟩ :=
      List.exists_cons_of_ne_nil (cutAfterComment_ne_nil hbody)
    have hbody := append_cutAfterComment body
    rw [hcomment] at hbody ⊢
    rw [← hbody]
    rfl

theorem edge_cutAfterComment (body : Text) :
    (cutAfterComment body).2 = [] ∨ (cutAfterComment body).1.getLast? = some '>' := by
  unfold cutAfterComment
  split
  · exact .inr (by rw [List.getLast?_append]; rfl)
  · exact .inl rfl

theorem edge_cutAfterMarkup (kind : TokenKind) (cs : Text) :
    (cutAfterMarkup kind cs).2 = [] ∨ (cutAfterMarkup kind cs).1.getLast? = some '>' := by
  have hbehind {before cut : Text} (h : cut.getLast? = some '>') :
      (before ++ cut).getLast? = some '>' := by
    rw [List.getLast?_append, h, Option.some_or]
  cases kind with
  | comment => exact (edge_cutAfterComment (cs.drop 4)).imp_right hbehind
  | _ => exact (edge_cutAfterTag none (cs.drop 1)).imp_right hbehind

theorem eq_of_markup?_comment {cs : Text} (h : markup? cs = some .comment) :
    ∃ body, cs = "<!--" ++ body := by
  unfold markup? at h
  split at h
  · next hcomment =>
    obtain ⟨body, rfl⟩ := List.isPrefixOf_iff_prefix.mp hcomment
    exact ⟨body, rfl⟩
  · split at h
    · simp at h
    · split at h
      · split at h <;> simp at h
      · split at h <;> simp at h
      · simp at h

/-! ## Comments as tokens -/

theorem isDropped_comment (start : Nat) (body : Text) :
    (plain .comment start ("<!--" ++ (cutAfterComment body).1)).isDropped =
      !decide (body.head? = some '[') := by
  rw [← head?_cutAfterComment]
  cases (cutAfterComment body).1 with
  | nil => rfl
  | cons c comment =>
    have hprefix : isConditionalComment ("<!--" ++ c :: comment) = ('[' == c) := Bool.and_true _
    rw [isDropped, plain, hprefix, List.head?_cons]
    by_cases hc : c = '['
    · simp [hc]
    · simp [hc, Ne.symm hc]

/-- The tokens stand in the text one after the other. They meet in seams, and a comment that is
dropped goes to the first place where a comment that begins there ends. -/
def Joined : Text → List Token → Prop
  | cs, [] => cs = []
  | cs, t :: ts => ∃ rest, cs = t.text ++ rest ∧ Text.Seam t.text rest ∧
      (t.isDropped = true → ∃ body : Text, body.head? ≠ some '[' ∧
        t.text = "<!--" ++ (cutAfterComment body).1 ∧ rest = (cutAfterComment body).2) ∧
      Joined rest ts

theorem joined_cons_of_kept {t : Token} {ts : List Token} {rest : Text} (h : t.isDropped = false)
    (hseam : Text.Seam t.text rest) (hts : Joined rest ts) : Joined (t.text ++ rest) (t :: ts) :=
  ⟨rest, rfl, hseam, fun hdropped => absurd (h.symm.trans hdropped) Bool.false_ne_true, hts⟩

theorem joined_textToken_append {start : Nat} {text rest : Text} {ts : List Token}
    (hseam : Text.Seam text rest) (hts : Joined rest ts) :
    Joined (text ++ rest) (textToken start text ++ ts) := by
  unfold textToken
  split
  · next hempty =>
    rw [List.isEmpty_iff.mp hempty]
    exact hts
  · exact joined_cons_of_kept (t := plain .text start text) rfl hseam hts

theorem seam_rawTextAfter (t : Token) (cs : Text) :
    Text.Seam (t.rawTextAfter cs).1 (t.rawTextAfter cs).2 := by
  unfold rawTextAfter
  split
  · exact Text.seam_of_cut ((edge_cutBeforeClosing t.name cs).imp_right .inl)
  · exact fun _ hc => absurd hc nofun

theorem joined_lexFrom (start : Nat) (cs : Text) : Joined cs (lexFrom start cs) := by
  induction start, cs using lexFrom_induction with
  | nil start => rfl
  | text start c cs rest hmarkup ih =>
    have hcut := append_cutBeforeMarkup cs
    have hseam : Text.Seam (c :: (cutBeforeMarkup cs).1) (cutBeforeMarkup cs).2 :=
      Text.seam_of_cut ((edge_cutBeforeMarkup cs).imp_right .inl)
    have hjoined := joined_cons_of_kept (t := plain .text start (c :: (cutBeforeMarkup cs).1)) rfl
      hseam ih
    rwa [plain, List.cons_append, hcut] at hjoined
  | markup start c cs kind rest hmarkup cut token raw ih =>
    have htext : token.text = cut.1 := ofMarkup_text kind start cut.1
    have hraw : Joined cut.2 (textToken token.stop raw.1 ++ rest) := by
      have happend : Joined (raw.1 ++ raw.2) (textToken token.stop raw.1 ++ rest) :=
        joined_textToken_append (seam_rawTextAfter token cut.2) ih
      rwa [append_rawTextAfter] at happend
    rw [List.cons_append]
    refine ⟨cut.2, ?_, ?_, fun hdropped => ?_, hraw⟩
    · rw [htext]
      exact (append_cutAfterMarkup kind (c :: cs)).symm
    · rw [htext]
      exact Text.seam_of_cut ((edge_cutAfterMarkup kind (c :: cs)).imp_right .inr)
    · by_cases hcomment : kind = .comment
      · subst hcomment
        obtain ⟨body, hbody⟩ := eq_of_markup?_comment hmarkup
        have hcut : cut = ("<!--" ++ (cutAfterComment body).1, (cutAfterComment body).2) := by
          simp only [cut, hbody]
          rfl
        have htoken : token = plain .comment start ("<!--" ++ (cutAfterComment body).1) := by
          simp only [token, hcut]
          rfl
        rw [htoken, isDropped_comment] at hdropped
        exact ⟨body, by simpa using hdropped, by rw [htext, hcut], by rw [hcut]⟩
      · have hkept := isDropped_of_ne_comment (ofMarkup_kind_ne_comment hcomment start cut.1)
        exact absurd (hkept.symm.trans hdropped) Bool.false_ne_true

theorem Joined.neutralized {ts us : List Token} (h : List.Forall₂ Neutralized ts us) {cs : Text}
    (hts : Joined cs ts) : Joined cs us := by
  induction h generalizing cs with
  | nil => exact hts
  | @cons t u ts us hhead htail ih =>
    obtain ⟨rest, rfl, hseam, hdropped, hts⟩ := hts
    rcases hhead with rfl | rfl
    · exact ⟨rest, rfl, hseam, hdropped, ih hts⟩
    · exact joined_cons_of_kept (t := t.toText) rfl hseam (ih hts)

/-- Reads tokens that stand inside of a conditional comment or outside. Comments that are dropped
stand outside, and in the other tokens no comment begins but a conditional one. -/
def commentsAgree (inside : Bool) : List Token → Bool
  | [] => true
  | t :: ts =>
    if t.isDropped then !inside && commentsAgree false ts
    else (t.text.conditionalAfter inside).any fun behind => commentsAgree behind ts

/-- Where comments agree, removing comments leaves the kept text. -/
theorem removeFrom_of_joined {inside : Bool} {cs : Text} {ts : List Token} (h : Joined cs ts)
    (hagree : commentsAgree inside ts = true) : Markup.removeFrom inside cs = keptText ts := by
  induction ts generalizing inside cs with
  | nil =>
    obtain rfl : cs = [] := h
    cases inside <;> simp [Markup.removeFrom, keptText, cutAfterComment, Text.breakOn]
  | cons t ts ih =>
    obtain ⟨rest, rfl, hseam, hcomment, hts⟩ := h
    cases hdropped : t.isDropped with
    | true =>
      obtain ⟨rfl, hrest⟩ : inside = false ∧ commentsAgree false ts = true := by
        simpa [commentsAgree, hdropped] using hagree
      obtain ⟨body, hbracket, htext, rfl⟩ := hcomment hdropped
      have hremove := Markup.removeComments_comment body
      rw [if_neg hbracket, List.nil_append] at hremove
      rw [keptText_cons_of_dropped hdropped, ← ih hts hrest, htext, List.append_assoc,
        append_cutAfterComment]
      exact hremove
    | false =>
      rw [commentsAgree, hdropped, if_neg Bool.false_ne_true, Option.any_eq_true] at hagree
      obtain ⟨behind, hbehind, hagree⟩ := hagree
      rw [keptText_cons_of_kept hdropped, Markup.removeFrom_append hseam hbehind, ih hts hagree]

theorem keptText_associate_lex {source : Text}
    (h : commentsAgree false ((associate (lex source)).map (·.token)) = true) :
    keptText ((associate (lex source)).map (·.token)) = Markup.removeComments source := by
  have hjoined := (joined_lexFrom 0 source).neutralized (neutralized_associate (lex source))
  exact (removeFrom_of_joined hjoined h).symm

end Token

namespace Markup

/-! ## Collapsing blanks -/

theorem inked_collapseAfter (last : Option Char) (blank : Bool) (cs : Text) :
    Text.inked (collapseAfter last blank cs) = Text.inked cs := by
  have hspace (t : Text) : Text.inked (' ' :: t) = Text.inked t := Text.inked_cons_of_blank rfl t
  induction cs generalizing last blank with
  | nil => cases blank <;> rfl
  | cons c cs ih =>
    unfold collapseAfter
    split
    · next hblank => rw [ih, Text.inked_cons_of_blank hblank]
    · next hblank =>
      rw [Text.inked_cons_of_not_blank hblank]
      split
      · rw [hspace, Text.inked_cons_of_not_blank hblank, ih]
      · rw [Text.inked_cons_of_not_blank hblank, ih]

theorem inked_clean (source : Text) :
    Text.inked (clean source) = Text.inked (removeComments source) :=
  inked_collapseAfter none false (removeComments source)

end Markup

end HtmlTemplate
