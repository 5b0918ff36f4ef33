import HtmlTemplate.Proofs.Markup.Cleaning
import HtmlTemplate.Proofs.Text.Bytes
import HtmlTemplate.Proofs.Text.Trimming

/-!
What the tokens of a template are. The beginning of a token tells its kind (`markup?_eq_some_iff`);
a comment ends with its first `-->`, a tag or document type with its first `>` outside of quotes;
all else is text: raw text, the start of a tag that does not end, or a run in which no markup begins
(`allClassified_lex`).
-/

namespace HtmlTemplate

namespace Text

/-- The occurrence that a search finds is the first one. -/
theorem length_le_of_breakOn {needle t before after before' after' : Text}
    (h : breakOn needle t = some (before, after)) (h' : t = before' ++ needle ++ after') :
    before.length ≤ before'.length := by
  induction t generalizing before before' with
  | nil => cases h
  | cons c cs ih =>
    rw [breakOn] at h
    split at h
    · obtain ⟨rfl, -⟩ := Prod.mk.inj (Option.some.inj h)
      exact Nat.zero_le _
    · next hprefix =>
      obtain ⟨⟨before₁, after₁⟩, hfound, heq⟩ := Option.map_eq_some_iff.mp h
      obtain ⟨rfl, rfl⟩ := Prod.mk.inj heq
      cases before' with
      | nil =>
        have hhere : needle <+: c :: cs := ⟨after', by rw [h']; rfl⟩
        exact absurd (List.isPrefixOf_iff_prefix.mpr hhere) hprefix
      | cons d before' =>
        exact Nat.succ_le_succ (ih hfound (List.cons.inj h').2)

theorem breakOn_isSome_of_infix {needle t : Text} (hneedle : needle ≠ []) (h : needle <:+: t) :
    (breakOn needle t).isSome := by
  induction t with
  | nil => exact absurd (List.infix_nil.mp h) hneedle
  | cons c cs ih =>
    rw [breakOn]
    split
    · rfl
    · next hprefix =>
      rcases List.infix_cons_iff.mp h with hhere | hlater
      · exact absurd (List.isPrefixOf_iff_prefix.mpr hhere) hprefix
      · rw [Option.isSome_map]
        exact ih hlater

end Text

namespace Token
open Text

/-! ## Where markup begins -/

def Begins (kind : TokenKind) (cs : Text) : Prop :=
  match kind with
  | .text => False
  | .comment => "<!--".toList <+: cs
  | .doctype => "<!doctype".toList <+: Text.lowerAscii cs
  | .tagOpen => ∃ c, c.isAlpha ∧ ['<', c] <+: cs
  | .tagClose => ∃ c, c.isAlpha ∧ ['<', '/', c] <+: cs

theorem lowerAscii_take_eq_iff {p cs : Text} :
    lowerAscii (cs.take p.length) = p ↔ p <+: lowerAscii cs := by
  rw [List.prefix_iff_eq_take, lowerAscii, lowerAscii, List.map_take, eq_comm]

theorem begins_of_markup? {cs : Text} {kind : TokenKind} (h : markup? cs = some kind) :
    Begins kind cs := by
  unfold markup? at h
  split at h
  · next hcomment =>
    obtain rfl := Option.some.inj h
    exact List.isPrefixOf_iff_prefix.mp hcomment
  split at h
  · next hdoctype =>
    obtain rfl := Option.some.inj h
    exact lowerAscii_take_eq_iff (p := "<!doctype").mp hdoctype
  split at h
  · split at h
    · next halpha =>
      obtain rfl := Option.some.inj h
      exact ⟨_, halpha, List.prefix_append ['<', '/', _] _⟩
    · cases h
  · split at h
    · next halpha =>
      obtain rfl := Option.some.inj h
      exact ⟨_, halpha, List.prefix_append ['<', _] _⟩
    · cases h
  · cases h

theorem markup?_of_begins {cs : Text} {kind : TokenKind} (h : Begins kind cs) :
    markup? cs = some kind := by
  cases kind with
  | text => exact h.elim
  | comment => exact if_pos (List.isPrefixOf_iff_prefix.mpr h)
  | doctype =>
    have hcomment : ¬"<!--".toList.isPrefixOf cs := by
      intro hprefix
      obtain ⟨rest, rfl⟩ := List.isPrefixOf_iff_prefix.mp hprefix
      have hlower : "<!doctype".toList <+: '<' :: '!' :: '-' :: '-' :: lowerAscii rest := h
      simp at hlower
    have hdoctype : lowerAscii (cs.take 9) = "<!doctype".toList := lowerAscii_take_eq_iff.mpr h
    unfold markup?
    rw [if_neg hcomment, if_pos hdoctype]
  | tagOpen =>
    obtain ⟨c, halpha, rest, rfl⟩ := h
    have hne {d : Char} (hd : d.isAlpha = false) : c ≠ d := by
      rintro rfl
      simp [hd] at halpha
    have hlower : c.toLower ≠ '!' := fun heq => hne rfl (eq_of_toLower_eq heq rfl)
    have hcomment : ¬"<!--".toList.isPrefixOf ('<' :: c :: rest) := by
      simp [(hne (d := '!') rfl).symm]
    have hdoctype : lowerAscii (('<' :: c :: rest).take 9) ≠ "<!doctype".toList := by
      simp [lowerAscii, hlower]
    change markup? ('<' :: c :: rest) = some .tagOpen
    unfold markup?
    rw [if_neg hcomment, if_neg hdoctype]
    split
    · next heq => exact absurd (List.cons.inj (List.cons.inj heq).2).1 (hne rfl)
    · next heq =>
      obtain rfl := (List.cons.inj (List.cons.inj heq).2).1
      exact if_pos halpha
    · next hother => exact absurd rfl (hother c rest)
  | tagClose =>
    obtain ⟨c, halpha, rest, rfl⟩ := h
    simp [markup?, lowerAscii, halpha]

theorem markup?_eq_some_iff {cs : Text} {kind : TokenKind} :
    markup? cs = some kind ↔ Begins kind cs :=
  ⟨begins_of_markup?, markup?_of_begins⟩

theorem head?_of_begins {kind : TokenKind} {cs : Text} (h : Begins kind cs) : cs.head? = some '<' :=
  head?_of_markup? (Option.isSome_of_mem (markup?_of_begins h))

theorem begins_bytes {kind : TokenKind} {cs : Text} : Begins kind (bytes cs) ↔ Begins kind cs := by
  have hsome {c : Char} (hc : c.isAlpha) : IsAscii c :=
    isAscii_of_isAlphanum (by simp [Char.isAlphanum, hc])
  cases kind with
  | text => rfl
  | comment => exact prefix_bytes_iff (forall_isAscii rfl)
  | doctype =>
    have htake := lowerAscii_take_bytes (p := "<!doctype".toList) (forall_isAscii rfl) cs
    rwa [lowerAscii_take_eq_iff, lowerAscii_take_eq_iff] at htake
  | tagOpen =>
    refine exists_congr fun c => and_congr_right fun hc => prefix_bytes_iff ?_
    simp [hsome hc]
    decide
  | tagClose =>
    refine exists_congr fun c => and_congr_right fun hc => prefix_bytes_iff ?_
    simp [hsome hc]
    decide

/-! ## Classes -/

def openAfter (t : Text) : Option Char := t.foldl Attribute.nextQuote none

/-- The text ends after its first `>` outside of quotes, or at the end of the template if there is
none; `rest` is what follows it there. -/
structure EndsAtClose (t rest : Text) : Prop where
  quoted : ∀ before after, t = before ++ '>' :: after → after ≠ [] → (openAfter before).isSome
  ends : rest = [] ∨ ∃ before, t = before ++ ['>'] ∧ openAfter before = none

/-- The text is a comment that ends after the first `-->` behind its `<!--`, or at the end of the
template if there is none. -/
def IsComment (t rest : Text) : Prop :=
  ∃ body, t = "<!--" ++ body ∧
    ((∃ inside, body = inside ++ "-->") ∧
        (∀ before after, body = before ++ "-->" ++ after → after = []) ∨
      ¬"-->".toList <:+: body ∧ rest = [])

/-- The name of the token is the longest run of name characters after the opener, in lower case. -/
def IsNamed (opener : Text) (t : Token) : Prop :=
  ∃ written inside, t.text = opener ++ written ++ inside ∧ (∀ c ∈ written, isNameChar c) ∧
    (∀ c ∈ inside.head?, ¬isNameChar c) ∧ t.name = lowerAscii written

/-- The token is all that stands between an opening tag of a raw-text element and the next `</` with
its name, or the end of the template. -/
def IsRawContent (previous : Option Token) (t : Token) (rest : Text) : Prop :=
  ∃ p ∈ previous, p.opensRawText ∧ ¬("</" ++ p.name : Text) <:+: lowerAscii t.text ∧
    (rest = [] ∨ ("</" ++ p.name : Text) <+: lowerAscii rest)

/-- The text begins as a tag and has no `>` outside of quotes and none at its end. -/
def IsUnfinishedTag (t : Text) : Prop :=
  (Begins .tagOpen t ∨ Begins .tagClose t) ∧
    (∀ before after, t = before ++ '>' :: after → (openAfter before).isSome) ∧
    t.getLast? ≠ some '>'

/-- No markup begins at any byte of the text. -/
def IsRun (t rest : Text) : Prop :=
  ∀ i < byteSize t, ∀ kind, ¬Begins kind ((bytes (t ++ rest)).drop i)

/-- The token is what its kind says, between the token before it and the tokens after it. -/
def IsClassified (previous : Option Token) (t : Token) (after : List Token) : Prop :=
  let rest := after.flatMap (·.text)
  match t.kind with
  | .comment => IsComment t.text rest
  | .doctype => Begins .doctype t.text ∧ EndsAtClose t.text rest
  | .tagOpen =>
    Begins .tagOpen t.text ∧ EndsAtClose t.text rest ∧ t.text.getLast? = some '>' ∧ IsNamed "<" t
  | .tagClose =>
    Begins .tagClose t.text ∧ EndsAtClose t.text rest ∧ t.text.getLast? = some '>' ∧ IsNamed "</" t
  | .text =>
    IsRawContent previous t rest ∨ IsUnfinishedTag t.text ∧ after = [] ∨ IsRun t.text rest

def AllClassified (ts : List Token) : Prop :=
  ∀ before t after, ts = before ++ t :: after → IsClassified before.getLast? t after

/-- Of two text tokens side by side the second is an unfinished tag at the end. -/
def TextsApart (ts : List Token) : Prop :=
  ∀ before t u after, ts = before ++ t :: u :: after → t.kind = .text → u.kind = .text →
    IsUnfinishedTag u.text ∧ after = []

/-! ## What the cuts give -/

theorem quoted_cutAfterTag {open? : Option Char} {cs before after : Text}
    (h : (cutAfterTag open? cs).1 = before ++ '>' :: after) (hafter : after ≠ []) :
    (before.foldl Attribute.nextQuote open?).isSome := by
  induction cs generalizing open? before with
  | nil => simp [cutAfterTag] at h
  | cons c cs ih =>
    unfold cutAfterTag at h
    split at h
    · cases before with
      | nil => exact absurd (List.cons.inj h).2.symm hafter
      | cons d before => simp at h
    · next hopen =>
      cases before with
      | nil =>
        obtain ⟨rfl, -⟩ := List.cons.inj h
        simpa [Option.isSome_iff_ne_none] using hopen
      | cons d before =>
        obtain ⟨rfl, hrest⟩ := List.cons.inj h
        have hquoted := ih hrest
        exact hquoted

theorem ends_cutAfterTag (open? : Option Char) (cs : Text) :
    (cutAfterTag open? cs).2 = [] ∨ ∃ before, (cutAfterTag open? cs).1 = before ++ ['>'] ∧
      before.foldl Attribute.nextQuote open? = none := by
  induction cs generalizing open? with
  | nil => exact .inl rfl
  | cons c cs ih =>
    unfold cutAfterTag
    split
    · next hclose =>
      obtain ⟨hopen, rfl⟩ := by simpa using hclose
      exact .inr ⟨[], rfl, hopen⟩
    · rcases ih (Attribute.nextQuote open? c) with hnil | ⟨before, htag, hopen⟩
      · exact .inl hnil
      · exact .inr ⟨c :: before, congrArg (c :: ·) htag, hopen⟩

theorem endsAtClose_cutAfterTag (cs : Text) :
    EndsAtClose (cutAfterTag none cs).1 (cutAfterTag none cs).2 where
  quoted _ _ := quoted_cutAfterTag
  ends := ends_cutAfterTag none cs

/-- What has no `>` and begins the text begins the tag. -/
theorem prefix_cutAfterTag {open? : Option Char} {p cs : Text} (h : p <+: cs) (hp : '>' ∉ p) :
    p <+: (cutAfterTag open? cs).1 := by
  induction cs generalizing open? p with
  | nil => exact h
  | cons c cs ih =>
    cases p with
    | nil => exact List.nil_prefix
    | cons d p =>
      obtain ⟨rfl, hrest⟩ := List.cons_prefix_cons.mp h
      have hd : d ≠ '>' := fun heq => hp (heq ▸ List.mem_cons_self)
      unfold cutAfterTag
      rw [if_neg (by simp [hd])]
      exact List.cons_prefix_cons.mpr ⟨rfl, ih hrest fun hmem => hp (List.mem_cons_of_mem d hmem)⟩

theorem cutAfterMarkup_eq_cutAfterTag {kind : TokenKind} {cs : Text} (hkind : kind ≠ .comment)
    (hhead : cs.head? = some '<') : cutAfterMarkup kind cs = cutAfterTag none cs := by
  obtain ⟨rest, rfl⟩ := List.head?_eq_some_iff.mp hhead
  cases kind <;> first | exact absurd rfl hkind | rfl

theorem begins_cutAfterTag {kind : TokenKind} {cs : Text} (hkind : kind ≠ .comment)
    (h : Begins kind cs) : Begins kind (cutAfterTag none cs).1 := by
  cases kind with
  | text => exact h
  | comment => exact absurd rfl hkind
  | doctype =>
    have hpattern : lowerAscii (cs.take 9) = "<!doctype".toList := lowerAscii_take_eq_iff.mpr h
    have hcut : cs.take 9 <+: (cutAfterTag none cs).1 := by
      refine prefix_cutAfterTag (List.take_prefix 9 cs) fun hmem => ?_
      have hlower : '>' ∈ "<!doctype".toList := hpattern ▸ List.mem_map_of_mem hmem
      exact absurd hlower (by decide)
    have hlower : lowerAscii (cs.take 9) <+: lowerAscii (cutAfterTag none cs).1 :=
      hcut.map Char.toLower
    rwa [hpattern] at hlower
  | tagOpen =>
    obtain ⟨c, hc, hprefix⟩ := h
    refine ⟨c, hc, prefix_cutAfterTag hprefix fun hmem => ?_⟩
    obtain rfl : c = '>' := by simpa [eq_comm] using hmem
    cases hc
  | tagClose =>
    obtain ⟨c, hc, hprefix⟩ := h
    refine ⟨c, hc, prefix_cutAfterTag hprefix fun hmem => ?_⟩
    obtain rfl : c = '>' := by simpa [eq_comm] using hmem
    cases hc

theorem begins_cutAfterMarkup {kind : TokenKind} {cs : Text} (h : Begins kind cs) :
    Begins kind (cutAfterMarkup kind cs).1 := by
  by_cases hcomment : kind = .comment
  · subst hcomment
    obtain ⟨body, rfl⟩ := h
    exact ⟨(cutAfterComment body).1, rfl⟩
  · rw [cutAfterMarkup_eq_cutAfterTag hcomment (head?_of_begins h)]
    exact begins_cutAfterTag hcomment h

theorem isComment_cutAfterMarkup {cs : Text} (h : Begins .comment cs) :
    IsComment (cutAfterMarkup .comment cs).1 (cutAfterMarkup .comment cs).2 := by
  obtain ⟨body, rfl⟩ := h
  refine ⟨(cutAfterComment body).1, rfl, ?_⟩
  change _ ∨ _ ∧ (cutAfterComment body).2 = []
  unfold cutAfterComment
  split
  · next inside rest hfound =>
    refine .inl ⟨⟨inside, rfl⟩, fun before after hbody => ?_⟩
    have heq : body = before ++ "-->" ++ (after ++ rest) := by
      rw [eq_of_breakOn_eq_some hfound, ← List.append_assoc, ← hbody]
    have hfirst := length_le_of_breakOn hfound heq
    have hlength := congrArg List.length hbody
    simp only [List.length_append] at hlength
    exact List.length_eq_zero_iff.mp (by omega)
  · next hnone =>
    refine .inr ⟨fun hinfix => ?_, rfl⟩
    have hsome := breakOn_isSome_of_infix (by decide) hinfix
    rw [hnone] at hsome
    cases hsome

theorem isRun_nil (rest : Text) : IsRun [] rest := fun _ hi => absurd hi (Nat.not_lt_zero _)

theorem IsRun.cons {c : Char} {t rest : Text} (hmarkup : markup? (c :: (t ++ rest)) = none)
    (h : IsRun t rest) : IsRun (c :: t) rest := by
  intro i hi kind hbegins
  rw [byteSize_cons] at hi
  have hlength : (bytes [c]).length = c.utf8Size := length_bytes [c]
  rw [List.cons_append, bytes_cons, List.drop_append] at hbegins
  rcases Nat.lt_or_ge i c.utf8Size with hlt | hge
  · by_cases hc : IsAscii c
    · obtain rfl : i = 0 := by rw [utf8Size_of_isAscii hc] at hlt; omega
      rw [List.drop_zero, Nat.zero_sub, List.drop_zero, ← bytes_cons, begins_bytes,
        ← markup?_eq_some_iff, hmarkup] at hbegins
      cases hbegins
    · -- Markup begins with an ASCII character, and this byte belongs to another one.
      have hhead := head?_of_begins hbegins
      rw [List.drop_eq_getElem_cons (by omega)] at hhead
      have hmem : '<' ∈ bytes [c] := Option.some.inj hhead ▸ List.getElem_mem _
      exact not_isAscii_of_mem_bytes hc hmem (by decide)
  · rw [List.drop_eq_nil_of_le (by omega), hlength] at hbegins
    exact h (i - c.utf8Size) (by omega) kind hbegins

theorem isRun_cutBeforeMarkup (cs : Text) :
    IsRun (cutBeforeMarkup cs).1 (cutBeforeMarkup cs).2 := by
  induction cs with
  | nil => exact isRun_nil _
  | cons c cs ih =>
    unfold cutBeforeMarkup
    split
    · exact isRun_nil _
    · next hmarkup =>
      refine ih.cons ?_
      rw [append_cutBeforeMarkup]
      simpa using hmarkup

theorem markup?_cutBeforeMarkup (cs : Text) :
    (cutBeforeMarkup cs).2 = [] ∨ (markup? (cutBeforeMarkup cs).2).isSome := by
  induction cs with
  | nil => exact .inl rfl
  | cons c cs ih =>
    unfold cutBeforeMarkup
    split
    · next hmarkup => exact .inr hmarkup
    · exact ih

theorem ends_cutBeforeClosing (name cs : Text) :
    (cutBeforeClosing name cs).2 = [] ∨
      ("</" ++ name : Text) <+: lowerAscii (cutBeforeClosing name cs).2 := by
  induction cs with
  | nil => exact .inl rfl
  | cons c cs ih =>
    unfold cutBeforeClosing
    split
    · next hclosing => exact .inr (lowerAscii_take_eq_iff (p := "</" ++ name).mp hclosing)
    · exact ih

theorem not_infix_cutBeforeClosing (name cs : Text) :
    ¬("</" ++ name : Text) <:+: lowerAscii (cutBeforeClosing name cs).1 := by
  induction cs with
  | nil => exact fun h => absurd (List.infix_nil.mp h) nofun
  | cons c cs ih =>
    unfold cutBeforeClosing
    split
    · exact fun h => absurd (List.infix_nil.mp h) nofun
    · next hclosing =>
      intro h
      rcases List.infix_cons_iff.mp h with hhere | hlater
      · apply hclosing
        have hall : lowerAscii (c :: (cutBeforeClosing name cs).1) <+: lowerAscii (c :: cs) := by
          have happend := append_cutBeforeClosing name cs
          exact List.IsPrefix.map Char.toLower ⟨_, congrArg (c :: ·) happend⟩
        exact lowerAscii_take_eq_iff (p := "</" ++ name).mpr (List.IsPrefix.trans hhere hall)
      · exact ih hlater

theorem name_of_opensRawText {t : Token} (h : t.opensRawText = true) :
    t.name ∈ rawTextElements := by
  simp only [opensRawText, Bool.and_eq_true, List.contains_iff_mem] at h
  exact h.2

theorem kind_of_opensRawText {t : Token} (h : t.opensRawText = true) : t.kind = .tagOpen := by
  simp only [opensRawText, Bool.and_eq_true, beq_iff_eq] at h
  exact h.1.1

theorem not_infix_rawTextAfter {t : Token} (cs : Text) (h : t.opensRawText = true) :
    ¬("</" ++ t.name : Text) <:+: lowerAscii (t.rawTextAfter cs).1 := by
  rw [rawTextAfter, if_pos h]
  exact not_infix_cutBeforeClosing t.name cs

theorem ends_rawTextAfter {t : Token} (cs : Text) (h : t.opensRawText = true) :
    (t.rawTextAfter cs).2 = [] ∨
      ("</" ++ t.name : Text) <+: lowerAscii (t.rawTextAfter cs).2 := by
  rw [rawTextAfter, if_pos h]
  exact ends_cutBeforeClosing t.name cs

theorem isAlpha_of_toLower_eq {c d : Char} (h : c.toLower = d) (hd : d.isAlpha = true) :
    c.isAlpha = true := by
  unfold Char.toLower at h
  split at h
  · next hupper =>
    have hisUpper : c.isUpper = true := decide_eq_true hupper
    exact Bool.or_eq_true_iff.mpr (.inl hisUpper)
  · exact h ▸ hd

/-- Raw text ends where a closing tag begins, for raw-text elements are named by a letter first. -/
theorem markup?_rawTextAfter {t : Token} (cs : Text) (h : t.opensRawText = true) :
    (t.rawTextAfter cs).2 = [] ∨ (markup? (t.rawTextAfter cs).2).isSome := by
  have hname := name_of_opensRawText h
  obtain ⟨d, name, hcons, hd⟩ : ∃ d name, t.name = d :: name ∧ d.isAlpha = true := by
    rcases List.mem_pair.mp hname with hscript | hstyle
    · exact ⟨'s', "cript".toList, hscript, rfl⟩
    · exact ⟨'s', "tyle".toList, hstyle, rfl⟩
  refine (ends_rawTextAfter cs h).imp_right fun hclosing => ?_
  obtain ⟨after, hafter⟩ := hclosing
  generalize (t.rawTextAfter cs).2 = rest at hafter ⊢
  rw [hcons] at hafter
  obtain ⟨a, rest₁, rfl, ha, h₁⟩ := List.map_eq_cons_iff.mp hafter.symm
  obtain ⟨b, rest₂, rfl, hb, h₂⟩ := List.map_eq_cons_iff.mp h₁
  obtain ⟨c, rest₃, rfl, hc, -⟩ := List.map_eq_cons_iff.mp h₂
  obtain rfl : a = '<' := eq_of_toLower_eq ha rfl
  obtain rfl : b = '/' := eq_of_toLower_eq hb rfl
  have hbegins : Begins .tagClose ('<' :: '/' :: c :: rest₃) :=
    ⟨c, isAlpha_of_toLower_eq hc hd, rest₃, rfl⟩
  exact Option.isSome_of_mem (markup?_of_begins hbegins)

/-- What a tag begins with before its name. -/
def opener (kind : TokenKind) : Text := if kind = .tagClose then "</" else "<"

theorem exists_eq_of_begins {kind : TokenKind} {text : Text}
    (hkind : kind = .tagOpen ∨ kind = .tagClose) (h : Begins kind text) :
    ∃ c rest, text = opener kind ++ c :: rest ∧ isNameChar c = true := by
  have hname {c : Char} (hc : c.isAlpha = true) : isNameChar c = true := by
    simp [isNameChar, Char.isAlphanum, hc]
  rcases hkind with rfl | rfl
  · obtain ⟨c, hc, rest, rfl⟩ := h
    exact ⟨c, rest, rfl, hname hc⟩
  · obtain ⟨c, hc, rest, rfl⟩ := h
    exact ⟨c, rest, rfl, hname hc⟩

/-- A tag that ends in `>` is a tag, another one is text. -/
theorem ofMarkup_cases_of_begins {kind : TokenKind} (start : Nat) {text : Text}
    (hkind : kind = .tagOpen ∨ kind = .tagClose) (h : Begins kind text) :
    text.getLast? ≠ some '>' ∧ ofMarkup kind start text = plain .text start text ∨
      text.getLast? = some '>' ∧ (ofMarkup kind start text).kind = kind ∧
        IsNamed (opener kind) (ofMarkup kind start text) := by
  obtain ⟨c, rest, htext, hc⟩ := exists_eq_of_begins hkind h
  have hmarkup : ofMarkup kind start text = ofTag kind start text := if_pos hkind
  have hdrop : text.drop (if kind = .tagClose then 2 else 1) = c :: rest := by
    rw [htext]
    rcases hkind with rfl | rfl <;> rfl
  have hwritten : (c :: rest).takeWhile isNameChar ≠ [] := by simp [hc]
  rw [hmarkup, ofTag]
  simp only [hdrop, List.isEmpty_iff, hwritten, false_or]
  by_cases hlast : text.getLast? = some '>'
  · right
    rw [if_neg (not_not_intro hlast)]
    have hsplit : text = opener kind ++ (c :: rest).takeWhile isNameChar ++
        (c :: rest).dropWhile isNameChar := by
      rw [List.append_assoc, List.takeWhile_append_dropWhile, htext]
    have hnext : ∀ d ∈ ((c :: rest).dropWhile isNameChar).head?, ¬isNameChar d = true := by
      simpa using head?_dropWhile_not (p := isNameChar) (t := c :: rest)
    have hall : ∀ d ∈ (c :: rest).takeWhile isNameChar, isNameChar d = true :=
      List.all_eq_true.mp List.all_takeWhile
    refine ⟨hlast, ?_⟩
    rcases hkind with rfl | rfl
    · exact ⟨rfl, _, _, hsplit, hall, hnext, rfl⟩
    · exact ⟨rfl, _, _, hsplit, hall, hnext, rfl⟩
  · exact .inl ⟨hlast, if_pos hlast⟩

theorem isUnfinishedTag_of_endsAtClose {kind : TokenKind} {text rest : Text}
    (hkind : kind = .tagOpen ∨ kind = .tagClose) (hbegins : Begins kind text)
    (hends : EndsAtClose text rest) (hlast : text.getLast? ≠ some '>') :
    IsUnfinishedTag text ∧ rest = [] := by
  refine ⟨⟨?_, fun before after htext => hends.quoted before after htext ?_, hlast⟩, ?_⟩
  · rcases hkind with rfl | rfl
    · exact .inl hbegins
    · exact .inr hbegins
  · rintro rfl
    exact hlast (by rw [htext, List.getLast?_concat])
  · refine hends.ends.resolve_right ?_
    rintro ⟨before, htext, -⟩
    exact hlast (by rw [htext, List.getLast?_concat])

/-- Markup becomes a token that is what its kind says; if that is text, it is an unfinished tag at
the end. -/
theorem isClassified_ofMarkup {kind : TokenKind} {cs : Text} (h : Begins kind cs) (start : Nat)
    (previous : Option Token) {after : List Token}
    (hafter : after.flatMap (·.text) = (cutAfterMarkup kind cs).2)
    (hend : (cutAfterMarkup kind cs).2 = [] → after = []) :
    let token := ofMarkup kind start (cutAfterMarkup kind cs).1
    IsClassified previous token after ∧
      (token.kind = .text → IsUnfinishedTag token.text ∧ after = []) := by
  by_cases hcomment : kind = .comment
  · subst hcomment
    refine ⟨?_, nofun⟩
    change IsComment (cutAfterMarkup .comment cs).1 (after.flatMap (·.text))
    rw [hafter]
    exact isComment_cutAfterMarkup h
  have hcut := cutAfterMarkup_eq_cutAfterTag hcomment (head?_of_begins h)
  rw [hcut] at hafter hend ⊢
  have hbegins := begins_cutAfterTag hcomment h
  have hends := endsAtClose_cutAfterTag cs
  rw [← hafter] at hends
  by_cases htag : kind = .tagOpen ∨ kind = .tagClose
  · rcases ofMarkup_cases_of_begins start htag hbegins with ⟨hlast, hplain⟩ | ⟨hlast, hkind, hnamed⟩
    · obtain ⟨hunfinished, hrest⟩ := isUnfinishedTag_of_endsAtClose htag hbegins hends hlast
      have hnil := hend (hafter ▸ hrest)
      rw [hplain]
      exact ⟨.inr (.inl ⟨hunfinished, hnil⟩), fun _ => ⟨hunfinished, hnil⟩⟩
    · have htext := ofMarkup_text kind start (cutAfterTag none cs).1
      rcases htag with rfl | rfl
      · refine ⟨?_, fun heq => by simp [hkind] at heq⟩
        simp only [IsClassified, hkind, htext]
        exact ⟨hbegins, hends, hlast, hnamed⟩
      · refine ⟨?_, fun heq => by simp [hkind] at heq⟩
        simp only [IsClassified, hkind, htext]
        exact ⟨hbegins, hends, hlast, hnamed⟩
  · cases kind with
    | text => exact h.elim
    | comment => exact absurd rfl hcomment
    | doctype => exact ⟨⟨hbegins, hends⟩, nofun⟩
    | tagOpen => exact absurd (.inl rfl) htag
    | tagClose => exact absurd (.inr rfl) htag

/-! ## Lexing -/

/-- Every token is what its kind says, and text is next to text only at an unfinished tag. -/
def ClassifiedAfter (previous : Option Token) : List Token → Prop
  | [] => True
  | t :: ts =>
    IsClassified previous t ts ∧
      (∀ p ∈ previous, p.kind = .text → t.kind = .text → IsUnfinishedTag t.text ∧ ts = []) ∧
      ClassifiedAfter (some t) ts

theorem classifiedAfter_rawText {token : Token} {start : Nat} {cs : Text} {rest : List Token}
    (hopens : token.opensRawText = true)
    (hrest : rest.flatMap (·.text) = (token.rawTextAfter cs).2)
    (h : ∀ previous, ClassifiedAfter previous rest) :
    ClassifiedAfter (some token) (textToken start (token.rawTextAfter cs).1 ++ rest) := by
  unfold textToken
  split
  · exact h _
  · refine ⟨.inl ⟨token, rfl, hopens, not_infix_rawTextAfter cs hopens, ?_⟩, ?_, h _⟩
    · have hends := ends_rawTextAfter cs hopens
      rwa [← hrest] at hends
    · intro p hp hkind
      rw [← Option.some.inj hp, kind_of_opensRawText hopens] at hkind
      cases hkind

/-- What follows markup, given what holds of the tokens behind its raw text. Markup that became text
is the last token. -/
theorem classifiedAfter_markup {token : Token} {start : Nat} {cs : Text} {rest : List Token}
    (hrest : rest.flatMap (·.text) = (token.rawTextAfter cs).2)
    (h : ∀ previous : Option Token, (∀ p ∈ previous, p.kind = .text →
      (token.rawTextAfter cs).2 = [] ∨ (markup? (token.rawTextAfter cs).2).isSome) →
        ClassifiedAfter previous rest)
    (hlast : token.kind = .text → textToken start (token.rawTextAfter cs).1 ++ rest = []) :
    ClassifiedAfter (some token) (textToken start (token.rawTextAfter cs).1 ++ rest) := by
  by_cases hopens : token.opensRawText = true
  · have hedge := markup?_rawTextAfter cs hopens
    exact classifiedAfter_rawText hopens hrest fun previous => h previous fun _ _ _ => hedge
  · have hnone : token.rawTextAfter cs = ([], cs) := if_neg hopens
    rw [hnone] at hlast h hrest ⊢
    refine h _ fun p hp hkind => .inl ?_
    obtain rfl := Option.some.inj hp
    have hnil : rest = [] := hlast hkind
    rw [← hrest, hnil]
    rfl

/-- The induction is along the lexer. A text token leaves a text that markup begins, unless it is
empty, so no second text token follows it. -/
theorem classifiedAfter_lexFrom {start : Nat} {cs : Text} {previous : Option Token}
    (h : ∀ p ∈ previous, p.kind = .text → cs = [] ∨ (markup? cs).isSome) :
    ClassifiedAfter previous (lexFrom start cs) := by
  have htexts := texts_lexFrom start cs
  suffices hall : (lexFrom start cs).flatMap (·.text) = cs → (cs = [] → lexFrom start cs = []) ∧
      ∀ previous : Option Token, (∀ p ∈ previous, p.kind = .text → cs = [] ∨ (markup? cs).isSome) →
        ClassifiedAfter previous (lexFrom start cs) from (hall htexts).2 previous h
  clear htexts h
  induction start, cs using lexFrom_induction with
  | nil start => exact fun _ => ⟨fun _ => rfl, fun _ _ => trivial⟩
  | text start c cs rest hmarkup ih =>
    intro htexts
    refine ⟨nofun, fun previous hprevious => ?_⟩
    have hcut := append_cutBeforeMarkup cs
    have hrest : rest.flatMap (·.text) = (cutBeforeMarkup cs).2 :=
      List.append_cancel_left ((List.cons.inj htexts).2.trans hcut.symm)
    refine ⟨.inr (.inr ?_), fun p hp hkind => ?_, (ih hrest).2 _ fun _ _ _ => ?_⟩
    · rw [hrest]
      exact (isRun_cutBeforeMarkup cs).cons (by rwa [hcut])
    · rcases hprevious p hp hkind with hnil | hsome
      · cases hnil
      · rw [hmarkup] at hsome
        cases hsome
    · exact markup?_cutBeforeMarkup cs
  | markup start c cs kind rest hmarkup cut token raw ih =>
    intro htexts
    have hraw : raw.1 ++ raw.2 = cut.2 := append_rawTextAfter token cut.2
    have hrest : rest.flatMap (·.text) = raw.2 := by
      have hcut : cut.1 ++ cut.2 = c :: cs := append_cutAfterMarkup kind (c :: cs)
      rw [List.cons_append, List.flatMap_cons, List.flatMap_append, texts_textToken, ofMarkup_text,
        ← hcut, ← hraw] at htexts
      exact List.append_cancel_left (List.append_cancel_left htexts)
    obtain ⟨hnil, hclassified⟩ := ih hrest
    have hafter : (textToken token.stop raw.1 ++ rest).flatMap (·.text) = cut.2 := by
      rw [List.flatMap_append, texts_textToken, hrest, hraw]
    have hend (hcut : cut.2 = []) : textToken token.stop raw.1 ++ rest = [] := by
      obtain ⟨hraw₁, hraw₂⟩ := List.append_eq_nil_iff.mp (hraw.trans hcut)
      rw [hraw₁, hnil hraw₂]
      rfl
    refine ⟨nofun, fun previous _ => ?_⟩
    obtain ⟨htoken, htext⟩ :=
      isClassified_ofMarkup (begins_of_markup? hmarkup) start previous hafter hend
    exact ⟨htoken, fun _ _ _ => htext,
      classifiedAfter_markup hrest hclassified fun hkind => (htext hkind).2⟩

theorem ClassifiedAfter.split {previous : Option Token} {before after : List Token} {t : Token}
    (h : ClassifiedAfter previous (before ++ t :: after)) :
    IsClassified (before.getLast?.or previous) t after ∧ ClassifiedAfter (some t) after := by
  induction before generalizing previous with
  | nil => exact ⟨h.1, h.2.2⟩
  | cons u before ih =>
    obtain ⟨hclassified, hrest⟩ := ih h.2.2
    refine ⟨?_, hrest⟩
    rw [List.getLast?_cons]
    cases hlast : before.getLast? with
    | none => simpa [hlast] using hclassified
    | some v => simpa [hlast] using hclassified

theorem classified_lex (source : Text) : AllClassified (lex source) := by
  intro before t after hsplit
  have hlex : ClassifiedAfter none (lex source) := classifiedAfter_lexFrom nofun
  rw [hsplit] at hlex
  simpa using hlex.split.1

theorem textsApart_lex (source : Text) : TextsApart (lex source) := by
  intro before t u after hsplit ht hu
  have hlex : ClassifiedAfter none (lex source) := classifiedAfter_lexFrom nofun
  rw [hsplit] at hlex
  obtain ⟨-, hapart, -⟩ := hlex.split.2
  exact hapart t rfl ht hu

/-- The texts of the tokens are the template. Every token is what its kind says, and two texts are
side by side only where the second is an unfinished tag at the end. -/
theorem allClassified_lex (source : Text) :
    (lex source).flatMap (·.text) = source ∧ AllClassified (lex source) ∧
      TextsApart (lex source) :=
  ⟨texts_lex source, classified_lex source, textsApart_lex source⟩

end Token

end HtmlTemplate
