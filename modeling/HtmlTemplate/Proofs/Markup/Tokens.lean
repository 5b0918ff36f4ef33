import HtmlTemplate.Markup.Pairing
import Mathlib.Data.List.Forall2

/-!
Tokens as a division of the template. Every cut of the lexer divides the text at hand, so the texts
of the tokens in order are the template (`texts_lex`), and each token starts where the one before it
stops (`contiguous_lex`). Pairing turns some tokens into text, which keeps both (`texts_associate`,
`contiguous_associate`), and a partner that comes later is a closing tag (`kind_of_partner`).
-/

namespace HtmlTemplate.Token

/-! ## Cuts -/

theorem append_cutBeforeMarkup (cs : Text) :
    (cutBeforeMarkup cs).1 ++ (cutBeforeMarkup cs).2 = cs := by
  induction cs with
  | nil => rfl
  | cons c cs ih =>
    unfold cutBeforeMarkup
    split
    · rfl
    · exact congrArg (c :: ·) ih

theorem append_cutAfterTag (open? : Option Char) (cs : Text) :
    (cutAfterTag open? cs).1 ++ (cutAfterTag open? cs).2 = cs := by
  induction cs generalizing open? with
  | nil => rfl
  | cons c cs ih =>
    unfold cutAfterTag
    split
    · rfl
    · exact congrArg (c :: ·) (ih _)

theorem append_cutAfterComment (cs : Text) :
    (cutAfterComment cs).1 ++ (cutAfterComment cs).2 = cs := by
  unfold cutAfterComment
  split
  · next h => exact (Text.eq_of_breakOn_eq_some h).symm
  · exact List.append_nil cs

theorem append_cutAfterMarkup (kind : TokenKind) (cs : Text) :
    (cutAfterMarkup kind cs).1 ++ (cutAfterMarkup kind cs).2 = cs := by
  have htag : cs.take 1 ++ (cutAfterTag none (cs.drop 1)).1 ++ (cutAfterTag none (cs.drop 1)).2 =
      cs := by
    rw [List.append_assoc, append_cutAfterTag, List.take_append_drop]
  cases kind with
  | comment =>
    have hcomment := append_cutAfterComment (cs.drop 4)
    simp [cutAfterMarkup, List.append_assoc, hcomment]
  | text | tagOpen | tagClose | doctype => exact htag

theorem append_cutBeforeClosing (name cs : Text) :
    (cutBeforeClosing name cs).1 ++ (cutBeforeClosing name cs).2 = cs := by
  induction cs with
  | nil => rfl
  | cons c cs ih =>
    unfold cutBeforeClosing
    split
    · rfl
    · exact congrArg (c :: ·) ih

/-! ## Lexing -/

/-- Markup becomes a plain token, which for a tag that is broken is text, or a tag. -/
theorem ofMarkup_cases (kind : TokenKind) (start : Nat) (text : Text) :
    (∃ k, (k = kind ∨ k = .text) ∧ ofMarkup kind start text = plain k start text) ∨
      (kind = .tagOpen ∨ kind = .tagClose) ∧ ∃ written attributes standalone,
        ofMarkup kind start text =
          ⟨kind, start, text, Text.lowerAscii written, attributes, standalone⟩ ∧
        (attributes = [] ∨ attributes = Attribute.split (interior written text)) := by
  by_cases htag : kind = .tagOpen ∨ kind = .tagClose
  · have hmarkup : ofMarkup kind start text = ofTag kind start text := if_pos htag
    rw [hmarkup]
    unfold ofTag
    simp only
    generalize (text.drop (if kind = .tagClose then 2 else 1)).takeWhile isNameChar = written
    split
    · exact .inl ⟨.text, .inr rfl, rfl⟩
    · split
      · exact .inr ⟨htag, _, _, _, rfl, .inr rfl⟩
      · exact .inr ⟨htag, _, _, _, rfl, .inl rfl⟩
  · exact .inl ⟨kind, .inl rfl, if_neg htag⟩

theorem ofMarkup_text (kind : TokenKind) (start : Nat) (text : Text) :
    (ofMarkup kind start text).text = text := by
  rcases ofMarkup_cases kind start text with ⟨k, -, h⟩ | ⟨-, _, _, _, h, -⟩ <;> rw [h]; rfl

theorem ofMarkup_start (kind : TokenKind) (start : Nat) (text : Text) :
    (ofMarkup kind start text).start = start := by
  rcases ofMarkup_cases kind start text with ⟨k, -, h⟩ | ⟨-, _, _, _, h, -⟩ <;> rw [h]; rfl

/-- Only comments become comment tokens. -/
theorem ofMarkup_kind_ne_comment {kind : TokenKind} (h : kind ≠ .comment) (start : Nat)
    (text : Text) : (ofMarkup kind start text).kind ≠ .comment := by
  rcases ofMarkup_cases kind start text with ⟨k, rfl | rfl, hmarkup⟩ | ⟨-, _, _, _, hmarkup, -⟩
  · rwa [hmarkup]
  · rw [hmarkup]
    nofun
  · rwa [hmarkup]

/-- The raw text right after a token, and what follows it. -/
def rawTextAfter (t : Token) (cs : Text) : Text × Text :=
  if t.opensRawText then cutBeforeClosing t.name cs else ([], cs)

theorem append_rawTextAfter (t : Token) (cs : Text) :
    (t.rawTextAfter cs).1 ++ (t.rawTextAfter cs).2 = cs := by
  unfold rawTextAfter
  split
  · exact append_cutBeforeClosing t.name cs
  · rfl

theorem lexFrom_of_markup?_none {c : Char} {cs : Text} (h : markup? (c :: cs) = none)
    (start : Nat) :
    lexFrom start (c :: cs) = plain .text start (c :: (cutBeforeMarkup cs).1) ::
      lexFrom (start + Text.byteSize (c :: (cutBeforeMarkup cs).1)) (cutBeforeMarkup cs).2 := by
  conv => lhs; unfold lexFrom
  simp only [h]

theorem lexFrom_of_markup?_some {c : Char} {cs : Text} {kind : TokenKind}
    (h : markup? (c :: cs) = some kind) (start : Nat) :
    let cut := cutAfterMarkup kind (c :: cs)
    let token := ofMarkup kind start cut.1
    let raw := token.rawTextAfter cut.2
    lexFrom start (c :: cs) = token :: textToken token.stop raw.1 ++
      lexFrom (token.stop + Text.byteSize raw.1) raw.2 := by
  intro cut token raw
  conv => lhs; unfold lexFrom
  simp only [h]
  by_cases hraw : token.opensRawText = true
  · simp only [raw, rawTextAfter, hraw, if_true]
    exact if_pos hraw
  · simp only [raw, rawTextAfter, hraw]
    exact if_neg hraw

/-- Induction along lexing: a run of text, or markup with the raw text after it, in front of a text
that is lexed. -/
theorem lexFrom_induction {motive : Nat → Text → List Token → Prop}
    (nil : ∀ start, motive start [] [])
    (text : ∀ start c cs rest, markup? (c :: cs) = none →
      motive (start + Text.byteSize (c :: (cutBeforeMarkup cs).1)) (cutBeforeMarkup cs).2 rest →
      motive start (c :: cs) (plain .text start (c :: (cutBeforeMarkup cs).1) :: rest))
    (markup : ∀ start c cs kind rest, markup? (c :: cs) = some kind →
      let cut := cutAfterMarkup kind (c :: cs)
      let token := ofMarkup kind start cut.1
      let raw := token.rawTextAfter cut.2
      motive (token.stop + Text.byteSize raw.1) raw.2 rest →
      motive start (c :: cs) (token :: textToken token.stop raw.1 ++ rest))
    (start : Nat) (cs : Text) : motive start cs (lexFrom start cs) := by
  induction hn : cs.length using Nat.strongRecOn generalizing start cs with
  | ind n ih =>
    cases cs with
    | nil =>
      unfold lexFrom
      exact nil start
    | cons c cs =>
      cases hmarkup : markup? (c :: cs) with
      | none =>
        have hlength := length_cutBeforeMarkup_le cs
        rw [List.length_cons] at hn
        rw [lexFrom_of_markup?_none hmarkup]
        exact text start c cs _ hmarkup (ih _ (by omega) _ _ rfl)
      | some kind =>
        have hcut := length_cutAfterMarkup_lt kind c cs
        have hraw := congrArg List.length (append_rawTextAfter
          (ofMarkup kind start (cutAfterMarkup kind (c :: cs)).1)
          (cutAfterMarkup kind (c :: cs)).2)
        rw [List.length_append] at hraw
        rw [lexFrom_of_markup?_some hmarkup]
        exact markup start c cs kind _ hmarkup (ih _ (by omega) _ _ rfl)

/-- Each token starts where the one before it stops, the first one at `start`. -/
def Contiguous (start : Nat) : List Token → Prop
  | [] => True
  | t :: ts => t.start = start ∧ Contiguous t.stop ts

theorem texts_textToken (start : Nat) (text : Text) :
    (textToken start text).flatMap (·.text) = text := by
  unfold textToken
  split
  · next h => exact (List.isEmpty_iff.mp h).symm
  · exact List.append_nil text

theorem contiguous_textToken_append {start : Nat} {text : Text} {ts : List Token}
    (h : Contiguous (start + Text.byteSize text) ts) :
    Contiguous start (textToken start text ++ ts) := by
  unfold textToken
  split
  · next hempty => simpa [List.isEmpty_iff.mp hempty] using h
  · exact ⟨rfl, h⟩

theorem texts_lexFrom (start : Nat) (cs : Text) : (lexFrom start cs).flatMap (·.text) = cs := by
  induction start, cs using lexFrom_induction with
  | nil start => rfl
  | text start c cs rest hmarkup ih =>
    rw [List.flatMap_cons, ih]
    exact congrArg (c :: ·) (append_cutBeforeMarkup cs)
  | markup start c cs kind rest hmarkup cut token raw ih =>
    rw [List.cons_append, List.flatMap_cons, List.flatMap_append, texts_textToken, ih,
      append_rawTextAfter, ofMarkup_text, append_cutAfterMarkup]

theorem contiguous_lexFrom (start : Nat) (cs : Text) : Contiguous start (lexFrom start cs) := by
  induction start, cs using lexFrom_induction with
  | nil start => trivial
  | text start c cs rest hmarkup ih => exact ⟨rfl, ih⟩
  | markup start c cs kind rest hmarkup cut token raw ih =>
    exact ⟨ofMarkup_start kind start _, contiguous_textToken_append ih⟩

/-- The texts of the tokens are the template. -/
theorem texts_lex (source : Text) : (lex source).flatMap (·.text) = source := texts_lexFrom 0 source

theorem contiguous_lex (source : Text) : Contiguous 0 (lex source) := contiguous_lexFrom 0 source

/-- The text of the token is what stands in the source at its offset. -/
def IsSpanOf (source : Text) (t : Token) : Prop :=
  ∃ before after, source = before ++ t.text ++ after ∧ Text.byteSize before = t.start

/-- Contiguous tokens are spans of what their texts make behind any text of the right size. -/
theorem isSpanOf_of_contiguous {before : Text} {ts : List Token}
    (h : Contiguous (Text.byteSize before) ts) :
    ∀ t ∈ ts, t.IsSpanOf (before ++ ts.flatMap (·.text)) := by
  induction ts generalizing before with
  | nil => exact fun t ht => absurd ht List.not_mem_nil
  | cons u ts ih =>
    obtain ⟨hstart, hrest⟩ := h
    have hstop : Text.byteSize (before ++ u.text) = u.stop := by
      rw [Text.byteSize_append, stop, hstart]
    have hspans := ih (hstop ▸ hrest)
    rw [List.flatMap_cons, ← List.append_assoc]
    intro t ht
    rcases List.mem_cons.mp ht with rfl | hmem
    · exact ⟨before, ts.flatMap (·.text), rfl, hstart.symm⟩
    · exact hspans t hmem

/-! ## Kept text -/

def isDropped (t : Token) : Bool := t.kind == .comment && !isConditionalComment t.text

/-- The texts of the tokens in order, without the comments that are dropped. -/
def keptText (tokens : List Token) : Text :=
  (tokens.filter (!·.isDropped)).flatMap (·.text)

theorem keptText_append (xs ys : List Token) :
    keptText (xs ++ ys) = keptText xs ++ keptText ys := by
  simp [keptText]

theorem keptText_cons_of_dropped {t : Token} (h : t.isDropped = true) (ts : List Token) :
    keptText (t :: ts) = keptText ts := by
  simp [keptText, h]

theorem keptText_cons_of_kept {t : Token} (h : t.isDropped = false) (ts : List Token) :
    keptText (t :: ts) = t.text ++ keptText ts := by
  simp [keptText, h]

theorem keptText_of_all_kept {tokens : List Token} (h : ∀ t ∈ tokens, t.isDropped = false) :
    keptText tokens = tokens.flatMap (·.text) := by
  rw [keptText, List.filter_eq_self.mpr fun t ht => by simp [h t ht]]

theorem isDropped_of_ne_comment {t : Token} (h : t.kind ≠ .comment) : t.isDropped = false := by
  simp [isDropped, h]

/-! ## Pairing -/

def Neutralized (t u : Token) : Prop := u = t ∨ u = t.toText

theorem neutralized_neutralize (name : Text) (inside : Bool) (ts : List Token) :
    List.Forall₂ Neutralized ts (neutralize name inside ts) := by
  induction ts generalizing inside with
  | nil => exact .nil
  | cons t ts ih =>
    unfold neutralize
    split
    · exact .cons (.inl rfl) (ih _)
    · cases inside
      · exact .cons (.inl rfl) (ih _)
      · exact .cons (.inr rfl) (ih _)

theorem Neutralized.trans {t u v : Token} (h : Neutralized t u) (h' : Neutralized u v) :
    Neutralized t v := by
  rcases h with rfl | rfl
  · exact h'
  · rcases h' with rfl | rfl
    · exact .inr rfl
    · exact .inr rfl

theorem Neutralized.trans_all {ts us vs : List Token} (h : List.Forall₂ Neutralized ts us)
    (h' : List.Forall₂ Neutralized us vs) : List.Forall₂ Neutralized ts vs := by
  induction h generalizing vs with
  | nil => exact h'
  | cons hhead htail ih =>
    cases h' with
    | cons hhead' htail' => exact .cons (hhead.trans hhead') (ih htail')

theorem neutralized_neutralizeRawText (ts : List Token) :
    List.Forall₂ Neutralized ts (neutralizeRawText ts) := by
  unfold neutralizeRawText
  generalize rawTextElements = names
  induction names generalizing ts with
  | nil => exact List.forall₂_same.mpr fun t _ => .inl rfl
  | cons name names ih => exact Neutralized.trans_all (neutralized_neutralize name false ts) (ih _)

/-- What is the same for a token and its text stays the same. -/
theorem Neutralized.map_eq {β : Type} {f : Token → β} (hf : ∀ t : Token, f t.toText = f t)
    {ts us : List Token} (h : List.Forall₂ Neutralized ts us) : us.map f = ts.map f := by
  induction h with
  | nil => rfl
  | cons hhead htail ih =>
    rw [List.map_cons, List.map_cons, ih]
    rcases hhead with rfl | rfl
    · rfl
    · rw [hf]

theorem Neutralized.exists_left {ts us : List Token} (h : List.Forall₂ Neutralized ts us)
    {u : Token} (hu : u ∈ us) : ∃ t ∈ ts, Neutralized t u := by
  induction h with
  | nil => exact absurd hu List.not_mem_nil
  | cons hhead htail ih =>
    rcases List.mem_cons.mp hu with rfl | hmem
    · exact ⟨_, List.mem_cons_self, hhead⟩
    · obtain ⟨t, ht, htu⟩ := ih hmem
      exact ⟨t, List.mem_cons_of_mem _ ht, htu⟩

theorem map_token_associate (ts : List Token) :
    (associate ts).map (·.token) = neutralizeRawText ts := by
  apply List.ext_getElem?
  intro i
  rw [List.getElem?_map, associate, List.getElem?_mapIdx, Option.map_map]
  exact Option.map_id'

theorem neutralized_associate (ts : List Token) :
    List.Forall₂ Neutralized ts ((associate ts).map (·.token)) := by
  rw [map_token_associate]
  exact neutralized_neutralizeRawText ts

theorem texts_associate (ts : List Token) :
    (associate ts).map (·.token.text) = ts.map (·.text) := by
  rw [← Neutralized.map_eq (fun _ => rfl) (neutralized_associate ts), List.map_map]
  rfl

theorem contiguous_congr {start : Nat} {ts us : List Token}
    (h : ts.map (fun t => (t.start, t.text)) = us.map fun t => (t.start, t.text)) :
    Contiguous start ts ↔ Contiguous start us := by
  induction ts generalizing start us with
  | nil =>
    obtain rfl := List.map_eq_nil_iff.mp h.symm
    rfl
  | cons t ts ih =>
    obtain ⟨u, us, rfl, hu, hus⟩ := List.map_eq_cons_iff.mp h.symm
    obtain ⟨hstart, htext⟩ := Prod.mk.inj hu
    have hstop : u.stop = t.stop := by rw [stop, stop, hstart, htext]
    rw [Contiguous, Contiguous, hstart, hstop, ih hus.symm]

theorem contiguous_associate {start : Nat} {ts : List Token} (h : Contiguous start ts) :
    Contiguous start ((associate ts).map (·.token)) := by
  rw [contiguous_congr (Neutralized.map_eq (fun _ => rfl) (neutralized_associate ts))]
  exact h

theorem flatMap_text_associate_lex (source : Text) :
    (associate (lex source)).flatMap (·.token.text) = source := by
  rw [List.flatMap_def, texts_associate, ← List.flatMap_def, texts_lex]

theorem isSpanOf_associate_lex (source : Text) :
    ∀ t ∈ associate (lex source), t.token.IsSpanOf source := by
  intro t ht
  have hcontiguous : Contiguous (Text.byteSize []) ((associate (lex source)).map (·.token)) :=
    contiguous_associate (contiguous_lex source)
  have hspan := isSpanOf_of_contiguous hcontiguous t.token (List.mem_map_of_mem ht)
  rwa [List.nil_append, List.flatMap_map, flatMap_text_associate_lex] at hspan

/-- The later token of a pair is a closing tag. -/
theorem kind_of_mem_pairsFrom {i : Nat} {waiting : List (Text × Nat)} {ts : List Token} {p : Pair}
    (h : p ∈ pairsFrom i waiting ts) :
    ∃ k t, p.closing = i + k ∧ ts[k]? = some t ∧ t.kind = .tagClose := by
  induction ts generalizing i waiting with
  | nil => exact absurd h List.not_mem_nil
  | cons t ts ih =>
    have hrest (waiting : List (Text × Nat)) (hmem : p ∈ pairsFrom (i + 1) waiting ts) :
        ∃ k u, p.closing = i + k ∧ (t :: ts)[k]? = some u ∧ u.kind = .tagClose := by
      obtain ⟨k, u, hk, hu, hkind⟩ := ih hmem
      exact ⟨k + 1, u, by omega, hu, hkind⟩
    unfold pairsFrom at h
    split at h
    · exact hrest _ h
    · next hkind =>
      split at h
      · rcases List.mem_cons.mp h with rfl | hmem
        · exact ⟨0, t, rfl, rfl, hkind⟩
        · exact hrest _ hmem
      · exact hrest _ h
    · exact hrest _ h

/-- The partner of an opening tag is a closing tag. -/
theorem kind_of_partner {ts : List Token} {t : Paired} {i e : Nat}
    (ht : (associate ts)[i]? = some t) (hkind : t.token.kind = .tagOpen) (he : t.partner = some e) :
    ∃ u, (associate ts)[e]? = some u ∧ u.token.kind = .tagClose := by
  have htoken (k : Nat) : (associate ts)[k]? = (neutralizeRawText ts)[k]?.map
      fun u => ⟨u, partner? (pairs (neutralizeRawText ts)) k⟩ := List.getElem?_mapIdx
  rw [htoken, Option.map_eq_some_iff] at ht
  obtain ⟨u, hu, rfl⟩ := ht
  obtain ⟨p, hp, hpe⟩ := List.exists_of_findSome?_eq_some he
  obtain ⟨k, v, hk, hv, hvkind⟩ := kind_of_mem_pairsFrom hp
  rw [Nat.zero_add] at hk
  subst hk
  split at hpe
  · obtain rfl := Option.some.inj hpe
    exact ⟨_, by rw [htoken, hv]; rfl, hvkind⟩
  · split at hpe
    · next hclosing =>
      -- A token that closes a pair is no opening tag.
      rw [hclosing, hu] at hv
      obtain rfl := Option.some.inj hv
      simp [hvkind] at hkind
    · simp at hpe

end HtmlTemplate.Token
