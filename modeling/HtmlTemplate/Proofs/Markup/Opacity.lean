import HtmlTemplate.Proofs.Markup.Brackets

/-!
Raw text after pairing. A pass of `neutralize` turns a token into text when the last tag of its name
before it opens (`getElem?_neutralize`), so the tokens after an opening tag of a raw-text element
are text up to the next tag of that name, and the passes for the other names leave that next tag
alone (`textAt_neutralizeEach`).

That next tag need not close the element. When the content breaks off at a closing tag that only
begins with the name, a second opening tag of the name may follow, which stays a tag. What stands
between two partners is text just when there is none (`isOpaque_between_iff`).
-/

namespace HtmlTemplate.Token

/-! ## One pass -/

/-- The token is a tag of this name that does not close itself. -/
def isTagOf (name : Text) (t : Token) : Bool := t.isTag && !t.standalone && t.name == name

/-- Whether the last tag of this name opens, going by what held before the tokens if there is
none. -/
def insideAfter (name : Text) (inside : Bool) (ts : List Token) : Bool :=
  ts.foldl (fun inside t => if isTagOf name t then t.kind == .tagOpen else inside) inside

/-- Whether the last tag of this name before position `i` opens. -/
def insideAt (name : Text) (ts : List Token) (i : Nat) : Bool := insideAfter name false (ts.take i)

theorem getElem?_neutralize (name : Text) (inside : Bool) (ts : List Token) (i : Nat) :
    (neutralize name inside ts)[i]? = ts[i]?.map fun t =>
      if isTagOf name t then t
      else if insideAfter name inside (ts.take i) then t.toText
      else t := by
  induction ts generalizing inside i with
  | nil => rfl
  | cons t ts ih =>
    have hcons : neutralize name inside (t :: ts) =
        (if isTagOf name t then t else if inside then t.toText else t) ::
          neutralize name (if isTagOf name t then t.kind == .tagOpen else inside) ts := by
      rw [neutralize]
      unfold isTagOf
      split <;> rfl
    rw [hcons]
    cases i with
    | zero => rfl
    | succ i => exact ih _ i

variable {ts : List Token} {name other : Text} {t : Token} {b i : Nat}

theorem insideAt_succ (ht : ts[i]? = some t) :
    insideAt name ts (i + 1) =
      if isTagOf name t then t.kind == .tagOpen else insideAt name ts i := by
  rw [insideAt, List.take_add_one, ht, insideAfter, List.foldl_append]
  rfl

/-- Tokens that are no tags of the name leave the state as it is. -/
theorem insideAt_eq_of_no_tag (hbi : b ≤ i)
    (h : ∀ k, b ≤ k → k < i → ∀ t ∈ ts[k]?, isTagOf name t = false) :
    insideAt name ts i = insideAt name ts b := by
  induction hbi with
  | refl => rfl
  | @step i hbi ih =>
    have hbefore := ih fun k hk hki => h k hk (Nat.lt_succ_of_lt hki)
    cases ht : ts[i]? with
    | none => rw [insideAt, List.take_add_one, ht, ← hbefore]; simp [insideAt]
    | some t => rw [insideAt_succ ht, h i hbi (Nat.lt_succ_self i) t ht, ← hbefore]; rfl

def TextAt (ts : List Token) (i : Nat) : Prop := ∀ t ∈ ts[i]?, ∃ u : Token, t = u.toText

theorem isTagOf_of_textAt (h : TextAt ts i) (ht : t ∈ ts[i]?) : isTagOf name t = false := by
  obtain ⟨u, rfl⟩ := h t ht
  rfl

theorem OpensAt.exists_isTagOf (h : OpensAt ts name b) :
    ∃ t ∈ ts[b]?, isTagOf name t = true ∧ t.kind = .tagOpen := by
  obtain ⟨t, ht, hopen, hstandalone, hname⟩ := h
  exact ⟨t, ht, by simp [isTagOf, Token.isTag, hopen, hstandalone, hname], hopen⟩

theorem OpensAt.isTagOf_eq_false (h : OpensAt ts name b) (hne : other ≠ name) (ht : t ∈ ts[b]?) :
    isTagOf other t = false := by
  obtain ⟨u, hu, -, -, rfl⟩ := h
  obtain rfl := Option.mem_unique ht hu
  simp [isTagOf, hne.symm]

theorem opensAt_or_closesAt_of_isTagOf (ht : t ∈ ts[i]?) (h : isTagOf name t = true) :
    OpensAt ts name i ∨ ClosesAt ts name i := by
  simp only [isTagOf, isTag, Bool.and_eq_true, Bool.or_eq_true, beq_iff_eq, Bool.not_eq_true'] at h
  obtain ⟨⟨hopen | hclose, hstandalone⟩, hname⟩ := h
  · exact .inl ⟨t, ht, hopen, hstandalone, hname⟩
  · exact .inr ⟨t, ht, hclose, hname⟩

theorem mem_neutralize_of_isTagOf (ht : t ∈ ts[i]?) (h : isTagOf name t = true) :
    t ∈ (neutralize name false ts)[i]? := by
  rw [Option.mem_def, getElem?_neutralize, ht, Option.map_some, if_pos h]

theorem mem_neutralize_of_outside (ht : t ∈ ts[i]?) (h : insideAt name ts i = false) :
    t ∈ (neutralize name false ts)[i]? := by
  rw [insideAt] at h
  rw [Option.mem_def, getElem?_neutralize, ht, Option.map_some, h]
  simp

theorem textAt_neutralize (h : TextAt ts i) : TextAt (neutralize name false ts) i := by
  intro t ht
  rw [Option.mem_def, getElem?_neutralize, Option.map_eq_some_iff] at ht
  obtain ⟨u, hu, rfl⟩ := ht
  obtain ⟨v, rfl⟩ := h u hu
  exact ⟨v, by split <;> [rfl; (split <;> rfl)]⟩

/-- After an opening tag all is text that no other tag of the name precedes. -/
theorem textAt_neutralize_of_opensAt (hb : OpensAt ts name b) (hbi : b < i)
    (h : ∀ k, b < k → k ≤ i → ∀ t ∈ ts[k]?, isTagOf name t = false) :
    TextAt (neutralize name false ts) i := by
  obtain ⟨o, ho, htag, hopen⟩ := hb.exists_isTagOf
  have hinside : insideAt name ts i = true := by
    rw [insideAt_eq_of_no_tag hbi fun k hk hki => h k hk (Nat.le_of_lt hki), insideAt_succ ho,
      if_pos htag, hopen]
    rfl
  intro t ht
  rw [Option.mem_def, getElem?_neutralize, Option.map_eq_some_iff] at ht
  obtain ⟨u, hu, rfl⟩ := ht
  rw [insideAt] at hinside
  rw [h i hbi (Nat.le_refl i) u hu, hinside]
  exact ⟨u, rfl⟩

/-- An opening tag left by a pass was there before, and a pass for another name was outside. -/
theorem opensAt_of_neutralize (h : OpensAt (neutralize other false ts) name b) :
    OpensAt ts name b ∧ (other ≠ name → insideAt other ts b = false) := by
  obtain ⟨u, hu, hopen, hstandalone, hname⟩ := h
  rw [Option.mem_def, getElem?_neutralize, Option.map_eq_some_iff] at hu
  obtain ⟨t, ht, hut⟩ := hu
  cases htag : isTagOf other t with
  | true =>
    obtain rfl : t = u := by rwa [if_pos htag] at hut
    have hb : OpensAt ts name b := ⟨t, ht, hopen, hstandalone, hname⟩
    refine ⟨hb, fun hne => ?_⟩
    rw [hb.isTagOf_eq_false hne ht] at htag
    nomatch htag
  | false =>
    rw [htag, if_neg Bool.false_ne_true] at hut
    cases hinside : insideAt other ts b with
    | true =>
      rw [insideAt] at hinside
      rw [hinside, if_pos rfl] at hut
      subst hut
      nomatch hopen
    | false =>
      rw [insideAt] at hinside
      rw [hinside, if_neg Bool.false_ne_true] at hut
      subst hut
      exact ⟨⟨t, ht, hopen, hstandalone, hname⟩, fun _ => rfl⟩

/-- A pass keeps a tag when only text stands between it and an opening tag of its name that the
pass keeps. -/
theorem mem_neutralize_of_text_between (hb : OpensAt (neutralize other false ts) name b)
    (hbi : b < i) (htext : ∀ k, b < k → k < i → TextAt ts k) (ht : t ∈ ts[i]?)
    (htag : isTagOf name t = true) : t ∈ (neutralize other false ts)[i]? := by
  obtain ⟨hopens, houtside⟩ := opensAt_of_neutralize hb
  by_cases hname : other = name
  · exact mem_neutralize_of_isTagOf ht (hname ▸ htag)
  · refine mem_neutralize_of_outside ht ?_
    rw [insideAt_eq_of_no_tag (Nat.le_of_lt hbi), houtside hname]
    intro k hk hki u hu
    rcases Nat.eq_or_lt_of_le hk with rfl | hk
    · exact hopens.isTagOf_eq_false hname hu
    · exact isTagOf_of_textAt (htext k hk hki) hu

/-! ## All passes -/

def neutralizeEach (names : List Text) (ts : List Token) : List Token :=
  names.foldl (fun ts name => neutralize name false ts) ts

theorem textAt_neutralizeEach_of_textAt (names : List Text) (h : TextAt ts i) :
    TextAt (neutralizeEach names ts) i := by
  induction names generalizing ts with
  | nil => exact h
  | cons other names ih => exact ih (textAt_neutralize h)

theorem opensAt_of_neutralizeEach {names : List Text}
    (h : OpensAt (neutralizeEach names ts) name b) : OpensAt ts name b := by
  induction names generalizing ts with
  | nil => exact h
  | cons other names ih => exact (opensAt_of_neutralize (ih h)).1

theorem mem_neutralizeEach_of_text_between {names : List Text}
    (hb : OpensAt (neutralizeEach names ts) name b) (hbi : b < i)
    (htext : ∀ k, b < k → k < i → TextAt ts k) (ht : t ∈ ts[i]?) (htag : isTagOf name t = true) :
    t ∈ (neutralizeEach names ts)[i]? := by
  induction names generalizing ts with
  | nil => exact ht
  | cons other names ih =>
    have hkept := mem_neutralize_of_text_between (opensAt_of_neutralizeEach hb) hbi htext ht htag
    exact ih hb (fun k hk hki => textAt_neutralize (htext k hk hki)) hkept

/-- After an opening tag of a raw-text element all is text up to the next tag of its name. -/
theorem textAt_neutralizeEach {names : List Text} (hname : name ∈ names)
    (hb : OpensAt (neutralizeEach names ts) name b) (hbi : b < i)
    (hnone : ∀ k, b < k → k ≤ i → ∀ t ∈ (neutralizeEach names ts)[k]?, isTagOf name t = false) :
    TextAt (neutralizeEach names ts) i := by
  induction names generalizing ts with
  | nil => nomatch hname
  | cons other names ih =>
    rcases List.mem_cons.mp hname with rfl | hmem
    · have hopens : OpensAt ts name b := opensAt_of_neutralizeEach hb
      have hkeeps : OpensAt (neutralizeEach names (neutralize name false ts)) name b := hb
      -- A tag of the name would have only text before it after this pass, and be kept to the end.
      have hbefore (k : Nat) : b < k → k ≤ i → ∀ t ∈ ts[k]?, isTagOf name t = false := by
        induction k using Nat.strongRecOn with
        | ind k ihk =>
          intro hbk hki t ht
          by_contra htag
          rw [Bool.not_eq_false] at htag
          have htext (j : Nat) (hbj : b < j) (hjk : j < k) : TextAt (neutralize name false ts) j :=
            textAt_neutralize_of_opensAt hopens hbj fun l hbl hlj =>
              ihk l (by omega) hbl (by omega)
          have hkept := mem_neutralizeEach_of_text_between hkeeps hbk htext
            (mem_neutralize_of_isTagOf ht htag) htag
          exact absurd (hnone k hbk hki t hkept) (by rw [htag]; nofun)
      exact textAt_neutralizeEach_of_textAt names
        (textAt_neutralize_of_opensAt hopens hbi hbefore)
    · exact ih hmem hb hnone

/-! ## Between partners -/

/-- Between an opening tag and its partner, the first tag of the name opens. -/
theorem Bracketed.not_closesAt_between {partner : Nat → Option Nat} {e c : Nat}
    (h : Bracketed ts partner) (hopens : OpensAt ts name b) (he : partner b = some e)
    (hbc : b < c) (hce : c < e) (hnone : ∀ k, b < k → k < c → ¬OpensAt ts name k) :
    ¬ClosesAt ts name c := by
  intro hc
  have hnearest : IsNearest ts (IsTakenBefore partner c) name c b := by
    refine ⟨hopens, hbc, ?_, fun k hbk hkc hk => absurd hk (hnone k hbk hkc)⟩
    rintro ⟨x, hxc, hx⟩
    have hxe := Option.some.inj (hx.symm.trans he)
    omega
  have hcb := (h.symm c b).mp ((h.nearest hc b).mpr hnearest)
  have hec := Option.some.inj (hcb.symm.trans he)
  omega

/-- A run of text without name, attributes or partner. -/
def Paired.IsOpaque (p : Paired) : Prop :=
  p.token.kind = .text ∧ p.token.name = [] ∧ p.token.attributes = [] ∧ p.partner = none

instance (p : Paired) : Decidable p.IsOpaque :=
  inferInstanceAs (Decidable (_ ∧ _))

section

variable {source : Text} {e : Nat} {p : Paired}

theorem isOpaque_of_textAt (h : TextAt (neutralizeRawText (lex source)) i)
    (hp : (associate (lex source))[i]? = some p) : p.IsOpaque := by
  have htoken : (neutralizeRawText (lex source))[i]? = some p.token := by
    rw [← map_token_associate, List.getElem?_map, hp, Option.map_some]
  obtain ⟨u, hu⟩ := h p.token htoken
  have halone := (bracketed_partnerAt source).alone htoken (.inl (by rw [hu]; rfl))
  rw [partnerAt, hp, Option.bind_some] at halone
  exact ⟨by rw [hu]; rfl, by rw [hu]; rfl, by rw [hu]; rfl, halone⟩

/-- Raw text goes on to the next tag of its element's name, whatever stands in it. -/
theorem isOpaque_of_no_tag_between (hname : name ∈ rawTextElements)
    (hopens : OpensAt (neutralizeRawText (lex source)) name b) (hbi : b < i)
    (hnone : ∀ k, b < k → k ≤ i → ∀ t ∈ (neutralizeRawText (lex source))[k]?,
      isTagOf name t = false)
    (hp : (associate (lex source))[i]? = some p) : p.IsOpaque :=
  isOpaque_of_textAt (textAt_neutralizeEach hname hopens hbi hnone) hp

/-- The tokens between an opening tag of a raw-text element and its partner are text without name,
attributes or partner exactly when no second opening tag of that name is left between the two. -/
theorem isOpaque_between_iff (hname : name ∈ rawTextElements)
    (hopens : OpensAt ((associate (lex source)).map (·.token)) name b)
    (he : partnerAt (associate (lex source)) b = some e) :
    (∀ i p, b < i → i < e → (associate (lex source))[i]? = some p → p.IsOpaque) ↔
      ∀ i, b < i → i < e → ¬OpensAt ((associate (lex source)).map (·.token)) name i := by
  constructor
  · rintro h i hbi hie ⟨t, ht, hopen, -⟩
    rw [Option.mem_def, List.getElem?_map, Option.map_eq_some_iff] at ht
    obtain ⟨p, hp, rfl⟩ := ht
    rw [(h i p hbi hie hp).1] at hopen
    nomatch hopen
  · intro hnone i p hbi hie hp
    rw [map_token_associate] at hopens hnone
    refine isOpaque_of_no_tag_between hname hopens hbi (fun k hbk hki t ht => ?_) hp
    by_contra htag
    rcases opensAt_or_closesAt_of_isTagOf ht (Bool.not_eq_false _ ▸ htag) with hk | hk
    · exact hnone k hbk (by omega) hk
    · refine (bracketed_partnerAt source).not_closesAt_between hopens he hbk (by omega) ?_ hk
      exact fun l hbl hlk => hnone l hbl (by omega)

end

/-- A closing tag that only begins with the name is text, and so is what follows it. -/
theorem isOpaque_between_iff_lookalike :
    let tokens := associate (lex "<script>a<b</scripty><i></script>")
    "script".toList ∈ rawTextElements ∧ OpensAt (tokens.map (·.token)) "script" 0 ∧
      partnerAt tokens 0 = some 4 ∧
      ∀ i p, 0 < i → i < 4 → tokens[i]? = some p → p.IsOpaque := by
  intro tokens
  have hname : "script".toList ∈ rawTextElements := by decide
  have hopens : OpensAt (tokens.map (·.token)) "script" 0 := by decide +kernel
  have hpartner : partnerAt tokens 0 = some 4 := by decide +kernel
  have hnone : ∀ i < 4, 0 < i → ¬OpensAt (tokens.map (·.token)) "script" i := by decide +kernel
  refine ⟨hname, hopens, hpartner, ?_⟩
  exact (isOpaque_between_iff hname hopens hpartner).mpr fun i hbi hie => hnone i hie hbi

/-- A second opening tag after such a closing tag stays a tag and has a partner of its own, so it is
the one after that which closes the first. -/
theorem not_isOpaque_between :
    let tokens := associate (lex "<script></scripty><script></script></script>")
    "script".toList ∈ rawTextElements ∧ OpensAt (tokens.map (·.token)) "script" 0 ∧
      partnerAt tokens 0 = some 4 ∧ OpensAt (tokens.map (·.token)) "script" 2 ∧
      partnerAt tokens 2 = some 3 ∧
      ¬∀ i p, 0 < i → i < 4 → tokens[i]? = some p → p.IsOpaque := by
  intro tokens
  have hopens : OpensAt (tokens.map (·.token)) "script" 2 := by decide +kernel
  refine ⟨by decide, by decide +kernel, by decide +kernel, hopens, by decide +kernel, fun h => ?_⟩
  obtain ⟨t, ht, hkind, -⟩ := hopens
  rw [Option.mem_def, List.getElem?_map, Option.map_eq_some_iff] at ht
  obtain ⟨p, hp, rfl⟩ := ht
  rw [(h 2 p (by decide) (by decide) hp).1] at hkind
  nomatch hkind

end HtmlTemplate.Token
