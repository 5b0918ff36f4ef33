import HtmlTemplate.Proofs.Markup.Cleaning
import HtmlTemplate.Proofs.Text.Trimming

/-!
Texts that differ in their blanks. Collapsing blanks makes each run of them shorter and drops those
between two tags, and nothing else (`respaced_collapseAfter`). Two such texts are cut into such
texts at the same characters (`Respaced.exists_of_append`), and a word in the one is a word in the
other (`Respaced.exists_of_word_append`).
-/

namespace HtmlTemplate

namespace Text

/-- A run of blanks, which may be empty. -/
def IsGap (t : Text) : Prop := ∀ c ∈ t, isBlank c = true

/-- A text without blanks and without `<`, which stays as it is where blanks change. -/
def IsWord (t : Text) : Prop := ∀ c ∈ t, isBlank c = false ∧ c ≠ '<'

instance (t : Text) : Decidable (IsWord t) :=
  decidable_of_iff (t.all fun c => !isBlank c && c != '<') (by simp [IsWord])

/-- Two texts with the same characters and other blanks between them. Where the one has blanks so
has the other, but for the places between `>` and `<`; `last` is the character before both. -/
inductive Respaced : Option Char → Text → Text → Prop
  | gap {last : Option Char} {gap gap' : Text} (isGap : IsGap gap) (isGap' : IsGap gap')
      (same : gap = [] ↔ gap' = []) : Respaced last gap gap'
  | ink {last : Option Char} {c : Char} {gap gap' t t' : Text} (isGap : IsGap gap)
      (isGap' : IsGap gap') (same : (gap = [] ↔ gap' = []) ∨ last = some '>' ∧ c = '<')
      (inked : isBlank c = false) (rest : Respaced (some c) t t') :
      Respaced last (gap ++ c :: t) (gap' ++ c :: t')

/-! ## Gaps -/

theorem isGap_nil : IsGap [] := List.forall_mem_nil _

theorem isGap_space : IsGap [' '] := List.forall_mem_singleton.mpr rfl

theorem IsGap.append {s t : Text} (hs : IsGap s) (ht : IsGap t) : IsGap (s ++ t) :=
  List.forall_mem_append.mpr ⟨hs, ht⟩

theorem IsGap.not_mem {t : Text} (h : IsGap t) {c : Char} (hc : isBlank c = false) : c ∉ t :=
  fun hmem => by simp [h c hmem] at hc

@[simp] theorem inked_append (s t : Text) : inked (s ++ t) = inked s ++ inked t :=
  List.filter_append ..

theorem IsGap.inked_eq {t : Text} (h : IsGap t) : inked t = [] :=
  List.filter_eq_nil_iff.mpr fun c hc => by simp [h c hc]

theorem IsGap.inked_append_cons {gap : Text} (h : IsGap gap) {c : Char} (hc : isBlank c = false)
    (t : Text) : inked (gap ++ c :: t) = c :: inked t := by
  rw [inked_append, h.inked_eq, List.nil_append, inked_cons_of_not_blank (by simp [hc])]

theorem isGap_iff_inked {t : Text} : IsGap t ↔ inked t = [] := by
  simp [IsGap, inked]

theorem isBlank_toLower (c : Char) : isBlank c.toLower = isBlank c := by
  rcases toLower_cases c with hsame | ⟨hlow, hhigh, hvalue⟩
  · rw [hsame]
  · rw [not_isBlank_of_bounds (c := c) (by omega) (by omega),
      not_isBlank_of_bounds (by omega) (by omega)]

theorem IsGap.lowerAscii {t : Text} (h : IsGap t) : IsGap (lowerAscii t) :=
  List.forall_mem_map.mpr fun c hc => (isBlank_toLower c).trans (h c hc)

theorem getLast?_or_cons (c : Char) (t : Text) (last : Option Char) :
    t.getLast?.or (some c) = (c :: t).getLast?.or last := by
  rw [List.getLast?_cons]
  cases t.getLast? <;> rfl

/-- The texts are cut at a character that is no blank, with the blanks before it in front. -/
theorem IsGap.eq_append_of_append_eq {gap s t u : Text} {c d : Char} (h : IsGap gap)
    (hd : isBlank d = false) (heq : gap ++ c :: t = s ++ d :: u) :
    s = gap ∧ c = d ∧ t = u ∨ ∃ v, s = gap ++ c :: v ∧ t = v ++ d :: u := by
  rcases List.append_eq_append_iff.mp heq with ⟨v, rfl, hv⟩ | ⟨v, rfl, hv⟩
  · cases v with
    | nil =>
      obtain ⟨rfl, rfl⟩ := List.cons.inj hv
      exact .inl ⟨List.append_nil gap, rfl, rfl⟩
    | cons e v =>
      obtain ⟨rfl, rfl⟩ := List.cons.inj hv
      exact .inr ⟨v, rfl, rfl⟩
  · cases v with
    | nil =>
      obtain ⟨rfl, rfl⟩ := List.cons.inj hv
      exact .inl ⟨(List.append_nil s).symm, rfl, rfl⟩
    | cons e v =>
      obtain ⟨rfl, -⟩ := List.cons.inj hv
      exact absurd (List.mem_append_right s List.mem_cons_self) (h.not_mem hd)

namespace Respaced

variable {last : Option Char} {t t' : Text}

/-! ## The relation -/

theorem symm (h : Respaced last t t') : Respaced last t' t := by
  induction h with
  | gap isGap isGap' same => exact .gap isGap' isGap same.symm
  | ink isGap isGap' same inked _ ih => exact .ink isGap' isGap (same.imp_left Iff.symm) inked ih

theorem nil : Respaced last [] [] := .gap isGap_nil isGap_nil Iff.rfl

theorem cons {c : Char} (hc : isBlank c = false) (h : Respaced (some c) t t') :
    Respaced last (c :: t) (c :: t') :=
  .ink isGap_nil isGap_nil (.inl Iff.rfl) hc h

theorem inked_eq (h : Respaced last t t') : inked t = inked t' := by
  induction h with
  | gap isGap isGap' => rw [isGap.inked_eq, isGap'.inked_eq]
  | ink isGap isGap' _ inked _ ih =>
    rw [isGap.inked_append_cons inked, isGap'.inked_append_cons inked, ih]

theorem mem_iff (h : Respaced last t t') {c : Char} (hc : isBlank c = false) :
    c ∈ t ↔ c ∈ t' := by
  have hmem (t : Text) : c ∈ inked t ↔ c ∈ t := by simp [inked, hc]
  rw [← hmem, h.inked_eq, hmem]

theorem eq_nil_iff (h : Respaced last t t') : t = [] ↔ t' = [] := by
  cases h with
  | gap _ _ same => exact same
  | ink => simp

theorem append_gap_left {s s' gap gap' : Text} (isGap : IsGap gap) (isGap' : IsGap gap')
    (same : gap = [] ↔ gap' = []) (h : Respaced last s s') :
    Respaced last (gap ++ s) (gap' ++ s') := by
  have happend {u u' : Text} (hsame : u = [] ↔ u' = []) : gap ++ u = [] ↔ gap' ++ u' = [] := by
    rw [List.append_eq_nil_iff, List.append_eq_nil_iff, same, hsame]
  cases h with
  | gap hgap hgap' hsame => exact .gap (isGap.append hgap) (isGap'.append hgap') (happend hsame)
  | ink hgap hgap' hsame inked rest =>
    rw [← List.append_assoc, ← List.append_assoc]
    exact .ink (isGap.append hgap) (isGap'.append hgap') (hsame.imp_left happend) inked rest

theorem append {s s' : Text} (h : Respaced last t t')
    (hs : Respaced ((inked t).getLast?.or last) s s') : Respaced last (t ++ s) (t' ++ s') := by
  induction h with
  | gap isGap isGap' same =>
    rw [isGap.inked_eq] at hs
    exact append_gap_left isGap isGap' same hs
  | @ink last c gap gap' t t' isGap isGap' same inked rest ih =>
    rw [isGap.inked_append_cons inked, ← getLast?_or_cons] at hs
    rw [List.append_assoc, List.append_assoc]
    exact .ink isGap isGap' same inked (ih hs)

/-! ## Cutting both texts -/

/-- Cut before a character other than `<`. -/
theorem exists_of_append {s u : Text} {d : Char} (h : Respaced last t t') (ht : t = s ++ d :: u)
    (hd : isBlank d = false) (hne : d ≠ '<') :
    ∃ s' u', t' = s' ++ d :: u' ∧ Respaced last s s' ∧ Respaced (some d) u u' := by
  induction h generalizing s with
  | gap isGap => exact absurd (ht ▸ List.mem_append_right s List.mem_cons_self) (isGap.not_mem hd)
  | @ink last c gap gap' t t' isGap isGap' same inked rest ih =>
    rcases isGap.eq_append_of_append_eq hd ht with ⟨rfl, rfl, rfl⟩ | ⟨v, rfl, hv⟩
    · have hsame := same.resolve_right fun hclose => hne hclose.2
      exact ⟨gap', t', rfl, .gap isGap isGap' hsame, rest⟩
    · obtain ⟨s', u', rfl, hs, hu⟩ := ih hv
      exact ⟨gap' ++ c :: s', u', by simp, .ink isGap isGap' same inked hs, hu⟩

/-- Cut after a word. -/
theorem exists_of_word_append {w u : Text} (h : Respaced last (w ++ u) t')
    (hw : IsWord w) :
    ∃ u', t' = w ++ u' ∧ Respaced (w.getLast?.or last) u u' := by
  induction w generalizing last t' with
  | nil => exact ⟨t', rfl, h⟩
  | cons c w ih =>
    obtain ⟨⟨hc, hne⟩, hw⟩ := List.forall_mem_cons.mp hw
    obtain ⟨s', u', rfl, hs, hu⟩ := h.exists_of_append (s := []) rfl hc hne
    obtain ⟨v, rfl, hv⟩ := ih hu hw
    rw [getLast?_or_cons c w last] at hv
    rw [hs.eq_nil_iff.mp rfl]
    exact ⟨v, rfl, hv⟩

theorem eq_of_word (h : Respaced last t t') (ht : IsWord t) :
    t' = t := by
  rw [← List.append_nil t] at h
  obtain ⟨u', rfl, hu⟩ := h.exists_of_word_append ht
  rw [hu.eq_nil_iff.mp rfl, List.append_nil]

/-- Cut before a word at the end. -/
theorem exists_of_append_word {s w : Text} (h : Respaced last (s ++ w) t') (hne : w ≠ [])
    (hw : IsWord w) :
    ∃ s', t' = s' ++ w ∧ Respaced last s s' := by
  obtain ⟨c, w, rfl⟩ := List.exists_cons_of_ne_nil hne
  obtain ⟨⟨hc, hopen⟩, hrest⟩ := List.forall_mem_cons.mp hw
  obtain ⟨s', u', rfl, hs, hu⟩ := h.exists_of_append rfl hc hopen
  rw [hu.eq_of_word hrest]
  exact ⟨s', rfl, hs⟩

theorem getLast?_of (h : Respaced last t t') {d : Char} (hd : isBlank d = false) (hne : d ≠ '<')
    (hlast : t.getLast? = some d) : t'.getLast? = some d := by
  obtain ⟨s, rfl⟩ := List.getLast?_eq_some_iff.mp hlast
  obtain ⟨s', u', rfl, -, hu⟩ := h.exists_of_append rfl hd hne
  rw [hu.eq_nil_iff.mp rfl, List.getLast?_concat]

theorem getLast?_iff (h : Respaced last t t') {d : Char} (hd : isBlank d = false) (hne : d ≠ '<') :
    t.getLast? = some d ↔ t'.getLast? = some d :=
  ⟨h.getLast?_of hd hne, h.symm.getLast?_of hd hne⟩

theorem head?_of (h : Respaced last t t') {p : Char → Bool}
    (hp : ∀ c, p c = true → isBlank c = false ∧ c ≠ '<') (ht : ∀ c ∈ t.head?, p c = false) :
    ∀ c ∈ t'.head?, p c = false := by
  have hgap {gap : Text} (isGap : IsGap gap) : ∀ c ∈ gap.head?, p c = false := by
    intro c hc
    have hblank := isGap c (List.mem_of_head? hc)
    by_contra hname
    simp [(hp c (by simpa using hname)).1] at hblank
  cases h with
  | gap _ isGap' => exact hgap isGap'
  | @ink _ d gap gap' _ _ _ isGap' same =>
    cases hgap' : gap' with
    | cons e gap' =>
      rw [hgap'] at isGap'
      exact fun c hc => hgap isGap' c hc
    | nil =>
      intro c hc
      obtain rfl : d = c := Option.some.inj hc
      rcases same with hsame | ⟨-, rfl⟩
      · rw [hsame.mpr hgap'] at ht
        exact ht d rfl
      · by_contra hname
        exact (hp '<' (by simpa using hname)).2 rfl

theorem takeWhile_eq (h : Respaced last t t') {p : Char → Bool}
    (hp : ∀ c, p c = true → isBlank c = false ∧ c ≠ '<') : t'.takeWhile p = t.takeWhile p := by
  have hword : ∀ c ∈ t.takeWhile p, p c = true := List.all_eq_true.mp List.all_takeWhile
  have hrest : ∀ c ∈ (t.dropWhile p).head?, p c = false := head?_dropWhile_not
  rw [← List.takeWhile_append_dropWhile (p := p) (l := t)] at h
  obtain ⟨u', rfl, hu⟩ := h.exists_of_word_append fun c hc => hp c (hword c hc)
  exact (takeWhile_append List.all_takeWhile (hu.head?_of hp hrest)).1

theorem prefix_iff (h : Respaced last t t') {p : Text}
    (hp : IsWord p) : p <+: t ↔ p <+: t' := by
  have hbegins {t t' : Text} (h : Respaced last t t') : p <+: t → p <+: t' := by
    rintro ⟨u, rfl⟩
    obtain ⟨u', rfl, -⟩ := h.exists_of_word_append hp
    exact List.prefix_append p u'
  exact ⟨hbegins h, hbegins h.symm⟩

/-! ## Other forms of both texts -/

theorem trimStart_cases (h : Respaced last t t') :
    trimStart t = [] ∧ trimStart t' = [] ∨
      ∃ c u u', trimStart t = c :: u ∧ trimStart t' = c :: u' ∧ isBlank c = false ∧
        Respaced (some c) u u' := by
  cases h with
  | gap isGap isGap' => exact .inl ⟨trimStart_of_blank isGap, trimStart_of_blank isGap'⟩
  | @ink _ c _ _ u u' isGap isGap' _ inked rest =>
    refine .inr ⟨c, u, u', ?_, ?_, inked, rest⟩
    · rw [trimStart_append_of_blank isGap, trimStart_cons inked]
    · rw [trimStart_append_of_blank isGap', trimStart_cons inked]

theorem trimEnd (h : Respaced last t t') : Respaced last (Text.trimEnd t) (Text.trimEnd t') := by
  induction h with
  | gap isGap isGap' =>
    rw [trimEnd_of_blank isGap, trimEnd_of_blank isGap']
    exact nil
  | ink isGap isGap' same inked _ ih =>
    rw [trimEnd_append_cons inked, trimEnd_append_cons inked]
    exact .ink isGap isGap' same inked ih

theorem trim (h : Respaced last t t') : Respaced last (Text.trim t) (Text.trim t') := by
  rw [Text.trim, Text.trim]
  rcases h.trimStart_cases with ⟨ht, ht'⟩ | ⟨c, u, u', ht, ht', hc, hu⟩
  · rw [ht, ht']
    exact nil
  · rw [ht, ht']
    exact (cons hc hu).trimEnd

theorem lowerAscii (h : Respaced last t t') :
    Respaced (last.map Char.toLower) (Text.lowerAscii t) (Text.lowerAscii t') := by
  have hmap (gap t : Text) (c : Char) :
      Text.lowerAscii (gap ++ c :: t) = Text.lowerAscii gap ++ c.toLower :: Text.lowerAscii t :=
    List.map_append
  induction h with
  | gap isGap isGap' same =>
    exact .gap isGap.lowerAscii isGap'.lowerAscii (by simpa [Text.lowerAscii] using same)
  | ink isGap isGap' same inked _ ih =>
    rw [hmap, hmap]
    refine .ink isGap.lowerAscii isGap'.lowerAscii (same.imp ?_ ?_) ?_ ih
    · intro hsame
      simpa [Text.lowerAscii] using hsame
    · rintro ⟨rfl, rfl⟩
      exact ⟨rfl, rfl⟩
    · rwa [isBlank_toLower]

end Respaced

end Text

namespace Markup

/-- Collapsing blanks changes nothing but blanks; `gap` is the run of blanks that has begun. -/
theorem respaced_collapseAfter {gap : Text} (isGap : Text.IsGap gap) (last : Option Char)
    (t : Text) : Text.Respaced last (gap ++ t) (collapseAfter last (!gap.isEmpty) t) := by
  induction t generalizing gap last with
  | nil =>
    cases gap with
    | nil => exact .nil
    | cons c gap =>
      rw [List.append_nil]
      exact .gap isGap Text.isGap_space (by simp [collapseAfter])
  | cons c t ih =>
    rw [collapseAfter]
    split
    · next hc =>
      have hrest := ih (isGap.append (List.forall_mem_singleton.mpr hc)) last
      have hbegun : (!(gap ++ [c]).isEmpty) = true := by cases gap <;> rfl
      rwa [List.append_assoc, hbegun] at hrest
    · next hc =>
      have inked : Text.isBlank c = false := by simpa using hc
      have hrest := ih Text.isGap_nil (some c)
      split
      · next hspace =>
        refine .ink isGap Text.isGap_space (.inl ?_) inked hrest
        rw [Bool.and_eq_true] at hspace
        simpa using hspace.1
      · next hnone =>
        refine .ink isGap Text.isGap_nil ?_ inked hrest
        by_cases hgap : gap = []
        · exact .inl (by simp [hgap])
        · exact .inr (by simpa [hgap] using hnone)

end Markup

end HtmlTemplate
