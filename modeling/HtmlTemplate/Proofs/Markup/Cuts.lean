import HtmlTemplate.Proofs.Markup.RespacedTags

/-!
Where the inside of a tag is cut into chunks. A chunk is a text that no blank splits (`IsUnbroken`),
and the blanks behind it split it from the next one (`LaidOut`). A text laid out in this way is read
as it is laid out (`LaidOut.chunks_eq`), so the chunks are the one way to cut the inside
(`cuts_iff_eq_chunks`), also if it is cut by offsets in bytes.
-/

namespace HtmlTemplate

namespace Text

/-- A character of two texts in a row is in one of them. -/
theorem append_eq_append_cons {r s before after : Text} {c : Char}
    (h : r ++ s = before ++ c :: after) :
    (∃ a, r = before ++ c :: a ∧ after = a ++ s) ∨ ∃ b, before = r ++ b ∧ s = b ++ c :: after := by
  rcases List.append_eq_append_iff.mp h with ⟨b, hbefore, hs⟩ | ⟨a, hr, hafter⟩
  · exact .inr ⟨b, hbefore, hs⟩
  · cases a with
    | nil => exact .inr ⟨[], by simpa using hr.symm, hafter.symm⟩
    | cons d a =>
      obtain ⟨rfl, rfl⟩ := List.cons.inj hafter
      exact .inl ⟨a, hr, rfl⟩

theorem singleton_eq_append_cons {c d : Char} {before after : Text}
    (h : [c] = before ++ d :: after) : before = [] ∧ c = d := by
  cases before with
  | nil => exact ⟨rfl, (List.cons.inj h).1⟩
  | cons e before => simp at h

theorem byteSize_pos {t : Text} (h : t ≠ []) : 0 < byteSize t := by
  obtain ⟨c, cs, rfl⟩ := List.exists_cons_of_ne_nil h
  exact Nat.lt_of_lt_of_le c.utf8Size_pos (Nat.le_add_right _ _)

/-- The longer one of two beginnings of a text goes on from the other. -/
theorem exists_of_append_eq {before t front u : Text} (h : before ++ t = front ++ u)
    (hle : byteSize before ≤ byteSize front) : ∃ gap, front = before ++ gap ∧ t = gap ++ u := by
  rcases List.append_eq_append_iff.mp h with hlonger | ⟨extra, rfl, hu⟩
  · exact hlonger
  · have hnil : extra = [] := by
      by_contra hne
      have hpos := byteSize_pos hne
      rw [byteSize_append] at hle
      omega
    subst hnil
    exact ⟨[], by simp, hu.symm⟩

end Text

namespace Attribute
open Text Token

/-! ## Unbroken texts -/

theorem isQuote_of_mem_foldl {open? : Option Char} (hopen : ∀ q ∈ open?, isQuote q = true)
    (t : Text) : ∀ q ∈ t.foldl nextQuote open?, isQuote q = true := by
  induction t generalizing open? with
  | nil => exact hopen
  | cons c t ih => exact ih (forall_mem_nextQuote (fun _ => id) hopen)

/-- Blanks open and close no quotes. -/
theorem openAfter_append_gap {gap : Text} (t : Text) (h : IsGap gap) :
    openAfter (t ++ gap) = openAfter t := by
  rw [openAfter_append]
  exact (hidesClose_gap (isQuote_of_mem_foldl (by simp) t) h).2

theorem openAfter_gap_concat {gap : Text} (t : Text) (h : IsGap gap) (c : Char) :
    openAfter (t ++ gap ++ [c]) = nextQuote (openAfter t) c := by
  rw [openAfter_append, openAfter_append_gap t h]
  rfl

/-- The blank between the two texts is beside an equals sign, perhaps behind further blanks. -/
def BesideEquals (before after : Text) : Prop :=
  (∃ init gap, before = init ++ '=' :: gap ∧ IsGap gap) ∨
    ∃ gap rest, after = gap ++ '=' :: rest ∧ IsGap gap

def EndsInked (t : Text) : Prop :=
  ∀ init c, t = init ++ [c] → openAfter init = none → isBlank c = false

theorem endsInked_concat {t : Text} {c : Char} (h : openAfter t = none → isBlank c = false) :
    EndsInked (t ++ [c]) := by
  intro init d hinit hopen
  obtain ⟨rfl, heq⟩ := List.append_inj' hinit rfl
  rw [← (List.cons.inj heq).1, h hopen]

/-- Blanks outside of quotes stand beside equals signs only, and at neither end. -/
structure IsUnbroken (piece : Text) : Prop where
  starts : ∃ c cs, piece = c :: cs ∧ isBlank c = false
  ends : EndsInked piece
  joins : ∀ before c after, piece = before ++ c :: after → openAfter before = none →
    isBlank c = true → BesideEquals before after

theorem IsUnbroken.ne_nil {r : Text} (h : IsUnbroken r) : r ≠ [] := by
  obtain ⟨c, cs, rfl, -⟩ := h.starts
  exact List.cons_ne_nil c cs

theorem isUnbroken_singleton {c : Char} (h : isBlank c = false) : IsUnbroken [c] where
  starts := ⟨c, [], rfl, h⟩
  ends := endsInked_concat (t := []) fun _ => h
  joins before d after hsplit _ hblank := by
    rw [← (singleton_eq_append_cons hsplit).2, h] at hblank
    cases hblank

theorem IsUnbroken.join {r gap : Text} {c : Char} (h : IsUnbroken r) (hgap : IsGap gap)
    (hink : openAfter r = none → isBlank c = false)
    (hjoin : gap = [] ∨ c = '=' ∨ r.getLast? = some '=') : IsUnbroken (r ++ gap ++ [c]) := by
  have hafter := openAfter_append_gap r hgap
  refine ⟨?_, endsInked_concat (hafter.symm ▸ hink), fun before d after hsplit hopen hblank => ?_⟩
  · obtain ⟨d, ds, rfl, hd⟩ := h.starts
    exact ⟨d, ds ++ gap ++ [c], rfl, hd⟩
  · rw [List.append_assoc] at hsplit
    rcases append_eq_append_cons hsplit with ⟨a, rfl, rfl⟩ | ⟨b, rfl, hgap'⟩
    · rcases h.joins before d a rfl hopen hblank with hleft | ⟨g, rest, rfl, hg⟩
      · exact .inl hleft
      · exact .inr ⟨g, rest ++ (gap ++ [c]), by simp, hg⟩
    · rcases append_eq_append_cons hgap' with ⟨a, rfl, rfl⟩ | ⟨b', rfl, hlast⟩
      · have hb : IsGap b := fun e he => hgap e (List.mem_append_left _ he)
        have ha : IsGap a := fun e he => hgap e (by simp [he])
        rcases hjoin with hnil | rfl | hlast
        · simp at hnil
        · exact .inr ⟨a, [], rfl, ha⟩
        · obtain ⟨init, rfl⟩ := List.getLast?_eq_some_iff.mp hlast
          exact .inl ⟨init, b, by simp, hb⟩
      · obtain ⟨rfl, heq⟩ := singleton_eq_append_cons hlast
        rw [List.append_nil, hafter] at hopen
        rw [← heq, hink hopen] at hblank
        cases hblank

/-! ## Texts laid out -/

/-- The pieces stand in the text one after the other, with blanks behind each of them that split it
from the next one. Behind the last piece there may be none. -/
inductive LaidOut : List Text → Text → Prop
  | nil : LaidOut [] []
  | last {piece : Text} (unbroken : IsUnbroken piece) : LaidOut [piece] piece
  | cons {piece gap rest : Text} {pieces : List Text} (unbroken : IsUnbroken piece)
      (closed : openAfter piece = none) (isGap : IsGap gap) (ne_nil : gap ≠ [])
      (apart : ∀ next ∈ pieces, Apart piece next) (behind : LaidOut pieces rest) :
      LaidOut (piece :: pieces) (piece ++ gap ++ rest)

namespace LaidOut

variable {pieces : List Text} {t : Text}

theorem unbroken (h : LaidOut pieces t) : ∀ piece ∈ pieces, IsUnbroken piece := by
  induction h with
  | nil => exact List.forall_mem_nil _
  | last unbroken => exact List.forall_mem_singleton.mpr unbroken
  | cons unbroken _ _ _ _ _ ih => exact List.forall_mem_cons.mpr ⟨unbroken, ih⟩

theorem apart (h : LaidOut pieces t) : pieces.Pairwise Apart := by
  induction h with
  | nil => exact .nil
  | last => exact List.pairwise_singleton _ _
  | cons _ _ _ _ apart _ ih => exact List.pairwise_cons.mpr ⟨apart, ih⟩

end LaidOut

/-- The induction is along the text that is left; `r` is the unfinished chunk, `gap` the blanks
after it. -/
theorem laidOut_chunksAfter {r gap : Text} (hr : IsUnbroken r) (hgap : IsGap gap)
    (hopen : gap ≠ [] → openAfter r = none) (cs : Text) :
    LaidOut (chunksAfter (openAfter r) r.reverse gap.reverse cs) (r ++ gap ++ cs) := by
  induction cs generalizing r gap with
  | nil =>
    rw [chunksAfter, if_neg (by simpa using hr.ne_nil), List.reverse_reverse]
    by_cases hnil : gap = []
    · rw [hnil, List.append_nil, List.append_nil]
      exact .last hr
    · exact .cons hr (hopen hnil) hgap hnil (List.forall_mem_nil _) .nil
  | cons c cs ih =>
    rw [chunksAfter]
    split
    · next hblank =>
      obtain ⟨hnone, hc⟩ := by simpa using hblank
      have hwait := ih hr (hgap.append (List.forall_mem_singleton.mpr hc)) fun _ => hnone
      simpa [hr.ne_nil] using hwait
    · next hink =>
      have hc : openAfter r = none → isBlank c = false := by simpa using hink
      split
      · next hjoins =>
        have hlonger := hr.join hgap hc (by simpa [or_assoc] using hjoins)
        have hnext := ih hlonger isGap_nil (absurd rfl)
        rw [openAfter_gap_concat r hgap] at hnext
        simpa using hnext
      · next hsplit =>
        obtain ⟨⟨hne, heq⟩, hlast⟩ := by simpa [not_or] using hsplit
        have hclosed := hopen hne
        have hnext := ih (isUnbroken_singleton (hc hclosed)) isGap_nil (absurd rfl)
        rw [hclosed, List.reverse_reverse]
        refine .cons hr hclosed hgap hne (fun next hmem => ⟨hclosed, hlast, ?_⟩)
          (by simpa [openAfter] using hnext)
        exact head?_of_mem_chunksAfter (List.cons_ne_nil c []) (by simpa using heq) hmem

theorem chunks_cons {c : Char} (h : isBlank c = false) (t : Text) :
    chunks (c :: t) = chunksAfter (openAfter [c]) [c] [] t := by
  rw [chunks, chunksAfter, if_neg (by simp [h]), if_pos (by simp)]
  rfl

/-- A text is blanks and what stands behind them. -/
theorem exists_gap_append (t : Text) :
    ∃ gap rest, t = gap ++ rest ∧ IsGap gap ∧ ∀ c ∈ rest.head?, isBlank c = false :=
  ⟨t.takeWhile isBlank, t.dropWhile isBlank, List.takeWhile_append_dropWhile.symm,
    fun c hc => List.all_eq_true.mp List.all_takeWhile c hc, head?_dropWhile_not⟩

/-- The inside of a tag is blanks and then its chunks, laid out. -/
theorem exists_laidOut_chunks (interior : Text) :
    ∃ gap rest, interior = gap ++ rest ∧ IsGap gap ∧ LaidOut (chunks interior) rest := by
  obtain ⟨gap, rest, rfl, hgap, hhead⟩ := exists_gap_append interior
  refine ⟨gap, rest, rfl, hgap, ?_⟩
  rw [chunks_gap_append hgap]
  cases rest with
  | nil => exact .nil
  | cons c cs =>
    have hc := hhead c rfl
    rw [chunks_cons hc]
    exact laidOut_chunksAfter (isUnbroken_singleton hc) isGap_nil (absurd rfl) cs

/-! ## Reading texts laid out -/

/-- A run of blanks outside of quotes does not split an unbroken text. -/
theorem IsUnbroken.joins_gap {u gap v : Text} {c : Char} (h : IsUnbroken (u ++ gap ++ c :: v))
    (hends : EndsInked u) (hgap : IsGap gap) (hopen : gap ≠ [] → openAfter u = none)
    (hc : isBlank c = false) : gap = [] ∨ c = '=' ∨ u.getLast? = some '=' := by
  rcases gap with _ | ⟨d, gap⟩
  · exact .inl rfl
  · right
    have hnone := hopen (List.cons_ne_nil d gap)
    obtain ⟨hd, hgap⟩ := List.forall_mem_cons.mp hgap
    have hbeside := h.joins u d (gap ++ c :: v) (by simp) hnone hd
    rcases hbeside with ⟨init, run, rfl, hrun⟩ | ⟨run, rest, heq, hrun⟩
    · right
      rcases List.eq_nil_or_concat run with rfl | ⟨run, e, rfl⟩
      · simp
      · rw [List.concat_eq_append] at hrun hnone hends
        have he : IsGap [e] := fun d hd => hrun d (List.mem_append_right run hd)
        have hopen' : openAfter (init ++ '=' :: run) = none := by
          rw [← openAfter_append_gap _ he, List.append_assoc]
          exact hnone
        have hblank := hends (init ++ '=' :: run) e (by simp) hopen'
        simp [he e (List.mem_singleton_self e)] at hblank
    · left
      have htrim := congrArg trimStart heq
      rw [trimStart_append_of_blank hgap, trimStart_append_of_blank hrun, trimStart_cons hc,
        trimStart_cons rfl] at htrim
      exact (List.cons.inj htrim).1

/-- The induction is along what is left of the unbroken text, of which `u` and the blanks after it
have been read. -/
theorem IsUnbroken.chunksAfter_append {r : Text} (h : IsUnbroken r) (rest : Text) {u gap v : Text}
    (hr : r = u ++ gap ++ v) (hne : u ≠ []) (hends : EndsInked u) (hgap : IsGap gap)
    (hopen : gap ≠ [] → openAfter u = none) :
    chunksAfter (openAfter u) u.reverse gap.reverse (v ++ rest) =
      chunksAfter (openAfter r) r.reverse [] rest := by
  induction v generalizing u gap with
  | nil =>
    rcases List.eq_nil_or_concat gap with rfl | ⟨gap, d, rfl⟩
    · rw [hr, List.append_nil, List.append_nil]
      rfl
    · rw [List.concat_eq_append] at hr hgap hopen
      have hnone := hopen (by simp)
      have hgap' : IsGap gap := fun e he => hgap e (List.mem_append_left [d] he)
      have hinside : openAfter (u ++ gap) = none := by rw [openAfter_append_gap u hgap', hnone]
      have hblank := h.ends (u ++ gap) d (by simp [hr]) hinside
      simp [hgap d (by simp)] at hblank
  | cons c v ih =>
    rw [List.cons_append, chunksAfter]
    split
    · next hblank =>
      obtain ⟨hnone, hc⟩ := by simpa using hblank
      have hwait := @ih u (gap ++ [c]) (by simp [hr]) hne hends
        (hgap.append (List.forall_mem_singleton.mpr hc)) fun _ => hnone
      simpa [hne] using hwait
    · next hink =>
      have hc : openAfter u = none → isBlank c = false := by simpa using hink
      have hjoins : gap = [] ∨ c = '=' ∨ u.getLast? = some '=' := by
        by_cases hnil : gap = []
        · exact .inl hnil
        · exact (hr ▸ h).joins_gap hends hgap hopen (hc (hopen hnil))
      rw [if_pos (by simpa [or_assoc] using hjoins)]
      have hlonger : EndsInked (u ++ gap ++ [c]) :=
        endsInked_concat ((openAfter_append_gap u hgap).symm ▸ hc)
      have hnext := @ih (u ++ gap ++ [c]) [] (by simp [hr]) (by simp) hlonger isGap_nil (absurd rfl)
      rw [openAfter_gap_concat u hgap] at hnext
      simpa using hnext

theorem IsUnbroken.isPiece {r : Text} (h : IsUnbroken r) : IsPiece r where
  starts := h.starts
  reads rest := by
    obtain ⟨c, cs, rfl, hc⟩ := h.starts
    have hfirst := chunks_cons hc (cs ++ rest)
    have hcell : c :: cs = [c] ++ [] ++ cs := rfl
    exact hfirst.trans (h.chunksAfter_append rest hcell (List.cons_ne_nil c [])
      (isUnbroken_singleton hc).ends isGap_nil (absurd rfl))

theorem LaidOut.starts {pieces : List Text} {t : Text} (h : LaidOut pieces t) :
    pieces = [] ∧ t = [] ∨
      ∃ c cs, t = c :: cs ∧ isBlank c = false ∧ ∃ next ∈ pieces, next.head? = some c := by
  cases h with
  | nil => exact .inl ⟨rfl, rfl⟩
  | last unbroken =>
    obtain ⟨c, cs, rfl, hc⟩ := unbroken.starts
    exact .inr ⟨c, cs, rfl, hc, _, List.mem_cons_self, rfl⟩
  | cons unbroken =>
    obtain ⟨c, cs, rfl, hc⟩ := unbroken.starts
    exact .inr ⟨c, _, rfl, hc, _, List.mem_cons_self, rfl⟩

theorem LaidOut.chunks_eq {pieces : List Text} {t : Text} (h : LaidOut pieces t) :
    chunks t = pieces := by
  induction h with
  | nil => rfl
  | @last piece unbroken =>
    have hread := unbroken.isPiece.reads []
    rw [List.append_nil] at hread
    rw [chunks, hread, chunksAfter, if_neg (by simpa using unbroken.ne_nil), List.reverse_reverse]
  | @cons piece gap rest pieces unbroken closed isGap ne_nil apart behind ih =>
    rw [chunks, List.append_assoc, unbroken.isPiece.reads, closed]
    rcases behind.starts with ⟨rfl, rfl⟩ | ⟨c, cs, rfl, hc, next, hnext, hhead⟩
    · rw [List.append_nil, chunksAfter_gap unbroken.ne_nil isGap (by simp), if_pos rfl]
    · have hne : c ≠ '=' := by
        rintro rfl
        exact (apart next hnext).head hhead
      have hsplit : ¬Joins none piece gap c := by
        have hlast := (apart next hnext).last
        simp [Joins, ne_nil, hne, hlast]
      rw [chunksAfter_split unbroken.ne_nil isGap hc hsplit, ← ih, chunks_cons hc]
      rfl

/-! ## Ranges -/

/-- The ranges cut the text `t` behind `before` into the pieces. Offsets count from the beginning of
`before`, in bytes. What is in no range is blank and outside of quotes. -/
structure Cuts (before t : Text) (ranges : List (Nat × Nat)) (pieces : List Text) : Prop where
  slices : ranges.map (fun r => slice? (before ++ t) r.1 r.2) = pieces.map some
  behind : ∀ r ∈ ranges, byteSize before ≤ r.1
  apart : ranges.Pairwise fun r s => r.2 < s.1
  covers : ∀ s c u, t = s ++ c :: u →
    (∃ r ∈ ranges, r.1 ≤ byteSize (before ++ s) ∧ byteSize (before ++ s) < r.2) ∨
      isBlank c = true ∧ openAfter (before ++ s) = none

theorem cuts_nil (before : Text) : Cuts before [] [] [] where
  slices := rfl
  behind := List.forall_mem_nil _
  apart := .nil
  covers s c u h := by simp at h

variable {before piece gap t : Text} {ranges : List (Nat × Nat)} {pieces : List Text}

theorem Cuts.gap_append (h : Cuts (before ++ gap) t ranges pieces) (hgap : IsGap gap)
    (hopen : openAfter before = none) : Cuts before (gap ++ t) ranges pieces where
  slices := by rw [← h.slices, List.append_assoc]
  behind r hr := by
    have hlo := h.behind r hr
    rw [byteSize_append] at hlo
    omega
  apart := h.apart
  covers s c u heq := by
    rcases append_eq_append_cons heq with ⟨a, rfl, rfl⟩ | ⟨b, rfl, rfl⟩
    · have hs : IsGap s := fun d hd => hgap d (List.mem_append_left _ hd)
      exact .inr ⟨hgap c (by simp), by rw [openAfter_append_gap before hs, hopen]⟩
    · rw [← List.append_assoc]
      exact h.covers b c u rfl

theorem Cuts.cons (h : Cuts (before ++ piece) t ranges pieces)
    (happart : ∀ r ∈ ranges, byteSize (before ++ piece) < r.1) :
    Cuts before (piece ++ t) ((byteSize before, byteSize (before ++ piece)) :: ranges)
      (piece :: pieces) where
  slices := by
    rw [List.map_cons, List.map_cons, ← h.slices, byteSize_append, ← List.append_assoc,
      slice?_append]
  behind r hr := by
    rcases List.mem_cons.mp hr with rfl | hr
    · exact Nat.le_refl _
    · have hlo := happart r hr
      rw [byteSize_append] at hlo
      omega
  apart := List.pairwise_cons.mpr ⟨happart, h.apart⟩
  covers s c u heq := by
    rcases append_eq_append_cons heq with ⟨a, rfl, rfl⟩ | ⟨b, rfl, rfl⟩
    · refine .inl ⟨_, List.mem_cons_self, ?_, ?_⟩
      · simp
      · have hpos := c.utf8Size_pos
        simp only [byteSize_append, byteSize_cons]
        omega
    · rw [← List.append_assoc]
      exact (h.covers b c u rfl).imp_left fun ⟨r, hr, hin⟩ => ⟨r, List.mem_cons_of_mem _ hr, hin⟩

theorem LaidOut.exists_cuts (h : LaidOut pieces t) (hopen : openAfter before = none) :
    ∃ ranges, Cuts before t ranges pieces := by
  induction h generalizing before with
  | nil => exact ⟨[], cuts_nil before⟩
  | @last piece unbroken =>
    have hcuts := (cuts_nil (before ++ piece)).cons (List.forall_mem_nil _)
    rw [List.append_nil] at hcuts
    exact ⟨_, hcuts⟩
  | @cons piece gap rest pieces unbroken closed isGap ne_nil apart behind ih =>
    have hpiece : openAfter (before ++ piece) = none := by
      rw [openAfter_append, hopen]
      exact closed
    have hgap : openAfter (before ++ piece ++ gap) = none := by
      rw [openAfter_append_gap _ isGap, hpiece]
    obtain ⟨ranges, hcuts⟩ := ih hgap
    have hpos := byteSize_pos ne_nil
    have happart : ∀ r ∈ ranges, byteSize (before ++ piece) < r.1 := by
      intro r hr
      have hlo := hcuts.behind r hr
      rw [byteSize_append] at hlo
      omega
    have hnext := (hcuts.gap_append isGap hpiece).cons happart
    rw [← List.append_assoc] at hnext
    exact ⟨_, hnext⟩

/-- The first piece stands behind blanks, and the other ranges cut what follows it. -/
theorem Cuts.exists_of_cons (h : Cuts before t ranges (piece :: pieces)) :
    ∃ gap rest others, t = gap ++ (piece ++ rest) ∧ IsGap gap ∧
      ranges = (byteSize (before ++ gap), byteSize (before ++ gap ++ piece)) :: others ∧
      (∀ r ∈ others, byteSize (before ++ gap ++ piece) < r.1) ∧
      Cuts (before ++ gap ++ piece) rest others pieces := by
  obtain ⟨hslices, hbehind, hranges, hcovers⟩ := h
  obtain ⟨⟨lo, hi⟩, others, rfl, hslice, hothers⟩ := List.map_eq_cons_iff.mp hslices
  obtain ⟨happart, hpairwise⟩ := List.pairwise_cons.mp hranges
  obtain ⟨front, rest, heq, hlo, hhi⟩ := slice?_eq_some_iff.mp hslice
  rw [← byteSize_append] at hhi
  subst hlo hhi
  rw [List.append_assoc] at heq
  obtain ⟨gap, rfl, rfl⟩ := exists_of_append_eq heq (hbehind _ List.mem_cons_self)
  have hgap : IsGap gap := by
    intro c hc
    obtain ⟨s, u, rfl⟩ := List.append_of_mem hc
    rcases hcovers s c (u ++ (piece ++ rest)) (by simp) with ⟨r, hr, hin⟩ | hblank
    · have hpos := c.utf8Size_pos
      have hlater : byteSize (before ++ (s ++ c :: u)) ≤ r.1 := by
        rcases List.mem_cons.mp hr with rfl | hr
        · exact Nat.le_refl _
        · have hlt := happart r hr
          rw [byteSize_append _ piece] at hlt
          omega
      simp only [byteSize_append, byteSize_cons] at hin hlater
      omega
    · exact hblank.1
  refine ⟨gap, rest, others, rfl, hgap, rfl, happart, ?_⟩
  refine ⟨?_, fun r hr => Nat.le_of_lt (happart r hr), hpairwise, fun s c u hsplit => ?_⟩
  · rw [← hothers, List.append_assoc, List.append_assoc]
  · have hcover := hcovers (gap ++ (piece ++ s)) c u (by rw [hsplit]; simp)
    simp only [← List.append_assoc] at hcover
    refine hcover.imp_left fun ⟨r, hr, hin⟩ => ⟨r, ?_, hin⟩
    refine (List.mem_cons.mp hr).resolve_left ?_
    rintro rfl
    rw [byteSize_append _ s] at hin
    omega

/-- What follows the last piece is blank. -/
theorem Cuts.isGap (h : Cuts before t ranges []) :
    IsGap t ∧ (t ≠ [] → openAfter before = none) := by
  obtain rfl := List.map_eq_nil_iff.mp h.slices
  have hblank (s : Text) (c : Char) (u : Text) (heq : t = s ++ c :: u) :=
    (h.covers s c u heq).resolve_left (by simp)
  constructor
  · intro c hc
    obtain ⟨s, u, heq⟩ := List.append_of_mem hc
    exact (hblank s c u heq).1
  · intro hne
    obtain ⟨c, cs, heq⟩ := List.exists_cons_of_ne_nil hne
    have hfirst := (hblank [] c cs heq).2
    rwa [List.append_nil] at hfirst

/-- Ranges that cut a text into unbroken pieces cut it as it is laid out, and the first one begins
where the first piece does. -/
theorem Cuts.exists_laidOut (h : Cuts before t ranges pieces) (hopen : openAfter before = none)
    (hunbroken : ∀ piece ∈ pieces, IsUnbroken piece) (hapart : pieces.Pairwise Apart) :
    ∃ gap rest, t = gap ++ rest ∧ IsGap gap ∧ LaidOut pieces rest ∧
      ∀ r ∈ ranges.head?, r.1 = byteSize (before ++ gap) := by
  induction pieces generalizing before t ranges with
  | nil =>
    obtain rfl := List.map_eq_nil_iff.mp h.slices
    exact ⟨t, [], (List.append_nil t).symm, h.isGap.1, .nil, nofun⟩
  | cons piece pieces ih =>
    obtain ⟨gap, rest, others, rfl, hgap, rfl, hothers, hcuts⟩ := h.exists_of_cons
    obtain ⟨hpiece, hunbroken⟩ := List.forall_mem_cons.mp hunbroken
    obtain ⟨hnext, hapart⟩ := List.pairwise_cons.mp hapart
    have hpieceOpen : openAfter (before ++ gap ++ piece) = openAfter piece := by
      rw [openAfter_append, openAfter_append_gap before hgap, hopen]
      rfl
    refine ⟨gap, piece ++ rest, rfl, hgap, ?_, by simp⟩
    cases pieces with
    | nil =>
      obtain ⟨hrest, hnone⟩ := hcuts.isGap
      by_cases hnil : rest = []
      · rw [hnil, List.append_nil]
        exact .last hpiece
      · have hclosed := hpieceOpen ▸ hnone hnil
        have hlaid : LaidOut [piece] (piece ++ rest ++ []) :=
          .cons hpiece hclosed hrest hnil (List.forall_mem_nil _) .nil
        rwa [List.append_nil] at hlaid
    | cons next pieces =>
      have hclosed := (hnext next List.mem_cons_self).closed
      obtain ⟨gap', rest', rfl, hgap', hrest', hfirst⟩ :=
        ih hcuts (hpieceOpen.trans hclosed) hunbroken hapart
      rw [← List.append_assoc]
      refine .cons hpiece hclosed hgap' ?_ hnext hrest'
      -- two ranges in a row do not touch
      rintro rfl
      obtain ⟨r, others, rfl, -, -⟩ := List.map_eq_cons_iff.mp hcuts.slices
      have hlo := hothers r List.mem_cons_self
      rw [hfirst r rfl, List.append_nil] at hlo
      exact Nat.lt_irrefl _ hlo

/-- The chunks are the one way to cut the inside of a tag into texts that no blank splits. All
between them is blank and outside of quotes, and it splits them: no equals sign is beside it. The
raw texts of the attributes are the chunks other than lone slashes, and no slice ends in a
character. -/
theorem cuts_iff_eq_chunks (interior : Text) :
    split? interior = some (split interior) ∧
      (split interior).map raw = (chunks interior).filter (· != ['/']) ∧
      ∀ pieces, (∃ ranges, Cuts [] interior ranges pieces) ∧ pieces.Pairwise Apart ∧
        (∀ piece ∈ pieces, IsUnbroken piece) ↔ pieces = chunks interior := by
  refine ⟨split?_eq interior, map_raw_split interior, fun pieces => ⟨?_, ?_⟩⟩
  · rintro ⟨⟨ranges, hcuts⟩, hapart, hunbroken⟩
    obtain ⟨gap, rest, rfl, hgap, hrest, -⟩ := hcuts.exists_laidOut rfl hunbroken hapart
    rw [chunks_gap_append hgap, hrest.chunks_eq]
  · rintro rfl
    obtain ⟨gap, rest, heq, hgap, hrest⟩ := exists_laidOut_chunks interior
    have hopen : openAfter gap = none := openAfter_append_gap [] hgap
    obtain ⟨ranges, hcuts⟩ := hrest.exists_cuts hopen
    have hbehind : Cuts ([] ++ gap) rest ranges (chunks interior) := hcuts
    have hinterior := hbehind.gap_append hgap rfl
    rw [← heq] at hinterior
    exact ⟨⟨ranges, hinterior⟩, hrest.apart, hrest.unbroken⟩

end Attribute

end HtmlTemplate
