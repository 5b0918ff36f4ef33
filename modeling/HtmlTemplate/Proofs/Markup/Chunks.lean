import HtmlTemplate.Proofs.Markup.Classes
import Mathlib.Data.List.Flatten

/-!
Chunks that are put together again. Every chunk of the inside of a tag is read as a chunk in front
of any text (`IsPiece`), and two chunks of one inside are kept apart by a blank between them
(`Apart`), so chunks taken out of a tag and joined by blanks are read as the same chunks
(`chunks_joined_append`).
-/

namespace HtmlTemplate.Attribute
open Text Token

/-! ## Quotes -/

/-- Every `>` of the text is inside quotes if this quote is open before it. -/
def HidesClose (open? : Option Char) : Text → Prop
  | [] => True
  | c :: cs => (c = '>' → open?.isSome) ∧ HidesClose (nextQuote open? c) cs

theorem hidesClose_append {open? : Option Char} {s t : Text} :
    HidesClose open? (s ++ t) ↔ HidesClose open? s ∧ HidesClose (s.foldl nextQuote open?) t := by
  induction s generalizing open? with
  | nil => simp [HidesClose]
  | cons c s ih => simp [HidesClose, ih, and_assoc]

theorem hidesClose_of_forall {open? : Option Char} {t : Text}
    (h : ∀ before after, t = before ++ '>' :: after → (before.foldl nextQuote open?).isSome) :
    HidesClose open? t := by
  induction t generalizing open? with
  | nil => trivial
  | cons c t ih =>
    refine ⟨fun hc => h [] t (by rw [hc]; rfl), ih fun before after ht => ?_⟩
    exact h (c :: before) after (congrArg (c :: ·) ht)

/-- A text that has every `>` inside quotes is passed on the way to the end of the tag. -/
theorem cutAfterTag_append {open? : Option Char} {t : Text} (h : HidesClose open? t) (rest : Text) :
    cutAfterTag open? (t ++ rest) =
      (t ++ (cutAfterTag (t.foldl nextQuote open?) rest).1,
        (cutAfterTag (t.foldl nextQuote open?) rest).2) := by
  induction t generalizing open? with
  | nil => rfl
  | cons c t ih =>
    have hpass : ¬(open?.isNone && c = '>') = true := by
      intro hclose
      obtain ⟨hnone, rfl⟩ := by simpa using hclose
      simpa [hnone] using h.1 rfl
    rw [List.cons_append, cutAfterTag, if_neg hpass, ih h.2]
    rfl

theorem openAfter_append (s t : Text) : openAfter (s ++ t) = t.foldl nextQuote (openAfter s) :=
  List.foldl_append

theorem not_isBlank_of_isQuote {c : Char} (h : isQuote c = true) : isBlank c = false := by
  rcases by simpa [isQuote] using h with rfl | rfl <;> rfl

theorem nextQuote_of_isBlank {c : Char} (h : isBlank c = true) : nextQuote none c = none := by
  have hquote : isQuote c = false := by
    by_contra hquote
    simp [not_isBlank_of_isQuote (Bool.not_eq_false _ ▸ hquote)] at h
  simp [nextQuote, hquote]

theorem foldl_nextQuote_of_blank {gap : Text} (h : ∀ c ∈ gap, isBlank c = true) :
    gap.foldl nextQuote none = none := by
  induction gap with
  | nil => rfl
  | cons c gap ih =>
    obtain ⟨hc, hgap⟩ := List.forall_mem_cons.mp h
    rw [List.foldl_cons, nextQuote_of_isBlank hc, ih hgap]

theorem hidesClose_of_blank {gap : Text} (h : ∀ c ∈ gap, isBlank c = true) :
    HidesClose none gap := by
  induction gap with
  | nil => trivial
  | cons c gap ih =>
    obtain ⟨hc, hgap⟩ := List.forall_mem_cons.mp h
    refine ⟨fun hclose => ?_, ?_⟩
    · rw [hclose] at hc
      cases hc
    · rw [nextQuote_of_isBlank hc]
      exact ih hgap

/-! ## One chunk -/

/-- A text that becomes the unfinished chunk when it is read, whatever follows it. -/
structure IsPiece (r : Text) : Prop where
  starts : ∃ c cs, r = c :: cs ∧ isBlank c = false
  reads : ∀ rest, chunksAfter none [] [] (r ++ rest) = chunksAfter (openAfter r) r.reverse [] rest

/-- Such a text in which the tag does not end. -/
structure IsChunk (r : Text) : Prop extends IsPiece r where
  hides : HidesClose none r

theorem IsPiece.ne_nil {r : Text} (h : IsPiece r) : r ≠ [] := by
  obtain ⟨c, cs, rfl, -⟩ := h.starts
  exact List.cons_ne_nil c cs

theorem isChunk_singleton {c : Char} (hblank : isBlank c = false) (hclose : c ≠ '>') :
    IsChunk [c] where
  starts := ⟨c, [], rfl, hblank⟩
  reads rest := by simp [chunksAfter, hblank, openAfter]
  hides := ⟨fun heq => absurd heq hclose, trivial⟩

/-- Blanks after a chunk without an open quote wait for what comes next. -/
theorem chunksAfter_blanks {chunk blanks : Text} (hchunk : chunk ≠ [])
    (h : ∀ c ∈ blanks, isBlank c = true) (gap rest : Text) :
    chunksAfter none chunk gap (blanks ++ rest) =
      chunksAfter none chunk (blanks.reverse ++ gap) rest := by
  induction blanks generalizing gap with
  | nil => rfl
  | cons c blanks ih =>
    obtain ⟨hc, hblanks⟩ := List.forall_mem_cons.mp h
    simp [chunksAfter, hc, hchunk, ih hblanks]

/-- The character that makes the unfinished chunk longer, with the blanks before it. -/
theorem IsChunk.join {r gap : Text} {c : Char} (h : IsChunk r) (hgap : ∀ d ∈ gap, isBlank d = true)
    (hopen : gap ≠ [] → openAfter r = none) (hink : ¬((openAfter r).isNone && isBlank c) = true)
    (hjoin : gap = [] ∨ c = '=' ∨ r.getLast? = some '=') (hclose : c = '>' → (openAfter r).isSome) :
    IsChunk (r ++ gap ++ [c]) ∧ openAfter (r ++ gap ++ [c]) = nextQuote (openAfter r) c := by
  have hafter : openAfter (r ++ gap) = openAfter r := by
    by_cases hnil : gap = []
    · rw [hnil, List.append_nil]
    · rw [openAfter_append, hopen hnil, foldl_nextQuote_of_blank hgap]
  have hopens : openAfter (r ++ gap ++ [c]) = nextQuote (openAfter r) c := by
    rw [openAfter_append, hafter]
    rfl
  have hwait (rest : Text) : chunksAfter (openAfter r) r.reverse [] (gap ++ rest) =
      chunksAfter (openAfter r) r.reverse gap.reverse rest := by
    by_cases hnil : gap = []
    · rw [hnil]
      rfl
    · rw [hopen hnil, chunksAfter_blanks (by simpa using h.ne_nil) hgap, List.append_nil]
  refine ⟨⟨⟨?_, fun rest => ?_⟩, ?_⟩, hopens⟩
  · obtain ⟨d, ds, rfl, hd⟩ := h.starts
    exact ⟨d, ds ++ gap ++ [c], rfl, hd⟩
  · have hcontinues : (gap.reverse.isEmpty || decide (c = '=') ||
        decide (r.reverse.head? = some '=')) = true := by
      rcases hjoin with rfl | rfl | hlast
      · rfl
      · simp
      · simp [hlast]
    rw [hopens, List.append_assoc, List.append_assoc, h.reads, hwait, List.cons_append,
      chunksAfter, if_neg hink, if_pos hcontinues]
    simp
  · refine hidesClose_append.mpr ⟨hidesClose_append.mpr ⟨h.hides, ?_⟩, ?_⟩
    · by_cases hnil : gap = []
      · rw [hnil]
        trivial
      · change HidesClose (openAfter r) gap
        rw [hopen hnil]
        exact hidesClose_of_blank hgap
    · change HidesClose (openAfter (r ++ gap)) [c]
      rw [hafter]
      exact ⟨hclose, trivial⟩

/-! ## The chunks of a text -/

/-- A blank between the two chunks keeps them apart. -/
structure Apart (r s : Text) : Prop where
  closed : openAfter r = none
  last : r.getLast? ≠ some '='
  head : s.head? ≠ some '='

/-- Only the first chunk begins with an equals sign. -/
theorem head?_of_mem_chunksAfter {open? : Option Char} {chunk gap cs piece : Text}
    (hchunk : chunk ≠ []) (hfirst : chunk.getLast? ≠ some '=')
    (h : piece ∈ chunksAfter open? chunk gap cs) : piece.head? ≠ some '=' := by
  induction cs generalizing open? chunk gap with
  | nil =>
    rw [chunksAfter, if_neg (by simpa using hchunk)] at h
    rwa [List.mem_singleton.mp h, List.head?_reverse]
  | cons c cs ih =>
    rw [chunksAfter] at h
    split at h
    · exact ih hchunk hfirst h
    · split at h
      · refine ih (List.cons_ne_nil _ _) ?_ h
        rwa [List.getLast?_cons, List.getLast?_append, List.getLast?_eq_some_getLast hchunk,
          Option.some_or, Option.getD_some, ← List.getLast?_eq_some_getLast hchunk]
      · next hsplit =>
        rcases List.mem_cons.mp h with rfl | hmem
        · rwa [List.head?_reverse]
        · exact ih (List.cons_ne_nil _ _) (by simp at hsplit ⊢; exact hsplit.1.2) hmem

/-- Texts that are chunks, kept apart by blanks. -/
structure Chunked (rs : List Text) : Prop where
  pieces : ∀ r ∈ rs, IsChunk r
  apart : rs.Pairwise Apart

/-- The induction is along the text that is left; `r` is the unfinished chunk, `gap` the blanks
after it. -/
theorem chunked_chunksAfter (r gap : Text) {cs : Text} (hr : r = [] ∧ gap = [] ∨ IsChunk r)
    (hgap : ∀ c ∈ gap, isBlank c = true) (hopen : gap ≠ [] → openAfter r = none)
    (hides : HidesClose (openAfter r) cs) :
    Chunked (chunksAfter (openAfter r) r.reverse gap.reverse cs) := by
  induction cs generalizing r gap with
  | nil =>
    rcases hr with ⟨rfl, rfl⟩ | hr
    · exact ⟨nofun, .nil⟩
    · rw [chunksAfter, if_neg (by simpa using hr.ne_nil), List.reverse_reverse]
      exact ⟨by simpa using hr, List.pairwise_singleton _ _⟩
  | cons c cs ih =>
    obtain ⟨hclose, hrest⟩ := hides
    rw [chunksAfter]
    split
    · next hblank =>
      obtain ⟨hnone, hc⟩ := by simpa using hblank
      rcases hr with ⟨rfl, rfl⟩ | hr
      · refine ih [] [] (.inl ⟨rfl, rfl⟩) nofun nofun ?_
        rwa [hnone, nextQuote_of_isBlank hc, ← hnone] at hrest
      · have hwait := ih r (gap ++ [c]) (.inr hr)
          (List.forall_mem_append.mpr ⟨hgap, by simpa using hc⟩) (fun _ => hnone)
          (by rwa [hnone, nextQuote_of_isBlank hc, ← hnone] at hrest)
        simpa [hr.ne_nil] using hwait
    · next hink =>
      have hstart (hnone : openAfter r = none) :
          IsChunk [c] ∧ openAfter [c] = nextQuote (openAfter r) c := by
        have hblank : isBlank c = false := by simpa [hnone] using hink
        refine ⟨isChunk_singleton hblank fun heq => ?_, by rw [hnone]; rfl⟩
        simpa [hnone] using hclose heq
      split
      · next hjoin =>
        rcases hr with ⟨rfl, rfl⟩ | hr
        · obtain ⟨hchunk, hopens⟩ := hstart rfl
          rw [← hopens] at hrest ⊢
          exact ih [c] [] (.inr hchunk) nofun nofun hrest
        · obtain ⟨hchunk, hopens⟩ := hr.join hgap hopen hink
            (by simpa [or_assoc] using hjoin) hclose
          rw [← hopens] at hrest ⊢
          simpa using ih _ [] (.inr hchunk) nofun nofun hrest
      · next hsplit =>
        obtain ⟨⟨hne, heq⟩, hlast⟩ := by simpa [not_or] using hsplit
        have hr : IsChunk r := hr.resolve_left fun hnil => hne hnil.2
        obtain ⟨hchunk, hopens⟩ := hstart (hopen hne)
        rw [← hopens] at hrest ⊢
        obtain ⟨hpieces, hpairwise⟩ := ih _ [] (.inr hchunk) nofun nofun hrest
        rw [List.reverse_reverse]
        refine ⟨List.forall_mem_cons.mpr ⟨hr, hpieces⟩,
          List.pairwise_cons.mpr ⟨fun s hs => ?_, hpairwise⟩⟩
        refine ⟨hopen hne, hlast, head?_of_mem_chunksAfter (List.cons_ne_nil c []) ?_ hs⟩
        simpa using heq

theorem chunked_chunks {interior : Text} (h : HidesClose none interior) :
    Chunked (chunks interior) :=
  chunked_chunksAfter [] [] (.inl ⟨rfl, rfl⟩) nofun nofun h

theorem Chunked.sublist {rs ss : List Text} (h : Chunked ss) (hsub : rs.Sublist ss) : Chunked rs :=
  ⟨fun r hr => h.pieces r (hsub.subset hr), h.apart.sublist hsub⟩

/-- The chunks are parts of the text, in order. -/
theorem flatten_chunksAfter_sublist (open? : Option Char) (chunk gap cs : Text) :
    (chunksAfter open? chunk gap cs).flatten.Sublist (chunk.reverse ++ gap.reverse ++ cs) := by
  induction cs generalizing open? chunk gap with
  | nil =>
    rw [chunksAfter]
    split
    · exact List.nil_sublist _
    · simp
  | cons c cs ih =>
    rw [chunksAfter]
    split
    · refine (ih open? chunk _).trans ?_
      rw [List.append_assoc, List.append_assoc]
      refine List.Sublist.append_left ?_ _
      split
      · exact (List.sublist_cons_self c cs).trans (List.sublist_append_right _ _)
      · simp
    · split
      · simpa using ih (nextQuote open? c) (c :: (gap ++ chunk)) []
      · rw [List.flatten_cons, List.append_assoc]
        refine List.Sublist.append_left ?_ _
        exact (ih (nextQuote open? c) [c] []).trans (List.sublist_append_right _ _)

theorem flatten_chunks_sublist (interior : Text) : (chunks interior).flatten.Sublist interior :=
  flatten_chunksAfter_sublist none [] [] interior

/-! ## Chunks joined by blanks -/

/-- The texts, each with a blank before it. -/
def joined (rs : List Text) : Text := rs.flatMap (' ' :: ·)

@[simp] theorem joined_nil : joined [] = [] := rfl

@[simp] theorem joined_cons (r : Text) (rs : List Text) :
    joined (r :: rs) = ' ' :: r ++ joined rs :=
  rfl

theorem head?_joined (rs : List Text) : ∀ c ∈ (joined rs).head?, c = ' ' := by
  cases rs <;> simp

theorem getLast?_joined {rs : List Text} {r : Text} (h : r ≠ []) :
    (joined (rs ++ [r])).getLast? = r.getLast? := by
  simp [joined, List.getLast?_append, List.getLast?_cons, List.getLast?_eq_some_getLast h]

theorem count_joined {c : Char} (h : c ≠ ' ') (rs : List Text) :
    (joined rs).count c = rs.flatten.count c := by
  induction rs with
  | nil => rfl
  | cons r rs ih => simp [ih, h.symm]

theorem chunksAfter_of_apart {r s : Text} (h : Apart r s) (hr : IsPiece r) (hs : IsPiece s)
    (rest : Text) :
    chunksAfter (openAfter r) r.reverse [] (' ' :: s ++ rest) = r :: chunks (' ' :: s ++ rest) := by
  obtain ⟨c, cs, rfl, hc⟩ := hs.starts
  have hne : c ≠ '=' := by simpa using h.head
  have hblank : isBlank ' ' = true := rfl
  rw [h.closed]
  simp [chunks, chunksAfter, hblank, hc, hne, h.last, hr.ne_nil]

/-- Joined chunks are read as they were, up to the last one, which what follows may make longer. -/
theorem chunks_joined_append {rs : List Text} {r : Text} (hpieces : ∀ s ∈ rs ++ [r], IsPiece s)
    (hapart : (rs ++ [r]).Pairwise Apart) (tail : Text) :
    chunks (joined (rs ++ [r]) ++ tail) = rs ++ chunksAfter (openAfter r) r.reverse [] tail := by
  have hblank (cs : Text) : chunks (' ' :: cs) = chunksAfter none [] [] cs := rfl
  induction rs with
  | nil =>
    rw [List.nil_append, joined_cons, joined_nil, List.append_nil, List.cons_append, hblank,
      (hpieces r List.mem_cons_self).reads]
    rfl
  | cons s rs ih =>
    obtain ⟨hs, hpieces⟩ := List.forall_mem_cons.mp hpieces
    obtain ⟨hapart, hpairwise⟩ := List.pairwise_cons.mp hapart
    have hrest := ih hpieces hpairwise
    obtain ⟨u, us, hus⟩ := List.exists_cons_of_ne_nil (l := rs ++ [r]) (by simp)
    have hu : u ∈ rs ++ [r] := hus ▸ List.mem_cons_self
    have hread := chunksAfter_of_apart (hapart u hu) hs (hpieces u hu) (joined us ++ tail)
    rw [← List.append_assoc, ← joined_cons, ← hus, hrest] at hread
    rw [List.cons_append, joined_cons, List.append_assoc, List.cons_append, hblank, hs.reads, hread]
    rfl

theorem chunks_joined {rs : List Text} (hpieces : ∀ r ∈ rs, IsPiece r)
    (hapart : rs.Pairwise Apart) : chunks (joined rs) = rs := by
  rcases List.eq_nil_or_concat rs with rfl | ⟨init, r, rfl⟩
  · rfl
  · rw [List.concat_eq_append] at hpieces hapart ⊢
    have hr : r ≠ [] := (hpieces r (by simp)).ne_nil
    have hread := chunks_joined_append hpieces hapart []
    rw [List.append_nil] at hread
    rw [hread, chunksAfter, if_neg (by simpa using hr), List.reverse_reverse]

theorem hidesClose_joined {rs : List Text} (h : Chunked rs) : HidesClose none (joined rs) := by
  induction rs with
  | nil => trivial
  | cons r rs ih =>
    obtain ⟨hr, hpieces⟩ := List.forall_mem_cons.mp h.pieces
    obtain ⟨hapart, hpairwise⟩ := List.pairwise_cons.mp h.apart
    refine ⟨nofun, hidesClose_append.mpr ⟨hr.hides, ?_⟩⟩
    cases rs with
    | nil => trivial
    | cons s rs =>
      have hclosed : openAfter r = none := (hapart s List.mem_cons_self).closed
      have hrest := ih ⟨hpieces, hpairwise⟩
      rwa [← hclosed] at hrest

/-! ## Attributes -/

@[simp] theorem raw_ofChunk (chunk : Text) : (ofChunk chunk).raw = chunk := by
  unfold ofChunk
  split
  · rfl
  · simp only
    split
    · rfl
    · split
      · rfl
      · split <;> rfl

theorem map_raw_split (interior : Text) :
    (split interior).map raw = (chunks interior).filter (· != ['/']) := by
  simp [split, Function.comp_def]

/-- An attribute is told by its text, which is no lone slash. -/
theorem ofChunk_raw_of_mem_split {interior : Text} {a : Attribute} (h : a ∈ split interior) :
    ofChunk a.raw = a ∧ a.raw ≠ ['/'] := by
  obtain ⟨chunk, hchunk, rfl⟩ := List.mem_map.mp h
  rw [raw_ofChunk]
  exact ⟨rfl, by simpa using (List.mem_filter.mp hchunk).2⟩

theorem split_eq_of_chunks_eq {interior : Text} {as : List Attribute}
    (h : ∀ a ∈ as, ofChunk a.raw = a ∧ a.raw ≠ ['/']) (hchunks : chunks interior = as.map raw) :
    split interior = as := by
  rw [split, hchunks, List.filter_eq_self.mpr (by simpa using fun a ha => (h a ha).2), List.map_map]
  exact (List.map_congr_left fun a ha => (h a ha).1).trans (List.map_id as)

/-! ## Attributes that are put together again -/

variable {kept : List Attribute}

/-- Attributes that can be put together again: each is told by its text, and the texts are chunks of
one tag. -/
structure Joinable (kept : List Attribute) : Prop where
  chunked : Chunked (kept.map raw)
  raws : ∀ a ∈ kept, ofChunk a.raw = a ∧ a.raw ≠ ['/']

theorem joinable_of_sublist {interior : Text} (hides : HidesClose none interior)
    (h : kept.Sublist (split interior)) : Joinable kept where
  chunked := by
    refine (chunked_chunks hides).sublist ((h.map raw).trans ?_)
    rw [map_raw_split]
    exact List.filter_sublist
  raws a ha := ofChunk_raw_of_mem_split (h.subset ha)

section LastAttribute

variable {init : List Attribute} {a : Attribute}

theorem Joinable.ne_nil (h : Joinable (init ++ [a])) : a.raw ≠ [] :=
  (h.chunked.pieces a.raw (by simp)).ne_nil

theorem Joinable.chunks_append (h : Joinable (init ++ [a])) (tail : Text) :
    chunks (joined ((init ++ [a]).map raw) ++ tail) =
      init.map raw ++ chunksAfter (openAfter a.raw) a.raw.reverse [] tail := by
  have hchunked := h.chunked
  rw [List.map_append] at hchunked ⊢
  exact chunks_joined_append (fun r hr => (hchunked.pieces r hr).toIsPiece) hchunked.apart tail

end LastAttribute

theorem split_joined (h : Joinable kept) : split (joined (kept.map raw)) = kept :=
  split_eq_of_chunks_eq h.raws
    (chunks_joined (fun r hr => (h.chunked.pieces r hr).toIsPiece) h.chunked.apart)

theorem getLast?_joined_map_raw (h : Joinable kept) :
    (joined (kept.map raw)).getLast? = some '/' ↔
      ∃ a ∈ kept.getLast?, a.raw.getLast? = some '/' := by
  rcases List.eq_nil_or_concat kept with rfl | ⟨init, a, rfl⟩
  · simp
  · rw [List.concat_eq_append] at h ⊢
    rw [List.map_append, List.map_singleton, getLast?_joined h.ne_nil]
    simp

/-- A blank at the end is part of the last attribute if its quote is open. -/
theorem split_joined_blank_iff (h : Joinable kept) :
    split (joined (kept.map raw) ++ [' ']) = kept ↔
      ∀ a ∈ kept.getLast?, openAfter a.raw = none := by
  rcases List.eq_nil_or_concat kept with rfl | ⟨init, a, rfl⟩
  · exact ⟨fun _ => nofun, fun _ => rfl⟩
  rw [List.concat_eq_append] at h ⊢
  have hblank : Text.isBlank ' ' = true := rfl
  have hread := h.chunks_append [' ']
  have hlast : (∀ b ∈ (init ++ [a]).getLast?, openAfter b.raw = none) ↔ openAfter a.raw = none := by
    simp
  rw [hlast]
  constructor
  · intro hsplit
    by_contra hopen
    have hchunks : chunks (joined ((init ++ [a]).map raw) ++ [' ']) =
        init.map raw ++ [a.raw ++ [' ']] := by
      rw [hread]
      simp [chunksAfter, hopen]
    have hslash : a.raw ++ [' '] ≠ ['/'] := fun heq => by
      simpa using congrArg List.getLast? heq
    have hraw := congrArg (List.map raw) hsplit
    rw [map_raw_split, hchunks, List.filter_append, List.map_append] at hraw
    have hsame := congrArg List.getLast? hraw
    simp [hslash] at hsame
  · intro hclosed
    refine split_eq_of_chunks_eq h.raws ?_
    rw [hread, hclosed]
    simp [chunksAfter, hblank, h.ne_nil]

/-- The inside without a slash at its end lacks that slash. -/
theorem split_ne_of_joined_eq {body : Text} (h : joined (kept.map raw) = body ++ ['/']) :
    split body ≠ kept := by
  intro hsplit
  have hraws := map_raw_split body
  rw [hsplit] at hraws
  have hsub : (kept.map raw).flatten.Sublist body := by
    rw [hraws]
    exact List.filter_sublist.flatten.trans (flatten_chunks_sublist body)
  have hcount := hsub.count_le '/'
  rw [← count_joined (by decide), h, List.count_append, List.count_singleton_self] at hcount
  omega

end HtmlTemplate.Attribute
