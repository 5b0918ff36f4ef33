import HtmlTemplate.Proofs.Instr.Content
import Mathlib.Data.List.Chain

/-!
The normal form said without the function that gives it (`IsNormal`). A list in normal form is its
own normal form (`IsNormal.optimize_eq`), so there is one for each content. Two passes from the
left, one that joins appends of texts and one that joins all, keep the content too and end in normal
form (`mergeAppends_mergeTexts`). The content is the instructions other than appends together with
what is written between them (`weave_gaps`), so lists that agree in these have one normal form
(`optimize_normal`).
-/

namespace HtmlTemplate

/-! ## Neighbours -/

/-- No two neighbours satisfy `p`. -/
def Apart {α : Type} (p : α → Bool) (xs : List α) : Prop := xs.IsChain fun a b => ¬(p a ∧ p b)

namespace Apart

variable {α : Type} {p : α → Bool} {xs : List α} {a b : α}

theorem cons_iff : Apart p (a :: xs) ↔ (p a → ∀ y ∈ xs.head?, ¬p y) ∧ Apart p xs := by
  simp only [Apart, List.isChain_cons, not_and]
  exact and_congr_left fun _ => ⟨fun h ha y hy => h y hy ha, fun h y hy ha => h ha y hy⟩

theorem concat_iff : Apart p (xs ++ [a]) ↔ Apart p xs ∧ (p a → ∀ y ∈ xs.getLast?, ¬p y) := by
  simp only [Apart, List.isChain_append, List.isChain_singleton, true_and, List.head?_cons,
    Option.mem_some_iff, forall_eq', not_and]
  exact and_congr_right fun _ =>
    ⟨fun h ha y hy hp => h y hy hp ha, fun h y hy hp ha => h ha y hy hp⟩

/-- Another end that satisfies `p` no sooner is as far apart. -/
theorem concat_of_imp (h : Apart p (xs ++ [a])) (hab : p b → p a) : Apart p (xs ++ [b]) := by
  obtain ⟨hxs, ha⟩ := concat_iff.mp h
  exact concat_iff.mpr ⟨hxs, fun hb => ha (hab hb)⟩

/-- What satisfies `p` can be taken out, as what stands around it does not. -/
theorem filter {q : α → Bool} (h : Apart p xs) (hq : ∀ a, ¬q a → p a) : Apart p (xs.filter q) := by
  induction xs with
  | nil => exact h
  | cons a xs ih =>
    obtain ⟨hhead, hxs⟩ := cons_iff.mp h
    by_cases ha : q a
    · rw [List.filter_cons_of_pos ha]
      refine cons_iff.mpr ⟨fun hp y hy => ?_, ih hxs⟩
      cases xs with
      | nil => cases hy
      | cons b xs =>
        have hb := hhead hp b rfl
        rw [List.filter_cons_of_pos (not_not.mp fun hqb => hb (hq b hqb))] at hy
        exact Option.some.inj hy ▸ hb
    · rw [List.filter_cons_of_neg ha]
      exact ih hxs

end Apart

/-! ## Pieces -/

namespace Piece

def isText : Piece → Bool
  | text _ => true
  | value _ => false

/-- No text is empty, and no two texts are neighbours. -/
structure IsJoined (pieces : List Piece) : Prop where
  filled : text [] ∉ pieces
  apart : Apart isText pieces

theorem isJoined_nil : IsJoined [] := ⟨List.not_mem_nil, .nil⟩

/-- Joined pieces stay as they are when they are put in front one by one. -/
theorem IsJoined.joinAll_eq {pieces : List Piece} (h : IsJoined pieces) :
    joinAll pieces = pieces := by
  induction pieces with
  | nil => rfl
  | cons p pieces ih =>
    obtain ⟨hhead, hrest⟩ := Apart.cons_iff.mp h.apart
    have hpieces := ih ⟨fun hmem => h.filled (List.mem_cons_of_mem p hmem), hrest⟩
    have hcons : joinAll (p :: pieces) = joinFront p (joinAll pieces) := rfl
    rw [hcons, hpieces]
    cases p with
    | value v => rfl
    | text t =>
      cases t with
      | nil => exact absurd List.mem_cons_self h.filled
      | cons c t =>
        cases pieces with
        | nil => rfl
        | cons q pieces =>
          cases q with
          | value v => rfl
          | text u => exact absurd rfl (hhead rfl (text u) rfl)

/-- Puts a piece behind pieces, joining texts and dropping an empty one. -/
def joinBack (pieces : List Piece) : Piece → List Piece
  | text t =>
    if t.isEmpty then pieces
    else match pieces.getLast? with
      | some (text u) => pieces.dropLast ++ [text (u ++ t)]
      | _ => pieces ++ [text t]
  | piece => pieces ++ [piece]

/-- A piece is dropped, joined to a text at the end, or put behind what ends in no such text. -/
theorem joinBack_cases (pieces : List Piece) (p : Piece) :
    (p = text [] ∧ joinBack pieces p = pieces) ∨
      (∃ before u t, pieces = before ++ [text u] ∧ p = text t ∧ t ≠ [] ∧
        joinBack pieces p = before ++ [text (u ++ t)]) ∨
      p ≠ text [] ∧ (p.isText → ∀ q ∈ pieces.getLast?, ¬q.isText) ∧
        joinBack pieces p = pieces ++ [p] := by
  cases p with
  | value v => exact .inr (.inr ⟨nofun, nofun, rfl⟩)
  | text t =>
    cases t with
    | nil => exact .inl ⟨rfl, rfl⟩
    | cons c t =>
      rcases List.eq_nil_or_concat pieces with rfl | ⟨before, q, rfl⟩
      · exact .inr (.inr ⟨nofun, nofun, rfl⟩)
      · rw [List.concat_eq_append]
        cases q with
        | text u => exact .inr (.inl ⟨before, u, c :: t, rfl, rfl, nofun, by simp [joinBack]⟩)
        | value v => exact .inr (.inr ⟨nofun, by simp [isText], by simp [joinBack]⟩)

theorem atoms_joinBack (pieces : List Piece) (p : Piece) :
    (joinBack pieces p).flatMap atoms = pieces.flatMap atoms ++ p.atoms := by
  rcases joinBack_cases pieces p with ⟨rfl, h⟩ | ⟨before, u, t, rfl, rfl, -, h⟩ | ⟨-, -, h⟩
  · simp [h, atoms]
  · simp [h, atoms]
  · simp [h]

theorem atoms_foldl_joinBack (pieces more : List Piece) :
    (more.foldl joinBack pieces).flatMap atoms = pieces.flatMap atoms ++ more.flatMap atoms := by
  induction more generalizing pieces with
  | nil => simp
  | cons p more ih => rw [List.foldl_cons, ih, atoms_joinBack, List.flatMap_cons, List.append_assoc]

theorem IsJoined.joinBack {pieces : List Piece} (h : IsJoined pieces) (p : Piece) :
    IsJoined (joinBack pieces p) := by
  rcases joinBack_cases pieces p with ⟨-, heq⟩ | ⟨before, u, t, rfl, -, ht, heq⟩ | ⟨hp, hlast, heq⟩
  · rwa [heq]
  · rw [heq]
    refine ⟨?_, h.apart.concat_of_imp fun _ => rfl⟩
    have hbefore : text [] ∉ before := fun hmem => h.filled (List.mem_append_left _ hmem)
    simpa [hbefore] using fun _ => ht
  · rw [heq]
    refine ⟨?_, Apart.concat_iff.mpr ⟨h.apart, hlast⟩⟩
    simpa [h.filled] using hp.symm

theorem IsJoined.foldl_joinBack {pieces : List Piece} (h : IsJoined pieces) (more : List Piece) :
    IsJoined (more.foldl Piece.joinBack pieces) := by
  induction more generalizing pieces with
  | nil => exact h
  | cons p more ih => exact ih (h.joinBack p)

end Piece

namespace Instr

/-! ## Normal form -/

/-- No two appends are neighbours, and none is empty or has pieces to drop or to join. -/
structure IsNormal (instrs : List Instr) : Prop where
  apart : Apart isAppend instrs
  filled : append [] ∉ instrs
  joined : ∀ pieces, append pieces ∈ instrs → Piece.IsJoined pieces

theorem IsNormal.tail {i : Instr} {is : List Instr} (h : IsNormal (i :: is)) : IsNormal is where
  apart := (Apart.cons_iff.mp h.apart).2
  filled hmem := h.filled (List.mem_cons_of_mem i hmem)
  joined pieces hmem := h.joined pieces (List.mem_cons_of_mem i hmem)

/-- A list in normal form is its own normal form. -/
theorem IsNormal.optimize_eq {instrs : List Instr} (h : IsNormal instrs) :
    optimize instrs = instrs := by
  induction instrs with
  | nil => rfl
  | cons i is ih =>
    have hcons : optimize (i :: is) = mergeFront i (optimize is) := rfl
    rw [hcons, ih h.tail]
    cases i with
    | append pieces =>
      have hpieces := (h.joined pieces List.mem_cons_self).joinAll_eq
      obtain ⟨hhead, -⟩ := Apart.cons_iff.mp h.apart
      cases pieces with
      | nil => exact absurd List.mem_cons_self h.filled
      | cons p pieces =>
        cases is with
        | nil => simp [mergeFront, hpieces]
        | cons j is =>
          cases j with
          | append more => exact absurd rfl (hhead rfl (append more) rfl)
          | _ => simp [mergeFront, hpieces]
    | _ => rfl

/-! ## Two passes -/

/-- Puts an instruction behind instructions. An append is joined to an append at the end if the
pieces of both allow it, and else its pieces are put there as `alone` gives them. -/
def mergeBack (joins : List Piece → List Piece → Bool) (alone : List Piece → List Piece)
    (out : List Instr) : Instr → List Instr
  | append pieces =>
    match out.getLast? with
    | some (append last) =>
      if joins last pieces then out.dropLast ++ [append (pieces.foldl Piece.joinBack last)]
      else out ++ [append (alone pieces)]
    | _ => out ++ [append (alone pieces)]
  | i => out ++ [i]

/-- The first pass: neighbouring appends of texts become one. -/
def mergeTexts (instrs : List Instr) : List Instr :=
  instrs.foldl
    (mergeBack (fun last pieces => last.all Piece.isText && pieces.all Piece.isText) id) []

/-- The second pass: neighbouring appends become one, and empty ones are dropped. -/
def mergeAppends (instrs : List Instr) : List Instr :=
  (instrs.foldl
    (mergeBack (fun _ _ => true) fun pieces => pieces.foldl Piece.joinBack []) []).filter
    (· != append [])

/-- An append is joined to the append at the end or put behind it. -/
theorem mergeBack_append (joins : List Piece → List Piece → Bool)
    (alone : List Piece → List Piece) (out : List Instr) (pieces : List Piece) :
    (∃ before last, out = before ++ [append last] ∧ joins last pieces = true ∧
        mergeBack joins alone out (append pieces) =
          before ++ [append (pieces.foldl Piece.joinBack last)]) ∨
      (∀ last, append last ∈ out.getLast? → joins last pieces = false) ∧
        mergeBack joins alone out (append pieces) = out ++ [append (alone pieces)] := by
  rcases List.eq_nil_or_concat out with rfl | ⟨before, j, rfl⟩
  · exact .inr ⟨nofun, rfl⟩
  · rw [List.concat_eq_append]
    cases j with
    | append last =>
      cases hjoins : joins last pieces with
      | true => exact .inl ⟨before, last, rfl, hjoins, by simp [mergeBack, hjoins]⟩
      | false => exact .inr ⟨by simp [hjoins], by simp [mergeBack, hjoins]⟩
    | _ => exact .inr ⟨by simp, by simp [mergeBack]⟩

theorem atoms_foldl_mergeBack {joins : List Piece → List Piece → Bool}
    {alone : List Piece → List Piece}
    (halone : ∀ pieces, (alone pieces).flatMap Piece.atoms = pieces.flatMap Piece.atoms)
    (out instrs : List Instr) :
    allAtoms (instrs.foldl (mergeBack joins alone) out) = allAtoms out ++ allAtoms instrs := by
  induction instrs generalizing out with
  | nil => simp
  | cons i is ih =>
    have hstep : allAtoms (mergeBack joins alone out i) = allAtoms out ++ i.atoms := by
      cases i with
      | append pieces =>
        rcases mergeBack_append joins alone out pieces with
          ⟨before, last, rfl, -, h⟩ | ⟨-, h⟩
        · simp [h, atoms, Piece.atoms_foldl_joinBack]
        · simp [h, atoms, halone]
      | _ => simp [mergeBack]
    rw [List.foldl_cons, ih, hstep, allAtoms_cons, List.append_assoc]

theorem atoms_mergeTexts (instrs : List Instr) : allAtoms (mergeTexts instrs) = allAtoms instrs :=
  atoms_foldl_mergeBack (fun _ => rfl) [] instrs

theorem allAtoms_filter_filled (instrs : List Instr) :
    allAtoms (instrs.filter (· != append [])) = allAtoms instrs := by
  induction instrs with
  | nil => rfl
  | cons i is ih =>
    by_cases hi : i = append []
    · rw [hi, List.filter_cons_of_neg (by simp), ih]
      rfl
    · rw [List.filter_cons_of_pos (by simpa using hi), allAtoms_cons, ih, allAtoms_cons]

theorem atoms_mergeAppends (instrs : List Instr) :
    allAtoms (mergeAppends instrs) = allAtoms instrs := by
  rw [mergeAppends, allAtoms_filter_filled]
  exact atoms_foldl_mergeBack (fun pieces => Piece.atoms_foldl_joinBack [] pieces) [] instrs

/-- Until the empty appends are dropped, the second pass keeps appends apart and their pieces
joined. -/
theorem joined_foldl_mergeBack (out : List Instr) (hout : Apart isAppend out)
    (hjoined : ∀ pieces, append pieces ∈ out → Piece.IsJoined pieces) (instrs : List Instr) :
    let all := instrs.foldl
      (mergeBack (fun _ _ => true) fun pieces => pieces.foldl Piece.joinBack []) out
    Apart isAppend all ∧ ∀ pieces, append pieces ∈ all → Piece.IsJoined pieces := by
  induction instrs generalizing out with
  | nil => exact ⟨hout, hjoined⟩
  | cons i is ih =>
    have hend {before : List Instr} {j : Instr} (hsub : before ⊆ out)
        (hj : ∀ pieces, j = append pieces → Piece.IsJoined pieces) (pieces : List Piece)
        (hmem : append pieces ∈ before ++ [j]) : Piece.IsJoined pieces := by
      rcases List.mem_append.mp hmem with hmem | hmem
      · exact hjoined pieces (hsub hmem)
      · exact hj pieces (List.mem_singleton.mp hmem).symm
    by_cases happend : i.isAppend = true
    · cases i with
      | append pieces =>
        rcases mergeBack_append (fun _ _ => true)
            (fun pieces => pieces.foldl Piece.joinBack []) out pieces with
          ⟨before, last, rfl, -, h⟩ | ⟨hlast, h⟩
        · rw [List.foldl_cons, h]
          have hlastJoined := (hjoined last (by simp)).foldl_joinBack pieces
          refine ih _ (hout.concat_of_imp fun _ => rfl) (hend (List.subset_append_left _ _) ?_)
          rintro _ ⟨⟩
          exact hlastJoined
        · rw [List.foldl_cons, h]
          refine ih _ (Apart.concat_iff.mpr ⟨hout, fun _ j hj hjappend => ?_⟩)
            (hend (List.Subset.refl out) ?_)
          · cases j with
            | append last => cases hlast last hj
            | _ => cases hjappend
          · rintro _ ⟨⟩
            exact Piece.isJoined_nil.foldl_joinBack pieces
      | _ => cases happend
    · have hstep :
          mergeBack (fun _ _ => true) (fun pieces => pieces.foldl Piece.joinBack []) out i =
            out ++ [i] := by
        cases i with
        | append pieces => exact absurd rfl happend
        | _ => rfl
      rw [List.foldl_cons, hstep]
      refine ih _ (Apart.concat_iff.mpr ⟨hout, fun h => absurd h happend⟩)
        (hend (List.Subset.refl out) ?_)
      rintro pieces rfl
      exact absurd rfl happend

theorem isNormal_mergeAppends (instrs : List Instr) : IsNormal (mergeAppends instrs) := by
  obtain ⟨hapart, hjoined⟩ := joined_foldl_mergeBack [] .nil nofun instrs
  refine ⟨hapart.filter fun i hi => ?_, by simp [mergeAppends], fun pieces hmem =>
    hjoined pieces (List.mem_filter.mp hmem).1⟩
  have hempty : i = append [] := by simpa using hi
  rw [hempty]
  rfl

/-- The two passes give the normal form. -/
theorem mergeAppends_mergeTexts (instrs : List Instr) :
    mergeAppends (mergeTexts instrs) = optimize instrs := by
  rw [← (isNormal_mergeAppends _).optimize_eq, optimize_eq_iff, atoms_mergeAppends,
    atoms_mergeTexts]

theorem isNormal_optimize (instrs : List Instr) : IsNormal (optimize instrs) := by
  rw [← mergeAppends_mergeTexts]
  exact isNormal_mergeAppends _

/-! ## Between the other instructions -/

/-- The characters and variables written before the first of the other instructions, between each
and the next, and after the last. -/
def gaps : List Instr → List (List Atom)
  | [] => [[]]
  | i :: is => if i.isAppend then (gaps is).modifyHead (i.written ++ ·) else [] :: gaps is

def weave : List (List Atom) → List Instr → List Atom
  | gap :: gaps, i :: is => gap ++ .control i :: weave gaps is
  | gaps, _ => gaps.flatten

theorem gaps_ne_nil (instrs : List Instr) : gaps instrs ≠ [] := by
  induction instrs with
  | nil => nofun
  | cons i is ih =>
    unfold gaps
    split
    · simpa [List.modifyHead_eq_nil_iff] using ih
    · nofun

theorem weave_modifyHead (front : List Atom) {gaps : List (List Atom)} (h : gaps ≠ [])
    (is : List Instr) : weave (gaps.modifyHead (front ++ ·)) is = front ++ weave gaps is := by
  cases gaps with
  | nil => exact absurd rfl h
  | cons gap gaps => cases is <;> simp [weave]

/-- The content is the other instructions and what is written between them. -/
theorem weave_gaps (instrs : List Instr) :
    weave (gaps instrs) (controls instrs) = allAtoms instrs := by
  induction instrs with
  | nil => rfl
  | cons i is ih =>
    cases i with
    | append pieces =>
      have hmodify := weave_modifyHead (append pieces).written (gaps_ne_nil is) (controls is)
      rw [ih] at hmodify
      exact hmodify
    | _ => exact congrArg (List.cons _) ih

theorem gaps_mergeFront (i : Instr) (rest : List Instr) :
    gaps (mergeFront i rest) = gaps (i :: rest) := by
  cases i with
  | append pieces =>
    rcases mergeFront_append pieces rest with ⟨more, behind, rfl, h⟩ | ⟨hempty, h⟩ | h
    · rw [h]
      simp [gaps, isAppend, written, Piece.atoms_foldr_joinFront, List.modifyHead_modifyHead,
        Function.comp_def]
    · have hnone : (append pieces).written = [] := by
        rw [written, ← Piece.atoms_joinAll, hempty]
        rfl
      have hsame : gaps (append pieces :: rest) = (gaps rest).modifyHead id := by
        simp only [gaps, isAppend, hnone]
        rfl
      rw [h, hsame, List.modifyHead_id]
      rfl
    · rw [h]
      simp [gaps, isAppend, written, Piece.atoms_joinAll]
  | _ => rfl

theorem gaps_optimize (instrs : List Instr) : gaps (optimize instrs) = gaps instrs := by
  induction instrs with
  | nil => rfl
  | cons i is ih =>
    have hcons : optimize (i :: is) = mergeFront i (optimize is) := rfl
    rw [hcons, gaps_mergeFront]
    unfold gaps
    rw [ih]

/-- Optimizing gives a normal form, which has the other instructions in the same order with the same
characters and variables between them, and is its own normal form. Lists have one normal form if and
only if they agree in these. The two passes give it as well. -/
theorem optimize_normal (xs ys : List Instr) :
    IsNormal (optimize xs) ∧ controls (optimize xs) = controls xs ∧
      gaps (optimize xs) = gaps xs ∧ optimize (optimize xs) = optimize xs ∧
      (optimize xs = optimize ys ↔ controls xs = controls ys ∧ gaps xs = gaps ys) ∧
      mergeAppends (mergeTexts xs) = optimize xs := by
  refine ⟨isNormal_optimize xs, controls_optimize xs, gaps_optimize xs,
    (isNormal_optimize xs).optimize_eq, ⟨fun h => ?_, fun h => ?_⟩, mergeAppends_mergeTexts xs⟩
  · rw [← controls_optimize xs, ← gaps_optimize xs, h]
    exact ⟨controls_optimize ys, gaps_optimize ys⟩
  · rw [optimize_eq_iff, ← weave_gaps, ← weave_gaps, h.1, h.2]

end Instr

end HtmlTemplate
