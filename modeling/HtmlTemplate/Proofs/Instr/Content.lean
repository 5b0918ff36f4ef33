import HtmlTemplate.Instr.Normal

/-!
The content of an instruction list: its characters, interpolations and other instructions in
order. How characters and interpolations are divided among appends is no part of it. The normal
form keeps the content (`atoms_optimize`) and is determined by it (`optimize_eq_iff`), so what
looks at the other instructions only does not see the difference (`controls_optimize`).
-/

namespace HtmlTemplate

/-- A part of the content that cannot be divided. -/
inductive Atom
  | char (c : Char)
  | value (v : Variable)
  /-- An instruction other than an append. -/
  | control (i : Instr)

namespace Atom

/-- The instruction that does no more than the atom. -/
def instr : Atom → Instr
  | char c => .text [c]
  | value v => .append [.value v]
  | control i => i

end Atom

namespace Piece

def atoms : Piece → List Atom
  | text t => t.map .char
  | value v => [.value v]

theorem atoms_joinFront (p : Piece) (pieces : List Piece) :
    (joinFront p pieces).flatMap atoms = p.atoms ++ pieces.flatMap atoms := by
  cases p with
  | value v => rfl
  | text t =>
    cases t with
    | nil => simp [joinFront, atoms]
    | cons c t =>
      cases pieces with
      | nil => simp [joinFront, atoms]
      | cons q pieces => cases q <;> simp [joinFront, atoms]

theorem atoms_joinAll (pieces : List Piece) :
    (joinAll pieces).flatMap atoms = pieces.flatMap atoms := by
  induction pieces with
  | nil => rfl
  | cons p pieces ih =>
    have hcons : joinAll (p :: pieces) = joinFront p (joinAll pieces) := rfl
    rw [hcons, atoms_joinFront, ih, List.flatMap_cons]

theorem atoms_foldr_joinFront (pieces more : List Piece) :
    (pieces.foldr joinFront more).flatMap atoms = pieces.flatMap atoms ++ more.flatMap atoms := by
  induction pieces with
  | nil => rfl
  | cons p pieces ih => simp [atoms_joinFront, ih]

/-- A text can be put in front character by character. -/
theorem joinFront_text_cons (c : Char) (t : Text) (pieces : List Piece) :
    joinFront (text (c :: t)) pieces = joinFront (text [c]) (joinFront (text t) pieces) := by
  cases t with
  | nil => cases pieces with
    | nil => rfl
    | cons q pieces => cases q <;> rfl
  | cons d t => cases pieces with
    | nil => rfl
    | cons q pieces => cases q <;> rfl

end Piece

namespace Instr

def atoms : Instr → List Atom
  | append pieces => pieces.flatMap Piece.atoms
  | i => [.control i]

def written : Instr → List Atom
  | append pieces => pieces.flatMap Piece.atoms
  | _ => []

def allAtoms (instrs : List Instr) : List Atom := instrs.flatMap atoms

/-- The instruction list with every append divided into appends of one atom. -/
def expand (instrs : List Instr) : List Instr := (allAtoms instrs).map Atom.instr

@[simp] theorem allAtoms_nil : allAtoms [] = [] := rfl

@[simp] theorem allAtoms_cons (i : Instr) (is : List Instr) :
    allAtoms (i :: is) = i.atoms ++ allAtoms is := rfl

@[simp] theorem allAtoms_append (xs ys : List Instr) :
    allAtoms (xs ++ ys) = allAtoms xs ++ allAtoms ys := by
  simp [allAtoms]

@[simp] theorem atoms_text (t : Text) : (text t).atoms = t.map .char := by
  simp [text, atoms, Piece.atoms]

@[simp] theorem expand_nil : expand [] = [] := rfl

theorem expand_cons (i : Instr) (is : List Instr) :
    expand (i :: is) = i.atoms.map Atom.instr ++ expand is := by
  simp [expand]

@[simp] theorem expand_append (xs ys : List Instr) :
    expand (xs ++ ys) = expand xs ++ expand ys := by
  simp [expand]

/-! ## The normal form -/

/-- In front of an append an append is joined to it; elsewhere it stays if it is not empty. -/
theorem mergeFront_append (pieces : List Piece) (rest : List Instr) :
    (∃ more behind, rest = append more :: behind ∧
        mergeFront (append pieces) rest =
          append (pieces.foldr Piece.joinFront more) :: behind) ∨
      (Piece.joinAll pieces = [] ∧ mergeFront (append pieces) rest = rest) ∨
      mergeFront (append pieces) rest = append (Piece.joinAll pieces) :: rest := by
  have hnew (h : ∀ more behind, rest ≠ append more :: behind) :
      (Piece.joinAll pieces = [] ∧ mergeFront (append pieces) rest = rest) ∨
        mergeFront (append pieces) rest = append (Piece.joinAll pieces) :: rest := by
    cases hjoined : Piece.joinAll pieces with
    | nil => exact .inl ⟨rfl, by simp [mergeFront, hjoined]⟩
    | cons p joined => exact .inr (by simp [mergeFront, hjoined])
  cases rest with
  | nil => exact .inr (hnew (by simp))
  | cons j behind =>
    cases j with
    | append more => exact .inl ⟨more, behind, rfl, rfl⟩
    | _ => exact .inr (hnew (by simp))

theorem atoms_mergeFront (i : Instr) (rest : List Instr) :
    allAtoms (mergeFront i rest) = i.atoms ++ allAtoms rest := by
  cases i with
  | append pieces =>
    rcases mergeFront_append pieces rest with ⟨more, behind, rfl, h⟩ | ⟨hempty, h⟩ | h
    · simp [h, atoms, Piece.atoms_foldr_joinFront]
    · rw [h, atoms, ← Piece.atoms_joinAll, hempty]
      rfl
    · rw [h, allAtoms_cons, atoms, Piece.atoms_joinAll, atoms]
  | _ => rfl

/-- The normal form has the same content. -/
theorem atoms_optimize (instrs : List Instr) : allAtoms (optimize instrs) = allAtoms instrs := by
  induction instrs with
  | nil => rfl
  | cons i is ih =>
    have hcons : optimize (i :: is) = mergeFront i (optimize is) := rfl
    rw [hcons, atoms_mergeFront, ih, allAtoms_cons]

theorem mergeFront_append_nil (rest : List Instr) : mergeFront (append []) rest = rest := by
  cases rest with
  | nil => rfl
  | cons j rest => cases j <;> rfl

/-- Pieces can be put in front one by one. -/
theorem mergeFront_append_cons (p : Piece) (pieces : List Piece) (rest : List Instr) :
    mergeFront (append (p :: pieces)) rest =
      mergeFront (append [p]) (mergeFront (append pieces) rest) := by
  have hcons : Piece.joinAll (p :: pieces) = Piece.joinFront p (Piece.joinAll pieces) := rfl
  have hone : Piece.joinAll [p] = Piece.joinFront p [] := rfl
  have hnew : (∀ more rest', rest ≠ append more :: rest') →
      mergeFront (append (p :: pieces)) rest =
        mergeFront (append [p]) (mergeFront (append pieces) rest) := by
    intro h
    cases hjoined : Piece.joinAll pieces with
    | nil => simp [mergeFront, hcons, hone, hjoined]
    | cons q joined =>
      have hne : Piece.joinFront p (q :: joined) ≠ [] := by
        cases p with
        | value v => simp [Piece.joinFront]
        | text t => cases q <;> by_cases ht : t.isEmpty <;> simp [Piece.joinFront, ht]
      cases hboth : Piece.joinFront p (q :: joined) with
      | nil => exact absurd hboth hne
      | cons r both => simp [mergeFront, hcons, hjoined, hboth]
  cases rest with
  | nil => exact hnew (by simp)
  | cons j rest =>
    cases j with
    | append more => rfl
    | _ => exact hnew (by simp)

theorem mergeFront_text_cons (c : Char) (t : Text) (rest : List Instr) :
    mergeFront (append [.text (c :: t)]) rest =
      mergeFront (text [c]) (mergeFront (append [.text t]) rest) := by
  cases t with
  | nil =>
    have hempty : mergeFront (append [.text []]) rest = rest := by
      cases rest with
      | nil => rfl
      | cons j rest => cases j <;> rfl
    rw [hempty]
    rfl
  | cons d t =>
    cases rest with
    | nil => rfl
    | cons j rest =>
      cases j with
      | append more => exact congrArg (append · :: rest) (Piece.joinFront_text_cons c _ more)
      | _ => rfl

theorem mergeFront_piece (p : Piece) (rest : List Instr) :
    mergeFront (append [p]) rest = p.atoms.foldr (mergeFront ∘ Atom.instr) rest := by
  cases p with
  | value v => rfl
  | text t =>
    induction t with
    | nil =>
      cases rest with
      | nil => rfl
      | cons j rest => cases j <;> rfl
    | cons c t ih =>
      rw [mergeFront_text_cons, ih]
      rfl

/-- An instruction can be put in front atom by atom. -/
theorem mergeFront_eq_foldr (i : Instr) (rest : List Instr) :
    mergeFront i rest = i.atoms.foldr (mergeFront ∘ Atom.instr) rest := by
  cases i with
  | append pieces =>
    induction pieces with
    | nil => exact mergeFront_append_nil rest
    | cons p pieces ih =>
      rw [mergeFront_append_cons, ih, mergeFront_piece]
      simp [atoms]
  | _ => rfl

theorem optimize_eq_foldr (instrs : List Instr) :
    optimize instrs = (allAtoms instrs).foldr (mergeFront ∘ Atom.instr) [] := by
  induction instrs with
  | nil => rfl
  | cons i is ih =>
    have hcons : optimize (i :: is) = mergeFront i (optimize is) := rfl
    rw [hcons, ih, mergeFront_eq_foldr, allAtoms_cons, List.foldr_append]

/-- Two instruction lists have the same normal form if and only if they have the same content. -/
theorem optimize_eq_iff {xs ys : List Instr} :
    optimize xs = optimize ys ↔ allAtoms xs = allAtoms ys := by
  constructor
  · intro h
    rw [← atoms_optimize xs, h, atoms_optimize]
  · intro h
    rw [optimize_eq_foldr, optimize_eq_foldr, h]

def isAppend : Instr → Bool
  | append _ => true
  | _ => false

theorem written_of_not_isAppend {i : Instr} (h : i.isAppend = false) : i.written = [] := by
  cases i with
  | append pieces => cases h
  | _ => rfl

/-- The instructions other than appends. -/
def controls (instrs : List Instr) : List Instr := instrs.filter (!·.isAppend)

theorem controls_mergeFront (i : Instr) (rest : List Instr) :
    controls (mergeFront i rest) = controls (i :: rest) := by
  cases i with
  | append pieces =>
    rcases mergeFront_append pieces rest with ⟨more, behind, rfl, h⟩ | ⟨-, h⟩ | h
    · rw [h]
      rfl
    · rw [h]
      rfl
    · rw [h]
      rfl
  | _ => rfl

theorem controls_optimize (instrs : List Instr) : controls (optimize instrs) = controls instrs := by
  induction instrs with
  | nil => rfl
  | cons i is ih =>
    have hcons : optimize (i :: is) = mergeFront i (optimize is) := rfl
    rw [hcons, controls_mergeFront]
    cases i with
    | append pieces => exact ih
    | _ => exact congrArg (List.cons _) ih

/-- Dividing the appends of the normal form is dividing those of the list itself. -/
theorem expand_optimize (instrs : List Instr) : expand (optimize instrs) = expand instrs := by
  rw [expand, atoms_optimize, expand]

end Instr

end HtmlTemplate
