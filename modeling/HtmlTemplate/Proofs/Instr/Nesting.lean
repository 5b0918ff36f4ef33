import HtmlTemplate.Instr.JavaScript
import HtmlTemplate.Proofs.Instr.Content

/-!
Nesting of blocks in an instruction list. A scan from left to right keeps a stack of the open
blocks, and a list is well nested if each close finds the block it closes on top and none is open
at the end. The indentation of the JavaScript is the height of that stack (`length_of_scan`).
-/

namespace HtmlTemplate

/-- What stands between an opening instruction and its close; of a loop also the frame. -/
inductive BlockKind
  | condition
  | loop (frame : Nat)
  | inclusion
  | registration
deriving DecidableEq

namespace BlockKind

def frame? : BlockKind → Option Nat
  | loop frame => some frame
  | _ => none

def frames (blocks : List BlockKind) : List Nat := blocks.filterMap frame?

/-- Every loop has the number of loops around it as its frame. The innermost block comes first. -/
def Numbered (blocks : List BlockKind) : Prop :=
  frames blocks = (List.range (frames blocks).length).reverse

theorem Numbered.nodup {blocks : List BlockKind} (h : Numbered blocks) :
    (frames blocks).Nodup := by
  rw [h]
  exact List.pairwise_reverse.mpr (List.nodup_range.imp Ne.symm)

theorem frames_cons_loop (frame : Nat) (blocks : List BlockKind) :
    frames (.loop frame :: blocks) = frame :: frames blocks := rfl

theorem Numbered.cons_loop {blocks : List BlockKind} (h : Numbered blocks) :
    Numbered (.loop (frames blocks).length :: blocks) := by
  unfold Numbered
  rw [frames_cons_loop, List.length_cons, List.range_succ, List.reverse_append, ← h]
  rfl

theorem Numbered.of_cons_loop {frame : Nat} {blocks : List BlockKind}
    (h : Numbered (.loop frame :: blocks)) : Numbered blocks := by
  unfold Numbered at h
  rw [frames_cons_loop, List.length_cons, List.range_succ, List.reverse_append] at h
  exact (List.cons.inj h).2

end BlockKind

namespace Instr

def opened? : Instr → Option BlockKind
  | ifOpen _ => some .condition
  | eachOpen _ frame => some (.loop frame)
  | includeOpen => some .inclusion
  | partialOpen _ => some .registration
  | _ => none

def closed? : Instr → Option BlockKind
  | ifClose => some .condition
  | eachClose frame => some (.loop frame)
  | includeClose _ => some .inclusion
  | partialClose => some .registration
  | _ => none

/-- The open blocks after an instruction, innermost first; none if the instruction closes a block
that is not the innermost one. -/
def nest (blocks : List BlockKind) (i : Instr) : Option (List BlockKind) :=
  match i.opened?, i.closed? with
  | some block, _ => some (block :: blocks)
  | none, some block => if blocks.head? = some block then some blocks.tail else none
  | none, none => some blocks

def scan (blocks : List BlockKind) : List Instr → Option (List BlockKind)
  | [] => some blocks
  | i :: is => (nest blocks i).bind fun blocks => scan blocks is

/-- Every close meets the block it closes, and every block is closed. -/
def WellNested (instrs : List Instr) : Prop := scan [] instrs = some []

instance (instrs : List Instr) : Decidable (WellNested instrs) :=
  inferInstanceAs (Decidable (scan [] instrs = some []))

/-- Every loop has the number of loops around it as its frame, where `loops` loops are around
the first instruction. -/
def LoopsNumbered (loops : Nat) : List Instr → Prop
  | [] => True
  | eachOpen _ frame :: is => frame = loops ∧ LoopsNumbered (loops + 1) is
  | eachClose _ :: is => LoopsNumbered (loops - 1) is
  | _ :: is => LoopsNumbered loops is

theorem nest_of_opened? {i : Instr} {block : BlockKind} (h : i.opened? = some block)
    (blocks : List BlockKind) : nest blocks i = some (block :: blocks) := by
  rw [nest, h]

theorem opened?_eq_none {i : Instr} {block : BlockKind} (h : i.closed? = some block) :
    i.opened? = none := by
  cases i with
  | ifClose | eachClose | includeClose | partialClose => rfl
  | _ => simp [closed?] at h

theorem nest_of_closed? {i : Instr} {block : BlockKind} (h : i.closed? = some block)
    (blocks : List BlockKind) : nest (block :: blocks) i = some blocks := by
  simp [nest, opened?_eq_none h, h]

/-- An instruction opens a block, closes the innermost one, or keeps the open blocks. -/
theorem nest_cases {blocks inner : List BlockKind} {i : Instr} (h : nest blocks i = some inner) :
    (∃ block, i.opened? = some block ∧ inner = block :: blocks) ∨
      (∃ block, i.closed? = some block ∧ blocks = block :: inner) ∨
      (i.opened? = none ∧ i.closed? = none ∧ inner = blocks) := by
  cases ho : i.opened? with
  | some block =>
    rw [nest_of_opened? ho] at h
    exact .inl ⟨block, rfl, (Option.some.inj h).symm⟩
  | none =>
    cases hc : i.closed? with
    | none =>
      simp only [nest, ho, hc] at h
      exact .inr (.inr ⟨rfl, rfl, (Option.some.inj h).symm⟩)
    | some block =>
      simp only [nest, ho, hc] at h
      split at h
      · next htop =>
        obtain ⟨outer, rfl⟩ := List.head?_eq_some_iff.mp htop
        exact .inr (.inl ⟨block, rfl, congrArg (block :: ·) (Option.some.inj h)⟩)
      · simp at h

theorem scan_append (blocks : List BlockKind) (xs ys : List Instr) :
    scan blocks (xs ++ ys) = (scan blocks xs).bind fun blocks => scan blocks ys := by
  induction xs generalizing blocks with
  | nil => rfl
  | cons i is ih => simp [scan, ih, Option.bind_assoc]

/-- A scan that reaches the end has passed every place. -/
theorem scan_of_append {blocks final : List BlockKind} {before after : List Instr}
    (h : scan blocks (before ++ after) = some final) :
    ∃ inner, scan blocks before = some inner ∧ scan inner after = some final := by
  rw [scan_append] at h
  exact Option.bind_eq_some_iff.mp h

theorem scan_controls (blocks : List BlockKind) (instrs : List Instr) :
    scan blocks (controls instrs) = scan blocks instrs := by
  induction instrs generalizing blocks with
  | nil => rfl
  | cons i is ih =>
    cases i with
    | append pieces => exact ih blocks
    | _ => simp [controls, isAppend, scan, ← ih]

/-- The normal form is nested as the list itself. -/
theorem scan_optimize (blocks : List BlockKind) (instrs : List Instr) :
    scan blocks (optimize instrs) = scan blocks instrs := by
  rw [← scan_controls, controls_optimize, scan_controls]

theorem loopsNumbered_controls (loops : Nat) (instrs : List Instr) :
    LoopsNumbered loops (controls instrs) ↔ LoopsNumbered loops instrs := by
  induction instrs generalizing loops with
  | nil => exact Iff.rfl
  | cons i is ih =>
    cases i with
    | eachOpen expr frame => exact and_congr_right fun _ => ih (loops + 1)
    | eachClose frame => exact ih (loops - 1)
    | _ => exact ih loops

theorem loopsNumbered_optimize (loops : Nat) (instrs : List Instr) :
    LoopsNumbered loops (optimize instrs) ↔ LoopsNumbered loops instrs := by
  rw [← loopsNumbered_controls, controls_optimize, loopsNumbered_controls]

/-! ## Frames -/

/-- What an instruction does to the open blocks it does to the number of loops. -/
theorem numbered_of_nest {blocks inner : List BlockKind} {i : Instr} {is : List Instr}
    (h : nest blocks i = some inner) (hb : BlockKind.Numbered blocks)
    (hl : LoopsNumbered (BlockKind.frames blocks).length (i :: is)) :
    BlockKind.Numbered inner ∧ LoopsNumbered (BlockKind.frames inner).length is := by
  rcases nest_cases h with ⟨block, hi, rfl⟩ | ⟨block, hi, rfl⟩ | ⟨hopened, hclosed, rfl⟩
  · cases i with
    | eachOpen expr frame =>
      obtain rfl := Option.some.inj hi
      obtain ⟨rfl, hl⟩ := hl
      exact ⟨hb.cons_loop, hl⟩
    | ifOpen | includeOpen | partialOpen =>
      obtain rfl := Option.some.inj hi
      exact ⟨hb, hl⟩
    | _ => simp [opened?] at hi
  · cases i with
    | eachClose frame =>
      obtain rfl := Option.some.inj hi
      exact ⟨hb.of_cons_loop, hl⟩
    | ifClose | includeClose | partialClose =>
      obtain rfl := Option.some.inj hi
      exact ⟨hb, hl⟩
    | _ => simp [closed?] at hi
  · cases i with
    | eachOpen | eachClose => simp [opened?, closed?] at hopened hclosed
    | _ => exact ⟨hb, hl⟩

theorem numbered_of_scan {blocks inner : List BlockKind} {before after : List Instr}
    (h : scan blocks before = some inner) (hb : BlockKind.Numbered blocks)
    (hl : LoopsNumbered (BlockKind.frames blocks).length (before ++ after)) :
    BlockKind.Numbered inner ∧ LoopsNumbered (BlockKind.frames inner).length after := by
  induction before generalizing blocks with
  | nil =>
    obtain rfl := Option.some.inj h
    exact ⟨hb, hl⟩
  | cons i is ih =>
    obtain ⟨next, hnext, hrest⟩ := Option.bind_eq_some_iff.mp h
    obtain ⟨hb', hl'⟩ := numbered_of_nest hnext hb hl
    exact ih hrest hb' hl'

/-! ## Balanced instructions -/

/-- Among `loops` loops, the instructions close what they open and nothing else, and number their
loops. -/
structure Balanced (loops : Nat) (instrs : List Instr) : Prop where
  scan : ∀ blocks, scan blocks instrs = some blocks
  numbered : ∀ rest, LoopsNumbered loops rest → LoopsNumbered loops (instrs ++ rest)

theorem Balanced.wellNested {loops : Nat} {instrs : List Instr} (h : Balanced loops instrs) :
    WellNested instrs := h.scan []

theorem balanced_nil (loops : Nat) : Balanced loops [] :=
  ⟨fun _ => rfl, fun _ h => h⟩

theorem Balanced.append {loops : Nat} {xs ys : List Instr} (hx : Balanced loops xs)
    (hy : Balanced loops ys) : Balanced loops (xs ++ ys) where
  scan := by
    intro blocks
    rw [scan_append, hx.scan, Option.bind_some, hy.scan]
  numbered := by
    intro rest h
    rw [List.append_assoc]
    exact hx.numbered _ (hy.numbered _ h)

/-- Instructions that open and close nothing are balanced. -/
theorem balanced_of_plain {loops : Nat} {instrs : List Instr}
    (h : ∀ i ∈ instrs, i.opened? = none ∧ i.closed? = none) : Balanced loops instrs := by
  induction instrs with
  | nil => exact balanced_nil loops
  | cons i is ih =>
    obtain ⟨hopened, hclosed⟩ := h i List.mem_cons_self
    have his := ih fun j hj => h j (List.mem_cons_of_mem i hj)
    refine ⟨fun blocks => ?_, fun rest hrest => ?_⟩
    · simp [Instr.scan, nest, hopened, hclosed, his.scan]
    · have hstep := his.numbered rest hrest
      cases i with
      | eachOpen | eachClose => simp [opened?, closed?] at hopened hclosed
      | _ => exact hstep

/-- Balanced instructions between an instruction that opens a block and one that closes it. The
number of loops inside is one more if the block is a loop. -/
theorem Balanced.block {loops : Nat} {i j : Instr} (block : BlockKind) {body : List Instr}
    (hopened : i.opened? = some block) (hclosed : j.closed? = some block)
    (hframe : ∀ frame, block = .loop frame → frame = loops)
    (h : Balanced (loops + (BlockKind.frames [block]).length) body) :
    Balanced loops (i :: body ++ [j]) where
  scan := by
    intro blocks
    rw [List.cons_append, Instr.scan, nest_of_opened? hopened, Option.bind_some, scan_append,
      h.scan, Option.bind_some, Instr.scan, nest_of_closed? hclosed]
    rfl
  numbered := by
    intro rest hrest
    have hbody := h.numbered (j :: rest)
    rw [List.append_assoc]
    cases i with
    | eachOpen expr frame =>
      obtain rfl := Option.some.inj hopened
      obtain rfl := hframe frame rfl
      cases j with
      | eachClose => exact ⟨rfl, hbody hrest⟩
      | _ => simp [closed?] at hclosed
    | ifOpen | includeOpen | partialOpen =>
      obtain rfl := Option.some.inj hopened
      cases j with
      | ifClose | includeClose | partialClose => exact hbody hrest
      | _ => simp [closed?] at hclosed
    | _ => simp [opened?] at hopened

/-! ## Indentation -/

def level : List Instr → Int
  | [] => 0
  | i :: is => JavaScript.indentChange i + level is

theorem length_of_nest {blocks inner : List BlockKind} {i : Instr}
    (h : nest blocks i = some inner) :
    (inner.length : Int) = blocks.length + JavaScript.indentChange i := by
  rcases nest_cases h with ⟨block, hi, rfl⟩ | ⟨block, hi, rfl⟩ | ⟨hopened, hclosed, rfl⟩
  · have hchange : JavaScript.indentChange i = 1 := by
      cases i with
      | ifOpen | eachOpen | includeOpen | partialOpen => rfl
      | _ => simp [opened?] at hi
    rw [hchange, List.length_cons]
    rfl
  · have hchange : JavaScript.indentChange i = -1 := by
      cases i with
      | ifClose | eachClose | includeClose | partialClose => rfl
      | _ => simp [closed?] at hi
    rw [hchange, List.length_cons]
    omega
  · have hchange : JavaScript.indentChange i = 0 := by
      cases i with
      | append | includeInvoke | partialInvoke => rfl
      | _ => simp [opened?, closed?] at hopened hclosed
    rw [hchange, Int.add_zero]

theorem length_of_scan {blocks inner : List BlockKind} {instrs : List Instr}
    (h : scan blocks instrs = some inner) :
    (inner.length : Int) = blocks.length + level instrs := by
  induction instrs generalizing blocks with
  | nil =>
    obtain rfl := Option.some.inj h
    simp [level]
  | cons i is ih =>
    obtain ⟨next, hnext, hrest⟩ := Option.bind_eq_some_iff.mp h
    have hi := length_of_nest hnext
    have his := ih hrest
    simp only [level] at his ⊢
    omega

end Instr

namespace JavaScript

/-- What follows instructions is printed at the level after them. -/
theorem body_append (start : Int) (before after : List Instr) :
    body start (before ++ after) =
      body start before ++ body (start + Instr.level before) after := by
  induction before generalizing start with
  | nil => simp [body, Instr.level]
  | cons i is ih => simp [body, ih, Instr.level, Int.add_assoc]

/-- The lines of an instruction stand at the level before it or at the level after it, or deeper. -/
theorem le_offset {i : Instr} {line : Line} (h : line ∈ lines i) :
    0 ≤ line.offset ∨ indentChange i ≤ line.offset := by
  have hoffset : line.offset ∈ (lines i).map Line.offset := List.mem_map_of_mem h
  cases i with
  | ifOpen | eachOpen | includeOpen | partialOpen =>
    left
    simp only [lines, eachLines, List.map_cons, List.map_nil, List.mem_cons, List.not_mem_nil,
      or_false] at hoffset
    omega
  | ifClose | eachClose | includeClose | partialClose =>
    right
    simp only [lines, eachEndLines, List.map_cons, List.map_nil, List.mem_cons, List.not_mem_nil,
      or_false] at hoffset
    simp only [indentChange, Instr.opens, Instr.closes, Bool.false_eq_true, if_false, if_true]
    omega
  | _ =>
    left
    exact Int.le_of_eq (List.mem_singleton.mp hoffset).symm

end JavaScript

end HtmlTemplate
