import HtmlTemplate.Proofs.Instr.Extent
import HtmlTemplate.Proofs.Instr.Nesting

/-!
Block trees. Well nested lists are the lists of block trees (`exists_instrs_eq`), and a list has at
most one tree (`instrs_inj`). What programs find by counting, the extent of a block and the greatest
depth, can be read off the tree (`bodyLength_instrs`, `blockDepth_instrs`).
-/

namespace HtmlTemplate

/-- Instructions as a sequence of blocks and of instructions that are no part of a block. -/
inductive Blocks
  | nil
  | append (pieces : List Piece) (rest : Blocks)
  | condition (expr : Text) (body rest : Blocks)
  | loop (expr : Text) (frame : Nat) (body rest : Blocks)
  /-- An include with the content that registers partials for it. -/
  | inclusion (body : Blocks) (target : Target) (rest : Blocks)
  | includeInvoke (target : Target) (rest : Blocks)
  | registration (name : Text) (body rest : Blocks)
  | partialInvoke (target : Target) (rest : Blocks)

namespace Blocks

def instrs : Blocks → List Instr
  | nil => []
  | append pieces rest => .append pieces :: rest.instrs
  | condition expr body rest => .ifOpen expr :: (body.instrs ++ .ifClose :: rest.instrs)
  | loop expr frame body rest =>
    .eachOpen expr frame :: (body.instrs ++ .eachClose frame :: rest.instrs)
  | inclusion body target rest =>
    .includeOpen :: (body.instrs ++ .includeClose target :: rest.instrs)
  | includeInvoke target rest => .includeInvoke target :: rest.instrs
  | registration name body rest =>
    .partialOpen name :: (body.instrs ++ .partialClose :: rest.instrs)
  | partialInvoke target rest => .partialInvoke target :: rest.instrs

def depth : Blocks → Nat
  | nil => 0
  | condition _ body rest | loop _ _ body rest | inclusion body _ rest
  | registration _ body rest => max (body.depth + 1) rest.depth
  | append _ rest | includeInvoke _ rest | partialInvoke _ rest => rest.depth

/-! ## Extents and depths -/

theorem bodyLength_instrs (b : Blocks) (level : Nat) (tail : List Instr) :
    Instr.bodyLength level (b.instrs ++ tail) = b.instrs.length + Instr.bodyLength level tail := by
  induction b generalizing level tail with
  | nil => simp [instrs]
  | append x rest ih | includeInvoke x rest ih | partialInvoke x rest ih =>
    simp only [instrs, List.cons_append, List.length_cons, Instr.bodyLength, Instr.opens,
      Instr.closes, Bool.false_eq_true, if_false, ih]
    omega
  | condition expr body rest ihb ihr | loop expr frame body rest ihb ihr
  | inclusion body target rest ihb ihr | registration name body rest ihb ihr =>
    simp only [instrs, List.cons_append, List.append_assoc, List.length_cons, List.length_append,
      Instr.bodyLength, Instr.opens, Instr.closes, Bool.false_eq_true, if_false, if_true, ihb, ihr]
    omega

/-- The body of a block ends where the block closes. -/
theorem bodyLength_body (b : Blocks) {i : Instr} (h : i.closes = true) (rest : List Instr) :
    Instr.bodyLength 0 (b.instrs ++ i :: rest) = b.instrs.length := by
  have hopens : i.opens = false := by cases i <;> simp_all [Instr.opens, Instr.closes]
  simp [bodyLength_instrs, Instr.bodyLength, hopens, h]

theorem blockDepth_instrs (b : Blocks) (level : Nat) (tail : List Instr) :
    Instr.blockDepth level (b.instrs ++ tail) =
      max (level + b.depth) (Instr.blockDepth level tail) := by
  induction b generalizing level tail with
  | nil => exact (Nat.max_eq_right (Instr.le_blockDepth level tail)).symm
  | append x rest ih | includeInvoke x rest ih | partialInvoke x rest ih =>
    simp only [instrs, depth, List.cons_append, Instr.blockDepth, Instr.opens, Instr.closes,
      Bool.false_eq_true, if_false, ih]
    omega
  | condition expr body rest ihb ihr | loop expr frame body rest ihb ihr
  | inclusion body target rest ihb ihr | registration name body rest ihb ihr =>
    simp only [instrs, depth, List.cons_append, List.append_assoc, Instr.blockDepth, Instr.opens,
      Instr.closes, Bool.false_eq_true, if_false, if_true, Nat.add_sub_cancel, ihb, ihr]
    omega

/-! ## One tree for each well nested list -/

/-- A tree is all of a list before an instruction that closes none of its blocks. -/
theorem instrs_append_inj {b c : Blocks} {xs ys : List Instr}
    (hx : ∀ i, xs.head? = some i → i.closes = true) (hy : ∀ i, ys.head? = some i → i.closes = true)
    (h : b.instrs ++ xs = c.instrs ++ ys) : b = c ∧ xs = ys := by
  induction b generalizing c xs ys with
  | nil =>
    cases c with
    | nil => exact ⟨rfl, h⟩
    | _ => exact absurd (hx _ (congrArg List.head? h)) (by simp [Instr.closes])
  | append x rest ih =>
    cases c with
    | append y rest' =>
      simp only [instrs, List.cons_append, List.cons.injEq, Instr.append.injEq] at h
      obtain ⟨rfl, h⟩ := h
      obtain ⟨rfl, rfl⟩ := ih hx hy h
      exact ⟨rfl, rfl⟩
    | nil => exact absurd (hy _ (congrArg List.head? h).symm) (by simp [Instr.closes])
    | _ => simp [instrs] at h
  | includeInvoke x rest ih =>
    cases c with
    | includeInvoke y rest' =>
      simp only [instrs, List.cons_append, List.cons.injEq, Instr.includeInvoke.injEq] at h
      obtain ⟨rfl, h⟩ := h
      obtain ⟨rfl, rfl⟩ := ih hx hy h
      exact ⟨rfl, rfl⟩
    | nil => exact absurd (hy _ (congrArg List.head? h).symm) (by simp [Instr.closes])
    | _ => simp [instrs] at h
  | partialInvoke x rest ih =>
    cases c with
    | partialInvoke y rest' =>
      simp only [instrs, List.cons_append, List.cons.injEq, Instr.partialInvoke.injEq] at h
      obtain ⟨rfl, h⟩ := h
      obtain ⟨rfl, rfl⟩ := ih hx hy h
      exact ⟨rfl, rfl⟩
    | nil => exact absurd (hy _ (congrArg List.head? h).symm) (by simp [Instr.closes])
    | _ => simp [instrs] at h
  | condition expr body rest ihb ihr =>
    cases c with
    | condition expr' body' rest' =>
      simp only [instrs, List.cons_append, List.append_assoc, List.cons.injEq,
        Instr.ifOpen.injEq] at h
      obtain ⟨rfl, h⟩ := h
      obtain ⟨rfl, hrest⟩ := ihb (by simp [Instr.closes]) (by simp [Instr.closes]) h
      obtain ⟨rfl, rfl⟩ := ihr hx hy (List.cons.inj hrest).2
      exact ⟨rfl, rfl⟩
    | nil => exact absurd (hy _ (congrArg List.head? h).symm) (by simp [Instr.closes])
    | _ => simp [instrs] at h
  | loop expr frame body rest ihb ihr =>
    cases c with
    | loop expr' frame' body' rest' =>
      simp only [instrs, List.cons_append, List.append_assoc, List.cons.injEq,
        Instr.eachOpen.injEq] at h
      obtain ⟨⟨rfl, rfl⟩, h⟩ := h
      obtain ⟨rfl, hrest⟩ := ihb (by simp [Instr.closes]) (by simp [Instr.closes]) h
      obtain ⟨rfl, rfl⟩ := ihr hx hy (List.cons.inj hrest).2
      exact ⟨rfl, rfl⟩
    | nil => exact absurd (hy _ (congrArg List.head? h).symm) (by simp [Instr.closes])
    | _ => simp [instrs] at h
  | inclusion body target rest ihb ihr =>
    cases c with
    | inclusion body' target' rest' =>
      simp only [instrs, List.cons_append, List.append_assoc, List.cons.injEq, true_and] at h
      obtain ⟨rfl, hrest⟩ := ihb (by simp [Instr.closes]) (by simp [Instr.closes]) h
      simp only [List.cons.injEq, Instr.includeClose.injEq] at hrest
      obtain ⟨rfl, hrest⟩ := hrest
      obtain ⟨rfl, rfl⟩ := ihr hx hy hrest
      exact ⟨rfl, rfl⟩
    | nil => exact absurd (hy _ (congrArg List.head? h).symm) (by simp [Instr.closes])
    | _ => simp [instrs] at h
  | registration name body rest ihb ihr =>
    cases c with
    | registration name' body' rest' =>
      simp only [instrs, List.cons_append, List.append_assoc, List.cons.injEq,
        Instr.partialOpen.injEq] at h
      obtain ⟨rfl, h⟩ := h
      obtain ⟨rfl, hrest⟩ := ihb (by simp [Instr.closes]) (by simp [Instr.closes]) h
      obtain ⟨rfl, rfl⟩ := ihr hx hy (List.cons.inj hrest).2
      exact ⟨rfl, rfl⟩
    | nil => exact absurd (hy _ (congrArg List.head? h).symm) (by simp [Instr.closes])
    | _ => simp [instrs] at h

/-- A list has at most one tree. -/
theorem instrs_inj {b c : Blocks} (h : b.instrs = c.instrs) : b = c :=
  (@instrs_append_inj b c [] [] (by simp) (by simp) (by simpa using h)).1

/-- What can follow a tree where `blocks` are open, if `final` are open at the end of the list:
nothing, or the close of the innermost block. -/
def Ends (blocks final : List BlockKind) (rest : List Instr) : Prop :=
  (rest = [] ∧ final = blocks) ∨
    ∃ i is block outer, rest = i :: is ∧ i.closed? = some block ∧ blocks = block :: outer ∧
      Instr.scan outer is = some final

theorem ends_of_closed? {blocks final : List BlockKind} {i : Instr} {is : List Instr}
    {block : BlockKind} (hi : i.closed? = some block)
    (h : Instr.scan blocks (i :: is) = some final) : Ends blocks final (i :: is) := by
  obtain ⟨inner, hinner, his⟩ := Option.bind_eq_some_iff.mp h
  rcases Instr.nest_cases hinner with ⟨_, hopened, -⟩ | ⟨top, htop, rfl⟩ | ⟨-, hclosed, -⟩
  · simp [Instr.opened?_eq_none hi] at hopened
  · exact .inr ⟨i, is, top, inner, rfl, htop, rfl, his⟩
  · simp [hi] at hclosed

/-- A list that closes all the blocks it opens begins with a tree. -/
theorem exists_of_scan {blocks final : List BlockKind} {instrs : List Instr}
    (h : Instr.scan blocks instrs = some final) (hle : final.length ≤ blocks.length) :
    ∃ (b : Blocks) (rest : List Instr), instrs = b.instrs ++ rest ∧ Ends blocks final rest := by
  induction hn : instrs.length using Nat.strongRecOn generalizing blocks instrs with
  | ind n ih =>
    cases instrs with
    | nil => exact ⟨nil, [], rfl, .inl ⟨rfl, (Option.some.inj h).symm⟩⟩
    | cons i is =>
      obtain ⟨inner, hinner, his⟩ := Option.bind_eq_some_iff.mp h
      rw [List.length_cons] at hn
      have hplain (hi : inner = blocks) :
          ∃ (b : Blocks) (rest : List Instr), is = b.instrs ++ rest ∧ Ends blocks final rest :=
        ih is.length (by omega) (hi ▸ his) hle rfl
      -- The body of a block is a tree up to the close, and so is what follows the close.
      have hblock (block : BlockKind) (hi : inner = block :: blocks) :
          ∃ (body next : Blocks) (j : Instr) (rest : List Instr),
            is = body.instrs ++ j :: (next.instrs ++ rest) ∧ j.closed? = some block ∧
              Ends blocks final rest := by
        subst hi
        obtain ⟨body, tail, rfl, htail⟩ :=
          ih is.length (by omega) his (Nat.le_succ_of_le hle) rfl
        rcases htail with ⟨-, rfl⟩ | ⟨j, js, top, outer, rfl, hj, houter, hjs⟩
        · exact absurd hle (by simp)
        · obtain ⟨rfl, rfl⟩ := List.cons.inj houter
          rw [List.length_append, List.length_cons] at hn
          obtain ⟨next, rest, rfl, hrest⟩ := ih js.length (by omega) hjs hle rfl
          exact ⟨body, next, j, rest, rfl, hj, hrest⟩
      cases i with
      | append pieces =>
        obtain ⟨b, rest, rfl, hrest⟩ := hplain (Option.some.inj hinner).symm
        exact ⟨append pieces b, rest, rfl, hrest⟩
      | includeInvoke target =>
        obtain ⟨b, rest, rfl, hrest⟩ := hplain (Option.some.inj hinner).symm
        exact ⟨includeInvoke target b, rest, rfl, hrest⟩
      | partialInvoke target =>
        obtain ⟨b, rest, rfl, hrest⟩ := hplain (Option.some.inj hinner).symm
        exact ⟨partialInvoke target b, rest, rfl, hrest⟩
      | ifOpen expr =>
        obtain ⟨body, next, j, rest, rfl, hj, hrest⟩ := hblock _ (Option.some.inj hinner).symm
        obtain rfl : j = .ifClose := by cases j <;> cases hj; rfl
        exact ⟨condition expr body next, rest, by simp [Blocks.instrs], hrest⟩
      | eachOpen expr frame =>
        obtain ⟨body, next, j, rest, rfl, hj, hrest⟩ := hblock _ (Option.some.inj hinner).symm
        obtain rfl : j = .eachClose frame := by cases j <;> cases hj; rfl
        exact ⟨loop expr frame body next, rest, by simp [Blocks.instrs], hrest⟩
      | includeOpen =>
        obtain ⟨body, next, j, rest, rfl, hj, hrest⟩ := hblock _ (Option.some.inj hinner).symm
        obtain ⟨target, rfl⟩ : ∃ target, j = .includeClose target := by
          cases j <;> cases hj
          exact ⟨_, rfl⟩
        exact ⟨inclusion body target next, rest, by simp [Blocks.instrs], hrest⟩
      | partialOpen name =>
        obtain ⟨body, next, j, rest, rfl, hj, hrest⟩ := hblock _ (Option.some.inj hinner).symm
        obtain rfl : j = .partialClose := by cases j <;> cases hj; rfl
        exact ⟨registration name body next, rest, by simp [Blocks.instrs], hrest⟩
      | ifClose | eachClose | includeClose | partialClose =>
        exact ⟨nil, _, rfl, ends_of_closed? rfl h⟩

/-- A well nested list has a tree. -/
theorem exists_instrs_eq {instrs : List Instr} (h : Instr.WellNested instrs) :
    ∃ b : Blocks, b.instrs = instrs := by
  obtain ⟨b, rest, rfl, hrest⟩ := exists_of_scan h (Nat.le_refl _)
  rcases hrest with ⟨rfl, -⟩ | ⟨_, _, _, _, -, -, hblocks, -⟩
  · exact ⟨b, (List.append_nil _).symm⟩
  · simp at hblocks

end Blocks

end HtmlTemplate
