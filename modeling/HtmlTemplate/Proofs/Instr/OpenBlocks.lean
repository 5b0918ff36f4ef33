import HtmlTemplate.Proofs.Instr.Extent

/-!
Programs in one pass, with a stack of the blocks that are open. A block that is opened reaches to
the end of the list at first, and the instruction that closes it sets its end. Of what kind the two
are is not compared, and a close without an open block sets nothing. The pass finds the bodies and
the depth that a program has (`program_eq_ofInstrs`).
-/

namespace HtmlTemplate

namespace Op

/-- Lets a block that is opened at `start` end at `stop`. -/
def endAt (start stop : Nat) : Op → Op
  | branch condition _ => branch condition (stop - (start + 1))
  | loop items _ => loop items (stop - (start + 1))
  | collect _ => collect (stop - (start + 1))
  | register name _ => register name (stop - (start + 1))
  | op => op

theorem endAt_endAt (start first last : Nat) (op : Op) :
    (op.endAt start first).endAt start last = op.endAt start last := by
  cases op <;> rfl

theorem endAt_toOp (start : Nat) (rest : List Instr) (i : Instr) :
    (i.toOp []).endAt start (start + 1 + Instr.bodyLength 0 rest) = i.toOp rest := by
  cases i <;> simp [Instr.toOp, endAt]

theorem endAt_toOp_of_not_opens {i : Instr} (h : i.opens = false) (start stop : Nat)
    (rest : List Instr) : (i.toOp []).endAt start stop = i.toOp rest := by
  cases i with
  | ifOpen | eachOpen | includeOpen | partialOpen => simp [Instr.opens] at h
  | _ => rfl

theorem modify_append {start : Nat} {ops : List Op} (h : start < ops.length) (f : Op → Op)
    (more : List Op) : (ops ++ more).modify start f = ops.modify start f ++ more := by
  induction ops generalizing start with
  | nil => simp at h
  | cons op ops ih =>
    cases start with
    | zero => rfl
    | succ start => simpa using ih (by simpa using h)

theorem modify_length_append (ops : List Op) (op : Op) (f : Op → Op) :
    (ops ++ [op]).modify ops.length f = ops ++ [f op] := by
  induction ops with
  | nil => rfl
  | cons _ ops ih => simpa using ih

end Op

structure Pass where
  ops : List Op
  /-- The positions where the open blocks start, the innermost first. -/
  opened : List Nat
  /-- The greatest number of blocks that were open at once. -/
  depth : Nat

namespace Pass

def start : Pass := ⟨[], [], 0⟩

/-- Closes the innermost of the open blocks, if there is one. -/
def close (p : Pass) : Pass :=
  match p.opened with
  | [] => p
  | start :: opened =>
    { p with ops := p.ops.modify start (Op.endAt start p.ops.length), opened }

def push (p : Pass) (op : Op) : Pass := ⟨p.ops ++ [op], p.opened, max p.depth p.opened.length⟩

/-- Goes on by an instruction of a list of this length. -/
def step (total : Nat) (p : Pass) (i : Instr) : Pass :=
  let op := (i.toOp []).endAt p.ops.length total
  if i.opens then push { p with opened := p.ops.length :: p.opened } op
  else if i.closes then p.close.push op
  else p.push op

def program (instrs : List Instr) : Program :=
  let p := instrs.foldl (step instrs.length) start
  ⟨p.ops, p.depth⟩

/-- The open blocks start at different operations, and each still reaches to the end of the list. -/
structure Open (total : Nat) (p : Pass) : Prop where
  lt_length : ∀ start ∈ p.opened, start < p.ops.length
  nodup : p.opened.Nodup
  unset : ∀ start ∈ p.opened, p.ops.modify start (Op.endAt start total) = p.ops
  le_depth : p.opened.length ≤ p.depth

namespace Open

variable {total : Nat} {p : Pass}

theorem start (total : Nat) : Open total .start where
  lt_length := List.forall_mem_nil _
  nodup := List.nodup_nil
  unset := List.forall_mem_nil _
  le_depth := Nat.le_refl 0

theorem close (h : Open total p) : Open total p.close := by
  obtain ⟨hlt, hnodup, hunset, hdepth⟩ := h
  unfold Pass.close
  split
  · exact ⟨hlt, hnodup, hunset, hdepth⟩
  · next start opened hopened =>
    rw [hopened] at hlt hnodup hunset hdepth
    obtain ⟨hstart, hnodup⟩ := List.nodup_cons.mp hnodup
    refine ⟨fun other hother => ?_, hnodup, fun other hother => ?_, Nat.le_of_succ_le hdepth⟩
    · simpa using hlt other (List.mem_cons_of_mem start hother)
    · have hne : start ≠ other := fun heq => hstart (heq ▸ hother)
      simp only
      rw [List.modify_modify_ne _ _ _ hne, hunset other (List.mem_cons_of_mem start hother)]

theorem push (h : Open total p) (op : Op) : Open total (p.push op) where
  lt_length start hstart := by
    rw [Pass.push, List.length_append]
    exact Nat.lt_add_right _ (h.lt_length start hstart)
  nodup := h.nodup
  unset start hstart := by
    simp only [Pass.push]
    rw [Op.modify_append (h.lt_length start hstart), h.unset start hstart]
  le_depth := Nat.le_max_right ..

theorem push_opened (h : Open total p) (op : Op) :
    Open total (Pass.push { p with opened := p.ops.length :: p.opened }
      (op.endAt p.ops.length total)) where
  lt_length := List.forall_mem_cons.mpr ⟨by simp [Pass.push], (h.push _).lt_length⟩
  nodup := List.nodup_cons.mpr ⟨fun hmem => Nat.lt_irrefl _ (h.lt_length _ hmem), h.nodup⟩
  unset := by
    refine List.forall_mem_cons.mpr ⟨?_, (h.push _).unset⟩
    simp only [Pass.push]
    rw [Op.modify_length_append, Op.endAt_endAt]
  le_depth := Nat.le_max_right ..

theorem step (h : Open total p) (i : Instr) : Open total (p.step total i) := by
  unfold Pass.step
  simp only
  split
  · exact h.push_opened _
  split
  · exact h.close.push _
  · exact h.push _

end Open

theorem length_close (p : Pass) : p.close.ops.length = p.ops.length := by
  unfold close
  split
  · rfl
  · exact List.length_modify ..

theorem length_step (total : Nat) (p : Pass) (i : Instr) :
    (p.step total i).ops.length = p.ops.length + 1 := by
  unfold step
  simp only
  split
  · exact List.length_append
  split
  · rw [← length_close p]
    exact List.length_append
  · exact List.length_append

/-- Sets the ends of blocks. Those of the innermost one, of the next one and so on are given by
`stop`. -/
def settle (stop : Nat → Nat) : List Nat → List Op → List Op
  | [], ops => ops
  | start :: opened, ops =>
    settle (fun k => stop (k + 1)) opened (ops.modify start (Op.endAt start (stop 0)))

theorem settle_append (stop : Nat → Nat) {opened : List Nat} {ops : List Op}
    (h : ∀ start ∈ opened, start < ops.length) (more : List Op) :
    settle stop opened (ops ++ more) = settle stop opened ops ++ more := by
  induction opened generalizing stop ops with
  | nil => rfl
  | cons start opened ih =>
    obtain ⟨hstart, hopened⟩ := List.forall_mem_cons.mp h
    rw [settle, settle, Op.modify_append hstart]
    exact ih _ (by simpa using hopened)

theorem settle_of_unset {total : Nat} {opened : List Nat} {ops : List Op}
    (h : ∀ start ∈ opened, ops.modify start (Op.endAt start total) = ops) :
    settle (fun _ => total) opened ops = ops := by
  induction opened with
  | nil => rfl
  | cons start opened ih =>
    obtain ⟨hstart, hopened⟩ := List.forall_mem_cons.mp h
    rw [settle, hstart]
    exact ih hopened

/-- Where the open blocks end if this is left of the list, the innermost first. -/
def stops (p : Pass) (rest : List Instr) (k : Nat) : Nat :=
  p.ops.length + Instr.bodyLength k rest

theorem stops_of_opens {i : Instr} (hopens : i.opens = true) (p : Pass) (rest : List Instr) :
    p.stops (i :: rest) = fun k => p.ops.length + 1 + Instr.bodyLength (k + 1) rest :=
  funext fun k => by simp [stops, Instr.bodyLength, hopens, Nat.add_assoc, Nat.add_comm 1]

theorem stops_zero_of_closes {i : Instr} (hopens : i.opens = false) (hcloses : i.closes = true)
    (p : Pass) (rest : List Instr) : p.stops (i :: rest) 0 = p.ops.length := by
  simp [stops, Instr.bodyLength, hopens, hcloses]

theorem stops_succ_of_closes {i : Instr} (hopens : i.opens = false) (hcloses : i.closes = true)
    (p : Pass) (rest : List Instr) :
    (fun k => p.stops (i :: rest) (k + 1)) =
      fun k => p.ops.length + 1 + Instr.bodyLength k rest :=
  funext fun k => by
    simp [stops, Instr.bodyLength, hopens, hcloses, Nat.add_assoc, Nat.add_comm 1]

theorem stops_of_not_closes {i : Instr} (hopens : i.opens = false) (hcloses : i.closes = false)
    (p : Pass) (rest : List Instr) :
    p.stops (i :: rest) = fun k => p.ops.length + 1 + Instr.bodyLength k rest :=
  funext fun k => by
    simp [stops, Instr.bodyLength, hopens, hcloses, Nat.add_assoc, Nat.add_comm 1]

/-- A step does not change where the open blocks end, and a block that it opens ends where the rest
of the list tells. -/
theorem settle_step {total : Nat} {p : Pass} (h : Open total p) (i : Instr) (rest : List Instr) :
    settle ((p.step total i).stops rest) (p.step total i).opened (p.step total i).ops =
      settle (p.stops (i :: rest)) p.opened p.ops ++ [i.toOp rest] := by
  have hstop : (p.step total i).stops rest = fun k => p.ops.length + 1 + Instr.bodyLength k rest :=
    funext fun k => by rw [stops, length_step]
  rw [hstop]
  unfold step
  cases hopens : i.opens with
  | true =>
    simp only [if_true, push, settle]
    rw [Op.modify_length_append, Op.endAt_endAt, Op.endAt_toOp, settle_append _ h.lt_length,
      stops_of_opens hopens]
  | false =>
    simp only [Bool.false_eq_true, if_false, Op.endAt_toOp_of_not_opens hopens _ _ rest]
    cases hcloses : i.closes with
    | true =>
      simp only [if_true, push]
      cases hopened : p.opened with
      | nil => simp [close, hopened, settle]
      | cons start opened =>
        have hlt := h.close.lt_length
        simp only [close, hopened] at hlt ⊢
        rw [settle_append _ hlt, settle, stops_succ_of_closes hopens hcloses,
          stops_zero_of_closes hopens hcloses]
    | false =>
      simp only [Bool.false_eq_true, if_false, push]
      rw [settle_append _ h.lt_length, stops_of_not_closes hopens hcloses]

theorem depth_step {total : Nat} {p : Pass} (h : Open total p) (i : Instr) (rest : List Instr) :
    max (p.step total i).depth (Instr.blockDepth (p.step total i).opened.length rest) =
      max p.depth (Instr.blockDepth p.opened.length (i :: rest)) := by
  have hdepth := h.le_depth
  have hle (level : Nat) := Instr.le_blockDepth level rest
  unfold step
  by_cases hopens : i.opens = true
  · have := hle (p.opened.length + 1)
    simp only [hopens, if_true, push, Instr.blockDepth, List.length_cons]
    omega
  by_cases hcloses : i.closes = true
  · have := hle (p.opened.length - 1)
    simp only [hopens, hcloses, Bool.false_eq_true, if_true, if_false, push, Instr.blockDepth]
    cases hopened : p.opened with
    | nil =>
      simp only [close, hopened, List.length_nil, Nat.zero_sub]
      omega
    | cons start opened =>
      simp only [close, hopened, List.length_cons, Nat.add_sub_cancel] at *
      omega
  · have := hle p.opened.length
    simp only [hopens, hcloses, Bool.false_eq_true, if_false, push, Instr.blockDepth]
    omega

/-- The pass over the rest of a list. -/
theorem foldl_step {total : Nat} {p : Pass} (h : Open total p) (rest : List Instr)
    (htotal : total = p.ops.length + rest.length) :
    (rest.foldl (step total) p).ops = settle (p.stops rest) p.opened p.ops ++ Instr.toOps rest ∧
      (rest.foldl (step total) p).depth = max p.depth (Instr.blockDepth p.opened.length rest) := by
  induction rest generalizing p with
  | nil =>
    obtain rfl : total = p.ops.length := htotal
    have hstops : p.stops [] = fun _ => p.ops.length := rfl
    rw [hstops, settle_of_unset h.unset]
    exact ⟨(List.append_nil _).symm, (Nat.max_eq_left h.le_depth).symm⟩
  | cons i rest ih =>
    obtain ⟨hops, hdepth⟩ := ih (h.step i) (by
      rw [htotal, length_step, List.length_cons]
      omega)
    rw [settle_step h] at hops
    rw [depth_step h] at hdepth
    exact ⟨by simpa [Instr.toOps] using hops, hdepth⟩

theorem program_eq_ofInstrs (instrs : List Instr) : program instrs = Program.ofInstrs instrs := by
  obtain ⟨hops, hdepth⟩ := foldl_step (Open.start instrs.length) instrs (Nat.zero_add _).symm
  rw [program, Program.ofInstrs, hops, hdepth]
  simp [start, settle]

end Pass

end HtmlTemplate
