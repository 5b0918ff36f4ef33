import HtmlTemplate.Proofs.Instr.OpenBlocks
import HtmlTemplate.Proofs.Instr.Ranges

/-!
Runs by position. A program counter goes through the operations of a program, jumps to the ends of
blocks and runs their bodies from there (`runAt`). On its way it can look for an operation where
there is none, take too many steps or descend into too many bodies, and each of these raises an
alarm. For the program of a list none of them happens (`runAt_eq_run`), so that the alarm has no
influence on the result (`run_in_range`).
-/

namespace HtmlTemplate

namespace Program

variable {ρ σ : Type} (alarm : RenderM σ (Machine ρ σ)) (rts : Runtimes ρ σ)
  (inputs : Partials ρ σ)

/-- Runs the operations from the position `pc` to before `stop`. No chain of jumps and of descents
into bodies is longer than `clock`, and of the descents there are `levels` at most. The body of a
registered partial counts as one where it is registered. -/
def runAt (ops : List Op) :
    (clock levels pc stop : Nat) → ρ → Machine ρ σ → RenderM σ (Machine ρ σ)
  | 0, _, pc, stop, _, m => if pc < stop then alarm else pure m
  | clock + 1, levels, pc, stop, rt, m =>
    if pc < stop then
      let inside (last : Nat) (rt : ρ) (m : Machine ρ σ) :=
        if levels = 0 then alarm else runAt ops clock (levels - 1) (pc + 1) last rt m
      let behind (last : Nat) (m : Machine ρ σ) := runAt ops clock levels (last + 1) stop rt m
      match ops[pc]? with
      | none => alarm
      | some (.append parts) => do
        let t ← .ofExcept (Part.writeAll m.scope (rts.library rt) parts)
        behind pc (m.write t)
      | some (.branch condition body) => do
        let last := pc + 1 + body
        let v ← .ofExcept (condition.eval m.scope (rts.library rt))
        let m ← if Value.holds v then inside last rt m else pure m
        behind last m
      | some (.loop items body) => do
        let last := pc + 1 + body
        let v ← .ofExcept (items.evalOrNull m.scope (rts.library rt))
        let outer := m.scope
        let entries := v.entries
        let total := entries.length
        let m ← entries.foldlM (fun m entry => inside last rt (m.enter outer total entry)) m
        behind last { m with scope := outer }
      | some (.collect body) => do
        let last := pc + 1 + body
        let m ← inside last rt m.collect
        let m ← callClosing rts rt ops[last]? m.collected.1 m.collected.2
        behind last m
      | some (.register name body) => do
        let last := pc + 1 + body
        let p : Partial ρ σ := fun rt data => do
          let inner ← inside last rt (.start { m.scope with data })
          pure inner.out
        behind last (m.register name p)
      | some (.callInclude call) => do
        let m ← callTemplate rts rt .empty call m
        behind pc m
      | some (.callPartial call) => do
        let m ← callPartial rts rt inputs call m
        behind pc m
      | some (.callCollected _) | some .close => behind pc m
    else pure m

variable {instrs : List Instr} {clock levels pc stop : Nat} {rt : ρ} {m : Machine ρ σ}

theorem runAt_of_le (h : stop ≤ pc) (ops : List Op) :
    runAt alarm rts inputs ops clock levels pc stop rt m = pure m := by
  cases clock with
  | zero => rw [runAt, if_neg (Nat.not_lt.mpr h)]
  | succ clock => rw [runAt, if_neg (Nat.not_lt.mpr h)]

theorem runAt_of_not_opens {i : Instr} (hi : instrs[pc]? = some i) (hopens : i.opens = false)
    (h : pc < stop) :
    runAt alarm rts inputs (Instr.toOps instrs) (clock + 1) levels pc stop rt m = (do
      let m ← step rts rt inputs m i
      runAt alarm rts inputs (Instr.toOps instrs) clock levels (pc + 1) stop rt m) := by
  rw [runAt, if_pos h, Instr.toOps_getElem?, hi]
  cases i with
  | append pieces => simp [Instr.toOp, step]
  | ifOpen | eachOpen | includeOpen | partialOpen => simp [Instr.opens] at hopens
  | _ => simp [Instr.toOp, step]

theorem runAt_of_opens {i : Instr} (hi : instrs[pc]? = some i) (hopens : i.opens = true)
    (h : pc < stop) :
    runAt alarm rts inputs (Instr.toOps instrs) (clock + 1) (levels + 1) pc stop rt m = (do
      let last := pc + 1 + Instr.bodyLength 0 (instrs.drop (pc + 1))
      let m ← runBlock rts rt
        (runAt alarm rts inputs (Instr.toOps instrs) clock levels (pc + 1) last) instrs[last]? m i
      runAt alarm rts inputs (Instr.toOps instrs) clock (levels + 1) (last + 1) stop rt m) := by
  rw [runAt, if_pos h, Instr.toOps_getElem?, hi]
  cases i with
  | ifOpen expr =>
    simp only [Option.map_some, Instr.toOp, runBlock, bind_assoc, Nat.succ_ne_zero, if_false,
      Nat.add_sub_cancel]
    apply bind_congr
    intro v
    split <;> simp
  | eachOpen expr frame => simp [Instr.toOp, runBlock]
  | includeOpen =>
    simp only [Option.map_some, Instr.toOp, runBlock, bind_assoc, Nat.succ_ne_zero, if_false,
      Nat.add_sub_cancel, Instr.toOps_getElem?, callClosing_toOp]
  | partialOpen name => simp [Instr.toOp, runBlock]
  | _ => simp [Instr.opens] at hopens

/-! ## The bounds hold on the way -/

/-- A range that is run with `level` blocks open around it, and `levels` more at most inside. -/
structure InRange (instrs : List Instr) (level levels pc stop : Nat) : Prop where
  le_length : stop ≤ instrs.length
  depth_le : Instr.blockDepth level (instrs.drop pc) ≤ level + levels
  /-- The range is in the body of the innermost block. -/
  le_body : level = 0 ∨ stop ≤ pc + Instr.bodyLength 0 (instrs.drop pc)

namespace InRange

variable {level : Nat} {i : Instr}

theorem all (instrs : List Instr) :
    InRange instrs 0 (ofInstrs instrs).depth 0 instrs.length where
  le_length := Nat.le_refl _
  depth_le := by
    rw [Nat.zero_add]
    exact Nat.le_refl _
  le_body := .inl rfl

theorem drop_eq (hi : instrs[pc]? = some i) : instrs.drop pc = i :: instrs.drop (pc + 1) := by
  obtain ⟨hlt, rfl⟩ := List.getElem?_eq_some_iff.mp hi
  exact List.drop_eq_getElem_cons hlt

/-- Behind an instruction that opens no block. -/
theorem step (h : InRange instrs level levels pc stop) (hi : instrs[pc]? = some i)
    (hopens : i.opens = false) (hlt : pc < stop) : InRange instrs level levels (pc + 1) stop := by
  obtain ⟨hlength, hdepth, hbody⟩ := h
  rw [drop_eq hi] at hdepth hbody
  simp only [Instr.blockDepth, Instr.bodyLength, hopens, Bool.false_eq_true, if_false]
    at hdepth hbody
  by_cases hcloses : i.closes = true
  · -- A close in the range closes none of the blocks around it.
    simp only [hcloses, if_true] at hdepth hbody
    obtain rfl : level = 0 := by omega
    rw [Nat.zero_sub] at hdepth
    exact ⟨hlength, by omega, .inl rfl⟩
  · simp only [hcloses, if_false, Bool.false_eq_true] at hdepth hbody
    exact ⟨hlength, by omega, by omega⟩

theorem levels_pos (h : InRange instrs level levels pc stop) (hi : instrs[pc]? = some i)
    (hopens : i.opens = true) : 0 < levels := by
  have hdepth := h.depth_le
  rw [drop_eq hi, Instr.blockDepth, if_pos hopens] at hdepth
  have hlevel := Instr.le_blockDepth (level + 1) (instrs.drop (pc + 1))
  omega

/-- The body of a block. -/
theorem body (h : InRange instrs level (levels + 1) pc stop) (hi : instrs[pc]? = some i)
    (hopens : i.opens = true) :
    InRange instrs (level + 1) levels (pc + 1)
      (pc + 1 + Instr.bodyLength 0 (instrs.drop (pc + 1))) := by
  have hdepth := h.depth_le
  rw [drop_eq hi, Instr.blockDepth, if_pos hopens] at hdepth
  have hlast := (lt_stop? (stop?_eq_some_iff.mpr ⟨i, hi, hopens, rfl⟩)).2
  exact ⟨hlast, by omega, .inr (Nat.le_refl _)⟩

/-- Behind a block. -/
theorem behind (h : InRange instrs level levels pc stop) (hi : instrs[pc]? = some i)
    (hopens : i.opens = true) :
    InRange instrs level levels
      (pc + 1 + Instr.bodyLength 0 (instrs.drop (pc + 1)) + 1) stop := by
  obtain ⟨hlength, hdepth, hbody⟩ := h
  rw [drop_eq hi] at hdepth hbody
  simp only [Instr.blockDepth, Instr.bodyLength, hopens, if_true] at hdepth hbody
  have hafter := Instr.blockDepth_drop_le 0 level (instrs.drop (pc + 1))
  have hsplit := Instr.bodyLength_succ_le 0 0 (instrs.drop (pc + 1))
  simp only [Nat.zero_add, List.drop_drop, ← Nat.add_assoc] at hafter hsplit hbody
  exact ⟨hlength, by omega, by omega⟩

end InRange

/-- With enough steps and levels a run by position is a run of the rest of the program. -/
theorem runAt_eq_run {level : Nat} (hrange : InRange instrs level levels pc stop)
    (hclock : instrs.length ≤ clock + pc) :
    runAt alarm rts inputs (Instr.toOps instrs) clock levels pc stop rt m =
      run rts rt inputs (stop - pc) (Instr.toOps (instrs.drop pc)) m := by
  induction clock generalizing level levels pc stop rt m with
  | zero =>
    have hle : stop ≤ pc := by
      have := hrange.le_length
      omega
    rw [runAt_of_le alarm rts inputs hle, Nat.sub_eq_zero_of_le hle, run_zero]
  | succ clock ih =>
    rcases Nat.lt_or_ge pc stop with hlt | hle
    · have hpc : pc < instrs.length := Nat.lt_of_lt_of_le hlt hrange.le_length
      obtain ⟨i, hi⟩ : ∃ i, instrs[pc]? = some i := ⟨_, List.getElem?_eq_getElem hpc⟩
      obtain ⟨count, hcount⟩ : ∃ count, stop - pc = count + 1 :=
        Nat.exists_eq_succ_of_ne_zero (by omega)
      rw [InRange.drop_eq hi, hcount]
      cases hopens : i.opens with
      | false =>
        rw [runAt_of_not_opens alarm rts inputs hi hopens hlt,
          run_cons_of_not_opens rts rt inputs hopens]
        apply bind_congr
        intro next
        rw [ih (hrange.step hi hopens hlt) (by omega)]
        congr 1
        omega
      | true =>
        obtain ⟨inner, rfl⟩ : ∃ inner, levels = inner + 1 :=
          Nat.exists_eq_succ_of_ne_zero (Nat.ne_of_gt (hrange.levels_pos hi hopens))
        rw [runAt_of_opens alarm rts inputs hi hopens hlt, run_cons_of_opens rts rt inputs hopens]
        have hbody (rt : ρ) (m : Machine ρ σ) :
            runAt alarm rts inputs (Instr.toOps instrs) clock inner (pc + 1)
                (pc + 1 + Instr.bodyLength 0 (instrs.drop (pc + 1))) rt m =
              run rts rt inputs (Instr.bodyLength 0 (instrs.drop (pc + 1)))
                (Instr.toOps (instrs.drop (pc + 1))) m := by
          rw [ih (hrange.body hi hopens) (by omega), Nat.add_sub_cancel_left]
        have hclosing : (instrs.drop (pc + 1))[Instr.bodyLength 0 (instrs.drop (pc + 1))]? =
            instrs[pc + 1 + Instr.bodyLength 0 (instrs.drop (pc + 1))]? := List.getElem?_drop
        simp only [funext fun rt => funext (hbody rt), hclosing]
        apply bind_congr
        intro next
        rw [ih (hrange.behind hi hopens) (by omega), List.drop_drop, ← Nat.add_assoc]
        congr 1
        omega
    · rw [runAt_of_le alarm rts inputs hle, Nat.sub_eq_zero_of_le hle, run_zero]

/-- The pass with a stack of open blocks makes the program of a list. Every block has an end behind
its start, blocks are apart or one inside the other, and in a well nested list a block ends where it
is closed. A run of the program by these ends raises no alarm, however the alarm shows: each
operation it looks for is there, no chain of steps is longer than the list, and the descents into
bodies are not deeper than the program is. -/
theorem run_in_range (instrs : List Instr) :
    Pass.program instrs = ofInstrs instrs ∧
    (∀ start, ((ofInstrs instrs).stop? start).isSome ↔
      ∃ i, instrs[start]? = some i ∧ i.opens = true) ∧
    (∀ start stop, (ofInstrs instrs).stop? start = some stop →
      start < stop ∧ stop ≤ (ofInstrs instrs).ops.length) ∧
    (∀ start stop inner last, (ofInstrs instrs).stop? start = some stop →
      (ofInstrs instrs).stop? inner = some last → start < inner → stop < inner ∨ last ≤ stop) ∧
    (Instr.WellNested instrs → ∀ start stop, (ofInstrs instrs).stop? start = some stop →
      Instr.ClosesAt instrs start stop) ∧
    ∀ {ρ σ : Type} (alarm : RenderM σ (Machine ρ σ)) (rts : Runtimes ρ σ) (inputs : Partials ρ σ)
      (clock : Nat) (rt : ρ) (m : Machine ρ σ), instrs.length ≤ clock →
      runAt alarm rts inputs (ofInstrs instrs).ops clock (ofInstrs instrs).depth 0
          (ofInstrs instrs).ops.length rt m =
        run rts rt inputs (ofInstrs instrs).ops.length (ofInstrs instrs).ops m := by
  have hlength : (ofInstrs instrs).ops.length = instrs.length := Instr.length_toOps instrs
  rw [hlength]
  refine ⟨Pass.program_eq_ofInstrs instrs, fun _ => isSome_stop?, fun _ _ => lt_stop?,
    fun _ _ _ _ => stop?_laminar, fun h _ _ => Instr.closesAt_of_stop? h, ?_⟩
  intro ρ σ alarm rts inputs clock rt m hclock
  exact runAt_eq_run alarm rts inputs (InRange.all instrs) hclock

/-- A condition around an include: the condition ends at the last instruction. -/
theorem run_in_range_nested :
    Instr.WellNested [.ifOpen "a", .includeOpen, .includeClose ⟨"t", "data"⟩, .ifClose] ∧
      Instr.ClosesAt [.ifOpen "a", .includeOpen, .includeClose ⟨"t", "data"⟩, .ifClose] 0 3 := by
  have hnested :
      Instr.WellNested [.ifOpen "a", .includeOpen, .includeClose ⟨"t", "data"⟩, .ifClose] := rfl
  exact ⟨hnested, (run_in_range _).2.2.2.2.1 hnested 0 3 rfl⟩

end Program

end HtmlTemplate
