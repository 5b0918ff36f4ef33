import HtmlTemplate.Render.Template

/-!
Runs of programs, block by block. An instruction that opens no block is a step (`step`), and a
block is run as a whole, given how its body runs (`runBlock`); a run of the operations of a list is
a sequence of these (`run_cons_of_opens`, `run_cons_of_not_opens`).
-/

namespace HtmlTemplate

namespace Instr

theorem toOps_drop (k : Nat) (instrs : List Instr) :
    (toOps instrs).drop k = toOps (instrs.drop k) := by
  induction instrs generalizing k with
  | nil => simp [toOps]
  | cons i is ih =>
    cases k with
    | zero => rfl
    | succ k => exact ih k

theorem toOps_getElem? (k : Nat) (instrs : List Instr) :
    (toOps instrs)[k]? = instrs[k]?.map (toOp (instrs.drop (k + 1))) := by
  induction instrs generalizing k with
  | nil => rfl
  | cons i is ih =>
    cases k with
    | zero => rfl
    | succ k => exact ih k

theorem length_toOps (instrs : List Instr) : (toOps instrs).length = instrs.length := by
  induction instrs with
  | nil => rfl
  | cons i is ih => simp [toOps, ih]

end Instr

namespace Machine

variable {ρ σ : Type}

@[simp] theorem write_nil (m : Machine ρ σ) : m.write [] = m := by
  simp [write]

@[simp] theorem write_write (m : Machine ρ σ) (t u : Text) :
    (m.write t).write u = m.write (t ++ u) := by
  simp [write]

@[simp] theorem write_scope (m : Machine ρ σ) (t : Text) : (m.write t).scope = m.scope := rfl

end Machine

namespace Program

variable {ρ σ : Type} (rts : Runtimes ρ σ) (rt : ρ) (inputs : Partials ρ σ)

def step (m : Machine ρ σ) : Instr → RenderM σ (Machine ρ σ)
  | .append pieces => do
    let t ← .ofExcept (Part.writeAll m.scope (rts.library rt) (pieces.map .ofPiece))
    pure (m.write t)
  | .includeInvoke target => callTemplate rts rt .empty (.ofTarget target) m
  | .partialInvoke target => callPartial rts rt inputs (.ofTarget target) m
  | _ => pure m

/-- Runs a block by the instruction that opens it, where `body` runs its body in a runtime and
`closing` is the instruction that closes it, if there is one. -/
def runBlock (body : ρ → Machine ρ σ → RenderM σ (Machine ρ σ)) (closing : Option Instr)
    (m : Machine ρ σ) : Instr → RenderM σ (Machine ρ σ)
  | .ifOpen expr => do
    let v ← .ofExcept ((Formula.ofSource expr).eval m.scope (rts.library rt))
    if Value.holds v then body rt m else pure m
  | .eachOpen expr _ => do
    let v ← .ofExcept ((Formula.ofSource expr).evalOrNull m.scope (rts.library rt))
    let last ← v.entries.foldlM
      (fun n entry => body rt (n.enter m.scope v.entries.length entry)) m
    pure { last with scope := m.scope }
  | .includeOpen => do
    let m ← body rt m.collect
    match closing with
    | some (.includeClose target) =>
      callTemplate rts rt m.collected.1 (.ofTarget target) m.collected.2
    | _ => pure m.collected.2
  | .partialOpen name =>
    pure (m.register name fun rt data => do
      let inner ← body rt (.start { m.scope with data })
      pure inner.out)
  | _ => pure m

@[simp] theorem run_zero (ops : List Op) (m : Machine ρ σ) :
    run rts rt inputs 0 ops m = pure m := by
  unfold run
  rfl

@[simp] theorem run_nil (count : Nat) (m : Machine ρ σ) :
    run rts rt inputs count [] m = pure m := by
  cases count <;> unfold run <;> rfl

theorem callClosing_toOp (closing : Option Instr) (rest : List Instr) (partials : Partials ρ σ)
    (m : Machine ρ σ) :
    callClosing rts rt (closing.map (Instr.toOp rest)) partials m =
      match closing with
      | some (.includeClose target) => callTemplate rts rt partials (.ofTarget target) m
      | _ => pure m := by
  cases closing with
  | none => rfl
  | some i => cases i <;> rfl

theorem run_cons_of_not_opens {i : Instr} (h : i.opens = false) (count : Nat) (is : List Instr)
    (m : Machine ρ σ) :
    run rts rt inputs (count + 1) (Instr.toOps (i :: is)) m = (do
      let m ← step rts rt inputs m i
      run rts rt inputs count (Instr.toOps is) m) := by
  rw [Instr.toOps]
  conv => lhs; unfold run
  cases i with
  | append pieces => simp [Instr.toOp, step]
  | ifOpen | eachOpen | includeOpen | partialOpen => simp [Instr.opens] at h
  | _ => simp [Instr.toOp, step]

theorem run_cons_of_opens {i : Instr} (h : i.opens = true) (count : Nat) (is : List Instr)
    (m : Machine ρ σ) :
    run rts rt inputs (count + 1) (Instr.toOps (i :: is)) m = (do
      let body := Instr.bodyLength 0 is
      let m ← runBlock rts rt (fun rt m => run rts rt inputs body (Instr.toOps is) m) is[body]? m i
      run rts rt inputs (count - (body + 1)) (Instr.toOps (is.drop (body + 1))) m) := by
  rw [Instr.toOps]
  conv => lhs; unfold run
  cases i with
  | ifOpen expr =>
    simp only [Instr.toOp, runBlock, Instr.toOps_drop, bind_assoc]
    apply bind_congr
    intro v
    split <;> simp
  | eachOpen expr frame => simp [Instr.toOp, runBlock, Instr.toOps_drop]
  | includeOpen =>
    simp only [Instr.toOp, runBlock, Instr.toOps_drop, Instr.toOps_getElem?, callClosing_toOp,
      bind_assoc]
  | partialOpen name => simp [Instr.toOp, runBlock, Instr.toOps_drop]
  | _ => simp [Instr.opens] at h

/-- A block that is closed. -/
theorem run_closed {i : Instr} (h : i.opens = true) {j : Instr} {body is : List Instr}
    (hbody : Instr.bodyLength 0 (body ++ j :: is) = body.length) (count : Nat)
    (m : Machine ρ σ) :
    run rts rt inputs (count + 1) (Instr.toOps (i :: (body ++ j :: is))) m = (do
      let m ← runBlock rts rt
        (fun rt m => run rts rt inputs body.length (Instr.toOps (body ++ j :: is)) m) (some j) m i
      run rts rt inputs (count - (body.length + 1)) (Instr.toOps is) m) := by
  have hclosing : (body ++ j :: is)[body.length]? = some j := by simp
  have hbehind : (body ++ j :: is).drop (body.length + 1) = is := by simp [List.drop_append]
  rw [run_cons_of_opens rts rt inputs h]
  simp only [hbody, hclosing, hbehind]

/-- A block that reaches to the end. -/
theorem run_unclosed {i : Instr} (h : i.opens = true) {body : List Instr}
    (hbody : Instr.bodyLength 0 body = body.length) (count : Nat) (m : Machine ρ σ) :
    run rts rt inputs (count + 1) (Instr.toOps (i :: body)) m =
      runBlock rts rt (fun rt m => run rts rt inputs body.length (Instr.toOps body) m)
        none m i := by
  have hclosing : body[body.length]? = none := by simp
  have hbehind : body.drop (body.length + 1) = [] := List.drop_eq_nil_of_le (Nat.le_succ _)
  rw [run_cons_of_opens rts rt inputs h]
  simp only [hbody, hclosing, hbehind, Instr.toOps, run_nil, bind_pure]

end Program

end HtmlTemplate
