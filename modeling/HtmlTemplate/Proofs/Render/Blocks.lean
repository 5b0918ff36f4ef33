import HtmlTemplate.Proofs.Render.Evaluation
import HtmlTemplate.Proofs.Render.Run

/-!
Rendering by structure. The run of a program that holds the instructions of a block tree adds the
outcome of the tree to the machine (`run_instrs`), so a well nested template renders as its tree is
evaluated (`render_eq_blocks`).
-/

namespace HtmlTemplate

theorem RenderM.ofExcept_map {σ α β : Type} (f : α → β) (r : Except RenderError α) :
    (RenderM.ofExcept (r.map f) : RenderM σ β) = (do
      let a ← .ofExcept r
      pure (f a)) := by
  cases r with
  | ok a => rfl
  | error e => rfl

theorem Formula.ofExcept_evalOrNull {σ : Type} (f : Formula) (scope : Scope) (library : Library) :
    (.ofExcept (f.evalOrNull scope library) : RenderM σ Value) = (do
      let v ← .ofExcept (f.eval scope library)
      pure (v.getD .null)) :=
  RenderM.ofExcept_map _ _

namespace Machine

variable {ρ σ : Type}

/-- Adds an outcome: its output, and its partials for the innermost include. -/
def absorb (m : Machine ρ σ) (o : Outcome ρ σ) : Machine ρ σ where
  scope := m.scope
  collectors :=
    match m.collectors with
    | [] => []
    | c :: cs => o.partials.foldl (fun t (name, p) => t.insert name p) c :: cs
  out := m.out ++ o.text

@[simp] theorem absorb_scope (m : Machine ρ σ) (o : Outcome ρ σ) :
    (m.absorb o).scope = m.scope := rfl

@[simp] theorem collect_scope (m : Machine ρ σ) : m.collect.scope = m.scope := rfl

@[simp] theorem start_scope (scope : Scope) : (start scope : Machine ρ σ).scope = scope := rfl

@[simp] theorem register_scope (m : Machine ρ σ) (name : Text) (p : Partial ρ σ) :
    (m.register name p).scope = m.scope := by
  unfold register
  split <;> rfl

@[simp] theorem start_absorb_out (scope : Scope) (o : Outcome ρ σ) :
    ((start scope).absorb o).out = o.text := rfl

@[simp] theorem absorb_written (m : Machine ρ σ) (t : Text) :
    m.absorb (.written t) = m.write t := by
  obtain ⟨scope, collectors, out⟩ := m
  cases collectors <;> rfl

@[simp] theorem absorb_empty (m : Machine ρ σ) : m.absorb .empty = m := by
  obtain ⟨scope, collectors, out⟩ := m
  cases collectors <;> simp [absorb, Outcome.empty]

@[simp] theorem absorb_append (m : Machine ρ σ) (o p : Outcome ρ σ) :
    m.absorb (o.append p) = (m.absorb o).absorb p := by
  obtain ⟨scope, collectors, out⟩ := m
  cases collectors <;> simp [absorb, Outcome.append]

@[simp] theorem absorb_registered (m : Machine ρ σ) (name : Text) (p : Partial ρ σ) :
    m.absorb ⟨[], [(name, p)]⟩ = m.register name p := by
  obtain ⟨scope, collectors, out⟩ := m
  cases collectors <;> simp [absorb, register]

/-- An include hands out the partials of its body and no others. -/
@[simp] theorem collected_absorb_collect (m : Machine ρ σ) (o : Outcome ρ σ) :
    (m.collect.absorb o).collected = (o.handedOut, m.write o.text) := by
  rw [Outcome.handedOut_eq_ofList]
  rfl

@[simp] theorem enter_scope (m : Machine ρ σ) (outer : Scope) (count : Nat)
    (entry : Value × Value) (h : m.scope.root = outer.root) :
    (m.enter outer count entry).scope = outer.round count entry.1 entry.2 := by
  rw [Scope.round, ← h]
  rfl

end Machine

namespace Program

variable {ρ σ : Type} (rts : Runtimes ρ σ) (rt : ρ) (inputs : Partials ρ σ)

theorem callTemplate_ofTarget (partials : Partials ρ σ) (target : Target) (m : Machine ρ σ) :
    callTemplate rts rt partials (.ofTarget target) m = (do
      let t ← Blocks.includeText rts rt m.scope partials target
      pure (m.write t)) := by
  simp [callTemplate, Blocks.includeText, Call.ofTarget, Formula.ofExcept_evalOrNull]

theorem callPartial_ofTarget (target : Target) (m : Machine ρ σ) :
    callPartial rts rt inputs (.ofTarget target) m = (do
      let t ← Blocks.partialText rts inputs rt m.scope target
      pure (m.write t)) := by
  simp only [callPartial, Blocks.partialText, Call.ofTarget]
  cases inputs.get? target.name with
  | none => simp
  | some p => simp [Formula.ofExcept_evalOrNull]

/-- A loop whose body gives an outcome in each scope. -/
theorem foldlM_enter (eval : Scope → RenderM σ (Outcome ρ σ)) {outer : Scope} (count : Nat)
    (entries : List (Value × Value)) (m : Machine ρ σ) (h : m.scope.root = outer.root) :
    (do
      let last ← entries.foldlM (fun (n : Machine ρ σ) entry => do
        let o ← eval (n.enter outer count entry).scope
        pure ((n.enter outer count entry).absorb o)) m
      pure { last with scope := outer }) = (do
      let os ← entries.mapM fun (key, item) => eval (outer.round count key item)
      pure ({ m with scope := outer }.absorb (.concat os))) := by
  induction entries generalizing m with
  | nil => simp [Outcome.concat]
  | cons entry entries ih =>
    have hscope := m.enter_scope outer count entry h
    simp only [List.foldlM_cons, List.mapM_cons, bind_assoc, pure_bind, hscope]
    apply bind_congr
    intro o
    rw [ih _ (by simp [hscope, Scope.round])]
    apply bind_congr
    intro os
    have hconcat : Outcome.concat (o :: os) = o.append (.concat os) := rfl
    rw [hconcat, Machine.absorb_append]
    rfl

theorem runBlock_eachOpen (eval : ρ → Scope → RenderM σ (Outcome ρ σ)) (closing : Option Instr)
    (m : Machine ρ σ) (expr : Text) (frame : Nat) :
    runBlock rts rt (fun rt m => do
        let o ← eval rt m.scope
        pure (m.absorb o)) closing m (.eachOpen expr frame) = (do
      let v ← .ofExcept ((Formula.ofSource expr).eval m.scope (rts.library rt))
      let os ← (m.scope.rounds v).mapM fun inner => eval rt inner
      pure (m.absorb (.concat os))) := by
  rw [runBlock, Formula.ofExcept_evalOrNull, bind_assoc]
  refine bind_congr fun v => ?_
  rw [pure_bind, Scope.rounds_eq_map, List.mapM_map]
  exact foldlM_enter (eval rt) _ _ m rfl

/-- An instruction that opens no block, in front of a tree that runs as it is evaluated. -/
theorem run_instrs_step {i : Instr} (h : i.opens = false) {rest : Blocks} {count : Nat}
    {tail : List Instr}
    (hrest : ∀ m : Machine ρ σ,
      run rts rt inputs (rest.instrs.length + count) (Instr.toOps (rest.instrs ++ tail)) m = (do
        let o ← rest.eval rts inputs rt m.scope
        run rts rt inputs count (Instr.toOps tail) (m.absorb o)))
    (m : Machine ρ σ) :
    run rts rt inputs ((i :: rest.instrs).length + count)
        (Instr.toOps (i :: rest.instrs ++ tail)) m = (do
      let m ← step rts rt inputs m i
      let o ← rest.eval rts inputs rt m.scope
      run rts rt inputs count (Instr.toOps tail) (m.absorb o)) := by
  have hcount : (i :: rest.instrs).length + count = rest.instrs.length + count + 1 := by
    rw [List.length_cons]
    omega
  rw [hcount, List.cons_append, run_cons_of_not_opens rts rt inputs h]
  exact bind_congr hrest

/-- A block, if its body and the tree behind it run as they are evaluated. -/
theorem run_instrs_block {i j : Instr} (hi : i.opens = true) (hj : j.closes = true)
    {body rest : Blocks} {count : Nat} {tail : List Instr}
    (hbody : ∀ (rt : ρ) (count : Nat) (tail : List Instr) (m : Machine ρ σ),
      run rts rt inputs (body.instrs.length + count) (Instr.toOps (body.instrs ++ tail)) m = (do
        let o ← body.eval rts inputs rt m.scope
        run rts rt inputs count (Instr.toOps tail) (m.absorb o)))
    (hrest : ∀ m : Machine ρ σ,
      run rts rt inputs (rest.instrs.length + count) (Instr.toOps (rest.instrs ++ tail)) m = (do
        let o ← rest.eval rts inputs rt m.scope
        run rts rt inputs count (Instr.toOps tail) (m.absorb o)))
    (m : Machine ρ σ) :
    run rts rt inputs ((i :: (body.instrs ++ j :: rest.instrs)).length + count)
        (Instr.toOps (i :: (body.instrs ++ j :: rest.instrs) ++ tail)) m = (do
      let m ← runBlock rts rt (fun rt m => do
        let o ← body.eval rts inputs rt m.scope
        pure (m.absorb o)) (some j) m i
      let o ← rest.eval rts inputs rt m.scope
      run rts rt inputs count (Instr.toOps tail) (m.absorb o)) := by
  have hlist : i :: (body.instrs ++ j :: rest.instrs) ++ tail =
      i :: (body.instrs ++ j :: (rest.instrs ++ tail)) := by
    simp
  have hcount : (i :: (body.instrs ++ j :: rest.instrs)).length + count =
      body.instrs.length + 1 + (rest.instrs.length + count) + 1 := by
    simp only [List.length_cons, List.length_append]
    omega
  have hinner (rt : ρ) (m : Machine ρ σ) :
      run rts rt inputs body.instrs.length
          (Instr.toOps (body.instrs ++ j :: (rest.instrs ++ tail))) m = (do
        let o ← body.eval rts inputs rt m.scope
        pure (m.absorb o)) := by
    simpa using hbody rt 0 (j :: (rest.instrs ++ tail)) m
  rw [hlist, hcount, run_closed rts rt inputs hi (body.bodyLength_body hj (rest.instrs ++ tail)),
    Nat.add_sub_cancel_left]
  simp only [hinner]
  exact bind_congr hrest

/-- Running the instructions of a tree adds its outcome. -/
theorem run_instrs (b : Blocks) (count : Nat) (tail : List Instr) (m : Machine ρ σ) :
    run rts rt inputs (b.instrs.length + count) (Instr.toOps (b.instrs ++ tail)) m = (do
      let o ← b.eval rts inputs rt m.scope
      run rts rt inputs count (Instr.toOps tail) (m.absorb o)) := by
  induction b generalizing rt count tail m with
  | nil => simp [Blocks.instrs, Blocks.eval]
  | append pieces rest ih =>
    refine (run_instrs_step rts rt inputs rfl (ih rt count tail) m).trans ?_
    simp [step, Blocks.eval, Piece.writeAll_map_ofPiece, RenderM.ofExcept_map]
  | includeInvoke target rest ih =>
    refine (run_instrs_step rts rt inputs rfl (ih rt count tail) m).trans ?_
    simp [step, Blocks.eval, callTemplate_ofTarget]
  | partialInvoke target rest ih =>
    refine (run_instrs_step rts rt inputs rfl (ih rt count tail) m).trans ?_
    simp [step, Blocks.eval, callPartial_ofTarget]
  | condition expr body rest ihb ihr =>
    refine (run_instrs_block rts rt inputs rfl rfl ihb (ihr rt count tail) m).trans ?_
    simp only [runBlock, Blocks.eval, bind_assoc, pure_bind]
    apply bind_congr
    intro v
    by_cases hv : Value.IsFalsy v
    · simp [hv, Value.isFalsy_iff.mp hv]
    · simp [hv, Value.not_isFalsy_iff.mp hv]
  | loop expr frame body rest ihb ihr =>
    refine (run_instrs_block rts rt inputs rfl rfl ihb (ihr rt count tail) m).trans ?_
    rw [runBlock_eachOpen rts rt (body.eval rts inputs)]
    simp [Blocks.eval]
  | inclusion body target rest ihb ihr =>
    refine (run_instrs_block rts rt inputs rfl rfl ihb (ihr rt count tail) m).trans ?_
    simp [runBlock, Blocks.eval, callTemplate_ofTarget]
  | registration name body rest ihb ihr =>
    refine (run_instrs_block rts rt inputs rfl rfl ihb (ihr rt count tail) m).trans ?_
    simp [runBlock, Blocks.eval]

end Program

namespace Template

/-- The instructions of blocks render as the blocks. -/
theorem render_instrs {ρ σ : Type} (rts : Runtimes ρ σ) (rt : ρ) (b : Blocks) (data : Value)
    (partials : Partials ρ σ) :
    (ofInstrs b.instrs).render rts rt data partials = b.render rts rt data partials := by
  have hdepth : Instr.blockDepth 0 b.instrs = b.depth := by
    have hall := b.blockDepth_instrs 0 []
    simpa [Instr.blockDepth] using hall
  have hrun (m : Machine ρ σ) :
      Program.run rts rt partials b.instrs.length (Instr.toOps b.instrs) m = (do
        let o ← b.eval rts partials rt m.scope
        pure (m.absorb o)) := by
    simpa using Program.run_instrs rts rt partials b 0 [] m
  simp only [render, ofInstrs, Program.ofInstrs, hdepth, Instr.length_toOps, hrun, Blocks.render,
    bind_assoc, pure_bind, Machine.start_scope, Machine.start_absorb_out]

/-- A well nested template renders as the structure of its blocks, of which there is one. -/
theorem render_eq_blocks {instrs : List Instr} (h : Instr.WellNested instrs) :
    ∃ b : Blocks, b.instrs = instrs ∧ (∀ c : Blocks, c.instrs = instrs → c = b) ∧
      ∀ {ρ σ : Type} (rts : Runtimes ρ σ) (rt : ρ) (data : Value) (partials : Partials ρ σ),
        (ofInstrs instrs).render rts rt data partials = b.render rts rt data partials := by
  obtain ⟨b, rfl⟩ := Blocks.exists_instrs_eq h
  exact ⟨b, rfl, fun c hc => Blocks.instrs_inj hc,
    fun rts rt data partials => render_instrs rts rt b data partials⟩

/-- Loops over an object and the arrays in it, in a partial that replaces one of its name and that
the include calls. After the inner loop the key of the outer one is back. -/
theorem render_eq_blocks_loops :
    let item : Blocks :=
      .condition "data" (.append [.value ⟨"key", []⟩, .text "=", .value ⟨"data", []⟩] .nil) .nil
    let row : Blocks := .loop "data" 1 item (.append [.text "@", .value ⟨"key", []⟩] .nil)
    let b : Blocks := .inclusion (.registration "rows" (.append [.text "-"] .nil)
      (.registration "rows" (.loop "data" 0 row .nil) .nil)) ⟨"table", "data"⟩ .nil
    let rts : Runtimes Library Unit := ⟨id, fun rt data partials name =>
      (partials.get? "rows").elim (pure []) fun rows => (name ++ ·) <$> rows rt data⟩
    let data : Value := .object [("a".toList, .array [.string "x", .number (.int 0), .bool true]),
      ("b".toList, .array [])]
    Instr.WellNested b.instrs ∧
      (ofInstrs b.instrs).render rts .empty data .empty = pure "table0=x2=true@a@b".toList := by
  intro item row b rts data
  have hnested : Instr.WellNested b.instrs := by decide
  obtain ⟨c, -, hunique, hrender⟩ := render_eq_blocks hnested
  obtain rfl : b = c := hunique b rfl
  refine ⟨hnested, ?_⟩
  rw [hrender]
  rfl

end Template

end HtmlTemplate
