import HtmlTemplate.Proofs.Emission.Nesting
import HtmlTemplate.Proofs.Emission.Registration
import HtmlTemplate.Proofs.Render.Parametric
import HtmlTemplate.Proofs.Render.Run

/-!
No registration is lost. A run can give each collector a number and know, at each place, the number
of the collector that the innermost include around handed out, unless a partial lies between
(`runTagged`). It raises an alarm if a partial is registered with no collector or with another one,
and if an include is made with a collector that is not its own. In compiled templates every partial
lies in an include with no other partial between, and none of these alarms is raised
(`instrs_collected`).
-/

namespace HtmlTemplate

structure Tagged (ρ σ : Type) where
  scope : Scope
  /-- The collectors with their numbers, innermost first. -/
  collectors : List (Nat × Partials ρ σ)
  out : Text
  /-- The number of collectors that there have been, and of the next one. -/
  made : Nat

namespace Tagged

variable {ρ σ : Type}

def machine (w : Tagged ρ σ) : Machine ρ σ := ⟨w.scope, w.collectors.map Prod.snd, w.out⟩

def numbers (w : Tagged ρ σ) : List Nat := w.collectors.map Prod.fst

def start (scope : Scope) : Tagged ρ σ := ⟨scope, [], [], 0⟩

def collect (w : Tagged ρ σ) : Tagged ρ σ :=
  { w with collectors := (w.made, .empty) :: w.collectors, made := w.made + 1 }

def enter (w : Tagged ρ σ) (outer : Scope) (count : Nat) (entry : Value × Value) : Tagged ρ σ :=
  { w with scope := (w.machine.enter outer count entry).scope }

/-- Does what only writes. -/
def lift (action : Machine ρ σ → RenderM σ (Machine ρ σ)) (w : Tagged ρ σ) :
    RenderM σ (Tagged ρ σ) := do
  let m ← action w.machine
  pure { w with out := m.out }

variable (alarm : RenderM σ (Tagged ρ σ))

/-- Adds a partial for the include whose collector has the number `around`. -/
def register (around : Option Nat) (name : Text) (p : Partial ρ σ) (w : Tagged ρ σ) :
    RenderM σ (Tagged ρ σ) :=
  match around, w.collectors with
  | some number, (top, partials) :: outer =>
    if top = number then pure { w with collectors := (top, partials.insert name p) :: outer }
    else alarm
  | _, _ => alarm

/-- Makes the include whose collector has the given number. -/
def handOut (rts : Runtimes ρ σ) (rt : ρ) (number : Nat) (closing : Option Op)
    (w : Tagged ρ σ) : RenderM σ (Tagged ρ σ) :=
  match w.collectors, closing with
  | (top, partials) :: outer, some (.callCollected call) =>
    if top = number then
      Tagged.lift (Program.callTemplate rts rt partials call) { w with collectors := outer }
    else alarm
  | _, _ => alarm

end Tagged

namespace Program

variable {ρ σ : Type} (alarm : RenderM σ (Tagged ρ σ)) (rts : Runtimes ρ σ)
  (inputs : Partials ρ σ)

/-- Runs the first `count` operations of a list, where `around` is the number of the collector for
the partials that are registered there. -/
def runTagged : (count : Nat) → (ops : List Op) → (around : Option Nat) → ρ → Tagged ρ σ →
    RenderM σ (Tagged ρ σ)
  | 0, _, _, _, w => pure w
  | _ + 1, [], _, _, w => pure w
  | count + 1, op :: rest, around, rt, w =>
    match op with
    | .append parts => do
      let w ← w.lift fun m => do
        let t ← .ofExcept (Part.writeAll m.scope (rts.library rt) parts)
        pure (m.write t)
      runTagged count rest around rt w
    | .branch condition body => do
      let v ← .ofExcept (condition.eval w.scope (rts.library rt))
      let w ← if Value.holds v then runTagged body rest around rt w else pure w
      runTagged (count - (body + 1)) (rest.drop (body + 1)) around rt w
    | .loop items body => do
      let v ← .ofExcept (items.evalOrNull w.scope (rts.library rt))
      let outer := w.scope
      let entries := v.entries
      let total := entries.length
      let w ← entries.foldlM
        (fun w entry => runTagged body rest around rt (w.enter outer total entry)) w
      runTagged (count - (body + 1)) (rest.drop (body + 1)) around rt { w with scope := outer }
    | .collect body => do
      let number := w.made
      let w ← runTagged body rest (some number) rt w.collect
      let w ← w.handOut alarm rts rt number rest[body]?
      runTagged (count - (body + 1)) (rest.drop (body + 1)) around rt w
    | .register name body => do
      let p : Partial ρ σ := fun rt data => do
        let inner ← runTagged body rest none rt (.start { w.scope with data })
        pure inner.out
      let w ← w.register alarm around name p
      runTagged (count - (body + 1)) (rest.drop (body + 1)) around rt w
    | .callInclude call => do
      let w ← w.lift (callTemplate rts rt .empty call)
      runTagged count rest around rt w
    | .callPartial call => do
      let w ← w.lift (callPartial rts rt inputs call)
      runTagged count rest around rt w
    | .callCollected _ | .close => runTagged count rest around rt w
termination_by _ ops => ops.length

/-- Runs a block by the instruction that opens it, as `runBlock` does, where `body` runs its body
for the collector with the given number. -/
def runTaggedBlock (body : Option Nat → ρ → Tagged ρ σ → RenderM σ (Tagged ρ σ))
    (closing : Option Op) (around : Option Nat) (rt : ρ) (w : Tagged ρ σ) :
    Instr → RenderM σ (Tagged ρ σ)
  | .ifOpen expr => do
    let v ← .ofExcept ((Formula.ofSource expr).eval w.scope (rts.library rt))
    if Value.holds v then body around rt w else pure w
  | .eachOpen expr _ => do
    let v ← .ofExcept ((Formula.ofSource expr).evalOrNull w.scope (rts.library rt))
    let last ← v.entries.foldlM
      (fun n entry => body around rt (n.enter w.scope v.entries.length entry)) w
    pure { last with scope := w.scope }
  | .includeOpen => do
    let last ← body (some w.made) rt w.collect
    last.handOut alarm rts rt w.made closing
  | .partialOpen name =>
    w.register alarm around name fun rt data => do
      let inner ← body none rt (.start { w.scope with data })
      pure inner.out
  | _ => pure w

@[simp] theorem runTagged_zero (ops : List Op) (around : Option Nat) (rt : ρ) (w : Tagged ρ σ) :
    runTagged alarm rts inputs 0 ops around rt w = pure w := by
  unfold runTagged
  rfl

@[simp] theorem lift_pure (w : Tagged ρ σ) : Tagged.lift pure w = pure w := rfl

theorem runTagged_cons_of_not_opens {i : Instr} (h : i.opens = false) (count : Nat)
    (is : List Instr) (around : Option Nat) (rt : ρ) (w : Tagged ρ σ) :
    runTagged alarm rts inputs (count + 1) (Instr.toOps (i :: is)) around rt w = (do
      let w ← w.lift fun m => step rts rt inputs m i
      runTagged alarm rts inputs count (Instr.toOps is) around rt w) := by
  rw [Instr.toOps]
  conv => lhs; unfold runTagged
  cases i with
  | append pieces => simp only [Instr.toOp, step]
  | ifOpen | eachOpen | includeOpen | partialOpen => simp [Instr.opens] at h
  | includeInvoke | partialInvoke => simp only [Instr.toOp, step]
  | _ => simp only [Instr.toOp, step, lift_pure, pure_bind]

theorem runTagged_cons_of_opens {i : Instr} (h : i.opens = true) (count : Nat) (is : List Instr)
    (around : Option Nat) (rt : ρ) (w : Tagged ρ σ) :
    runTagged alarm rts inputs (count + 1) (Instr.toOps (i :: is)) around rt w = (do
      let body := Instr.bodyLength 0 is
      let w ← runTaggedBlock alarm rts (runTagged alarm rts inputs body (Instr.toOps is))
        (Instr.toOps is)[body]? around rt w i
      runTagged alarm rts inputs (count - (body + 1)) (Instr.toOps (is.drop (body + 1))) around rt
        w) := by
  rw [Instr.toOps]
  conv => lhs; unfold runTagged
  cases i with
  | ifOpen expr =>
    simp only [Instr.toOp, runTaggedBlock, Instr.toOps_drop, bind_assoc]
    apply bind_congr
    intro v
    split <;> simp
  | eachOpen expr frame => simp [Instr.toOp, runTaggedBlock, Instr.toOps_drop]
  | includeOpen => simp only [Instr.toOp, runTaggedBlock, Instr.toOps_drop, bind_assoc]
  | partialOpen name => simp only [Instr.toOp, runTaggedBlock, Instr.toOps_drop]
  | _ => simp [Instr.opens] at h

/-! ## A tagged run follows the run -/

/-- The machine with the given numbers of its collectors. -/
structure Tracks (ns : List Nat) (w : Tagged ρ σ) (m : Machine ρ σ) : Prop where
  machine : w.machine = m
  numbers : w.numbers = ns

/-- From machines whose collectors have the given numbers, a tagged action does what the other one
does, and leaves these collectors. -/
def Follows (ns : List Nat) (tagged : ρ → Tagged ρ σ → RenderM σ (Tagged ρ σ))
    (plain : ρ → Machine ρ σ → RenderM σ (Machine ρ σ)) : Prop :=
  ∀ rt w, w.numbers = ns → RenderM.Relates Eq (Tracks ns) (tagged rt w) (plain rt w.machine)

/-- An action that adds to the output and does not touch the rest of the machine. -/
def Writes (action : Machine ρ σ → RenderM σ (Machine ρ σ)) : Prop :=
  ∀ m, ∃ text : RenderM σ Text, action m = do
    let t ← text
    pure (m.write t)

theorem callTemplate_writes (rt : ρ) (partials : Partials ρ σ) (call : Call) :
    Writes (callTemplate rts rt partials call) := by
  intro m
  refine ⟨do
    let data ← .ofExcept (call.data.evalOrNull m.scope (rts.library rt))
    rts.render rt data partials call.name, ?_⟩
  simp [callTemplate]

theorem callPartial_writes (rt : ρ) (call : Call) : Writes (callPartial rts rt inputs call) := by
  intro m
  unfold callPartial
  cases inputs.get? call.name with
  | none => exact ⟨pure [], by simp⟩
  | some p =>
    refine ⟨do
      let data ← .ofExcept (call.data.evalOrNull m.scope (rts.library rt))
      p rt data, ?_⟩
    simp

theorem step_writes {i : Instr} (h : i.opens = false) (rt : ρ) :
    Writes fun m => step rts rt inputs m i := by
  cases i with
  | append pieces => exact fun m => ⟨_, rfl⟩
  | ifOpen | eachOpen | includeOpen | partialOpen => simp [Instr.opens] at h
  | includeInvoke target => exact callTemplate_writes rts rt .empty (.ofTarget target)
  | partialInvoke target => exact callPartial_writes rts inputs rt (.ofTarget target)
  | _ => exact fun m => ⟨pure [], by simp [step]⟩

variable {ns : List Nat}

/-- What only writes does the same with numbers. -/
theorem Writes.follows {action : ρ → Machine ρ σ → RenderM σ (Machine ρ σ)}
    (h : ∀ rt, Writes (action rt)) : Follows ns (fun rt => Tagged.lift (action rt)) action := by
  intro rt w hw
  obtain ⟨text, htext⟩ := h rt w.machine
  simp only [Tagged.lift, htext, bind_assoc, pure_bind]
  refine (RenderM.Relates.refl (fun _ => rfl) text).bind ?_
  rintro t _ rfl
  exact .pure ⟨rfl, hw⟩

theorem Follows.bind {tagged tagged' : ρ → Tagged ρ σ → RenderM σ (Tagged ρ σ)}
    {plain plain' : ρ → Machine ρ σ → RenderM σ (Machine ρ σ)} (h : Follows ns tagged plain)
    (h' : Follows ns tagged' plain') :
    Follows ns (fun rt w => tagged rt w >>= tagged' rt) fun rt m => plain rt m >>= plain' rt := by
  intro rt w hw
  refine (h rt w hw).bind ?_
  rintro next _ ⟨rfl, hnext⟩
  exact h' rt next hnext

/-! ### Blocks -/

section

variable {tagged : Option Nat → ρ → Tagged ρ σ → RenderM σ (Tagged ρ σ)}
  {plain : ρ → Machine ρ σ → RenderM σ (Machine ρ σ)} {around : Option Nat}

theorem follows_ifOpen (h : Follows ns (tagged around) plain) (expr : Text) (closing : Option Op)
    (closing' : Option Instr) :
    Follows ns (fun rt w => runTaggedBlock alarm rts tagged closing around rt w (.ifOpen expr))
      fun rt m => runBlock rts rt plain closing' m (.ifOpen expr) := by
  intro rt w hw
  refine (RenderM.Relates.ofExcept _).bind ?_
  rintro v _ rfl
  split
  · exact h rt w hw
  · exact .pure ⟨rfl, hw⟩

theorem follows_eachOpen (h : Follows ns (tagged around) plain) (expr : Text) (frame : Nat)
    (closing : Option Op) (closing' : Option Instr) :
    Follows ns
      (fun rt w => runTaggedBlock alarm rts tagged closing around rt w (.eachOpen expr frame))
      fun rt m => runBlock rts rt plain closing' m (.eachOpen expr frame) := by
  intro rt w hw
  refine (RenderM.Relates.ofExcept _).bind ?_
  rintro v _ rfl
  have hentries := RenderM.Relates.foldlM (R := Eq) (Q := Tracks ns)
    (f := fun n entry => tagged around rt (n.enter w.scope v.entries.length entry))
    (g := fun n entry => plain rt (n.enter w.scope v.entries.length entry))
    (by
      rintro n _ entry ⟨rfl, hn⟩
      exact h rt (n.enter w.scope v.entries.length entry) hn)
    v.entries (a := w) (b := w.machine) ⟨rfl, hw⟩
  refine hentries.bind ?_
  rintro last _ ⟨rfl, hlast⟩
  exact .pure ⟨rfl, hlast⟩

/-- The include is handed the collector on top after its body, which is the one it made. -/
theorem follows_includeOpen (h : ∀ number, Follows (number :: ns) (tagged (some number)) plain)
    (target : Target) :
    Follows ns
      (fun rt w => runTaggedBlock alarm rts tagged (some (.callCollected (.ofTarget target)))
        around rt w .includeOpen)
      fun rt m => runBlock rts rt plain (some (.includeClose target)) m .includeOpen := by
  intro rt w hw
  refine (h w.made rt w.collect (congrArg (w.made :: ·) hw)).bind ?_
  rintro ⟨scope, collectors, out, made⟩ _ ⟨rfl, hlast⟩
  cases collectors with
  | nil => simp [Tagged.numbers] at hlast
  | cons top outer =>
    obtain ⟨htop, houter⟩ := List.cons.inj hlast
    simp only [Tagged.handOut, htop, if_true]
    exact Writes.follows (fun rt => callTemplate_writes rts rt top.2 (.ofTarget target)) rt
      ⟨scope, outer, out, made⟩ houter

/-- A partial is registered with the collector on top. -/
theorem follows_partialOpen {number : Nat} {outer : List Nat}
    (h : Follows [] (tagged none) plain) (name : Text) (closing : Option Op)
    (closing' : Option Instr) :
    Follows (number :: outer)
      (fun rt w => runTaggedBlock alarm rts tagged closing (some number) rt w (.partialOpen name))
      fun rt m => runBlock rts rt plain closing' m (.partialOpen name) := by
  rintro rt ⟨scope, collectors, out, made⟩ hw
  cases collectors with
  | nil => simp [Tagged.numbers] at hw
  | cons top collectors =>
    obtain ⟨rfl, houter⟩ := List.cons.inj hw
    have hpartial (rt : ρ) (data : Value) :
        (do
          let inner ← tagged none rt (.start { scope with data })
          pure inner.out) = (do
          let inner ← plain rt (.start { scope with data })
          pure inner.out) := by
      refine ((h rt (.start { scope with data }) rfl).bind ?_).eq
      rintro inner _ ⟨rfl, -⟩
      exact .pure rfl
    simp only [runTaggedBlock, Tagged.register, if_true, hpartial]
    exact .pure ⟨rfl, congrArg (top.1 :: ·) houter⟩

end

/-! ### Lists -/

/-- A tagged run of the first `count` operations follows the run. -/
def RunFollows (ns : List Nat) (around : Option Nat) (count : Nat) (ops : List Op) : Prop :=
  Follows ns (runTagged alarm rts inputs count ops around) fun rt m =>
    run rts rt inputs count ops m

variable {around : Option Nat} {count : Nat} {tail : List Instr}

theorem runFollows_zero (ops : List Op) : RunFollows alarm rts inputs ns around 0 ops := by
  intro rt w hw
  simpa using RenderM.Relates.pure ⟨rfl, hw⟩

theorem runFollows_step {i : Instr} (hi : i.opens = false) {rest : Blocks}
    (h : RunFollows alarm rts inputs ns around (rest.instrs.length + count)
      (Instr.toOps (rest.instrs ++ tail))) :
    RunFollows alarm rts inputs ns around ((i :: rest.instrs).length + count)
      (Instr.toOps (i :: rest.instrs ++ tail)) := by
  have hcount : (i :: rest.instrs).length + count = rest.instrs.length + count + 1 := by
    rw [List.length_cons]
    omega
  have hstep : Follows ns _ _ := Writes.follows (step_writes rts inputs hi)
  have hall := hstep.bind h
  rw [hcount, List.cons_append]
  intro rt w hw
  simp only [runTagged_cons_of_not_opens alarm rts inputs hi, run_cons_of_not_opens _ _ _ hi]
  exact hall rt w hw

theorem runFollows_block {i j : Instr} (hi : i.opens = true) (hj : j.closes = true)
    {body rest : Blocks}
    (hblock : Follows ns
      (fun rt w => runTaggedBlock alarm rts
        (runTagged alarm rts inputs body.instrs.length
          (Instr.toOps (body.instrs ++ j :: (rest.instrs ++ tail))))
        (some (j.toOp (rest.instrs ++ tail))) around rt w i)
      fun rt m => runBlock rts rt
        (fun rt m => run rts rt inputs body.instrs.length
          (Instr.toOps (body.instrs ++ j :: (rest.instrs ++ tail))) m)
        (some j) m i)
    (h : RunFollows alarm rts inputs ns around (rest.instrs.length + count)
      (Instr.toOps (rest.instrs ++ tail))) :
    RunFollows alarm rts inputs ns around
      ((i :: (body.instrs ++ j :: rest.instrs)).length + count)
      (Instr.toOps (i :: (body.instrs ++ j :: rest.instrs) ++ tail)) := by
  have hlist : i :: (body.instrs ++ j :: rest.instrs) ++ tail =
      i :: (body.instrs ++ j :: (rest.instrs ++ tail)) := by
    simp
  have hcount : (i :: (body.instrs ++ j :: rest.instrs)).length + count =
      body.instrs.length + 1 + (rest.instrs.length + count) + 1 := by
    simp only [List.length_cons, List.length_append]
    omega
  rw [hlist, hcount]
  generalize rest.instrs ++ tail = is at hblock h ⊢
  have hlength := body.bodyLength_body hj is
  have hclosing : (Instr.toOps (body.instrs ++ j :: is))[body.instrs.length]? =
      some (j.toOp is) := by
    rw [Instr.toOps_getElem?]
    simp [List.drop_append, List.drop_eq_nil_of_le]
  have hbehind : (body.instrs ++ j :: is).drop (body.instrs.length + 1) = is := by
    simp [List.drop_append]
  have hall := hblock.bind h
  intro rt w hw
  simp only [runTagged_cons_of_opens alarm rts inputs hi, run_closed _ _ _ hi hlength, hlength,
    hclosing, hbehind, Nat.add_sub_cancel_left]
  exact hall rt w hw

/-- Where a tree registers partials, the collector on top is the one of the include around. -/
theorem runFollows_instrs (b : Blocks) {collects : Bool} (hb : b.Registers collects)
    (haround : collects = true → ∃ number outer, ns = number :: outer ∧ around = some number)
    (h : RunFollows alarm rts inputs ns around count (Instr.toOps tail)) :
    RunFollows alarm rts inputs ns around (b.instrs.length + count)
      (Instr.toOps (b.instrs ++ tail)) := by
  induction b generalizing collects ns around count tail with
  | nil => simpa [Blocks.instrs] using h
  | append x rest ih | includeInvoke x rest ih | partialInvoke x rest ih =>
    exact runFollows_step alarm rts inputs (by rfl) (ih hb haround h)
  | condition expr body rest ihb ihr =>
    obtain ⟨hbody, hrest⟩ := hb
    refine runFollows_block alarm rts inputs rfl rfl ?_ (ihr hrest haround h)
    exact follows_ifOpen alarm rts (ihb hbody haround (runFollows_zero alarm rts inputs _)) _ _ _
  | loop expr frame body rest ihb ihr =>
    obtain ⟨hbody, hrest⟩ := hb
    refine runFollows_block alarm rts inputs rfl rfl ?_ (ihr hrest haround h)
    exact follows_eachOpen alarm rts (ihb hbody haround (runFollows_zero alarm rts inputs _)) _ _
      _ _
  | inclusion body target rest ihb ihr =>
    obtain ⟨hbody, hrest⟩ := hb
    refine runFollows_block alarm rts inputs rfl rfl ?_ (ihr hrest haround h)
    refine follows_includeOpen alarm rts (fun number => ?_) target
    exact ihb hbody (fun _ => ⟨number, ns, rfl, rfl⟩) (runFollows_zero alarm rts inputs _)
  | registration name body rest ihb ihr =>
    obtain ⟨hcollects, hbody, hrest⟩ := hb
    obtain ⟨number, outer, rfl, rfl⟩ := haround hcollects
    refine runFollows_block alarm rts inputs rfl rfl ?_ (ihr hrest haround h)
    exact follows_partialOpen alarm rts
      (ihb hbody (by simp) (runFollows_zero alarm rts inputs _)) name _ _

end Program

namespace Compile

/-- Every partial of a compiled template is registered from a place in an include with no other
partial between the two. Whenever it is, the collector on top is the one of this include, and the
include is handed this collector where it closes: a run that checks this raises no alarm, however
the alarm shows, and does what the program does. -/
theorem instrs_collected (source : Text) (options : Options) :
    (∀ before name after, instrs source options = before ++ .partialOpen name :: after →
      ∃ inner outer, Instr.scan [] before = some (inner ++ .inclusion :: outer) ∧
        .registration ∉ inner) ∧
    ∀ {ρ σ : Type} (alarm : RenderM σ (Tagged ρ σ)) (rts : Runtimes ρ σ) (inputs : Partials ρ σ)
      (rt : ρ) (scope : Scope),
      let ops := (Program.ofInstrs (instrs source options)).ops
      (do
        let w ← Program.runTagged alarm rts inputs ops.length ops none rt (.start scope)
        pure w.machine) = Program.run rts rt inputs ops.length ops (.start scope) := by
  obtain ⟨descent, hbalanced, hinstrs⟩ := exists_balanced source options
  have hscan : Instr.WellNested (instrs source options) := by
    rw [Instr.WellNested, hinstrs, Instr.scan_optimize]
    exact hbalanced.wellNested
  have hregisters := registers_instrs source options
  constructor
  · intro before name after hsplit
    rw [hsplit] at hscan hregisters
    obtain ⟨blocks, hblocks, -⟩ := Instr.scan_of_append hscan
    obtain ⟨hcollects, -⟩ := Instr.registers_of_scan hblocks hregisters
    obtain ⟨inner, outer, rfl, hinner⟩ := BlockKind.exists_of_collects (hcollects rfl)
    exact ⟨inner, outer, hblocks, hinner⟩
  · intro ρ σ alarm rts inputs rt scope
    obtain ⟨b, hb⟩ := Blocks.exists_instrs_eq hscan
    rw [← hb] at hregisters ⊢
    rw [← List.append_nil b.instrs] at hregisters
    obtain ⟨htree, -⟩ := Blocks.registers_instrs_append hregisters
    have hrun : Program.RunFollows alarm rts inputs [] none (b.instrs.length + 0)
        (Instr.toOps (b.instrs ++ [])) :=
      Program.runFollows_instrs alarm rts inputs b htree (by simp [BlockKind.collects])
        (Program.runFollows_zero alarm rts inputs _)
    simp only [Nat.add_zero, List.append_nil] at hrun
    simp only [Program.ofInstrs, Instr.length_toOps]
    rw [← bind_pure (Program.run rts rt inputs _ _ _)]
    refine ((hrun rt (.start scope) rfl).bind ?_).eq
    rintro w _ ⟨rfl, -⟩
    exact .pure rfl

end Compile

end HtmlTemplate
