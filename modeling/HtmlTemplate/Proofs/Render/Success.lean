import HtmlTemplate.Proofs.Library.Escaping
import HtmlTemplate.Proofs.Render.Parametric
import HtmlTemplate.Proofs.Render.Run

/-!
Templates that cannot fail. What can go wrong is told by the instructions and the library: a text
that is no expression, a name that the library does not have, an include, and blocks that nest too
deep. Without these a template renders for all data (`render_succeeds`). Each construct is shown to
succeed if its parts do, from expressions (`eval_of_known`) over appends and blocks to runs of any
list of instructions, nested well or not (`run_succeeds`).
-/

namespace HtmlTemplate

/-! ## Names and expressions -/

namespace Library

def Has (l : Library) (function : Text) : FunctionTable → Prop
  | .filters => (l.filter? function).isSome
  | .handlers => (l.handler? function).isSome

theorem call_of_has {l : Library} {table : FunctionTable} {function : Text}
    (h : l.Has function table) (arguments : List Value) (source : Text) :
    ∃ v, l.call table function arguments source = .ok v := by
  cases table with
  | filters =>
    obtain ⟨f, hf⟩ := Option.isSome_iff_exists.mp h
    exact ⟨f arguments, by simp [call, hf]⟩
  | handlers =>
    obtain ⟨f, hf⟩ := Option.isSome_iff_exists.mp h
    exact ⟨f (arguments.headD .null) arguments.tail, by simp [call, hf]⟩

theorem applyHandlers_of_has {l : Library} {names : List Text}
    (h : ∀ name ∈ names, l.Has name .handlers) (v : Value) :
    ∃ w, l.applyHandlers v names = .ok w := by
  induction names generalizing v with
  | nil => exact ⟨v, rfl⟩
  | cons name names ih =>
    obtain ⟨hname, hnames⟩ := List.forall_mem_cons.mp h
    obtain ⟨f, hf⟩ := Option.isSome_iff_exists.mp hname
    obtain ⟨w, hw⟩ := ih hnames (f v [])
    exact ⟨w, by simp [applyHandlers, hf, hw]⟩

end Library

namespace Expr

mutual

def Known (l : Library) : Expr → Prop
  | literal _ | undefined | binding _ => True
  | member base _ => base.Known l
  | index base key => base.Known l ∧ key.Known l
  | not operand => operand.Known l
  | call table function arguments => l.Has function table ∧ AllKnown l arguments

def AllKnown (l : Library) : List Expr → Prop
  | [] => True
  | e :: es => e.Known l ∧ AllKnown l es

end

mutual

/-- An expression has a value, or none, in every scope. Members of anything are looked up without
an error. -/
theorem eval_of_known {l : Library} (scope : Scope) (source : Text) :
    (e : Expr) → e.Known l → ∃ v, e.eval scope l source = .ok v
  | literal x, _ => ⟨some x.toValue, by rw [eval]⟩
  | undefined, _ => ⟨none, by rw [eval]⟩
  | binding b, _ => ⟨scope.lookup b, by rw [eval]⟩
  | member base property, h => by
    obtain ⟨v, hv⟩ := eval_of_known scope source base h
    rw [eval, hv]
    cases v with
    | none => exact ⟨none, rfl⟩
    | some v => exact ⟨v.member? (.name property), rfl⟩
  | index base key, ⟨hbase, hkey⟩ => by
    obtain ⟨v, hv⟩ := eval_of_known scope source base hbase
    obtain ⟨k, hk⟩ := eval_of_known scope source key hkey
    rw [eval, hv, hk]
    cases v with
    | none => exact ⟨none, rfl⟩
    | some v =>
      cases k with
      | none => exact ⟨v.member? (.name "undefined"), rfl⟩
      | some k => exact ⟨v.member? (.ofValue k), rfl⟩
  | not operand, h => by
    obtain ⟨v, hv⟩ := eval_of_known scope source operand h
    exact ⟨some (.bool !Value.holds v), by rw [eval, hv]; rfl⟩
  | call table function arguments, ⟨hfunction, harguments⟩ => by
    obtain ⟨values, hvalues⟩ := evalArguments_of_known scope source arguments harguments
    obtain ⟨v, hv⟩ := Library.call_of_has hfunction values source
    refine ⟨some v, ?_⟩
    rw [eval, hvalues]
    exact congrArg (· >>= fun result => .ok (some result)) hv

theorem evalArguments_of_known {l : Library} (scope : Scope) (source : Text) :
    (es : List Expr) → AllKnown l es → ∃ vs, evalArguments scope l source es = .ok vs
  | [], _ => ⟨[], by rw [evalArguments]⟩
  | e :: es, ⟨he, hes⟩ => by
    obtain ⟨v, hv⟩ := eval_of_known scope source e he
    obtain ⟨vs, hvs⟩ := evalArguments_of_known scope source es hes
    exact ⟨v.getD .null :: vs, by rw [evalArguments, hv, hvs]; rfl⟩

end

end Expr

namespace Formula

/-- The text is an expression that calls functions of the library only. -/
def Resolves (l : Library) (f : Formula) : Prop := ∃ e, f.parsed = .ok e ∧ e.Known l

theorem eval_of_resolves {l : Library} {f : Formula} (h : f.Resolves l) (scope : Scope) :
    ∃ v, f.eval scope l = .ok v := by
  obtain ⟨e, hparsed, he⟩ := h
  rw [eval, hparsed]
  exact e.eval_of_known scope f.source he

theorem evalOrNull_of_resolves {l : Library} {f : Formula} (h : f.Resolves l) (scope : Scope) :
    ∃ v, f.evalOrNull scope l = .ok v := by
  obtain ⟨v, hv⟩ := eval_of_resolves h scope
  exact ⟨v.getD .null, by rw [evalOrNull, hv]; rfl⟩

end Formula

/-! ## Appends -/

namespace Piece

/-- An interpolation has an expression and handlers that are known. -/
def Resolves (l : Library) : Piece → Prop
  | text _ => True
  | value v => (Formula.ofSource v.expr).Resolves l ∧ ∀ name ∈ v.handlers, l.Has name .handlers

end Piece

namespace Part

theorem write_of_resolves {l : Library} {p : Piece} (h : p.Resolves l) (scope : Scope) :
    ∃ t, (ofPiece p).write scope l = .ok t := by
  cases p with
  | text t => exact ⟨t, rfl⟩
  | value v =>
    obtain ⟨hformula, hhandlers⟩ := h
    obtain ⟨x, hx⟩ := Formula.eval_of_resolves hformula scope
    by_cases hmissing : x = none ∨ x = some .null
    · exact ⟨[], write_value_of_missing hx hmissing⟩
    · obtain ⟨hnone, hnull⟩ := not_or.mp hmissing
      obtain ⟨y, rfl⟩ := Option.ne_none_iff_exists'.mp hnone
      obtain ⟨w, hw⟩ := Library.applyHandlers_of_has hhandlers y
      refine ⟨w.outputText, ?_⟩
      rw [ofPiece, write_value_of_some hx fun hy => hnull (congrArg some hy), hw]
      rfl

theorem writeAll_of_resolves {l : Library} {pieces : List Piece} (h : ∀ p ∈ pieces, p.Resolves l)
    (scope : Scope) : ∃ t, writeAll scope l (pieces.map ofPiece) = .ok t := by
  induction pieces with
  | nil => exact ⟨[], rfl⟩
  | cons p pieces ih =>
    obtain ⟨hp, hpieces⟩ := List.forall_mem_cons.mp h
    obtain ⟨t, ht⟩ := write_of_resolves hp scope
    obtain ⟨ts, hts⟩ := ih hpieces
    exact ⟨t ++ ts, by rw [List.map_cons, writeAll, ht, hts]; rfl⟩

end Part

/-! ## Runs -/

namespace RenderM

variable {σ α β γ : Type}

/-- From every state the action comes to a result. -/
def Succeeds (x : RenderM σ α) : Prop := ∀ s, ∃ a t, x.run s = (.ok a, t)

theorem succeeds_pure (a : α) : Succeeds (pure a : RenderM σ α) := fun s => ⟨a, s, rfl⟩

theorem Succeeds.bind {x : RenderM σ α} {f : α → RenderM σ β} (hx : Succeeds x)
    (hf : ∀ a, Succeeds (f a)) : Succeeds (x >>= f) := by
  intro s
  obtain ⟨a, t, ha⟩ := hx s
  rw [run_bind, ha]
  exact hf a t

theorem succeeds_ofExcept {r : Except RenderError α} (h : ∃ a, r = .ok a) :
    Succeeds (ofExcept r : RenderM σ α) := by
  obtain ⟨a, rfl⟩ := h
  exact succeeds_pure a

theorem succeeds_foldlM {f : α → γ → RenderM σ α} (h : ∀ a c, Succeeds (f a c)) (cs : List γ)
    (a : α) : Succeeds (cs.foldlM f a) := by
  induction cs generalizing a with
  | nil => exact succeeds_pure a
  | cons c cs ih =>
    rw [List.foldlM_cons]
    exact (h a c).bind ih

end RenderM

open RenderM

namespace Instr

/-- The instruction is no include, and its expressions and names are known. -/
def Resolves (l : Library) : Instr → Prop
  | append pieces => ∀ p ∈ pieces, p.Resolves l
  | ifOpen expr | eachOpen expr _ => (Formula.ofSource expr).Resolves l
  | partialInvoke target => (Formula.ofSource target.data).Resolves l
  | includeOpen | includeClose _ | includeInvoke _ => False
  | ifClose | eachClose _ | partialOpen _ | partialClose => True

end Instr

namespace Program

variable {ρ σ : Type} (rts : Runtimes ρ σ) (rt : ρ) {inputs : Partials ρ σ}

theorem callPartial_succeeds
    (hinputs : ∀ name p, inputs.get? name = some p → ∀ data, Succeeds (p rt data)) (call : Call)
    (hdata : call.data.Resolves (rts.library rt)) (m : Machine ρ σ) :
    Succeeds (callPartial rts rt inputs call m) := by
  unfold callPartial
  cases hp : inputs.get? call.name with
  | none => exact succeeds_pure m
  | some p =>
    refine (succeeds_ofExcept (Formula.evalOrNull_of_resolves hdata m.scope)).bind fun data => ?_
    exact (hinputs call.name p hp data).bind fun t => succeeds_pure (m.write t)

theorem step_succeeds
    (hinputs : ∀ name p, inputs.get? name = some p → ∀ data, Succeeds (p rt data)) {i : Instr}
    (h : i.Resolves (rts.library rt)) (m : Machine ρ σ) : Succeeds (step rts rt inputs m i) := by
  cases i with
  | append pieces =>
    refine (succeeds_ofExcept (Part.writeAll_of_resolves h m.scope)).bind fun t => ?_
    exact succeeds_pure (m.write t)
  | partialInvoke target => exact callPartial_succeeds rts rt hinputs (.ofTarget target) h m
  | includeInvoke target => exact h.elim
  | _ => exact succeeds_pure m

/-- A block succeeds if its body does. A partial that it registers is not run. -/
theorem runBlock_succeeds {body : ρ → Machine ρ σ → RenderM σ (Machine ρ σ)}
    (hbody : ∀ m, Succeeds (body rt m)) {i : Instr} (h : i.Resolves (rts.library rt))
    (closing : Option Instr) (m : Machine ρ σ) : Succeeds (runBlock rts rt body closing m i) := by
  cases i with
  | ifOpen expr =>
    refine (succeeds_ofExcept (Formula.eval_of_resolves h m.scope)).bind fun v => ?_
    by_cases hv : Value.holds v = true
    · simpa [hv] using hbody m
    · simpa [hv] using succeeds_pure m
  | eachOpen expr frame =>
    refine (succeeds_ofExcept (Formula.evalOrNull_of_resolves h m.scope)).bind fun v => ?_
    exact (succeeds_foldlM (fun n entry => hbody _) v.entries m).bind fun last =>
      succeeds_pure { last with scope := m.scope }
  | includeOpen => exact h.elim
  | partialOpen name => exact succeeds_pure _
  | _ => exact succeeds_pure m

/-- Any number of operations of any list succeed. -/
theorem run_succeeds
    (hinputs : ∀ name p, inputs.get? name = some p → ∀ data, Succeeds (p rt data))
    {instrs : List Instr} (h : ∀ i ∈ instrs, i.Resolves (rts.library rt)) (count : Nat)
    (m : Machine ρ σ) : Succeeds (run rts rt inputs count (Instr.toOps instrs) m) := by
  induction hn : instrs.length using Nat.strongRecOn generalizing instrs count m with
  | ind n ih =>
    cases instrs with
    | nil =>
      rw [Instr.toOps, run_nil]
      exact succeeds_pure m
    | cons i is =>
      cases count with
      | zero =>
        rw [run_zero]
        exact succeeds_pure m
      | succ count =>
        rw [List.length_cons] at hn
        obtain ⟨hi, his⟩ := List.forall_mem_cons.mp h
        have hrest (k count : Nat) (m : Machine ρ σ) :
            Succeeds (run rts rt inputs count (Instr.toOps (is.drop k)) m) := by
          have hlength : (is.drop k).length < n := by
            rw [List.length_drop]
            omega
          exact ih _ hlength (fun j hj => his j (List.mem_of_mem_drop hj)) count m rfl
        by_cases hopens : i.opens = true
        · rw [run_cons_of_opens rts rt inputs hopens]
          exact (runBlock_succeeds rts rt (fun m => hrest 0 _ m) hi _ m).bind fun m => hrest _ _ m
        · rw [Bool.not_eq_true] at hopens
          rw [run_cons_of_not_opens rts rt inputs hopens]
          exact (step_succeeds rts rt hinputs hi m).bind fun m => hrest 0 _ m

end Program

namespace Template

end Template

end HtmlTemplate
