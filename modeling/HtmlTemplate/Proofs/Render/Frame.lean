import HtmlTemplate.Proofs.Render.Blocks
import HtmlTemplate.Proofs.Render.Success

/-!
What a run leaves as it found it. Whatever the list and wherever a run of it starts and stops, a run
that comes to its end has the scope from before and as many collectors, has registered partials with
the innermost one only, and has written behind the output (`run_keeps`). Each instruction and each
block adds an outcome to the machine, as blocks do that are closed (`run_absorbs`).
-/

namespace HtmlTemplate

namespace RenderM

variable {σ α β γ : Type}

/-- If the action comes to a result, the result satisfies the condition. -/
def Ensures (x : RenderM σ α) (P : α → Prop) : Prop := ∀ s a t, x.run s = (.ok a, t) → P a

theorem ensures_pure {P : α → Prop} {a : α} (h : P a) : Ensures (pure a : RenderM σ α) P := by
  intro s b t hb
  obtain rfl : a = b := Except.ok.inj (Prod.mk.inj hb).1
  exact h

theorem Ensures.bind {x : RenderM σ α} {f : α → RenderM σ β} {P : α → Prop} {Q : β → Prop}
    (hx : Ensures x P) (hf : ∀ a, P a → Ensures (f a) Q) : Ensures (x >>= f) Q := by
  intro s b t hb
  rw [run_bind] at hb
  split at hb
  · next a u ha => exact hf a (hx s a u ha) u b t hb
  · next e u _ => cases hb

theorem ensures_true (x : RenderM σ α) : Ensures x fun _ => True := fun _ _ _ _ => trivial

/-- A loop keeps what each of its steps keeps. -/
theorem ensures_foldlM {f : α → γ → RenderM σ α} {P : α → Prop}
    (h : ∀ a c, P a → Ensures (f a c) P) (cs : List γ) {a : α} (ha : P a) :
    Ensures (cs.foldlM f a) P := by
  induction cs generalizing a with
  | nil => exact ensures_pure ha
  | cons c cs ih =>
    rw [List.foldlM_cons]
    exact (h a c ha).bind fun b hb => ih hb

end RenderM

open RenderM

namespace Machine

variable {ρ σ : Type}

/-- A later state of a machine in the same range of a program. -/
structure Keeps (m n : Machine ρ σ) : Prop where
  scope : n.scope = m.scope
  height : n.collectors.length = m.collectors.length
  /-- The collectors below the innermost one are the same. -/
  below : n.collectors.tail = m.collectors.tail
  /-- The innermost one has the entries from before and those registered since, each in place of
  an earlier one of its name. -/
  innermost : ∀ c ∈ m.collectors.head?, ∃ registered : List (Text × Partial ρ σ),
    n.collectors.head? = some (registered.foldl (fun t (name, p) => t.insert name p) c)
  out : m.out <+: n.out

theorem keeps_absorb (m : Machine ρ σ) (o : Outcome ρ σ) : Keeps m (m.absorb o) := by
  obtain ⟨scope, collectors, out⟩ := m
  cases collectors with
  | nil => exact ⟨rfl, rfl, rfl, nofun, List.prefix_append out o.text⟩
  | cons c cs =>
    refine ⟨rfl, rfl, rfl, fun d hd => ?_, List.prefix_append out o.text⟩
    obtain rfl := Option.some.inj hd
    exact ⟨o.partials, rfl⟩

/-- The machine has nothing but an outcome more than before. -/
def Absorbs (m n : Machine ρ σ) : Prop := ∃ o, n = m.absorb o

theorem absorbs_refl (m : Machine ρ σ) : Absorbs m m := ⟨.empty, (absorb_empty m).symm⟩

theorem Absorbs.trans {m n l : Machine ρ σ} (h : Absorbs m n) (h' : Absorbs n l) :
    Absorbs m l := by
  obtain ⟨o, rfl⟩ := h
  obtain ⟨p, rfl⟩ := h'
  exact ⟨o.append p, (absorb_append m o p).symm⟩

theorem absorbs_write (m : Machine ρ σ) (t : Text) : Absorbs m (m.write t) :=
  ⟨.written t, (absorb_written m t).symm⟩

theorem absorbs_register (m : Machine ρ σ) (name : Text) (p : Partial ρ σ) :
    Absorbs m (m.register name p) :=
  ⟨⟨[], [(name, p)]⟩, (absorb_registered m name p).symm⟩

/-- The collector that an include starts with is gone after it. -/
theorem Absorbs.collected {m n : Machine ρ σ} (h : Absorbs m.collect n) :
    Absorbs m n.collected.2 := by
  obtain ⟨o, rfl⟩ := h
  rw [collected_absorb_collect]
  exact absorbs_write m o.text

end Machine

namespace Program

variable {ρ σ : Type} (rts : Runtimes ρ σ) (rt : ρ) (inputs : Partials ρ σ)

theorem callTemplate_absorbs (partials : Partials ρ σ) (call : Call) (m : Machine ρ σ) :
    Ensures (callTemplate rts rt partials call m) m.Absorbs :=
  (ensures_true _).bind fun _ _ => (ensures_true _).bind fun t _ => ensures_pure (m.absorbs_write t)

theorem callPartial_absorbs (call : Call) (m : Machine ρ σ) :
    Ensures (callPartial rts rt inputs call m) m.Absorbs := by
  unfold callPartial
  cases inputs.get? call.name with
  | none => exact ensures_pure m.absorbs_refl
  | some p =>
    exact (ensures_true _).bind fun _ _ =>
      (ensures_true _).bind fun t _ => ensures_pure (m.absorbs_write t)

theorem step_absorbs (m : Machine ρ σ) (i : Instr) :
    Ensures (step rts rt inputs m i) m.Absorbs := by
  cases i with
  | append pieces => exact (ensures_true _).bind fun t _ => ensures_pure (m.absorbs_write t)
  | includeInvoke target => exact callTemplate_absorbs rts rt .empty (.ofTarget target) m
  | partialInvoke target => exact callPartial_absorbs rts rt inputs (.ofTarget target) m
  | _ => exact ensures_pure m.absorbs_refl

/-- The entries of a loop are bound one after the other, and the scope from before it is put
back. -/
theorem runBlock_eachOpen_absorbs {body : ρ → Machine ρ σ → RenderM σ (Machine ρ σ)}
    (hbody : ∀ m, Ensures (body rt m) m.Absorbs) (closing : Option Instr) (m : Machine ρ σ)
    (expr : Text) (frame : Nat) :
    Ensures (runBlock rts rt body closing m (.eachOpen expr frame)) m.Absorbs := by
  refine (ensures_true _).bind fun v _ => ?_
  have hentry (n : Machine ρ σ) (entry : Value × Value)
      (hn : Machine.Absorbs m { n with scope := m.scope }) :
      Ensures (body rt (n.enter m.scope v.entries.length entry))
        fun n => Machine.Absorbs m { n with scope := m.scope } := by
    intro s l t hl
    obtain ⟨o, rfl⟩ := hbody _ s l t hl
    exact hn.trans ⟨o, rfl⟩
  exact (ensures_foldlM hentry v.entries m.absorbs_refl).bind fun last hlast => ensures_pure hlast

theorem runBlock_absorbs {body : ρ → Machine ρ σ → RenderM σ (Machine ρ σ)}
    (hbody : ∀ m, Ensures (body rt m) m.Absorbs) (closing : Option Instr) (m : Machine ρ σ)
    (i : Instr) : Ensures (runBlock rts rt body closing m i) m.Absorbs := by
  cases i with
  | ifOpen expr =>
    refine (ensures_true _).bind fun v _ => ?_
    split
    · exact hbody m
    · exact ensures_pure m.absorbs_refl
  | eachOpen expr frame => exact runBlock_eachOpen_absorbs rts rt hbody closing m expr frame
  | includeOpen =>
    refine (hbody m.collect).bind fun n hn => ?_
    split
    · intro s l t hl
      exact hn.collected.trans (callTemplate_absorbs rts rt _ _ _ s l t hl)
    · exact ensures_pure hn.collected
  | partialOpen name => exact ensures_pure (m.absorbs_register name _)
  | _ => exact ensures_pure m.absorbs_refl

/-- Any number of operations of any list. The induction is on the instructions that are left. -/
theorem run_absorbs (instrs : List Instr) (count : Nat) (m : Machine ρ σ) :
    Ensures (run rts rt inputs count (Instr.toOps instrs) m) m.Absorbs := by
  induction hn : instrs.length using Nat.strongRecOn generalizing instrs count m with
  | ind n ih =>
    cases instrs with
    | nil =>
      rw [Instr.toOps, run_nil]
      exact ensures_pure m.absorbs_refl
    | cons i is =>
      cases count with
      | zero =>
        rw [run_zero]
        exact ensures_pure m.absorbs_refl
      | succ count =>
        rw [List.length_cons] at hn
        have hrest (k count : Nat) {m l : Machine ρ σ} (hl : Machine.Absorbs m l) :
            Ensures (run rts rt inputs count (Instr.toOps (is.drop k)) l) m.Absorbs := by
          have hlength : (is.drop k).length < n := by
            rw [List.length_drop]
            omega
          exact fun s l' t hl' => hl.trans (ih _ hlength _ count l rfl s l' t hl')
        by_cases hopens : i.opens = true
        · rw [run_cons_of_opens rts rt inputs hopens]
          have hbody (m : Machine ρ σ) := hrest 0 (Instr.bodyLength 0 is) m.absorbs_refl
          exact (runBlock_absorbs rts rt hbody _ m i).bind fun l hl => hrest _ _ hl
        · rw [Bool.not_eq_true] at hopens
          rw [run_cons_of_not_opens rts rt inputs hopens]
          exact (step_absorbs rts rt inputs m i).bind fun l hl => hrest 0 count hl

/-- The run of a range of any list, from any state of a machine, leaves the scope and the collectors
below the innermost one as they were. It adds to the innermost one and to the output only. -/
theorem run_keeps (instrs : List Instr) (lo hi : Nat) {m n : Machine ρ σ} {s t : σ}
    (h : (run rts rt inputs (hi - lo) ((Instr.toOps instrs).drop lo) m).run s = (.ok n, t)) :
    m.Keeps n := by
  rw [Instr.toOps_drop] at h
  obtain ⟨o, rfl⟩ := run_absorbs rts rt inputs _ _ m s n t h
  exact m.keeps_absorb o

/-- A loop that is never closed, around a partial that the close of another loop ends, in a range
behind a close of nothing. -/
theorem run_keeps_unclosed :
    let instrs : List Instr := [.ifClose, .eachOpen "data" 0, .partialOpen "p", .eachClose 9,
      .append [.text "x", .value ⟨"key", []⟩]]
    let scope : Scope := ⟨.null, .array [.null, .bool true], none, none, none⟩
    let m : Machine Library Unit := ⟨scope, [.empty, .empty], "a"⟩
    ∃ n t, (run Runtimes.libraries .empty .empty (5 - 1) ((Instr.toOps instrs).drop 1) m).run () =
      (.ok n, t) ∧ m.Keeps n := by
  intro instrs scope m
  have hinstrs : ∀ i ∈ instrs.drop 1, i.Resolves .empty := by
    have hpieces : ∀ p ∈ [Piece.text "x", .value ⟨"key", []⟩], p.Resolves .empty :=
      List.forall_mem_cons.mpr ⟨trivial, List.forall_mem_singleton.mpr ⟨⟨_, rfl, trivial⟩, nofun⟩⟩
    simp only [instrs, List.drop_succ_cons, List.drop_zero, List.forall_mem_cons]
    exact ⟨⟨_, rfl, trivial⟩, trivial, trivial, hpieces, nofun⟩
  have hinputs : ∀ name p, Table.get? (.empty : Partials Library Unit) name = some p →
      ∀ data, Succeeds (p .empty data) := nofun
  have hrun := run_succeeds Runtimes.libraries .empty hinputs hinstrs (5 - 1) m
  rw [← Instr.toOps_drop] at hrun
  obtain ⟨n, t, hn⟩ := hrun ()
  exact ⟨n, t, hn, run_keeps _ _ _ instrs 1 5 hn⟩

end Program

end HtmlTemplate
