import HtmlTemplate.Render.Template
import Mathlib.Data.List.Forall2

/-!
Rendering under a relation of actions. A `Lifting` relates actions by what relates their results and
is kept by the operations that rendering is made of. A template reaches its surroundings through its
runtime and its partials only, so where these are related, what it renders to is (`render_lifts`).
-/

namespace HtmlTemplate

/-- A relation of actions for each relation of their results. -/
structure Lifting (σ σ' : Type) where
  Rel : {α α' : Type} → (α → α' → Prop) → RenderM σ α → RenderM σ' α' → Prop
  pure : ∀ {α α' : Type} {Q : α → α' → Prop} {a : α} {b : α'}, Q a b →
    Rel Q (Pure.pure a) (Pure.pure b)
  bind : ∀ {α α' β β' : Type} {Q : α → α' → Prop} {P : β → β' → Prop} {x : RenderM σ α}
    {y : RenderM σ' α'} {f : α → RenderM σ β} {g : α' → RenderM σ' β'}, Rel Q x y →
    (∀ a b, Q a b → Rel P (f a) (g b)) → Rel P (x >>= f) (y >>= g)
  ofExcept : ∀ {α : Type} (r : Except RenderError α),
    Rel Eq (RenderM.ofExcept r) (RenderM.ofExcept r)

namespace Lifting

variable {σ σ' α α' γ : Type} (L : Lifting σ σ') {Q : α → α' → Prop}

theorem throw (e : RenderError) :
    L.Rel Q (MonadExcept.throw e : RenderM σ α) (MonadExcept.throw e : RenderM σ' α') :=
  L.bind (P := Q) (f := fun a => nomatch a) (g := fun b => nomatch b)
    (L.ofExcept (α := Empty) (.error e)) fun a => nomatch a

theorem mono {P : α → α' → Prop} {x : RenderM σ α} {y : RenderM σ' α'} (h : L.Rel Q x y)
    (hQ : ∀ a b, Q a b → P a b) : L.Rel P x y := by
  have hbind := L.bind h fun a b hab => L.pure (hQ a b hab)
  simpa using hbind

theorem foldlM {f : α → γ → RenderM σ α} {g : α' → γ → RenderM σ' α'}
    (h : ∀ a b c, Q a b → L.Rel Q (f a c) (g b c)) (cs : List γ) {a : α} {b : α'}
    (hab : Q a b) : L.Rel Q (cs.foldlM f a) (cs.foldlM g b) := by
  induction cs generalizing a b with
  | nil => exact L.pure hab
  | cons c cs ih =>
    rw [List.foldlM_cons, List.foldlM_cons]
    exact L.bind (h a b c hab) fun a b hab => ih hab

end Lifting

variable {ι ρ σ ρ' σ' : Type}

section

variable (L : ι → ρ → ρ' → Lifting σ σ')

/-- Partials that are related in every situation of `ι` and every two runtimes. -/
def Partial.Lifts (p : Partial ρ σ) (q : Partial ρ' σ') : Prop :=
  ∀ i rt rt' data, (L i rt rt').Rel Eq (p rt data) (q rt' data)

/-- Tables with the same names and related partials. -/
def Partials.Lifts (t : Partials ρ σ) (u : Partials ρ' σ') : Prop :=
  ∀ name, Option.Rel (Partial.Lifts L) (t.get? name) (u.get? name)

/-- Actions are related only where the libraries are the same, and a named template renders to
related results for related partials. -/
structure Runtimes.Lifts (rts : Runtimes ρ σ) (rts' : Runtimes ρ' σ') : Prop where
  library : ∀ {i rt rt'} {α α' : Type} {Q : α → α' → Prop} {x : RenderM σ α} {y : RenderM σ' α'},
    (rts.library rt = rts'.library rt' → (L i rt rt').Rel Q x y) → (L i rt rt').Rel Q x y
  render : ∀ i rt rt' data {t : Partials ρ σ} {u : Partials ρ' σ'} name, Partials.Lifts L t u →
    (L i rt rt').Rel Eq (rts.render rt data t name) (rts'.render rt' data u name)

/-- Machines at the same place of the same program, that have registered related partials. -/
structure Machine.Lifts (m : Machine ρ σ) (n : Machine ρ' σ') : Prop where
  scope : m.scope = n.scope
  collectors : List.Forall₂ (Partials.Lifts L) m.collectors n.collectors
  out : m.out = n.out

end

variable {L : ι → ρ → ρ' → Lifting σ σ'}

namespace Partials

theorem Lifts.empty : Lifts L (.empty : Partials ρ σ) (.empty : Partials ρ' σ') :=
  fun _ => .none

theorem Lifts.insert {t : Partials ρ σ} {u : Partials ρ' σ'} (h : Lifts L t u) (name : Text)
    {p : Partial ρ σ} {q : Partial ρ' σ'} (hp : Partial.Lifts L p q) :
    Lifts L (t.insert name p) (u.insert name q) := by
  intro n
  by_cases hn : n = name
  · simpa [Table.insert, hn] using Option.Rel.some hp
  · simpa [Table.insert, hn] using h n

end Partials

namespace Machine

theorem Lifts.start (scope : Scope) :
    Lifts L (start scope : Machine ρ σ) (start scope : Machine ρ' σ') :=
  ⟨rfl, .nil, rfl⟩

variable {m : Machine ρ σ} {n : Machine ρ' σ'}

theorem Lifts.write (h : Lifts L m n) (t : Text) : Lifts L (m.write t) (n.write t) :=
  ⟨h.scope, h.collectors, congrArg (· ++ t) h.out⟩

theorem Lifts.withScope (h : Lifts L m n) (scope : Scope) :
    Lifts L { m with scope } { n with scope } :=
  ⟨rfl, h.collectors, h.out⟩

theorem Lifts.collect (h : Lifts L m n) : Lifts L m.collect n.collect :=
  ⟨h.scope, .cons .empty h.collectors, h.out⟩

theorem Lifts.collected (h : Lifts L m n) :
    Partials.Lifts L m.collected.1 n.collected.1 ∧ Lifts L m.collected.2 n.collected.2 := by
  obtain ⟨scope, collectors, out⟩ := m
  obtain ⟨scope', collectors', out'⟩ := n
  obtain ⟨hscope, hcollectors, hout⟩ := h
  cases hcollectors with
  | nil => exact ⟨.empty, hscope, .nil, hout⟩
  | cons hc hcs => exact ⟨hc, hscope, hcs, hout⟩

theorem Lifts.register (h : Lifts L m n) (name : Text) {p : Partial ρ σ} {q : Partial ρ' σ'}
    (hp : Partial.Lifts L p q) : Lifts L (m.register name p) (n.register name q) := by
  obtain ⟨scope, collectors, out⟩ := m
  obtain ⟨scope', collectors', out'⟩ := n
  obtain ⟨hscope, hcollectors, hout⟩ := h
  cases hcollectors with
  | nil => exact ⟨hscope, .nil, hout⟩
  | cons hc hcs => exact ⟨hscope, .cons (hc.insert name hp) hcs, hout⟩

end Machine

namespace Program

variable {rts : Runtimes ρ σ} {rts' : Runtimes ρ' σ'} {i : ι} {rt : ρ} {rt' : ρ'}
  {m : Machine ρ σ} {n : Machine ρ' σ'}

theorem callTemplate_lifts (h : Runtimes.Lifts L rts rts') (hm : Machine.Lifts L m n)
    {t : Partials ρ σ} {u : Partials ρ' σ'} (ht : Partials.Lifts L t u) (call : Call)
    (hlibrary : rts.library rt = rts'.library rt') :
    (L i rt rt').Rel (Machine.Lifts L) (callTemplate rts rt t call m)
      (callTemplate rts' rt' u call n) := by
  unfold callTemplate
  rw [hm.scope, hlibrary]
  refine (L i rt rt').bind ((L i rt rt').ofExcept _) ?_
  rintro data _ rfl
  refine (L i rt rt').bind (h.render i rt rt' data call.name ht) ?_
  rintro text _ rfl
  exact (L i rt rt').pure (hm.write text)

theorem callPartial_lifts (hm : Machine.Lifts L m n)
    {t : Partials ρ σ} {u : Partials ρ' σ'} (ht : Partials.Lifts L t u) (call : Call)
    (hlibrary : rts.library rt = rts'.library rt') :
    (L i rt rt').Rel (Machine.Lifts L) (callPartial rts rt t call m)
      (callPartial rts' rt' u call n) := by
  unfold callPartial
  have hname := ht call.name
  generalize t.get? call.name = p at hname ⊢
  generalize u.get? call.name = q at hname ⊢
  cases hname with
  | none => exact (L i rt rt').pure hm
  | some hp =>
    simp only
    rw [hm.scope, hlibrary]
    refine (L i rt rt').bind ((L i rt rt').ofExcept _) ?_
    rintro data _ rfl
    refine (L i rt rt').bind (hp i rt rt' data) ?_
    rintro text _ rfl
    exact (L i rt rt').pure (hm.write text)

theorem callClosing_lifts (h : Runtimes.Lifts L rts rts') (hm : Machine.Lifts L m n)
    {t : Partials ρ σ} {u : Partials ρ' σ'} (ht : Partials.Lifts L t u) (closing : Option Op)
    (hlibrary : rts.library rt = rts'.library rt') :
    (L i rt rt').Rel (Machine.Lifts L) (callClosing rts rt closing t m)
      (callClosing rts' rt' closing u n) := by
  unfold callClosing
  split
  · exact callTemplate_lifts h hm ht _ hlibrary
  · exact (L i rt rt').pure hm

/-- Runs of a program are related. The induction is on the operations that are left; a block's body
and what follows the block are fewer. -/
theorem run_lifts (h : Runtimes.Lifts L rts rts') {inputs : Partials ρ σ}
    {inputs' : Partials ρ' σ'} (hinputs : Partials.Lifts L inputs inputs') (count : Nat)
    (ops : List Op) (hm : Machine.Lifts L m n) :
    (L i rt rt').Rel (Machine.Lifts L) (run rts rt inputs count ops m)
      (run rts' rt' inputs' count ops n) := by
  induction hlen : ops.length using Nat.strongRecOn generalizing ops count i rt rt' m n with
  | ind len ih =>
    unfold run
    cases count with
    | zero => exact (L i rt rt').pure hm
    | succ count =>
      cases ops with
      | nil => exact (L i rt rt').pure hm
      | cons op rest =>
        rw [List.length_cons] at hlen
        have hrest (i : ι) (rt : ρ) (rt' : ρ') (count : Nat) {m : Machine ρ σ} {n : Machine ρ' σ'}
            (hm : Machine.Lifts L m n) :
            (L i rt rt').Rel (Machine.Lifts L) (run rts rt inputs count rest m)
              (run rts' rt' inputs' count rest n) :=
          ih rest.length (by omega) count rest hm rfl
        have hbehind (k : Nat) {m : Machine ρ σ} {n : Machine ρ' σ'} (hm : Machine.Lifts L m n) :
            (L i rt rt').Rel (Machine.Lifts L)
              (run rts rt inputs (count - k) (rest.drop k) m)
              (run rts' rt' inputs' (count - k) (rest.drop k) n) :=
          ih (rest.drop k).length (by rw [List.length_drop]; omega) _ _ hm rfl
        refine h.library fun hlibrary => ?_
        cases op with
        | append parts =>
          simp only
          rw [hm.scope, hlibrary]
          refine (L i rt rt').bind ((L i rt rt').ofExcept _) ?_
          rintro t _ rfl
          exact hrest _ _ _ _ (hm.write t)
        | branch condition body =>
          simp only
          rw [hm.scope, hlibrary]
          refine (L i rt rt').bind ((L i rt rt').ofExcept _) ?_
          rintro v _ rfl
          split
          · exact (L i rt rt').bind (hrest _ _ _ _ hm) fun m n hm => hbehind _ hm
          · exact hbehind _ hm
        | loop items body =>
          simp only
          rw [hm.scope, hlibrary]
          refine (L i rt rt').bind ((L i rt rt').ofExcept _) ?_
          rintro v _ rfl
          refine (L i rt rt').bind ((L i rt rt').foldlM ?_ v.entries hm) fun m n hm =>
            hbehind _ (hm.withScope _)
          intro m n entry hm
          refine hrest _ _ _ _ ?_
          unfold Machine.enter
          rw [hm.scope]
          exact hm.withScope _
        | collect body =>
          refine (L i rt rt').bind (hrest _ _ _ _ hm.collect) fun m n hm => ?_
          obtain ⟨hpartials, hm⟩ := hm.collected
          exact (L i rt rt').bind (callClosing_lifts h hm hpartials _ hlibrary) fun m n hm =>
            hbehind _ hm
        | register name body =>
          refine hbehind _ (hm.register name ?_)
          intro i rt rt' data
          rw [hm.scope]
          refine (L i rt rt').bind (hrest _ _ _ _ (.start _)) fun m n hm => ?_
          exact (L i rt rt').pure hm.out
        | callInclude call =>
          exact (L i rt rt').bind (callTemplate_lifts h hm .empty call hlibrary) fun m n hm =>
            hrest _ _ _ _ hm
        | callPartial call =>
          exact (L i rt rt').bind (callPartial_lifts hm hinputs call hlibrary) fun m n hm =>
            hrest _ _ _ _ hm
        | callCollected call => exact hrest _ _ _ _ hm
        | close => exact hrest _ _ _ _ hm

end Program

/-- What a template renders to is related. -/
theorem Template.render_lifts {rts : Runtimes ρ σ} {rts' : Runtimes ρ' σ'}
    (h : Runtimes.Lifts L rts rts') (t : Template) (i : ι) (rt : ρ) (rt' : ρ') (data : Value)
    {inputs : Partials ρ σ} {inputs' : Partials ρ' σ'} (hinputs : Partials.Lifts L inputs inputs') :
    (L i rt rt').Rel Eq (t.render rts rt data inputs) (t.render rts' rt' data inputs') := by
  unfold render
  split
  · exact (L i rt rt').throw .blockDepth
  · refine (L i rt rt').bind (Program.run_lifts h hinputs _ _ (.start _)) fun m n hm => ?_
    exact (L i rt rt').pure hm.out

end HtmlTemplate
