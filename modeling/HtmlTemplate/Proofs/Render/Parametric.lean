import HtmlTemplate.Proofs.Render.Lifting

/-!
Rendering in corresponding surroundings. A template knows its surroundings by its runtime alone and
uses partials by calling them, so in runtimes that answer alike, and with partials that do, it
renders alike (`render_relates`). Which states correspond is a parameter: it can tie the states of
two engines to each other, or the states of one to numbers, or state what a run keeps.
-/

namespace HtmlTemplate

/-- Results that are values in the relation, or the same error. -/
def Agree {α β : Type} (Q : α → β → Prop) : Except RenderError α → Except RenderError β → Prop
  | .ok a, .ok b => Q a b
  | .error e, .error f => e = f
  | _, _ => False

theorem Agree.map_eq {α β : Type} {f : α → β} {a : Except RenderError α}
    {b : Except RenderError β} (h : Agree (fun x y => f x = y) a b) : a.map f = b := by
  cases a <;> cases b
  · exact congrArg Except.error h
  · exact h.elim
  · exact h.elim
  · exact congrArg Except.ok h

theorem Agree.eq {α : Type} {a b : Except RenderError α} (h : Agree Eq a b) : a = b := by
  have hmap := Agree.map_eq (f := id) h
  simpa using hmap

theorem Agree.refl {α : Type} {Q : α → α → Prop} (h : ∀ a, Q a a) (a : Except RenderError α) :
    Agree Q a a := by
  cases a with
  | error e => rfl
  | ok a => exact h a

namespace RenderM

variable {σ σ' α α' β β' : Type}

theorem run_bind (x : RenderM σ α) (f : α → RenderM σ β) (s : σ) :
    (x >>= f).run s =
      match x.run s with
      | (.ok a, t) => (f a).run t
      | (.error e, t) => (.error e, t) := by
  change ExceptT.bindCont f (x.run s).1 (x.run s).2 = _
  obtain ⟨a | a, t⟩ := x.run s <;> rfl

/-- From states in `R`, two actions come to results that agree by `Q`, and to states in `R`. -/
def Relates (R : σ → σ' → Prop) (Q : α → α' → Prop) (x : RenderM σ α) (y : RenderM σ' α') : Prop :=
  ∀ s s', R s s' → Agree Q (x.run s).1 (y.run s').1 ∧ R (x.run s).2 (y.run s').2

variable {R : σ → σ' → Prop} {Q : α → α' → Prop} {P : β → β' → Prop}

theorem Relates.pure {a : α} {b : α'} (h : Q a b) :
    Relates R Q (pure a : RenderM σ α) (pure b : RenderM σ' α') :=
  fun _ _ hs => ⟨h, hs⟩

theorem Relates.throw (e : RenderError) :
    Relates R Q (throw e : RenderM σ α) (throw e : RenderM σ' α') :=
  fun _ _ hs => ⟨rfl, hs⟩

theorem Relates.bind {x : RenderM σ α} {y : RenderM σ' α'} {f : α → RenderM σ β}
    {g : α' → RenderM σ' β'} (hx : Relates R Q x y)
    (hf : ∀ a b, Q a b → Relates R P (f a) (g b)) : Relates R P (x >>= f) (y >>= g) := by
  intro s s' h
  obtain ⟨hr, hs⟩ := hx s s' h
  rw [run_bind, run_bind]
  generalize x.run s = xs at hr hs ⊢
  generalize y.run s' = ys at hr hs ⊢
  obtain ⟨a | a, t⟩ := xs <;> obtain ⟨b | b, t'⟩ := ys
  · exact ⟨hr, hs⟩
  · exact hr.elim
  · exact hr.elim
  · exact hf a b hr t t' hs

theorem Relates.ofExcept (r : Except RenderError α) :
    Relates R Eq (ofExcept r : RenderM σ α) (ofExcept r : RenderM σ' α) := by
  intro s s' hs
  cases r with
  | error e => exact ⟨rfl, hs⟩
  | ok a => exact ⟨rfl, hs⟩

theorem Relates.mapError {x : RenderM σ α} {y : RenderM σ' α'} (f : RenderError → RenderError)
    (h : Relates R Q x y) : Relates R Q (x.mapError f) (y.mapError f) := by
  intro s s' hs
  obtain ⟨hr, ht⟩ := h s s' hs
  refine ⟨?_, ht⟩
  change Agree Q (Except.mapError f (x.run s).1) (Except.mapError f (y.run s').1)
  generalize (x.run s).1 = a at hr ⊢
  generalize (y.run s').1 = b at hr ⊢
  cases a <;> cases b
  · exact congrArg f hr
  · exact hr
  · exact hr
  · exact hr

theorem Relates.refl {Q : α → α → Prop} (h : ∀ a, Q a a) (x : RenderM σ α) :
    Relates Eq Q x x := by
  rintro s _ rfl
  exact ⟨.refl h _, rfl⟩

theorem Relates.eq {x y : RenderM σ α} (h : Relates Eq Eq x y) : x = y := by
  funext s
  obtain ⟨hr, hs⟩ := h s s rfl
  exact Prod.ext hr.eq hs

/-- Actions that begin by looking at their states. -/
theorem Relates.get_bind {f : σ → RenderM σ α} {g : σ' → RenderM σ' α'}
    (h : ∀ s s', R s s' → Relates R Q (f s) (g s')) : Relates R Q (get >>= f) (get >>= g) :=
  fun s s' hs => h s s' hs s s' hs

/-- An action that begins by looking at its state, and another one. -/
theorem Relates.get_bind_left {f : σ → RenderM σ α} {y : RenderM σ' α'}
    (h : ∀ s s', R s s' → Relates R Q (f s) y) : Relates R Q (get >>= f) y :=
  fun s s' hs => h s s' hs s s' hs

/-- What holds of all states in `R` can be used to relate actions. -/
theorem Relates.of_states {p : Prop} {x : RenderM σ α} {y : RenderM σ' α'}
    (hp : ∀ s s', R s s' → p) (h : p → Relates R Q x y) : Relates R Q x y :=
  fun s s' hs => h (hp s s' hs) s s' hs

end RenderM

/-- Actions that lead from states in `R` to results that agree and to states in `R`. -/
def Lifting.relating {σ σ' : Type} (R : σ → σ' → Prop) : Lifting σ σ' where
  Rel := RenderM.Relates R
  pure := .pure
  bind := .bind
  ofExcept := .ofExcept

theorem RenderM.Relates.foldlM {σ σ' α α' γ : Type} {R : σ → σ' → Prop} {Q : α → α' → Prop}
    {f : α → γ → RenderM σ α} {g : α' → γ → RenderM σ' α'}
    (h : ∀ a b c, Q a b → Relates R Q (f a c) (g b c)) (cs : List γ) {a : α} {b : α'}
    (hab : Q a b) : Relates R Q (cs.foldlM f a) (cs.foldlM g b) :=
  (Lifting.relating R).foldlM h cs hab

/-- Which states correspond while templates run in two runtimes, in each situation of `ι`. -/
abbrev Correspondence (ι ρ σ ρ' σ' : Type) := ι → ρ → ρ' → σ → σ' → Prop

variable {ι ρ σ ρ' σ' : Type}

/-- In every situation the partials write the same. -/
def Partial.Relates (S : Correspondence ι ρ σ ρ' σ') (p : Partial ρ σ) (q : Partial ρ' σ') : Prop :=
  ∀ i rt rt' data, RenderM.Relates (S i rt rt') Eq (p rt data) (q rt' data)

/-- Tables with the same names, and with partials that write the same. -/
def Partials.Relates (S : Correspondence ι ρ σ ρ' σ') (t : Partials ρ σ) (u : Partials ρ' σ') :
    Prop :=
  ∀ name, Option.Rel (Partial.Relates S) (t.get? name) (u.get? name)

/-- In every situation the runtimes have the same library, and render a named template with partials
that write the same to the same. -/
structure Runtimes.Relates (S : Correspondence ι ρ σ ρ' σ') (rts : Runtimes ρ σ)
    (rts' : Runtimes ρ' σ') : Prop where
  library : ∀ {i rt rt' s s'}, S i rt rt' s s' → rts.library rt = rts'.library rt'
  render : ∀ i rt rt' data {t : Partials ρ σ} {u : Partials ρ' σ'} name, Partials.Relates S t u →
    RenderM.Relates (S i rt rt') Eq (rts.render rt data t name) (rts'.render rt' data u name)

variable {S : Correspondence ι ρ σ ρ' σ'}

/-- The relation of actions that correspondences make in each situation. -/
def Correspondence.lifting (S : Correspondence ι ρ σ ρ' σ') (i : ι) (rt : ρ) (rt' : ρ') :
    Lifting σ σ' :=
  .relating (S i rt rt')

theorem Runtimes.Relates.lifts {rts : Runtimes ρ σ} {rts' : Runtimes ρ' σ'}
    (h : Runtimes.Relates S rts rts') : Runtimes.Lifts (Correspondence.lifting S) rts rts' where
  library := fun hrel => RenderM.Relates.of_states (fun _ _ hs => h.library hs) hrel
  render := h.render

namespace Partials

theorem Relates.empty : Relates S (.empty : Partials ρ σ) (.empty : Partials ρ' σ') :=
  Lifts.empty (L := Correspondence.lifting S)

theorem Relates.insert {t : Partials ρ σ} {u : Partials ρ' σ'} (h : Relates S t u) (name : Text)
    {p : Partial ρ σ} {q : Partial ρ' σ'} (hp : Partial.Relates S p q) :
    Relates S (t.insert name p) (u.insert name q) :=
  Lifts.insert (L := Correspondence.lifting S) h name hp

end Partials

/-- Machines at the same place of the same program, that have registered partials that write the
same. -/
structure Machine.Relates (S : Correspondence ι ρ σ ρ' σ') (m : Machine ρ σ) (n : Machine ρ' σ') :
    Prop where
  scope : m.scope = n.scope
  collectors : List.Forall₂ (Partials.Relates S) m.collectors n.collectors
  out : m.out = n.out

namespace Machine

theorem Relates.start (scope : Scope) :
    Relates S (start scope : Machine ρ σ) (start scope : Machine ρ' σ') :=
  ⟨rfl, .nil, rfl⟩

end Machine

namespace Program

variable {rts : Runtimes ρ σ} {rts' : Runtimes ρ' σ'} {i : ι} {rt : ρ} {rt' : ρ'}
  {m : Machine ρ σ} {n : Machine ρ' σ'}

/-- Programs run alike. -/
theorem run_relates (h : Runtimes.Relates S rts rts') {inputs : Partials ρ σ}
    {inputs' : Partials ρ' σ'} (hinputs : Partials.Relates S inputs inputs') (count : Nat)
    (ops : List Op) (hm : Machine.Relates S m n) :
    RenderM.Relates (S i rt rt') (Machine.Relates S) (run rts rt inputs count ops m)
      (run rts' rt' inputs' count ops n) := by
  have hlifts : Machine.Lifts (Correspondence.lifting S) m n := ⟨hm.scope, hm.collectors, hm.out⟩
  exact (Lifting.relating (S i rt rt')).mono (run_lifts h.lifts hinputs count ops hlifts)
    fun m n hm => ⟨hm.scope, hm.collectors, hm.out⟩

end Program

namespace Template

/-- Templates render alike. -/
theorem render_relates {rts : Runtimes ρ σ} {rts' : Runtimes ρ' σ'}
    (h : Runtimes.Relates S rts rts') (t : Template) (i : ι) (rt : ρ) (rt' : ρ') (data : Value)
    {inputs : Partials ρ σ} {inputs' : Partials ρ' σ'}
    (hinputs : Partials.Relates S inputs inputs') :
    RenderM.Relates (S i rt rt') Eq (t.render rts rt data inputs)
      (t.render rts' rt' data inputs') := by
  unfold render
  split
  · exact .throw .blockDepth
  · refine (Program.run_relates h hinputs _ _ (.start _)).bind ?_
    intro m n hm
    exact .pure hm.out

end Template

/-- A partial that comes from outside of the templates: one for all runtimes, which it only
calls. -/
structure OuterPartial where
  run : {ρ σ : Type} → Runtimes ρ σ → Partial ρ σ
  relates : ∀ {ι ρ σ ρ' σ' : Type} {S : Correspondence ι ρ σ ρ' σ'} {rts : Runtimes ρ σ}
    {rts' : Runtimes ρ' σ'}, Runtimes.Relates S rts rts' → Partial.Relates S (run rts) (run rts')

/-- A template as a partial. It is handed no partials itself. -/
def OuterPartial.ofTemplate (t : Template) : OuterPartial where
  run := fun rts rt data => t.render rts rt data .empty
  relates := fun h i rt rt' data => t.render_relates h i rt rt' data .empty

/-- Partials from outside, by name. -/
abbrev OuterPartials := Text → Option OuterPartial

namespace OuterPartials

def table (ps : OuterPartials) (rts : Runtimes ρ σ) : Partials ρ σ :=
  ⟨fun name => (ps name).map (·.run rts)⟩

theorem relates (ps : OuterPartials) {rts : Runtimes ρ σ} {rts' : Runtimes ρ' σ'}
    (h : Runtimes.Relates S rts rts') : Partials.Relates S (ps.table rts) (ps.table rts') := by
  intro name
  change Option.Rel (Partial.Relates S) ((ps name).map (·.run rts)) ((ps name).map (·.run rts'))
  cases ps name with
  | none => exact .none
  | some p => exact .some (p.relates h)

end OuterPartials

end HtmlTemplate
