import HtmlTemplate.Proofs.Engine.Answers
import HtmlTemplate.Proofs.Engine.Includes

/-!
What the limit of includes changes. With one include more around, an include fails because there are
too many of them or renders to the same (`includeWithin_lifts`). So without a layout a template
renders by its name to what its source renders to, or fails for want of includes
(`renderUnnamed_of_renderNamed`).
-/

namespace HtmlTemplate

namespace RenderError

/-- The error without the names of the templates that were rendered. -/
def innermost : RenderError → RenderError
  | inTemplate _ cause => cause.innermost
  | e => e

end RenderError

/-- The first result is a failure for too many includes, or the two agree. -/
def AgreeWithin {α β : Type} (Q : α → β → Prop) (a : Except RenderError α)
    (b : Except RenderError β) : Prop :=
  (∃ e, a = .error e ∧ e.innermost = .includeDepth) ∨ Agree Q a b

namespace AgreeWithin

variable {α β : Type} {Q : α → β → Prop} {x : RenderM Unit α} {y : RenderM Unit β}

theorem bind {α' β' : Type} {P : α' → β' → Prop} {f : α → RenderM Unit α'}
    {g : β → RenderM Unit β'} (hx : AgreeWithin Q (x.run ()).1 (y.run ()).1)
    (hf : ∀ a b, Q a b → AgreeWithin P ((f a).run ()).1 ((g b).run ()).1) :
    AgreeWithin P ((x >>= f).run ()).1 ((y >>= g).run ()).1 := by
  rw [RenderM.run_bind, RenderM.run_bind]
  generalize x.run () = xs at hx ⊢
  generalize y.run () = ys at hx ⊢
  obtain ⟨a | a, s⟩ := xs
  · rcases hx with ⟨e, he, hinnermost⟩ | hagree
    · exact .inl ⟨a, rfl, Except.error.inj he ▸ hinnermost⟩
    · obtain ⟨b | b, t⟩ := ys
      · exact .inr hagree
      · exact hagree.elim
  · rcases hx with ⟨e, he, -⟩ | hagree
    · cases he
    · obtain ⟨b | b, t⟩ := ys
      · exact hagree.elim
      · exact hf a b hagree

/-- The name of a template does not change what an error is in the end. -/
theorem inTemplate (h : AgreeWithin Q (x.run ()).1 (y.run ()).1) (name : Text) :
    AgreeWithin Q ((x.mapError (.inTemplate name)).run ()).1
      ((y.mapError (.inTemplate name)).run ()).1 := by
  change AgreeWithin Q (Except.mapError _ (x.run ()).1) (Except.mapError _ (y.run ()).1)
  rcases h with ⟨e, he, hinnermost⟩ | hagree
  · exact .inl ⟨.inTemplate name e, by rw [he]; rfl, hinnermost⟩
  · generalize (x.run ()).1 = a at hagree ⊢
    generalize (y.run ()).1 = b at hagree ⊢
    cases a <;> cases b
    · exact .inr (congrArg (RenderError.inTemplate name) hagree)
    · exact hagree.elim
    · exact hagree.elim
    · exact .inr hagree

end AgreeWithin

/-- Under a condition, actions with results that agree within the limit. -/
def Lifting.limited (p : Prop) : Lifting Unit Unit where
  Rel Q x y := p → AgreeWithin Q (x.run ()).1 (y.run ()).1
  pure h _ := .inr h
  bind hx hf hp := (hx hp).bind fun a b hab => hf a b hab hp
  ofExcept r _ := .inr (.refl (fun _ => rfl) r)

namespace Registry

/-- One include more is around in the first registry. -/
def Deeper (_ : Unit) (n n' : Nat) : Lifting Unit Unit := .limited (n = n' + 1)

theorem includeWithin_succ (r : Registry) (levels n : Nat) (data : Value)
    (partials : Partials Nat Unit) (name : Text) :
    r.includeWithin (levels + 1) n data partials name =
      if n ≥ maxIncludeDepth then throw .includeDepth
      else r.template name >>= fun t =>
        (t.render ⟨fun _ => r.library, r.includeWithin levels⟩ (n + 1) data partials).mapError
          (.inTemplate name) := rfl

/-- One include more around does not change what an include renders to, unless it fails. The
induction is on the levels; when they run out, both fail. -/
theorem includeWithin_lifts (r : Registry) (levels : Nat) :
    Runtimes.Lifts Deeper ⟨fun _ => r.library, r.includeWithin levels⟩
      ⟨fun _ => r.library, r.includeWithin levels⟩ := by
  induction levels with
  | zero => exact ⟨fun hrel => hrel rfl, fun _ _ _ _ _ _ _ _ _ => .inl ⟨_, rfl, rfl⟩⟩
  | succ levels ih =>
    refine ⟨fun hrel => hrel rfl, ?_⟩
    intro _ n n' data t u name ht hn
    simp only [includeWithin_succ]
    by_cases hfull : n ≥ maxIncludeDepth
    · rw [if_pos hfull]
      exact .inl ⟨_, rfl, rfl⟩
    · rw [if_neg hfull, if_neg (by omega)]
      refine AgreeWithin.bind (.inr (.refl (Q := Eq) (fun _ => rfl) _)) ?_
      rintro template _ rfl
      refine AgreeWithin.inTemplate ?_ name
      exact template.render_lifts ih () (n + 1) (n' + 1) data ht (congrArg (· + 1) hn)

/-- A template that is rendered by its name counts as an include. -/
theorem renderNamed_within (r : Registry) (hlayout : r.options.layout = none) {name source : Text}
    (hsource : r.sources.get? name = some source) (data : Value) :
    AgreeWithin Eq ((r.renderNamed name data .empty).run ()).1
      (((r.renderUnnamed source data).mapError (.inTemplate name)).run ()).1 := by
  have hnamed : r.renderNamed name data .empty =
      ((Template.compile source r.options).render r.runtimes 1 data .empty).mapError
        (.inTemplate name) :=
    (renderNamed_of_layout_eq_none hlayout name data fun _ => none).trans
      (renderFound_of_source hsource 1 data .empty)
  rw [hnamed]
  refine AgreeWithin.inTemplate ?_ name
  exact (Template.compile source r.options).render_lifts (r.includeWithin_lifts maxIncludeDepth) ()
    1 0 data .empty rfl

end Registry

namespace Engine

/-- Without a layout a template that is registered renders by its name to the output of its source,
and fails with the error of its source, if it is not for want of includes. -/
theorem renderUnnamed_of_renderNamed {options : Options} (hlayout : options.layout = none)
    (library : Library) {before : List Request} {name source : Text}
    (hsource : Request.lastSource? name before = some source) (data : Value) :
    let e := (create options library).after before
    (∀ out, ((renderNamed name data .empty).run e).1 = .ok out →
      ((renderUnnamed source data).run e).1 = .ok out) ∧
    (∀ error, ((renderNamed name data .empty).run e).1 = .error error →
      error.innermost ≠ .includeDepth →
        ∃ cause, error = .inTemplate name cause ∧
          ((renderUnnamed source data).run e).1 = .error cause) := by
  intro e
  let r : Registry := ⟨options, library, ⟨fun name => Request.lastSource? name before⟩⟩
  have hnamed : ((renderNamed name data .empty).run e).1 =
      ((r.renderNamed name data .empty).run ()).1 :=
    renderNamed_after options library before name data fun _ => none
  rw [hnamed, renderUnnamed_after]
  have hwithin : AgreeWithin Eq ((r.renderNamed name data .empty).run ()).1
      (((r.renderUnnamed source data).run ()).1.mapError (.inTemplate name)) :=
    r.renderNamed_within hlayout hsource data
  generalize ((r.renderNamed name data .empty).run ()).1 = named at hwithin ⊢
  generalize ((r.renderUnnamed source data).run ()).1 = unnamed at hwithin ⊢
  constructor
  · rintro out rfl
    rcases hwithin with ⟨error, herror, -⟩ | hagree
    · cases herror
    · cases unnamed with
      | error cause => exact hagree.elim
      | ok out' => exact congrArg Except.ok hagree.symm
  · rintro error rfl hinnermost
    rcases hwithin with ⟨other, hother, hdepth⟩ | hagree
    · exact absurd (Except.error.inj hother ▸ hdepth) hinnermost
    · cases unnamed with
      | error cause => exact ⟨cause, hagree, rfl⟩
      | ok out => exact hagree.elim

/-- An included template with a handler that the library does not have, which is not looked up where
there is nothing to write. -/
theorem renderUnnamed_of_renderNamed_inclusion :
    let page : Text := "[<ins data-include=row>]"
    let before : List Request := [.add "row" "#\x7bx|nope\x7d", .add "page" page]
    let e := (create .default Library.standard).after before
    let data : Value := .object [("x".toList, .bool true)]
    let cause : RenderError := .inTemplate "row" (.unknownHandler "nope")
    Request.lastSource? "page" before = some page ∧
      ((renderNamed "page" .null .empty).run e).1 = .ok "[]" ∧
      ((renderUnnamed page .null).run e).1 = .ok "[]" ∧
      ((renderNamed "page" data .empty).run e).1 = .error (.inTemplate "page" cause) ∧
      ((renderUnnamed page data).run e).1 = .error cause := by
  intro page before e data cause
  have hsource : Request.lastSource? "page" before = some page := by decide
  have hok : ((renderNamed "page" .null .empty).run e).1 = .ok "[]" := by decide +kernel
  have herror : ((renderNamed "page" data .empty).run e).1 = .error (.inTemplate "page" cause) := by
    decide +kernel
  have hlayout : Options.default.layout = none := rfl
  have hrenders := renderUnnamed_of_renderNamed hlayout Library.standard hsource
  refine ⟨hsource, hok, (hrenders .null).1 _ hok, herror, ?_⟩
  obtain ⟨cause', heq, hunnamed⟩ := (hrenders data).2 _ herror (by decide)
  rw [hunnamed, (RenderError.inTemplate.inj heq).2]

end Engine

end HtmlTemplate
