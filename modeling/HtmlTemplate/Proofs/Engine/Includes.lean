import HtmlTemplate.Proofs.Engine.Depth

/-!
Includes of a registry without levels. An engine's includes need none (`Engine.run_render`), and a
registry has the answers of its engine, so an include renders its template in the same runtimes, one
include further inside (`render_eq`).
-/

namespace HtmlTemplate

/-- Without a state actions are their results. -/
theorem RenderM.eq_of_run {α : Type} {x y : RenderM Unit α} (h : (x.run ()).1 = (y.run ()).1) :
    x = y := by
  funext s
  exact Prod.ext h rfl

namespace Registry

theorem template_of_source {r : Registry} {name source : Text}
    (hsource : r.sources.get? name = some source) :
    r.template name = pure (.compile source r.options) := by
  rw [template, hsource]

theorem template_of_unknown {r : Registry} {name : Text} (hsource : r.sources.get? name = none) :
    r.template name = throw (.unknownTemplate name) := by
  rw [template, hsource]

/-- What an include does inside of few enough others. -/
def renderFound (r : Registry) (includes : Nat) (data : Value) (partials : Partials Nat Unit)
    (name : Text) : RenderM Unit Text := do
  let t ← r.template name
  (t.render r.runtimes includes data partials).mapError (.inTemplate name)

/-- An include renders its template in the same runtimes, one include further inside. -/
theorem render_eq (r : Registry) {n : Nat} (hn : n < maxIncludeDepth) (data : Value) (name : Text)
    (partials : OuterPartials) :
    r.runtimes.render n data (partials.table r.runtimes) name =
      r.renderFound (n + 1) data (partials.table r.runtimes) name := by
  let e (n : Nat) : Engine := .ofRegistry r false n
  have hmirrors (n : Nat) : Engine.Mirrors r false .empty r.library n (e n) () :=
    Engine.mirrors_ofRegistry r false n
  have hruntimes : Runtimes.Relates (Engine.Mirrors r false) Engine.runtimes r.runtimes :=
    Engine.runtimes_relates r
  have hpartials := partials.relates hruntimes
  have hrender := hruntimes.render .empty r.library n data name hpartials (e n) () (hmirrors n)
  have hfound : RenderM.Relates (Engine.Mirrors r false .empty r.library (n + 1)) Eq
      (Engine.renderFound Engine.runtimes r.library data (partials.table Engine.runtimes) name)
      (r.renderFound (n + 1) data (partials.table r.runtimes) name) := by
    refine (Engine.template_relates name).bind ?_
    rintro c _ rfl
    exact (c.template.render_relates hruntimes .empty r.library (n + 1) data hpartials).mapError
      (.inTemplate name)
  have hless : ¬(e n).includes ≥ maxIncludeDepth := Nat.not_le.mpr hn
  have hrun := Engine.run_render (e n) r.library data name partials
  rw [if_neg hless] at hrun
  apply RenderM.eq_of_run
  calc ((r.runtimes.render n data (partials.table r.runtimes) name).run ()).1
      = ((Engine.runtimes.render r.library data (partials.table Engine.runtimes) name).run
          (e n)).1 := hrender.1.eq.symm
    _ = ((Engine.renderFound Engine.runtimes r.library data (partials.table Engine.runtimes)
          name).run (e (n + 1))).1 := by
        rw [hrun]
        rfl
    _ = ((r.renderFound (n + 1) data (partials.table r.runtimes) name).run ()).1 :=
        (hfound (e (n + 1)) () (hmirrors (n + 1))).1.eq

theorem renderFound_of_source {r : Registry} {name source : Text}
    (hsource : r.sources.get? name = some source) (includes : Nat) (data : Value)
    (partials : Partials Nat Unit) :
    r.renderFound includes data partials name =
      ((Template.compile source r.options).render r.runtimes includes data partials).mapError
        (.inTemplate name) := by
  rw [renderFound, template_of_source hsource]
  exact pure_bind _ _

theorem renderNamed_of_layout_eq_none {r : Registry} (hlayout : r.options.layout = none)
    (page : Text) (data : Value) (partials : OuterPartials) :
    r.renderNamed page data (partials.table r.runtimes) =
      r.renderFound 1 data (partials.table r.runtimes) page := by
  rw [renderNamed, hlayout]
  exact r.render_eq (by decide) data page partials

end Registry

end HtmlTemplate
