import HtmlTemplate.Proofs.Engine.Answers
import HtmlTemplate.Proofs.Engine.Includes
import HtmlTemplate.Proofs.Render.Slot

/-!
What a layout changes. A page runs in the layout as it runs alone: it is called from inside of one
include, with the partials it is rendered with (`renderNamed_withLayout`). So a layout that is a
slot between two texts writes them around the output, and adds its name to the error
(`renderNamed_inside_layout`).
-/

namespace HtmlTemplate

namespace RenderM

variable {α β : Type}

theorem run_map_mapError (f : α → β) (g : RenderError → RenderError) (x : RenderM Unit α) :
    ((mapError g (x >>= fun a => pure (f a))).run ()).1 = ((x.run ()).1.map f).mapError g := by
  change Except.mapError g ((x >>= fun a => pure (f a)).run ()).1 = _
  rw [run_bind]
  obtain ⟨a | a, s⟩ := x.run () <;> rfl

theorem exists_of_run_mapError {f : RenderError → RenderError} {x : RenderM Unit α}
    {error : RenderError} (h : ((x.mapError f).run ()).1 = .error error) :
    ∃ cause, error = f cause := by
  change Except.mapError f (x.run ()).1 = .error error at h
  cases hresult : (x.run ()).1 with
  | ok a =>
    rw [hresult] at h
    cases h
  | error cause =>
    rw [hresult] at h
    exact ⟨cause, (Except.error.inj h).symm⟩

end RenderM

/-! ## Partials -/

/-- A template with the partials that it is rendered with, as a partial. -/
def OuterPartial.ofPage (t : Template) (name : Text) (partials : OuterPartials) :
    OuterPartial where
  run := fun rts rt data =>
    (t.render rts rt data (partials.table rts)).mapError (.inTemplate name)
  relates := fun h i rt rt' data =>
    (t.render_relates h i rt rt' data (partials.relates h)).mapError (.inTemplate name)

namespace OuterPartials

def insert (ps : OuterPartials) (name : Text) (p : OuterPartial) : OuterPartials :=
  fun n => if n = name then some p else ps n

theorem table_insert {ρ σ : Type} (ps : OuterPartials) (name : Text) (p : OuterPartial)
    (rts : Runtimes ρ σ) :
    (ps.insert name p).table rts = (ps.table rts).insert name (p.run rts) := by
  ext1 n
  by_cases hn : n = name
  · simp [table, insert, Table.insert, hn]
  · simp [table, insert, Table.insert, hn]

end OuterPartials

namespace Registry

/-! ## The layout -/

def withLayout (r : Registry) (layout : Text) : Registry :=
  { r with options := { r.options with layout := some layout } }

theorem template_withLayout (r : Registry) (layout name : Text) :
    (r.withLayout layout).template name = r.template name := by
  have hcompile (source : Text) : Template.compile source (r.withLayout layout).options =
      .compile source r.options := Template.compile_congr (by rfl) (by rfl) source
  unfold template
  simp only [hcompile]
  rfl

theorem runtimes_withLayout (r : Registry) (layout : Text) :
    (r.withLayout layout).runtimes = r.runtimes := by
  have hinclude (levels : Nat) :
      (r.withLayout layout).includeWithin levels = r.includeWithin levels := by
    induction levels with
    | zero => rfl
    | succ levels ih =>
      funext n data partials name
      simp only [includeWithin, ih, template_withLayout]
      rfl
  rw [runtimes, hinclude]
  rfl

/-- A page is looked up before the layout, and the layout finds it among its partials. -/
theorem renderNamed_withLayout (r : Registry) {layout page : Text} (hpage : page ≠ layout)
    (data : Value) (partials : OuterPartials) :
    (r.withLayout layout).renderNamed page data (partials.table r.runtimes) = (do
      let t ← r.template page
      let content := OuterPartial.ofPage t page partials
      r.renderFound 1 data ((partials.table r.runtimes).insert r.options.partialName
        (content.run r.runtimes)) layout) := by
  have hfilter : (some layout).filter (· != page) = some layout := by
    simp [Option.filter, Ne.symm hpage]
  have hlayout : (r.withLayout layout).options.layout = some layout := rfl
  rw [renderNamed, hlayout, hfilter, template_withLayout, runtimes_withLayout]
  refine bind_congr fun t => ?_
  have hrender := r.render_eq (n := 0) (by decide) data layout
    (partials.insert r.options.partialName (.ofPage t page partials))
  rw [OuterPartials.table_insert] at hrender
  exact hrender

/-- A slot between two texts as the layout: the texts stand around what a page writes alone, and an
error passes through the layout. -/
theorem renderNamed_of_slot {r : Registry} (hoptions : r.options = .default) {layout a b : Text}
    (ha : a.IsInert) (hb : b.IsInert)
    (hlayout : r.sources.get? layout = some (Slot.between a b)) {page source : Text}
    (hsource : r.sources.get? page = some source) (hpage : page ≠ layout) (data : Value)
    (partials : OuterPartials) :
    (((r.withLayout layout).renderNamed page data (partials.table r.runtimes)).run ()).1 =
      (((r.renderNamed page data (partials.table r.runtimes)).run ()).1.map (a ++ · ++ b)).mapError
        (.inTemplate layout) := by
  have hnone : r.options.layout = none := by rw [hoptions]; rfl
  have hslot (content : Partial Nat Unit) :
      ((partials.table r.runtimes).insert Options.default.partialName content).get?
        Slot.target.name = some content := by
    have hname : Options.default.partialName = Slot.target.name := rfl
    simp [Table.insert, hname]
  rw [renderNamed_withLayout r hpage, template_of_source hsource, pure_bind,
    renderFound_of_source hlayout, renderNamed_of_layout_eq_none hnone,
    renderFound_of_source hsource, hoptions, Template.render_slot ha hb _ _ _ (hslot _)]
  exact RenderM.run_map_mapError (a ++ · ++ b) (.inTemplate layout) _

end Registry

namespace Engine

/-- Engines of the same sources, the second with a layout, are two registries. -/
theorem renderNamed_after_withLayout (library : Library) {before before' : List Request}
    (hsources : ∀ name, Request.lastSource? name before = Request.lastSource? name before')
    (layout page : Text) (data : Value) (partials : OuterPartials) :
    let r : Registry := ⟨.default, library, ⟨fun name => Request.lastSource? name before⟩⟩
    let wrapping := { Options.default with layout := some layout }
    ((renderNamed page data (partials.table runtimes)).run
      ((create wrapping library).after before')).1 =
        (((r.withLayout layout).renderNamed page data (partials.table r.runtimes)).run ()).1 := by
  intro r wrapping
  have htable : (fun name => Request.lastSource? name before') =
      fun name => Request.lastSource? name before := funext fun name => (hsources name).symm
  have hafter := renderNamed_after wrapping library before' page data partials
  rw [htable] at hafter
  rw [hafter, ← r.runtimes_withLayout layout]
  rfl

/-- A layout that is a slot between two texts only wraps: its texts stand around the output of a
page, its name around the error, and a page that is not there is not found. A page that is there
has no other errors. -/
theorem renderNamed_inside_layout (library : Library) {before before' : List Request}
    (hsources : ∀ name, Request.lastSource? name before = Request.lastSource? name before')
    {layout a b : Text} (ha : a.IsInert) (hb : b.IsInert)
    (hlayout : Request.lastSource? layout before = some (Slot.between a b)) {page : Text}
    (hpage : page ≠ layout) (data : Value) (partials : OuterPartials) :
    let e := (create .default library).after before
    let e' := (create { Options.default with layout := some layout } library).after before'
    let plain := ((renderNamed page data (partials.table runtimes)).run e).1
    let wrapped := ((renderNamed page data (partials.table runtimes)).run e').1
    (∀ out, plain = .ok out → wrapped = .ok (a ++ out ++ b)) ∧
    (∀ cause, plain = .error (.inTemplate page cause) →
      wrapped = .error (.inTemplate layout (.inTemplate page cause))) ∧
    (Request.lastSource? page before = none →
      plain = .error (.unknownTemplate page) ∧ wrapped = .error (.unknownTemplate page)) ∧
    (Request.lastSource? page before ≠ none → ∀ error, plain = .error error →
      ∃ cause, error = .inTemplate page cause) := by
  intro e e' plain wrapped
  let r : Registry := ⟨.default, library, ⟨fun name => Request.lastSource? name before⟩⟩
  have hplain : plain = ((r.renderNamed page data (partials.table r.runtimes)).run ()).1 :=
    renderNamed_after .default library before page data partials
  have hwrapped : wrapped =
      (((r.withLayout layout).renderNamed page data (partials.table r.runtimes)).run ()).1 :=
    renderNamed_after_withLayout library hsources layout page data partials
  rw [hplain, hwrapped]
  cases hsource : r.sources.get? page with
  | none =>
    rw [Registry.renderNamed_withLayout r hpage, Registry.renderNamed_of_layout_eq_none rfl,
      Registry.renderFound, Registry.template_of_unknown hsource]
    refine ⟨?_, ?_, fun _ => ⟨rfl, rfl⟩, fun hsome => absurd hsource hsome⟩
    · intro out hout
      cases hout
    · intro cause hcause
      cases hcause
  | some source =>
    rw [Registry.renderNamed_of_slot rfl ha hb hlayout hsource hpage]
    refine ⟨?_, ?_, ?_, ?_⟩
    · intro out hout
      rw [hout]
      rfl
    · intro cause hcause
      rw [hcause]
      rfl
    · intro hnone
      cases hsource.symm.trans hnone
    · intro _ error herror
      rw [Registry.renderNamed_of_layout_eq_none rfl,
        Registry.renderFound_of_source hsource] at herror
      exact RenderM.exists_of_run_mapError herror

/-- A page with an include inside of a layout, for data that it writes nothing of and for data that
it fails on, and a page that is not there. -/
theorem renderNamed_inside_layout_rows :
    let before : List Request := [.add "layout" "[<ins data-partial=\"content\"/>]",
      .add "row" "#\x7bx|nope\x7d", .add "page" "<b data-include=row></b>"]
    let e := (create .default Library.standard).after before
    let e' := (create { Options.default with layout := some "layout".toList }
      Library.standard).after before
    let data : Value := .object [("x".toList, .bool true)]
    let cause : RenderError := .inTemplate "row" (.unknownHandler "nope")
    ((renderNamed "page" .null .empty).run e).1 = .ok "<b></b>" ∧
      ((renderNamed "page" .null .empty).run e').1 = .ok "[<b></b>]" ∧
      ((renderNamed "page" data .empty).run e).1 = .error (.inTemplate "page" cause) ∧
      ((renderNamed "page" data .empty).run e').1 =
        .error (.inTemplate "layout" (.inTemplate "page" cause)) ∧
      ((renderNamed "none" data .empty).run e).1 = .error (.unknownTemplate "none") ∧
      ((renderNamed "none" data .empty).run e').1 = .error (.unknownTemplate "none") := by
  intro before e e' data cause
  have hok : ((renderNamed "page" .null .empty).run e).1 = .ok "<b></b>" := by decide +kernel
  have herror : ((renderNamed "page" data .empty).run e).1 = .error (.inTemplate "page" cause) := by
    decide +kernel
  have hlayout : Request.lastSource? "layout" before = some (Slot.between "[" "]") := by decide
  have hopen : Text.IsInert "[" := ⟨by decide, by decide⟩
  have hclose : Text.IsInert "]" := ⟨by decide, by decide⟩
  have hinside (page : Text) (hpage : page ≠ "layout".toList) (data : Value) :=
    renderNamed_inside_layout Library.standard (fun _ => rfl) hopen hclose
      hlayout hpage data fun _ => none
  have hnone := (hinside "none" (by decide) data).2.2.1 (by decide)
  exact ⟨hok, (hinside "page" (by decide) .null).1 _ hok, herror,
    (hinside "page" (by decide) data).2.1 cause herror, hnone.1, hnone.2⟩

end Engine

end HtmlTemplate
