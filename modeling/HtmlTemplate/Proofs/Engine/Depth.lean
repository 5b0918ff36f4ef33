import HtmlTemplate.Proofs.Engine.Reference

/-!
Includes end. A `Traced` engine is an engine that records its includes, as a tree: under every
include stand those that were made during it. Along an include the count of includes is one more
than before, and one too many is refused. So a tree is at most as high as the limit allows, the
levels that bound the recursion never run out, and an engine has its count back after every include,
also after one that failed (`includes_bounded`).
-/

namespace HtmlTemplate

inductive IncludeCall
  /-- There were too many around. -/
  | refused (name : Text)
  /-- A template was looked up and rendered. The counts are those before and after it. -/
  | made (name : Text) (before : Nat) (inner : List IncludeCall) (after : Nat)
  /-- There were not too many around, but no level was left. -/
  | cutOff (name : Text)

namespace IncludeCall

mutual

/-- The number of includes that are active at once during one, itself included. -/
def height : IncludeCall → Nat
  | refused _ => 0
  | made _ _ inner _ => heights inner + 1
  | cutOff _ => 0

/-- The number of includes that are active at once while some are made one after the other. -/
def heights : List IncludeCall → Nat
  | [] => 0
  | c :: cs => max c.height (heights cs)

end

/-- What is wanted of an include inside of `n` others. It is refused if these are too many, and only
then; else it leaves the count as it was. None is cut off. -/
inductive Sound : Nat → IncludeCall → Prop
  | refused {n : Nat} {name : Text} (h : maxIncludeDepth ≤ n) : Sound n (.refused name)
  | made {n : Nat} {name : Text} {inner : List IncludeCall} (h : n < maxIncludeDepth)
      (hinner : ∀ c ∈ inner, Sound (n + 1) c) : Sound n (.made name n inner n)

theorem heights_le {cs : List IncludeCall} {b : Nat} (h : ∀ c ∈ cs, c.height ≤ b) :
    heights cs ≤ b := by
  induction cs with
  | nil => exact Nat.zero_le b
  | cons c cs ih =>
    have hhead := h c List.mem_cons_self
    have htail := ih fun d hd => h d (List.mem_cons_of_mem c hd)
    exact Nat.max_le.mpr ⟨hhead, htail⟩

theorem Sound.height_le {n : Nat} {c : IncludeCall} (h : Sound n c) :
    c.height ≤ maxIncludeDepth - n := by
  induction h with
  | refused => exact Nat.zero_le _
  | @made n name inner hn _ ih =>
    have hinner : heights inner ≤ maxIncludeDepth - (n + 1) := heights_le ih
    rw [height]
    omega

end IncludeCall

/-- An engine with a record of the includes that were made. -/
structure Traced where
  engine : Engine
  calls : List IncludeCall

namespace Traced

def record (w : Traced) (c : IncludeCall) : Traced := { w with calls := w.calls ++ [c] }

/-- Something an engine does that makes no includes. -/
def lift {α : Type} (action : RenderM Engine α) : RenderM Traced α := ExceptT.mk fun w =>
  let (result, e) := action.run w.engine
  (result, { w with engine := e })

def counted {α : Type} (name : Text) (action : RenderM Traced α) : RenderM Traced α :=
  ExceptT.mk fun w =>
    if w.engine.includes ≥ maxIncludeDepth then (.error .includeDepth, w.record (.refused name))
    else
      let before := w.engine.includes
      let (result, last) := action.run ⟨{ w.engine with includes := before + 1 }, []⟩
      let after := last.engine.includes - 1
      (result, { w with engine := { last.engine with includes := after } }.record
        (.made name before last.calls after))

def cutOff (name : Text) : RenderM Traced Text := ExceptT.mk fun w =>
  if w.engine.includes ≥ maxIncludeDepth then (.error .includeDepth, w.record (.refused name))
  else (.error .includeDepth, w.record (.cutOff name))

def renderFound (rts : Runtimes Library Traced) (library : Library) (data : Value)
    (partials : Partials Library Traced) (name : Text) : RenderM Traced Text := do
  let c ← lift (Engine.template name)
  (c.template.render rts library data partials).mapError (.inTemplate name)

def includeWithin :
    (levels : Nat) → Library → Value → Partials Library Traced → Text → RenderM Traced Text
  | 0, _, _, _, name => cutOff name
  | levels + 1, library, data, partials, name =>
    counted name (renderFound ⟨id, includeWithin levels⟩ library data partials name)

def runtimes : Runtimes Library Traced := ⟨id, includeWithin maxIncludeDepth⟩

def renderNamed (name : Text) (data : Value) (partials : Partials Library Traced) :
    RenderM Traced Text := do
  let w ← get
  match w.engine.options.layout.filter (· != name) with
  | none => runtimes.render w.engine.library data partials name
  | some layout =>
    let page ← lift (Engine.template name)
    let content : Partial Library Traced := fun library data =>
      (page.template.render runtimes library data partials).mapError (.inTemplate name)
    runtimes.render w.engine.library data (partials.insert w.engine.options.partialName content)
      layout

def renderUnnamed (source : Text) (data : Value) : RenderM Traced Text := do
  let w ← get
  let c ← lift (Engine.compile source)
  c.template.render runtimes w.engine.library data .empty

/-- The traced engine has the state of the other, `n` includes are active, which are at least `k`,
and all includes inside of these are as wanted. -/
structure Traces (k n : Nat) (library library' : Library) (w : Traced) (e : Engine) : Prop where
  library : library = library'
  engine : w.engine = e
  includes : e.includes = n
  reached : k ≤ n
  sound : ∀ c ∈ w.calls, c.Sound n

variable {k n : Nat} {library library' : Library} {w : Traced} {e : Engine}

theorem Traces.start (library : Library) (e : Engine) :
    Traces 0 e.includes library library ⟨e, []⟩ e :=
  ⟨rfl, rfl, rfl, Nat.zero_le _, fun _ hc => absurd hc List.not_mem_nil⟩

theorem Traces.record (h : Traces k n library library' w e) {c : IncludeCall} (hc : c.Sound n) :
    Traces k n library library' (w.record c) e where
  library := h.library
  engine := h.engine
  includes := h.includes
  reached := h.reached
  sound := by
    intro d hd
    rcases List.mem_append.mp hd with hd | hd
    · exact h.sound d hd
    · rw [List.mem_singleton.mp hd]
      exact hc

/-- Inside of one include more nothing is recorded yet. -/
theorem Traces.enter (h : Traces k n library library' w e) :
    Traces (k + 1) (n + 1) library library' ⟨{ e with includes := n + 1 }, []⟩
      { e with includes := n + 1 } :=
  ⟨h.library, rfl, rfl, Nat.succ_le_succ h.reached, fun _ hc => absurd hc List.not_mem_nil⟩

/-- An include is over, and what was recorded inside of it becomes its record. -/
theorem Traces.leave (h : Traces k n library library' w e) (hn : n < maxIncludeDepth)
    {last : Traced} {last' : Engine} (hlast : Traces (k + 1) (n + 1) library library' last last')
    (name : Text) :
    Traces k n library library'
      (Traced.record ⟨{ last.engine with includes := n }, w.calls⟩ (.made name n last.calls n))
      { last' with includes := n } := by
  have hdone : Traces k n library library' ⟨{ last.engine with includes := n }, w.calls⟩
      { last' with includes := n } :=
    ⟨h.library, by rw [hlast.engine], rfl, h.reached, h.sound⟩
  exact hdone.record (.made hn hlast.sound)

theorem Traces.weaken (h : Traces (k + 1) n library library' w e) :
    Traces k n library library' w e :=
  ⟨h.library, h.engine, h.includes, Nat.le_of_succ_le h.reached, h.sound⟩

end Traced

namespace Engine

/-- What an include does besides counting. -/
def renderFound (rts : Runtimes Library Engine) (library : Library) (data : Value)
    (partials : Partials Library Engine) (name : Text) : RenderM Engine Text := do
  let c ← template name
  (c.template.render rts library data partials).mapError (.inTemplate name)

theorem run_template_includes (name : Text) (e : Engine) :
    ((template name).run e).2.includes = e.includes := by
  rw [run_template]
  split
  · rfl
  · split
    · rfl
    · simp only
      split <;> rfl

theorem run_compile_includes (source : Text) (e : Engine) :
    ((compile source).run e).2.includes = e.includes := rfl

theorem includeWithin_of_le {e : Engine} (h : maxIncludeDepth ≤ e.includes) (levels : Nat)
    (library : Library) (data : Value) (partials : Partials Library Engine) (name : Text) :
    (includeWithin levels library data partials name).run e = (.error .includeDepth, e) := by
  cases levels with
  | zero => rfl
  | succ levels => exact (run_counted _ e).trans (if_pos h)

end Engine

namespace Traced

variable {k n : Nat} {library library' : Library}

theorem includeWithin_of_le {w : Traced} (h : maxIncludeDepth ≤ w.engine.includes) (levels : Nat)
    (library : Library) (data : Value) (partials : Partials Library Traced) (name : Text) :
    (includeWithin levels library data partials name).run w =
      (.error .includeDepth, w.record (.refused name)) := by
  cases levels with
  | zero => exact if_pos h
  | succ levels => exact if_pos h

/-- What makes no includes keeps their count. -/
theorem lift_relates {α : Type} {x : RenderM Engine α}
    (hx : ∀ e, (x.run e).2.includes = e.includes) :
    RenderM.Relates (Traces k n library library') Eq (lift x) x := by
  intro w e h
  obtain ⟨e, calls⟩ := w
  obtain rfl := h.engine
  exact ⟨.refl (fun _ => rfl) _, h.library, rfl, (hx e).trans h.includes, h.reached, h.sound⟩

/-- Both engines refuse an include inside of too many. -/
theorem includeWithin_relates_of_le (h : maxIncludeDepth ≤ n) (levels levels' : Nat) (data : Value)
    (t : Partials Library Traced) (u : Partials Library Engine) (name : Text) :
    RenderM.Relates (Traces k n library library') Eq
      (includeWithin levels library data t name)
      (Engine.includeWithin levels' library' data u name) := by
  intro w e hw
  have he : maxIncludeDepth ≤ e.includes := by rw [hw.includes]; exact h
  have hw' : maxIncludeDepth ≤ w.engine.includes := by rw [hw.engine]; exact he
  rw [includeWithin_of_le hw', Engine.includeWithin_of_le he]
  exact ⟨rfl, hw.record (.refused h)⟩

theorem run_counted (name : Text) (action : RenderM Traced Text) (w : Traced) :
    (counted name action).run w =
      if w.engine.includes ≥ maxIncludeDepth then (.error .includeDepth, w.record (.refused name))
      else
        let before := w.engine.includes
        let last := (action.run ⟨{ w.engine with includes := before + 1 }, []⟩).2
        let after := last.engine.includes - 1
        ((action.run ⟨{ w.engine with includes := before + 1 }, []⟩).1,
          record ⟨{ last.engine with includes := after }, w.calls⟩
            (.made name before last.calls after)) := rfl

/-- What an action records inside of one include more becomes the record of that include. -/
theorem counted_relates {name : Text} {x : RenderM Traced Text} {y : RenderM Engine Text}
    (h : RenderM.Relates (Traces (k + 1) (n + 1) library library') Eq x y) :
    RenderM.Relates (Traces k n library library') Eq (counted name x) (Engine.counted y) := by
  intro w e hw
  rw [run_counted, Engine.run_counted, hw.engine, hw.includes]
  by_cases hfull : n ≥ maxIncludeDepth
  · rw [if_pos hfull, if_pos hfull]
    exact ⟨rfl, hw.record (.refused hfull)⟩
  · rw [if_neg hfull, if_neg hfull]
    obtain ⟨hresult, hlast⟩ := h _ _ hw.enter
    refine ⟨hresult, ?_⟩
    simp only [hlast.engine, hlast.includes, Nat.add_sub_cancel]
    have hleave := hw.leave (Nat.lt_of_not_le hfull) hlast name
    rwa [hlast.engine] at hleave

/-- An include in both engines, when includes inside of it are related. -/
theorem include_relates {rts : Runtimes Library Traced} {rts' : Runtimes Library Engine}
    (h : Runtimes.Relates (Traces (k + 1)) rts rts') {t : Partials Library Traced}
    {u : Partials Library Engine} (ht : Partials.Relates (Traces (k + 1)) t u) (data : Value)
    (name : Text) :
    RenderM.Relates (Traces k n library library') Eq
      (counted name (renderFound rts library data t name))
      (Engine.counted (Engine.renderFound rts' library' data u name)) := by
  apply counted_relates
  refine (lift_relates (Engine.run_template_includes name)).bind ?_
  rintro c _ rfl
  exact (c.template.render_relates h (n + 1) library library' data ht).mapError (.inTemplate name)

/-- Partials are as good inside of more includes. -/
theorem partials_weaken {t : Partials Library Traced} {u : Partials Library Engine}
    (h : Partials.Relates (Traces k) t u) : Partials.Relates (Traces (k + 1)) t u := by
  intro name
  have hname := h name
  generalize t.get? name = p at hname ⊢
  generalize u.get? name = q at hname ⊢
  cases hname with
  | none => exact .none
  | some hp =>
    refine .some fun n library library' data w e hw => ?_
    obtain ⟨hresult, hlast⟩ := hp n library library' data w e hw.weaken
    exact ⟨hresult, hlast.library, hlast.engine, hlast.includes, hw.reached, hlast.sound⟩

theorem includeWithin_relates (levels levels' k : Nat) (h : maxIncludeDepth ≤ levels + k)
    (h' : maxIncludeDepth ≤ levels' + k) :
    Runtimes.Relates (Traces k) ⟨id, includeWithin levels⟩ ⟨id, Engine.includeWithin levels'⟩ := by
  induction levels generalizing levels' k with
  | zero =>
    refine ⟨fun hs => hs.library, ?_⟩
    intro n library library' data t u name ht
    refine .of_states (fun _ _ hs => hs.reached) fun hreached => ?_
    exact includeWithin_relates_of_le (by omega) 0 levels' data t u name
  | succ levels ih =>
    refine ⟨fun hs => hs.library, ?_⟩
    intro n library library' data t u name ht
    cases levels' with
    | zero =>
      refine .of_states (fun _ _ hs => hs.reached) fun hreached => ?_
      exact includeWithin_relates_of_le (by omega) (levels + 1) 0 data t u name
    | succ levels' =>
      have hinner := ih levels' (k + 1) (by omega) (by omega)
      exact include_relates hinner (partials_weaken ht) data name

theorem runtimes_relates : Runtimes.Relates (Traces 0) runtimes Engine.runtimes :=
  includeWithin_relates maxIncludeDepth maxIncludeDepth 0 (Nat.le_refl _) (Nat.le_refl _)

/-- Of two equal libraries it does not matter which they are. -/
theorem traces_self (k n : Nat) (library library' : Library) :
    Traces k n library library = Traces k n library' library' := by
  funext w e
  refine propext ⟨fun h => ?_, fun h => ?_⟩
  · exact ⟨rfl, h.engine, h.includes, h.reached, h.sound⟩
  · exact ⟨rfl, h.engine, h.includes, h.reached, h.sound⟩

theorem renderNamed_relates (name : Text) (data : Value) {t : Partials Library Traced}
    {u : Partials Library Engine} (ht : Partials.Relates (Traces 0) t u) :
    RenderM.Relates (Traces 0 n library library) Eq (renderNamed name data t)
      (Engine.renderNamed name data u) := by
  refine .get_bind fun w e h => ?_
  have hrender (name) {t : Partials Library Traced} {u : Partials Library Engine}
      (ht : Partials.Relates (Traces 0) t u) :
      RenderM.Relates (Traces 0 n library library) Eq (runtimes.render e.library data t name)
        (Engine.runtimes.render e.library data u name) := by
    rw [traces_self 0 n library e.library]
    exact runtimes_relates.render n e.library e.library data name ht
  simp only [h.engine]
  cases e.options.layout.filter (· != name) with
  | none => exact hrender name ht
  | some layout =>
    refine (lift_relates (Engine.run_template_includes name)).bind ?_
    rintro c _ rfl
    refine hrender layout (ht.insert e.options.partialName ?_)
    intro n library library' data
    exact (c.template.render_relates runtimes_relates n library library' data ht).mapError
      (.inTemplate name)

theorem renderUnnamed_relates (source : Text) (data : Value) :
    RenderM.Relates (Traces 0 n library library) Eq (renderUnnamed source data)
      (Engine.renderUnnamed source data) := by
  refine .get_bind fun w e h => ?_
  refine (lift_relates (Engine.run_compile_includes source)).bind ?_
  rintro c _ rfl
  rw [h.engine, traces_self 0 n library e.library]
  exact c.template.render_relates runtimes_relates n e.library e.library data .empty

end Traced

namespace Engine

/-- A recorded action is the action, with all includes as wanted. -/
structure Recorded (e : Engine) (action : RenderM Engine Text) (recorded : RenderM Traced Text) :
    Prop where
  run_eq : action.run e = ((recorded.run ⟨e, []⟩).1, (recorded.run ⟨e, []⟩).2.engine)
  sound : ∀ c ∈ (recorded.run ⟨e, []⟩).2.calls, c.Sound e.includes
  height_le : IncludeCall.heights (recorded.run ⟨e, []⟩).2.calls ≤ maxIncludeDepth - e.includes
  includes_eq : (action.run e).2.includes = e.includes

theorem Recorded.of_relates {e : Engine} {action : RenderM Engine Text}
    {recorded : RenderM Traced Text}
    (h : RenderM.Relates (Traced.Traces 0 e.includes e.library e.library) Eq recorded action) :
    Recorded e action recorded := by
  obtain ⟨hresult, hlast⟩ := h _ _ (.start e.library e)
  exact {
    run_eq := Prod.ext hresult.eq.symm hlast.engine.symm
    sound := hlast.sound
    height_le := IncludeCall.heights_le fun c hc => (hlast.sound c hc).height_le
    includes_eq := hlast.includes }

theorem run_counted_of_includes {α : Type} {action : RenderM Engine α} {e : Engine}
    (h : ((counted action).run e).2.includes = e.includes) :
    (counted action).run e =
      if e.includes ≥ maxIncludeDepth then (.error .includeDepth, e)
      else
        let last := action.run { e with includes := e.includes + 1 }
        (last.1, { last.2 with includes := e.includes }) := by
  rw [run_counted] at h ⊢
  split
  · rfl
  · next hfree =>
    rw [if_neg hfree] at h
    exact congrArg (fun includes => (_, { (_ : Engine) with includes })) h

/-- Includes without levels: one is refused inside of too many, and else it is rendered, with one
more active, in the same runtimes. -/
theorem run_render (e : Engine) (library : Library) (data : Value) (name : Text)
    (partials : OuterPartials) :
    (runtimes.render library data (partials.table runtimes) name).run e =
      if e.includes ≥ maxIncludeDepth then (.error .includeDepth, e)
      else
        let found := renderFound runtimes library data (partials.table runtimes) name
        let last := found.run { e with includes := e.includes + 1 }
        (last.1, { last.2 with includes := e.includes }) := by
  have hpartials : Partials.Relates (Traced.Traces 1) (partials.table Traced.runtimes)
      (partials.table runtimes) :=
    Traced.partials_weaken (partials.relates Traced.runtimes_relates)
  -- Inside of the include one level less is as good, for there is one include more around.
  have hrecorded (levels : Nat) (hlevels : maxIncludeDepth ≤ levels + 1) :
      Recorded e (counted (renderFound ⟨id, includeWithin levels⟩ library data
          (partials.table runtimes) name))
        (Traced.counted name (Traced.renderFound Traced.runtimes library data
          (partials.table Traced.runtimes) name)) := by
    refine .of_relates ?_
    rw [Traced.traces_self 0 e.includes e.library library]
    have hruntimes := Traced.includeWithin_relates maxIncludeDepth levels 1 (Nat.le_succ _) hlevels
    exact Traced.include_relates hruntimes hpartials data name
  have hless := hrecorded (maxIncludeDepth - 1) (Nat.le_refl _)
  have hsame := hrecorded maxIncludeDepth (Nat.le_succ _)
  calc (runtimes.render library data (partials.table runtimes) name).run e
      = (counted (renderFound runtimes library data (partials.table runtimes) name)).run e :=
        hless.run_eq.trans hsame.run_eq.symm
    _ = _ := run_counted_of_includes hsame.includes_eq

/-- Rendering ends. The includes that are active at once are never more than allowed, one too many
is refused, and the count is back after every include and at the end. No include needs the levels
that bound the recursion. -/
theorem includes_bounded (e : Engine) (data : Value) :
    (∀ name (partials : OuterPartials), Recorded e
      (renderNamed name data (partials.table runtimes))
      (Traced.renderNamed name data (partials.table Traced.runtimes))) ∧
    (∀ source, Recorded e (renderUnnamed source data) (Traced.renderUnnamed source data)) ∧
    (∀ library name (partials : OuterPartials),
      (runtimes.render library data (partials.table runtimes) name).run e =
        if e.includes ≥ maxIncludeDepth then (.error .includeDepth, e)
        else
          let found := renderFound runtimes library data (partials.table runtimes) name
          let last := found.run { e with includes := e.includes + 1 }
          (last.1, { last.2 with includes := e.includes })) := by
  refine ⟨?_, ?_, ?_⟩
  · intro name partials
    have hpartials := partials.relates Traced.runtimes_relates
    exact .of_relates (Traced.renderNamed_relates name data hpartials)
  · intro source
    exact .of_relates (Traced.renderUnnamed_relates source data)
  · intro library name partials
    exact run_render e library data name partials

end Engine

end HtmlTemplate
