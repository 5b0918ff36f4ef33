import HtmlTemplate.Engine
import HtmlTemplate.Proofs.Render.Parametric

/-!
An engine answers like one without a cache. The reference, a `Registry`, keeps the source added last
under each name and nothing else: it compiles on every use, and an include is told how many others
are around it. What the engine's cache holds is always compiled from the present sources, so each
request gets the same answer from both (`answer_mirrors`), and so does each sequence of requests
(`answers_eq_registry`).
-/

namespace HtmlTemplate

/-- The sources of templates, compiled on every use. -/
structure Registry where
  options : Options
  library : Library
  sources : Table Text

namespace Registry

def create (options : Options) (library : Library) : Registry := ⟨options, library, .empty⟩

def add (r : Registry) (name source : Text) : Registry :=
  { r with sources := r.sources.insert name source }

def template (r : Registry) (name : Text) : RenderM Unit Template :=
  match r.sources.get? name with
  | none => throw (.unknownTemplate name)
  | some source => pure (.compile source r.options)

/-- Renders a template that is included inside of `includes` others. -/
def includeWithin (r : Registry) :
    (levels : Nat) → (includes : Nat) → Value → Partials Nat Unit → Text → RenderM Unit Text
  | 0, _, _, _, _ => throw .includeDepth
  | levels + 1, includes, data, partials, name =>
    if includes ≥ maxIncludeDepth then throw .includeDepth
    else do
      let t ← r.template name
      (t.render ⟨fun _ => r.library, r.includeWithin levels⟩ (includes + 1) data partials).mapError
        (.inTemplate name)

/-- The runtimes that find the templates of a registry. One is given by the number of includes
around. -/
def runtimes (r : Registry) : Runtimes Nat Unit :=
  ⟨fun _ => r.library, r.includeWithin maxIncludeDepth⟩

def renderNamed (r : Registry) (name : Text) (data : Value) (partials : Partials Nat Unit) :
    RenderM Unit Text :=
  match r.options.layout.filter (· != name) with
  | none => r.runtimes.render 0 data partials name
  | some layout => do
    let page ← r.template name
    let content : Partial Nat Unit := fun includes data =>
      (page.render r.runtimes includes data partials).mapError (.inTemplate name)
    r.runtimes.render 0 data (partials.insert r.options.partialName content) layout

def renderUnnamed (r : Registry) (source : Text) (data : Value) : RenderM Unit Text :=
  (Template.compile source r.options).render r.runtimes 0 data .empty

end Registry

/-! ## Requests -/

inductive Request
  | add (name source : Text)
  | contains (name : Text)
  | template (name : Text)
  | render (name : Text) (data : Value) (partials : OuterPartials)
  | renderSource (source : Text) (data : Value)

namespace Request

def source? (name : Text) : Request → Option Text
  | add n source => if n = name then some source else none
  | _ => none

def lastSource? (name : Text) (requests : List Request) : Option Text :=
  requests.reverse.findSome? (source? name)

/-- What is still kept of compiled templates after a request. -/
def forget (kept : Table Compiled) : Request → Table Compiled
  | add name _ => kept.erase name
  | _ => kept

end Request

/-- What can be seen of the answer to a request. Of a template these are its two forms. -/
inductive Answer
  | added
  | contained (answer : Bool)
  | compiled (instrs : List Instr) (javaScript : Text)
  | rendered (text : Text)
  | failed (error : RenderError)
deriving DecidableEq

namespace Answer

def ofTemplate : Except RenderError Template → Answer
  | .ok t => compiled t.instrs t.javaScript
  | .error e => failed e

def ofText : Except RenderError Text → Answer
  | .ok t => rendered t
  | .error e => failed e

end Answer

namespace Engine

def answer (e : Engine) : Request → Answer × Engine
  | .add name source => (.added, e.add name source)
  | .contains name => (.contained (e.contains name), e)
  | .template name =>
    let (result, e) := (template name).run e
    (.ofTemplate (result.map Compiled.template), e)
  | .render name data partials =>
    let (result, e) := (renderNamed name data (partials.table runtimes)).run e
    (.ofText result, e)
  | .renderSource source data =>
    let (result, e) := (renderUnnamed source data).run e
    (.ofText result, e)

def after (e : Engine) (requests : List Request) : Engine :=
  requests.foldl (fun e q => (e.answer q).2) e

def answers (e : Engine) : List Request → List Answer
  | [] => []
  | q :: qs => (e.answer q).1 :: (e.answer q).2.answers qs

end Engine

namespace Registry

def answer (r : Registry) : Request → Answer
  | .add _ _ => .added
  | .contains name => .contained (r.sources.contains name)
  | .template name => .ofTemplate ((r.template name).run ()).1
  | .render name data partials =>
    .ofText ((r.renderNamed name data (partials.table r.runtimes)).run ()).1
  | .renderSource source data => .ofText ((r.renderUnnamed source data).run ()).1

def next (r : Registry) : Request → Registry
  | .add name source => r.add name source
  | _ => r

def after (r : Registry) (requests : List Request) : Registry := requests.foldl next r

def answers (r : Registry) : List Request → List Answer
  | [] => []
  | q :: qs => r.answer q :: (r.next q).answers qs

end Registry

/-! ## The cache -/

namespace Emission

/-- Of the options, emission reads the containers only. -/
theorem emitFrom_congr {o o' : Options} (h : o.containers = o'.containers) (count i : Nat)
    (p : Progress) (tokens : List Token.Paired) :
    emitFrom o count i p tokens = emitFrom o' count i p tokens := by
  obtain ⟨compress, cache, layout, partialName, containers⟩ := o
  obtain ⟨compress', cache', layout', partialName', containers'⟩ := o'
  obtain rfl : containers = containers' := h
  induction tokens generalizing i p with
  | nil => rfl
  | cons t ts ih => exact ih (i + 1) (emitToken _ count i p t)

end Emission

/-- Of the options, compilation reads the containers and whether to compress. -/
theorem Template.compile_congr {o o' : Options} (hcompress : o.compress = o'.compress)
    (hcontainers : o.containers = o'.containers) (source : Text) :
    compile source o = compile source o' := by
  have htokens : Compile.tokens source o = Compile.tokens source o' := by
    rw [Compile.tokens, hcompress]
    rfl
  have hemission : Compile.emission source o = Compile.emission source o' := by
    rw [Compile.emission, htokens]
    exact congrArg Emission.Progress.state (Emission.emitFrom_congr hcontainers _ _ _ _)
  rw [compile, Compile.instrs, hemission]
  rfl

namespace Engine

/-- The engine has the sources of the registry, `includes` includes are being rendered, and what it
has kept is compiled from its sources. All of `kept` is still kept. -/
structure Mirrors (r : Registry) (cache : Bool) (kept : Table Compiled) (library : Library)
    (includes : Nat) (e : Engine) (_ : Unit) : Prop where
  runtime : library = r.library
  library : e.library = r.library
  options : e.options = { r.options with cache }
  sources : e.sources = r.sources
  includes : e.includes = includes
  coherent : ∀ name c, e.cache.get? name = some c →
    ∃ source, r.sources.get? name = some source ∧ c.template = .compile source r.options
  keeps : ∀ name c, kept.get? name = some c → e.cache.get? name = some c

variable {r : Registry} {cache : Bool} {kept : Table Compiled} {library : Library} {n : Nat}
  {e : Engine}

/-- An engine that was just given the sources of a registry, inside of `n` includes. -/
def ofRegistry (r : Registry) (cache : Bool) (n : Nat) : Engine :=
  ⟨{ r.options with cache }, r.library, r.sources, .empty, [], n⟩

theorem mirrors_ofRegistry (r : Registry) (cache : Bool) (n : Nat) :
    Mirrors r cache .empty r.library n (ofRegistry r cache n) () where
  runtime := rfl
  library := rfl
  options := rfl
  sources := rfl
  includes := rfl
  coherent := by
    intro name c hc
    cases hc
  keeps := by
    intro name c hc
    cases hc

theorem Mirrors.compile_eq (h : Mirrors r cache kept library n e ()) (source : Text) :
    Template.compile source e.options = .compile source r.options :=
  Template.compile_congr (by rw [h.options]) (by rw [h.options]) source

/-- One more or one less include. -/
theorem Mirrors.withIncludes (h : Mirrors r cache kept library n e ()) (k : Nat) :
    Mirrors r cache kept library k { e with includes := k } () :=
  ⟨h.runtime, h.library, h.options, h.sources, rfl, h.coherent, h.keeps⟩

theorem Mirrors.withCompilations (h : Mirrors r cache kept library n e ()) (sources : List Text) :
    Mirrors r cache kept library n { e with compilations := sources } () :=
  ⟨h.runtime, h.library, h.options, h.sources, h.includes, h.coherent, h.keeps⟩

/-- A compiled template is kept where none was. -/
theorem Mirrors.withCached (h : Mirrors r cache kept library n e ()) {name source : Text}
    (hnone : e.cache.get? name = none) (hsource : r.sources.get? name = some source) {c : Compiled}
    (hc : c.template = .compile source r.options) :
    Mirrors r cache kept library n { e with cache := e.cache.insert name c } () where
  runtime := h.runtime
  library := h.library
  options := h.options
  sources := h.sources
  includes := h.includes
  coherent := by
    intro other d hd
    by_cases hname : other = name
    · subst hname
      obtain rfl : c = d := by simpa [Table.insert] using hd
      exact ⟨source, hsource, hc⟩
    · exact h.coherent other d (by simpa [Table.insert, hname] using hd)
  keeps := by
    intro other d hd
    have hkept := h.keeps other d hd
    by_cases hname : other = name
    · subst hname
      simp [hnone] at hkept
    · simpa [Table.insert, hname] using hkept

/-- A source is added, and what was compiled from the one before is forgotten. -/
theorem Mirrors.add (h : Mirrors r cache kept library n e ()) (name source : Text) :
    Mirrors (r.add name source) cache (kept.erase name) library n (e.add name source) () where
  runtime := h.runtime
  library := h.library
  options := h.options
  sources := congrArg (Table.insert · name source) h.sources
  includes := h.includes
  coherent := by
    intro other c hc
    by_cases hname : other = name
    · simp [Engine.add, Table.erase, hname] at hc
    · have hcached : e.cache.get? other = some c := by
        simpa [Engine.add, Table.erase, hname] using hc
      obtain ⟨s, hs, htemplate⟩ := h.coherent other c hcached
      exact ⟨s, by simpa [Registry.add, Table.insert, hname] using hs, htemplate⟩
  keeps := by
    intro other c hc
    by_cases hname : other = name
    · simp [Table.erase, hname] at hc
    · have hkept := h.keeps other c (by simpa [Table.erase, hname] using hc)
      simpa [Engine.add, Table.erase, hname] using hkept

/-- What looking up a template does. -/
theorem run_template (name : Text) (e : Engine) :
    (template name).run e =
      match if e.options.cache then e.cache.get? name else none with
      | some c => (.ok c, e)
      | none =>
        match e.sources.get? name with
        | none => (.error (.unknownTemplate name), e)
        | some source =>
          let c : Compiled := ⟨e.compilations.length, .compile source e.options⟩
          let compiled := { e with compilations := source :: e.compilations }
          (.ok c, if e.options.cache then { compiled with cache := e.cache.insert name c }
            else compiled) := by
  unfold template
  rw [RenderM.run_bind]
  change (ExceptT.run (match if e.options.cache then e.cache.get? name else none with
    | some c => pure c
    | none => _) : StateM Engine _) e = _
  cases if e.options.cache then e.cache.get? name else none with
  | some c => rfl
  | none =>
    simp only
    cases e.sources.get? name with
    | none => rfl
    | some source => rfl

theorem run_counted {α : Type} (action : RenderM Engine α) (e : Engine) :
    (counted action).run e =
      if e.includes ≥ maxIncludeDepth then (.error .includeDepth, e)
      else
        let last := (action.run { e with includes := e.includes + 1 }).2
        ((action.run { e with includes := e.includes + 1 }).1,
          { last with includes := last.includes - 1 }) := rfl

/-- The engine finds the templates of the registry, and keeps no others. -/
theorem template_relates (name : Text) :
    RenderM.Relates (Mirrors r cache kept library n) (fun c t => c.template = t) (template name)
      (r.template name) := by
  intro e _ h
  have hsources : e.sources.get? name = r.sources.get? name := by rw [h.sources]
  rw [run_template, hsources]
  unfold Registry.template
  cases hcached : if e.options.cache then e.cache.get? name else none with
  | some c =>
    have hget : e.cache.get? name = some c := by
      split at hcached
      · exact hcached
      · simp at hcached
    obtain ⟨source, hsource, hc⟩ := h.coherent name c hget
    rw [hsource]
    exact ⟨hc, h⟩
  | none =>
    cases hsource : r.sources.get? name with
    | none => exact ⟨rfl, h⟩
    | some source =>
      have hcompile := h.compile_eq source
      refine ⟨hcompile, ?_⟩
      simp only
      split
      · next hcache =>
        rw [if_pos hcache] at hcached
        have hinsert := h.withCached hcached hsource
          (c := ⟨e.compilations.length, .compile source e.options⟩) hcompile
        exact hinsert.withCompilations (source :: e.compilations)
      · exact h.withCompilations (source :: e.compilations)

/-- An action inside of a counted include mirrors one that is told of one include more. -/
theorem counted_relates {α : Type} {x : RenderM Engine α} {y : RenderM Unit α}
    (h : RenderM.Relates (Mirrors r cache kept library (n + 1)) Eq x y) :
    RenderM.Relates (Mirrors r cache kept library n) Eq (counted x)
      (if n ≥ maxIncludeDepth then throw .includeDepth else y) := by
  intro e _ he
  rw [run_counted, he.includes]
  split
  · exact ⟨rfl, he⟩
  · obtain ⟨hresult, hlast⟩ := h _ () (he.withIncludes (n + 1))
    refine ⟨hresult, ?_⟩
    simp only [hlast.includes, Nat.add_sub_cancel]
    exact hlast.withIncludes n

/-- Includes in the engine and in the registry. -/
theorem includeWithin_relates (r : Registry) (levels : Nat) :
    Runtimes.Relates (Mirrors r cache) ⟨id, includeWithin levels⟩
      ⟨fun _ => r.library, r.includeWithin levels⟩ := by
  induction levels with
  | zero => exact ⟨fun h => h.runtime, fun _ _ _ _ _ _ _ _ => .throw .includeDepth⟩
  | succ levels ih =>
    refine ⟨fun h => h.runtime, ?_⟩
    intro kept library n data t u name ht
    apply counted_relates
    refine (template_relates name).bind ?_
    rintro c _ rfl
    exact (c.template.render_relates ih kept library (n + 1) data ht).mapError (.inTemplate name)

theorem runtimes_relates (r : Registry) : Runtimes.Relates (Mirrors r cache) runtimes r.runtimes :=
  includeWithin_relates r maxIncludeDepth

theorem renderNamed_relates (name : Text) (data : Value) {t : Partials Library Engine}
    {u : Partials Nat Unit} (ht : Partials.Relates (Mirrors r cache) t u) :
    RenderM.Relates (Mirrors r cache kept r.library 0) Eq (renderNamed name data t)
      (r.renderNamed name data u) := by
  unfold renderNamed Registry.renderNamed
  refine .get_bind_left fun e _ h => ?_
  have hrender (name) {t : Partials Library Engine} {u : Partials Nat Unit}
      (ht : Partials.Relates (Mirrors r cache) t u) :
      RenderM.Relates (Mirrors r cache kept r.library 0) Eq
        (runtimes.render e.library data t name) (r.runtimes.render 0 data u name) := by
    rw [h.library]
    exact (runtimes_relates r).render kept r.library 0 data name ht
  simp only [h.options]
  cases r.options.layout.filter (· != name) with
  | none => exact hrender name ht
  | some layout =>
    refine (template_relates name).bind ?_
    rintro c _ rfl
    refine hrender layout (ht.insert r.options.partialName ?_)
    intro kept library n data
    exact (c.template.render_relates (runtimes_relates r) kept library n data ht).mapError
      (.inTemplate name)

/-- Compiling a source, without keeping the result. -/
theorem compile_relates (source : Text) :
    RenderM.Relates (Mirrors r cache kept library n) (fun c t => c.template = t) (compile source)
      (pure (Template.compile source r.options) : RenderM Unit Template) := by
  intro e _ h
  exact ⟨h.compile_eq source, h.withCompilations (source :: e.compilations)⟩

theorem renderUnnamed_relates (source : Text) (data : Value) :
    RenderM.Relates (Mirrors r cache kept r.library 0) Eq (renderUnnamed source data)
      (r.renderUnnamed source data) := by
  have hpure : r.renderUnnamed source data =
      pure (Template.compile source r.options) >>= fun t => t.render r.runtimes 0 data .empty :=
    (pure_bind _ _).symm
  rw [hpure]
  refine .get_bind_left fun e _ h => (compile_relates source).bind ?_
  rintro c _ rfl
  rw [h.library]
  exact c.template.render_relates (runtimes_relates r) kept r.library 0 data .empty

/-- An engine answers a request like the registry. It forgets what it has kept for a name only when
a source is added. -/
theorem answer_mirrors (h : Mirrors r cache kept r.library 0 e ()) (q : Request) :
    (e.answer q).1 = r.answer q ∧
      Mirrors (r.next q) cache (q.forget kept) (r.next q).library 0 (e.answer q).2 () := by
  have htext {result : Except RenderError Text × Engine} {expected : Except RenderError Text}
      (hrelates : Agree Eq result.1 expected ∧ Mirrors r cache kept r.library 0 result.2 ()) :
      Answer.ofText result.1 = .ofText expected ∧ Mirrors r cache kept r.library 0 result.2 () :=
    ⟨congrArg Answer.ofText hrelates.1.eq, hrelates.2⟩
  cases q with
  | add name source => exact ⟨rfl, h.add name source⟩
  | contains name =>
    refine ⟨congrArg Answer.contained ?_, h⟩
    rw [contains, h.sources]
  | template name =>
    obtain ⟨hresult, hlast⟩ := template_relates name e () h
    exact ⟨congrArg Answer.ofTemplate hresult.map_eq, hlast⟩
  | render name data partials =>
    exact htext (renderNamed_relates name data (partials.relates (runtimes_relates r)) e () h)
  | renderSource source data => exact htext (renderUnnamed_relates source data e () h)

theorem mirrors_after (h : Mirrors r cache kept r.library 0 e ()) (requests : List Request) :
    Mirrors (r.after requests) cache (requests.foldl (fun kept q => q.forget kept) kept)
      (r.after requests).library 0 (e.after requests) () := by
  induction requests generalizing r kept e with
  | nil => exact h
  | cons q qs ih => exact ih (answer_mirrors h q).2

theorem answers_eq (h : Mirrors r cache kept r.library 0 e ()) (requests : List Request) :
    e.answers requests = r.answers requests := by
  induction requests generalizing r kept e with
  | nil => rfl
  | cons q qs ih =>
    obtain ⟨hanswer, hnext⟩ := answer_mirrors h q
    rw [answers, Registry.answers, hanswer, ih hnext]

end Engine

end HtmlTemplate
