import HtmlTemplate.Proofs.Engine.Reference

/-!
What the answers of an engine depend on: the sources added last, and nothing else
(`answers_eq_registry`). While a name keeps its source, the template that is kept for it is the one
that was compiled first.
-/

namespace HtmlTemplate

namespace Request

theorem lastSource?_cons (name : Text) (q : Request) (qs : List Request) :
    lastSource? name (q :: qs) = (lastSource? name qs).or (source? name q) := by
  simp [lastSource?, List.findSome?_append]

/-- What is kept for a name is forgotten only when a source is added under it. -/
theorem forget_get? {name : Text} {q : Request} (h : ∀ source, q ≠ add name source)
    (kept : Table Compiled) : (q.forget kept).get? name = kept.get? name := by
  cases q with
  | add other source =>
    have hother : name ≠ other := by
      rintro rfl
      exact h source rfl
    simp [forget, Table.erase, hother]
  | contains | template | render | renderSource => rfl

theorem foldl_forget_get? {name : Text} {requests : List Request}
    (h : ∀ source, add name source ∉ requests) (kept : Table Compiled) :
    (requests.foldl (fun kept q => q.forget kept) kept).get? name = kept.get? name := by
  induction requests generalizing kept with
  | nil => rfl
  | cons q qs ih =>
    have hhead : ∀ source, q ≠ add name source := by
      rintro source rfl
      exact h source List.mem_cons_self
    have htail : ∀ source, add name source ∉ qs := fun source hmem =>
      h source (List.mem_cons_of_mem q hmem)
    rw [List.foldl_cons, ih htail, forget_get? hhead]

end Request

namespace Registry

/-- A failure changes nothing. -/
theorem next_of_failed {r : Registry} {q : Request} {error : RenderError}
    (h : r.answer q = .failed error) : r.next q = r := by
  cases q with
  | add name source => cases h
  | contains | template | render | renderSource => rfl

theorem get?_next (r : Registry) (q : Request) (name : Text) :
    (r.next q).sources.get? name = (q.source? name).or (r.sources.get? name) := by
  cases q with
  | add other source =>
    by_cases hname : name = other
    · simp [next, add, Table.insert, Request.source?, hname]
    · simp [next, add, Table.insert, Request.source?, hname, Ne.symm hname]
  | contains | template | render | renderSource => rfl

theorem after_eq (r : Registry) (requests : List Request) :
    r.after requests = ⟨r.options, r.library,
      ⟨fun name => (Request.lastSource? name requests).or (r.sources.get? name)⟩⟩ := by
  induction requests generalizing r with
  | nil => rfl
  | cons q qs ih =>
    have hafter : r.after (q :: qs) = (r.next q).after qs := rfl
    have hoptions : (r.next q).options = r.options := by cases q <;> rfl
    have hlibrary : (r.next q).library = r.library := by cases q <;> rfl
    rw [hafter, ih, hoptions, hlibrary]
    congr
    funext name
    rw [get?_next, Request.lastSource?_cons, Option.or_assoc]

/-- What a new registry holds after requests. -/
theorem after_create (options : Options) (library : Library) (requests : List Request) :
    (create options library).after requests =
      ⟨options, library, ⟨fun name => Request.lastSource? name requests⟩⟩ := by
  simp [after_eq, create, Table.empty]

/-- Histories that leave the same sources leave the same registry. -/
theorem after_congr (r : Registry) {before before' : List Request}
    (h : ∀ name, Request.lastSource? name before = Request.lastSource? name before') :
    r.after before = r.after before' := by
  rw [after_eq, after_eq]
  congr
  funext name
  rw [h name]

end Registry

namespace Engine

variable {r : Registry} {cache : Bool} {kept : Table Compiled} {library : Library} {n : Nat}
  {e : Engine}

/-- A new engine mirrors the registry of the same options, up to whether it keeps templates. -/
theorem mirrors_create (options : Options) (library : Library) (cache : Bool) :
    Mirrors (.create options library) cache .empty library 0
      (create { options with cache } library) () :=
  mirrors_ofRegistry (.create options library) cache 0

theorem mirrors_create_after (options : Options) (library : Library) (before : List Request) :
    ∃ kept, Mirrors ((Registry.create options library).after before) options.cache kept
      ((Registry.create options library).after before).library 0
      ((create options library).after before) () :=
  ⟨_, mirrors_after (mirrors_create options library options.cache) before⟩

/-- After requests, a template renders by its name as in the registry of the sources. -/
theorem renderNamed_after (options : Options) (library : Library) (before : List Request)
    (name : Text) (data : Value) (partials : OuterPartials) :
    let r : Registry := ⟨options, library, ⟨fun name => Request.lastSource? name before⟩⟩
    ((renderNamed name data (partials.table runtimes)).run
      ((create options library).after before)).1 =
        ((r.renderNamed name data (partials.table r.runtimes)).run ()).1 := by
  intro r
  obtain ⟨kept, hmirrors⟩ := mirrors_create_after options library before
  rw [Registry.after_create] at hmirrors
  have hpartials : Partials.Relates (Mirrors r options.cache) (partials.table runtimes)
      (partials.table r.runtimes) := partials.relates (runtimes_relates r)
  exact (renderNamed_relates name data hpartials _ () hmirrors).1.eq

theorem renderUnnamed_after (options : Options) (library : Library) (before : List Request)
    (source : Text) (data : Value) :
    let r : Registry := ⟨options, library, ⟨fun name => Request.lastSource? name before⟩⟩
    ((renderUnnamed source data).run ((create options library).after before)).1 =
      ((r.renderUnnamed source data).run ()).1 := by
  obtain ⟨kept, hmirrors⟩ := mirrors_create_after options library before
  rw [Registry.after_create] at hmirrors
  exact (renderUnnamed_relates source data _ () hmirrors).1.eq

theorem after_append (e : Engine) (before later : List Request) :
    e.after (before ++ later) = (e.after before).after later :=
  List.foldl_append

/-- Of what is in the cache, more is known to be kept. -/
theorem Mirrors.keeping (h : Mirrors r cache kept library n e ()) {name : Text} {c : Compiled}
    (hc : e.cache.get? name = some c) :
    Mirrors r cache (kept.insert name c) library n e () where
  runtime := h.runtime
  library := h.library
  options := h.options
  sources := h.sources
  includes := h.includes
  coherent := h.coherent
  keeps := by
    intro other d hd
    by_cases hname : other = name
    · subst hname
      obtain rfl : c = d := by simpa [Table.insert] using hd
      exact hc
    · exact h.keeps other d (by simpa [Table.insert, hname] using hd)

/-- A template that is in the cache is not compiled. -/
theorem run_template_of_cached {name : Text} {c : Compiled} (hcache : e.options.cache = true)
    (hc : e.cache.get? name = some c) : (template name).run e = (.ok c, e) := by
  rw [run_template, if_pos hcache, hc]

/-- A template that was looked up is in the cache. -/
theorem cached_of_run_template {name : Text} {c : Compiled} (hcache : e.options.cache = true)
    (h : ((template name).run e).1 = .ok c) :
    ((template name).run e).2.cache.get? name = some c := by
  rw [run_template, if_pos hcache] at h ⊢
  cases hcached : e.cache.get? name with
  | some d =>
    simp only [hcached] at h ⊢
    exact congrArg some (Except.ok.inj h)
  | none =>
    simp only [hcached] at h ⊢
    cases hsource : e.sources.get? name with
    | none =>
      rw [hsource] at h
      cases h
    | some source =>
      simp only [hsource] at h ⊢
      cases h
      simp [hcache, Table.insert]

/-- Until a source is added under its name, a template that was looked up is kept. -/
theorem template_after (h : Mirrors r true kept r.library 0 e ()) {name : Text} {c : Compiled}
    (hc : ((template name).run e).1 = .ok c) {between : List Request}
    (hbetween : ∀ source, Request.add name source ∉ between) :
    ((template name).run (e.after (.template name :: between))).1 = .ok c := by
  have hoptions : e.options.cache = true := by rw [h.options]
  have hcached := cached_of_run_template hoptions hc
  have hfirst : Mirrors r true (kept.insert name c) r.library 0 ((template name).run e).2 () :=
    (template_relates name e () h).2.keeping hcached
  have hlast := mirrors_after hfirst between
  have hkept : (between.foldl (fun kept q => q.forget kept) (kept.insert name c)).get? name =
      some c := by
    rw [Request.foldl_forget_get? hbetween]
    simp [Table.insert]
  have hcache : (((template name).run e).2.after between).options.cache = true := by
    rw [hlast.options]
  exact congrArg Prod.fst (run_template_of_cached hcache (hlast.keeps name c hkept))

/-- An engine gives the answers of the registry of its sources. So they depend on its history only
by the sources added last, a request that fails changes none of them, and whether compiled templates
are kept does not show; but when they are, a template stays the same one until a source is added
under its name. -/
theorem answers_eq_registry (options : Options) (library : Library) :
    (∀ requests, (create options library).answers requests =
      (Registry.create options library).answers requests) ∧
    (∀ before before' requests,
      (∀ name, Request.lastSource? name before = Request.lastSource? name before') →
      ((create options library).after before).answers requests =
        ((create options library).after before').answers requests) ∧
    (∀ before failing error requests,
      (((create options library).after before).answer failing).1 = .failed error →
      ((create options library).after (before ++ [failing])).answers requests =
        ((create options library).after before).answers requests) ∧
    (∀ cache requests, (create { options with cache } library).answers requests =
      (create options library).answers requests) ∧
    (options.cache = true → ∀ before between name c,
      (∀ source, Request.add name source ∉ between) →
      ((template name).run ((create options library).after before)).1 = .ok c →
      ((template name).run
        ((create options library).after (before ++ .template name :: between))).1 = .ok c) := by
  have hnew (cache : Bool) (requests : List Request) :
      (create { options with cache } library).answers requests =
        (Registry.create options library).answers requests :=
    answers_eq (mirrors_create options library cache) requests
  have hafter (before requests : List Request) :
      ((create options library).after before).answers requests =
        ((Registry.create options library).after before).answers requests := by
    obtain ⟨kept, hmirrors⟩ := mirrors_create_after options library before
    exact answers_eq hmirrors requests
  refine ⟨hnew options.cache, ?_, ?_, ?_, ?_⟩
  · intro before before' requests hsources
    rw [hafter, hafter, Registry.after_congr _ hsources]
  · intro before failing error requests hfailed
    obtain ⟨kept, hmirrors⟩ := mirrors_create_after options library before
    obtain ⟨hanswer, hnext⟩ := answer_mirrors hmirrors failing
    rw [hanswer] at hfailed
    rw [after_append, hafter, ← Registry.next_of_failed hfailed]
    exact answers_eq hnext requests
  · intro cache requests
    rw [hnew cache]
    exact (hnew options.cache requests).symm
  · intro hcache before between name c hbetween hc
    obtain ⟨kept, hmirrors⟩ := mirrors_create_after options library before
    rw [hcache] at hmirrors
    rw [after_append]
    exact template_after hmirrors hc hbetween

/-- A page that was replaced, a request for one that is not there, and a page that is kept. -/
theorem answers_eq_registry_page :
    let new : Request := .add "page".toList "new".toList
    let old : Request := .add "page".toList "old".toList
    let page : Request := .template "page".toList
    let e := create .default Library.standard
    (e.after [old, new]).answers [page] = (e.after [new]).answers [page] ∧
      ((e.after [new]).answer (.template "none".toList)).1 =
        .failed (.unknownTemplate "none".toList) ∧
      (e.after [new, .template "none".toList]).answers [page] = (e.after [new]).answers [page] ∧
      ((template "page".toList).run (e.after [new])).1 =
        .ok ⟨0, .compile "new".toList .default⟩ ∧
      ((template "page".toList).run (e.after [new, page, .contains "page".toList])).1 =
        .ok ⟨0, .compile "new".toList .default⟩ := by
  intro new old page e
  obtain ⟨-, hsources, hfailed, -, hkept⟩ := answers_eq_registry .default Library.standard
  refine ⟨hsources _ _ _ ?_, rfl, hfailed [new] _ (.unknownTemplate "none".toList) _ rfl, rfl, ?_⟩
  · intro name
    by_cases hname : "page".toList = name
    · simp only [Request.lastSource?_cons, Request.source?, new, old, if_pos hname]
      rfl
    · simp only [Request.lastSource?_cons, Request.source?, new, old, if_neg hname, Option.or_none]
  · exact hkept rfl [new] [.contains "page".toList] _ _ (by simp) rfl

end Engine

end HtmlTemplate
