import HtmlTemplate.Library.Standard
import HtmlTemplate.Proofs.Emission.Condition
import HtmlTemplate.Proofs.Render.Blocks
import HtmlTemplate.Proofs.Render.Normal
import HtmlTemplate.Proofs.Render.Parametric

/-!
Elements with a condition that fails. As blocks, the directives that open before the condition stand
around it, and a condition that fails evaluates to what no blocks evaluate to. So the element
renders as these directives around nothing, and without any of them to the empty text
(`render_of_condition`). A partial that is registered for an include is evaluated where the include
calls it, and nothing is asked of the condition for other data (`Target.CallsOnly`).
-/

namespace HtmlTemplate

namespace Blocks

/-- Clauses around a content, and what follows them. The content is given what follows it. -/
def enclose (x : Context) : List Clause → (Blocks → Blocks) → Blocks → Blocks
  | [], content, rest => content rest
  | c :: cs, content, rest =>
    let target := Target.ofText c.value
    match c.directive with
    | .condition => condition (Text.trim c.value) (enclose (c.inside x) cs content nil) rest
    | .iteration => loop (Text.trim c.value) x.loops (enclose (c.inside x) cs content nil) rest
    | .inclusion => inclusion (enclose (c.inside x) cs content nil) target rest
    | .partialSlot =>
      if x.includes > 0 then registration target.name (enclose (c.inside x) cs content nil) rest
      else enclose (c.inside x) cs content (partialInvoke target rest)

theorem instrs_enclose {content : Blocks → Blocks} {body : List Instr}
    (h : ∀ rest, (content rest).instrs = body ++ rest.instrs) (x : Context) (cs : List Clause)
    (rest : Blocks) :
    (enclose x cs content rest).instrs = Clause.around x cs (fun _ => body) ++ rest.instrs := by
  induction cs generalizing x rest with
  | nil => exact h rest
  | cons c cs ih =>
    obtain ⟨d, value⟩ := c
    cases d with
    | condition | iteration | inclusion =>
      simp [enclose, instrs, ih, Clause.around, Clause.opening, Clause.closing]
    | partialSlot =>
      by_cases hx : x.includes > 0
      · simp [enclose, instrs, ih, Clause.around, Clause.opening, Clause.closing, hx]
      · simp [enclose, instrs, ih, Clause.around, Clause.opening, Clause.closing, hx]

theorem depth_enclose_le {content content' : Blocks → Blocks}
    (h : ∀ rest, (content rest).depth ≤ (content' rest).depth) (x : Context) (cs : List Clause)
    (rest : Blocks) : (enclose x cs content rest).depth ≤ (enclose x cs content' rest).depth := by
  induction cs generalizing x rest with
  | nil => exact h rest
  | cons c cs ih =>
    obtain ⟨d, value⟩ := c
    have hbody := ih (Clause.inside x ⟨d, value⟩) nil
    cases d with
    | condition | iteration | inclusion =>
      simp only [enclose, depth]
      omega
    | partialSlot =>
      simp only [enclose]
      split
      · simp only [depth]
        omega
      · exact ih _ _

theorem enclose_append (x : Context) (cs ds : List Clause) (content : Blocks → Blocks)
    (rest : Blocks) :
    enclose x (cs ++ ds) content rest =
      enclose x cs (enclose (cs.foldl Clause.inside x) ds content) rest := by
  induction cs generalizing x rest with
  | nil => rfl
  | cons c cs ih =>
    obtain ⟨d, value⟩ := c
    cases d with
    | condition | iteration | inclusion => simp [enclose, ih]
    | partialSlot =>
      by_cases hx : x.includes > 0
      · simp [enclose, ih, hx]
      · simp [enclose, ih, hx]

end Blocks

/-! ## Where partials are called -/

variable {ρ σ : Type} {calls : ρ → Value → Prop}

/-- The partials do the same in the runtimes and for the data of `calls`. -/
def Partial.EqOn (calls : ρ → Value → Prop) (p q : Partial ρ σ) : Prop :=
  ∀ rt data, calls rt data → p rt data = q rt data

namespace Partials

/-- Tables with the same names, and with partials that do the same where they are called. -/
def EqOn (calls : ρ → Value → Prop) (t u : Partials ρ σ) : Prop :=
  ∀ name, Option.Rel (Partial.EqOn calls) (t.get? name) (u.get? name)

theorem EqOn.refl (t : Partials ρ σ) : EqOn calls t t := by
  intro name
  cases t.get? name with
  | none => exact .none
  | some p => exact .some fun _ _ _ => rfl

end Partials

/-- The same output, with partials that do the same where they are called. -/
structure Outcome.EqOn (calls : ρ → Value → Prop) (o p : Outcome ρ σ) : Prop where
  text : o.text = p.text
  partials : Partials.EqOn calls o.handedOut p.handedOut

namespace Outcome

theorem EqOn.refl (o : Outcome ρ σ) : EqOn calls o o := ⟨rfl, .refl _⟩

theorem EqOn.registered {p q : Partial ρ σ} (h : p.EqOn calls q) (name : Text)
    (o : Outcome ρ σ) :
    EqOn calls (append ⟨[], [(name, p)]⟩ o) (append ⟨[], [(name, q)]⟩ o) := by
  refine ⟨rfl, fun n => ?_⟩
  simp only [handedOut, append, List.singleton_append, List.reverse_cons, List.lookup_append]
  cases o.partials.reverse.lookup n with
  | some r => exact .some fun _ _ _ => rfl
  | none =>
    rw [Option.none_or, Option.none_or, Table.lookup_single, Table.lookup_single]
    by_cases hname : n = name
    · rw [if_pos hname, if_pos hname]
      exact .some h
    · rw [if_neg hname, if_neg hname]
      exact .none

end Outcome

/-- In a scope, an include of the target calls the partials that it hands out in the runtimes and
with the data of `calls` only. -/
def Target.CallsOnly (target : Target) (rts : Runtimes ρ σ) (rt : ρ) (scope : Scope)
    (calls : ρ → Value → Prop) : Prop :=
  ∀ t u : Partials ρ σ, Partials.EqOn calls t u →
    Blocks.includeText rts rt scope t target = Blocks.includeText rts rt scope u target

namespace Clause

/-- An include and a partial are among the clauses, so the partial is registered for the include. -/
def Registers (clauses : List Clause) : Prop :=
  (∃ c ∈ clauses, c.directive = .inclusion) ∧ ∃ c ∈ clauses, c.directive = .partialSlot

end Clause

namespace Blocks

variable {rts : Runtimes ρ σ} {inputs : Partials ρ σ} {content content' : Blocks → Blocks}

theorem text_eq_of_relates {x y : RenderM σ (Outcome ρ σ)}
    (h : RenderM.Relates Eq (Outcome.EqOn calls) x y) :
    (do let o ← x; pure o.text) = (do let o ← y; pure o.text) :=
  (h.bind fun _ _ ho => RenderM.Relates.pure ho.text).eq

/-- Includes around contents that register partials that do the same where they are called. -/
theorem eval_enclose_inclusions {rt : ρ} {scope : Scope}
    (h : ∀ rest, RenderM.Relates Eq (Outcome.EqOn calls)
      ((content rest).eval rts inputs rt scope) ((content' rest).eval rts inputs rt scope))
    (x : Context) {cs : List Clause} (hcs : ∀ c ∈ cs, c.directive = .inclusion)
    (hcalls : ∀ c ∈ cs, (Target.ofText c.value).CallsOnly rts rt scope calls) (rest : Blocks) :
    RenderM.Relates Eq (Outcome.EqOn calls) ((enclose x cs content rest).eval rts inputs rt scope)
      ((enclose x cs content' rest).eval rts inputs rt scope) := by
  induction cs generalizing x rest with
  | nil => exact h rest
  | cons c cs ih =>
    obtain ⟨d, value⟩ := c
    obtain ⟨rfl, htail⟩ := List.forall_mem_cons.mp hcs
    obtain ⟨hhead, hcallsTail⟩ := List.forall_mem_cons.mp hcalls
    simp only [enclose, eval]
    refine (ih (Clause.inside x ⟨.inclusion, value⟩) htail hcallsTail nil).bind fun o p ho => ?_
    rw [hhead _ _ ho.partials, ho.text]
    exact .refl Outcome.EqOn.refl _

/-- Partials around contents that evaluate to the same. `F` holds of the runtimes and scopes in
which the contents do; a partial that is registered is evaluated where it is called. -/
theorem eval_enclose_partials {F : ρ → Scope → Prop}
    (h : ∀ rt scope, F rt scope → ∀ rest,
      (content rest).eval rts inputs rt scope = (content' rest).eval rts inputs rt scope)
    (x : Context) {cs : List Clause} (hcs : ∀ c ∈ cs, c.directive = .partialSlot)
    (hF : x.includes > 0 → cs ≠ [] → ∀ rt scope rt' data, F rt scope → calls rt' data →
      F rt' { scope with data })
    {rt : ρ} {scope : Scope} (hscope : F rt scope) (rest : Blocks) :
    RenderM.Relates Eq (Outcome.EqOn calls) ((enclose x cs content rest).eval rts inputs rt scope)
      ((enclose x cs content' rest).eval rts inputs rt scope) := by
  induction cs generalizing x rt scope rest with
  | nil =>
    rw [enclose, enclose, h rt scope hscope]
    exact .refl Outcome.EqOn.refl _
  | cons c cs ih =>
    obtain ⟨d, value⟩ := c
    obtain ⟨rfl, htail⟩ := List.forall_mem_cons.mp hcs
    have hbody {rt : ρ} {scope : Scope} (hscope : F rt scope) (rest : Blocks) :=
      ih (Clause.inside x ⟨.partialSlot, value⟩) htail (fun hx => absurd hx (Nat.lt_irrefl 0))
        hscope rest
    simp only [enclose]
    split
    · next hx =>
      simp only [eval]
      refine (RenderM.Relates.refl (fun _ => rfl) (rest.eval rts inputs rt scope)).bind ?_
      rintro o _ rfl
      refine .pure (Outcome.EqOn.registered ?_ _ o)
      intro rt' data hdata
      exact text_eq_of_relates (hbody (hF hx (List.cons_ne_nil _ _) rt scope rt' data hscope hdata)
        nil)
    · exact hbody hscope _

/-- A condition that fails. -/
theorem eval_condition_of_false {expr : Text} {rt : ρ} {scope : Scope} {v : Option Value}
    (hv : (Formula.ofSource expr).eval scope (rts.library rt) = .ok v)
    (hfalse : Value.holds v = false) (body rest : Blocks) :
    (condition expr body rest).eval rts inputs rt scope = rest.eval rts inputs rt scope := by
  simp [eval, hv, Value.isFalsy_iff, hfalse, Outcome.append, Outcome.empty]

/-- What opens before a condition, around one that fails. -/
theorem eval_enclose_of_false {t : Token} {options : Options} {value : Text} {rt : ρ} {data : Value}
    (inner : Blocks) (inputs : Partials ρ σ)
    (hcalls : ∀ c ∈ t.beforeCondition options, c.directive = .inclusion →
      (Target.ofText c.value).CallsOnly rts rt (.ofRoot data) calls)
    (hfalse : ∀ rt' data', rt' = rt ∧ data' = data ∨
        Clause.Registers (t.beforeCondition options) ∧ calls rt' data' →
      ∃ v, (Formula.ofSource (Text.trim value)).eval { Scope.ofRoot data with data := data' }
        (rts.library rt') = .ok v ∧ Value.holds v = false) :
    RenderM.Relates Eq (Outcome.EqOn calls)
      ((enclose ⟨0, 0⟩ (t.beforeCondition options) (condition (Text.trim value) inner) nil).eval rts
        inputs rt (.ofRoot data))
      ((enclose ⟨0, 0⟩ (t.beforeCondition options) id nil).eval rts inputs rt (.ofRoot data)) := by
  obtain ⟨includes, partials, hbefore, hincludes, hpartials⟩ :=
    Token.exists_beforeCondition_eq options t
  rw [hbefore] at hcalls hfalse ⊢
  -- The condition is evaluated in the scope of the template, or in one with the data of a caller.
  let F (rt' : ρ) (scope : Scope) : Prop :=
    ∃ data', scope = { Scope.ofRoot data with data := data' } ∧
      (rt' = rt ∧ data' = data ∨ Clause.Registers (includes ++ partials) ∧ calls rt' data')
  have hroot : F rt (.ofRoot data) := ⟨data, rfl, .inl ⟨rfl, rfl⟩⟩
  have hcalled : (includes.foldl Clause.inside ⟨0, 0⟩).includes > 0 → partials ≠ [] →
      ∀ rt scope rt' data', F rt scope → calls rt' data' → F rt' { scope with data := data' } := by
    rintro hpos hpartial _ _ rt' data' ⟨_, rfl, _⟩ hdata'
    have hregisters : Clause.Registers (includes ++ partials) := by
      obtain ⟨p, hp⟩ := List.exists_mem_of_ne_nil partials hpartial
      cases includes with
      | nil => exact absurd hpos (Nat.lt_irrefl 0)
      | cons c cs =>
        exact ⟨⟨c, List.mem_cons_self, hincludes c List.mem_cons_self⟩,
          p, List.mem_append_right _ hp, hpartials p hp⟩
    exact ⟨data', rfl, .inr ⟨hregisters, hdata'⟩⟩
  have hsame : ∀ rt' scope, F rt' scope → ∀ rest : Blocks,
      (condition (Text.trim value) inner rest).eval rts inputs rt' scope =
        (id rest).eval rts inputs rt' scope := by
    rintro rt' _ ⟨data', rfl, hdata'⟩ rest
    obtain ⟨v, hv, hholds⟩ := hfalse rt' data' hdata'
    exact eval_condition_of_false hv hholds inner rest
  rw [enclose_append, enclose_append]
  exact eval_enclose_inclusions
    (fun rest => eval_enclose_partials hsame _ hpartials hcalled hroot rest) ⟨0, 0⟩ hincludes
    (fun c hc => hcalls c (List.mem_append_left _ hc) (hincludes c hc)) nil

end Blocks

namespace Template

variable {ρ σ : Type} (rts : Runtimes ρ σ) (rt : ρ)

/-- A compiled template renders as the blocks whose instructions have the same content. -/
theorem render_compile {source : Text} {options : Options} {b : Blocks}
    (h : Instr.allAtoms (Compile.emission source options).finish = Instr.allAtoms b.instrs)
    (data : Value) (partials : Partials ρ σ) :
    (compile source options).render rts rt data partials = b.render rts rt data partials ∧
      (compile source options).program.depth = b.depth := by
  have hinstrs : Compile.instrs source options = Instr.optimize b.instrs :=
    Instr.optimize_eq_iff.mpr h
  have hexpand : Instr.expand (Compile.instrs source options) = Instr.expand b.instrs := by
    rw [hinstrs, Instr.expand_optimize]
  constructor
  · calc (compile source options).render rts rt data partials
        = (ofInstrs (Instr.expand (Compile.instrs source options))).render rts rt data partials :=
          (render_expand rts rt _ data partials).symm
      _ = (ofInstrs b.instrs).render rts rt data partials := by
          rw [hexpand, render_expand]
      _ = b.render rts rt data partials := render_instrs rts rt b data partials
  · have hdepth : Instr.blockDepth 0 b.instrs = b.depth := by
      have hall := b.blockDepth_instrs 0 []
      simpa [Instr.blockDepth] using hall
    calc Instr.blockDepth 0 (Compile.instrs source options)
        = Instr.blockDepth 0 (Instr.expand b.instrs) := by
          rw [← hexpand, Instr.blockDepth_expand]
      _ = b.depth := by rw [Instr.blockDepth_expand, hdepth]

end Template

namespace Compile

/-- A template that is one element with one condition is, up to the division of appends, the blocks
of that condition inside of the directives before it. -/
theorem exists_blocks_of_condition {source : Text} {options : Options} {t : Token}
    {body : List Token.Paired} {close : Token.Paired} {value : Text}
    (htokens : tokens source options = ⟨t, some (body.length + 1)⟩ :: (body ++ [close]))
    (hkind : t.kind = .tagOpen)
    (hvalue : (t.attributes.filterMap Clause.ofAttribute?).filter (·.directive == .condition) =
      [⟨.condition, value⟩]) :
    ∃ inner : Blocks, Instr.allAtoms (emission source options).finish =
      Instr.allAtoms (Blocks.enclose ⟨0, 0⟩ (t.beforeCondition options)
        (.condition (Text.trim value) inner) .nil).instrs := by
  have hlength : (tokens source options).length = body.length + 2 := by
    rw [htokens]
    simp
  have hopening : (tokens source options)[0]? = some ⟨t, some (body.length + 1)⟩ := by
    rw [htokens]
    rfl
  have hclosing : Token.Paired.closing? ⟨t, some (body.length + 1)⟩ 0
      (tokens source options).length = some (body.length + 1) := by
    simp [Token.Paired.closing?, hkind, hlength]
  have hrange : Token.rangeInstrs options (tokens source options) ⟨0, 0⟩ 0
      (tokens source options).length =
      t.elementInstrs options ⟨0, 0⟩ (Token.textAt (tokens source options) (body.length + 1))
        fun x => Token.rangeInstrs options (tokens source options) x 1 (body.length + 1) := by
    have hbehind := Token.rangeInstrs_self options (tokens source options) ⟨0, 0⟩ (body.length + 2)
    rw [Token.rangeInstrs_element hopening hclosing, hlength, hbehind, List.append_nil]
  obtain ⟨inner, hbalanced, helement⟩ := Token.elementInstrs_of_condition options hvalue
    (Token.textAt (tokens source options) (body.length + 1))
    fun x => Token.balanced_rangeInstrs options (tokens source options) x 1 (body.length + 1)
  obtain ⟨b, hb⟩ := Blocks.exists_instrs_eq
    (hbalanced ((t.beforeCondition options).foldl Clause.inside ⟨0, 0⟩)).wellNested
  have hcontent (rest : Blocks) : (Blocks.condition (Text.trim value) b rest).instrs =
      (.ifOpen (Text.trim value) :: (b.instrs ++ [.ifClose])) ++ rest.instrs := by
    simp [Blocks.instrs]
  refine ⟨b, ?_⟩
  rw [emission, Emission.allAtoms_finish_ofTokens, hrange, helement, Clause.around_eq_const, ← hb,
    Blocks.instrs_enclose hcontent, Blocks.instrs, List.append_nil]

end Compile

namespace Template

/-- An element that is all of a template renders, if its one condition fails, as the directives that
open before the condition around nothing. If it keeps its tags, or has no includes and partials,
these are none, and it renders to the empty text, with nothing done to the surroundings. A partial
that is registered for an include has the condition in it, which then has to fail where the partial
is called. -/
theorem render_of_condition {source : Text} {options : Options} {t : Token}
    {body : List Token.Paired} {close : Token.Paired} {value : Text}
    (htokens : Compile.tokens source options = ⟨t, some (body.length + 1)⟩ :: (body ++ [close]))
    (hkind : t.kind = .tagOpen)
    (hvalue : (t.attributes.filterMap Clause.ofAttribute?).filter (·.directive == .condition) =
      [⟨.condition, value⟩])
    {ρ σ : Type} (rts : Runtimes ρ σ) (rt : ρ) (data : Value) (partials : Partials ρ σ)
    (calls : ρ → Value → Prop)
    (hcalls : ∀ c ∈ t.beforeCondition options, c.directive = .inclusion →
      (Target.ofText c.value).CallsOnly rts rt (.ofRoot data) calls)
    (hfalse : ∀ rt' data', rt' = rt ∧ data' = data ∨
        Clause.Registers (t.beforeCondition options) ∧ calls rt' data' →
      ∃ v, (Formula.ofSource (Text.trim value)).eval { Scope.ofRoot data with data := data' }
        (rts.library rt') = .ok v ∧ Value.holds v = false)
    (hdepth : (compile source options).program.depth ≤ maxBlockDepth) :
    ((t.keptTag? options).isSome ∨
        (∀ c ∈ Clause.ofAttributes t.attributes, c.directive.isInvocable = false) →
      (compile source options).render rts rt data partials = pure []) ∧
    (compile source options).render rts rt data partials =
      (ofInstrs (Clause.around ⟨0, 0⟩ (t.beforeCondition options) fun _ => [])).render rts rt data
        partials := by
  obtain ⟨inner, hcontent⟩ := Compile.exists_blocks_of_condition htokens hkind hvalue
  obtain ⟨hrender, hblocks⟩ := render_compile rts rt hcontent data partials
  rw [hblocks] at hdepth
  have hnothing : Clause.around ⟨0, 0⟩ (t.beforeCondition options) (fun _ => []) =
      (Blocks.enclose ⟨0, 0⟩ (t.beforeCondition options) id .nil).instrs := by
    have hid (rest : Blocks) : (id rest).instrs = [] ++ rest.instrs := rfl
    rw [Blocks.instrs_enclose hid, Blocks.instrs, List.append_nil]
  have hless :
      (Blocks.enclose ⟨0, 0⟩ (t.beforeCondition options) id .nil).depth ≤ maxBlockDepth := by
    have hid (rest : Blocks) :
        (id rest).depth ≤ (Blocks.condition (Text.trim value) inner rest).depth :=
      Nat.le_max_right _ _
    exact Nat.le_trans (Blocks.depth_enclose_le hid _ _ _) hdepth
  have htext := Blocks.text_eq_of_relates
    (Blocks.eval_enclose_of_false inner partials hcalls hfalse)
  have hequal : (compile source options).render rts rt data partials =
      (ofInstrs (Clause.around ⟨0, 0⟩ (t.beforeCondition options) fun _ => [])).render rts rt data
        partials := by
    rw [hrender, hnothing, render_instrs, Blocks.render, Blocks.render,
      if_neg (Nat.not_lt.mpr hdepth), if_neg (Nat.not_lt.mpr hless), htext]
  refine ⟨fun hnone => ?_, hequal⟩
  have hbefore : t.beforeCondition options = [] := by
    unfold Token.beforeCondition
    rcases hnone with hkept | hplain
    · exact if_pos hkept
    · split
      · rfl
      · exact List.filter_eq_nil_iff.mpr fun c hc => by simp [hplain c hc]
  rw [hequal, hbefore]
  exact render_instrs rts rt .nil data partials

/-- Surroundings with a layout, which calls the partial `c` with `null`. -/
def layouts : Runtimes Library Unit where
  library := id
  render rt _ partials _ :=
    match partials.get? "c" with
    | none => pure []
    | some p => do
      let content ← p rt .null
      pure ('[' :: content ++ [']'])

theorem callsOnly_layouts (target : Target) (rt : Library) (scope : Scope) :
    target.CallsOnly layouts rt scope fun _ data => data = .null := by
  intro t u h
  refine bind_congr fun data => ?_
  have hpartial := h "c"
  simp only [layouts]
  generalize t.get? "c".toList = p at hpartial ⊢
  generalize u.get? "c".toList = q at hpartial ⊢
  cases hpartial with
  | none => rfl
  | some hp => exact congrArg (· >>= _) (hp rt .null rfl)

/-- The include of an element that keeps its tags is not made. One that loses them is included in
its layout, which is handed nothing. -/
theorem render_of_condition_layouts :
    let data : Value := .object [("a".toList, .bool false)]
    (compile "<p data-if=\"a\" data-include=\"l\">d</p>" .default).render layouts
        Library.standard data .empty = pure [] ∧
      (compile "<div data-if=\"a\" data-include=\"l\" data-partial=\"c\">d</div>" .default).render
        layouts Library.standard data .empty = pure "[]".toList := by
  intro data
  have hfalse {p : Prop} : ∀ rt data', rt = Library.standard ∧ data' = data ∨ p ∧ data' = .null →
      ∃ v, (Formula.ofSource "a").eval { Scope.ofRoot data with data := data' } rt = .ok v ∧
        Value.holds v = false := by
    rintro rt data' (⟨rfl, rfl⟩ | ⟨-, rfl⟩)
    · exact ⟨some (.bool false), rfl, rfl⟩
    · exact ⟨none, rfl, rfl⟩
  constructor
  · let t : Token := ⟨.tagOpen, 0, "<p data-if=\"a\" data-include=\"l\">", "p",
      [⟨"data-if", some "a", some '"', true, "data-if=\"a\""⟩,
        ⟨"data-include", some "l", some '"', true, "data-include=\"l\""⟩], false⟩
    let body : List Token.Paired := [⟨.plain .text 32 "d", none⟩]
    let close : Token.Paired := ⟨⟨.tagClose, 33, "</p>", "p", [], false⟩, some 0⟩
    have htokens : Compile.tokens "<p data-if=\"a\" data-include=\"l\">d</p>" .default =
        ⟨t, some (body.length + 1)⟩ :: (body ++ [close]) := by
      decide +kernel
    have hvalue : (t.attributes.filterMap Clause.ofAttribute?).filter
        (·.directive == .condition) = [⟨.condition, "a"⟩] := by
      decide
    have hdepth : (compile "<p data-if=\"a\" data-include=\"l\">d</p>" .default).program.depth ≤
        maxBlockDepth := by
      decide +kernel
    exact (render_of_condition htokens rfl hvalue _ _ _ _ _ (fun _ _ _ => callsOnly_layouts _ _ _)
      hfalse hdepth).1 (.inl rfl)
  · let t : Token :=
      ⟨.tagOpen, 0, "<div data-if=\"a\" data-include=\"l\" data-partial=\"c\">", "div",
        [⟨"data-if", some "a", some '"', true, "data-if=\"a\""⟩,
          ⟨"data-include", some "l", some '"', true, "data-include=\"l\""⟩,
          ⟨"data-partial", some "c", some '"', true, "data-partial=\"c\""⟩], false⟩
    let body : List Token.Paired := [⟨.plain .text 51 "d", none⟩]
    let close : Token.Paired := ⟨⟨.tagClose, 52, "</div>", "div", [], false⟩, some 0⟩
    have htokens : Compile.tokens
        "<div data-if=\"a\" data-include=\"l\" data-partial=\"c\">d</div>" .default =
        ⟨t, some (body.length + 1)⟩ :: (body ++ [close]) := by
      decide +kernel
    have hvalue : (t.attributes.filterMap Clause.ofAttribute?).filter
        (·.directive == .condition) = [⟨.condition, "a"⟩] := by
      decide
    have hdepth : (compile "<div data-if=\"a\" data-include=\"l\" data-partial=\"c\">d</div>"
        .default).program.depth ≤ maxBlockDepth := by
      decide +kernel
    have haround : Clause.around ⟨0, 0⟩ (t.beforeCondition .default) (fun _ => []) =
        (Blocks.inclusion (.registration "c" .nil .nil) ⟨"l", "data"⟩ .nil).instrs := by
      decide +kernel
    rw [(render_of_condition htokens rfl hvalue _ _ _ _ _ (fun _ _ _ => callsOnly_layouts _ _ _)
      hfalse hdepth).2, haround, render_instrs]
    rfl

/-- The partial of an element that loses its tags is written, though the condition fails. -/
theorem render_of_condition_suppressed :
    let partials : Partials Library Unit := Table.empty.insert "p" fun _ _ => pure "P".toList
    (Formula.ofSource "a").eval (.ofRoot .null) Library.standard = .ok none ∧
      (compile "<div data-if=\"a\" data-partial=\"p\"></div>" .default).render Runtimes.libraries
        Library.standard .null partials = pure "P".toList := by
  intro partials
  refine ⟨rfl, ?_⟩
  have hinstrs : Compile.instrs "<div data-if=\"a\" data-partial=\"p\"></div>" .default =
      (Blocks.condition "a" .nil (.partialInvoke ⟨"p", "data"⟩ .nil)).instrs := by
    decide +kernel
  rw [compile, hinstrs, render_instrs]
  rfl

end Template

end HtmlTemplate
