import HtmlTemplate.Proofs.Emission.Nesting

/-!
Where the condition of an element stands among its instructions. An element that keeps its tags has
the condition outermost. One that loses them has only its includes and partials around the
condition, for these open first (`elementInstrs_of_condition`).
-/

namespace HtmlTemplate

namespace Clause

variable {clauses : List Clause}

/-- The clauses of some directives, directive by directive. -/
def group (directives : List Directive) (clauses : List Clause) : List Clause :=
  directives.flatMap fun d => clauses.filter (·.directive == d)

theorem group_append (ds es : List Directive) (clauses : List Clause) :
    group (ds ++ es) clauses = group ds clauses ++ group es clauses :=
  List.flatMap_append

theorem filter_group (directives : List Directive) (clauses : List Clause)
    (p : Directive → Bool) :
    (group directives clauses).filter (fun c => p c.directive) =
      group (directives.filter p) clauses := by
  induction directives with
  | nil => rfl
  | cons d ds ih =>
    have hcons : group (d :: ds) clauses =
        clauses.filter (·.directive == d) ++ group ds clauses := rfl
    rw [hcons, List.filter_append, ih, List.filter_filter]
    by_cases hp : p d = true
    · have hall : ∀ c ∈ clauses, (p c.directive && c.directive == d) = (c.directive == d) := by
        intro c _
        by_cases hc : c.directive = d
        · simp [hc, hp]
        · simp [hc]
      rw [List.filter_cons_of_pos hp, List.filter_congr hall]
      rfl
    · have hnone : ∀ c ∈ clauses, ¬ (p c.directive && c.directive == d) = true := by
        intro c _
        by_cases hc : c.directive = d
        · simp [hc, hp]
        · simp [hc]
      rw [List.filter_cons_of_neg hp, List.filter_eq_nil_iff.mpr hnone, List.nil_append]

theorem around_append (x : Context) (cs ds : List Clause) (body : Context → List Instr) :
    around x (cs ++ ds) body = around x cs fun x => around x ds body := by
  induction cs generalizing x with
  | nil => rfl
  | cons c cs ih =>
    rw [List.cons_append, around, ih]
    rfl

/-- The body stands in one context. -/
theorem around_eq_const (x : Context) (cs : List Clause) (body : Context → List Instr) :
    around x cs body = around x cs fun _ => body (cs.foldl inside x) := by
  induction cs generalizing x with
  | nil => rfl
  | cons c cs ih =>
    rw [around, ih]
    rfl

end Clause

namespace Token

/-- The clauses that open before a condition of the element. -/
def beforeCondition (options : Options) (t : Token) : List Clause :=
  if (t.keptTag? options).isSome then []
  else (Clause.ofAttributes t.attributes).filter (·.directive.isInvocable)

theorem directive_of_mem_group {d : Directive} {c : Clause} {clauses : List Clause}
    (h : c ∈ Clause.group [d] clauses) : c.directive = d := by
  obtain ⟨_, hd, hc⟩ := List.mem_flatMap.mp h
  obtain rfl := List.mem_singleton.mp hd
  exact beq_iff_eq.mp (List.mem_filter.mp hc).2

/-- Before the condition the includes open, and then the partials. -/
theorem exists_beforeCondition_eq (options : Options) (t : Token) :
    ∃ includes partials : List Clause, t.beforeCondition options = includes ++ partials ∧
      (∀ c ∈ includes, c.directive = .inclusion) ∧ ∀ c ∈ partials, c.directive = .partialSlot := by
  unfold beforeCondition
  split
  · exact ⟨[], [], rfl, nofun, nofun⟩
  · refine ⟨Clause.group [.inclusion] (t.attributes.filterMap Clause.ofAttribute?),
      Clause.group [.partialSlot] (t.attributes.filterMap Clause.ofAttribute?), ?_,
      fun _ => directive_of_mem_group, fun _ => directive_of_mem_group⟩
    rw [← Clause.group_append]
    exact Clause.filter_group Directive.priority _ Directive.isInvocable

/-- An element with one condition has everything inside of it but the directives before it. -/
theorem elementInstrs_of_condition (options : Options) {t : Token} {value : Text}
    (h : (t.attributes.filterMap Clause.ofAttribute?).filter (·.directive == .condition) =
      [⟨.condition, value⟩]) (closingTag : Text) {body : Context → List Instr}
    (hbody : ∀ x, Instr.Balanced x.loops (body x)) :
    ∃ inner : Context → List Instr, (∀ x, Instr.Balanced x.loops (inner x)) ∧
      t.elementInstrs options ⟨0, 0⟩ closingTag body =
        Clause.around ⟨0, 0⟩ (t.beforeCondition options) fun x =>
          .ifOpen (Text.trim value) :: (inner x ++ [.ifClose]) := by
  generalize hclauses : t.attributes.filterMap Clause.ofAttribute? = clauses at h
  have hall : Clause.ofAttributes t.attributes = Clause.group Directive.priority clauses := by
    rw [← hclauses]
    rfl
  have hwrapping : Clause.group [.condition, .iteration] clauses =
      ⟨.condition, value⟩ :: Clause.group [.iteration] clauses :=
    congrArg (· ++ Clause.group [.iteration] clauses) h
  have hsorted : Clause.ofAttributes t.attributes =
      Clause.group [.inclusion, .partialSlot] clauses ++
        ⟨.condition, value⟩ :: Clause.group [.iteration] clauses := by
    rw [hall, ← hwrapping]
    exact Clause.group_append [.inclusion, .partialSlot] [.condition, .iteration] clauses
  have hnonempty : (Clause.ofAttributes t.attributes).isEmpty = false := by
    rw [hsorted]
    simp
  unfold elementInstrs beforeCondition
  simp only [Clause.inOrder_eq_ofAttributes, hnonempty, Bool.false_eq_true, if_false]
  cases t.keptTag? options with
  | none =>
    refine ⟨fun x => Clause.around x (Clause.group [.iteration] clauses) body,
      fun x => Clause.balanced_around x _ hbody, ?_⟩
    have hbefore : (Clause.ofAttributes t.attributes).filter (·.directive.isInvocable) =
        Clause.group [.inclusion, .partialSlot] clauses := by
      rw [hall]
      exact Clause.filter_group Directive.priority clauses Directive.isInvocable
    simp only [Option.isSome_none, Bool.false_eq_true, if_false]
    rw [hbefore, hsorted, Clause.around_append]
    rfl
  | some tag =>
    have hsplit : Clause.split 0 (Clause.ofAttributes t.attributes) =
        (⟨.condition, value⟩ :: Clause.group [.iteration] clauses,
          Clause.group [.inclusion, .partialSlot] clauses) := by
      rw [← hwrapping, hall, Clause.split, List.partition_eq_filter_filter]
      exact Prod.ext (Clause.filter_group Directive.priority clauses (Directive.wraps 0))
        (Clause.filter_group Directive.priority clauses fun d => !d.wraps 0)
    refine ⟨fun x => Clause.around x (Clause.group [.iteration] clauses) fun x =>
      Instr.literal tag ++
        Clause.around x (Clause.group [.inclusion, .partialSlot] clauses) body ++
          Instr.literal closingTag, fun x => ?_, ?_⟩
    · apply Clause.balanced_around
      intro x
      exact ((Instr.balanced_literal _ tag).append (Clause.balanced_around x _ hbody)).append
        (Instr.balanced_literal _ closingTag)
    · rw [hsplit]
      rfl

end Token

end HtmlTemplate
