import HtmlTemplate.Proofs.Emission.Descent
import HtmlTemplate.Proofs.Instr.Nesting

/-!
Induction over the descent. A property of instructions in a context that sequences and clauses keep
(`Clause.Kept`), and that instructions have which open and close nothing, holds of every range of
tokens (`Clause.Kept.range`).
-/

namespace HtmlTemplate

namespace Clause

/-- What holds of instructions in each context, and is kept by the ways in which the descent puts
them together. -/
structure Kept (P : Context → List Instr → Prop) : Prop where
  plain : ∀ {x instrs}, (∀ i ∈ instrs, i.opened? = none ∧ i.closed? = none) → P x instrs
  append : ∀ {x xs ys}, P x xs → P x ys → P x (xs ++ ys)
  clause : ∀ {x} (c : Clause) {body}, P (c.inside x) body →
    P x (c.opening x ++ body ++ c.closing x)

namespace Kept

variable {P : Context → List Instr → Prop} (kept : Kept P)

include kept

theorem nil (x : Context) : P x [] := kept.plain (by simp)

theorem literal (x : Context) (t : Text) : P x (Instr.literal t) := by
  apply kept.plain
  intro i hi
  obtain ⟨f, -, rfl⟩ := List.mem_map.mp hi
  cases f <;> exact ⟨rfl, rfl⟩

theorem around (x : Context) (clauses : List Clause) {body : Context → List Instr}
    (h : ∀ x, P x (body x)) : P x (Clause.around x clauses body) := by
  induction clauses generalizing x with
  | nil => exact h x
  | cons c cs ih => exact kept.clause c (ih (c.inside x))

theorem invocations (x : Context) (clauses : List Clause) :
    P x (clauses.flatMap invocation) := by
  apply kept.plain
  intro i hi
  obtain ⟨⟨d, value⟩, -, hc⟩ := List.mem_flatMap.mp hi
  cases d with
  | inclusion | partialSlot =>
    rw [List.mem_singleton.mp hc]
    exact ⟨rfl, rfl⟩
  | condition | iteration => simp [invocation] at hc

theorem element (options : Options) (x : Context) (t : Token) (closingTag : Text)
    {body : Context → List Instr} (h : ∀ x, P x (body x)) :
    P x (t.elementInstrs options x closingTag body) := by
  have htags (x : Context) (tag : Text) {inner : List Instr} (hinner : P x inner) :
      P x (Instr.literal tag ++ inner ++ Instr.literal closingTag) :=
    kept.append (kept.append (kept.literal x tag) hinner) (kept.literal x closingTag)
  unfold Token.elementInstrs
  simp only
  split
  · exact htags x t.text (h x)
  · cases t.keptTag? options with
    | none => exact kept.around x _ h
    | some tag => exact kept.around x _ fun x => htags x tag (kept.around x _ h)

theorem lone (options : Options) (x : Context) (t : Token) : P x (t.loneInstrs options x) := by
  unfold Token.loneInstrs
  simp only
  split
  · exact kept.literal x t.text
  · apply kept.around
    intro x
    apply kept.append
    · cases t.keptTag? options with
      | none => exact kept.nil x
      | some tag => exact kept.literal x tag
    · exact kept.invocations x _

theorem single (options : Options) (x : Context) (t : Token) : P x (t.instrs options x) := by
  unfold Token.instrs
  split
  · exact kept.literal x t.text
  · exact kept.literal x t.text
  · exact kept.literal x t.text
  · split
    · exact kept.plain (by simp [Instr.text, Instr.opened?, Instr.closed?])
    · exact kept.nil x
  · exact kept.lone options x t

theorem range (options : Options) (tokens : List Token.Paired) (x : Context) (lo hi : Nat) :
    P x (Token.rangeInstrs options tokens x lo hi) := by
  induction hn : hi - lo using Nat.strongRecOn generalizing x lo hi with
  | ind n ih =>
    by_cases hlt : lo < hi
    · cases ht : tokens[lo]? with
      | none =>
        unfold Token.rangeInstrs
        rw [dif_pos hlt, ht]
        exact kept.nil x
      | some t =>
        cases hc : t.closing? lo hi with
        | none =>
          rw [Token.rangeInstrs_single hlt ht hc]
          exact kept.append (kept.single options x t.token) (ih _ (by omega) x (lo + 1) hi rfl)
        | some e =>
          have hbounds := Token.Paired.lt_of_closing? hc
          rw [Token.rangeInstrs_element ht hc]
          apply kept.append
          · exact kept.element options x t.token _ fun x => ih _ (by omega) x (lo + 1) e rfl
          · exact ih _ (by omega) x (e + 1) hi rfl
    · unfold Token.rangeInstrs
      rw [dif_neg hlt]
      exact kept.nil x

end Kept

end Clause

end HtmlTemplate
