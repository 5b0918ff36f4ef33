import HtmlTemplate.Proofs.Emission.Induction
import HtmlTemplate.Proofs.Emission.Simulation

/-!
Compiled templates are well nested. Every clause closes what it opens around a balanced body
(`balanced_around`), so the recursive descent gives balanced instructions for every range of tokens
(`balanced_rangeInstrs`), and the normal form keeps that.
-/

namespace HtmlTemplate

namespace Clause

/-- A clause around a body that is balanced in the context inside the clause. -/
theorem balanced_around_cons (x : Context) (c : Clause) {body : List Instr}
    (h : Instr.Balanced (c.inside x).loops body) :
    Instr.Balanced x.loops (c.opening x ++ body ++ c.closing x) := by
  obtain ⟨d, value⟩ := c
  cases d with
  | condition => exact Instr.Balanced.block .condition rfl rfl (by simp) h
  | iteration => exact Instr.Balanced.block (.loop x.loops) rfl rfl (by simp) h
  | inclusion => exact Instr.Balanced.block .inclusion rfl rfl (by simp) h
  | partialSlot =>
    by_cases hx : x.includes > 0
    · simp only [opening, closing, if_pos hx]
      exact Instr.Balanced.block .registration rfl rfl (by simp) h
    · simp only [opening, closing, if_neg hx, List.nil_append]
      exact h.append (Instr.balanced_of_plain (by simp [Instr.opened?, Instr.closed?]))

theorem kept_balanced : Kept fun x instrs => Instr.Balanced x.loops instrs where
  plain := Instr.balanced_of_plain
  append := Instr.Balanced.append
  clause := balanced_around_cons _

theorem balanced_around (x : Context) (clauses : List Clause) {body : Context → List Instr}
    (h : ∀ x, Instr.Balanced x.loops (body x)) :
    Instr.Balanced x.loops (around x clauses body) :=
  kept_balanced.around x clauses h

end Clause

theorem Instr.balanced_literal (loops : Nat) (t : Text) : Balanced loops (literal t) :=
  Clause.kept_balanced.literal ⟨0, loops⟩ t

theorem Token.balanced_rangeInstrs (options : Options) (tokens : List Paired) (x : Context)
    (lo hi : Nat) : Instr.Balanced x.loops (rangeInstrs options tokens x lo hi) :=
  Clause.kept_balanced.range options tokens x lo hi

namespace Compile

/-- The instructions of a compiled template are the normal form of balanced instructions. -/
theorem exists_balanced (source : Text) (options : Options) :
    ∃ descent, Instr.Balanced 0 descent ∧ instrs source options = Instr.optimize descent := by
  refine ⟨Token.rangeInstrs options (tokens source options) ⟨0, 0⟩ 0
    (tokens source options).length, Token.balanced_rangeInstrs options _ ⟨0, 0⟩ _ _, ?_⟩
  apply Instr.optimize_eq_iff.mpr
  exact Emission.allAtoms_finish_ofTokens options (tokens source options)

/-- When emission ends, no directive is open. -/
theorem emission_depth (source : Text) (options : Options) :
    (emission source options).depth = 0 :=
  (Emission.extends_ofTokens options (tokens source options)).depth

theorem emission_partials (source : Text) (options : Options) :
    (emission source options).partials = [] :=
  (Emission.extends_ofTokens options (tokens source options)).partials

theorem openDirectives_not_mem_warnings (source : Text) (options : Options)
    (depth openPartials : Nat) :
    .openDirectives depth openPartials ∉ warnings source options := by
  unfold warnings
  simp [emission_depth, emission_partials, Warning.ofToken]

/-- Compiled templates are well nested. In the stack of open blocks at any place the frames of the
loops are distinct, and a loop that opens there has their number as its frame. Emission leaves no
directive open, which it would warn of, and the JavaScript is never indented below its outermost
level, to which it is back at the end. -/
theorem instrs_wellNested (source : Text) (options : Options) :
    Instr.WellNested (instrs source options) ∧
      (∀ before after, instrs source options = before ++ after →
        ∃ blocks, Instr.scan [] before = some blocks ∧ (BlockKind.frames blocks).Nodup ∧
          ∀ expr frame rest, after = .eachOpen expr frame :: rest →
            frame = (BlockKind.frames blocks).length) ∧
      (emission source options).depth = 0 ∧ (emission source options).partials = [] ∧
      (∀ depth openPartials, .openDirectives depth openPartials ∉ warnings source options) ∧
      (∀ before after, instrs source options = before ++ after →
        0 ≤ Instr.level before ∧
          (∀ i rest, after = i :: rest →
            ∀ line ∈ JavaScript.lines i, 0 ≤ Instr.level before + line.offset) ∧
          JavaScript.body 0 (instrs source options) =
            JavaScript.body 0 before ++ JavaScript.body (Instr.level before) after) ∧
      Instr.level (instrs source options) = 0 := by
  obtain ⟨descent, hbalanced, hinstrs⟩ := exists_balanced source options
  have hscan : Instr.WellNested (instrs source options) := by
    rw [Instr.WellNested, hinstrs, Instr.scan_optimize]
    exact hbalanced.wellNested
  have hloops : Instr.LoopsNumbered 0 (instrs source options) := by
    rw [hinstrs, Instr.loopsNumbered_optimize]
    simpa using hbalanced.numbered [] trivial
  refine ⟨hscan, ?_, emission_depth source options, emission_partials source options,
    openDirectives_not_mem_warnings source options, ?_, ?_⟩
  · intro before after hsplit
    rw [hsplit] at hscan hloops
    obtain ⟨blocks, hblocks, -⟩ := Instr.scan_of_append hscan
    obtain ⟨hnumbered, hafter⟩ := Instr.numbered_of_scan hblocks rfl hloops
    refine ⟨blocks, hblocks, hnumbered.nodup, ?_⟩
    rintro expr frame rest rfl
    exact hafter.1
  · intro before after hsplit
    rw [hsplit] at hscan ⊢
    obtain ⟨blocks, hblocks, hrest⟩ := Instr.scan_of_append hscan
    have hlength := Instr.length_of_scan hblocks
    simp only [List.length_nil, Int.natCast_zero, Int.zero_add] at hlength
    refine ⟨by omega, ?_, by rw [JavaScript.body_append, Int.zero_add]⟩
    rintro i rest rfl line hline
    obtain ⟨next, hnext, -⟩ := Option.bind_eq_some_iff.mp hrest
    have hafter := Instr.length_of_nest hnext
    have hoffset := JavaScript.le_offset hline
    omega
  · have hlength := Instr.length_of_scan hscan
    simpa using hlength.symm

end Compile

end HtmlTemplate
