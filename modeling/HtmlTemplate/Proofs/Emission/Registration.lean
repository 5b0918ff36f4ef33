import HtmlTemplate.Proofs.Emission.Induction
import HtmlTemplate.Proofs.Emission.Simulation
import HtmlTemplate.Proofs.Instr.Registration

/-!
Compiled templates register their partials. The descent opens a partial where its context counts an
include around, and then the innermost of the blocks around that is no condition or loop is an
include (`kept_registering`). The normal form keeps that (`registers_instrs`).
-/

namespace HtmlTemplate

namespace Clause

/-- Where the context counts includes, the open blocks take partials. -/
theorem kept_registering : Kept fun x instrs => ∀ blocks,
    (x.includes > 0 → BlockKind.collects blocks = true) → Instr.Registering blocks instrs where
  plain := fun h _ _ => Instr.registering_of_plain h
  append := fun hxs hys blocks h => (hxs blocks h).append (hys blocks h)
  clause := by
    intro x c body hbody blocks h
    obtain ⟨d, value⟩ := c
    cases d with
    | condition => exact Instr.Registering.block .condition rfl rfl (by simp) (hbody _ h)
    | iteration => exact Instr.Registering.block (.loop x.loops) rfl rfl (by simp) (hbody _ h)
    | inclusion =>
      exact Instr.Registering.block .inclusion rfl rfl (by simp) (hbody _ fun _ => rfl)
    | partialSlot =>
      by_cases hx : x.includes > 0
      · simp only [opening, closing, if_pos hx]
        refine Instr.Registering.block .registration rfl rfl (fun _ => h hx) (hbody _ ?_)
        simp [inside]
      · simp only [opening, closing, if_neg hx, List.nil_append]
        have hlookup : Instr.Registering blocks [.partialInvoke (Target.ofText value)] :=
          Instr.registering_of_plain (by simp [Instr.opened?, Instr.closed?])
        refine (hbody blocks ?_).append hlookup
        simp [inside]

end Clause

namespace Compile

theorem registers_instrs (source : Text) (options : Options) :
    Instr.Registers [] (instrs source options) := by
  have hinstrs := Instr.optimize_eq_iff.mpr
    (Emission.allAtoms_finish_ofTokens options (tokens source options))
  have hrange := Clause.kept_registering.range options (tokens source options) ⟨0, 0⟩ 0
    (tokens source options).length [] (by simp)
  rw [instrs, emission, hinstrs, Instr.registers_optimize]
  simpa using hrange [] trivial

end Compile

end HtmlTemplate
