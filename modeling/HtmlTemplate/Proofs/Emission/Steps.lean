import HtmlTemplate.Proofs.Emission.Content

/-!
Emission under any operations, in any order and not paired. Opening instructions go to a cursor that
may be left from an element long closed, but it stays within the instructions, and what is put there
is no append, so it divides what is written without changing it (`Conserves`). Every operation keeps
that (`Conserves.apply`), and a run neither loses, doubles nor reorders anything
(`finish_after`).
-/

namespace HtmlTemplate.Emission

/-- An operation on the state of emission. Text and variables are written; the instructions that are
put in as such are no appends. -/
inductive Step
  | write (t : Text)
  | writeVariable (v : Variable)
  | writeLiteral (t : Text)
  | flush
  | mark
  | unmark
  | enterLoop
  | leaveLoop
  | insert (i : Instr) (h : i.isAppend = false)
  | push (i : Instr) (h : i.isAppend = false)
  | openClause (c : Clause)
  | closeClause (c : Clause)
  | invokeClause (c : Clause)

def apply (s : Emission) : Step → Emission
  | .write t => s.write t
  | .writeVariable v => s.writeVariable v
  | .writeLiteral t => s.writeLiteral t
  | .flush => s.flush
  | .mark => s.mark
  | .unmark => s.unmark
  | .enterLoop => s.enterLoop.1
  | .leaveLoop => s.leaveLoop.1
  | .insert i _ => s.insert i
  | .push i _ => s.push i
  | .openClause c => s.openDirective c.directive c.value
  | .closeClause c => s.closeDirective c.directive c.value
  | .invokeClause c => s.invokeDirective c.directive c.value

def after (s : Emission) (steps : List Step) : Emission := steps.foldl apply s

/-- What closing a clause emits in a state in which any directives may be open. -/
def closingAt (s : Emission) (c : Clause) : List Instr :=
  match c.directive with
  | .condition => [.ifClose]
  | .iteration => [.eachClose (s.loops - 1)]
  | .inclusion => [.includeClose (Target.ofText c.value)]
  | .partialSlot =>
    match s.partials with
    | some _ :: _ => [.partialClose]
    | _ => [.partialInvoke (Target.ofText c.value)]

namespace Step

def written : Step → List Atom
  | write t => t.map .char
  | writeVariable v => [.value v]
  | writeLiteral t => (Instr.literal t).flatMap Instr.written
  | _ => []

/-- The instructions other than appends that a step emits in a state. -/
def emitted (s : Emission) : Step → List Instr
  | insert i _ | push i _ => [i]
  | openClause c => c.opening s.context
  | closeClause c => s.closingAt c
  | invokeClause c => c.invocation
  | _ => []

end Step

/-- The instructions other than appends that the steps emit one after the other. -/
def emittedFrom (s : Emission) : List Step → List Instr
  | [] => []
  | step :: steps => step.emitted s ++ emittedFrom (s.apply step) steps

/-- The state holds what was written, in order, and what was emitted, each once, and its cursor lies
within the instructions. -/
structure Conserves (s : Emission) (written : List Atom) (emitted : List Instr) : Prop where
  inRange : ∀ k ∈ s.cursor, k ≤ s.instrs.length
  written : s.instrs.flatMap Instr.written ++ s.pending.map .char = written
  emitted : (Instr.controls s.instrs).Perm emitted

namespace Conserves

variable {s : Emission} {written : List Atom} {emitted : List Instr}

theorem write (h : Conserves s written emitted) (t : Text) :
    Conserves (s.write t) (written ++ t.map .char) emitted where
  inRange := h.inRange
  written := by simp [Emission.write, ← h.written]
  emitted := h.emitted

theorem flush (h : Conserves s written emitted) : Conserves s.flush written emitted := by
  unfold Emission.flush
  split
  · exact h
  · refine ⟨fun k hk => ?_, ?_, ?_⟩
    · have hrange := h.inRange k hk
      simp only [List.length_append, List.length_singleton]
      omega
    · rw [← h.written]
      simp [Instr.written, Instr.text, Piece.atoms]
    · simpa [Instr.controls, Instr.isAppend, Instr.text] using h.emitted

/-- After flushing nothing is pending. -/
theorem written_flush (h : Conserves s written emitted) :
    s.flush.instrs.flatMap Instr.written = written := by
  have hflush := h.flush.written
  rw [flush_eq] at hflush
  simpa using hflush

theorem push (h : Conserves s written emitted) (i : Instr) :
    Conserves (s.push i) (written ++ i.written) (emitted ++ Instr.controls [i]) := by
  rw [push_eq]
  refine ⟨fun k hk => ?_, ?_, ?_⟩
  · have hrange := h.flush.inRange k (by rw [flush_eq]; exact hk)
    simp only [List.length_append, List.length_singleton]
    omega
  · simp [h.written_flush]
  · rw [Instr.controls, List.filter_append]
    exact h.flush.emitted.append_right _

theorem writeVariable (h : Conserves s written emitted) (v : Variable) :
    Conserves (s.writeVariable v) (written ++ [.value v]) emitted := by
  have hpush := h.push (.append [.value v])
  have hcontrols : Instr.controls [.append [.value v]] = [] := rfl
  rw [hcontrols, List.append_nil] at hpush
  exact hpush

theorem push_control (h : Conserves s written emitted) {i : Instr} (hi : i.isAppend = false) :
    Conserves (s.push i) written (emitted ++ [i]) := by
  simpa [Instr.written_of_not_isAppend hi, Instr.controls, hi] using h.push i

theorem insert (h : Conserves s written emitted) {i : Instr} (hi : i.isAppend = false) :
    Conserves (s.insert i) written (emitted ++ [i]) := by
  cases hcursor : s.cursor with
  | none =>
    rw [insert_eq_push hcursor]
    exact h.push_control hi
  | some k =>
    have hinsert : s.insert i = { s with
        instrs := s.flush.instrs.take k ++ i :: s.flush.instrs.drop k
        pending := []
        cursor := some (k + 1) } := by
      unfold Emission.insert
      rw [flush_eq, hcursor]
    have hrange : k ≤ s.flush.instrs.length := h.flush.inRange k (by rw [flush_eq]; exact hcursor)
    have hsplit := List.take_append_drop k s.flush.instrs
    rw [hinsert]
    refine ⟨?_, ?_, ?_⟩
    · rintro _ ⟨⟩
      simp only [List.length_append, List.length_take, List.length_cons, List.length_drop]
      omega
    · have hwritten := h.written_flush
      rw [← hsplit, List.flatMap_append] at hwritten
      simpa [Instr.written_of_not_isAppend hi] using hwritten
    · -- Taking the new instruction out of the middle leaves the two parts side by side.
      have hparts := h.flush.emitted
      rw [← hsplit] at hparts
      simp only [Instr.controls, List.filter_append, List.filter_cons, hi] at hparts ⊢
      exact (List.perm_middle.trans (hparts.cons i)).trans (List.perm_append_singleton i _).symm

theorem mark (h : Conserves s written emitted) : Conserves s.mark written emitted where
  inRange := by rintro _ ⟨⟩; exact Nat.le_refl _
  written := h.flush.written
  emitted := h.flush.emitted

theorem unmark (h : Conserves s written emitted) : Conserves s.unmark written emitted :=
  ⟨nofun, h.written, h.emitted⟩

theorem writeLiteral (h : Conserves s written emitted) (t : Text) :
    Conserves (s.writeLiteral t) (written ++ (Instr.literal t).flatMap Instr.written) emitted := by
  unfold Emission.writeLiteral Instr.literal
  generalize Fragment.split t = fragments
  induction fragments generalizing s written with
  | nil => simpa using h
  | cons f fragments ih =>
    have hf : Conserves (s.writeFragment f) (written ++ f.instr.written) emitted := by
      cases f with
      | text t =>
        have htext : (Fragment.text t).instr.written = t.map .char := List.append_nil _
        rw [htext]
        exact h.write t
      | interpolation escaped content => exact h.writeVariable _
    simpa using ih hf

theorem openClause (h : Conserves s written emitted) (c : Clause) :
    Conserves (s.openDirective c.directive c.value) written (emitted ++ c.opening s.context) := by
  obtain ⟨d, value⟩ := c
  cases d with
  | condition => exact h.insert rfl
  | iteration =>
    have hloop : Conserves { s with loops := s.loops + 1 } written emitted :=
      ⟨h.inRange, h.written, h.emitted⟩
    exact hloop.insert rfl
  | inclusion =>
    have hinclude : Conserves { s with depth := s.depth + 1 } written emitted :=
      ⟨h.inRange, h.written, h.emitted⟩
    exact hinclude.insert rfl
  | partialSlot =>
    by_cases hd : s.depth > 0
    · have hbody : Conserves { s with partials := some s.depth :: s.partials, depth := 0 }
          written emitted := ⟨h.inRange, h.written, h.emitted⟩
      simpa [openDirective, Clause.opening, context, hd] using hbody.insert rfl
    · have hlookup : Conserves { s with partials := none :: s.partials } written emitted :=
        ⟨h.inRange, h.written, h.emitted⟩
      simpa [openDirective, Clause.opening, context, hd] using hlookup

theorem closeClause (h : Conserves s written emitted) (c : Clause) :
    Conserves (s.closeDirective c.directive c.value) written (emitted ++ s.closingAt c) := by
  obtain ⟨d, value⟩ := c
  cases d with
  | condition => exact h.push_control rfl
  | iteration =>
    have hloop : Conserves { s with loops := s.loops - 1 } written emitted :=
      ⟨h.inRange, h.written, h.emitted⟩
    exact hloop.push_control rfl
  | inclusion =>
    have hinclude : Conserves { s with depth := s.depth - 1 } written emitted :=
      ⟨h.inRange, h.written, h.emitted⟩
    exact hinclude.push_control rfl
  | partialSlot =>
    have hlookup : Conserves { s with partials := s.partials.tail } written emitted :=
      ⟨h.inRange, h.written, h.emitted⟩
    simp only [closeDirective, closingAt, invokeDirective]
    rcases hpartials : s.partials with _ | ⟨_ | depth, partials⟩
    · simpa [hpartials] using hlookup.push_control (i := .partialInvoke (Target.ofText value)) rfl
    · simpa [hpartials] using hlookup.push_control (i := .partialInvoke (Target.ofText value)) rfl
    · have hbody : Conserves { s with partials, depth } written emitted :=
        ⟨h.inRange, h.written, h.emitted⟩
      exact hbody.push_control rfl

theorem invokeClause (h : Conserves s written emitted) (c : Clause) :
    Conserves (s.invokeDirective c.directive c.value) written (emitted ++ c.invocation) := by
  obtain ⟨d, value⟩ := c
  cases d with
  | inclusion | partialSlot => exact h.push_control rfl
  | condition | iteration => simpa [Clause.invocation, invokeDirective] using h

/-- A step adds what it writes and what it emits. -/
theorem apply (h : Conserves s written emitted) (step : Step) :
    Conserves (s.apply step) (written ++ step.written) (emitted ++ step.emitted s) := by
  unfold Emission.apply Step.written Step.emitted
  cases step with
  | write t => simpa using h.write t
  | writeVariable v => simpa using h.writeVariable v
  | writeLiteral t => simpa using h.writeLiteral t
  | flush => simpa using h.flush
  | mark => simpa using h.mark
  | unmark => simpa using h.unmark
  | enterLoop =>
    have hloop : Conserves s.enterLoop.1 written emitted := ⟨h.inRange, h.written, h.emitted⟩
    simpa using hloop
  | leaveLoop =>
    have hloop : Conserves s.leaveLoop.1 written emitted := ⟨h.inRange, h.written, h.emitted⟩
    simpa using hloop
  | insert i hi => simpa using h.insert hi
  | push i hi => simpa using h.push_control hi
  | openClause c => simpa using h.openClause c
  | closeClause c => simpa using h.closeClause c
  | invokeClause c => simpa using h.invokeClause c

theorem after (h : Conserves s written emitted) (steps : List Step) :
    Conserves (s.after steps) (written ++ steps.flatMap Step.written)
      (emitted ++ s.emittedFrom steps) := by
  induction steps generalizing s written emitted with
  | nil => simpa [Emission.after, emittedFrom] using h
  | cons step steps ih => simpa [Emission.after, emittedFrom] using ih (h.apply step)

end Conserves

theorem conserves_start : Conserves start [] [] := ⟨nofun, rfl, .nil⟩

/-- Whatever the steps, the cursor never lies beyond the instructions, and in the end the appends
write the characters and variables of the steps in their order, and the other instructions are those
that the steps emitted, each once. -/
theorem finish_after (steps : List Step) :
    (∀ before later, steps = before ++ later →
        ∀ k ∈ (start.after before).cursor, k ≤ (start.after before).instrs.length) ∧
      (start.after steps).finish.flatMap Instr.written = steps.flatMap Step.written ∧
      (Instr.controls (start.after steps).finish).Perm (start.emittedFrom steps) := by
  have hall (steps : List Step) := conserves_start.after steps
  exact ⟨fun before _ _ => (hall before).inRange, (hall steps).written_flush,
    (hall steps).flush.emitted⟩

end HtmlTemplate.Emission
