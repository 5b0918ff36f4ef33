import HtmlTemplate.Proofs.Instr.Content
import HtmlTemplate.Proofs.Emission.Descent

/-!
What the operations of emission add. Between elements the cursor is unset and everything is added
at the end (`Extends`). While an opening tag is emitted, the cursor divides its fragments from what
stands before the element; `Marks` compares such a state with the state without the tag, in which
directives open at the end as well.
-/

namespace HtmlTemplate.Emission

/-- The content emitted so far, the pending text included. -/
def content (s : Emission) : List Atom := Instr.allAtoms s.instrs ++ s.pending.map .char

def context (s : Emission) : Context := ⟨s.depth, s.loops⟩

/-- From `s` to `t` the content `added` is written at the end, and the same directives are open. -/
structure Extends (s t : Emission) (added : List Atom) : Prop where
  content : t.content = s.content ++ added
  cursor : t.cursor = none
  depth : t.depth = s.depth
  partials : t.partials = s.partials
  loops : t.loops = s.loops

theorem Extends.trans {s t u : Emission} {xs ys : List Atom} (hst : Extends s t xs)
    (htu : Extends t u ys) : Extends s u (xs ++ ys) where
  content := by rw [htu.content, hst.content, List.append_assoc]
  cursor := htu.cursor
  depth := htu.depth.trans hst.depth
  partials := htu.partials.trans hst.partials
  loops := htu.loops.trans hst.loops

theorem Extends.refl {s : Emission} (h : s.cursor = none) : Extends s s [] :=
  ⟨(List.append_nil _).symm, h, rfl, rfl, rfl⟩

theorem Extends.context {s t : Emission} {xs : List Atom} (h : Extends s t xs) :
    t.context = s.context := by
  rw [Emission.context, Emission.context, h.depth, h.loops]

/-! ## Flushing -/

theorem flush_eq (s : Emission) :
    s.flush = { s with instrs := s.flush.instrs, pending := [] } := by
  unfold flush
  split
  · next h => rw [← List.isEmpty_iff.mp h]
  · rfl

theorem allAtoms_flush (s : Emission) : Instr.allAtoms s.flush.instrs = s.content := by
  unfold flush content
  split
  · next h => simp [List.isEmpty_iff.mp h]
  · simp

theorem flush_instrs_prefix (s : Emission) : ∃ added, s.flush.instrs = s.instrs ++ added := by
  unfold flush
  split
  · exact ⟨[], by simp⟩
  · exact ⟨[.text s.pending], rfl⟩

theorem allAtoms_finish (s : Emission) : Instr.allAtoms s.finish = s.content := allAtoms_flush s

/-! ## Adding at the end -/

theorem push_eq (s : Emission) (i : Instr) :
    s.push i = { s with instrs := s.flush.instrs ++ [i], pending := [] } := by
  unfold push
  rw [flush_eq]

@[simp] theorem push_cursor (s : Emission) (i : Instr) : (s.push i).cursor = s.cursor := by
  rw [push_eq]

@[simp] theorem push_depth (s : Emission) (i : Instr) : (s.push i).depth = s.depth := by
  rw [push_eq]

@[simp] theorem push_partials (s : Emission) (i : Instr) : (s.push i).partials = s.partials := by
  rw [push_eq]

@[simp] theorem push_loops (s : Emission) (i : Instr) : (s.push i).loops = s.loops := by
  rw [push_eq]

/-- Without a cursor an opening instruction goes to the end. -/
theorem insert_eq_push {s : Emission} (h : s.cursor = none) (i : Instr) :
    s.insert i = s.push i := by
  unfold insert push
  rw [flush_eq, h]

theorem content_push (s : Emission) (i : Instr) : (s.push i).content = s.content ++ i.atoms := by
  rw [push_eq]
  simp [content, allAtoms_flush]

theorem content_write (s : Emission) (t : Text) :
    (s.write t).content = s.content ++ t.map .char := by
  simp [content, write]

theorem extends_push {s : Emission} (h : s.cursor = none) (i : Instr) :
    Extends s (s.push i) i.atoms :=
  ⟨content_push s i, by simpa using h, by simp, by simp, by simp⟩

theorem Extends.push {s t : Emission} {xs : List Atom} (h : Extends s t xs) (i : Instr) :
    Extends s (t.push i) (xs ++ Instr.allAtoms [i]) := by
  simpa using h.trans (extends_push h.cursor i)

theorem extends_write {s : Emission} (h : s.cursor = none) (t : Text) :
    Extends s (s.write t) (t.map .char) :=
  ⟨content_write s t, h, rfl, rfl, rfl⟩

theorem extends_writeFragment {s : Emission} (h : s.cursor = none) (f : Fragment) :
    Extends s (s.writeFragment f) f.instr.atoms := by
  cases f with
  | text t =>
    rw [Fragment.instr, Instr.atoms_text]
    exact extends_write h t
  | interpolation escaped content => exact extends_push h _

theorem extends_writeLiteral {s : Emission} (h : s.cursor = none) (t : Text) :
    Extends s (s.writeLiteral t) (Instr.allAtoms (Instr.literal t)) := by
  unfold writeLiteral Instr.literal
  generalize Fragment.split t = fragments
  induction fragments generalizing s with
  | nil => exact Extends.refl h
  | cons f fragments ih =>
    have hf := extends_writeFragment h f
    exact hf.trans (ih hf.cursor)

/-! ## Adding at the cursor -/

/-- `m` differs from `s` by `back`, the content behind its cursor. -/
structure Marks (s m : Emission) (back : List Atom) : Prop where
  cursor : ∃ k, m.cursor = some k ∧ k ≤ m.instrs.length ∧
    Instr.allAtoms (m.instrs.take k) = s.content ∧
    Instr.allAtoms (m.instrs.drop k) ++ m.pending.map .char = back
  depth : m.depth = s.depth
  partials : m.partials = s.partials
  loops : m.loops = s.loops

theorem marks_mark (s : Emission) : Marks s s.mark [] := by
  unfold mark
  rw [flush_eq]
  refine ⟨⟨s.flush.instrs.length, rfl, Nat.le_refl _, ?_, ?_⟩, rfl, rfl, rfl⟩
  · rw [List.take_length, allAtoms_flush]
  · simp

/-- Flushing moves pending text behind the cursor. -/
theorem marks_flush {s m : Emission} {back : List Atom} (h : Marks s m back) :
    ∃ k, m.cursor = some k ∧ k ≤ m.flush.instrs.length ∧
      Instr.allAtoms (m.flush.instrs.take k) = s.content ∧
      Instr.allAtoms (m.flush.instrs.drop k) = back := by
  obtain ⟨k, hk, hle, hfront, hback⟩ := h.cursor
  have hall := allAtoms_flush m
  obtain ⟨added, hadded⟩ := flush_instrs_prefix m
  have htake : m.flush.instrs.take k = m.instrs.take k := by
    rw [hadded, List.take_append_of_le_length hle]
  refine ⟨k, hk, ?_, by rw [htake, hfront], ?_⟩
  · rw [hadded, List.length_append]
    omega
  · rw [content, ← List.take_append_drop k m.flush.instrs, htake, Instr.allAtoms_append,
      ← List.take_append_drop k m.instrs, Instr.allAtoms_append, List.append_assoc] at hall
    simp only [List.take_append_drop] at hall
    exact (List.append_cancel_left hall).trans hback

theorem Marks.push {s m : Emission} {back : List Atom} (h : Marks s m back) (i : Instr) :
    Marks s (m.push i) (back ++ i.atoms) := by
  obtain ⟨k, hk, hle, hfront, hback⟩ := marks_flush h
  rw [push_eq]
  refine ⟨⟨k, hk, ?_, ?_, ?_⟩, h.depth, h.partials, h.loops⟩
  · rw [List.length_append]
    omega
  · rw [List.take_append_of_le_length hle, hfront]
  · rw [List.drop_append_of_le_length hle]
    simp [hback]

theorem Marks.write {s m : Emission} {back : List Atom} (h : Marks s m back) (t : Text) :
    Marks s (m.write t) (back ++ t.map .char) := by
  obtain ⟨k, hk, hle, hfront, hback⟩ := h.cursor
  refine ⟨⟨k, hk, hle, hfront, ?_⟩, h.depth, h.partials, h.loops⟩
  simp [Emission.write, ← hback]

theorem Marks.writeFragment {s m : Emission} {back : List Atom} (h : Marks s m back)
    (f : Fragment) : Marks s (m.writeFragment f) (back ++ f.instr.atoms) := by
  cases f with
  | text t =>
    rw [Fragment.instr, Instr.atoms_text]
    exact h.write t
  | interpolation escaped content => exact h.push _

theorem Marks.writeLiteral {s m : Emission} {back : List Atom} (h : Marks s m back) (t : Text) :
    Marks s (m.writeLiteral t) (back ++ Instr.allAtoms (Instr.literal t)) := by
  unfold Emission.writeLiteral Instr.literal
  generalize Fragment.split t = fragments
  induction fragments generalizing m back with
  | nil => simpa using h
  | cons f fragments ih =>
    have hf := ih (h.writeFragment f)
    rwa [List.append_assoc] at hf

/-- An opening instruction goes between what stands before the element and its tag. -/
theorem Marks.insert {s m : Emission} {back : List Atom} (h : Marks s m back)
    (hs : s.cursor = none) (i : Instr) : Marks (s.insert i) (m.insert i) back := by
  obtain ⟨k, hk, hle, hfront, hback⟩ := marks_flush h
  have hm : m.insert i = { m with
      instrs := m.flush.instrs.take k ++ i :: m.flush.instrs.drop k
      pending := []
      cursor := some (k + 1) } := by
    unfold Emission.insert
    rw [flush_eq, hk]
  have hlength : (m.flush.instrs.take k).length = k := by rw [List.length_take]; omega
  rw [insert_eq_push hs, hm]
  refine ⟨⟨k + 1, rfl, ?_, ?_, ?_⟩, by simpa using h.depth, by simpa using h.partials,
    by simpa using h.loops⟩
  · simp only [List.length_append, List.length_cons, hlength]
    omega
  · rw [content_push, ← hfront, List.take_append, hlength]
    simp [List.take_of_length_le, hlength]
  · rw [List.drop_append, hlength]
    simp [List.drop_eq_nil_of_le, hlength, hback]

theorem Marks.openDirective {s m : Emission} {back : List Atom} (h : Marks s m back)
    (hs : s.cursor = none) (d : Directive) (value : Text) :
    Marks (s.openDirective d value) (m.openDirective d value) back := by
  cases d with
  | condition => exact h.insert hs _
  | iteration =>
    have hloop : Marks { s with loops := s.loops + 1 } { m with loops := m.loops + 1 } back :=
      ⟨h.cursor, h.depth, h.partials, congrArg (· + 1) h.loops⟩
    simpa only [Emission.openDirective, enterLoop, h.loops] using hloop.insert hs _
  | inclusion =>
    have hinclude : Marks { s with depth := s.depth + 1 } { m with depth := m.depth + 1 } back :=
      ⟨h.cursor, congrArg (· + 1) h.depth, h.partials, h.loops⟩
    exact hinclude.insert hs _
  | partialSlot =>
    simp only [Emission.openDirective, h.depth, h.partials]
    split
    · have hbody : Marks { s with partials := some s.depth :: s.partials, depth := 0 }
          { m with partials := some s.depth :: s.partials, depth := 0 } back :=
        ⟨h.cursor, rfl, rfl, h.loops⟩
      exact hbody.insert hs _
    · exact ⟨h.cursor, rfl, rfl, h.loops⟩

/-- After the opening tag its content is at the end. -/
theorem Marks.unmark {s m : Emission} {back : List Atom} (h : Marks s m back) :
    Extends s m.unmark back := by
  obtain ⟨k, hk, hle, hfront, hback⟩ := h.cursor
  refine ⟨?_, rfl, h.depth, h.partials, h.loops⟩
  rw [← hfront, ← hback, ← List.append_assoc, ← Instr.allAtoms_append, List.take_append_drop]
  rfl

end HtmlTemplate.Emission
