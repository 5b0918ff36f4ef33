import HtmlTemplate.Proofs.Instr.Content
import HtmlTemplate.Render.Program

/-!
Extents of blocks in any list, nested well or not. The body of a block reaches to an instruction
that closes, or to the end (`exists_body`). Dividing appends moves the ends of bodies along
(`bodyLength_expand`) and keeps the greatest depth (`blockDepth_expand`).
-/

namespace HtmlTemplate

namespace Instr

theorem opens_of_isAppend {i : Instr} (h : i.isAppend = true) : i.opens = false := by
  cases i with
  | append pieces => rfl
  | _ => simp [isAppend] at h

theorem closes_of_isAppend {i : Instr} (h : i.isAppend = true) : i.closes = false := by
  cases i with
  | append pieces => rfl
  | _ => simp [isAppend] at h

theorem isAppend_of_mem_atoms {pieces : List Piece} {i : Instr}
    (h : i ∈ (append pieces).atoms.map Atom.instr) : i.isAppend = true := by
  obtain ⟨a, ha, rfl⟩ := List.mem_map.mp h
  obtain ⟨p, -, hp⟩ := List.mem_flatMap.mp ha
  cases p with
  | text t =>
    obtain ⟨c, -, rfl⟩ := List.mem_map.mp hp
    rfl
  | value v =>
    rw [List.mem_singleton.mp hp]
    rfl

theorem bodyLength_appends {xs : List Instr} (h : ∀ i ∈ xs, i.isAppend = true) (level : Nat)
    (ys : List Instr) : bodyLength level (xs ++ ys) = xs.length + bodyLength level ys := by
  induction xs with
  | nil => simp
  | cons i is ih =>
    have hi := h i List.mem_cons_self
    have his := ih fun j hj => h j (List.mem_cons_of_mem i hj)
    simp only [List.cons_append, bodyLength, opens_of_isAppend hi, closes_of_isAppend hi, his,
      Bool.false_eq_true, if_false, List.length_cons]
    omega

theorem le_blockDepth (level : Nat) (instrs : List Instr) : level ≤ blockDepth level instrs := by
  cases instrs with
  | nil => exact Nat.le_refl level
  | cons i is => exact Nat.le_max_left ..

theorem blockDepth_appends {xs : List Instr} (h : ∀ i ∈ xs, i.isAppend = true) (level : Nat)
    (ys : List Instr) : blockDepth level (xs ++ ys) = blockDepth level ys := by
  induction xs with
  | nil => rfl
  | cons i is ih =>
    have hi := h i List.mem_cons_self
    have his := ih fun j hj => h j (List.mem_cons_of_mem i hj)
    simp only [List.cons_append, blockDepth, opens_of_isAppend hi, closes_of_isAppend hi, his,
      Bool.false_eq_true, if_false]
    exact Nat.max_eq_right (le_blockDepth level ys)

/-- The body of a block reaches to an instruction that closes, or to the end. -/
theorem exists_body (level : Nat) (instrs : List Instr) :
    ∃ body rest, instrs = body ++ rest ∧ bodyLength level instrs = body.length ∧
      (rest = [] ∨ ∃ i is, rest = i :: is ∧ i.closes = true) := by
  induction instrs generalizing level with
  | nil => exact ⟨[], [], rfl, rfl, .inl rfl⟩
  | cons i is ih =>
    have hstep (next : Nat) (h : bodyLength level (i :: is) = bodyLength next is + 1) :
        ∃ body rest, i :: is = body ++ rest ∧ bodyLength level (i :: is) = body.length ∧
          (rest = [] ∨ ∃ j js, rest = j :: js ∧ j.closes = true) := by
      obtain ⟨body, rest, his, hbody, hrest⟩ := ih next
      exact ⟨i :: body, rest, by rw [his, List.cons_append],
        by rw [h, hbody, List.length_cons], hrest⟩
    by_cases hopens : i.opens = true
    · exact hstep (level + 1) (by simp [bodyLength, hopens])
    by_cases hcloses : i.closes = true
    · cases level with
      | zero =>
        exact ⟨[], i :: is, rfl, by simp [bodyLength, hopens, hcloses], .inr ⟨i, is, rfl, hcloses⟩⟩
      | succ level => exact hstep level (by simp [bodyLength, hopens, hcloses])
    · exact hstep level (by simp [bodyLength, hopens, hcloses])

theorem expand_cons_of_not_isAppend {i : Instr} (h : i.isAppend = false) (is : List Instr) :
    expand (i :: is) = i :: expand is := by
  cases i with
  | append pieces => simp [isAppend] at h
  | _ => rfl

/-- How many instructions of a divided list remain behind a place that is not an append. -/
theorem length_expand_take_sub {i : Instr} (h : i.isAppend = false) (body is : List Instr)
    (count : Nat) :
    (expand ((body ++ i :: is).take count)).length - ((expand body).length + 1) =
      (expand (is.take (count - (body.length + 1)))).length := by
  rcases Nat.lt_or_ge body.length count with hlt | hle
  · obtain ⟨d, rfl⟩ := Nat.exists_eq_add_of_lt hlt
    have htake : (body ++ i :: is).take (body.length + d + 1) = body ++ i :: is.take d := by
      rw [Nat.add_assoc, List.take_length_add_append, List.take_succ_cons]
    have hd : body.length + d + 1 - (body.length + 1) = d := by omega
    rw [htake, hd, expand_append, expand_cons_of_not_isAppend h, List.length_append,
      List.length_cons]
    omega
  · have hzero : count - (body.length + 1) = 0 := by omega
    have hbody := congrArg List.length (expand_append (body.take count) (body.drop count))
    rw [List.take_append_drop, List.length_append] at hbody
    rw [List.take_append_of_le_length hle, hzero, List.take_zero, expand_nil, List.length_nil]
    omega

/-- Dividing appends carries the extents of blocks along. -/
theorem bodyLength_expand (level : Nat) (instrs : List Instr) :
    bodyLength level (expand instrs) =
      (expand (instrs.take (bodyLength level instrs))).length := by
  induction instrs generalizing level with
  | nil => rfl
  | cons i is ih =>
    cases i with
    | append pieces =>
      rw [expand_cons, bodyLength_appends (fun _ h => isAppend_of_mem_atoms h), ih]
      simp [bodyLength, opens, closes, expand_cons]
    | ifClose | eachClose | includeClose | partialClose =>
      cases level with
      | zero => rfl
      | succ level => simp [bodyLength, opens, closes, expand_cons, atoms, Atom.instr, ih]
    | ifOpen | eachOpen | includeOpen | partialOpen =>
      simp [expand_cons, atoms, Atom.instr, bodyLength, opens, ih]
    | includeInvoke | partialInvoke =>
      simp [expand_cons, atoms, Atom.instr, bodyLength, opens, closes, ih]

theorem blockDepth_expand (level : Nat) (instrs : List Instr) :
    blockDepth level (expand instrs) = blockDepth level instrs := by
  induction instrs generalizing level with
  | nil => rfl
  | cons i is ih =>
    cases i with
    | append pieces =>
      rw [expand_cons, blockDepth_appends (fun _ h => isAppend_of_mem_atoms h), ih]
      exact (Nat.max_eq_right (le_blockDepth level is)).symm
    | _ => simp [expand_cons, atoms, Atom.instr, blockDepth, ih]

end Instr

end HtmlTemplate
