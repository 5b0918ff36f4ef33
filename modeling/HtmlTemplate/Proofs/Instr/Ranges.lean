import HtmlTemplate.Proofs.Instr.Blocks
import HtmlTemplate.Proofs.Render.Run

/-!
Ranges of blocks in any list, nested well or not. A block reaches from the operation that opens it
to its end (`Program.stop?`), which is another operation or the length of the list (`lt_stop?`). Two
blocks have nothing in common or one contains the other (`stop?_laminar`), and in a well nested list
the end of a block is the instruction that closes it (`closesAt_of_stop?`).
-/

namespace HtmlTemplate

namespace Instr

variable {instrs : List Instr}

/-! ## Bodies -/

theorem bodyLength_le_length (level : Nat) (instrs : List Instr) :
    bodyLength level instrs ≤ instrs.length := by
  obtain ⟨body, rest, rfl, hbody, -⟩ := exists_body level instrs
  rw [hbody, List.length_append]
  exact Nat.le_add_right _ _

/-- A body inside more blocks is no shorter. -/
theorem bodyLength_le_succ (level : Nat) (instrs : List Instr) :
    bodyLength level instrs ≤ bodyLength (level + 1) instrs := by
  induction instrs generalizing level with
  | nil => exact Nat.le_refl 0
  | cons i is ih =>
    by_cases hopens : i.opens = true
    · simpa [bodyLength, hopens] using ih (level + 1)
    by_cases hcloses : i.closes = true
    · cases level with
      | zero => simp [bodyLength, hopens, hcloses]
      | succ level => simpa [bodyLength, hopens, hcloses] using ih level
    · simpa [bodyLength, hopens, hcloses] using ih level

theorem bodyLength_zero_le (level : Nat) (instrs : List Instr) :
    bodyLength 0 instrs ≤ bodyLength level instrs := by
  induction level with
  | zero => exact Nat.le_refl _
  | succ level ih => exact Nat.le_trans ih (bodyLength_le_succ level instrs)

/-- What a body has behind a place inside is a body itself. -/
theorem exists_bodyLength_drop {level k : Nat} (h : k ≤ bodyLength level instrs) :
    ∃ inner, bodyLength level instrs = k + bodyLength inner (instrs.drop k) := by
  induction k generalizing level instrs with
  | zero => exact ⟨level, (Nat.zero_add _).symm⟩
  | succ k ih =>
    cases instrs with
    | nil => simp [bodyLength] at h
    | cons i is =>
      have hstep (next : Nat) (hnext : bodyLength level (i :: is) = bodyLength next is + 1) :
          ∃ inner, bodyLength level (i :: is) = k + 1 + bodyLength inner (is.drop k) := by
        obtain ⟨inner, hinner⟩ := ih (Nat.le_of_succ_le_succ (hnext ▸ h))
        exact ⟨inner, by omega⟩
      by_cases hopens : i.opens = true
      · exact hstep (level + 1) (by simp [bodyLength, hopens])
      by_cases hcloses : i.closes = true
      · cases level with
        | zero => simp [bodyLength, hopens, hcloses] at h
        | succ level => exact hstep level (by simp [bodyLength, hopens, hcloses])
      · exact hstep level (by simp [bodyLength, hopens, hcloses])

/-- The body of a block is the body of the innermost of its blocks, the end of that one and what
follows it. -/
theorem bodyLength_succ_le (inner outer : Nat) (instrs : List Instr) :
    bodyLength (inner + outer + 1) instrs ≤ bodyLength inner instrs + 1 +
      bodyLength outer (instrs.drop (bodyLength inner instrs + 1)) := by
  induction instrs generalizing inner with
  | nil => exact Nat.zero_le _
  | cons i is ih =>
    by_cases hopens : i.opens = true
    · have his := ih (inner + 1)
      rw [Nat.add_right_comm inner 1 outer] at his
      simp only [bodyLength, hopens, if_true, List.drop_succ_cons]
      omega
    by_cases hcloses : i.closes = true
    · cases inner with
      | zero => simp [bodyLength, hopens, hcloses, Nat.add_comm]
      | succ inner =>
        have his := ih inner
        rw [Nat.add_right_comm inner 1 outer]
        simp only [bodyLength, hopens, hcloses, if_true, if_false, Bool.false_eq_true,
          List.drop_succ_cons]
        omega
    · have his := ih inner
      simp only [bodyLength, hopens, hcloses, if_false, Bool.false_eq_true, List.drop_succ_cons]
      omega

/-- What follows a block is no deeper than the list with the block. -/
theorem blockDepth_drop_le (inner outer : Nat) (instrs : List Instr) :
    blockDepth outer (instrs.drop (bodyLength inner instrs + 1)) ≤
      blockDepth (inner + outer + 1) instrs := by
  induction instrs generalizing inner with
  | nil =>
    simp only [List.drop_nil, blockDepth]
    omega
  | cons i is ih =>
    by_cases hopens : i.opens = true
    · have his := ih (inner + 1)
      rw [Nat.add_right_comm inner 1 outer] at his
      simp only [bodyLength, blockDepth, hopens, if_true, List.drop_succ_cons]
      omega
    by_cases hcloses : i.closes = true
    · cases inner with
      | zero =>
        simp only [bodyLength, blockDepth, hopens, hcloses, if_true, if_false, Bool.false_eq_true,
          Nat.zero_add, List.drop_succ_cons, List.drop_zero, Nat.add_sub_cancel]
        exact Nat.le_max_right ..
      | succ inner =>
        have his := ih inner
        rw [Nat.add_right_comm inner 1 outer]
        simp only [bodyLength, blockDepth, hopens, hcloses, if_true, if_false, Bool.false_eq_true,
          List.drop_succ_cons, Nat.add_sub_cancel]
        omega
    · have his := ih inner
      simp only [bodyLength, blockDepth, hopens, hcloses, if_false, Bool.false_eq_true,
        List.drop_succ_cons]
      omega

/-- The end of a block is a place that opens none. -/
theorem not_opens_of_getElem?_bodyLength {level : Nat} {i : Instr}
    (h : instrs[bodyLength level instrs]? = some i) : i.opens = false := by
  obtain ⟨body, rest, rfl, hbody, hrest⟩ := exists_body level instrs
  rw [hbody] at h
  rcases hrest with rfl | ⟨j, is, rfl, hj⟩
  · simp at h
  · obtain rfl : j = i := by simpa using h
    cases j <;> simp_all [opens, closes]

end Instr

namespace Op

def body? : Op → Option Nat
  | branch _ body | loop _ body | collect body | register _ body => some body
  | _ => none

theorem body?_toOp (rest : List Instr) (i : Instr) :
    (i.toOp rest).body? = if i.opens then some (Instr.bodyLength 0 rest) else none := by
  cases i <;> rfl

end Op

namespace Program

variable {instrs : List Instr}

/-- The end of the block that is opened at a position: the position behind its body. -/
def stop? (p : Program) (start : Nat) : Option Nat :=
  p.ops[start]?.bind fun op => op.body?.map (start + 1 + ·)

theorem stop?_eq_some_iff {start stop : Nat} :
    (ofInstrs instrs).stop? start = some stop ↔
      ∃ i, instrs[start]? = some i ∧ i.opens = true ∧
        stop = start + 1 + Instr.bodyLength 0 (instrs.drop (start + 1)) := by
  simp only [stop?, ofInstrs, Instr.toOps_getElem?]
  cases hi : instrs[start]? with
  | none => simp
  | some i =>
    rw [Option.map_some, Option.bind_some, Op.body?_toOp]
    cases hopens : i.opens with
    | false => simp [hopens]
    | true => simpa [hopens] using eq_comm

theorem isSome_stop? {start : Nat} :
    ((ofInstrs instrs).stop? start).isSome ↔ ∃ i, instrs[start]? = some i ∧ i.opens = true := by
  simp only [Option.isSome_iff_exists, stop?_eq_some_iff]
  constructor
  · rintro ⟨_, i, hi, hopens, -⟩
    exact ⟨i, hi, hopens⟩
  · rintro ⟨i, hi, hopens⟩
    exact ⟨_, i, hi, hopens, rfl⟩

/-- A block ends behind its start and not behind the list. -/
theorem lt_stop? {start stop : Nat} (h : (ofInstrs instrs).stop? start = some stop) :
    start < stop ∧ stop ≤ instrs.length := by
  obtain ⟨i, hi, -, rfl⟩ := stop?_eq_some_iff.mp h
  obtain ⟨hlt, -⟩ := List.getElem?_eq_some_iff.mp hi
  have hbody := Instr.bodyLength_le_length 0 (instrs.drop (start + 1))
  rw [List.length_drop] at hbody
  omega

/-- Of two blocks the later one starts behind the end of the earlier one or ends no later. -/
theorem stop?_laminar {start stop inner last : Nat}
    (houter : (ofInstrs instrs).stop? start = some stop)
    (hinner : (ofInstrs instrs).stop? inner = some last) (h : start < inner) :
    stop < inner ∨ last ≤ stop := by
  obtain ⟨_, -, -, rfl⟩ := stop?_eq_some_iff.mp houter
  obtain ⟨i, hi, hopens, rfl⟩ := stop?_eq_some_iff.mp hinner
  rcases Nat.lt_trichotomy (start + 1 + Instr.bodyLength 0 (instrs.drop (start + 1))) inner with
    hlt | heq | hgt
  · exact .inl hlt
  · -- The end of a block is a close or the end of the list, so no block starts there.
    have hend : (instrs.drop (start + 1))[Instr.bodyLength 0 (instrs.drop (start + 1))]? =
        some i := by
      rw [List.getElem?_drop, heq, hi]
    simp [Instr.not_opens_of_getElem?_bodyLength hend] at hopens
  · right
    obtain ⟨level, hlevel⟩ := Instr.exists_bodyLength_drop
      (show inner - start ≤ Instr.bodyLength 0 (instrs.drop (start + 1)) by omega)
    have hdrop : (instrs.drop (start + 1)).drop (inner - start) = instrs.drop (inner + 1) := by
      rw [List.drop_drop]
      congr 1
      omega
    rw [hdrop] at hlevel
    have hle := Instr.bodyLength_zero_le level (instrs.drop (inner + 1))
    omega

end Program

/-! ## Well nested lists -/

namespace Blocks

/-- A tree closes what it opens. -/
theorem scan_instrs (b : Blocks) (blocks : List BlockKind) :
    Instr.scan blocks b.instrs = some blocks := by
  induction b generalizing blocks with
  | nil => rfl
  | append x rest ih | includeInvoke x rest ih | partialInvoke x rest ih => exact ih blocks
  | condition expr body rest ihb ihr | loop expr frame body rest ihb ihr
  | inclusion body target rest ihb ihr | registration name body rest ihb ihr =>
    simp [instrs, Instr.scan, Instr.nest, Instr.opened?, Instr.closed?, Instr.scan_append, ihb, ihr]

end Blocks

namespace Instr

/-- The instruction at `stop` closes the block that the one at `start` opens: they are of one kind
and what stands between them is well nested. -/
def ClosesAt (instrs : List Instr) (start stop : Nat) : Prop :=
  ∃ before o body c after kind, instrs = before ++ o :: (body ++ c :: after) ∧
    before.length = start ∧ start + 1 + body.length = stop ∧
      o.opened? = some kind ∧ c.closed? = some kind ∧ WellNested body

theorem exists_opened? {i : Instr} (h : i.opens = true) : ∃ kind, i.opened? = some kind := by
  cases i with
  | ifOpen | eachOpen | includeOpen | partialOpen => exact ⟨_, rfl⟩
  | _ => simp [opens] at h

theorem closes_of_closed? {i : Instr} {kind : BlockKind} (h : i.closed? = some kind) :
    i.closes = true := by
  cases i with
  | ifClose | eachClose | includeClose | partialClose => rfl
  | _ => simp [closed?] at h

theorem closesAt_of_stop? {instrs : List Instr} (h : WellNested instrs) {start stop : Nat}
    (hstop : (Program.ofInstrs instrs).stop? start = some stop) : ClosesAt instrs start stop := by
  obtain ⟨o, ho, hopens, rfl⟩ := Program.stop?_eq_some_iff.mp hstop
  obtain ⟨hlt, rfl⟩ := List.getElem?_eq_some_iff.mp ho
  have hsplit : instrs = instrs.take start ++ instrs[start] :: instrs.drop (start + 1) := by simp
  obtain ⟨kind, hkind⟩ := exists_opened? hopens
  obtain ⟨blocks, -, hscan⟩ := scan_of_append (hsplit ▸ h : scan [] _ = some [])
  rw [scan, nest_of_opened? hkind, Option.bind_some] at hscan
  obtain ⟨body, rest, hrest, hends⟩ := Blocks.exists_of_scan hscan (Nat.zero_le _)
  rcases hends with ⟨-, hnil⟩ | ⟨c, after, top, outer, rfl, hc, htop, -⟩
  · simp at hnil
  · obtain ⟨rfl, -⟩ := List.cons.inj htop
    refine ⟨instrs.take start, instrs[start], body.instrs, c, after, kind, ?_, ?_, ?_, hkind, hc,
      body.scan_instrs []⟩
    · rw [← hrest]
      exact hsplit
    · exact List.length_take_of_le (Nat.le_of_lt hlt)
    · rw [hrest, Blocks.bodyLength_body body (closes_of_closed? hc)]

end Instr

end HtmlTemplate
