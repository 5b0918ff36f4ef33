import HtmlTemplate.Proofs.Instr.Blocks

/-!
Where partials are registered. A place takes partials if it lies in an include with no other partial
between the two (`BlockKind.collects`), and a list registers its partials if they all open at such
places (`Instr.Registers`). For lists with a tree this can be read off the tree
(`registers_instrs_append`).
-/

namespace HtmlTemplate

namespace BlockKind

/-- Among the open blocks, innermost first, an include comes before the first partial. -/
def collects : List BlockKind → Bool
  | [] => false
  | .inclusion :: _ => true
  | .registration :: _ => false
  | .condition :: blocks | .loop _ :: blocks => collects blocks

theorem exists_of_collects {blocks : List BlockKind} (h : collects blocks = true) :
    ∃ inner outer, blocks = inner ++ .inclusion :: outer ∧ .registration ∉ inner := by
  induction blocks with
  | nil => simp [collects] at h
  | cons block blocks ih =>
    cases block with
    | inclusion => exact ⟨[], blocks, rfl, List.not_mem_nil⟩
    | registration => simp [collects] at h
    | condition | loop =>
      obtain ⟨inner, outer, rfl, hinner⟩ := ih h
      exact ⟨_ :: inner, outer, rfl, by simp [hinner]⟩

end BlockKind

namespace Instr

def nested (blocks : List BlockKind) (i : Instr) : List BlockKind :=
  match i.opened?, i.closed? with
  | some block, _ => block :: blocks
  | none, some _ => blocks.tail
  | none, none => blocks

/-- Every partial opens at a place that takes partials, where `blocks` are open in front. -/
def Registers (blocks : List BlockKind) : List Instr → Prop
  | [] => True
  | i :: is =>
    (i.opened? = some .registration → BlockKind.collects blocks = true) ∧
      Registers (nested blocks i) is

theorem nested_of_nest {blocks inner : List BlockKind} {i : Instr}
    (h : nest blocks i = some inner) :
    nested blocks i = inner := by
  rcases nest_cases h with ⟨block, hi, rfl⟩ | ⟨block, hi, rfl⟩ | ⟨hopened, hclosed, rfl⟩
  · simp [nested, hi]
  · simp [nested, opened?_eq_none hi, hi]
  · simp [nested, hopened, hclosed]

theorem registers_of_scan {blocks inner : List BlockKind} {before after : List Instr}
    (h : scan blocks before = some inner) (hr : Registers blocks (before ++ after)) :
    Registers inner after := by
  induction before generalizing blocks with
  | nil =>
    obtain rfl := Option.some.inj h
    exact hr
  | cons i is ih =>
    obtain ⟨next, hnext, hrest⟩ := Option.bind_eq_some_iff.mp h
    obtain ⟨-, htail⟩ := hr
    exact ih hrest (nested_of_nest hnext ▸ htail)

theorem registers_controls (blocks : List BlockKind) (instrs : List Instr) :
    Registers blocks (controls instrs) ↔ Registers blocks instrs := by
  induction instrs generalizing blocks with
  | nil => exact Iff.rfl
  | cons i is ih =>
    cases i with
    | append pieces =>
      refine (ih blocks).trans ⟨fun h => ⟨?_, h⟩, fun h => h.2⟩
      simp [opened?]
    | _ => exact and_congr_right fun _ => ih _

theorem registers_optimize (blocks : List BlockKind) (instrs : List Instr) :
    Registers blocks (optimize instrs) ↔ Registers blocks instrs := by
  rw [← registers_controls, controls_optimize, registers_controls]

/-! ## Parts of lists -/

/-- In front of what registers its partials, the instructions do, too, and leave the same blocks
open. -/
def Registering (blocks : List BlockKind) (instrs : List Instr) : Prop :=
  ∀ rest, Registers blocks rest → Registers blocks (instrs ++ rest)

theorem Registering.append {blocks : List BlockKind} {xs ys : List Instr}
    (hx : Registering blocks xs) (hy : Registering blocks ys) : Registering blocks (xs ++ ys) := by
  intro rest h
  rw [List.append_assoc]
  exact hx _ (hy _ h)

theorem registering_of_plain {blocks : List BlockKind} {instrs : List Instr}
    (h : ∀ i ∈ instrs, i.opened? = none ∧ i.closed? = none) : Registering blocks instrs := by
  induction instrs with
  | nil => exact fun _ hrest => hrest
  | cons i is ih =>
    obtain ⟨hopened, hclosed⟩ := h i List.mem_cons_self
    intro rest hrest
    refine ⟨by simp [hopened], ?_⟩
    rw [nested, hopened, hclosed]
    exact ih (fun j hj => h j (List.mem_cons_of_mem i hj)) rest hrest

/-- Instructions that register their partials, between one that opens a block and one that closes
it. -/
theorem Registering.block {blocks : List BlockKind} {i j : Instr} (block : BlockKind)
    {body : List Instr} (hopened : i.opened? = some block) (hclosed : j.closed? = some block)
    (hregistration : block = .registration → BlockKind.collects blocks = true)
    (h : Registering (block :: blocks) body) : Registering blocks (i :: body ++ [j]) := by
  intro rest hrest
  have hafter : Registers (block :: blocks) (j :: rest) := by
    refine ⟨by simp [opened?_eq_none hclosed], ?_⟩
    rw [nested, opened?_eq_none hclosed, hclosed]
    exact hrest
  rw [List.append_assoc]
  refine ⟨fun hi => hregistration (Option.some.inj (hopened.symm.trans hi)), ?_⟩
  rw [nested, hopened]
  exact h _ hafter

end Instr

namespace Blocks

/-- Every partial of a tree opens at a place that takes partials, if the tree stands at such a place
(`true`) or at another one. -/
def Registers : Bool → Blocks → Prop
  | _, nil => True
  | collects, append _ rest | collects, includeInvoke _ rest | collects, partialInvoke _ rest =>
    rest.Registers collects
  | collects, condition _ body rest | collects, loop _ _ body rest =>
    body.Registers collects ∧ rest.Registers collects
  | collects, inclusion body _ rest => body.Registers true ∧ rest.Registers collects
  | collects, registration _ body rest =>
    collects = true ∧ body.Registers false ∧ rest.Registers collects

theorem registers_instrs_append {b : Blocks} {blocks : List BlockKind} {tail : List Instr}
    (h : Instr.Registers blocks (b.instrs ++ tail)) :
    b.Registers (BlockKind.collects blocks) ∧ Instr.Registers blocks tail := by
  induction b generalizing blocks tail with
  | nil => exact ⟨trivial, h⟩
  | append x rest ih | includeInvoke x rest ih | partialInvoke x rest ih => exact ih h.2
  | condition expr body rest ihb ihr | loop expr frame body rest ihb ihr
  | inclusion body target rest ihb ihr =>
    simp only [instrs, List.cons_append, List.append_assoc] at h
    obtain ⟨hbody, hclose⟩ := ihb h.2
    obtain ⟨hrest, htail⟩ := ihr hclose.2
    exact ⟨⟨hbody, hrest⟩, htail⟩
  | registration name body rest ihb ihr =>
    simp only [instrs, List.cons_append, List.append_assoc] at h
    obtain ⟨hbody, hclose⟩ := ihb h.2
    obtain ⟨hrest, htail⟩ := ihr hclose.2
    exact ⟨⟨h.1 rfl, hbody, hrest⟩, htail⟩

end Blocks

end HtmlTemplate
