import HtmlTemplate.Proofs.Instr.Extent
import HtmlTemplate.Proofs.Render.Run

/-!
The normal form renders like the list itself. Both are compared with the list whose appends are
divided into appends of one atom (`run_expand`): an append becomes appends that write the same text
or fail at the same piece (`run_atoms`), and a block becomes a block whose body runs the same
(`run_expand_block`).
-/

namespace HtmlTemplate

namespace RenderM

variable {σ α β : Type}

@[simp] theorem ofExcept_ok (a : α) : (ofExcept (.ok a) : RenderM σ α) = pure a := rfl

theorem ofExcept_bind (r : Except RenderError α) (f : α → Except RenderError β) :
    (ofExcept (r >>= f) : RenderM σ β) = ofExcept r >>= fun a => ofExcept (f a) := by
  cases r with
  | ok a => rfl
  | error e => rfl

end RenderM

namespace Part

@[simp] theorem ofExcept_writeAll_nil {σ : Type} (scope : Scope) (library : Library) :
    (RenderM.ofExcept (writeAll scope library []) : RenderM σ Text) = pure [] := rfl

theorem ofExcept_writeAll_cons {σ : Type} (scope : Scope) (library : Library) (part : Part)
    (parts : List Part) :
    (RenderM.ofExcept (writeAll scope library (part :: parts)) : RenderM σ Text) = (do
      let t ← .ofExcept (part.write scope library)
      let ts ← .ofExcept (writeAll scope library parts)
      pure (t ++ ts)) := by
  simp only [writeAll, RenderM.ofExcept_bind, RenderM.ofExcept_ok]

end Part

namespace Program

variable {ρ σ : Type} (rts : Runtimes ρ σ) (rt : ρ) (inputs : Partials ρ σ)

/-- An append of one piece. -/
theorem run_cons_piece (p : Piece) (count : Nat) (is : List Instr) (m : Machine ρ σ) :
    run rts rt inputs (count + 1) (Instr.toOps (.append [p] :: is)) m = (do
      let t ← .ofExcept ((Part.ofPiece p).write m.scope (rts.library rt))
      run rts rt inputs count (Instr.toOps is) (m.write t)) := by
  rw [run_cons_of_not_opens rts rt inputs rfl]
  simp [step, Part.ofExcept_writeAll_cons]

/-- The atoms of a piece write what the piece writes. -/
theorem run_piece_atoms (p : Piece) (count : Nat) (is : List Instr) (m : Machine ρ σ) :
    run rts rt inputs (p.atoms.length + count)
        (Instr.toOps (p.atoms.map Atom.instr ++ is)) m = (do
      let t ← .ofExcept ((Part.ofPiece p).write m.scope (rts.library rt))
      run rts rt inputs count (Instr.toOps is) (m.write t)) := by
  cases p with
  | value v =>
    rw [Nat.add_comm]
    exact run_cons_piece rts rt inputs (.value v) count is m
  | text t =>
    induction t generalizing m with
    | nil => simp [Piece.atoms, Part.ofPiece, Part.write]
    | cons c t ih =>
      have hcount : (Piece.text (c :: t)).atoms.length + count =
          (Piece.text t).atoms.length + count + 1 := by
        simp only [Piece.atoms, List.length_map, List.length_cons]
        omega
      rw [hcount]
      refine (run_cons_piece rts rt inputs (.text [c]) _ _ m).trans ?_
      refine (bind_congr fun u => ih (m.write u)).trans ?_
      simp [Part.ofPiece, Part.write]

/-- The atoms of an append write what the append writes. -/
theorem run_atoms (pieces : List Piece) (count : Nat) (is : List Instr) (m : Machine ρ σ) :
    run rts rt inputs ((Instr.append pieces).atoms.length + count)
        (Instr.toOps ((Instr.append pieces).atoms.map Atom.instr ++ is)) m = (do
      let m ← step rts rt inputs m (.append pieces)
      run rts rt inputs count (Instr.toOps is) m) := by
  induction pieces generalizing m with
  | nil => simp [Instr.atoms, step, Part.writeAll]
  | cons p pieces ih =>
    have hatoms : (Instr.append (p :: pieces)).atoms = p.atoms ++ (Instr.append pieces).atoms := by
      simp [Instr.atoms]
    rw [hatoms, List.length_append, List.map_append, List.append_assoc, Nat.add_assoc,
      run_piece_atoms]
    simp [step, ih, Part.ofExcept_writeAll_cons]

/-- A block runs the same if shorter lists do: its body and what follows it are such lists. -/
theorem run_expand_block {i : Instr} (h : i.opens = true) (is : List Instr) (count : Nat)
    (m : Machine ρ σ)
    (ih : ∀ js : List Instr, js.length ≤ is.length → ∀ (rt : ρ) (count : Nat) (m : Machine ρ σ),
      run rts rt inputs (Instr.expand (js.take count)).length (Instr.toOps (Instr.expand js)) m =
        run rts rt inputs count (Instr.toOps js) m) :
    run rts rt inputs ((Instr.expand (is.take count)).length + 1)
        (Instr.toOps (i :: Instr.expand is)) m =
      run rts rt inputs (count + 1) (Instr.toOps (i :: is)) m := by
  obtain ⟨body, rest, rfl, hbody, hrest⟩ := Instr.exists_body 0 is
  have hbody' : Instr.bodyLength 0 (Instr.expand (body ++ rest)) = (Instr.expand body).length := by
    rw [Instr.bodyLength_expand, hbody, List.take_left]
  have hruns (rt : ρ) (m : Machine ρ σ) :
      run rts rt inputs (Instr.expand body).length (Instr.toOps (Instr.expand (body ++ rest))) m =
        run rts rt inputs body.length (Instr.toOps (body ++ rest)) m := by
    have hall := ih (body ++ rest) (Nat.le_refl _) rt body.length m
    rwa [List.take_left] at hall
  rcases hrest with rfl | ⟨j, js, rfl, hj⟩
  · rw [List.append_nil] at hbody hbody' hruns ⊢
    rw [run_unclosed rts rt inputs h hbody, run_unclosed rts rt inputs h hbody']
    simp only [hruns]
  · have hjs : j.isAppend = false := by cases j <;> simp_all [Instr.isAppend, Instr.closes]
    have hexpand : Instr.expand (body ++ j :: js) = Instr.expand body ++ j :: Instr.expand js := by
      rw [Instr.expand_append, Instr.expand_cons_of_not_isAppend hjs]
    rw [hexpand] at hbody' hruns ⊢
    rw [run_closed rts rt inputs h hbody, run_closed rts rt inputs h hbody',
      Instr.length_expand_take_sub hjs]
    simp only [hruns]
    refine bind_congr fun m => ih js ?_ rt _ m
    rw [List.length_append, List.length_cons]
    omega

/-- Dividing appends does not change a run. -/
theorem run_expand (instrs : List Instr) (count : Nat) (m : Machine ρ σ) :
    run rts rt inputs (Instr.expand (instrs.take count)).length
        (Instr.toOps (Instr.expand instrs)) m =
      run rts rt inputs count (Instr.toOps instrs) m := by
  induction hn : instrs.length using Nat.strongRecOn generalizing instrs count rt m with
  | ind n ih =>
    cases instrs with
    | nil => simp [Instr.toOps]
    | cons i is =>
      cases count with
      | zero => simp
      | succ count =>
        rw [List.length_cons] at hn
        have hbehind (m : Machine ρ σ) := ih is.length (by omega) rt is count m rfl
        by_cases happend : i.isAppend = true
        · cases i with
          | append pieces =>
            rw [List.take_succ_cons, Instr.expand_cons, Instr.expand_cons, List.length_append,
              List.length_map, run_atoms, run_cons_of_not_opens rts rt inputs rfl]
            exact bind_congr hbehind
          | _ => simp [Instr.isAppend] at happend
        · rw [Bool.not_eq_true] at happend
          rw [List.take_succ_cons, Instr.expand_cons_of_not_isAppend happend,
            Instr.expand_cons_of_not_isAppend happend, List.length_cons]
          by_cases hopens : i.opens = true
          · apply run_expand_block rts rt inputs hopens
            intro js hjs rt count m
            exact ih js.length (by omega) rt js count m rfl
          · rw [Bool.not_eq_true] at hopens
            rw [run_cons_of_not_opens rts rt inputs hopens,
              run_cons_of_not_opens rts rt inputs hopens]
            exact bind_congr hbehind

end Program

namespace Template

variable {ρ σ : Type} (rts : Runtimes ρ σ) (rt : ρ)

theorem render_expand (instrs : List Instr) (data : Value) (partials : Partials ρ σ) :
    (ofInstrs (Instr.expand instrs)).render rts rt data partials =
      (ofInstrs instrs).render rts rt data partials := by
  have hrun (m : Machine ρ σ) := Program.run_expand rts rt partials instrs instrs.length m
  rw [List.take_length] at hrun
  simp only [render, ofInstrs, Program.ofInstrs, Instr.blockDepth_expand, Instr.length_toOps, hrun]

/-- Normal form keeps what a template renders to: the output or the error, and what rendering does
to its surroundings. -/
theorem render_optimize (instrs : List Instr) (data : Value) (partials : Partials ρ σ) :
    (ofInstrs (Instr.optimize instrs)).render rts rt data partials =
      (ofInstrs instrs).render rts rt data partials := by
  rw [← render_expand, Instr.expand_optimize, render_expand]

end Template

end HtmlTemplate
