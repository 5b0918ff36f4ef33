import HtmlTemplate.Instr.Basic

/-!
The state of emission: the instructions so far, text that is not yet an instruction, and where the
opening instructions of the element at hand go, which is in front of its tag. An opening
instruction is put at the cursor, so directives open around what the tag has already written.
-/

namespace HtmlTemplate

structure Emission where
  instrs : List Instr
  /-- Text that the next instruction comes after. -/
  pending : Text
  /-- Position of the next opening instruction, while the opening tag of an element is written. -/
  cursor : Option Nat
  /-- Number of includes around the current place that can take partials. -/
  depth : Nat
  /-- For each open partial directive, innermost first, the depth to go back to if it registers
  its content. -/
  partials : List (Option Nat)
  /-- Number of loops around the current place. -/
  loops : Nat
deriving DecidableEq

namespace Emission

def start : Emission := ⟨[], [], none, 0, [], 0⟩

def write (s : Emission) (t : Text) : Emission := { s with pending := s.pending ++ t }

/-- Makes the pending text an instruction. -/
def flush (s : Emission) : Emission :=
  if s.pending.isEmpty then s
  else { s with instrs := s.instrs ++ [.text s.pending], pending := [] }

def push (s : Emission) (i : Instr) : Emission :=
  let s := s.flush
  { s with instrs := s.instrs ++ [i] }

def writeVariable (s : Emission) (v : Variable) : Emission := s.push (.append [.value v])

/-- Starts the opening tag of an element. -/
def mark (s : Emission) : Emission :=
  let s := s.flush
  { s with cursor := some s.instrs.length }

/-- Ends the opening tag of an element. -/
def unmark (s : Emission) : Emission := { s with cursor := none }

/-- Adds an opening instruction at the cursor, or at the end if there is none. -/
def insert (s : Emission) (i : Instr) : Emission :=
  let s := s.flush
  match s.cursor with
  | some k => { s with instrs := s.instrs.take k ++ i :: s.instrs.drop k, cursor := some (k + 1) }
  | none => { s with instrs := s.instrs ++ [i] }

def enterLoop (s : Emission) : Emission × Nat := ({ s with loops := s.loops + 1 }, s.loops)

/-- Leaves a loop and gives its frame number, which is 0 if there is no loop to leave. -/
def leaveLoop (s : Emission) : Emission × Nat := ({ s with loops := s.loops - 1 }, s.loops - 1)

/-- The instructions with the pending text made one. -/
def finish (s : Emission) : List Instr := s.flush.instrs

end Emission

end HtmlTemplate
