import HtmlTemplate.Instr.Basic
import HtmlTemplate.Expr.Eval

/-!
Programs: instructions with their expressions read and the extent of each block found. A block
reaches to the instruction that closes it, or to the end of the list if none does. What kind of
instruction closes a block does not matter here, so every list is a program.
-/

namespace HtmlTemplate

inductive Part
  | text (t : Text)
  | value (formula : Formula) (handlers : List Text)

structure Call where
  name : Text
  data : Formula

/-- Operations. An operation that opens a block tells the number of operations in its body; the
operation after the body closes it. -/
inductive Op
  | append (parts : List Part)
  | branch (condition : Formula) (body : Nat)
  | loop (items : Formula) (body : Nat)
  | collect (body : Nat)
  | callCollected (call : Call)
  | callInclude (call : Call)
  | register (name : Text) (body : Nat)
  | callPartial (call : Call)
  | close

namespace Part

def ofPiece : Piece → Part
  | .text t => text t
  | .value v => value (.ofSource v.expr) v.handlers

end Part

namespace Call

def ofTarget (t : Target) : Call := ⟨t.name, .ofSource t.data⟩

end Call

namespace Instr

/-- The number of instructions before the one that closes `level` blocks more than are opened. -/
def bodyLength (level : Nat) : List Instr → Nat
  | [] => 0
  | i :: is =>
    if i.opens then bodyLength (level + 1) is + 1
    else if i.closes then
      match level with
      | 0 => 0
      | level + 1 => bodyLength level is + 1
    else bodyLength level is + 1

/-- The greatest number of blocks open at once, after `level` of them are. A close without an open
block does not count. -/
def blockDepth (level : Nat) : List Instr → Nat
  | [] => level
  | i :: is =>
    max level (blockDepth (if i.opens then level + 1 else if i.closes then level - 1 else level) is)

def toOp (rest : List Instr) : Instr → Op
  | append pieces => .append (pieces.map .ofPiece)
  | ifOpen expr => .branch (.ofSource expr) (bodyLength 0 rest)
  | eachOpen expr _ => .loop (.ofSource expr) (bodyLength 0 rest)
  | includeOpen => .collect (bodyLength 0 rest)
  | includeClose target => .callCollected (.ofTarget target)
  | includeInvoke target => .callInclude (.ofTarget target)
  | partialOpen name => .register name (bodyLength 0 rest)
  | partialInvoke target => .callPartial (.ofTarget target)
  | ifClose | eachClose _ | partialClose => .close

def toOps : List Instr → List Op
  | [] => []
  | i :: is => toOp is i :: toOps is

end Instr

structure Program where
  ops : List Op
  /-- The greatest number of blocks open at once. -/
  depth : Nat

namespace Program

def ofInstrs (instrs : List Instr) : Program := ⟨Instr.toOps instrs, Instr.blockDepth 0 instrs⟩

end Program

end HtmlTemplate
