import HtmlTemplate.Instr.Basic

/-!
The normal form of an instruction list: neighbouring appends are one, neighbouring texts in an
append are one, and nothing is empty. Between two other instructions the same characters and
variables are written in the same order.
-/

namespace HtmlTemplate

namespace Piece

/-- Puts a piece in front of pieces, joining texts and dropping an empty one. -/
def joinFront : Piece → List Piece → List Piece
  | text t, pieces =>
    if t.isEmpty then pieces
    else match pieces with
      | text u :: rest => text (t ++ u) :: rest
      | _ => text t :: pieces
  | piece, pieces => piece :: pieces

/-- The pieces with texts joined and empty ones dropped. -/
def joinAll (pieces : List Piece) : List Piece := pieces.foldr joinFront []

end Piece

namespace Instr

/-- Puts an instruction in front of instructions in normal form. -/
def mergeFront : Instr → List Instr → List Instr
  | append pieces, append more :: rest => append (pieces.foldr Piece.joinFront more) :: rest
  | append pieces, rest =>
    match Piece.joinAll pieces with
    | [] => rest
    | joined => append joined :: rest
  | instr, rest => instr :: rest

/-- The normal form of an instruction list. -/
def optimize (instrs : List Instr) : List Instr := instrs.foldr mergeFront []

end Instr

end HtmlTemplate
