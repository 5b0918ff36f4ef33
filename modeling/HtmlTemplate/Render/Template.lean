import HtmlTemplate.Compile
import HtmlTemplate.Render.Machine

/-! Compiled templates, which can be rendered any number of times or printed as JavaScript. -/

namespace HtmlTemplate

structure Template where
  instrs : List Instr
  program : Program

namespace Template

def ofInstrs (instrs : List Instr) : Template := ⟨instrs, .ofInstrs instrs⟩

def compile (source : Text) (options : Options) : Template :=
  ofInstrs (Compile.instrs source options)

def javaScript (t : Template) : Text := JavaScript.ofInstrs t.instrs

/-- The output of a template for the given data and partials. Blocks that nest too deep are
refused before anything is run. -/
def render {ρ σ : Type} (t : Template) (rts : Runtimes ρ σ) (rt : ρ) (data : Value)
    (partials : Partials ρ σ) : RenderM σ Text :=
  if t.program.depth > maxBlockDepth then throw .blockDepth
  else do
    let ops := t.program.ops
    let m ← Program.run rts rt partials ops.length ops (.start (.ofRoot data))
    pure m.out

end Template

end HtmlTemplate
