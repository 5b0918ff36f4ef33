import HtmlTemplate.Main
import HtmlTemplate.Proofs.Instr.Content
import HtmlTemplate.Proofs.Instr.Nesting
import HtmlTemplate.Proofs.Instr.Extent
import HtmlTemplate.Proofs.Instr.Blocks
import HtmlTemplate.Proofs.Emission.Descent
import HtmlTemplate.Proofs.Emission.Content
import HtmlTemplate.Proofs.Emission.Simulation
import HtmlTemplate.Proofs.Emission.Nesting
import HtmlTemplate.Proofs.Render.Run
import HtmlTemplate.Proofs.Render.Normal
import HtmlTemplate.Proofs.Render.Blocks
import HtmlTemplate.Proofs.Render.Lifting
import HtmlTemplate.Proofs.Render.Parametric
import HtmlTemplate.Proofs.Engine.Reference
import HtmlTemplate.Proofs.Engine.Answers
import HtmlTemplate.Proofs.Engine.Depth
import HtmlTemplate.Proofs.Library.Escaping
import HtmlTemplate.Proofs.Emission.Condition
import HtmlTemplate.Proofs.Render.Condition
import HtmlTemplate.Proofs.Render.Success
import HtmlTemplate.Proofs.Markup.Tokens
import HtmlTemplate.Proofs.Emission.Plain
import HtmlTemplate.Proofs.Render.Plain
import HtmlTemplate.Proofs.Markup.Cleaning
import HtmlTemplate.Proofs.Markup.Attributes
import HtmlTemplate.Proofs.Render.Compression
import HtmlTemplate.Proofs.Expr.Reading
import HtmlTemplate.Proofs.Expr.Shape
import HtmlTemplate.Proofs.Expr.Script
import HtmlTemplate.Proofs.Expr.Grouping
import HtmlTemplate.Proofs.Text.Bytes
import HtmlTemplate.Proofs.Markup.Classes
import HtmlTemplate.Proofs.Markup.Scanning
import HtmlTemplate.Proofs.Markup.Brackets
import HtmlTemplate.Proofs.Markup.Opacity
import HtmlTemplate.Proofs.Render.Frame
import HtmlTemplate.Proofs.Instr.Ranges
import HtmlTemplate.Proofs.Render.Positions
import HtmlTemplate.Proofs.Emission.Induction
import HtmlTemplate.Proofs.Instr.Registration
import HtmlTemplate.Proofs.Emission.Registration
import HtmlTemplate.Proofs.Render.Registration
import HtmlTemplate.Proofs.Expr.Tokens
import HtmlTemplate.Proofs.Expr.Grammar
import HtmlTemplate.Proofs.Expr.Cursor
import HtmlTemplate.Proofs.Instr.NormalForm
import HtmlTemplate.Proofs.Emission.Steps
import HtmlTemplate.Proofs.Emission.Reordering
import HtmlTemplate.Proofs.Markup.Chunks
import HtmlTemplate.Proofs.Markup.OpeningTags
import HtmlTemplate.Proofs.Emission.KeptTags
import HtmlTemplate.Proofs.Markup.Depths
import HtmlTemplate.Proofs.Emission.Literals
import HtmlTemplate.Proofs.Markup.AttributeLists
import HtmlTemplate.Proofs.Text.Trimming
import HtmlTemplate.Proofs.Markup.Respacing
import HtmlTemplate.Proofs.Markup.RespacedTags
import HtmlTemplate.Proofs.Markup.RespacedTokens
import HtmlTemplate.Proofs.Engine.Includes
import HtmlTemplate.Proofs.Engine.Limit
import HtmlTemplate.Proofs.Render.Slot
import HtmlTemplate.Proofs.Engine.Layout
import HtmlTemplate.Proofs.Library.Sorting
import HtmlTemplate.Proofs.Text.Units
import HtmlTemplate.Proofs.Library.StableSorting
import HtmlTemplate.Proofs.Expr.Members
import HtmlTemplate.Proofs.Library.Entities
import HtmlTemplate.Proofs.Library.PercentEncoding
import HtmlTemplate.Proofs.Instr.StringLiterals
import HtmlTemplate.Proofs.Markup.Cuts
