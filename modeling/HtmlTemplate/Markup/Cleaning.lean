import HtmlTemplate.Markup.Lexer

/-!
Compression of template source: comments go, but for conditional ones; a run of blanks becomes one
space, and none between the end of one tag and the start of the next.
-/

namespace HtmlTemplate.Markup

/-- The source without its comments, the conditional ones excepted. -/
def removeComments (source : Text) : Text :=
  match _h : Text.breakOn "<!--" source with
  | none => source
  | some (before, body) =>
    let cut := Token.cutAfterComment body
    before ++ (if body.head? = some '[' then "<!--" ++ cut.1 else []) ++ removeComments cut.2
termination_by source.length
decreasing_by
  have hcut := Token.length_cutAfterComment_le body
  have hsource := congrArg List.length (Text.eq_of_breakOn_eq_some _h)
  simp only [List.length_append] at hsource
  have : 0 < List.length ("<!--".toList) := by decide
  omega

/-- Collapses blanks in the text after the character `last`; `blank` tells whether a run of blanks
has begun. -/
def collapseAfter (last : Option Char) (blank : Bool) : Text → Text
  | [] => if blank then [' '] else []
  | c :: cs =>
    if Text.isBlank c then collapseAfter last true cs
    else if blank && !(last == some '>' && c == '<') then
      ' ' :: c :: collapseAfter (some c) false cs
    else c :: collapseAfter (some c) false cs

def clean (source : Text) : Text := collapseAfter none false (removeComments source)

end HtmlTemplate.Markup
