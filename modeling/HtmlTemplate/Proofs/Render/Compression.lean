import HtmlTemplate.Proofs.Markup.Attributes
import HtmlTemplate.Proofs.Markup.Cleaning
import HtmlTemplate.Proofs.Render.Plain

/-!
Compression of markup alone. Cleaning takes comments out of the text, before there are tokens, so a
comment is also what looks like one in an attribute or a script, and what stood on both sides of it
may come together to markup that was none (`not_rendersAlike`). Where neither happens, compression
changes nothing in the output but blanks (`rendersAlike_of_isBare`).
-/

namespace HtmlTemplate

namespace Text

/-- No interpolation begins in the text, and no key of a directive stands in it. -/
def IsBare (t : Text) : Prop := t.IsLiteral ∧ ¬"data-".toList <:+: lowerAscii t

instance (t : Text) : Decidable t.IsBare := inferInstanceAs (Decidable (_ ∧ _))

end Text

namespace Template

/-- Bare text is rendered to what is kept of it, whatever it is rendered in and with. -/
theorem render_of_isBare {ρ σ : Type} {source : Text} (options : Options)
    (h : (if options.compress then Markup.clean source else source).IsBare)
    (rts : Runtimes ρ σ) (rt : ρ) (data : Value) (partials : Partials ρ σ) :
    (compile source options).render rts rt data partials =
      pure (Token.keptText ((Compile.tokens source options).map (·.token))) := by
  have hplain : Token.Plain (Compile.tokens source options) :=
    Token.plain_associate_lex h.1 (Token.isPlain_of_mem_associate_lex h.2)
  rw [compile, Compile.instrs_of_plain hplain]
  exact render_text _ rts rt data partials

/-- Compressed or not, the template renders, and to the same text but for blanks. -/
def RendersAlike (source : Text) (options : Options) : Prop :=
  ∀ {ρ σ : Type} (rts : Runtimes ρ σ) (rt : ρ) (data : Value) (partials : Partials ρ σ),
    ∃ on off : Text,
      (compile source { options with compress := true }).render rts rt data partials = pure on ∧
      (compile source { options with compress := false }).render rts rt data partials = pure off ∧
      on.inked = off.inked

/-- Compression changes blanks only in a template that is bare and stays so, in which the comments
that cleaning finds agree with the comment tokens, and which has none but conditional comments when
it is cleaned. -/
theorem rendersAlike_of_isBare {source : Text} (options : Options) (hsource : source.IsBare)
    (hclean : (Markup.clean source).IsBare)
    (hcomments : Token.commentsAgree false
      ((Compile.tokens source { options with compress := false }).map (·.token)) = true)
    (hcleaned : ∀ t ∈ Compile.tokens source { options with compress := true },
      t.token.isDropped = false) : RendersAlike source options := by
  intro ρ σ rts rt data partials
  have hon : Token.keptText ((Compile.tokens source { options with compress := true }).map
      (·.token)) = Markup.clean source := by
    rw [Token.keptText_of_all_kept (List.forall_mem_map.mpr hcleaned), List.flatMap_map]
    exact Token.flatMap_text_associate_lex (Markup.clean source)
  have hoff : Token.keptText ((Compile.tokens source { options with compress := false }).map
      (·.token)) = Markup.removeComments source := Token.keptText_associate_lex hcomments
  refine ⟨_, _, render_of_isBare { options with compress := true } hclean rts rt data partials,
    render_of_isBare { options with compress := false } hsource rts rt data partials, ?_⟩
  rw [hon, hoff, Markup.inked_clean]

/-- A comment between tags, one in a text, a conditional one in an attribute and one behind it, and
tags that do not match. -/
theorem rendersAlike_of_isBare_comments :
    let source : Text := "<p>\n <!-- a -->\n<b t='<!--[z]-->'>x <!----> y<!--[z]--></p>\n"
    source.IsBare ∧ (Markup.clean source).IsBare ∧ RendersAlike source .default := by
  intro source
  have hsource : source.IsBare := by decide +kernel
  have hclean : (Markup.clean source).IsBare := by decide +kernel
  exact ⟨hsource, hclean,
    rendersAlike_of_isBare .default hsource hclean (by decide +kernel) (by decide +kernel)⟩

/-- A template whose two outputs are known and differ in more than blanks. -/
theorem not_rendersAlike_of_ne {source : Text} {options : Options} (on off : Text)
    (hon : (compile source { options with compress := true }).render
      (.libraries : Runtimes Library Unit) .empty .null .empty = pure on)
    (hoff : (compile source { options with compress := false }).render
      (.libraries : Runtimes Library Unit) .empty .null .empty = pure off)
    (h : on.inked ≠ off.inked) : ¬RendersAlike source options := by
  intro halike
  obtain ⟨on', off', hon', hoff', heq⟩ :=
    halike (.libraries : Runtimes Library Unit) .empty .null .empty
  have hpure {t u : Text} (h : (pure t : RenderM Unit Text) = pure u) : t = u :=
    Except.ok.inj (congrArg (fun x => (x.run ()).1) h)
  rw [hpure (hon.symm.trans hon'), hpure (hoff.symm.trans hoff')] at h
  exact h heq

/-- An interpolation of a missing member writes nothing. -/
theorem render_value_of_null (l : Library) (handlers : List Text) :
    (ofInstrs [.append [.value ⟨"x", handlers⟩]]).render (.libraries : Runtimes Library Unit) l
      .null .empty = pure [] := by
  let m : Machine Library Unit := .start (.ofRoot .null)
  have hdepth : (ofInstrs [.append [.value ⟨"x", handlers⟩]]).program.depth = 0 := rfl
  have hstep : Program.step .libraries l .empty m (.append [.value ⟨"x", handlers⟩]) = pure m := rfl
  have hrun : Program.run .libraries l .empty 1 (Instr.toOps [.append [.value ⟨"x", handlers⟩]]) m =
      pure m := by
    rw [Program.run_cons_of_not_opens .libraries l .empty rfl, hstep, pure_bind, Program.run_zero]
  rw [render, hdepth, if_neg (Nat.not_lt_zero maxBlockDepth)]
  exact congrArg (· >>= fun m => pure m.out) hrun

/-- What stands under a condition that is a missing member is not written. -/
theorem render_condition_of_null (l : Library) (t : Text) :
    (ofInstrs [.ifOpen "x", .text t, .ifClose]).render (.libraries : Runtimes Library Unit) l
      .null .empty = pure [] := by
  let m : Machine Library Unit := .start (.ofRoot .null)
  have hdepth : (ofInstrs [.ifOpen "x", .text t, .ifClose]).program.depth = 1 := rfl
  have hblock (body) : Program.runBlock .libraries l body (some .ifClose) m (.ifOpen "x") =
      pure m := rfl
  have hrun : Program.run .libraries l .empty 3
      (Instr.toOps (.ifOpen "x" :: ([.text t] ++ .ifClose :: []))) m = pure m := by
    rw [Program.run_closed .libraries l .empty rfl rfl, hblock, pure_bind, Instr.toOps,
      Program.run_nil]
  rw [render, hdepth, if_neg (by decide)]
  exact congrArg (· >>= fun m => pure m.out) hrun

/-- An attribute value that looks like a comment, and comments without which the text around them
is a comment, an interpolation and a directive. -/
theorem not_rendersAlike :
    (Text.IsBare "<a t=\"<!---->\">" ∧ ¬RendersAlike "<a t=\"<!---->\">" .default) ∧
      (Text.IsBare "<<!---->!---->" ∧ ¬RendersAlike "<<!---->!---->" .default) ∧
      (Text.IsBare "#<!---->\x7bx\x7d" ∧ ¬RendersAlike "#<!---->\x7bx\x7d" .default) ∧
      Text.IsBare "<<!---->b da<!---->ta-if=x>" ∧
        ¬RendersAlike "<<!---->b da<!---->ta-if=x>" .default := by
  have hwrites {source out : Text} {options : Options}
      (h : Compile.instrs source options = if out.isEmpty then [] else [.text out]) :
      (compile source options).render (.libraries : Runtimes Library Unit) .empty .null .empty =
        pure out := by
    rw [compile, h]
    exact render_text out _ _ _ _
  refine ⟨⟨by decide +kernel, ?_⟩, ⟨by decide +kernel, ?_⟩, ⟨by decide +kernel, ?_⟩,
    by decide +kernel, ?_⟩
  · exact not_rendersAlike_of_ne "<a t=\"\">" "<a t=\"<!---->\">" (hwrites (by decide +kernel))
      (hwrites (by decide +kernel)) (by decide)
  · exact not_rendersAlike_of_ne "" "<!---->" (hwrites (by decide +kernel))
      (hwrites (by decide +kernel)) (by decide)
  · refine not_rendersAlike_of_ne "" "#\x7bx\x7d" ?_ (hwrites (by decide +kernel)) (by decide)
    have hinstrs : Compile.instrs "#<!---->\x7bx\x7d" { Options.default with compress := true } =
        [.append [.value ⟨"x", ["escape"]⟩]] := by decide +kernel
    rw [compile, hinstrs]
    exact render_value_of_null .empty ["escape"]
  · refine not_rendersAlike_of_ne "" "<b data-if=x>" ?_ (hwrites (by decide +kernel)) (by decide)
    have hinstrs : Compile.instrs "<<!---->b da<!---->ta-if=x>"
        { Options.default with compress := true } =
          [.ifOpen "x", .text "<b>", .ifClose] := by decide +kernel
    rw [compile, hinstrs]
    exact render_condition_of_null .empty "<b>"

end Template

end HtmlTemplate
