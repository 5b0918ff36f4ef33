import HtmlTemplate.Proofs.Emission.Plain
import HtmlTemplate.Proofs.Render.Run

/-!
Markup alone is reproduced. A template without interpolations and directives renders to its text
without the comments that are dropped, whatever it is rendered in and with, and however its tags
match (`render_of_plain`).
-/

namespace HtmlTemplate

namespace Program

variable {ρ σ : Type} (rts : Runtimes ρ σ) (rt : ρ) (inputs : Partials ρ σ)

theorem step_text (m : Machine ρ σ) (t : Text) :
    step rts rt inputs m (.text t) = pure (m.write t) := by
  have hwrite : Part.writeAll m.scope (rts.library rt) [.text t] = .ok (t ++ []) := rfl
  simp only [step, Instr.text, List.map_cons, List.map_nil, Part.ofPiece, hwrite, List.append_nil]
  rfl

end Program

namespace Template

/-- Instructions that write one text, or none that write nothing, render to it. -/
theorem render_text {ρ σ : Type} (t : Text) (rts : Runtimes ρ σ) (rt : ρ) (data : Value)
    (partials : Partials ρ σ) :
    (ofInstrs (if t.isEmpty then [] else [.text t])).render rts rt data partials = pure t := by
  by_cases ht : t.isEmpty = true
  · rw [if_pos ht, List.isEmpty_iff.mp ht]
    rw [render, if_neg (by decide)]
    exact congrArg (· >>= fun m => pure m.out) (Program.run_nil rts rt partials 0 _)
  · have hdepth : (ofInstrs [.text t]).program.depth = 0 := rfl
    rw [if_neg ht, render, hdepth, if_neg (Nat.not_lt_zero maxBlockDepth)]
    have hrun : Program.run rts rt partials 1 (Instr.toOps [.text t]) (.start (.ofRoot data)) =
        pure ((Machine.start (.ofRoot data)).write t) := by
      rw [Program.run_cons_of_not_opens rts rt partials rfl, Program.step_text, pure_bind,
        Program.run_zero]
    exact congrArg (· >>= fun m => pure m.out) hrun

/-- Without interpolations and directives a template is its tokens, and all that compilation does
to it is to drop the comments that are not conditional. -/
theorem render_of_plain {source : Text} {options : Options} (hcompress : options.compress = false)
    (hsource : source.IsLiteral)
    (hdirective : ∀ t ∈ Compile.tokens source options, t.token.IsPlain) :
    let tokens := Compile.tokens source options
    let out := Token.keptText (tokens.map (·.token))
    tokens.flatMap (·.token.text) = source ∧
      (∀ t ∈ tokens, t.token.IsSpanOf source) ∧
      Compile.instrs source options = (if out.isEmpty then [] else [.text out]) ∧
      (∀ {ρ σ : Type} (rts : Runtimes ρ σ) (rt : ρ) (data : Value) (partials : Partials ρ σ),
        (compile source options).render rts rt data partials = pure out) ∧
      ((∀ t ∈ tokens, t.token.isDropped = false) → out = source) := by
  intro tokens out
  have htokens : tokens = Token.associate (Token.lex source) := by
    simp [tokens, Compile.tokens, hcompress]
  have htexts : tokens.flatMap (·.token.text) = source := by
    rw [htokens, Token.flatMap_text_associate_lex]
  have hplain : Token.Plain tokens := by
    rw [htokens]
    exact Token.plain_associate_lex hsource (htokens ▸ hdirective)
  have hinstrs := Compile.instrs_of_plain hplain
  refine ⟨htexts, ?_, hinstrs, fun rts rt data partials => ?_, fun hkept => ?_⟩
  · rw [htokens]
    exact Token.isSpanOf_associate_lex source
  · rw [compile, hinstrs]
    exact render_text out rts rt data partials
  · rw [← htexts]
    exact (Token.keptText_of_all_kept (List.forall_mem_map.mpr hkept)).trans
      (List.flatMap_map _ _ _)

/-- Tags that cross, a closing tag without an opening one, a comment in raw text and a tag that the
end cuts off all stay; the comment between them goes. -/
theorem render_of_plain_crossing :
    let source : Text := "<p><b></p></b><!-- c --><!--[x]--><script><!----></script></i><q x='"
    source.IsLiteral ∧ (∀ t ∈ Compile.tokens source .default, t.token.IsPlain) ∧
      ∀ (library : Library) (data : Value) (partials : Partials Library Unit),
        (compile source .default).render Runtimes.libraries library data partials =
          pure "<p><b></p></b><!--[x]--><script><!----></script></i><q x='".toList := by
  intro source
  have hliteral : source.IsLiteral := by decide +kernel
  have hplain : ∀ t ∈ Compile.tokens source .default, t.token.IsPlain := by decide +kernel
  have hout : Token.keptText ((Compile.tokens source .default).map (·.token)) =
      "<p><b></p></b><!--[x]--><script><!----></script></i><q x='".toList := by decide +kernel
  obtain ⟨-, -, -, hrender, -⟩ := render_of_plain rfl hliteral hplain
  refine ⟨hliteral, hplain, fun library data partials => ?_⟩
  rw [hrender, hout]

end Template

end HtmlTemplate
