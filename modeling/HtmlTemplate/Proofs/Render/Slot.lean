import HtmlTemplate.Proofs.Emission.Plain
import HtmlTemplate.Proofs.Markup.Scanning
import HtmlTemplate.Proofs.Render.Condition

/-!
Templates around a slot. Where no tag waits for another one, emission goes token by token
(`atoms_of_standalone`). So a slot between two texts without markup and interpolations writes the
first text, the partial and the second text (`render_slot`).
-/

namespace HtmlTemplate

/-- Neither markup nor an interpolation begins in the text. -/
structure Text.IsInert (t : Text) : Prop where
  markup : '<' ∉ t
  literal : t.IsLiteral

namespace Token

/-! ## Tokens without pairs -/

/-- None of the tags waits for another one. -/
def Standalone (ts : List Token) : Prop := ∀ t ∈ ts, t.isTag = true → t.standalone = true

theorem Standalone.tail {t : Token} {ts : List Token} (h : Standalone (t :: ts)) : Standalone ts :=
  fun u hu => h u (List.mem_cons_of_mem t hu)

theorem neutralize_of_standalone (name : Text) {ts : List Token} (h : Standalone ts) :
    neutralize name false ts = ts := by
  induction ts with
  | nil => rfl
  | cons t ts ih =>
    have hhead : (t.isTag && !t.standalone && t.name == name) = false := by
      have ht := h t List.mem_cons_self
      cases htag : t.isTag with
      | false => rfl
      | true => simp [ht htag]
    rw [neutralize, hhead, ih h.tail]
    rfl

theorem pairsFrom_of_standalone (i : Nat) {ts : List Token} (h : Standalone ts) :
    pairsFrom i [] ts = [] := by
  induction ts generalizing i with
  | nil => rfl
  | cons t ts ih =>
    have htail := ih (i + 1) h.tail
    unfold pairsFrom
    cases hkind : t.kind with
    | tagOpen =>
      have ht : t.standalone = true := h t List.mem_cons_self (by simp [isTag, hkind])
      simpa [ht] using htail
    | _ => exact htail

theorem associate_of_standalone {ts : List Token} (h : Standalone ts) :
    associate ts = ts.map fun t => ⟨t, none⟩ := by
  have hraw : neutralizeRawText ts = ts := by
    simp [neutralizeRawText, rawTextElements, neutralize_of_standalone _ h]
  have hpairs : pairs ts = [] := pairsFrom_of_standalone 0 h
  have hpartner (i : Nat) : partner? [] i = none := rfl
  simp only [associate, hraw, hpairs, hpartner]
  exact List.mapIdx_eq_iff.mpr fun i => by simp

/-- Without partners every token is emitted on its own. -/
theorem rangeInstrs_of_unpaired (options : Options) {tokens : List Paired}
    (h : ∀ t ∈ tokens, t.partner = none) (x : Context) (lo : Nat) :
    rangeInstrs options tokens x lo tokens.length =
      (tokens.drop lo).flatMap fun t => t.token.instrs options x := by
  induction hn : tokens.length - lo generalizing lo with
  | zero =>
    have hle : tokens.length ≤ lo := Nat.le_of_sub_eq_zero hn
    unfold rangeInstrs
    rw [dif_neg (Nat.not_lt.mpr hle), List.drop_eq_nil_of_le hle]
    rfl
  | succ n ih =>
    have hlt : lo < tokens.length := by omega
    have hclosing : tokens[lo].closing? lo tokens.length = none := by
      simp [Paired.closing?, h _ (List.getElem_mem hlt)]
    rw [rangeInstrs_single hlt (List.getElem?_eq_getElem hlt) hclosing, ih (lo + 1) (by omega),
      List.drop_eq_getElem_cons hlt, List.flatMap_cons]

/-! ## Texts without markup -/

theorem cutBeforeMarkup_append {t cs : Text} (ht : '<' ∉ t) (h : cs = [] ∨ (markup? cs).isSome) :
    cutBeforeMarkup (t ++ cs) = (t, cs) := by
  induction t with
  | nil => exact cutBeforeMarkup_of_edge h
  | cons c t ih =>
    have hnone : ¬(markup? (c :: (t ++ cs))).isSome := fun hsome => by
      obtain rfl : c = '<' := Option.some.inj (head?_of_markup? hsome)
      exact ht List.mem_cons_self
    rw [List.cons_append, cutBeforeMarkup, if_neg hnone,
      ih fun hmem => ht (List.mem_cons_of_mem c hmem)]

/-- A text without markup is one token, in front of markup and at the end. -/
theorem lexFrom_append (start : Nat) {t cs : Text} (ht : '<' ∉ t)
    (h : cs = [] ∨ (markup? cs).isSome) :
    lexFrom start (t ++ cs) = textToken start t ++ lexFrom (start + Text.byteSize t) cs := by
  rw [lexFrom_eq_textToken_append, cutBeforeMarkup_append ht h]

theorem lexFrom_of_not_mem (start : Nat) {t : Text} (ht : '<' ∉ t) :
    lexFrom start t = textToken start t := by
  have happend := lexFrom_append start ht (.inl (rfl : ([] : Text) = []))
  simpa [lexFrom] using happend

theorem standalone_textToken (start : Nat) (t : Text) : Standalone (textToken start t) := by
  intro u hu
  unfold textToken at hu
  split at hu
  · cases hu
  · rw [List.mem_singleton.mp hu]
    exact nofun

theorem atoms_textToken (options : Options) (x : Context) (start : Nat) {t : Text}
    (ht : t.IsLiteral) :
    ((textToken start t).flatMap fun u => Instr.allAtoms (u.instrs options x)) =
      t.map .char := by
  unfold textToken
  split
  · next hempty => simp [List.isEmpty_iff.mp hempty]
  · rw [List.flatMap_singleton]
    exact Instr.atoms_literal_of_isLiteral ht

end Token

namespace Compile

theorem atoms_of_standalone {source : Text} {options : Options}
    (hcompress : options.compress = false) (h : Token.Standalone (Token.lex source)) :
    Instr.allAtoms (emission source options).finish =
      (Token.lex source).flatMap fun t => Instr.allAtoms (t.instrs options ⟨0, 0⟩) := by
  have htokens : tokens source options = (Token.lex source).map fun t => ⟨t, none⟩ := by
    rw [tokens, hcompress]
    exact Token.associate_of_standalone h
  have hunpaired : ∀ t ∈ tokens source options, t.partner = none := by
    rw [htokens, List.forall_mem_map]
    exact fun _ _ => rfl
  rw [emission, Emission.allAtoms_finish_ofTokens,
    Token.rangeInstrs_of_unpaired options hunpaired ⟨0, 0⟩ 0, List.drop_zero, htokens]
  simp [Instr.allAtoms, List.flatMap_map, List.flatMap_assoc]

end Compile

/-! ## The slot -/

namespace Slot

/-- A container that is replaced by the partial of this name. -/
def tag : Text := "<ins data-partial=\"content\"/>"

def target : Target := ⟨"content", "data"⟩

def between (a b : Text) : Text := a ++ tag ++ b

def token (start : Nat) : Token := Token.ofMarkup .tagOpen start tag

theorem lexFrom_tag_append (start : Nat) (b : Text) :
    Token.lexFrom start (tag ++ b) = token start :: Token.lexFrom (token start).stop b := by
  have hmarkup : Token.markup? ('<' :: (tag.tail ++ b)) = some .tagOpen := rfl
  exact Token.lexFrom_of_markup?_some hmarkup start

theorem instrs_token (start : Nat) :
    (token start).instrs .default ⟨0, 0⟩ = [.partialInvoke target] := by
  change (token start).loneInstrs .default ⟨0, 0⟩ = _
  rw [Token.loneInstrs, Clause.inOrder_eq_ofAttributes]
  rfl

/-- The tag begins where the first text ends, and ends where the second one begins. -/
theorem lex_between {a b : Text} (ha : '<' ∉ a) (hb : '<' ∉ b) :
    Token.lex (between a b) = Token.textToken 0 a ++
      token (Text.byteSize a) :: Token.textToken (token (Text.byteSize a)).stop b := by
  have htag : tag ++ b = [] ∨ (Token.markup? (tag ++ b)).isSome := .inr rfl
  rw [Token.lex, between, List.append_assoc, Token.lexFrom_append 0 ha htag, lexFrom_tag_append,
    Token.lexFrom_of_not_mem _ hb, Nat.zero_add]

theorem atoms_between {a b : Text} (ha : a.IsInert) (hb : b.IsInert) :
    Instr.allAtoms (Compile.emission (between a b) .default).finish =
      Instr.allAtoms [.text a, .partialInvoke target, .text b] := by
  have hlex := lex_between ha.markup hb.markup
  have hstandalone : Token.Standalone (Token.lex (between a b)) := by
    rw [hlex]
    exact List.forall_mem_append.mpr ⟨Token.standalone_textToken 0 a,
      List.forall_mem_cons.mpr ⟨fun _ => rfl, Token.standalone_textToken _ b⟩⟩
  rw [Compile.atoms_of_standalone rfl hstandalone, hlex, List.flatMap_append, List.flatMap_cons,
    Token.atoms_textToken _ _ _ ha.literal, Token.atoms_textToken _ _ _ hb.literal, instrs_token]
  simp

def blocks (a b : Text) : Blocks :=
  .append [.text a] (.partialInvoke target (.append [.text b] .nil))

variable {ρ σ : Type} (rts : Runtimes ρ σ) {inputs : Partials ρ σ} {p : Partial ρ σ}

theorem partialText_target (hp : inputs.get? target.name = some p) (rt : ρ) (scope : Scope) :
    Blocks.partialText rts inputs rt scope target = p rt scope.data := by
  rw [Blocks.partialText, hp]
  rfl

theorem render_blocks (hp : inputs.get? target.name = some p) (a b : Text) (rt : ρ)
    (data : Value) :
    (blocks a b).render rts rt data inputs = (do
      let t ← p rt data
      pure (a ++ t ++ b)) := by
  have hdepth : (blocks a b).depth = 0 := rfl
  have hwrite (t : Text) :
      (.ofExcept ([Piece.text t].mapM fun p => p.written (.ofRoot data) (rts.library rt)) :
        RenderM σ (List Text)) = pure [t] := rfl
  have hdata : (Scope.ofRoot data).data = data := rfl
  rw [Blocks.render, hdepth, if_neg (Nat.not_lt_zero maxBlockDepth)]
  simp only [blocks, Blocks.eval, hwrite, partialText_target rts hp, hdata]
  simp [Outcome.append, Outcome.written, Outcome.empty]

end Slot

/-- A slot between two texts writes the partial between them. -/
theorem Template.render_slot {ρ σ : Type} {a b : Text} (ha : a.IsInert) (hb : b.IsInert)
    (rts : Runtimes ρ σ) (rt : ρ) (data : Value) {inputs : Partials ρ σ} {p : Partial ρ σ}
    (hp : inputs.get? Slot.target.name = some p) :
    (compile (Slot.between a b) .default).render rts rt data inputs = (do
      let t ← p rt data
      pure (a ++ t ++ b)) := by
  have hblocks : Instr.allAtoms (Compile.emission (Slot.between a b) .default).finish =
      Instr.allAtoms (Slot.blocks a b).instrs := Slot.atoms_between ha hb
  rw [(render_compile rts rt hblocks data inputs).1, Slot.render_blocks rts hp]

end HtmlTemplate
