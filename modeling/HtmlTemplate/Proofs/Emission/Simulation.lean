import HtmlTemplate.Compile
import HtmlTemplate.Proofs.Emission.Content

/-!
Emission with its stack of waiting elements and its cursor adds what the recursive descent gives
(`extends_emitFrom`). The induction is on the length of the range; what carries it is that the
innermost waiting element closes at the end of the range, so that nothing in the range closes it.
-/

namespace HtmlTemplate.Emission

/-! ## Clauses -/

/-- The open partial directives after a clause has opened. -/
def openPartials (s : Emission) (c : Clause) : List (Option Nat) :=
  if c.directive = .partialSlot then (if s.depth > 0 then some s.depth else none) :: s.partials
  else s.partials

theorem openDirective_content {s : Emission} (h : s.cursor = none) (c : Clause) :
    (s.openDirective c.directive c.value).content =
      s.content ++ Instr.allAtoms (c.opening s.context) := by
  obtain ⟨d, value⟩ := c
  cases d with
  | condition => simp [openDirective, insert_eq_push h, content_push, Clause.opening]
  | iteration =>
    simp [openDirective, enterLoop, insert_eq_push, h, content_push, Clause.opening, context]
    rfl
  | inclusion =>
    simp [openDirective, insert_eq_push, h, content_push, Clause.opening]
    rfl
  | partialSlot =>
    by_cases hd : s.depth > 0
    · simp [openDirective, hd, insert_eq_push, h, content_push, Clause.opening, context]
      rfl
    · simp [openDirective, hd, Clause.opening, context, content]

theorem openDirective_cursor {s : Emission} (h : s.cursor = none) (c : Clause) :
    (s.openDirective c.directive c.value).cursor = none := by
  obtain ⟨d, value⟩ := c
  cases d with
  | partialSlot => by_cases hd : s.depth > 0 <;> simp [openDirective, hd, insert_eq_push, h]
  | _ => simp [openDirective, enterLoop, insert_eq_push, h]

theorem openDirective_context {s : Emission} (h : s.cursor = none) (c : Clause) :
    (s.openDirective c.directive c.value).context = c.inside s.context := by
  obtain ⟨d, value⟩ := c
  cases d with
  | partialSlot =>
    by_cases hd : s.depth > 0
    · simp [openDirective, hd, insert_eq_push, h, context, Clause.inside]
    · have hzero : s.depth = 0 := by omega
      simp [openDirective, hzero, context, Clause.inside]
  | _ => simp [openDirective, enterLoop, insert_eq_push, h, context, Clause.inside]

theorem openDirective_partials {s : Emission} (h : s.cursor = none) (c : Clause) :
    (s.openDirective c.directive c.value).partials = s.openPartials c := by
  obtain ⟨d, value⟩ := c
  cases d with
  | partialSlot =>
    by_cases hd : s.depth > 0 <;> simp [openDirective, hd, insert_eq_push, h, openPartials]
  | _ => simp [openDirective, enterLoop, insert_eq_push, h, openPartials]

/-- A directive that opens and closes around an extension wraps what was added. -/
theorem extends_closeDirective {s u : Emission} {xs : List Atom} (hs : s.cursor = none)
    (c : Clause) (h : Extends (s.openDirective c.directive c.value) u xs) :
    Extends s (u.closeDirective c.directive c.value)
      (Instr.allAtoms (c.opening s.context) ++ xs ++ Instr.allAtoms (c.closing s.context)) := by
  have hcontent : u.content = s.content ++ (Instr.allAtoms (c.opening s.context) ++ xs) := by
    rw [h.content, openDirective_content hs, List.append_assoc]
  have hcontext : u.context = c.inside s.context := by
    rw [h.context, openDirective_context hs]
  have hpartials : u.partials = s.openPartials c := by
    rw [h.partials, openDirective_partials hs]
  have hdepth : u.depth = (c.inside s.context).includes := congrArg Context.includes hcontext
  have hloops : u.loops = (c.inside s.context).loops := congrArg Context.loops hcontext
  have hcursor := h.cursor
  obtain ⟨d, value⟩ := c
  cases d with
  | condition =>
    have hu : Extends s u _ := ⟨hcontent, hcursor, hdepth, hpartials, hloops⟩
    exact hu.push .ifClose
  | iteration =>
    have hleave : u.loops - 1 = s.loops := by rw [hloops]; rfl
    have hu : Extends s { u with loops := s.loops } _ :=
      ⟨hcontent, hcursor, hdepth, hpartials, rfl⟩
    simp only [closeDirective, leaveLoop, hleave]
    exact hu.push (.eachClose s.loops)
  | inclusion =>
    have hleave : u.depth - 1 = s.depth := by rw [hdepth]; rfl
    have hu : Extends s { u with depth := s.depth } _ :=
      ⟨hcontent, hcursor, rfl, hpartials, hloops⟩
    simp only [closeDirective, hleave]
    exact hu.push (.includeClose (Target.ofText value))
  | partialSlot =>
    by_cases hd : s.depth > 0
    · have hu : Extends s { u with partials := s.partials, depth := s.depth } _ :=
        ⟨hcontent, hcursor, rfl, rfl, hloops⟩
      have hpushed : u.partials = some s.depth :: s.partials := by
        simpa [openPartials, hd] using hpartials
      simp only [closeDirective, hpushed]
      simpa [Clause.closing, context, hd] using hu.push .partialClose
    · have hzero : s.depth = 0 := by omega
      have hu : Extends s { u with partials := s.partials } _ :=
        ⟨hcontent, hcursor, by rw [hdepth, hzero]; rfl, rfl, hloops⟩
      have hpushed : u.partials = none :: s.partials := by
        simpa [openPartials, hd] using hpartials
      simp only [closeDirective, hpushed, List.tail_cons, invokeDirective]
      simpa [Clause.closing, context, hd] using hu.push (.partialInvoke (Target.ofText value))

@[simp] theorem closeClauses_nil (s : Emission) : s.closeClauses [] = s := rfl

theorem openClauses_cons (s : Emission) (c : Clause) (cs : List Clause) :
    s.openClauses (c :: cs) = (s.openDirective c.directive c.value).openClauses cs := rfl

theorem closeClauses_cons (s : Emission) (c : Clause) (cs : List Clause) :
    s.closeClauses (c :: cs) = (s.closeClauses cs).closeDirective c.directive c.value := by
  simp [closeClauses, List.foldl_append]

theorem openClauses_cursor {s : Emission} (h : s.cursor = none) (cs : List Clause) :
    (s.openClauses cs).cursor = none := by
  induction cs generalizing s with
  | nil => exact h
  | cons c cs ih => exact ih (openDirective_cursor h c)

/-- Clauses that open and close around what a body adds. -/
theorem extends_closeClauses {s u : Emission} (hs : s.cursor = none) (cs : List Clause)
    (body : Context → List Instr)
    (h : Extends (s.openClauses cs) u (Instr.allAtoms (body (s.openClauses cs).context))) :
    Extends s (u.closeClauses cs) (Instr.allAtoms (Clause.around s.context cs body)) := by
  induction cs generalizing s with
  | nil => exact h
  | cons c cs ih =>
    rw [openClauses_cons] at h
    have hinner := ih (openDirective_cursor hs c) h
    rw [openDirective_context hs] at hinner
    rw [closeClauses_cons]
    simpa [Clause.around] using extends_closeDirective hs c hinner

theorem Marks.openClauses {s m : Emission} {back : List Atom} (h : Marks s m back)
    (hs : s.cursor = none) (cs : List Clause) :
    Marks (s.openClauses cs) (m.openClauses cs) back := by
  induction cs generalizing s m with
  | nil => exact h
  | cons c cs ih => exact ih (h.openDirective hs c.directive c.value) (openDirective_cursor hs c)

theorem extends_invokeClauses {s : Emission} (h : s.cursor = none) (cs : List Clause) :
    Extends s (s.invokeClauses cs) (Instr.allAtoms (cs.flatMap Clause.invocation)) := by
  induction cs generalizing s with
  | nil => exact Extends.refl h
  | cons c cs ih =>
    have hc : Extends s (s.invokeDirective c.directive c.value)
        (Instr.allAtoms c.invocation) := by
      obtain ⟨d, value⟩ := c
      cases d with
      | inclusion => exact (Extends.refl h).push (.includeInvoke (Target.ofText value))
      | partialSlot => exact (Extends.refl h).push (.partialInvoke (Target.ofText value))
      | _ => exact Extends.refl h
    rw [List.flatMap_cons, Instr.allAtoms_append]
    exact hc.trans (ih hc.cursor)

/-! ## Elements -/

/-- The opening tag of an element with the directives around it. -/
theorem extends_unmark {s : Emission} (hs : s.cursor = none) (outer : List Clause) (tag : Text) :
    Extends (s.openClauses outer) (((s.mark.writeLiteral tag).openClauses outer).unmark)
      (Instr.allAtoms (Instr.literal tag)) :=
  (((marks_mark s).writeLiteral tag).openClauses hs outer).unmark

/-- An element adds its instructions, given what is added between its tags. -/
theorem extends_closeElement (options : Options) {s u : Emission} (hs : s.cursor = none)
    (t : Token) (stop : Nat) (closingTag : Text) (body : Context → List Instr)
    (h : Extends (openElement options s t stop).1 u
      (Instr.allAtoms (body (openElement options s t stop).1.context))) :
    Extends s (u.closeElement (openElement options s t stop).2 closingTag)
      (Instr.allAtoms (t.elementInstrs options s.context closingTag body)) := by
  by_cases hempty : (Clause.ofAttributes t.attributes).isEmpty = true
  · simp only [openElement, Token.elementInstrs, Clause.inOrder_eq_ofAttributes, hempty,
      if_true] at h ⊢
    have hopen := extends_writeLiteral hs t.text
    rw [hopen.context] at h
    have hclose := (hopen.trans h).trans (extends_writeLiteral h.cursor closingTag)
    simpa [closeElement] using hclose
  · cases htag : t.keptTag? options with
    | none =>
      simp only [openElement, Token.elementInstrs, Clause.inOrder_eq_ofAttributes, hempty,
        htag] at h ⊢
      have hopen := ((marks_mark s).openClauses hs (Clause.ofAttributes t.attributes)).unmark
      exact extends_closeClauses hs _ body (by simpa [hopen.context] using hopen.trans h)
    | some tag =>
      simp only [openElement, Token.elementInstrs, Clause.inOrder_eq_ofAttributes, hempty,
        htag] at h ⊢
      have hdepth : s.mark.depth = s.context.includes := (marks_mark s).depth
      rw [hdepth] at h ⊢
      generalize Clause.split s.context.includes (Clause.ofAttributes t.attributes) = parts at h ⊢
      obtain ⟨outer, inner⟩ := parts
      have hopen := extends_unmark hs outer tag
      have hinner := extends_closeClauses hopen.cursor inner body h
      rw [hopen.context] at hinner
      have hclose := (hopen.trans hinner).trans (extends_writeLiteral hinner.cursor closingTag)
      exact extends_closeClauses hs outer (fun x => Instr.literal tag ++
        Clause.around x inner body ++ Instr.literal closingTag) (by simpa using hclose)

theorem extends_loneTag (options : Options) {s : Emission} (hs : s.cursor = none) (t : Token) :
    Extends s (loneTag options s t) (Instr.allAtoms (t.loneInstrs options s.context)) := by
  unfold loneTag Token.loneInstrs
  simp only [Clause.inOrder_eq_ofAttributes]
  split
  · exact extends_writeLiteral hs t.text
  · generalize (Clause.ofAttributes t.attributes).partition (·.directive.isInvocable) = parts
    obtain ⟨invoked, wrapping⟩ := parts
    have hmarks := (marks_mark s).openClauses hs wrapping
    have hwrap (v : Emission) (xs : List Instr)
        (hv : Extends (s.openClauses wrapping) v (Instr.allAtoms xs)) :
        Extends s ((v.invokeClauses invoked).closeClauses wrapping)
          (Instr.allAtoms (Clause.around s.context wrapping fun _ =>
            xs ++ invoked.flatMap Clause.invocation)) := by
      have hinvoke := hv.trans (extends_invokeClauses hv.cursor invoked)
      rw [← Instr.allAtoms_append] at hinvoke
      exact extends_closeClauses hs wrapping _ hinvoke
    cases t.keptTag? options with
    | none => exact hwrap _ [] hmarks.unmark
    | some tag => exact hwrap _ _ (hmarks.writeLiteral tag).unmark

theorem openElement_stop (options : Options) (s : Emission) (t : Token) (stop : Nat) :
    (openElement options s t stop).2.stop = stop := by
  unfold openElement
  simp only
  split
  · rfl
  · cases t.keptTag? options <;> rfl

theorem openElement_cursor (options : Options) {s : Emission} (hs : s.cursor = none) (t : Token)
    (stop : Nat) : (openElement options s t stop).1.cursor = none := by
  unfold openElement
  simp only
  split
  · exact (extends_writeLiteral hs t.text).cursor
  · cases t.keptTag? options with
    | none => rfl
    | some tag => exact openClauses_cursor rfl _

/-! ## Ranges -/

theorem emitFrom_append (options : Options) (count i : Nat) (p : Progress)
    (xs ys : List Token.Paired) :
    emitFrom options count i p (xs ++ ys) =
      emitFrom options count (i + xs.length) (emitFrom options count i p xs) ys := by
  induction xs generalizing i p with
  | nil => rfl
  | cons t ts ih => simp [emitFrom, ih, Nat.add_assoc, Nat.add_comm 1]

/-- The position of the next closing tag that closes a waiting element, or the end. -/
def limit (count : Nat) : List Element → Nat
  | [] => count
  | e :: _ => e.stop

/-- Before the limit no token closes a waiting element. -/
theorem emitToken_of_lt (options : Options) {count i : Nat} {p : Progress}
    (h : i < limit count p.waiting) (t : Token.Paired) :
    emitToken options count i p t = emitInside options (limit count p.waiting) i p t := by
  unfold emitToken
  cases hw : p.waiting with
  | nil => rfl
  | cons e waiting =>
    rw [hw] at h
    simp only [limit] at h ⊢
    rw [if_neg (by omega)]

theorem emitInside_of_closing? (options : Options) {lo hi e : Nat} (p : Progress)
    {t : Token.Paired} (h : t.closing? lo hi = some e) :
    emitInside options hi lo p t =
      ⟨(openElement options p.state t.token e).1,
        (openElement options p.state t.token e).2 :: p.waiting⟩ := by
  have hbounds := Token.Paired.lt_of_closing? h
  unfold Token.Paired.closing? at h
  split at h
  · next hkind =>
    have hpartner := (Option.filter_eq_some_iff.mp h).1
    simp only [emitInside, hkind, hpartner]
    rw [if_pos hbounds]
  · simp at h

theorem emitInside_of_closing?_none (options : Options) {lo hi : Nat} {p : Progress}
    (hs : p.state.cursor = none) {t : Token.Paired} (h : t.closing? lo hi = none) :
    (emitInside options hi lo p t).waiting = p.waiting ∧
      Extends p.state (emitInside options hi lo p t).state
        (Instr.allAtoms (t.token.instrs options p.state.context)) := by
  have hlone := extends_loneTag options hs t.token
  unfold emitInside Token.instrs
  cases hkind : t.token.kind with
  | tagOpen =>
    cases hpartner : t.partner with
    | none => exact ⟨rfl, hlone⟩
    | some stop =>
      have hout : ¬(lo < stop ∧ stop < hi) := by
        simpa [Token.Paired.closing?, hkind, hpartner, Option.filter] using h
      simp only
      rw [if_neg hout]
      exact ⟨rfl, hlone⟩
  | comment =>
    simp only
    split
    · exact ⟨rfl, by simpa using extends_write hs t.token.text⟩
    · exact ⟨rfl, Extends.refl hs⟩
  | _ => exact ⟨rfl, extends_writeLiteral hs t.token.text⟩

def segment (tokens : List Token.Paired) (lo hi : Nat) : List Token.Paired :=
  (tokens.take hi).drop lo

theorem segment_self (tokens : List Token.Paired) (lo : Nat) : segment tokens lo lo = [] := by
  simp [segment]

theorem length_segment (tokens : List Token.Paired) {lo hi : Nat} (h : hi ≤ tokens.length) :
    (segment tokens lo hi).length = hi - lo := by
  simp only [segment, List.length_drop, List.length_take]
  omega

theorem segment_eq_append {tokens : List Token.Paired} {lo i hi : Nat} (hlo : lo ≤ i)
    (hi' : i < hi) {t : Token.Paired} (ht : tokens[i]? = some t) :
    segment tokens lo hi = segment tokens lo i ++ t :: segment tokens (i + 1) hi := by
  obtain ⟨hlength, rfl⟩ := List.getElem?_eq_some_iff.mp ht
  have htake : (tokens.take hi).take i = tokens.take i := by
    rw [List.take_take, Nat.min_eq_left (Nat.le_of_lt hi')]
  have hdrop : (tokens.take hi).drop i = tokens[i] :: (tokens.take hi).drop (i + 1) := by
    rw [List.drop_eq_getElem_cons (by rw [List.length_take]; omega), List.getElem_take]
  calc (tokens.take hi).drop lo
      = (tokens.take i ++ tokens[i] :: (tokens.take hi).drop (i + 1)).drop lo := by
        rw [← hdrop, ← htake, List.take_append_drop]
    _ = (tokens.take i).drop lo ++ tokens[i] :: (tokens.take hi).drop (i + 1) :=
        List.drop_append_of_le_length (by rw [List.length_take]; omega)

/-- The progress after a first part of a range, which adds `added` and closes what it opens, and
from which the rest of the range is emitted. -/
def Passes (options : Options) (tokens : List Token.Paired) (lo mid hi : Nat) (p : Progress)
    (added : List Instr) : Prop :=
  ∃ q : Progress, q.waiting = p.waiting ∧ Extends p.state q.state (Instr.allAtoms added) ∧
    emitFrom options tokens.length lo p (segment tokens lo hi) =
      emitFrom options tokens.length mid q (segment tokens mid hi)

theorem passes_single (options : Options) {tokens : List Token.Paired} {lo hi : Nat} {p : Progress}
    {t : Token.Paired} (hlt : lo < hi) (ht : tokens[lo]? = some t) (hc : t.closing? lo hi = none)
    (hs : p.state.cursor = none) (hlimit : limit tokens.length p.waiting = hi) :
    Passes options tokens lo (lo + 1) hi p (t.token.instrs options p.state.context) := by
  obtain ⟨hwaiting, hext⟩ := emitInside_of_closing?_none options hs hc
  refine ⟨emitInside options hi lo p t, hwaiting, hext, ?_⟩
  rw [segment_eq_append (Nat.le_refl lo) hlt ht, segment_self, List.nil_append, emitFrom,
    emitToken_of_lt options (by rw [hlimit]; exact hlt), hlimit]

/-- An element is emitted as a whole if the range between its tags is. -/
theorem passes_element (options : Options) {tokens : List Token.Paired} {lo e hi : Nat}
    {p : Progress} {t : Token.Paired} (hhi : hi ≤ tokens.length) (ht : tokens[lo]? = some t)
    (hc : t.closing? lo hi = some e) (hs : p.state.cursor = none)
    (hlimit : limit tokens.length p.waiting = hi)
    (hrange : ∀ q : Progress, q.state.cursor = none → limit tokens.length q.waiting = e →
      let last := emitFrom options tokens.length (lo + 1) q (segment tokens (lo + 1) e)
      last.waiting = q.waiting ∧ Extends q.state last.state
        (Instr.allAtoms (Token.rangeInstrs options tokens q.state.context (lo + 1) e))) :
    Passes options tokens lo (e + 1) hi p
      (t.token.elementInstrs options p.state.context (Token.textAt tokens e)
        fun x => Token.rangeInstrs options tokens x (lo + 1) e) := by
  obtain ⟨hloe, hehi⟩ := Token.Paired.lt_of_closing? hc
  obtain ⟨closing, hclosing⟩ : ∃ c, tokens[e]? = some c := ⟨_, List.getElem?_eq_getElem (by omega)⟩
  have htext : Token.textAt tokens e = closing.token.text := by simp [Token.textAt, hclosing]
  have hat : lo + 1 + (segment tokens (lo + 1) e).length = e := by
    rw [length_segment tokens (by omega)]
    omega
  have hstop := openElement_stop options p.state t.token e
  have hcursor := openElement_cursor options hs t.token e
  have hclose {u : Emission} := extends_closeElement options (u := u) hs t.token e
    closing.token.text (fun x => Token.rangeInstrs options tokens x (lo + 1) e)
  generalize hopened : openElement options p.state t.token e = opened at hstop hcursor hclose
  -- The body is emitted with the element on top of the stack, up to its closing tag.
  obtain ⟨hwaiting, hbody⟩ := hrange ⟨opened.1, opened.2 :: p.waiting⟩ hcursor hstop
  generalize hq : emitFrom options tokens.length (lo + 1) ⟨opened.1, opened.2 :: p.waiting⟩
    (segment tokens (lo + 1) e) = q at hwaiting hbody
  refine ⟨⟨q.state.closeElement opened.2 closing.token.text, p.waiting⟩, rfl, ?_, ?_⟩
  · rw [htext]
    exact hclose hbody
  · have hclosed : emitToken options tokens.length e q closing =
        ⟨q.state.closeElement opened.2 closing.token.text, p.waiting⟩ := by
      unfold emitToken
      rw [hwaiting]
      exact if_pos hstop
    rw [segment_eq_append (Nat.le_refl lo) (Nat.lt_trans hloe hehi) ht, segment_self,
      List.nil_append, emitFrom, emitToken_of_lt options (by rw [hlimit]; omega), hlimit,
      emitInside_of_closing? options p hc, hopened,
      segment_eq_append (show lo + 1 ≤ e from hloe) hehi hclosing, emitFrom_append, hat, hq,
      emitFrom, hclosed]

/-- Emitting a range up to the limit adds the instructions of the range and closes what it opens. -/
theorem extends_emitFrom (options : Options) (tokens : List Token.Paired) {lo hi : Nat}
    {p : Progress} (hlo : lo ≤ hi) (hhi : hi ≤ tokens.length) (hs : p.state.cursor = none)
    (hlimit : limit tokens.length p.waiting = hi) :
    (emitFrom options tokens.length lo p (segment tokens lo hi)).waiting = p.waiting ∧
      Extends p.state (emitFrom options tokens.length lo p (segment tokens lo hi)).state
        (Instr.allAtoms (Token.rangeInstrs options tokens p.state.context lo hi)) := by
  induction hn : hi - lo using Nat.strongRecOn generalizing lo hi p with
  | ind n ih =>
    rcases Nat.eq_or_lt_of_le hlo with rfl | hlt
    · rw [segment_self, Token.rangeInstrs_self]
      exact ⟨rfl, Extends.refl hs⟩
    obtain ⟨t, ht⟩ : ∃ t, tokens[lo]? = some t := ⟨_, List.getElem?_eq_getElem (by omega)⟩
    have hrest {mid : Nat} {added : List Instr} (hmid : lo < mid) (hmidhi : mid ≤ hi)
        (h : Passes options tokens lo mid hi p added) :
        (emitFrom options tokens.length lo p (segment tokens lo hi)).waiting = p.waiting ∧
          Extends p.state (emitFrom options tokens.length lo p (segment tokens lo hi)).state
            (Instr.allAtoms (added ++
              Token.rangeInstrs options tokens p.state.context mid hi)) := by
      obtain ⟨q, hwaiting, hext, hemit⟩ := h
      obtain ⟨hwaiting', hext'⟩ := ih (hi - mid) (by omega) hmidhi hhi hext.cursor
        (by rw [hwaiting, hlimit]) rfl
      rw [hext.context] at hext'
      rw [hemit, Instr.allAtoms_append]
      exact ⟨hwaiting'.trans hwaiting, hext.trans hext'⟩
    cases hc : t.closing? lo hi with
    | none =>
      rw [Token.rangeInstrs_single hlt ht hc]
      exact hrest (Nat.lt_succ_self lo) hlt (passes_single options hlt ht hc hs hlimit)
    | some e =>
      obtain ⟨hloe, hehi⟩ := Token.Paired.lt_of_closing? hc
      rw [Token.rangeInstrs_element ht hc]
      refine hrest (by omega) hehi (passes_element options hhi ht hc hs hlimit ?_)
      intro q hcursor hq
      exact ih (e - (lo + 1)) (by omega) hloe (by omega) hcursor hq rfl

/-- A whole token list, from the start on, adds the instructions of the whole range. -/
theorem extends_ofTokens (options : Options) (tokens : List Token.Paired) :
    Extends start (ofTokens options tokens)
      (Instr.allAtoms (Token.rangeInstrs options tokens ⟨0, 0⟩ 0 tokens.length)) := by
  have hall : segment tokens 0 tokens.length = tokens := by simp [segment]
  have h := (extends_emitFrom options tokens (p := ⟨start, []⟩) (Nat.zero_le _) (Nat.le_refl _) rfl
    rfl).2
  rwa [hall] at h

theorem allAtoms_finish_ofTokens (options : Options) (tokens : List Token.Paired) :
    Instr.allAtoms (ofTokens options tokens).finish =
      Instr.allAtoms (Token.rangeInstrs options tokens ⟨0, 0⟩ 0 tokens.length) := by
  rw [allAtoms_finish]
  exact (extends_ofTokens options tokens).content

end HtmlTemplate.Emission

namespace HtmlTemplate.Compile

/-- Compilation gives the normal form of what recursive descent over the pairs of tags gives. -/
theorem instrs_eq_optimize_rangeInstrs (source : Text) (options : Options) :
    instrs source options =
      Instr.optimize (Token.rangeInstrs options (tokens source options) ⟨0, 0⟩ 0
        (tokens source options).length) := by
  apply Instr.optimize_eq_iff.mpr
  exact Emission.allAtoms_finish_ofTokens options (tokens source options)

end HtmlTemplate.Compile
