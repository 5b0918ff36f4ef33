import HtmlTemplate.Proofs.Emission.Plain
import HtmlTemplate.Proofs.Instr.NormalForm
import HtmlTemplate.Proofs.Text.Trimming

/-!
Literals and what they are emitted as. The fragments of a literal are all of it (`source_split`),
and no two texts are neighbours, so each of them becomes one instruction (`finish_writeLiteral`).
What is written as parts, texts in which no interpolation begins between interpolations of one
expression and its handlers, is read as these parts (`split_source`, `ofContent_content`).
-/

namespace HtmlTemplate

namespace Text

variable {p : Char → Bool} {t : Text}

theorem splitWhere_of_forall (h : ∀ c ∈ t, p c = false) : splitWhere p t = [t] := by
  induction t with
  | nil => rfl
  | cons c t ih =>
    obtain ⟨hc, ht⟩ := List.forall_mem_cons.mp h
    simp [splitWhere, hc, ih ht]

theorem splitWhere_append {c : Char} (h : ∀ d ∈ t, p d = false) (hc : p c = true) (rest : Text) :
    splitWhere p (t ++ c :: rest) = t :: splitWhere p rest := by
  induction t with
  | nil => simp [splitWhere, hc]
  | cons d t ih =>
    obtain ⟨hd, ht⟩ := List.forall_mem_cons.mp h
    simp [splitWhere, hd, ih ht]

end Text

/-! ## Interpolations as they are written -/

namespace Variable

/-- A text that stands for itself as the expression or as a handler of an interpolation. -/
structure IsItem (t : Text) : Prop where
  ne_nil : t ≠ []
  trimmed : Text.trim t = t
  free : ∀ c ∈ t, isHandlerMark c = false ∧ c ≠ '\x7d'

instance (t : Text) : Decidable (IsItem t) :=
  decidable_of_iff (t ≠ [] ∧ Text.trim t = t ∧ t.all fun c => !isHandlerMark c && c != '\x7d')
    ⟨fun h => ⟨h.1, h.2.1, by simpa using h.2.2⟩,
      fun h => ⟨h.ne_nil, h.trimmed, by simpa using h.free⟩⟩

end Variable

/-- An interpolation in its parts: an expression and the handlers, each with the mark before it. -/
structure Spelling where
  escaped : Bool
  expr : Text
  handlers : List (Char × Text)
  isItem_expr : Variable.IsItem expr := by decide
  isItem_handlers : ∀ h ∈ handlers, Variable.isHandlerMark h.1 = true ∧ Variable.IsItem h.2 := by
    decide

namespace Spelling

variable (x : Spelling)

def content : Text := x.expr ++ x.handlers.flatMap fun h => h.1 :: h.2

def value : Variable :=
  ⟨x.expr, x.handlers.map (·.2) ++ if x.escaped then ["escape".toList] else []⟩

end Spelling

/-- A part of a literal: text in which no interpolation begins, or an interpolation. -/
inductive LiteralPart
  | text (t : Text) (ne_nil : t ≠ []) (isLiteral : t.IsLiteral)
  | interpolation (x : Spelling)

namespace LiteralPart

def fragment : LiteralPart → Fragment
  | text t _ _ => .text t
  | interpolation x => .interpolation x.escaped x.content

def source (p : LiteralPart) : Text := p.fragment.source

def isText : LiteralPart → Bool
  | text .. => true
  | interpolation _ => false

def instr : LiteralPart → Instr
  | text t _ _ => .text t
  | interpolation x => .append [.value x.value]

end LiteralPart

namespace Variable

/-- Handlers behind their marks are divided at the marks. -/
theorem splitWhere_handlers {name : Text} {handlers : List (Char × Text)} (hname : IsItem name)
    (h : ∀ h ∈ handlers, isHandlerMark h.1 = true ∧ IsItem h.2) :
    Text.splitWhere isHandlerMark (name ++ handlers.flatMap fun h => h.1 :: h.2) =
      name :: handlers.map (·.2) := by
  have hfree {t : Text} (ht : IsItem t) : ∀ c ∈ t, isHandlerMark c = false :=
    fun c hc => (ht.free c hc).1
  induction handlers generalizing name with
  | nil => simp [Text.splitWhere_of_forall (hfree hname)]
  | cons handler handlers ih =>
    obtain ⟨⟨hmark, hitem⟩, hrest⟩ := List.forall_mem_cons.mp h
    rw [List.flatMap_cons, List.cons_append, Text.splitWhere_append (hfree hname) hmark,
      ih hitem hrest, List.map_cons]

/-- Items are left as they are where blanks and empty names go. -/
theorem filter_map_trim {names : List Text} (h : ∀ name ∈ names, IsItem name) :
    (names.map Text.trim).filter (!·.isEmpty) = names := by
  have htrim : names.map Text.trim = names :=
    (List.map_congr_left fun name hname => (h name hname).trimmed).trans (List.map_id names)
  rw [htrim, List.filter_eq_self]
  exact fun name hname => by simpa using (h name hname).ne_nil

theorem names_handlers {handlers : List (Char × Text)}
    (h : ∀ h ∈ handlers, isHandlerMark h.1 = true ∧ IsItem h.2) :
    ((Text.splitWhere isHandlerMark ((handlers.flatMap fun h => h.1 :: h.2).drop 1)).map
      Text.trim).filter (!·.isEmpty) = handlers.map (·.2) := by
  cases handlers with
  | nil => rfl
  | cons handler handlers =>
    obtain ⟨⟨-, hitem⟩, hrest⟩ := List.forall_mem_cons.mp h
    have hitems : ∀ name ∈ handler.2 :: handlers.map (·.2), IsItem name :=
      List.forall_mem_cons.mpr ⟨hitem, List.forall_mem_map.mpr fun h hh => (hrest h hh).2⟩
    rw [List.flatMap_cons, List.cons_append, List.drop_succ_cons, List.drop_zero,
      splitWhere_handlers hitem hrest, filter_map_trim hitems, List.map_cons]

theorem ofContent_content (x : Spelling) : ofContent x.escaped x.content = x.value := by
  obtain ⟨escaped, expr, handlers, hexpr, hhandlers⟩ := x
  have hfree : ∀ c ∈ expr, (!isHandlerMark c) = true := fun c hc => by simp [(hexpr.free c hc).1]
  have hmark : ∀ c ∈ (handlers.flatMap fun h => h.1 :: h.2).head?, isHandlerMark c = true := by
    intro c hc
    cases handlers with
    | nil => cases hc
    | cons handler handlers =>
      obtain rfl := Option.some.inj hc
      exact (hhandlers handler List.mem_cons_self).1
  have hnames := names_handlers hhandlers
  simp only [ofContent, Spelling.content, Spelling.value]
  generalize handlers.flatMap (fun h => h.1 :: h.2) = marked at hmark hnames ⊢
  have hstop : ∀ c ∈ marked.head?, (!isHandlerMark c) = false := fun c hc => by simp [hmark c hc]
  obtain ⟨htake, hdrop⟩ := Text.takeWhile_append (List.all_eq_true.mpr hfree) hstop
  rw [htake, hdrop, hexpr.trimmed, hnames]
  cases escaped <;> simp

end Variable

namespace Fragment

/-! ## The fragments of a literal -/

theorem eq_of_interpolation? {cs content rest : Text} {escaped : Bool}
    (h : interpolation? cs = some (escaped, content, rest)) :
    cs = (interpolation escaped content).source ++ rest := by
  unfold interpolation? at h
  split at h
  · next sigil cs =>
    split at h
    · next hsigil =>
      have hcut := List.takeWhile_append_dropWhile (p := (· != '\x7d')) (l := cs)
      split at h
      · cases h
      · next d tail hdrop =>
        split at h
        · cases h
        · simp only [Option.some.injEq, Prod.mk.injEq] at h
          obtain ⟨rfl, rfl, rfl⟩ := h
          -- What stops the search for the closing brace is the brace.
          have hstop := List.head?_dropWhile_not (· != '\x7d') cs
          rw [hdrop] at hstop hcut
          obtain rfl : d = '\x7d' := by simpa using hstop
          have hsource : (if (sigil == '#') = true then '#' else '!') = sigil := by
            rcases hsigil with rfl | rfl <;> rfl
          simp only [source, hsource, List.cons_append, List.append_assoc, List.nil_append, hcut]
    · cases h
  · cases h

theorem split_of_some {cs content rest : Text} {escaped : Bool}
    (h : interpolation? cs = some (escaped, content, rest)) :
    split cs = interpolation escaped content :: split rest := by
  cases cs with
  | nil => cases h
  | cons c cs =>
    conv => lhs; unfold split
    split
    · next hsome =>
      obtain ⟨rfl, rfl, rfl⟩ := by simpa using h.symm.trans hsome
      rfl
    · next hnone => cases h.symm.trans hnone

theorem split_cons_of_none {c : Char} {cs : Text} (h : interpolation? (c :: cs) = none) :
    split (c :: cs) = consChar c (split cs) := by
  conv => lhs; unfold split
  split
  · next hsome => cases h.symm.trans hsome
  · rfl

/-- Induction along the fragments of a literal. -/
theorem split_induction {motive : Text → List Fragment → Prop} (nil : motive [] [])
    (interpolation : ∀ cs escaped content rest,
      interpolation? cs = some (escaped, content, rest) → motive rest (split rest) →
      motive cs (interpolation escaped content :: split rest))
    (char : ∀ c cs, interpolation? (c :: cs) = none → motive cs (split cs) →
      motive (c :: cs) (consChar c (split cs)))
    (t : Text) : motive t (split t) := by
  induction hn : t.length using Nat.strongRecOn generalizing t with
  | ind n ih =>
    cases hread : interpolation? t with
    | some read =>
      obtain ⟨escaped, content, rest⟩ := read
      have hlength := length_lt_of_interpolation? hread
      rw [split_of_some hread]
      exact interpolation t escaped content rest hread (ih rest.length (by omega) rest rfl)
    | none =>
      cases t with
      | nil =>
        unfold split
        exact nil
      | cons c cs =>
        rw [List.length_cons] at hn
        rw [split_cons_of_none hread]
        exact char c cs hread (ih cs.length (by omega) cs rfl)

theorem flatMap_source_consChar (c : Char) (fragments : List Fragment) :
    (consChar c fragments).flatMap source = c :: fragments.flatMap source := by
  unfold consChar
  split <;> rfl

/-- The fragments are all of the literal. -/
theorem source_split (t : Text) : (split t).flatMap source = t := by
  induction t using split_induction with
  | nil => rfl
  | interpolation cs escaped content rest h ih =>
    rw [List.flatMap_cons, ih, eq_of_interpolation? h]
  | char c cs h ih => rw [flatMap_source_consChar, ih]

def isText : Fragment → Bool
  | text _ => true
  | interpolation _ _ => false

/-- Fragments that are emitted one by one: no two texts are neighbours, and none is empty. -/
structure Separate (fragments : List Fragment) : Prop where
  apart : Apart isText fragments
  filled : ∀ f ∈ fragments, f ≠ text []

theorem separate_nil : Separate [] := ⟨.nil, List.forall_mem_nil _⟩

theorem Separate.tail {f : Fragment} {fragments : List Fragment} (h : Separate (f :: fragments)) :
    Separate fragments :=
  ⟨(Apart.cons_iff.mp h.apart).2, (List.forall_mem_cons.mp h.filled).2⟩

theorem Separate.consChar {fragments : List Fragment} (h : Separate fragments) (c : Char) :
    Separate (consChar c fragments) := by
  cases fragments with
  | nil => exact ⟨List.isChain_singleton _, by simp [Fragment.consChar]⟩
  | cons f fragments =>
    obtain ⟨hhead, hrest⟩ := Apart.cons_iff.mp h.apart
    cases f with
    | text t =>
      have hfilled : ∀ f ∈ text (c :: t) :: fragments, f ≠ text [] :=
        List.forall_mem_cons.mpr ⟨by simp, h.tail.filled⟩
      exact ⟨Apart.cons_iff.mpr ⟨fun _ => hhead rfl, hrest⟩, hfilled⟩
    | interpolation escaped content =>
      have hfilled : ∀ f ∈ text [c] :: interpolation escaped content :: fragments, f ≠ text [] :=
        List.forall_mem_cons.mpr ⟨by simp, h.filled⟩
      refine ⟨Apart.cons_iff.mpr ⟨fun _ f hf => ?_, h.apart⟩, hfilled⟩
      obtain rfl := Option.some.inj hf
      simp [isText]

theorem separate_split (t : Text) : Separate (split t) := by
  induction t using split_induction with
  | nil => exact separate_nil
  | interpolation cs escaped content rest h ih =>
    exact ⟨Apart.cons_iff.mpr ⟨by simp [isText], ih.apart⟩,
      List.forall_mem_cons.mpr ⟨by simp, ih.filled⟩⟩
  | char c cs h ih => exact ih.consChar c

/-! ## Fragments that are read as they are written -/

/-- An interpolation is read up to its first closing brace. -/
theorem split_interpolation_append (escaped : Bool) {content : Text} (hne : content ≠ [])
    (hfree : ∀ c ∈ content, c ≠ '\x7d') (rest : Text) :
    split ((interpolation escaped content).source ++ rest) =
      interpolation escaped content :: split rest := by
  have hpos : content.all (· != '\x7d') = true := by simpa using hfree
  have hread : interpolation? ((interpolation escaped content).source ++ rest) =
      some (escaped, content, rest) := by
    have hstop : ∀ c ∈ ('\x7d' :: rest).head?, (c != '\x7d') = false := by simp
    obtain ⟨htake, hdrop⟩ := Text.takeWhile_append hpos hstop
    cases escaped <;> simp [interpolation?, source, htake, hdrop, hne]
  exact split_of_some hread

/-- No interpolation begins in a text or where it meets what follows it. -/
theorem interpolation?_append {c : Char} {t rest : Text} (h : Text.IsLiteral (c :: t))
    (hrest : ∀ d ∈ rest.head?, d ≠ '\x7b') : interpolation? (c :: t ++ rest) = none := by
  have hbrace {cs : Text} (hcs : ∀ d ∈ cs.head?, d ≠ '\x7b') : interpolation? (c :: cs) = none := by
    unfold interpolation?
    split
    · next heq =>
      obtain ⟨-, rfl⟩ := List.cons.inj heq
      exact absurd rfl (hcs _ rfl)
    · rfl
  cases t with
  | nil => exact hbrace hrest
  | cons d t =>
    by_cases hd : d = '\x7b'
    · subst hd
      have hprefix : [c, '\x7b'] <:+: c :: '\x7b' :: t := (List.prefix_append [c, '\x7b'] t).isInfix
      refine if_neg ?_
      rintro (rfl | rfl)
      · exact h.1 hprefix
      · exact h.2 hprefix
    · refine hbrace fun e he => ?_
      obtain rfl := Option.some.inj he
      exact hd

/-- A text is read as one fragment in front of what does not go on with it. -/
theorem split_text_append {t rest : Text} (hne : t ≠ []) (h : t.IsLiteral)
    (hrest : ∀ d ∈ rest.head?, d ≠ '\x7b') (hnext : ∀ f ∈ (split rest).head?, f.isText = false) :
    split (t ++ rest) = text t :: split rest := by
  induction t with
  | nil => exact absurd rfl hne
  | cons c t ih =>
    have hnone := interpolation?_append h hrest
    rw [List.cons_append] at hnone ⊢
    rw [split_cons_of_none hnone]
    by_cases ht : t = []
    · subst ht
      rw [List.nil_append]
      cases hsplit : split rest with
      | nil => rfl
      | cons f fragments =>
        cases f with
        | text u => cases hnext (text u) (by rw [hsplit]; rfl)
        | interpolation escaped content => rfl
    · rw [ih ht (h.of_infix (List.suffix_cons c t).isInfix)]
      rfl

end Fragment

theorem Spelling.content_ne_nil (x : Spelling) : x.content ≠ [] := by
  simp [content, x.isItem_expr.ne_nil]

theorem Spelling.ne_brace_of_mem_content (x : Spelling) : ∀ c ∈ x.content, c ≠ '\x7d' := by
  refine List.forall_mem_append.mpr ⟨fun c hc => (x.isItem_expr.free c hc).2, fun c hc => ?_⟩
  obtain ⟨⟨mark, name⟩, hmem, hc⟩ := List.mem_flatMap.mp hc
  obtain ⟨hmark, hitem⟩ := x.isItem_handlers _ hmem
  rcases List.mem_cons.mp hc with rfl | hc
  · rintro rfl
    cases hmark
  · exact (hitem.free c hc).2

namespace LiteralPart

/-- Parts are read as they are written if no text goes on with another one. -/
theorem split_source {parts : List LiteralPart} (h : Apart isText parts) :
    Fragment.split (parts.flatMap source) = parts.map fragment := by
  induction parts with
  | nil =>
    unfold Fragment.split
    rfl
  | cons p parts ih =>
    obtain ⟨hhead, hparts⟩ := Apart.cons_iff.mp h
    have hrest := ih hparts
    rw [List.flatMap_cons, List.map_cons, ← hrest]
    cases p with
    | interpolation x =>
      exact Fragment.split_interpolation_append x.escaped x.content_ne_nil
        x.ne_brace_of_mem_content _
    | text t ne_nil isLiteral =>
      cases parts with
      | nil =>
        exact Fragment.split_text_append ne_nil isLiteral (by simp) (by rw [hrest]; simp)
      | cons q parts =>
        cases q with
        | text u _ _ => exact absurd rfl (hhead rfl _ rfl)
        | interpolation x =>
          -- An interpolation begins with its sigil.
          have hsigil : ∀ c ∈ ((interpolation x :: parts).flatMap source).head?, c ≠ '\x7b' := by
            intro c hc
            obtain rfl := Option.some.inj hc
            cases x.escaped <;> decide
          refine Fragment.split_text_append ne_nil isLiteral hsigil fun f hf => ?_
          rw [hrest] at hf
          obtain rfl := Option.some.inj hf
          rfl

theorem instr_fragment (p : LiteralPart) : p.fragment.instr = p.instr := by
  cases p with
  | text t _ _ => rfl
  | interpolation x => rw [fragment, Fragment.instr, Variable.ofContent_content, instr]

end LiteralPart

namespace Emission
open Fragment

/-- Each fragment becomes an instruction of its own, unless it is a text that pending text goes on
with. -/
theorem finish_foldl_writeFragment {fragments : List Fragment} (h : Separate fragments)
    (s : Emission) (hs : s.pending = [] ∨ ∀ f ∈ fragments.head?, f.isText = false) :
    (fragments.foldl writeFragment s).finish = s.finish ++ fragments.map Fragment.instr := by
  induction fragments generalizing s with
  | nil => exact (List.append_nil _).symm
  | cons f fragments ih =>
    obtain ⟨hhead, -⟩ := Apart.cons_iff.mp h.apart
    have hfinish : (s.writeFragment f).finish = s.finish ++ [f.instr] := by
      cases f with
      | interpolation escaped content =>
        rw [writeFragment, writeVariable, push_eq]
        rfl
      | text t =>
        have hpending : s.pending = [] := hs.resolve_right fun hall => by cases hall _ rfl
        have ht : t ≠ [] := fun heq => (List.forall_mem_cons.mp h.filled).1 (by rw [heq])
        simp [writeFragment, write, finish, flush, hpending, ht, Fragment.instr]
    have hnext : (s.writeFragment f).pending = [] ∨
        ∀ f ∈ fragments.head?, f.isText = false := by
      cases f with
      | interpolation escaped content =>
        left
        rw [writeFragment, writeVariable, push_eq]
      | text t => exact .inr fun g hg => by simpa using hhead rfl g hg
    rw [List.foldl_cons, ih h.tail _ hnext, hfinish, List.map_cons, List.append_assoc]
    rfl

theorem finish_writeLiteral_eq_map (t : Text) :
    (start.writeLiteral t).finish = (Fragment.split t).map Fragment.instr :=
  finish_foldl_writeFragment (separate_split t) start (.inl rfl)

/-- A literal is emitted as one append for each of its fragments, which together are the literal.
What is written in parts is emitted as these parts. -/
theorem finish_writeLiteral :
    (∀ t : Text, ∃ fragments : List Fragment,
      (start.writeLiteral t).finish = fragments.map Fragment.instr ∧
        fragments.flatMap Fragment.source = t) ∧
      ∀ parts : List LiteralPart, Apart LiteralPart.isText parts →
        (start.writeLiteral (parts.flatMap LiteralPart.source)).finish =
          parts.map LiteralPart.instr := by
  refine ⟨fun t => ⟨Fragment.split t, finish_writeLiteral_eq_map t, source_split t⟩, ?_⟩
  intro parts h
  rw [finish_writeLiteral_eq_map, LiteralPart.split_source h, List.map_map]
  exact List.map_congr_left fun p _ => p.instr_fragment

/-- Sigils in front of sigils, braces that are not closed and an interpolation within a name. -/
theorem finish_writeLiteral_sigils :
    let parts : List LiteralPart :=
      [.text "\x7b a #" (by decide) (by decide),
        .interpolation
          { escaped := true, expr := "!\x7bx", handlers := [('|', "up #"), (',', "b")] },
        .interpolation { escaped := false, expr := "a b", handlers := [] },
        .text "\x7d!" (by decide) (by decide),
        .interpolation { escaped := true, expr := "y", handlers := [] }]
    Apart LiteralPart.isText parts ∧
      (start.writeLiteral "\x7b a ##\x7b!\x7bx|up #,b\x7d!\x7ba b\x7d\x7d!#\x7by\x7d").finish =
        [.text "\x7b a #", .append [.value ⟨"!\x7bx", ["up #", "b", "escape"]⟩],
          .append [.value ⟨"a b", []⟩], .text "\x7d!", .append [.value ⟨"y", ["escape"]⟩]] := by
  intro parts
  have happart : Apart LiteralPart.isText parts := by simp [Apart, parts, LiteralPart.isText]
  exact ⟨happart, finish_writeLiteral.2 parts happart⟩

end Emission

end HtmlTemplate
