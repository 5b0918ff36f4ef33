import HtmlTemplate.Proofs.Expr.Grammar
import HtmlTemplate.Proofs.Text.Bytes

/-!
Reading of expressions by byte offsets. A reader starts at an offset in the source, skips blanks,
looks at the characters behind the offset and gives its result with the offset behind it. All that
it looks at are slices, which are there only between characters, and a clock stands for the time
that it has (`parseAt?`). No slice is missing and the clock does not run down if it has one tick
more than there are characters, and so parsing is exact (`parse_exact`).
-/

namespace HtmlTemplate

namespace Expr

/-- A result or an error, or nothing where a slice is missing or the clock has run down. -/
abbrev Cursor := ExceptT ParseError Option

def timeout {α : Type} : Cursor α := ExceptT.lift none

variable (source : Text)

def between (lo hi : Nat) : Cursor Text := ExceptT.lift (Text.slice? source lo hi)

def behind (pos : Nat) : Cursor Text := between source pos (Text.byteSize source)

/-- The next character that is not blank, and its offset. -/
def peekAt (pos : Nat) : Cursor (Option Char × Nat) := do
  let cs ← behind source pos
  let next := pos + (Text.byteSize cs - Text.byteSize (Text.trimStart cs))
  let cs ← behind source next
  pure (cs.head?, next)

/-- Passes the symbol `c`, if it comes next. -/
def eatAt (c : Char) (pos : Nat) : Cursor (Bool × Nat) := do
  let (next, pos) ← peekAt source pos
  if next = some c then pure (true, pos + c.utf8Size) else pure (false, pos)

def unexpectedAt {α : Type} (wanted : Wanted) (pos : Nat) : Cursor α := do
  let (_, pos) ← peekAt source pos
  let cs ← behind source pos
  throw (.expected wanted cs)

def expectAt (c : Char) (pos : Nat) : Cursor Nat := do
  let (found, pos) ← eatAt source c pos
  if found then pure pos else unexpectedAt source (.symbol c) pos

def identAt (wanted : Wanted) (pos : Nat) : Cursor (Text × Nat) := do
  let (_, pos) ← peekAt source pos
  match ← behind source pos with
  | [] => unexpectedAt source wanted pos
  | c :: cs =>
    if isIdentStart c then do
      let stop := pos + Text.byteSize (c :: cs.takeWhile isIdentChar)
      let name ← between source pos stop
      pure (name, stop)
    else unexpectedAt source wanted pos

def stringAt (quote : Char) : (clock : Nat) → (pos : Nat) → Cursor (Text × Nat)
  | 0, _ => timeout
  | clock + 1, pos => do
    match ← behind source pos with
    | [] => throw .unterminatedString
    | c :: _ =>
      if c = '\\' then do
        match ← behind source (pos + 1) with
        | [] => throw .unterminatedString
        | d :: _ => do
          let (s, stop) ← stringAt quote clock (pos + 1 + d.utf8Size)
          pure (unescape d :: s, stop)
      else if c = quote then pure ([], pos + 1)
      else do
        let (s, stop) ← stringAt quote clock (pos + c.utf8Size)
        pure (c :: s, stop)

def numberAt (pos : Nat) : Cursor (Number × Nat) := do
  match ← behind source pos with
  | [] => unexpectedAt source .expression pos
  | c :: cs =>
    let stop := pos + Text.byteSize (c :: cs.takeWhile isNumberPart)
    let text ← between source pos stop
    match numberOfText? text with
    | some n => pure (n, stop)
    | none => throw (.invalidNumber text)

def startsNumberAt (c : Char) (pos : Nat) : Cursor Bool :=
  if c.isDigit then pure true
  else if c = '-' then do
    let cs ← behind source (pos + 1)
    pure (cs.head?.any Char.isDigit)
  else pure false

abbrev ExprCursor := Nat → Cursor (Expr × Nat)

def argumentsAt (unary : ExprCursor) : (clock : Nat) → (pos : Nat) → Cursor (List Expr × Nat)
  | 0, _ => timeout
  | clock + 1, pos => do
    let (argument, pos) ← unary pos
    let (closed, pos) ← eatAt source ')' pos
    if closed then pure ([argument], pos)
    else do
      let pos ← expectAt source ',' pos
      let (arguments, pos) ← argumentsAt unary clock pos
      pure (argument :: arguments, pos)

def callAt (unary : ExprCursor) (clock : Nat) (table : FunctionTable) : ExprCursor := fun pos => do
  let pos ← expectAt source '.' pos
  let (function, pos) ← identAt source .functionName pos
  let pos ← expectAt source '(' pos
  let (closed, pos) ← eatAt source ')' pos
  if closed then pure (.call table function [], pos)
  else do
    let (arguments, pos) ← argumentsAt source unary clock pos
    pure (.call table function arguments, pos)

def namedAt (unary : ExprCursor) (clock : Nat) (ident : Text) : ExprCursor := fun pos =>
  if ident = "true" then pure (.literal (.bool true), pos)
  else if ident = "false" then pure (.literal (.bool false), pos)
  else if ident = "null" then pure (.literal .null, pos)
  else if ident = "undefined" then pure (.undefined, pos)
  else if ident = "filters" then callAt source unary clock .filters pos
  else if ident = "handlers" then callAt source unary clock .handlers pos
  else match Binding.ofName? ident with
    | some b => pure (.binding b, pos)
    | none => pure (.member (.binding .data) ident, pos)

def primaryAt (unary : ExprCursor) (clock : Nat) : ExprCursor := fun pos => do
  let (next, pos) ← peekAt source pos
  match next with
  | none => unexpectedAt source .expression pos
  | some c =>
    if c = '(' then do
      let (inner, pos) ← unary (pos + 1)
      let pos ← expectAt source ')' pos
      pure (inner, pos)
    else if c = '\'' ∨ c = '"' then do
      let (s, pos) ← stringAt source c clock (pos + 1)
      pure (.literal (.string s), pos)
    else do
      let isNumber ← startsNumberAt source c pos
      if isNumber then do
        let (n, pos) ← numberAt source pos
        pure (.literal (.number n), pos)
      else do
        let (ident, pos) ← identAt source .expression pos
        namedAt source unary clock ident pos

def membersAt (unary : ExprCursor) : (clock : Nat) → Expr → ExprCursor
  | 0, _, _ => timeout
  | clock + 1, base, pos => do
    let (point, pos) ← eatAt source '.' pos
    if point then do
      let (property, pos) ← identAt source .propertyName pos
      membersAt unary clock (.member base property) pos
    else do
      let (bracket, pos) ← eatAt source '[' pos
      if bracket then do
        let (key, pos) ← unary pos
        let pos ← expectAt source ']' pos
        membersAt unary clock (.index base key) pos
      else pure (base, pos)

def unaryAt : (clock : Nat) → ExprCursor
  | 0, _ => timeout
  | clock + 1, pos => do
    let (negated, pos) ← eatAt source '!' pos
    if negated then do
      let (operand, pos) ← unaryAt clock pos
      pure (.not operand, pos)
    else do
      let (base, pos) ← primaryAt source (unaryAt clock) clock pos
      membersAt source (unaryAt clock) (clock + 1) base pos

/-- The expression that the source is, read by offsets with the given time. -/
def parseAt? (clock : Nat) : Option (Except ParseError Expr) := ExceptT.run do
  let (e, pos) ← unaryAt source clock 0
  let (next, pos) ← peekAt source pos
  if next.isSome then unexpectedAt source .endOfExpression pos else pure e

/-! ## Offsets between characters -/

/-- The text is what stands in the source behind the offset. -/
def Stands (pos : Nat) (cs : Text) : Prop :=
  ∃ before, source = before ++ cs ∧ Text.byteSize before = pos

/-- The same up to blanks at the start of the text. -/
def StandsNext (pos : Nat) (cs : Text) : Prop :=
  ∃ blanks rest, (∀ c ∈ blanks, Text.isBlank c = true) ∧ cs = blanks ++ rest ∧
    Stands source pos rest

variable {source} {pos : Nat} {cs : Text}

theorem Stands.next (h : Stands source pos cs) : StandsNext source pos cs :=
  ⟨[], cs, by simp, rfl, h⟩

theorem StandsNext.of_trimStart (h : Stands source pos (Text.trimStart cs)) :
    StandsNext source pos cs :=
  ⟨cs.takeWhile Text.isBlank, Text.trimStart cs, fun _ hc => List.mem_takeWhile_imp hc,
    List.takeWhile_append_dropWhile.symm, h⟩

theorem Stands.append {t : Text} (h : Stands source pos (t ++ cs)) :
    Stands source (pos + Text.byteSize t) cs := by
  obtain ⟨before, hsource, rfl⟩ := h
  exact ⟨before ++ t, by rw [hsource, List.append_assoc], Text.byteSize_append before t⟩

theorem Stands.cons {c : Char} (h : Stands source pos (c :: cs)) :
    Stands source (pos + c.utf8Size) cs :=
  Stands.append (t := [c]) h

theorem Stands.between {t : Text} (h : Stands source pos (t ++ cs)) :
    between source pos (pos + Text.byteSize t) = pure t := by
  obtain ⟨before, hsource, rfl⟩ := h
  have hslice : Text.slice? source (Text.byteSize before)
      (Text.byteSize before + Text.byteSize t) = some t :=
    Text.slice?_eq_some_iff.mpr ⟨before, cs, by rw [hsource, List.append_assoc], rfl, rfl⟩
  rw [Expr.between, hslice]
  rfl

theorem Stands.behind (h : Stands source pos cs) : behind source pos = pure cs := by
  obtain ⟨before, rfl, rfl⟩ := h
  have hall : Stands (before ++ cs) (Text.byteSize before) (cs ++ []) := ⟨before, by simp, rfl⟩
  rw [Expr.behind, Text.byteSize_append]
  exact hall.between

theorem StandsNext.peekAt (h : StandsNext source pos cs) :
    ∃ next, peekAt source pos = pure ((Text.trimStart cs).head?, next) ∧
      Stands source next (Text.trimStart cs) := by
  obtain ⟨blanks, rest, hblanks, rfl, hrest⟩ := h
  have hsplit : rest.takeWhile Text.isBlank ++ Text.trimStart rest = rest :=
    List.takeWhile_append_dropWhile
  have hsize := congrArg Text.byteSize hsplit
  rw [Text.byteSize_append] at hsize
  have hnext : Stands source (pos + (Text.byteSize rest - Text.byteSize (Text.trimStart rest)))
      (Text.trimStart rest) := by
    rw [← hsize, Nat.add_sub_cancel]
    exact Stands.append (hsplit.symm ▸ hrest)
  rw [Text.trimStart_append_of_blank hblanks]
  refine ⟨_, ?_, hnext⟩
  simp only [Expr.peekAt, hrest.behind, hnext.behind, pure_bind]

/-! ## Readers that follow each other -/

/-- Results that correspond, or the same error. -/
inductive Follows {α β : Type} (Q : α → β → Prop) : Cursor α → Except ParseError β → Prop
  | ok {a : α} {b : β} (h : Q a b) : Follows Q (pure a) (.ok b)
  | error (e : ParseError) : Follows Q (throw e) (.error e)

theorem Follows.bind {α β α' β' : Type} {Q : α → β → Prop} {P : α' → β' → Prop} {x : Cursor α}
    {y : Except ParseError β} {f : α → Cursor α'} {g : β → Except ParseError β'}
    (h : Follows Q x y) (hf : ∀ a b, Q a b → y = .ok b → Follows P (f a) (g b)) :
    Follows P (x >>= f) (y >>= g) := by
  cases h with
  | ok h =>
    rw [pure_bind]
    exact hf _ _ h rfl
  | error e => exact .error e

variable (source) in
/-- The same result, and the offset at which the remaining text stands. -/
def Lands {α : Type} (p : α × Nat) (r : α × Text) : Prop :=
  p.1 = r.1 ∧ StandsNext source p.2 r.2

theorem Follows.bind_lands {α α' β' : Type} {P : α' → β' → Prop} {x : Cursor (α × Nat)}
    {y : Except ParseError (α × Text)} {f : α × Nat → Cursor α'}
    {g : α × Text → Except ParseError β'} (h : Follows (Lands source) x y)
    (hf : ∀ a pos rest, StandsNext source pos rest → y = .ok (a, rest) →
      Follows P (f (a, pos)) (g (a, rest))) : Follows P (x >>= f) (y >>= g) := by
  refine h.bind ?_
  rintro ⟨a, pos⟩ ⟨_, rest⟩ ⟨rfl, hrest⟩ hy
  exact hf a pos rest hrest hy

theorem Follows.run_eq {α : Type} {x : Cursor α} {y : Except ParseError α}
    (h : Follows (· = ·) x y) : x.run = some y := by
  cases h with
  | ok h => exact congrArg (some ∘ Except.ok) h
  | error e => rfl

theorem follows_unexpectedAt {α β : Type} {Q : α → β → Prop} (h : StandsNext source pos cs)
    (wanted : Wanted) :
    Follows Q (unexpectedAt source wanted pos) (.error (.expected wanted (Text.trimStart cs))) := by
  obtain ⟨next, hpeek, hnext⟩ := h.peekAt
  simp only [unexpectedAt, hpeek, pure_bind, hnext.behind]
  exact .error _

/-- A symbol is passed on both sides or on none. -/
theorem eatAt_cases (h : StandsNext source pos cs) (c : Char) :
    (∃ next rest, eatAt source c pos = pure (true, next) ∧ eat? c cs = some rest ∧
      StandsNext source next rest) ∨
    ∃ next, eatAt source c pos = pure (false, next) ∧ eat? c cs = none ∧
      StandsNext source next cs := by
  obtain ⟨next, hpeek, hnext⟩ := h.peekAt
  by_cases hc : (Text.trimStart cs).head? = some c
  · obtain ⟨rest, hcs⟩ := List.head?_eq_some_iff.mp hc
    rw [hcs] at hnext
    refine .inl ⟨next + c.utf8Size, rest, ?_, eat?_of_trimStart hcs, hnext.cons.next⟩
    simp only [eatAt, hpeek, pure_bind, if_pos hc]
  · refine .inr ⟨next, ?_, eat?_of_head?_ne hc, .of_trimStart hnext⟩
    simp only [eatAt, hpeek, pure_bind, if_neg hc]

theorem follows_expectAt (h : StandsNext source pos cs) (c : Char) :
    Follows (StandsNext source) (expectAt source c pos) (expect c cs) := by
  rcases eatAt_cases h c with ⟨next, rest, heatAt, heat, hrest⟩ | ⟨next, heatAt, heat, hnext⟩
  · simp only [expectAt, expect, heatAt, heat, pure_bind, if_true]
    exact .ok hrest
  · simp only [expectAt, expect, heatAt, heat, pure_bind, Bool.false_eq_true, if_false]
    exact follows_unexpectedAt hnext _

theorem follows_identAt (h : StandsNext source pos cs) (wanted : Wanted) :
    Follows (Lands source) (identAt source wanted pos) (readIdent wanted cs) := by
  obtain ⟨next, hpeek, hnext⟩ := h.peekAt
  have hnone := follows_unexpectedAt (Q := Lands (α := Text) source) hnext.next wanted
  rw [trimStart_trimStart] at hnone
  simp only [identAt, readIdent, hpeek, pure_bind, hnext.behind]
  generalize Text.trimStart cs = t at hnext hnone ⊢
  cases t with
  | nil => exact hnone
  | cons c rest =>
    simp only
    split
    · have hsplit : c :: rest = c :: rest.takeWhile isIdentChar ++ rest.dropWhile isIdentChar := by
        rw [List.cons_append, List.takeWhile_append_dropWhile]
      rw [hsplit] at hnext
      rw [hnext.between, pure_bind]
      exact .ok ⟨rfl, hnext.append.next⟩
    · exact hnone

theorem follows_stringAt {quote : Char} (hquote : quote.utf8Size = 1) {clock : Nat}
    (h : Stands source pos cs) (hclock : cs.length < clock) :
    Follows (Lands source) (stringAt source quote clock pos) (readString quote cs) := by
  induction clock generalizing pos cs with
  | zero => exact absurd hclock (Nat.not_lt_zero _)
  | succ clock ih =>
    rw [stringAt, h.behind, pure_bind]
    unfold readString
    cases cs with
    | nil => exact .error _
    | cons c cs =>
      rw [List.length_cons] at hclock
      simp only
      by_cases hescape : c = '\\'
      · obtain rfl := hescape
        have hd : Stands source (pos + 1) cs := h.cons
        rw [if_pos rfl, if_pos rfl, hd.behind, pure_bind]
        cases cs with
        | nil => exact .error _
        | cons d cs =>
          rw [List.length_cons] at hclock
          refine (ih hd.cons (by omega)).bind_lands ?_
          intro s stop rest hrest _
          exact .ok ⟨rfl, hrest⟩
      · rw [if_neg hescape, if_neg hescape]
        by_cases hc : c = quote
        · obtain rfl := hc
          rw [if_pos rfl, if_pos rfl]
          exact .ok ⟨rfl, hquote ▸ h.cons.next⟩
        · rw [if_neg hc, if_neg hc]
          refine (ih h.cons (by omega)).bind_lands ?_
          intro s stop rest hrest _
          exact .ok ⟨rfl, hrest⟩

theorem follows_numberAt {c : Char} (h : Stands source pos (c :: cs)) :
    Follows (Lands source) (numberAt source pos) (readNumber (c :: cs)) := by
  have hsplit : c :: cs = c :: cs.takeWhile isNumberPart ++ cs.dropWhile isNumberPart := by
    rw [List.cons_append, List.takeWhile_append_dropWhile]
  have hstands := hsplit ▸ h
  rw [numberAt, h.behind, readNumber_cons]
  simp only [pure_bind, hstands.between]
  cases numberOfText? (c :: cs.takeWhile isNumberPart) with
  | some n => exact .ok ⟨rfl, hstands.append.next⟩
  | none => exact .error _

theorem startsNumberAt_eq {c : Char} (h : Stands source pos (c :: cs)) :
    startsNumberAt source c pos = pure (startsNumber (c :: cs)) := by
  by_cases hminus : c = '-'
  · obtain rfl := hminus
    have hcs : Stands source (pos + 1) cs := h.cons
    rw [startsNumberAt, if_neg (by decide), if_pos rfl, hcs.behind, pure_bind]
    cases cs <;> rfl
  · have hstarts : startsNumber (c :: cs) = c.isDigit := by
      unfold startsNumber
      split
      · next heq => exact absurd (List.cons.inj heq).1 hminus
      · next heq => rw [(List.cons.inj heq).1]
      · next heq => cases heq
    rw [startsNumberAt, hstarts, if_neg hminus]
    cases c.isDigit <;> rfl

/-! ## Readers of expressions -/

/-- On texts of less than `limit` characters the reader by offsets follows the other one. -/
def Tracks (source : Text) (limit : Nat) (cursor : ExprCursor) (reader : ExprReader) : Prop :=
  ∀ pos cs, StandsNext source pos cs → cs.length < limit →
    Follows (Lands source) (cursor pos) (reader cs)

section

variable {limit clock : Nat} {cursor : ExprCursor} {unary : ExprReader}

theorem follows_argumentsAt (h : Tracks source limit cursor unary) (hsound : Sound unary .unary)
    {steps : Nat} (hcs : StandsNext source pos cs) (hlimit : cs.length < limit)
    (hclock : cs.length < clock) (hsteps : cs.length < steps) :
    Follows (Lands source) (argumentsAt source cursor clock pos)
      (readArguments unary steps cs) := by
  induction steps generalizing clock pos cs with
  | zero => exact absurd hsteps (Nat.not_lt_zero _)
  | succ steps ih =>
    obtain ⟨clock, rfl⟩ := Nat.exists_eq_succ_of_ne_zero (Nat.ne_of_gt (Nat.zero_lt_of_lt hclock))
    unfold argumentsAt readArguments
    refine (h _ _ hcs hlimit).bind_lands ?_
    intro e next rest hrest hread
    have hlength := (hsound _ _ _ hread).length_le
    rcases eatAt_cases hrest ')' with
      ⟨stop, close, heatAt, heat, hclose⟩ | ⟨stop, heatAt, heat, hstop⟩
    · simp only [heatAt, heat, pure_bind, if_true]
      exact .ok ⟨rfl, hclose⟩
    · simp only [heatAt, heat, pure_bind, Bool.false_eq_true, if_false]
      refine (follows_expectAt hstop ',').bind ?_
      intro inside inner hinner hcomma
      have hshort := ((expect_eq_ok_iff rfl).mp hcomma).length_lt
      refine (ih hinner (by omega) (by omega) (by omega)).bind_lands ?_
      intro es last rest' hrest' _
      exact .ok ⟨rfl, hrest'⟩

theorem follows_callAt (h : Tracks source limit cursor unary) (hsound : Sound unary .unary)
    (table : FunctionTable) (hcs : StandsNext source pos cs) (hlimit : cs.length ≤ limit)
    (hclock : cs.length ≤ clock) :
    Follows (Lands source) (callAt source cursor clock table pos) (readCall unary table cs) := by
  unfold callAt readCall
  refine (follows_expectAt hcs '.').bind ?_
  intro point inner hinner hpoint
  have hpointLength := ((expect_eq_ok_iff rfl).mp hpoint).length_lt
  refine (follows_identAt hinner _).bind_lands ?_
  intro function opening rest hrest hname
  have hnameLength := ((readIdent_eq_ok_iff _).mp hname).lexeme.length_le
  refine (follows_expectAt hrest '(').bind ?_
  intro inside arguments harguments hopen
  have hopenLength := ((expect_eq_ok_iff rfl).mp hopen).length_lt
  rcases eatAt_cases harguments ')' with
    ⟨stop, close, heatAt, heat, hclose⟩ | ⟨stop, heatAt, heat, hstop⟩
  · simp only [heatAt, heat, pure_bind, if_true]
    exact .ok ⟨rfl, hclose⟩
  · simp only [heatAt, heat, pure_bind, Bool.false_eq_true, if_false]
    have hlimit' : arguments.length < limit := by omega
    have hclock' : arguments.length < clock := by omega
    refine (follows_argumentsAt h hsound hstop hlimit' hclock' (Nat.lt_succ_self _)).bind_lands ?_
    intro es last rest' hrest' _
    exact .ok ⟨rfl, hrest'⟩

theorem follows_namedAt (h : Tracks source limit cursor unary) (hsound : Sound unary .unary)
    (ident : Text) (hcs : StandsNext source pos cs) (hlimit : cs.length ≤ limit)
    (hclock : cs.length ≤ clock) :
    Follows (Lands source) (namedAt source cursor clock ident pos) (readNamed unary ident cs) := by
  unfold namedAt readNamed
  iterate 4
    split
    · exact .ok ⟨rfl, hcs⟩
  split
  · exact follows_callAt h hsound _ hcs hlimit hclock
  split
  · exact follows_callAt h hsound _ hcs hlimit hclock
  cases Binding.ofName? ident with
  | some b => exact .ok ⟨rfl, hcs⟩
  | none => exact .ok ⟨rfl, hcs⟩

theorem follows_primaryAt (h : Tracks source limit cursor unary) (hsound : Sound unary .unary)
    (hcs : StandsNext source pos cs) (hlimit : cs.length ≤ limit) (hclock : cs.length ≤ clock) :
    Follows (Lands source) (primaryAt source cursor clock pos) (readPrimary unary cs) := by
  obtain ⟨next, hpeek, hnext⟩ := hcs.peekAt
  have hlength := Text.length_trimStart_le cs
  simp only [primaryAt, hpeek, pure_bind]
  unfold readPrimary
  generalize Text.trimStart cs = t at hnext hlength ⊢
  cases t with
  | nil => exact follows_unexpectedAt hnext.next _
  | cons c t =>
    rw [List.length_cons] at hlength
    simp only [List.head?_cons]
    by_cases hopen : c = '('
    · obtain rfl := hopen
      have ht : Stands source (next + 1) t := hnext.cons
      rw [if_pos rfl, if_pos rfl]
      refine (h _ _ ht.next (by omega)).bind_lands ?_
      intro e inside rest hrest _
      refine (follows_expectAt hrest ')').bind ?_
      intro stop rest' hrest' _
      exact .ok ⟨rfl, hrest'⟩
    rw [if_neg hopen, if_neg hopen]
    by_cases hquote : c = '\'' ∨ c = '"'
    · have hsize : c.utf8Size = 1 := by rcases hquote with rfl | rfl <;> rfl
      have ht : Stands source (next + 1) t := hsize ▸ hnext.cons
      rw [if_pos hquote, if_pos hquote]
      refine (follows_stringAt hsize ht (by omega)).bind_lands ?_
      intro s stop rest hrest _
      exact .ok ⟨rfl, hrest⟩
    rw [if_neg hquote, if_neg hquote, startsNumberAt_eq hnext, pure_bind]
    split
    · refine (follows_numberAt hnext).bind_lands ?_
      intro n stop rest hrest _
      exact .ok ⟨rfl, hrest⟩
    · refine (follows_identAt hnext.next _).bind_lands ?_
      intro ident stop rest hrest hname
      have hnameLength := ((readIdent_eq_ok_iff _).mp hname).lexeme.length_le
      rw [List.length_cons] at hnameLength
      have hrestLength : rest.length ≤ cs.length := by omega
      exact follows_namedAt h hsound _ hrest (Nat.le_trans hrestLength hlimit)
        (Nat.le_trans hrestLength hclock)

theorem follows_membersAt (h : Tracks source limit cursor unary) (hsound : Sound unary .unary)
    {steps : Nat} (base : Expr) (hcs : StandsNext source pos cs) (hlimit : cs.length ≤ limit)
    (hclock : cs.length < clock) (hsteps : cs.length < steps) :
    Follows (Lands source) (membersAt source cursor clock base pos)
      (readMembers unary steps base cs) := by
  induction steps generalizing clock base pos cs with
  | zero => exact absurd hsteps (Nat.not_lt_zero _)
  | succ steps ih =>
    obtain ⟨clock, rfl⟩ := Nat.exists_eq_succ_of_ne_zero (Nat.ne_of_gt (Nat.zero_lt_of_lt hclock))
    unfold membersAt readMembers
    rcases eatAt_cases hcs '.' with
      ⟨next, inside, heatAt, heat, hinside⟩ | ⟨next, heatAt, heat, hnext⟩
    · have hshort := ((eat?_eq_some_iff rfl).mp heat).length_lt
      simp only [heatAt, heat, pure_bind, if_true]
      refine (follows_identAt hinside _).bind_lands ?_
      intro property stop rest hrest hname
      have hnameLength := ((readIdent_eq_ok_iff _).mp hname).lexeme.length_le
      have hrestLength : rest.length < cs.length := Nat.lt_of_le_of_lt hnameLength hshort
      exact ih _ hrest (Nat.le_trans (Nat.le_of_lt hrestLength) hlimit)
        (Nat.lt_of_lt_of_le hrestLength (Nat.le_of_lt_succ hclock))
        (Nat.lt_of_lt_of_le hrestLength (Nat.le_of_lt_succ hsteps))
    simp only [heatAt, heat, pure_bind, Bool.false_eq_true, if_false]
    rcases eatAt_cases hnext '[' with
      ⟨open_, inside, hbracketAt, hbracket, hinside⟩ | ⟨stop, hbracketAt, hbracket, hstop⟩
    · have hshort := ((eat?_eq_some_iff rfl).mp hbracket).length_lt
      simp only [hbracketAt, hbracket, pure_bind, if_true]
      refine (h _ _ hinside (by omega)).bind_lands ?_
      intro key close rest hrest hread
      have hkeyLength := (hsound _ _ _ hread).length_le
      refine (follows_expectAt hrest ']').bind ?_
      intro after rest' hrest' hclose
      have hcloseLength := ((expect_eq_ok_iff rfl).mp hclose).length_lt
      exact ih _ hrest' (by omega) (by omega) (by omega)
    · simp only [hbracketAt, hbracket, pure_bind, Bool.false_eq_true, if_false]
      exact .ok ⟨rfl, hstop⟩

end

/-- With as many levels and ticks as the text has characters, and one more. -/
theorem tracks_unaryAt {limit clock depth : Nat} (hclock : limit ≤ clock) (hdepth : limit ≤ depth) :
    Tracks source limit (unaryAt source clock) (readUnary depth) := by
  induction limit generalizing clock depth with
  | zero => exact fun _ _ _ hlt => absurd hlt (Nat.not_lt_zero _)
  | succ limit ih =>
    obtain ⟨clock, rfl⟩ := Nat.exists_eq_succ_of_ne_zero (Nat.ne_of_gt (Nat.zero_lt_of_lt hclock))
    obtain ⟨depth, rfl⟩ := Nat.exists_eq_succ_of_ne_zero (Nat.ne_of_gt (Nat.zero_lt_of_lt hdepth))
    have hinner := ih (Nat.le_of_succ_le_succ hclock) (Nat.le_of_succ_le_succ hdepth)
    have hsound := sound_readUnary depth
    intro pos cs hcs hlt
    unfold unaryAt readUnary
    rcases eatAt_cases hcs '!' with
      ⟨next, inside, heatAt, heat, hinside⟩ | ⟨next, heatAt, heat, hnext⟩
    · have hshort := ((eat?_eq_some_iff rfl).mp heat).length_lt
      simp only [heatAt, heat, pure_bind, if_true]
      refine (hinner _ _ hinside (by omega)).bind_lands ?_
      intro e stop rest hrest _
      exact .ok ⟨rfl, hrest⟩
    · simp only [heatAt, heat, pure_bind, Bool.false_eq_true, if_false]
      refine (follows_primaryAt hinner hsound hnext (by omega) (by omega)).bind_lands ?_
      intro base stop rest hrest hread
      have hlength := (sound_readPrimary hsound _ _ _ hread).length_le
      have hrestLimit : rest.length ≤ limit := by omega
      have hrestClock : rest.length < clock + 1 := by omega
      exact follows_membersAt hinner hsound _ hrest hrestLimit hrestClock (Nat.lt_succ_self _)

theorem parseAt?_eq_parse {source : Text} {clock : Nat} (h : source.length < clock) :
    parseAt? source clock = some (parse source) := by
  have hstart : Stands source 0 source := ⟨[], rfl, rfl⟩
  apply Follows.run_eq
  unfold parse
  refine (tracks_unaryAt h (Nat.le_refl _) _ _ hstart.next (Nat.lt_succ_self _)).bind_lands ?_
  intro e stop rest hrest _
  obtain ⟨last, hpeek, hlast⟩ := hrest.peekAt
  have hfail := follows_unexpectedAt (Q := (· = · : Expr → Expr → Prop)) hlast.next
    .endOfExpression
  rw [trimStart_trimStart] at hfail
  simp only [hpeek, pure_bind]
  generalize Text.trimStart rest = t at hfail ⊢
  cases t with
  | nil => exact .ok rfl
  | cons c t => exact hfail

/-- Parsing is exact. A source is parsed as an expression exactly if it is derived from the grammar,
so it is derived for one expression at most. Read by offsets it is parsed as the same or refused
with the same error: every offset lies between two characters or at an end of the source, and a
clock with one tick more than the source has characters does not run down. -/
theorem parse_exact (source : Text) :
    (∀ e, parse source = .ok e ↔ IsDerived source e) ∧
    (∀ e e', IsDerived source e → IsDerived source e' → e = e') ∧
    ∀ clock, source.length < clock → parseAt? source clock = some (parse source) := by
  refine ⟨fun e => parse_eq_ok_iff, fun e e' he he' => ?_, fun clock => parseAt?_eq_parse⟩
  rw [← parse_eq_ok_iff] at he he'
  exact Except.ok.inj (he.symm.trans he')

end Expr

end HtmlTemplate
