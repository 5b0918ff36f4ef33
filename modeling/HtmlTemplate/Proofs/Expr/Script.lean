import HtmlTemplate.Proofs.Expr.Shape

/-!
Scripts of expressions, read again. A script has no parentheses but those of calls, so it is read
as the expression it was printed from if that needs none (`recovers_readUnary`). Whatever a script
is read as needs none either (`settles_readUnary`), so for all other expressions it is read as a
different expression, or not at all.
-/

namespace HtmlTemplate

namespace Expr

/-! ## Scripts -/

theorem script_member (base : Expr) (property : Text) :
    (member base property).script = base.script ++ '.' :: property :=
  List.append_assoc base.script ['.'] property

theorem script_index (base key : Expr) :
    (index base key).script = base.script ++ '[' :: (key.script ++ [']']) := by
  have hscript : (index base key).script = base.script ++ "[" ++ key.script ++ "]" := rfl
  rw [hscript, List.append_assoc, List.append_assoc]
  rfl

theorem script_not (operand : Expr) : (not operand).script = '!' :: operand.script := rfl

theorem script_call (table : FunctionTable) (function : Text) (arguments : List Expr) :
    (call table function arguments).script =
      table.name ++ '.' :: (function ++ '(' :: (Text.join ", " (scripts arguments) ++ [')'])) := by
  have hscript : (call table function arguments).script =
      table.name ++ "." ++ function ++ "(" ++ Text.join ", " (scripts arguments) ++ ")" := rfl
  rw [hscript]
  simp only [List.append_assoc]
  rfl

theorem scripts_cons (e : Expr) (es : List Expr) : scripts (e :: es) = e.script :: scripts es := rfl

/-! ## Parentheses -/

/-- The script of a literal is read as that literal: no float, and characters that can be read. -/
def keepsLiteral : Expr → Bool
  | literal (.number (.float _)) => false
  | literal (.string s) => s.all isPrintable
  | _ => true

def isNegation : Expr → Bool
  | not _ => true
  | _ => false

def isNumber : Expr → Bool
  | literal (.number _) => true
  | _ => false

/-- The operand needs no parentheses. A negation reaches over the members that follow it, and a
point after a number belongs to the number. -/
def isUngrouped : Expr → Bool
  | member base _ => !base.isNegation && !base.isNumber
  | index base _ => !base.isNegation
  | _ => true

/-- Names, integers and literals are what can be read and printed. -/
def isWritable (e : Expr) : Bool := isReadable e && keepsLiteral e

/-- The text ends an expression: it is empty, or a closing bracket or a comma comes next. -/
def Ends (t : Text) : Prop := ∀ c ∈ t.head?, c ∈ [')', ']', ',']

theorem ends_nil : Ends [] := nofun

theorem Ends.delimited {t : Text} (h : Ends t) : Delimited t := by
  have hall : ∀ c ∈ [')', ']', ','], c ∈ delimiters :=
    List.forall_iff_forall_mem.mp (by decide)
  exact fun c hc => hall c (h c hc)

theorem Ends.head?_ne {t : Text} (h : Ends t) {c : Char} (hc : c ∉ [')', ']', ',']) :
    t.head? ≠ some c :=
  fun heq => hc (h c heq)

theorem delimited_cons {c : Char} (h : c ∈ delimiters) (cs : Text) : Delimited (c :: cs) := by
  intro d hd
  obtain rfl := Option.some.inj hd
  exact h

/-- The expression without the negation with which its script starts, if it does. -/
def unnegate : Expr → Option Expr
  | not operand => some operand
  | member base property => base.unnegate.map (member · property)
  | index base key => base.unnegate.map (index · key)
  | literal _ | undefined | binding _ | call _ _ _ => none

theorem script_of_unnegate : (e : Expr) → {x : Expr} → e.unnegate = some x →
    e.script = '!' :: x.script
  | not operand, x, h => by
    rw [script_not, Option.some.inj h]
  | member base property, x, h => by
    obtain ⟨y, hy, rfl⟩ := Option.map_eq_some_iff.mp h
    rw [script_member, script_member, script_of_unnegate base hy]
    rfl
  | index base key, x, h => by
    obtain ⟨y, hy, rfl⟩ := Option.map_eq_some_iff.mp h
    rw [script_index, script_index, script_of_unnegate base hy]
    rfl

theorem all_of_unnegate : (e : Expr) → {x : Expr} → e.unnegate = some x →
    e.all isWritable = true → x.all isWritable = true
  | not operand, x, h, he => by
    obtain rfl := Option.some.inj h
    simpa [all, isWritable, isReadable, keepsLiteral] using he
  | member base property, x, h, he => by
    obtain ⟨y, hy, rfl⟩ := Option.map_eq_some_iff.mp h
    rw [all, Bool.and_eq_true] at he ⊢
    exact ⟨he.1, all_of_unnegate base hy he.2⟩
  | index base key, x, h, he => by
    obtain ⟨y, hy, rfl⟩ := Option.map_eq_some_iff.mp h
    rw [all, Bool.and_eq_true, Bool.and_eq_true] at he ⊢
    exact ⟨⟨he.1.1, all_of_unnegate base hy he.1.2⟩, he.2⟩

/-- Without parentheses only a negation starts with one. -/
theorem eq_not_of_unnegate : (e : Expr) → {x : Expr} → e.unnegate = some x →
    e.all isUngrouped = true → e = not x
  | not operand, x, h, _ => congrArg not (Option.some.inj h)
  | member base property, x, h, he => by
    obtain ⟨y, hy, rfl⟩ := Option.map_eq_some_iff.mp h
    rw [all, Bool.and_eq_true] at he
    rw [eq_not_of_unnegate base hy he.2] at he
    simp [isUngrouped, isNegation] at he
  | index base key, x, h, he => by
    obtain ⟨y, hy, rfl⟩ := Option.map_eq_some_iff.mp h
    rw [all, Bool.and_eq_true, Bool.and_eq_true] at he
    rw [eq_not_of_unnegate base hy he.1.2] at he
    simp [isUngrouped, isNegation] at he

/-- A script starts with a character that is neither blank nor a delimiter. -/
theorem exists_script_eq_cons : (e : Expr) → e.all isWritable = true →
    ∃ c cs, e.script = c :: cs ∧ Text.isBlank c = false ∧ c ∉ delimiters ∧
      (e.unnegate = none → c ≠ '!')
  | literal .null, _ => ⟨'n', "ull", rfl, by decide, by decide, fun _ => by decide⟩
  | literal (.bool b), _ => by
    cases b <;> exact ⟨_, _, rfl, by decide, by decide, fun _ => by decide⟩
  | literal (.string s), _ => ⟨'"', _, rfl, by decide, by decide, fun _ => by decide⟩
  | literal (.number (.float x)), he => nomatch he
  | literal (.number (.int i)), _ => by
    obtain ⟨d, ds, -, hdigit, ⟨-, htext⟩ | ⟨-, htext⟩⟩ := intText_cases i
    · exact ⟨'-', d :: ds, htext, by decide, by decide, fun _ => by decide⟩
    · have hd := hdigit d List.mem_cons_self
      have hall : ∀ c ∈ delimiters, c.isDigit = false :=
        List.forall_iff_forall_mem.mp (by decide)
      exact ⟨d, ds, htext, not_isBlank_of_isDigit hd,
        fun hmem => ne_of_isDigit hd (hall d hmem) rfl, fun _ => ne_of_isDigit hd rfl⟩
  | undefined, _ => ⟨'u', "ndefined", rfl, by decide, by decide, fun _ => by decide⟩
  | binding b, _ => by
    cases b <;> exact ⟨_, _, rfl, by decide, by decide, fun _ => by decide⟩
  | member base property, he => by
    rw [all, Bool.and_eq_true] at he
    obtain ⟨c, cs, hscript, hblank, hdelimiter, hnot⟩ := exists_script_eq_cons base he.2
    refine ⟨c, cs ++ '.' :: property, ?_, hblank, hdelimiter,
      fun h => hnot (Option.map_eq_none_iff.mp h)⟩
    rw [script_member, hscript, List.cons_append]
  | index base key, he => by
    rw [all, Bool.and_eq_true, Bool.and_eq_true] at he
    obtain ⟨c, cs, hscript, hblank, hdelimiter, hnot⟩ := exists_script_eq_cons base he.1.2
    refine ⟨c, cs ++ '[' :: (key.script ++ [']']), ?_, hblank, hdelimiter,
      fun h => hnot (Option.map_eq_none_iff.mp h)⟩
    rw [script_index, hscript, List.cons_append]
  | not operand, _ => ⟨'!', operand.script, script_not operand, by decide, by decide, nofun⟩
  | call table function arguments, _ => by
    rw [script_call]
    cases table <;> exact ⟨_, _, rfl, by decide, by decide, fun _ => by decide⟩

theorem trimStart_script {e : Expr} (h : e.all isWritable = true) (rest : Text) :
    Text.trimStart (e.script ++ rest) = e.script ++ rest := by
  obtain ⟨c, cs, hscript, hblank, -⟩ := exists_script_eq_cons e h
  rw [hscript, List.cons_append, Text.trimStart_cons hblank]

/-! ## Reading primaries -/

section Primaries

variable {unary : ExprReader} {cs tail : Text}

/-- Where no parenthesis and no quote comes next a primary is a number or starts with a name. -/
theorem readPrimary_cons {c : Char} {t : Text} (hc : c ∉ ['(', '\'', '"'])
    (hcs : Text.trimStart cs = c :: t) : readPrimary unary cs =
      if startsNumber (c :: t) then (do
        let (n, rest) ← readNumber (c :: t)
        .ok (.literal (.number n), rest))
      else (do
        let (ident, rest) ← readIdent .expression (c :: t)
        readNamed unary ident rest) := by
  simp only [List.mem_cons, List.not_mem_nil, or_false, not_or] at hc
  have hquote : ¬(c = '\'' ∨ c = '"') := fun h => h.elim hc.2.1 hc.2.2
  unfold readPrimary
  simp only [hcs, if_neg hc.1, if_neg hquote]

theorem readPrimary_of_isIdent {ident : Text} (h : isIdent ident = true) (htail : Delimited tail)
    (hcs : Text.trimStart cs = ident ++ tail) :
    readPrimary unary cs = readNamed unary ident tail := by
  cases ident with
  | nil => simp [isIdent] at h
  | cons c ident =>
    have hstart : isIdentStart c = true := (Bool.and_eq_true _ _ ▸ h : _ ∧ _).1
    have hall : ∀ d ∈ ['(', '\'', '"'], isIdentStart d = false :=
      List.forall_iff_forall_mem.mp (by decide)
    have hc : c ∉ ['(', '\'', '"'] := fun hmem => by simp [hall c hmem] at hstart
    have hread := readIdent_append .expression h htail
    rw [List.cons_append] at hcs hread
    rw [readPrimary_cons hc hcs, not_startsNumber_of_isIdentStart hstart, hread]
    rfl

theorem readPrimary_of_intText {i : Int} (hcs : Text.trimStart cs = Number.intText i ++ tail) :
    readPrimary unary cs = (do
      let (n, rest) ← readNumber (Number.intText i ++ tail)
      .ok (.literal (.number n), rest)) := by
  have hnumber := startsNumber_intText i tail
  obtain ⟨c, t, htext, hcases⟩ :
      ∃ c t, Number.intText i = c :: t ∧ (c = '-' ∨ c.isDigit = true) := by
    obtain ⟨d, ds, -, hdigit, ⟨-, htext⟩ | ⟨-, htext⟩⟩ := intText_cases i
    · exact ⟨'-', d :: ds, htext, .inl rfl⟩
    · exact ⟨d, ds, htext, .inr (hdigit d List.mem_cons_self)⟩
  have hall : ∀ d ∈ ['(', '\'', '"'], ¬(d = '-' ∨ d.isDigit = true) :=
    List.forall_iff_forall_mem.mp (by decide)
  rw [htext, List.cons_append] at hcs hnumber ⊢
  rw [readPrimary_cons (fun hmem => hall c hmem hcases) hcs, hnumber]
  rfl

theorem readPrimary_of_quoted {s : Text} (h : s.all isPrintable = true)
    (hcs : Text.trimStart cs = Json.quoted s ++ tail) :
    readPrimary unary cs = .ok (.literal (.string s), tail) := by
  have hquoted : Json.quoted s ++ tail = '"' :: (s.flatMap Json.escapeChar ++ '"' :: tail) := by
    simp [Json.quoted]
  rw [hquoted] at hcs
  unfold readPrimary
  simp only [hcs, readString_quoted h]
  rfl

theorem readCall_append {table : FunctionTable} {function inside : Text}
    (h : isIdent function = true) : readCall unary table ('.' :: (function ++ '(' :: inside)) =
      match eat? ')' inside with
      | some rest => .ok (.call table function [], rest)
      | none => (do
        let (arguments, rest) ← readArguments unary (inside.length + 1) inside
        .ok (.call table function arguments, rest)) := by
  have hpoint : expect '.' ('.' :: (function ++ '(' :: inside)) = .ok (function ++ '(' :: inside) :=
    expect_of_trimStart (Text.trimStart_cons rfl _)
  have hident :
      readIdent .functionName (function ++ '(' :: inside) = .ok (function, '(' :: inside) :=
    readIdent_append .functionName h (delimited_cons (by decide) inside)
  have hopen : expect '(' ('(' :: inside) = .ok inside :=
    expect_of_trimStart (Text.trimStart_cons rfl inside)
  cases heat : eat? ')' inside with
  | some rest => simp only [readCall, bind, Except.bind, hpoint, hident, hopen, heat]
  | none => simp only [readCall, bind, Except.bind, hpoint, hident, hopen, heat]

theorem readPrimary_of_call {table : FunctionTable} {function : Text} {arguments : List Expr}
    (hcs : Text.trimStart cs = (call table function arguments).script ++ tail) :
    readPrimary unary cs = readCall unary table
      ('.' :: (function ++ '(' :: (Text.join ", " (scripts arguments) ++ ')' :: tail))) := by
  have htable : isIdent table.name = true := by cases table <;> rfl
  have hscript : (call table function arguments).script ++ tail = table.name ++
      '.' :: (function ++ '(' :: (Text.join ", " (scripts arguments) ++ ')' :: tail)) := by
    rw [script_call]
    simp
  have hnamed : ∀ rest, readNamed unary table.name rest = readCall unary table rest := by
    cases table <;> exact fun rest => rfl
  rw [hscript] at hcs
  rw [readPrimary_of_isIdent htable (delimited_cons (by decide) _) hcs, hnamed]

/-- An expression without parts is read as a primary. A point may not follow a number. -/
theorem readPrimary_of_leaf {e : Expr} (h : e.all isWritable = true)
    (hleaf : (∃ l, e = literal l) ∨ e = undefined ∨ ∃ b, e = binding b) (htail : Delimited tail)
    (hnumber : e.isNumber = true → tail.head? ≠ some '.')
    (hcs : Text.trimStart cs = e.script ++ tail) : readPrimary unary cs = .ok (e, tail) := by
  have hword (word : Text) (hword : isIdent word = true) (hscript : e.script = word) :
      readPrimary unary cs = readNamed unary word tail :=
    readPrimary_of_isIdent hword htail (hscript ▸ hcs)
  rcases hleaf with ⟨l, rfl⟩ | rfl | ⟨b, rfl⟩
  · cases l with
    | null => exact hword "null" rfl rfl
    | bool b => cases b with
      | false => exact hword "false" rfl rfl
      | true => exact hword "true" rfl rfl
    | string s =>
      have hs : s.all isPrintable = true := by
        simpa [all, isWritable, isReadable, keepsLiteral] using h
      exact readPrimary_of_quoted hs hcs
    | number n =>
      cases n with
      | float x => cases h
      | int i =>
        have hi : isInt64 i = true := by simpa [all, isWritable, isReadable, keepsLiteral] using h
        rw [readPrimary_of_intText hcs, readNumber_intText hi htail (hnumber rfl)]
        rfl
  · exact hword "undefined" rfl rfl
  · cases b with
    | data => exact hword "data" rfl rfl
    | parent => exact hword "parent" rfl rfl
    | root => exact hword "root" rfl rfl
    | key => exact hword "key" rfl rfl
    | length => exact hword "length" rfl rfl

end Primaries

/-! ## Reading members -/

section Members

variable {unary : ExprReader} {tail : Text}

theorem readMembers_member {property : Text} (h : isIdent property = true) (htail : Delimited tail)
    (steps : Nat) (base : Expr) :
    readMembers unary (steps + 1) base ('.' :: (property ++ tail)) =
      readMembers unary steps (.member base property) tail := by
  have heat : eat? '.' ('.' :: (property ++ tail)) = some (property ++ tail) :=
    eat?_of_trimStart (Text.trimStart_cons rfl _)
  conv => lhs; unfold readMembers
  simp only [heat, readIdent_append .propertyName h htail]
  rfl

theorem readMembers_index {inside : Text} (steps : Nat) (base : Expr) :
    readMembers unary (steps + 1) base ('[' :: inside) = (do
      let (key, rest) ← unary inside
      let rest ← expect ']' rest
      readMembers unary steps (.index base key) rest) := by
  have hpoint : eat? '.' ('[' :: inside) = none :=
    eat?_of_head?_ne (by rw [Text.trimStart_cons rfl]; simp)
  have heat : eat? '[' ('[' :: inside) = some inside :=
    eat?_of_trimStart (Text.trimStart_cons rfl _)
  conv => lhs; unfold readMembers
  simp only [hpoint, heat]

/-- Where neither a point nor a bracket comes next there are no more members. -/
theorem readMembers_stop {cs : Text} (h : ∀ c ∈ (Text.trimStart cs).head?, c ≠ '.' ∧ c ≠ '[')
    (steps : Nat) (base : Expr) : readMembers unary steps base cs = .ok (base, cs) := by
  cases steps with
  | zero => rfl
  | succ steps =>
    have hpoint : eat? '.' cs = none := eat?_of_head?_ne fun heq => (h '.' heq).1 rfl
    have hbracket : eat? '[' cs = none := eat?_of_head?_ne fun heq => (h '[' heq).2 rfl
    unfold readMembers
    simp only [hpoint, hbracket]

theorem readMembers_of_ends (h : Ends tail) (steps : Nat) (base : Expr) :
    readMembers unary steps base tail = .ok (base, tail) := by
  refine readMembers_stop (fun c hc => ?_) steps base
  rw [trimStart_of_delimited h.delimited] at hc
  have hall : ∀ c ∈ [')', ']', ','], c ≠ '.' ∧ c ≠ '[' :=
    List.forall_iff_forall_mem.mp (by decide)
  exact hall c (h c hc)

end Members

/-! ## Reading what needs no parentheses -/

/-- The reader gives back every expression without parentheses whose script has at most `limit`
characters, and stops at the end of the script. -/
def Recovers (limit : Nat) (reader : ExprReader) : Prop :=
  ∀ e : Expr, e.all isWritable = true → e.all isUngrouped = true → e.script.length ≤ limit →
    ∀ cs rest, Ends rest → Text.trimStart cs = e.script ++ rest → reader cs = .ok (e, rest)

variable {limit : Nat} {unary : ExprReader}

theorem join_scripts_cons (e e' : Expr) (es : List Expr) :
    Text.join ", " (scripts (e :: e' :: es)) =
      e.script ++ ',' :: ' ' :: Text.join ", " (scripts (e' :: es)) := by
  simp [scripts_cons, Text.join, List.intercalate]

theorem join_scripts_single (e : Expr) : Text.join ", " (scripts [e]) = e.script := by
  have hscripts : scripts [e] = [e.script] := rfl
  simp [hscripts, Text.join, List.intercalate]

theorem exists_join_scripts_eq_cons {e : Expr} (h : e.all isWritable = true) (es : List Expr) :
    ∃ c cs, Text.join ", " (scripts (e :: es)) = c :: cs ∧ Text.isBlank c = false ∧
      c ∉ delimiters := by
  obtain ⟨c, cs, hscript, hblank, hdelimiter, -⟩ := exists_script_eq_cons e h
  cases es with
  | nil => exact ⟨c, cs, by rw [join_scripts_single, hscript], hblank, hdelimiter⟩
  | cons e' es =>
    exact ⟨c, _, by rw [join_scripts_cons, hscript, List.cons_append], hblank, hdelimiter⟩

theorem trimStart_join_scripts {e : Expr} (h : e.all isWritable = true) (es : List Expr)
    (tail : Text) : Text.trimStart (Text.join ", " (scripts (e :: es)) ++ tail) =
      Text.join ", " (scripts (e :: es)) ++ tail := by
  obtain ⟨c, cs, hjoin, hblank, -⟩ := exists_join_scripts_eq_cons h es
  rw [hjoin, List.cons_append, Text.trimStart_cons hblank]

/-- Arguments do not start as the end of a call does. -/
theorem eat?_join_scripts {e : Expr} (h : e.all isWritable = true) (es : List Expr) (tail : Text) :
    eat? ')' (Text.join ", " (scripts (e :: es)) ++ tail) = none := by
  obtain ⟨c, cs, hjoin, -, hdelimiter⟩ := exists_join_scripts_eq_cons h es
  refine eat?_of_head?_ne ?_
  rw [trimStart_join_scripts h, hjoin, List.cons_append, List.head?_cons]
  intro heq
  obtain rfl := Option.some.inj heq
  exact hdelimiter (by decide)

theorem ends_cons {c : Char} (h : c ∈ [')', ']', ',']) (cs : Text) : Ends (c :: cs) := by
  intro d hd
  obtain rfl := Option.some.inj hd
  exact h

theorem readPrimary_of_call_nil {table : FunctionTable} {function : Text}
    (h : isIdent function = true) {cs tail : Text}
    (hcs : Text.trimStart cs = (call table function []).script ++ tail) :
    readPrimary unary cs = .ok (call table function [], tail) := by
  have heat : eat? ')' (Text.join ", " (scripts []) ++ ')' :: tail) = some tail :=
    eat?_of_trimStart (Text.trimStart_cons rfl tail)
  rw [readPrimary_of_call hcs, readCall_append h, heat]

theorem readPrimary_of_call_cons {table : FunctionTable} {function : Text}
    (h : isIdent function = true) {e : Expr} (he : e.all isWritable = true) {es : List Expr}
    {cs tail : Text} (hcs : Text.trimStart cs = (call table function (e :: es)).script ++ tail)
    {inside : Text} (hinside : inside = Text.join ", " (scripts (e :: es)) ++ ')' :: tail) :
    readPrimary unary cs = (do
      let (arguments, rest) ← readArguments unary (inside.length + 1) inside
      .ok (.call table function arguments, rest)) := by
  rw [readPrimary_of_call hcs, readCall_append h, hinside, eat?_join_scripts he]

theorem readArguments_of_recovers (h : Recovers limit unary) {e : Expr} {es : List Expr}
    (hwritable : allOf isWritable (e :: es) = true)
    (hungrouped : allOf isUngrouped (e :: es) = true)
    {steps : Nat} (hlength : (Text.join ", " (scripts (e :: es))).length ≤ limit)
    (hsteps : (Text.join ", " (scripts (e :: es))).length < steps) {cs tail : Text}
    (hcs : Text.trimStart cs = Text.join ", " (scripts (e :: es)) ++ ')' :: tail) :
    readArguments unary steps cs = .ok (e :: es, tail) := by
  induction es generalizing e steps cs with
  | nil =>
    rw [join_scripts_single] at hlength hsteps hcs
    obtain ⟨steps, rfl⟩ := Nat.exists_eq_succ_of_ne_zero (Nat.ne_zero_of_lt hsteps)
    obtain ⟨he, -⟩ := (Bool.and_eq_true _ _).mp hwritable
    obtain ⟨he', -⟩ := (Bool.and_eq_true _ _).mp hungrouped
    have hread := h e he he' hlength cs (')' :: tail) (ends_cons (by decide) tail) hcs
    have heat : eat? ')' (')' :: tail) = some tail :=
      eat?_of_trimStart (Text.trimStart_cons rfl tail)
    unfold readArguments
    simp only [hread, bind, Except.bind, heat]
  | cons e' es ih =>
    rw [join_scripts_cons] at hlength hsteps hcs
    simp only [List.length_append, List.length_cons] at hlength hsteps
    obtain ⟨steps, rfl⟩ := Nat.exists_eq_succ_of_ne_zero (Nat.ne_zero_of_lt hsteps)
    obtain ⟨he, hes⟩ := (Bool.and_eq_true _ _).mp hwritable
    obtain ⟨he', hes'⟩ := (Bool.and_eq_true _ _).mp hungrouped
    have hrest := trimStart_join_scripts ((Bool.and_eq_true _ _).mp hes).1 es (')' :: tail)
    generalize hinside : Text.join ", " (scripts (e' :: es)) ++ ')' :: tail = inside at hrest
    rw [List.append_assoc, List.cons_append, List.cons_append, hinside] at hcs
    have hread := h e he he' (by omega) cs (',' :: ' ' :: inside) (ends_cons (by decide) _) hcs
    have heat : eat? ')' (',' :: ' ' :: inside) = none :=
      eat?_of_head?_ne (by rw [Text.trimStart_cons rfl]; simp)
    have hcomma : expect ',' (',' :: ' ' :: inside) = .ok (' ' :: inside) :=
      expect_of_trimStart (Text.trimStart_cons rfl _)
    have hnext : readArguments unary steps (' ' :: inside) = .ok (e' :: es, tail) :=
      ih hes hes' (by omega) (by omega) (by rw [hinside]; exact hrest)
    unfold readArguments
    simp only [hread, bind, Except.bind, heat, hcomma, hnext]

theorem readPrimary_of_recovers_call (h : Recovers limit unary) {table : FunctionTable}
    {function : Text} {arguments : List Expr}
    (hwritable : (call table function arguments).all isWritable = true)
    (hungrouped : (call table function arguments).all isUngrouped = true)
    (hlength : (call table function arguments).script.length ≤ limit + 1) {cs tail : Text}
    (hcs : Text.trimStart cs = (call table function arguments).script ++ tail) :
    readPrimary unary cs = .ok (call table function arguments, tail) := by
  obtain ⟨hnode, harguments⟩ := (Bool.and_eq_true _ _).mp hwritable
  obtain ⟨-, harguments'⟩ := (Bool.and_eq_true _ _).mp hungrouped
  have hfunction : isIdent function = true := ((Bool.and_eq_true _ _).mp hnode).1
  rw [script_call] at hlength
  simp only [List.length_append, List.length_cons, List.length_nil] at hlength
  cases arguments with
  | nil => exact readPrimary_of_call_nil hfunction hcs
  | cons e es =>
    have he := ((Bool.and_eq_true _ _).mp harguments).1
    have htrim := trimStart_join_scripts he es (')' :: tail)
    rw [readPrimary_of_call_cons hfunction he hcs rfl, readArguments_of_recovers h harguments
      harguments' (by omega) (by rw [List.length_append]; omega) htrim]
    rfl

/-- Reading the script of an expression that is no negation in front of `tail` comes, after its
primary and some of its members, to the expression with `tail` left. -/
theorem exists_readMembers_of_recovers (h : Recovers limit unary) : (e : Expr) →
    e.all isWritable = true → e.all isUngrouped = true → e.isNegation = false →
    e.script.length ≤ limit + 1 → ∀ cs tail, Delimited tail →
    (e.isNumber = true → tail.head? ≠ some '.') → Text.trimStart cs = e.script ++ tail →
    ∃ base rest k, readPrimary unary cs = .ok (base, rest) ∧ k + tail.length ≤ rest.length ∧
      ∀ steps, readMembers unary (k + steps) base rest = readMembers unary steps e tail
  | literal l, hwritable, _, _, _, cs, tail, htail, hnumber, hcs =>
    ⟨literal l, tail, 0, readPrimary_of_leaf hwritable (.inl ⟨l, rfl⟩) htail hnumber hcs, by omega,
      fun steps => by rw [Nat.zero_add]⟩
  | undefined, hwritable, _, _, _, cs, tail, htail, hnumber, hcs =>
    ⟨undefined, tail, 0, readPrimary_of_leaf hwritable (.inr (.inl rfl)) htail hnumber hcs,
      by omega, fun steps => by rw [Nat.zero_add]⟩
  | binding b, hwritable, _, _, _, cs, tail, htail, hnumber, hcs =>
    ⟨binding b, tail, 0, readPrimary_of_leaf hwritable (.inr (.inr ⟨b, rfl⟩)) htail hnumber hcs,
      by omega, fun steps => by rw [Nat.zero_add]⟩
  | call table function arguments, hwritable, hungrouped, _, hlength, cs, tail, _, _, hcs =>
    ⟨call table function arguments, tail, 0,
      readPrimary_of_recovers_call h hwritable hungrouped hlength hcs, by omega,
      fun steps => by rw [Nat.zero_add]⟩
  | member base property, hwritable, hungrouped, _, hlength, cs, tail, htail, _, hcs => by
    rw [all, Bool.and_eq_true] at hwritable hungrouped
    have hproperty : isIdent property = true := ((Bool.and_eq_true _ _).mp hwritable.1).1
    obtain ⟨hnegation, hnumber⟩ := by
      simpa [isUngrouped] using hungrouped.1
    rw [script_member] at hlength hcs
    rw [List.length_append] at hlength
    rw [List.append_assoc, List.cons_append] at hcs
    obtain ⟨base', rest, k, hprimary, hk, hmembers⟩ := exists_readMembers_of_recovers h base
      hwritable.2 hungrouped.2 hnegation (by omega) cs ('.' :: (property ++ tail))
      (delimited_cons (by decide) _) (fun hbase => by simp [hnumber] at hbase) hcs
    refine ⟨base', rest, k + 1, hprimary, ?_, fun steps => ?_⟩
    · simp only [List.length_cons, List.length_append] at hk
      omega
    · rw [Nat.add_assoc, Nat.add_comm 1, hmembers, readMembers_member hproperty htail]
  | index base key, hwritable, hungrouped, _, hlength, cs, tail, htail, _, hcs => by
    rw [all, Bool.and_eq_true, Bool.and_eq_true] at hwritable hungrouped
    have hnegation : base.isNegation = false := by simpa [isUngrouped] using hungrouped.1.1
    rw [script_index] at hlength hcs
    simp only [List.length_append, List.length_cons, List.length_nil] at hlength
    rw [List.append_assoc, List.cons_append, List.append_assoc, List.singleton_append] at hcs
    obtain ⟨base', rest, k, hprimary, hk, hmembers⟩ := exists_readMembers_of_recovers h base
      hwritable.1.2 hungrouped.1.2 hnegation (by omega) cs ('[' :: (key.script ++ ']' :: tail))
      (delimited_cons (by decide) _) (fun _ => by simp) hcs
    have hkey := h key hwritable.2 hungrouped.2 (by omega) _ (']' :: tail)
      (ends_cons (by decide) tail) (trimStart_script hwritable.2 (']' :: tail))
    have hclose : expect ']' (']' :: tail) = .ok tail :=
      expect_of_trimStart (Text.trimStart_cons rfl tail)
    refine ⟨base', rest, k + 1, hprimary, ?_, fun steps => ?_⟩
    · simp only [List.length_cons, List.length_append] at hk
      omega
    · rw [Nat.add_assoc, Nat.add_comm 1, hmembers, readMembers_index, hkey]
      simp only [bind, Except.bind, hclose]

theorem eat?_not_of_unnegate {e : Expr} (h : e.all isWritable = true) (hnone : e.unnegate = none)
    {cs rest : Text} (hcs : Text.trimStart cs = e.script ++ rest) : eat? '!' cs = none := by
  obtain ⟨c, t, hscript, -, -, hnot⟩ := exists_script_eq_cons e h
  refine eat?_of_head?_ne ?_
  rw [hcs, hscript, List.cons_append, List.head?_cons]
  exact fun heq => hnot hnone (Option.some.inj heq)

theorem recovers_readUnary (depth : Nat) : Recovers depth (readUnary depth) := by
  induction depth with
  | zero =>
    intro e hwritable _ hlength
    obtain ⟨c, t, hscript, -⟩ := exists_script_eq_cons e hwritable
    simp [hscript] at hlength
  | succ depth ih =>
    intro e hwritable hungrouped hlength cs rest hrest hcs
    unfold readUnary
    cases hnegation : e.unnegate with
    | some x =>
      obtain rfl := eq_not_of_unnegate e hnegation hungrouped
      have hx : x.all isWritable = true := all_of_unnegate (not x) rfl hwritable
      have hx' : x.all isUngrouped = true := by simpa [all, isUngrouped] using hungrouped
      rw [script_not] at hlength hcs
      have heat : eat? '!' cs = some (x.script ++ rest) := eat?_of_trimStart hcs
      have hread := ih x hx hx' (by simpa using hlength) _ rest hrest (trimStart_script hx rest)
      simp only [heat, hread, bind, Except.bind]
    | none =>
      have hnot : e.isNegation = false := by
        cases e with
        | not operand => cases hnegation
        | _ => rfl
      obtain ⟨base, rest', k, hprimary, hk, hmembers⟩ := exists_readMembers_of_recovers ih e
        hwritable hungrouped hnot hlength cs rest hrest.delimited
        (fun _ => hrest.head?_ne (by decide)) hcs
      obtain ⟨steps, hsteps⟩ := Nat.exists_eq_add_of_le (show k ≤ rest'.length + 1 by omega)
      simp only [eat?_not_of_unnegate hwritable hnegation hcs, hprimary, bind, Except.bind]
      rw [hsteps, hmembers, readMembers_of_ends hrest]

end Expr

end HtmlTemplate
