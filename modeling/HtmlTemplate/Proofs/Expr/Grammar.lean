import HtmlTemplate.Proofs.Expr.Script
import HtmlTemplate.Proofs.Expr.Tokens

/-!
The grammar of expressions, and what is read by it:

    unary   := "!" unary | path
    path    := primary ("." identifier | "[" unary "]")*
    primary := "(" unary ")" | string | number | word | call | property
    call    := ("filters" | "handlers") "." identifier "(" (unary ("," unary)*)? ")"

A phrase is derived between a text and what remains of it behind the phrase (`Derives`). The readers
give nothing but derivations (`sound_readUnary`), and they find a derivation unless members follow
it (`complete_of_derives`).
-/

namespace HtmlTemplate

namespace Expr

/-- What the grammar derives: an expression, the members after a base that make the base an
expression, an expression without members, and the arguments of a call. -/
inductive Phrase
  | unary (e : Expr)
  | members (base e : Expr)
  | primary (e : Expr)
  | arguments (es : List Expr)

def words : List (Text × Expr) :=
  [("true", .literal (.bool true)), ("false", .literal (.bool false)), ("null", .literal .null),
    ("undefined", .undefined), ("data", .binding .data), ("this", .binding .data),
    ("parent", .binding .parent), ("root", .binding .root), ("key", .binding .key),
    ("length", .binding .length)]

def reserved : List Text :=
  words.map Prod.fst ++ [FunctionTable.filters, FunctionTable.handlers].map FunctionTable.name

/-- The phrase stands at the start of the first text, and the second one remains. -/
inductive Derives : Phrase → Text → Text → Prop
  | not {e : Expr} {cs inside rest : Text} (symbol : Symbol '!' cs inside)
    (operand : Derives (.unary e) inside rest) : Derives (.unary (.not e)) cs rest
  | path {base e : Expr} {cs after rest : Text} (start : Derives (.primary base) cs after)
    (members : Derives (.members base e) after rest) : Derives (.unary e) cs rest
  | done {e : Expr} {cs : Text} : Derives (.members e e) cs cs
  | member {base e : Expr} {name cs inside after rest : Text} (symbol : Symbol '.' cs inside)
    (property : Identifier name inside after)
    (members : Derives (.members (.member base name) e) after rest) :
    Derives (.members base e) cs rest
  | index {base key e : Expr} {cs inside close after rest : Text} (symbol : Symbol '[' cs inside)
    (inner : Derives (.unary key) inside close) (closing : Symbol ']' close after)
    (members : Derives (.members (.index base key) e) after rest) :
    Derives (.members base e) cs rest
  | group {e : Expr} {cs inside close rest : Text} (symbol : Symbol '(' cs inside)
    (body : Derives (.unary e) inside close) (closing : Symbol ')' close rest) :
    Derives (.primary e) cs rest
  | string {s cs rest : Text} (token : Quoted s cs rest) :
    Derives (.primary (.literal (.string s))) cs rest
  | number {n : Number} {cs rest : Text} (token : Numeric n cs rest) :
    Derives (.primary (.literal (.number n))) cs rest
  | word {e : Expr} {name cs rest : Text} (token : Identifier name cs rest)
    (mem : (name, e) ∈ words) : Derives (.primary e) cs rest
  | property {name cs rest : Text} (token : Identifier name cs rest) (not_mem : name ∉ reserved) :
    Derives (.primary (.member (.binding .data) name)) cs rest
  | call {table : FunctionTable} {function cs point name opening inside rest : Text}
    (token : Identifier table.name cs point) (symbol : Symbol '.' point name)
    (callee : Identifier function name opening) (parenthesis : Symbol '(' opening inside)
    (closing : Symbol ')' inside rest) : Derives (.primary (.call table function [])) cs rest
  | callWith {table : FunctionTable} {function cs point name opening inside close rest : Text}
    {es : List Expr} (token : Identifier table.name cs point) (symbol : Symbol '.' point name)
    (callee : Identifier function name opening) (parenthesis : Symbol '(' opening inside)
    (arguments : Derives (.arguments es) inside close) (closing : Symbol ')' close rest) :
    Derives (.primary (.call table function es)) cs rest
  | last {e : Expr} {cs rest : Text} (argument : Derives (.unary e) cs rest) :
    Derives (.arguments [e]) cs rest
  | cons {e : Expr} {es : List Expr} {cs comma inside rest : Text}
    (argument : Derives (.unary e) cs comma) (symbol : Symbol ',' comma inside)
    (arguments : Derives (.arguments es) inside rest) : Derives (.arguments (e :: es)) cs rest

/-- The whole text is the expression, up to blanks at the end. -/
def IsDerived (source : Text) (e : Expr) : Prop :=
  ∃ rest, Derives (.unary e) source rest ∧ ∀ c ∈ rest, Text.isBlank c = true

/-! ## What is read is derived -/

def Sound (reader : ExprReader) (phrase : Expr → Phrase) : Prop :=
  ∀ cs e rest, reader cs = .ok (e, rest) → Derives (phrase e) cs rest

section

variable {unary : ExprReader}

theorem derives_of_readArguments (h : Sound unary .unary) {steps : Nat} {cs rest : Text}
    {es : List Expr} (hr : readArguments unary steps cs = .ok (es, rest)) :
    ∃ close, Derives (.arguments es) cs close ∧ Symbol ')' close rest := by
  induction steps generalizing cs es with
  | zero => cases hr
  | succ steps ih =>
    unfold readArguments at hr
    obtain ⟨⟨e, after⟩, he, hr⟩ := exists_of_bind_eq_ok hr
    have hargument := h cs e after he
    simp only at hr
    split at hr
    · next close heat =>
      obtain ⟨rfl, rfl⟩ := Prod.mk.inj (Except.ok.inj hr)
      exact ⟨after, .last hargument, (eat?_eq_some_iff rfl).mp heat⟩
    · obtain ⟨inside, hcomma, hr⟩ := exists_of_bind_eq_ok hr
      obtain ⟨⟨es', rest'⟩, hes, hr⟩ := exists_of_bind_eq_ok hr
      obtain ⟨rfl, rfl⟩ := Prod.mk.inj (Except.ok.inj hr)
      obtain ⟨close, harguments, hclose⟩ := ih hes
      exact ⟨close, .cons hargument ((expect_eq_ok_iff rfl).mp hcomma) harguments, hclose⟩

theorem derives_of_readCall (h : Sound unary .unary) {table : FunctionTable}
    {cs point rest : Text} {e : Expr} (htable : Identifier table.name cs point)
    (hr : readCall unary table point = .ok (e, rest)) : Derives (.primary e) cs rest := by
  unfold readCall at hr
  obtain ⟨name, hpoint, hr⟩ := exists_of_bind_eq_ok hr
  obtain ⟨⟨function, opening⟩, hfunction, hr⟩ := exists_of_bind_eq_ok hr
  obtain ⟨inside, hopen, hr⟩ := exists_of_bind_eq_ok hr
  rw [expect_eq_ok_iff rfl] at hpoint hopen
  rw [readIdent_eq_ok_iff] at hfunction
  simp only at hr
  split at hr
  · next close heat =>
    obtain ⟨rfl, rfl⟩ := Prod.mk.inj (Except.ok.inj hr)
    exact .call htable hpoint hfunction hopen ((eat?_eq_some_iff rfl).mp heat)
  · obtain ⟨⟨es, after⟩, hes, hr⟩ := exists_of_bind_eq_ok hr
    obtain ⟨rfl, rfl⟩ := Prod.mk.inj (Except.ok.inj hr)
    obtain ⟨close, harguments, hclose⟩ := derives_of_readArguments h hes
    exact .callWith htable hpoint hfunction hopen harguments hclose

theorem readNamed_of_mem_words (unary : ExprReader) {name : Text} {e : Expr}
    (h : (name, e) ∈ words) (rest : Text) : readNamed unary name rest = .ok (e, rest) := by
  have hall : ∀ p ∈ words, readNamed unary p.1 rest = .ok (p.2, rest) := by
    simp only [words, List.forall_mem_cons]
    exact ⟨rfl, rfl, rfl, rfl, rfl, rfl, rfl, rfl, rfl, rfl, by simp⟩
  exact hall _ h

theorem readNamed_table (unary : ExprReader) (table : FunctionTable) (rest : Text) :
    readNamed unary table.name rest = readCall unary table rest := by
  cases table <;> rfl

theorem readNamed_of_not_mem_reserved (unary : ExprReader) {name : Text} (h : name ∉ reserved)
    (rest : Text) : readNamed unary name rest = .ok (.member (.binding .data) name, rest) := by
  have hne (word : Text) (hword : word ∈ reserved) : ¬name = word := fun heq => h (heq ▸ hword)
  have hbinding : Binding.ofName? name = none := by
    unfold Binding.ofName?
    simp only [List.lookup_eq_none_iff, List.forall_mem_cons]
    refine ⟨?_, ?_, ?_, ?_, ?_, ?_, by simp⟩
    all_goals
      refine bne_iff_ne.mpr (hne _ ?_)
      decide
  unfold readNamed
  rw [if_neg (hne _ (by decide)), if_neg (hne _ (by decide)), if_neg (hne _ (by decide)),
    if_neg (hne _ (by decide)), if_neg (hne _ (by decide)), if_neg (hne _ (by decide)), hbinding]

/-- A name is a word, a table of functions or a property. -/
theorem name_cases (name : Text) :
    (∃ e, (name, e) ∈ words) ∨ (∃ table : FunctionTable, name = table.name) ∨ name ∉ reserved := by
  by_cases h : name ∈ reserved
  · rcases List.mem_append.mp h with hword | htable
    · obtain ⟨⟨_, e⟩, he, rfl⟩ := List.mem_map.mp hword
      exact .inl ⟨e, he⟩
    · obtain ⟨table, -, rfl⟩ := List.mem_map.mp htable
      exact .inr (.inl ⟨table, rfl⟩)
  · exact .inr (.inr h)

theorem derives_of_readNamed (h : Sound unary .unary) {name cs after rest : Text} {e : Expr}
    (hname : Identifier name cs after) (hr : readNamed unary name after = .ok (e, rest)) :
    Derives (.primary e) cs rest := by
  rcases name_cases name with ⟨value, hword⟩ | ⟨table, rfl⟩ | hproperty
  · rw [readNamed_of_mem_words unary hword] at hr
    obtain ⟨rfl, rfl⟩ := Prod.mk.inj (Except.ok.inj hr)
    exact .word hname hword
  · rw [readNamed_table] at hr
    exact derives_of_readCall h hname hr
  · rw [readNamed_of_not_mem_reserved unary hproperty] at hr
    obtain ⟨rfl, rfl⟩ := Prod.mk.inj (Except.ok.inj hr)
    exact .property hname hproperty

theorem sound_readPrimary (h : Sound unary .unary) : Sound (readPrimary unary) .primary := by
  intro cs e rest hr
  unfold readPrimary at hr
  split at hr
  · cases hr
  · next c t hcs =>
    split at hr
    · next hc =>
      obtain ⟨⟨e', close⟩, he, hr⟩ := exists_of_bind_eq_ok hr
      obtain ⟨rest', hclose, hr⟩ := exists_of_bind_eq_ok hr
      obtain ⟨rfl, rfl⟩ := Prod.mk.inj (Except.ok.inj hr)
      have hopen : Symbol '(' cs t := (lexeme_iff rfl).mpr (hc ▸ hcs)
      exact .group hopen (h _ _ _ he) ((expect_eq_ok_iff rfl).mp hclose)
    split at hr
    · next hquote =>
      obtain ⟨⟨s, rest'⟩, hs, hr⟩ := exists_of_bind_eq_ok hr
      obtain ⟨rfl, rfl⟩ := Prod.mk.inj (Except.ok.inj hr)
      exact .string (quoted_iff.mpr ⟨c, t, hcs, hquote, hs⟩)
    split at hr
    · next hstarts =>
      obtain ⟨⟨n, rest'⟩, hn, hr⟩ := exists_of_bind_eq_ok hr
      obtain ⟨rfl, rfl⟩ := Prod.mk.inj (Except.ok.inj hr)
      exact .number (numeric_iff.mpr ⟨hcs ▸ hstarts, hcs ▸ hn⟩)
    · obtain ⟨⟨name, after⟩, hname, hr⟩ := exists_of_bind_eq_ok hr
      rw [← hcs, readIdent_trimStart, readIdent_eq_ok_iff] at hname
      exact derives_of_readNamed h hname hr

theorem sound_readMembers (h : Sound unary .unary) (steps : Nat) (base : Expr) :
    Sound (readMembers unary steps base) (.members base) := by
  induction steps generalizing base with
  | zero =>
    intro cs e rest hr
    obtain ⟨rfl, rfl⟩ := Prod.mk.inj (Except.ok.inj hr)
    exact .done
  | succ steps ih =>
    intro cs e rest hr
    unfold readMembers at hr
    split at hr
    · next inside heat =>
      obtain ⟨⟨name, after⟩, hname, hr⟩ := exists_of_bind_eq_ok hr
      exact .member ((eat?_eq_some_iff rfl).mp heat) ((readIdent_eq_ok_iff _).mp hname)
        (ih _ _ _ _ hr)
    · split at hr
      · next inside heat =>
        obtain ⟨⟨key, close⟩, hkey, hr⟩ := exists_of_bind_eq_ok hr
        obtain ⟨after, hclose, hr⟩ := exists_of_bind_eq_ok hr
        exact .index ((eat?_eq_some_iff rfl).mp heat) (h _ _ _ hkey)
          ((expect_eq_ok_iff rfl).mp hclose) (ih _ _ _ _ hr)
      · obtain ⟨rfl, rfl⟩ := Prod.mk.inj (Except.ok.inj hr)
        exact .done

end

theorem sound_readUnary (depth : Nat) : Sound (readUnary depth) .unary := by
  induction depth with
  | zero =>
    intro cs e rest hr
    cases hr
  | succ depth ih =>
    intro cs e rest hr
    unfold readUnary at hr
    split at hr
    · next inside heat =>
      obtain ⟨⟨operand, rest'⟩, hoperand, hr⟩ := exists_of_bind_eq_ok hr
      obtain ⟨rfl, rfl⟩ := Prod.mk.inj (Except.ok.inj hr)
      exact .not ((eat?_eq_some_iff rfl).mp heat) (ih _ _ _ hoperand)
    · obtain ⟨⟨base, after⟩, hbase, hr⟩ := exists_of_bind_eq_ok hr
      exact .path (sound_readPrimary ih _ _ _ hbase) (sound_readMembers ih _ _ _ _ _ hr)

/-! ## What is derived is read -/

theorem Derives.length_le {phrase : Phrase} {cs rest : Text} (h : Derives phrase cs rest) :
    rest.length ≤ cs.length := by
  induction h with
  | not symbol _ ih =>
    have := symbol.length_lt
    omega
  | path _ _ ih ih' => exact Nat.le_trans ih' ih
  | done => exact Nat.le_refl _
  | member symbol property _ ih =>
    have := symbol.length_lt
    have := property.lexeme.length_le
    omega
  | index symbol _ closing _ ih ih' =>
    have := symbol.length_lt
    have := closing.length_lt
    omega
  | group symbol _ closing ih =>
    have := symbol.length_lt
    have := closing.length_lt
    omega
  | string token =>
    obtain ⟨_, _, _, _, _, hlexeme⟩ := token
    exact hlexeme.length_le
  | number token =>
    obtain ⟨_, _, hlexeme, _⟩ := token
    exact hlexeme.length_le
  | word token _ | property token _ => exact token.lexeme.length_le
  | call token symbol callee parenthesis closing =>
    have := token.lexeme.length_le
    have := symbol.length_lt
    have := callee.lexeme.length_le
    have := parenthesis.length_lt
    have := closing.length_lt
    omega
  | callWith token symbol callee parenthesis _ closing ih =>
    have := token.lexeme.length_le
    have := symbol.length_lt
    have := callee.lexeme.length_le
    have := parenthesis.length_lt
    have := closing.length_lt
    omega
  | last _ ih => exact ih
  | cons _ symbol _ ih ih' =>
    have := symbol.length_lt
    omega

def NoMember (rest : Text) : Prop := ∀ c ∈ (Text.trimStart rest).head?, c ≠ '.' ∧ c ≠ '['

theorem noMember_of_symbol {c : Char} (hblank : Text.isBlank c = false) (hc : c ≠ '.' ∧ c ≠ '[')
    {cs rest : Text} (h : Symbol c cs rest) : NoMember cs := by
  intro d hd
  rw [(lexeme_iff hblank).mp h] at hd
  exact Option.some.inj hd ▸ hc

/-- Where a symbol comes next another one does not. -/
theorem eat?_of_symbol_ne {c d : Char} (hblank : Text.isBlank c = false) (hne : c ≠ d)
    {cs rest : Text} (h : Symbol c cs rest) : eat? d cs = none := by
  apply eat?_of_head?_ne
  rw [(lexeme_iff hblank).mp h]
  simpa using hne

/-- The readers find the phrase, given as many levels of nesting and as many steps as the text has
characters. An expression with members is found if no more members follow. -/
def Complete : Phrase → Text → Text → Prop
  | .unary e, cs, rest => NoMember rest → ∀ depth, cs.length < depth →
    readUnary depth cs = .ok (e, rest)
  | .members base e, cs, rest => NoMember rest → ∀ depth steps, cs.length ≤ depth →
    cs.length < steps → readMembers (readUnary depth) steps base cs = .ok (e, rest)
  | .primary e, cs, rest => ∀ depth, cs.length ≤ depth →
    readPrimary (readUnary depth) cs = .ok (e, rest)
  | .arguments es, cs, close => ∀ rest, Symbol ')' close rest → ∀ depth steps, cs.length < depth →
    cs.length < steps → readArguments (readUnary depth) steps cs = .ok (es, rest)

/-- No primary starts with an exclamation mark or with a closing parenthesis. -/
theorem eat?_of_readPrimary {unary : ExprReader} {cs : Text} {r : Expr × Text}
    (h : readPrimary unary cs = .ok r) {c : Char} (hc : c = '!' ∨ c = ')') : eat? c cs = none := by
  have hblank : Text.isBlank c = false := by rcases hc with rfl | rfl <;> rfl
  cases heat : eat? c cs with
  | none => rfl
  | some rest =>
    have hcs := (lexeme_iff hblank).mp ((eat?_eq_some_iff hblank).mp heat)
    rw [List.singleton_append] at hcs
    have hmem : c ∉ ['(', '\'', '"'] := by rcases hc with rfl | rfl <;> decide
    rw [readPrimary_cons hmem hcs] at h
    rcases hc with rfl | rfl <;> cases h

theorem eat?_of_readUnary {depth : Nat} {cs : Text} {r : Expr × Text}
    (h : readUnary depth cs = .ok r) : eat? ')' cs = none := by
  cases depth with
  | zero => cases h
  | succ depth =>
    unfold readUnary at h
    split at h
    · next heat => exact eat?_of_symbol_ne rfl (by decide) ((eat?_eq_some_iff rfl).mp heat)
    · obtain ⟨_, hprimary, -⟩ := exists_of_bind_eq_ok h
      exact eat?_of_readPrimary hprimary (.inr rfl)

theorem eat?_of_readArguments {depth steps : Nat} {cs : Text} {r : List Expr × Text}
    (h : readArguments (readUnary depth) steps cs = .ok r) : eat? ')' cs = none := by
  cases steps with
  | zero => cases h
  | succ steps =>
    unfold readArguments at h
    obtain ⟨_, hargument, -⟩ := exists_of_bind_eq_ok h
    exact eat?_of_readUnary hargument

theorem readPrimary_of_identifier (unary : ExprReader) {name cs rest : Text}
    (h : Identifier name cs rest) : readPrimary unary cs = readNamed unary name rest := by
  have hread := (readIdent_eq_ok_iff .expression).mpr h
  obtain ⟨c, t, rfl, hc, -, hcs⟩ := h.trimStart
  have hall : ∀ d ∈ ['(', '\'', '"'], isIdentStart d = false :=
    List.forall_iff_forall_mem.mp (by decide)
  have hmem : c ∉ ['(', '\'', '"'] := fun hmem => by simp [hall c hmem] at hc
  rw [← readIdent_trimStart, hcs] at hread
  rw [List.cons_append] at hcs hread
  rw [readPrimary_cons hmem hcs, not_startsNumber_of_isIdentStart hc, hread]
  rfl

theorem readPrimary_of_quoted_token (unary : ExprReader) {s cs rest : Text} (h : Quoted s cs rest) :
    readPrimary unary cs = .ok (.literal (.string s), rest) := by
  obtain ⟨quote, t, hcs, hquote, hread⟩ := quoted_iff.mp h
  have hopen : quote ≠ '(' := by rcases hquote with rfl | rfl <;> decide
  unfold readPrimary
  simp only [hcs, if_neg hopen, if_pos hquote, hread]
  rfl

theorem readPrimary_of_numeric (unary : ExprReader) {n : Number} {cs rest : Text}
    (h : Numeric n cs rest) : readPrimary unary cs = .ok (.literal (.number n), rest) := by
  obtain ⟨hstarts, hread⟩ := numeric_iff.mp h
  obtain ⟨negative, d, ds, hcs, hd⟩ := startsNumber_iff.mp hstarts
  have hall : ∀ c ∈ ['(', '\'', '"'], c ≠ '-' ∧ c.isDigit = false :=
    List.forall_iff_forall_mem.mp (by decide)
  obtain ⟨c, t, hcons, hmem⟩ : ∃ c t, Text.trimStart cs = c :: t ∧ c ∉ ['(', '\'', '"'] := by
    cases negative with
    | true => exact ⟨'-', d :: ds, hcs, by decide⟩
    | false => exact ⟨d, ds, hcs, fun hmem => by simp [(hall d hmem).2] at hd⟩
  rw [hcons] at hstarts hread
  rw [readPrimary_cons hmem hcons, if_pos hstarts, hread]
  rfl

/-- The readers of a call, up to the parenthesis. -/
theorem readCall_of_tokens (unary : ExprReader) (table : FunctionTable)
    {function point name opening inside : Text} (symbol : Symbol '.' point name)
    (callee : Identifier function name opening) (parenthesis : Symbol '(' opening inside) :
    readCall unary table point =
      match eat? ')' inside with
      | some rest => .ok (.call table function [], rest)
      | none => (do
        let (arguments, rest) ← readArguments unary (inside.length + 1) inside
        .ok (.call table function arguments, rest)) := by
  have hpoint := (expect_eq_ok_iff rfl).mpr symbol
  have hname := (readIdent_eq_ok_iff .functionName).mpr callee
  have hopen := (expect_eq_ok_iff rfl).mpr parenthesis
  cases heat : eat? ')' inside with
  | some rest => simp only [readCall, bind, Except.bind, hpoint, hname, hopen, heat]
  | none => simp only [readCall, bind, Except.bind, hpoint, hname, hopen, heat]

theorem complete_of_derives {phrase : Phrase} {cs rest : Text} (h : Derives phrase cs rest) :
    Complete phrase cs rest := by
  induction h with
  | @not e cs inside rest symbol operand ih =>
    intro hrest depth hdepth
    have hlength := symbol.length_lt
    obtain ⟨depth, rfl⟩ := Nat.exists_eq_succ_of_ne_zero (Nat.ne_of_gt (Nat.zero_lt_of_lt hdepth))
    have heat := (eat?_eq_some_iff rfl).mpr symbol
    have hoperand := ih hrest depth (by omega)
    unfold readUnary
    simp only [heat, hoperand]
    rfl
  | @path base e cs after rest start members ih ih' =>
    intro hrest depth hdepth
    have hlength := start.length_le
    obtain ⟨depth, rfl⟩ := Nat.exists_eq_succ_of_ne_zero (Nat.ne_of_gt (Nat.zero_lt_of_lt hdepth))
    have hbase := ih depth (by omega)
    have hmembers := ih' hrest depth (after.length + 1) (by omega) (Nat.lt_succ_self _)
    unfold readUnary
    simp only [eat?_of_readPrimary hbase (.inl rfl), hbase]
    exact hmembers
  | done =>
    intro hrest depth steps hdepth hsteps
    exact readMembers_stop hrest steps _
  | @member base e name cs inside after rest symbol property members ih =>
    intro hrest depth steps hdepth hsteps
    have hlength := symbol.length_lt
    have hname := property.lexeme.length_le
    obtain ⟨steps, rfl⟩ := Nat.exists_eq_succ_of_ne_zero (Nat.ne_of_gt (Nat.zero_lt_of_lt hsteps))
    have heat := (eat?_eq_some_iff rfl).mpr symbol
    have hread := (readIdent_eq_ok_iff .propertyName).mpr property
    have hmembers := ih hrest depth steps (by omega) (by omega)
    unfold readMembers
    simp only [heat, hread]
    exact hmembers
  | @index base key e cs inside close after rest symbol inner closing members ih ih' =>
    intro hrest depth steps hdepth hsteps
    have hlength := symbol.length_lt
    have hinner := inner.length_le
    have hclose := closing.length_lt
    obtain ⟨steps, rfl⟩ := Nat.exists_eq_succ_of_ne_zero (Nat.ne_of_gt (Nat.zero_lt_of_lt hsteps))
    have hpoint := eat?_of_symbol_ne (d := '.') rfl (by decide) symbol
    have heat := (eat?_eq_some_iff rfl).mpr symbol
    have hkey := ih (noMember_of_symbol rfl (by decide) closing) depth (by omega)
    have hexpect := (expect_eq_ok_iff rfl).mpr closing
    have hmembers := ih' hrest depth steps (by omega) (by omega)
    unfold readMembers
    simp only [hpoint, heat, hkey, bind, Except.bind, hexpect]
    exact hmembers
  | @group e cs inside close rest symbol body closing ih =>
    intro depth hdepth
    have hlength := symbol.length_lt
    have hcs := (lexeme_iff rfl).mp symbol
    have hbody := ih (noMember_of_symbol rfl (by decide) closing) depth (by omega)
    have hexpect := (expect_eq_ok_iff rfl).mpr closing
    unfold readPrimary
    simp only [hcs, List.singleton_append, if_true, hbody, bind, Except.bind, hexpect]
  | string token => exact fun depth _ => readPrimary_of_quoted_token _ token
  | number token => exact fun depth _ => readPrimary_of_numeric _ token
  | word token mem =>
    intro depth _
    rw [readPrimary_of_identifier _ token, readNamed_of_mem_words _ mem]
  | property token not_mem =>
    intro depth _
    rw [readPrimary_of_identifier _ token, readNamed_of_not_mem_reserved _ not_mem]
  | call token symbol callee parenthesis closing =>
    intro depth _
    have heat := (eat?_eq_some_iff rfl).mpr closing
    rw [readPrimary_of_identifier _ token, readNamed_table,
      readCall_of_tokens _ _ symbol callee parenthesis, heat]
  | callWith token symbol callee parenthesis arguments closing ih =>
    intro depth hdepth
    have htoken := token.lexeme.length_le
    have hsymbol := symbol.length_lt
    have hcallee := callee.lexeme.length_le
    have hopen := parenthesis.length_lt
    have harguments := ih _ closing depth _ (by omega) (Nat.lt_succ_self _)
    rw [readPrimary_of_identifier _ token, readNamed_table,
      readCall_of_tokens _ _ symbol callee parenthesis, eat?_of_readArguments harguments]
    simp only [harguments]
    rfl
  | last argument ih =>
    intro rest closing depth steps hdepth hsteps
    obtain ⟨steps, rfl⟩ := Nat.exists_eq_succ_of_ne_zero (Nat.ne_of_gt (Nat.zero_lt_of_lt hsteps))
    have hargument := ih (noMember_of_symbol rfl (by decide) closing) depth hdepth
    have heat := (eat?_eq_some_iff rfl).mpr closing
    unfold readArguments
    simp only [hargument, bind, Except.bind, heat]
  | cons argument symbol arguments ih ih' =>
    intro rest closing depth steps hdepth hsteps
    obtain ⟨steps, rfl⟩ := Nat.exists_eq_succ_of_ne_zero (Nat.ne_of_gt (Nat.zero_lt_of_lt hsteps))
    have hlength := argument.length_le
    have hcomma := symbol.length_lt
    have hargument := ih (noMember_of_symbol rfl (by decide) symbol) depth hdepth
    have hclose := eat?_of_symbol_ne (d := ')') rfl (by decide) symbol
    have hexpect := (expect_eq_ok_iff rfl).mpr symbol
    have harguments := ih' rest closing depth steps (by omega) (by omega)
    unfold readArguments
    simp only [hargument, bind, Except.bind, hclose, hexpect, harguments]

theorem parse_eq_ok_iff {source : Text} {e : Expr} : parse source = .ok e ↔ IsDerived source e := by
  constructor
  · intro h
    unfold parse at h
    obtain ⟨⟨e', rest⟩, hread, h⟩ := exists_of_bind_eq_ok h
    simp only at h
    split at h
    · next hrest =>
      obtain rfl := Except.ok.inj h
      exact ⟨rest, sound_readUnary _ _ _ _ hread, trimStart_eq_nil_iff.mp hrest⟩
    · cases h
  · rintro ⟨rest, hderives, hblank⟩
    have hrest := trimStart_eq_nil_iff.mpr hblank
    have hread := complete_of_derives hderives (by simp [NoMember, hrest]) _ (Nat.lt_succ_self _)
    unfold parse
    simp only [hread, bind, Except.bind, hrest]

end Expr

end HtmlTemplate
