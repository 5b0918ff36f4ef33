import HtmlTemplate.Expr.Eval
import HtmlTemplate.Proofs.Expr.Script

/-!
Whether the script of an expression is read as that expression (`parse_scriptOfSource_iff`). It is
if the expression needs no parentheses, by `recovers_readUnary`. For the converse, whatever a script
is read as needs none (`settles_readUnary`): a negation is read before the members that follow it,
and after a number the point is lost, so that the reader is left with the name of the member.
-/

namespace HtmlTemplate

namespace Expr

/-! ## Texts at which no expression can end -/

/-- The text goes on with an identifier. -/
def Stuck (t : Text) : Prop := ∃ c cs, t = c :: cs ∧ isIdentStart c = true

theorem Stuck.trimStart {t : Text} (h : Stuck t) : Text.trimStart t = t := by
  obtain ⟨c, cs, rfl, hc⟩ := h
  exact Text.trimStart_cons (not_isBlank_of_isIdentStart hc) cs

theorem Stuck.eat? {t : Text} (h : Stuck t) (symbol : Char)
    (hsymbol : isIdentStart symbol = false) :
    eat? symbol t = none := by
  refine eat?_of_head?_ne ?_
  rw [h.trimStart]
  obtain ⟨c, cs, rfl, hc⟩ := h
  intro heq
  obtain rfl := Option.some.inj heq
  exact Bool.false_ne_true (hsymbol.symm.trans hc)

theorem Stuck.expect_ne_ok {t : Text} (h : Stuck t) {symbol : Char}
    (hsymbol : isIdentStart symbol = false) (rest : Text) : expect symbol t ≠ .ok rest := by
  rw [expect, h.eat? symbol hsymbol]
  rintro ⟨⟩

theorem Stuck.readMembers {t : Text} (h : Stuck t) (unary : ExprReader) (steps : Nat)
    (base : Expr) :
    readMembers unary steps base t = .ok (base, t) := by
  refine readMembers_stop (fun c hc => ?_) steps base
  rw [h.trimStart] at hc
  obtain ⟨d, cs, rfl, hd⟩ := h
  obtain rfl := Option.some.inj hc
  constructor
  · rintro rfl
    exact absurd hd (by decide)
  · rintro rfl
    exact absurd hd (by decide)

/-! ## Reading any script -/

/-- If the reader gives anything for a script of at most `limit` characters, it is an expression
without parentheses and the whole script is read, or the reader is stuck. -/
def Settles (limit : Nat) (reader : ExprReader) : Prop :=
  ∀ e : Expr, e.all isWritable = true → e.script.length ≤ limit →
    ∀ cs rest, Ends rest → Text.trimStart cs = e.script ++ rest → ∀ r, reader cs = .ok r →
      (r.1.all isUngrouped = true ∧ r.2 = rest) ∨ Stuck r.2

variable {limit : Nat} {unary : ExprReader}

/-- Where arguments are read to their end the first of them was, for a reader that is stuck comes
to no symbol. -/
theorem exists_argument_of_settles (h : Settles limit unary) {e : Expr}
    (he : e.all isWritable = true) (hlength : e.script.length ≤ limit) {symbol : Char}
    (hsymbol : symbol ∈ [')', ']', ',']) {cs tail : Text}
    (hcs : Text.trimStart cs = e.script ++ symbol :: tail) {steps : Nat} {r : List Expr × Text}
    (hr : readArguments unary steps cs = .ok r) :
    ∃ steps' argument, steps = steps' + 1 ∧ unary cs = .ok (argument, symbol :: tail) ∧
      argument.all isUngrouped = true := by
  cases steps with
  | zero => cases hr
  | succ steps =>
    unfold readArguments at hr
    obtain ⟨⟨argument, rest⟩, hargument, hr⟩ := exists_of_bind_eq_ok hr
    obtain ⟨hungrouped, rfl⟩ | hstuck :=
      h e he hlength cs _ (ends_cons hsymbol tail) hcs _ hargument
    · exact ⟨steps, argument, rfl, hargument, hungrouped⟩
    · simp only [hstuck.eat? ')' (by decide)] at hr
      obtain ⟨rest', hcomma, -⟩ := exists_of_bind_eq_ok hr
      exact absurd hcomma (hstuck.expect_ne_ok (by decide) rest')

theorem readArguments_of_settles (h : Settles limit unary) {e : Expr} {es : List Expr}
    (hwritable : allOf isWritable (e :: es) = true)
    (hlength : (Text.join ", " (scripts (e :: es))).length ≤ limit) {cs tail : Text}
    (hcs : Text.trimStart cs = Text.join ", " (scripts (e :: es)) ++ ')' :: tail) {steps : Nat}
    {r : List Expr × Text} (hr : readArguments unary steps cs = .ok r) :
    allOf isUngrouped r.1 = true ∧ r.2 = tail := by
  induction es generalizing e steps cs r with
  | nil =>
    rw [join_scripts_single] at hlength hcs
    obtain ⟨he, -⟩ := (Bool.and_eq_true _ _).mp hwritable
    obtain ⟨steps, argument, rfl, hargument, hungrouped⟩ :=
      exists_argument_of_settles h he hlength (by decide) hcs hr
    have heat : eat? ')' (')' :: tail) = some tail :=
      eat?_of_trimStart (Text.trimStart_cons rfl tail)
    unfold readArguments at hr
    simp only [hargument, bind, Except.bind, heat] at hr
    obtain rfl := Except.ok.inj hr
    exact ⟨by simpa [allOf] using hungrouped, rfl⟩
  | cons e' es ih =>
    rw [join_scripts_cons] at hlength hcs
    simp only [List.length_append, List.length_cons] at hlength
    obtain ⟨he, hes⟩ := (Bool.and_eq_true _ _).mp hwritable
    have htrim := trimStart_join_scripts ((Bool.and_eq_true _ _).mp hes).1 es (')' :: tail)
    generalize hinside : Text.join ", " (scripts (e' :: es)) ++ ')' :: tail = inside at htrim
    rw [List.append_assoc, List.cons_append, List.cons_append, hinside] at hcs
    obtain ⟨steps, argument, rfl, hargument, hungrouped⟩ :=
      exists_argument_of_settles h he (by omega) (by decide) hcs hr
    have heat : eat? ')' (',' :: ' ' :: inside) = none :=
      eat?_of_head?_ne (by rw [Text.trimStart_cons rfl]; simp)
    have hcomma : expect ',' (',' :: ' ' :: inside) = .ok (' ' :: inside) :=
      expect_of_trimStart (Text.trimStart_cons rfl _)
    unfold readArguments at hr
    simp only [hargument, bind, Except.bind, heat, hcomma] at hr
    obtain ⟨arguments, harguments, hr⟩ := exists_of_bind_eq_ok hr
    obtain ⟨hungrouped', hrest⟩ := ih hes (by omega) (by rw [hinside]; exact htrim) harguments
    obtain rfl := Except.ok.inj hr
    exact ⟨by simp [allOf, hungrouped, hungrouped'], hrest⟩

/-- A primary with its members, which is what comes where there is no negation. -/
def readPath (unary : ExprReader) : ExprReader := fun cs => do
  let (base, rest) ← readPrimary unary cs
  readMembers unary (rest.length + 1) base rest

theorem exists_int_of_isNumber {e : Expr} (he : e.all isWritable = true)
    (hnumber : e.isNumber = true) : ∃ i, e = literal (.number (.int i)) := by
  cases e with
  | literal l =>
    cases l with
    | number n =>
      cases n with
      | int i => exact ⟨i, rfl⟩
      | float x => cases he
    | _ => cases hnumber
  | _ => cases hnumber

/-- A member of a number is not read: its point goes to the number. -/
theorem stuck_of_readPath {e : Expr} (he : e.all isWritable = true) (hnumber : e.isNumber = true)
    {property : Text} (hproperty : isIdent property = true) {cs tail : Text}
    (hcs : Text.trimStart cs = e.script ++ '.' :: (property ++ tail)) {r : Expr × Text}
    (hr : readPath unary cs = .ok r) : Stuck r.2 := by
  obtain ⟨i, rfl⟩ := exists_int_of_isNumber he hnumber
  cases property with
  | nil => cases hproperty
  | cons c property =>
    have hc : isIdentStart c = true := ((Bool.and_eq_true _ _).mp hproperty).1
    obtain ⟨primary, hprimary, hr⟩ := exists_of_bind_eq_ok hr
    rw [readPrimary_of_intText hcs] at hprimary
    obtain ⟨n, hn, hprimary⟩ := exists_of_bind_eq_ok hprimary
    obtain rfl := Except.ok.inj hprimary
    have hrest : n.2 = c :: (property ++ tail) := rest_of_readNumber_point hc hn
    have hstuck : Stuck n.2 := ⟨c, property ++ tail, hrest, hc⟩
    simp only [hstuck.readMembers] at hr
    obtain rfl := Except.ok.inj hr
    exact hstuck

/-- What is read comes after some expression without parentheses in front of `tail`, which is a
number only where `e` is one; or the reader is stuck. -/
def ComesTo (unary : ExprReader) (e : Expr) (tail : Text) (r : Expr × Text) : Prop :=
  Stuck r.2 ∨ ∃ base steps, base.all isUngrouped = true ∧ base.isNegation = false ∧
    (base.isNumber = true → e.isNumber = true) ∧ tail.length < steps ∧
    readMembers unary steps base tail = .ok r

theorem comesTo_of_readPrimary {e base : Expr} (hungrouped : base.all isUngrouped = true)
    (hnegation : base.isNegation = false) (hnumber : base.isNumber = true → e.isNumber = true)
    {cs tail : Text} (hprimary : readPrimary unary cs = .ok (base, tail)) {r : Expr × Text}
    (hr : readPath unary cs = .ok r) : ComesTo unary e tail r := by
  rw [readPath, hprimary] at hr
  exact .inr ⟨base, tail.length + 1, hungrouped, hnegation, hnumber, Nat.lt_succ_self _, hr⟩

theorem comesTo_of_settles_call (h : Settles limit unary) {table : FunctionTable} {function : Text}
    {arguments : List Expr} (hwritable : (call table function arguments).all isWritable = true)
    (hlength : (call table function arguments).script.length ≤ limit + 1) {cs tail : Text}
    (hcs : Text.trimStart cs = (call table function arguments).script ++ tail) {r : Expr × Text}
    (hr : readPath unary cs = .ok r) :
    ComesTo unary (call table function arguments) tail r := by
  obtain ⟨hnode, harguments⟩ := (Bool.and_eq_true _ _).mp hwritable
  have hfunction : isIdent function = true := ((Bool.and_eq_true _ _).mp hnode).1
  rw [script_call] at hlength
  simp only [List.length_append, List.length_cons, List.length_nil] at hlength
  cases arguments with
  | nil =>
    exact comesTo_of_readPrimary rfl rfl (by rintro ⟨⟩) (readPrimary_of_call_nil hfunction hcs) hr
  | cons e es =>
    have he := ((Bool.and_eq_true _ _).mp harguments).1
    have hcall : readPrimary unary cs = _ := readPrimary_of_call_cons hfunction he hcs rfl
    obtain ⟨primary, hprimary, -⟩ := exists_of_bind_eq_ok hr
    obtain ⟨arguments, hread, -⟩ := exists_of_bind_eq_ok (hcall.symm.trans hprimary)
    obtain ⟨hungrouped, rfl⟩ := readArguments_of_settles h harguments (by omega)
      (trimStart_join_scripts he es (')' :: tail)) hread
    rw [hread] at hcall
    exact comesTo_of_readPrimary (by simpa [all, isUngrouped] using hungrouped) rfl
      (by rintro ⟨⟩) hcall hr

theorem ComesTo.member {base : Expr} {property tail : Text} {r : Expr × Text}
    (h : ComesTo unary base ('.' :: (property ++ tail)) r) (hnumber : base.isNumber = false)
    (hproperty : isIdent property = true) (htail : Delimited tail) :
    ComesTo unary (member base property) tail r := by
  obtain hstuck | ⟨base', steps, hungrouped, hnegation, hnumber', hsteps, hr⟩ := h
  · exact .inl hstuck
  · obtain ⟨steps, rfl⟩ := Nat.exists_eq_succ_of_ne_zero (Nat.ne_zero_of_lt hsteps)
    rw [readMembers_member hproperty htail] at hr
    rw [hnumber, Bool.false_eq_true, imp_false, Bool.not_eq_true] at hnumber'
    refine .inr ⟨.member base' property, steps, ?_, rfl, by rintro ⟨⟩, ?_, hr⟩
    · simp [all, isUngrouped, hungrouped, hnegation, hnumber']
    · simp only [List.length_cons, List.length_append] at hsteps
      omega

theorem ComesTo.index (hsettles : Settles limit unary) {base key : Expr}
    (hkey : key.all isWritable = true) (hlength : key.script.length ≤ limit) {tail : Text}
    {r : Expr × Text} (h : ComesTo unary base ('[' :: (key.script ++ ']' :: tail)) r) :
    ComesTo unary (index base key) tail r := by
  obtain hstuck | ⟨base', steps, hungrouped, hnegation, -, hsteps, hr⟩ := h
  · exact .inl hstuck
  · obtain ⟨steps, rfl⟩ := Nat.exists_eq_succ_of_ne_zero (Nat.ne_zero_of_lt hsteps)
    rw [readMembers_index] at hr
    obtain ⟨⟨key', rest⟩, hkey', hr⟩ := exists_of_bind_eq_ok hr
    obtain ⟨rest', hclose, hr⟩ := exists_of_bind_eq_ok hr
    obtain ⟨hungrouped', rfl⟩ | hstuck := hsettles key hkey hlength _ (']' :: tail)
      (ends_cons (by decide) tail) (trimStart_script hkey (']' :: tail)) _ hkey'
    · rw [expect_of_trimStart (Text.trimStart_cons rfl tail)] at hclose
      obtain rfl := Except.ok.inj hclose
      refine .inr ⟨.index base' key', steps, ?_, rfl, by rintro ⟨⟩, ?_, hr⟩
      · simp [all, isUngrouped, hungrouped, hnegation, hungrouped']
      · simp only [List.length_cons, List.length_append] at hsteps
        omega
    · exact absurd hclose (hstuck.expect_ne_ok (by decide) rest')

theorem comesTo_of_settles (h : Settles limit unary) : (e : Expr) → e.all isWritable = true →
    e.unnegate = none → e.script.length ≤ limit + 1 → ∀ cs tail, Delimited tail →
    (e.isNumber = true → tail.head? ≠ some '.') → Text.trimStart cs = e.script ++ tail →
    ∀ r, readPath unary cs = .ok r → ComesTo unary e tail r
  | literal l, hwritable, _, _, cs, tail, htail, hnumber, hcs, r, hr =>
    comesTo_of_readPrimary rfl rfl id
      (readPrimary_of_leaf hwritable (.inl ⟨l, rfl⟩) htail hnumber hcs) hr
  | undefined, hwritable, _, _, cs, tail, htail, hnumber, hcs, r, hr =>
    comesTo_of_readPrimary rfl rfl id
      (readPrimary_of_leaf hwritable (.inr (.inl rfl)) htail hnumber hcs) hr
  | binding b, hwritable, _, _, cs, tail, htail, hnumber, hcs, r, hr =>
    comesTo_of_readPrimary rfl rfl id
      (readPrimary_of_leaf hwritable (.inr (.inr ⟨b, rfl⟩)) htail hnumber hcs) hr
  | call table function arguments, hwritable, _, hlength, cs, tail, _, _, hcs, r, hr =>
    comesTo_of_settles_call h hwritable hlength hcs hr
  | not operand, _, hnone, _, _, _, _, _, _, _, _ => nomatch hnone
  | member base property, hwritable, hnone, hlength, cs, tail, htail, _, hcs, r, hr => by
    rw [all, Bool.and_eq_true] at hwritable
    have hproperty : isIdent property = true := ((Bool.and_eq_true _ _).mp hwritable.1).1
    rw [script_member] at hlength hcs
    rw [List.length_append] at hlength
    rw [List.append_assoc, List.cons_append] at hcs
    cases hnumber : base.isNumber with
    | true => exact .inl (stuck_of_readPath hwritable.2 hnumber hproperty hcs hr)
    | false =>
      have hbase : ComesTo unary base ('.' :: (property ++ tail)) r :=
        comesTo_of_settles h base hwritable.2 (Option.map_eq_none_iff.mp hnone) (by omega) cs _
          (delimited_cons (by decide) _) (fun hbase => by simp [hnumber] at hbase) hcs r hr
      exact hbase.member hnumber hproperty htail
  | index base key, hwritable, hnone, hlength, cs, tail, _, _, hcs, r, hr => by
    rw [all, Bool.and_eq_true, Bool.and_eq_true] at hwritable
    rw [script_index] at hlength hcs
    simp only [List.length_append, List.length_cons, List.length_nil] at hlength
    rw [List.append_assoc, List.cons_append, List.append_assoc, List.singleton_append] at hcs
    have hbase : ComesTo unary base ('[' :: (key.script ++ ']' :: tail)) r :=
      comesTo_of_settles h base hwritable.1.2 (Option.map_eq_none_iff.mp hnone) (by omega) cs _
        (delimited_cons (by decide) _) (fun _ => by simp) hcs r hr
    exact hbase.index h hwritable.2 (by omega)

theorem settles_readUnary (depth : Nat) : Settles depth (readUnary depth) := by
  induction depth with
  | zero =>
    intro _ _ _ _ _ _ _ r hr
    cases hr
  | succ depth ih =>
    intro e hwritable hlength cs rest hrest hcs r hr
    unfold readUnary at hr
    cases hnegation : e.unnegate with
    | some x =>
      have hx : x.all isWritable = true := all_of_unnegate e hnegation hwritable
      rw [script_of_unnegate e hnegation] at hlength hcs
      have heat : eat? '!' cs = some (x.script ++ rest) := eat?_of_trimStart hcs
      simp only [heat] at hr
      obtain ⟨operand, hoperand, hr⟩ := exists_of_bind_eq_ok hr
      obtain rfl := Except.ok.inj hr
      simpa [all, isUngrouped] using ih x hx (by simpa using hlength) _ rest hrest
        (trimStart_script hx rest) operand hoperand
    | none =>
      simp only [eat?_not_of_unnegate hwritable hnegation hcs] at hr
      obtain hstuck | ⟨base, steps, hungrouped, -, -, -, hr⟩ := comesTo_of_settles ih e hwritable
        hnegation hlength cs rest hrest.delimited (fun _ => hrest.head?_ne (by decide)) hcs r hr
      · exact .inr hstuck
      · rw [readMembers_of_ends hrest] at hr
        obtain rfl := Except.ok.inj hr
        exact .inl ⟨hungrouped, rfl⟩

/-! ## Scripts as expressions -/

mutual

theorem all_isWritable : (e : Expr) → e.all isReadable = true → e.all keepsLiteral = true →
    e.all isWritable = true
  | literal _, hreadable, hkeeps => Bool.and_eq_true_iff.mpr ⟨hreadable, hkeeps⟩
  | undefined, _, _ => rfl
  | binding _, _, _ => rfl
  | member base property, hreadable, hkeeps => by
    simp only [all, Bool.and_eq_true] at hreadable hkeeps ⊢
    exact ⟨Bool.and_eq_true_iff.mpr ⟨hreadable.1, hkeeps.1⟩,
      all_isWritable base hreadable.2 hkeeps.2⟩
  | index base key, hreadable, hkeeps => by
    simp only [all, Bool.and_eq_true] at hreadable hkeeps ⊢
    exact ⟨⟨rfl, all_isWritable base hreadable.1.2 hkeeps.1.2⟩,
      all_isWritable key hreadable.2 hkeeps.2⟩
  | not operand, hreadable, hkeeps => by
    simp only [all, Bool.and_eq_true] at hreadable hkeeps ⊢
    exact ⟨rfl, all_isWritable operand hreadable.2 hkeeps.2⟩
  | call table function arguments, hreadable, hkeeps => by
    simp only [all, Bool.and_eq_true] at hreadable hkeeps ⊢
    exact ⟨Bool.and_eq_true_iff.mpr ⟨hreadable.1, hkeeps.1⟩,
      allOf_isWritable arguments hreadable.2 hkeeps.2⟩

theorem allOf_isWritable : (es : List Expr) → allOf isReadable es = true →
    allOf keepsLiteral es = true → allOf isWritable es = true
  | [], _, _ => rfl
  | e :: es, hreadable, hkeeps => by
    simp only [allOf, Bool.and_eq_true] at hreadable hkeeps ⊢
    exact ⟨all_isWritable e hreadable.1 hkeeps.1, allOf_isWritable es hreadable.2 hkeeps.2⟩

end

theorem trimStart_whole_script {e : Expr} (h : e.all isWritable = true) :
    Text.trimStart e.script = e.script ++ [] := by
  have htrim := trimStart_script h []
  rwa [List.append_nil] at htrim ⊢

theorem parse_script_of_isUngrouped {e : Expr} (hwritable : e.all isWritable = true)
    (hungrouped : e.all isUngrouped = true) : parse e.script = .ok e := by
  have hread := recovers_readUnary (e.script.length + 1) e hwritable hungrouped (Nat.le_succ _)
    e.script [] ends_nil (trimStart_whole_script hwritable)
  rw [parse, hread]
  rfl

/-- What a script is read as needs no parentheses, whatever it is the script of. -/
theorem all_isUngrouped_of_parse_script {e e' : Expr} (hwritable : e.all isWritable = true)
    (h : parse e.script = .ok e') : e'.all isUngrouped = true := by
  obtain ⟨r, hr, h⟩ := exists_of_bind_eq_ok h
  simp only at h
  obtain ⟨hungrouped, -⟩ | hstuck := settles_readUnary (e.script.length + 1) e hwritable
    (Nat.le_succ _) e.script [] ends_nil (trimStart_whole_script hwritable) r hr
  · split at h
    · obtain rfl := Except.ok.inj h
      exact hungrouped
    · cases h
  · rw [hstuck.trimStart] at h
    obtain ⟨c, cs, hrest, -⟩ := hstuck
    rw [hrest] at h
    cases h

/-! ## Values of scripts -/

theorem toOption_bind {ε α β : Type} (x : Except ε α) (f : α → Except ε β) :
    (x >>= f).toOption = x.toOption.bind fun a => (f a).toOption := by
  cases x with
  | error e => rfl
  | ok a => rfl

theorem toOption_call (library : Library) (table : FunctionTable) (function : Text)
    (arguments : List Value) (source source' : Text) :
    (library.call table function arguments source).toOption =
      (library.call table function arguments source').toOption := by
  cases table with
  | filters =>
    simp only [Library.call]
    cases library.filter? function with
    | none => rfl
    | some f => rfl
  | handlers => rfl

section Source

variable (scope : Scope) (library : Library) (source source' : Text)

mutual

/-- The text of an expression shows in errors only. -/
theorem toOption_eval : (e : Expr) →
    (e.eval scope library source).toOption = (e.eval scope library source').toOption
  | literal _ => rfl
  | undefined => rfl
  | binding _ => rfl
  | member base property => by
    simp only [eval, toOption_bind, toOption_eval base]
  | index base key => by
    simp only [eval, toOption_bind, toOption_eval base]
    congr 1
    funext v
    cases v with
    | none => rfl
    | some v =>
      simp only [toOption_bind, toOption_eval key]
  | not operand => by
    simp only [eval, toOption_bind, toOption_eval operand]
  | call table function arguments => by
    simp only [eval, toOption_bind, toOption_evalArguments arguments,
      toOption_call library table function _ source source']

theorem toOption_evalArguments : (es : List Expr) →
    (evalArguments scope library source es).toOption =
      (evalArguments scope library source' es).toOption
  | [] => rfl
  | e :: es => by
    simp only [evalArguments, toOption_bind, toOption_eval e, toOption_evalArguments es]

end

end Source

/-- The script of a text that is read as an expression is read as the same expression exactly if no
operand in it needs parentheses: no negation before a member or an index, no number before a member.
It has the same value then. -/
theorem parse_scriptOfSource_iff {source : Text} {e : Expr} (h : parse source = .ok e)
    (hkeeps : e.all keepsLiteral = true) :
    (parse (scriptOfSource source) = .ok e ↔ e.all isUngrouped = true) ∧
      (e.all isUngrouped = true → ∀ scope library,
        ((Formula.ofSource (scriptOfSource source)).eval scope library).toOption =
          ((Formula.ofSource source).eval scope library).toOption) := by
  have hwritable := all_isWritable e (all_isReadable_of_parse h) hkeeps
  have hscript : scriptOfSource source = e.script := by rw [scriptOfSource, h]
  rw [hscript]
  refine ⟨⟨all_isUngrouped_of_parse_script hwritable, parse_script_of_isUngrouped hwritable⟩,
    fun hungrouped scope library => ?_⟩
  simp only [Formula.ofSource, Formula.eval, h, parse_script_of_isUngrouped hwritable hungrouped]
  exact toOption_eval scope library e.script source e

/-- Parentheses around a negation, a name and an index that do without them. -/
theorem parse_scriptOfSource_iff_groups :
    let source : Text := "filters.f((!!(a)['k\"']), -12)[b].d"
    scriptOfSource source = "filters.f(!!data.a[\"k\\\"\"], -12)[data.b].d".toList ∧
      ∃ e, (parse source = .ok e ∧ e.all keepsLiteral = true ∧ e.all isUngrouped = true) ∧
        parse (scriptOfSource source) = .ok e ∧ ∀ scope library,
          ((Formula.ofSource (scriptOfSource source)).eval scope library).toOption =
            ((Formula.ofSource source).eval scope library).toOption := by
  intro source
  have hall : (parse source).toOption.any fun e => e.all keepsLiteral && e.all isUngrouped := by
    decide +kernel
  obtain ⟨e, he, hall⟩ := (Option.any_eq_true _ _).mp hall
  obtain ⟨hkeeps, hungrouped⟩ := (Bool.and_eq_true _ _).mp hall
  have hparse : parse source = .ok e := by
    cases hsource : parse source with
    | error cause => rw [hsource] at he; cases he
    | ok e' => rw [hsource] at he; exact congrArg Except.ok (Option.some.inj he)
  obtain ⟨hiff, hvalue⟩ := parse_scriptOfSource_iff hparse hkeeps
  exact ⟨by decide +kernel, e, ⟨hparse, hkeeps, hungrouped⟩, hiff.mpr hungrouped, hvalue hungrouped⟩

/-- A member of a negation is undefined, the script is the negation of a member. -/
theorem parse_scriptOfSource_ne :
    let e : Expr := .member (.not (.member (.binding .data) "a")) "b"
    let e' : Expr := .not (.member (.member (.binding .data) "a") "b")
    (parse "(!a).b" = .ok e ∧ e.all keepsLiteral = true) ∧ e ≠ e' ∧
      parse (scriptOfSource "(!a).b") = .ok e' ∧
      (Formula.ofSource "(!a).b").eval (.ofRoot .null) .empty = .ok none ∧
      (Formula.ofSource (scriptOfSource "(!a).b")).eval (.ofRoot .null) .empty =
        .ok (some (.bool true)) :=
  ⟨⟨rfl, rfl⟩, nofun, rfl, rfl, rfl⟩

/-- The script of a member of a number cannot be read. -/
example : parse (scriptOfSource "(1).a") = .error (.expected .endOfExpression "a") := by rfl

end Expr

end HtmlTemplate
