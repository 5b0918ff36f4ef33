import HtmlTemplate.Proofs.Expr.Reading

/-!
What holds of every expression that is read: its names are identifiers and its integers have 64
bits (`all_isReadable_of_parse`). The readers take the reader of the level below as an argument, so
there is a lemma for each of them that says it of what they give if it holds of that reader.
-/

namespace HtmlTemplate

namespace Expr

mutual

/-- The condition holds of the expression and of every expression in it. -/
def all (p : Expr → Bool) : Expr → Bool
  | literal l => p (literal l)
  | undefined => p undefined
  | binding b => p (binding b)
  | member base property => p (member base property) && base.all p
  | index base key => p (index base key) && base.all p && key.all p
  | not operand => p (not operand) && operand.all p
  | call table function arguments => p (call table function arguments) && allOf p arguments

def allOf (p : Expr → Bool) : List Expr → Bool
  | [] => true
  | e :: es => e.all p && allOf p es

end

/-- A name is an identifier, an integer one of 64 bits. -/
def isReadable : Expr → Bool
  | member _ property => isIdent property
  | call _ function _ => isIdent function
  | literal (.number (.int i)) => isInt64 i
  | _ => true

/-! ## Readers of parts -/

theorem exists_of_bind_eq_ok {ε α β : Type} {x : Except ε α} {f : α → Except ε β} {b : β}
    (h : x >>= f = .ok b) : ∃ a, x = .ok a ∧ f a = .ok b := by
  cases x with
  | error e => cases h
  | ok a => exact ⟨a, rfl, h⟩

theorem isIdent_of_readIdent {wanted : Wanted} {cs : Text} {r : Text × Text}
    (h : readIdent wanted cs = .ok r) : isIdent r.1 = true := by
  unfold readIdent at h
  split at h
  · cases h
  · next c rest _ =>
    split at h
    · next hstart =>
      obtain rfl := Except.ok.inj h
      rw [isIdent, hstart, List.all_takeWhile]
      rfl
    · cases h

theorem isInt64_of_numberOfText? {text : Text} {i : Int} (h : numberOfText? text = some (.int i)) :
    isInt64 i = true := by
  unfold numberOfText? at h
  split at h
  next negative unsigned _ =>
    simp only at h
    generalize (if negative = true then -(digitsValue (unsigned.takeWhile (· != '.')) : Int)
      else digitsValue (unsigned.takeWhile (· != '.'))) = value at h
    split at h
    · next hbound =>
      obtain rfl := Number.int.inj (Option.some.inj h)
      simpa [isInt64] using hbound.2
    · split at h
      · cases h
      · obtain ⟨x, -, hx⟩ := Option.map_eq_some_iff.mp h
        cases hx

theorem isReadable_of_readNumber {cs : Text} {r : Number × Text} (h : readNumber cs = .ok r) :
    isReadable (literal (.number r.1)) = true := by
  cases cs with
  | nil => cases h
  | cons c cs =>
    rw [readNumber_cons] at h
    split at h
    · next n hn =>
      obtain rfl := Except.ok.inj h
      cases n with
      | int i => exact isInt64_of_numberOfText? hn
      | float x => rfl
    · cases h

/-! ## Readers of expressions -/

/-- What the reader gives is readable in all its parts. -/
def Reads (reader : ExprReader) : Prop :=
  ∀ cs r, reader cs = .ok r → r.1.all isReadable = true

variable {unary : ExprReader}

theorem reads_readArguments (h : Reads unary) (steps : Nat) :
    ∀ cs r, readArguments unary steps cs = .ok r → allOf isReadable r.1 = true := by
  induction steps with
  | zero =>
    intro cs r hr
    cases hr
  | succ steps ih =>
    intro cs r hr
    unfold readArguments at hr
    obtain ⟨⟨e, rest⟩, he, hr⟩ := exists_of_bind_eq_ok hr
    have hreadable := h cs (e, rest) he
    simp only at hr
    split at hr
    · obtain rfl := Except.ok.inj hr
      simp [allOf, hreadable]
    · obtain ⟨rest, -, hr⟩ := exists_of_bind_eq_ok hr
      obtain ⟨⟨es, rest⟩, hes, hr⟩ := exists_of_bind_eq_ok hr
      obtain rfl := Except.ok.inj hr
      simp [allOf, hreadable, ih _ _ hes]

theorem reads_readCall (h : Reads unary) (table : FunctionTable) :
    Reads (readCall unary table) := by
  intro cs r hr
  unfold readCall at hr
  obtain ⟨rest, -, hr⟩ := exists_of_bind_eq_ok hr
  obtain ⟨⟨function, rest⟩, hfunction, hr⟩ := exists_of_bind_eq_ok hr
  have hident := isIdent_of_readIdent hfunction
  obtain ⟨rest, -, hr⟩ := exists_of_bind_eq_ok hr
  simp only at hr
  split at hr
  · obtain rfl := Except.ok.inj hr
    simp [all, allOf, isReadable, hident]
  · obtain ⟨⟨arguments, rest⟩, harguments, hr⟩ := exists_of_bind_eq_ok hr
    obtain rfl := Except.ok.inj hr
    simp [all, isReadable, hident, reads_readArguments h _ _ _ harguments]

theorem reads_readNamed (h : Reads unary) {ident : Text} (hident : isIdent ident = true) :
    Reads (readNamed unary ident) := by
  intro cs r hr
  unfold readNamed at hr
  iterate 4
    split at hr
    · obtain rfl := Except.ok.inj hr
      rfl
  split at hr
  · exact reads_readCall h _ cs r hr
  split at hr
  · exact reads_readCall h _ cs r hr
  split at hr
  · obtain rfl := Except.ok.inj hr
    rfl
  · obtain rfl := Except.ok.inj hr
    simp [all, isReadable, hident]

theorem reads_readPrimary (h : Reads unary) : Reads (readPrimary unary) := by
  intro cs r hr
  unfold readPrimary at hr
  split at hr
  · cases hr
  · split at hr
    · obtain ⟨⟨e, inner⟩, he, hr⟩ := exists_of_bind_eq_ok hr
      obtain ⟨rest, -, hr⟩ := exists_of_bind_eq_ok hr
      obtain rfl := Except.ok.inj hr
      exact h _ (e, inner) he
    · split at hr
      · obtain ⟨⟨s, rest⟩, -, hr⟩ := exists_of_bind_eq_ok hr
        obtain rfl := Except.ok.inj hr
        rfl
      · split at hr
        · obtain ⟨⟨n, rest⟩, hn, hr⟩ := exists_of_bind_eq_ok hr
          obtain rfl := Except.ok.inj hr
          exact isReadable_of_readNumber hn
        · obtain ⟨⟨ident, rest⟩, hident, hr⟩ := exists_of_bind_eq_ok hr
          exact reads_readNamed h (isIdent_of_readIdent hident) rest r hr

theorem reads_readMembers (h : Reads unary) (steps : Nat) {base : Expr}
    (hbase : base.all isReadable = true) : Reads (readMembers unary steps base) := by
  induction steps generalizing base with
  | zero =>
    intro cs r hr
    obtain rfl := Except.ok.inj hr
    exact hbase
  | succ steps ih =>
    intro cs r hr
    unfold readMembers at hr
    split at hr
    · obtain ⟨⟨property, rest⟩, hproperty, hr⟩ := exists_of_bind_eq_ok hr
      exact ih (by simp [all, isReadable, hbase, isIdent_of_readIdent hproperty]) rest r hr
    · split at hr
      · obtain ⟨⟨key, rest⟩, hkey, hr⟩ := exists_of_bind_eq_ok hr
        obtain ⟨rest, -, hr⟩ := exists_of_bind_eq_ok hr
        exact ih (by simp [all, isReadable, hbase, h _ _ hkey]) rest r hr
      · obtain rfl := Except.ok.inj hr
        exact hbase

theorem reads_readUnary (depth : Nat) : Reads (readUnary depth) := by
  induction depth with
  | zero =>
    intro cs r hr
    cases hr
  | succ depth ih =>
    intro cs r hr
    unfold readUnary at hr
    split at hr
    · obtain ⟨⟨operand, rest⟩, hoperand, hr⟩ := exists_of_bind_eq_ok hr
      obtain rfl := Except.ok.inj hr
      simp [all, isReadable, ih _ _ hoperand]
    · obtain ⟨⟨base, rest⟩, hbase, hr⟩ := exists_of_bind_eq_ok hr
      exact reads_readMembers ih _ (reads_readPrimary ih _ _ hbase) rest r hr

/-- An expression that was read has identifiers for names, and integers of 64 bits. -/
theorem all_isReadable_of_parse {source : Text} {e : Expr} (h : parse source = .ok e) :
    e.all isReadable = true := by
  unfold parse at h
  obtain ⟨⟨e', rest⟩, he, h⟩ := exists_of_bind_eq_ok h
  simp only at h
  split at h
  · obtain rfl := Except.ok.inj h
    exact reads_readUnary _ _ _ he
  · cases h

end Expr

end HtmlTemplate
