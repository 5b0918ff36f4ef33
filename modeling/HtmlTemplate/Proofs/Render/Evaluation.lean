import HtmlTemplate.Proofs.Instr.Blocks
import HtmlTemplate.Render.Template

/-!
What block trees mean. A tree is evaluated in a scope, without places, jumps or a state that
changes: its outcome is the text it writes and the partials it registers (`Blocks.eval`). What a
condition takes for false, the rounds of a loop, the partials that an include hands out and the
output of a piece are said here on their own, and shown to be what programs work out for them.
-/

namespace HtmlTemplate

namespace Value

inductive IsFalsy : Option Value → Prop
  | missing : IsFalsy none
  | null : IsFalsy (some .null)
  | bool : IsFalsy (some (.bool false))
  | int : IsFalsy (some (.number (.int 0)))
  | float (negative : Bool) (exponent : Int) :
      IsFalsy (some (.number (.float ⟨negative, 0, exponent⟩)))
  | string : IsFalsy (some (.string []))

theorem isFalsy_iff {v : Option Value} : IsFalsy v ↔ holds v = false := by
  constructor
  · rintro (_ | _ | _ | _ | ⟨negative, exponent⟩ | _) <;> rfl
  · intro h
    match v with
    | none => exact .missing
    | some .null => exact .null
    | some (.bool false) => exact .bool
    | some (.number (.int i)) =>
      obtain rfl : i = 0 := by simpa [holds, Number.isZero] using h
      exact .int
    | some (.number (.float ⟨negative, significand, exponent⟩)) =>
      obtain rfl : significand = 0 := by simpa [holds, Number.isZero, Binary64.isZero] using h
      exact .float negative exponent
    | some (.string s) =>
      obtain rfl : s = [] := by simpa [holds] using h
      exact .string

theorem not_isFalsy_iff {v : Option Value} : ¬IsFalsy v ↔ holds v = true := by
  rw [isFalsy_iff, Bool.not_eq_false]

instance (v : Option Value) : Decidable (IsFalsy v) := decidable_of_iff _ isFalsy_iff.symm

end Value

namespace Scope

/-- The scope of a round of a loop that goes around `count` times. -/
def round (outer : Scope) (count : Nat) (key item : Value) : Scope where
  root := outer.root
  data := item
  parent := some outer.data
  key := some key
  length := some (.number (.int count))

/-- The rounds over array items, of which the first has the index `i`. -/
def itemRounds (outer : Scope) (count : Nat) : (i : Nat) → List Value → List Scope
  | _, [] => []
  | i, item :: items =>
    outer.round count (.number (.int i)) item :: outer.itemRounds count (i + 1) items

def fieldRounds (outer : Scope) (count : Nat) : List (Text × Value) → List Scope
  | [] => []
  | (name, item) :: fields =>
    outer.round count (.string name) item :: outer.fieldRounds count fields

/-- The rounds of a loop, in order: one for each item of an array or field of an object. -/
def rounds (outer : Scope) : Option Value → List Scope
  | some (.array items) => outer.itemRounds items.length 0 items
  | some (.object fields) => outer.fieldRounds fields.length fields
  | _ => []

theorem itemRounds_eq_map (outer : Scope) (count i : Nat) (items : List Value) :
    outer.itemRounds count i items =
      (items.mapIdx fun j item => (Value.ofNat (i + j), item)).map
        fun entry => outer.round count entry.1 entry.2 := by
  induction items generalizing i with
  | nil => rfl
  | cons item items ih =>
    rw [itemRounds, ih, List.mapIdx_cons, List.map_cons]
    simp only [Nat.add_assoc, Nat.add_comm 1]
    rfl

theorem fieldRounds_eq_map (outer : Scope) (count : Nat) (fields : List (Text × Value)) :
    outer.fieldRounds count fields =
      fields.map fun field => outer.round count (.string field.1) field.2 := by
  induction fields with
  | nil => rfl
  | cons field fields ih => rw [fieldRounds, ih, List.map_cons]

/-- A loop goes around once for each entry. -/
theorem rounds_eq_map (outer : Scope) (v : Option Value) :
    outer.rounds v = (v.getD .null).entries.map
      fun entry => outer.round (v.getD .null).entries.length entry.1 entry.2 := by
  match v with
  | none | some .null | some (.bool _) | some (.number _) | some (.string _) => rfl
  | some (.array items) =>
    have hcount : (Value.array items).entries.length = items.length := List.length_mapIdx
    rw [rounds, itemRounds_eq_map, Option.getD_some, hcount]
    simp only [Value.entries, Nat.zero_add]
  | some (.object fields) =>
    have hcount : (Value.object fields).entries.length = fields.length := List.length_map _
    rw [rounds, fieldRounds_eq_map, Option.getD_some, hcount, Value.entries, List.map_map]
    rfl

end Scope

namespace Library

def handle (library : Library) (value : Value) (name : Text) : Except RenderError Value :=
  match library.handler? name with
  | some h => .ok (h value [])
  | none => .error (.unknownHandler name)

theorem applyHandlers_eq_foldlM (library : Library) (value : Value) (names : List Text) :
    library.applyHandlers value names = names.foldlM library.handle value := by
  induction names generalizing value with
  | nil => rfl
  | cons name names ih =>
    rw [applyHandlers, List.foldlM_cons, handle]
    cases library.handler? name with
    | none => rfl
    | some h => exact ih _

end Library

namespace Piece

/-- What a piece writes. A value that is missing or `null` writes nothing, and its handlers are not
looked up. -/
def written (scope : Scope) (library : Library) : Piece → Except RenderError Text
  | .text t => .ok t
  | .value v => do
    match ← (Formula.ofSource v.expr).eval scope library with
    | none | some .null => .ok []
    | some result => do
      let handled ← v.handlers.foldlM library.handle result
      .ok handled.outputText

theorem write_ofPiece (scope : Scope) (library : Library) (p : Piece) :
    (Part.ofPiece p).write scope library = p.written scope library := by
  cases p with
  | text t => rfl
  | value v =>
    rw [Part.ofPiece, Part.write, written]
    cases (Formula.ofSource v.expr).eval scope library with
    | error e => rfl
    | ok result =>
      cases result with
      | none => rfl
      | some result =>
        cases result with
        | null => rfl
        | _ =>
          simp only [bind, Except.bind, Library.applyHandlers_eq_foldlM]
          rfl

theorem writeAll_map_ofPiece (scope : Scope) (library : Library) (pieces : List Piece) :
    Part.writeAll scope library (pieces.map .ofPiece) =
      (pieces.mapM (written scope library)).map List.flatten := by
  induction pieces with
  | nil => rfl
  | cons p pieces ih =>
    rw [List.map_cons, Part.writeAll, write_ofPiece, List.mapM_cons]
    cases p.written scope library with
    | error e => rfl
    | ok t =>
      simp only [ih]
      cases pieces.mapM (written scope library) <;> rfl

end Piece

theorem Table.lookup_single {α : Type} (name n : Text) (value : α) :
    [(n, value)].lookup name = if name = n then some value else none := by
  rw [List.lookup_eq_findSome?]
  by_cases hname : name = n <;> simp [hname]

/-- The entries that are inserted last come first. -/
theorem Table.get?_foldl_insert {α : Type} (entries : List (Text × α)) (t : Table α)
    (name : Text) :
    (entries.foldl (fun t (name, value) => t.insert name value) t).get? name =
      (entries.reverse.lookup name).or (t.get? name) := by
  induction entries generalizing t with
  | nil => rfl
  | cons entry entries ih =>
    obtain ⟨n, value⟩ := entry
    rw [List.foldl_cons, ih, List.reverse_cons, List.lookup_append, Option.or_assoc, lookup_single]
    by_cases hname : name = n <;> simp [insert, hname]

/-- What blocks give: their output, and the partials registered for the include around them, in
order. -/
structure Outcome (ρ σ : Type) where
  text : Text
  partials : List (Text × Partial ρ σ)

namespace Outcome

variable {ρ σ : Type}

def empty : Outcome ρ σ := ⟨[], []⟩

def written (t : Text) : Outcome ρ σ := ⟨t, []⟩

def append (o p : Outcome ρ σ) : Outcome ρ σ := ⟨o.text ++ p.text, o.partials ++ p.partials⟩

def concat (os : List (Outcome ρ σ)) : Outcome ρ σ := os.foldr append empty

/-- The partials for an include: under each name the one that was registered last. -/
def handedOut (o : Outcome ρ σ) : Partials ρ σ := ⟨fun name => o.partials.reverse.lookup name⟩

@[simp] theorem handedOut_empty : (empty : Outcome ρ σ).handedOut = .empty := rfl

theorem handedOut_eq_ofList (o : Outcome ρ σ) : o.handedOut = .ofList o.partials := by
  ext name : 1
  rw [Table.ofList, Table.get?_foldl_insert]
  exact (Option.or_none).symm

end Outcome

namespace Blocks

variable {ρ σ : Type}

/-- The output of the target of an include that hands out partials. -/
def includeText (rts : Runtimes ρ σ) (rt : ρ) (scope : Scope) (partials : Partials ρ σ)
    (target : Target) : RenderM σ Text := do
  let v ← .ofExcept ((Formula.ofSource target.data).eval scope (rts.library rt))
  rts.render rt (v.getD .null) partials target.name

def partialText (rts : Runtimes ρ σ) (inputs : Partials ρ σ) (rt : ρ) (scope : Scope)
    (target : Target) : RenderM σ Text :=
  match inputs.get? target.name with
  | none => pure []
  | some p => do
    let v ← .ofExcept ((Formula.ofSource target.data).eval scope (rts.library rt))
    p rt (v.getD .null)

/-- Evaluates blocks in a scope. A registered partial keeps the scope it is registered in and
replaces the data only. -/
def eval (rts : Runtimes ρ σ) (inputs : Partials ρ σ) :
    Blocks → ρ → Scope → RenderM σ (Outcome ρ σ)
  | nil, _, _ => pure .empty
  | append pieces rest, rt, scope => do
    let ts ← .ofExcept (pieces.mapM fun p => p.written scope (rts.library rt))
    let o ← rest.eval rts inputs rt scope
    pure ((Outcome.written ts.flatten).append o)
  | condition expr body rest, rt, scope => do
    let v ← .ofExcept ((Formula.ofSource expr).eval scope (rts.library rt))
    let o ← if Value.IsFalsy v then pure .empty else body.eval rts inputs rt scope
    let p ← rest.eval rts inputs rt scope
    pure (o.append p)
  | loop expr _ body rest, rt, scope => do
    let v ← .ofExcept ((Formula.ofSource expr).eval scope (rts.library rt))
    let os ← (scope.rounds v).mapM fun inner => body.eval rts inputs rt inner
    let p ← rest.eval rts inputs rt scope
    pure ((Outcome.concat os).append p)
  | inclusion body target rest, rt, scope => do
    let o ← body.eval rts inputs rt scope
    let t ← includeText rts rt scope o.handedOut target
    let p ← rest.eval rts inputs rt scope
    pure ((Outcome.written (o.text ++ t)).append p)
  | includeInvoke target rest, rt, scope => do
    let t ← includeText rts rt scope Outcome.empty.handedOut target
    let p ← rest.eval rts inputs rt scope
    pure ((Outcome.written t).append p)
  | registration name body rest, rt, scope => do
    let registered : Partial ρ σ := fun rt data => do
      let o ← body.eval rts inputs rt { scope with data }
      pure o.text
    let p ← rest.eval rts inputs rt scope
    pure (Outcome.append ⟨[], [(name, registered)]⟩ p)
  | partialInvoke target rest, rt, scope => do
    let t ← partialText rts inputs rt scope target
    let p ← rest.eval rts inputs rt scope
    pure ((Outcome.written t).append p)

/-- The output of blocks as a template. Blocks that nest too deep are refused. -/
def render (b : Blocks) (rts : Runtimes ρ σ) (rt : ρ) (data : Value) (partials : Partials ρ σ) :
    RenderM σ Text :=
  if b.depth > maxBlockDepth then throw .blockDepth
  else do
    let o ← b.eval rts partials rt (.ofRoot data)
    pure o.text

end Blocks

end HtmlTemplate
