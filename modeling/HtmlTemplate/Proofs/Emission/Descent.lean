import HtmlTemplate.Emission.Element

/-!
The instructions of a token range by recursive descent. An element whose closing tag lies in the
range is emitted as a whole, with the range between its tags inside, so no stack of waiting
elements is needed, and directives open where their instructions stand, so no cursor is. What an
element emits depends on the directives around it by two numbers only, its `Context`.
-/

namespace HtmlTemplate

structure Context where
  /-- Number of includes around that can take partials. -/
  includes : Nat
  /-- Number of loops around. -/
  loops : Nat
deriving DecidableEq

namespace Fragment

def instr : Fragment → Instr
  | text t => .text t
  | interpolation escaped content => .append [.value (.ofContent escaped content)]

end Fragment

namespace Instr

def literal (t : Text) : List Instr := (Fragment.split t).map Fragment.instr

end Instr

namespace Directive

def rank : Directive → Nat
  | inclusion => 0
  | partialSlot => 1
  | condition => 2
  | iteration => 3

end Directive

namespace Clause

def opensBy (c d : Clause) : Bool := c.directive.rank ≤ d.directive.rank

/-- The directives of an element in the order in which they open. Those of one rank stay in the
order of the attributes. -/
def inOrder (attributes : List Attribute) : List Clause :=
  (attributes.filterMap ofAttribute?).mergeSort opensBy

theorem opensBy_trans (a b c : Clause) (hab : opensBy a b) (hbc : opensBy b c) : opensBy a c :=
  decide_eq_true (Nat.le_trans (of_decide_eq_true hab) (of_decide_eq_true hbc))

theorem opensBy_total (a b : Clause) : opensBy a b || opensBy b a := by
  simpa [opensBy] using Nat.le_total a.directive.rank b.directive.rank

theorem filter_mergeSort (d : Directive) (cs : List Clause) :
    (cs.mergeSort opensBy).filter (·.directive == d) = cs.filter (·.directive == d) := by
  have hties : (cs.filter (·.directive == d)).Pairwise fun a b => opensBy a b := by
    refine List.pairwise_of_forall_mem_list fun a ha b hb => ?_
    have ha := beq_iff_eq.mp (List.mem_filter.mp ha).2
    have hb := beq_iff_eq.mp (List.mem_filter.mp hb).2
    simp [opensBy, ha, hb]
  have hstable := List.sublist_mergeSort opensBy_trans opensBy_total hties List.filter_sublist
  have hsublist := hstable.filter (·.directive == d)
  simp only [List.filter_filter, Bool.and_self] at hsublist
  exact (hsublist.eq_of_length ((List.mergeSort_perm cs opensBy).filter _).length_eq.symm).symm

/-- Clauses in order are not moved. -/
theorem sort_of_pairwise {cs : List Clause} (h : cs.Pairwise fun a b => opensBy a b) :
    sort cs = cs := by
  induction cs with
  | nil => rfl
  | cons c cs ih =>
    obtain ⟨hc, hcs⟩ := List.pairwise_cons.mp h
    have hnone (d : Directive) (hd : d.rank < c.directive.rank) :
        cs.filter (·.directive == d) = [] := by
      refine List.filter_eq_nil_iff.mpr fun e he heq => ?_
      have hle := of_decide_eq_true (hc e he)
      rw [beq_iff_eq.mp heq] at hle
      omega
    have hrest := ih hcs
    simp only [sort, Directive.priority, List.flatMap_cons, List.flatMap_nil] at hrest ⊢
    cases hd : c.directive with
    | inclusion => simpa [List.filter_cons, hd] using hrest
    | partialSlot =>
      have hinclusion := hnone .inclusion (by rw [hd]; decide)
      simpa [List.filter_cons, hd, hinclusion] using hrest
    | condition =>
      have hinclusion := hnone .inclusion (by rw [hd]; decide)
      have hpartial := hnone .partialSlot (by rw [hd]; decide)
      simpa [List.filter_cons, hd, hinclusion, hpartial] using hrest
    | iteration =>
      have hinclusion := hnone .inclusion (by rw [hd]; decide)
      have hpartial := hnone .partialSlot (by rw [hd]; decide)
      have hcondition := hnone .condition (by rw [hd]; decide)
      simpa [List.filter_cons, hd, hinclusion, hpartial, hcondition] using hrest

theorem inOrder_eq_ofAttributes (attributes : List Attribute) :
    inOrder attributes = ofAttributes attributes := by
  have hsorted := List.pairwise_mergeSort opensBy_trans opensBy_total
    (attributes.filterMap ofAttribute?)
  rw [inOrder, ofAttributes, ← sort_of_pairwise hsorted, sort, sort]
  simp only [filter_mergeSort]

/-- The context inside a clause. Partials inside of a registered partial are looked up. -/
def inside (x : Context) (c : Clause) : Context :=
  match c.directive with
  | .condition => x
  | .iteration => { x with loops := x.loops + 1 }
  | .inclusion => { x with includes := x.includes + 1 }
  | .partialSlot => { x with includes := 0 }

/-- What a clause emits in front of its content. -/
def opening (x : Context) (c : Clause) : List Instr :=
  match c.directive with
  | .condition => [.ifOpen (Text.trim c.value)]
  | .iteration => [.eachOpen (Text.trim c.value) x.loops]
  | .inclusion => [.includeOpen]
  | .partialSlot => if x.includes > 0 then [.partialOpen (Target.ofText c.value).name] else []

/-- What a clause emits after its content. -/
def closing (x : Context) (c : Clause) : List Instr :=
  match c.directive with
  | .condition => [.ifClose]
  | .iteration => [.eachClose x.loops]
  | .inclusion => [.includeClose (Target.ofText c.value)]
  | .partialSlot =>
    if x.includes > 0 then [.partialClose] else [.partialInvoke (Target.ofText c.value)]

/-- What a clause emits for an element without content. -/
def invocation (c : Clause) : List Instr :=
  match c.directive with
  | .inclusion => [.includeInvoke (Target.ofText c.value)]
  | .partialSlot => [.partialInvoke (Target.ofText c.value)]
  | .condition | .iteration => []

/-- Clauses around a body: they open in order and close in the reverse order, and each stands in the
context inside those before it. -/
def around (x : Context) : List Clause → (Context → List Instr) → List Instr
  | [], body => body x
  | c :: cs, body => c.opening x ++ around (c.inside x) cs body ++ c.closing x

end Clause

namespace Token

/-- The instructions of an element with a body between its tags. -/
def elementInstrs (options : Options) (x : Context) (t : Token) (closingTag : Text)
    (body : Context → List Instr) : List Instr :=
  let clauses := Clause.inOrder t.attributes
  if clauses.isEmpty then Instr.literal t.text ++ body x ++ Instr.literal closingTag
  else
    match t.keptTag? options with
    | some tag =>
      let (outer, inner) := Clause.split x.includes clauses
      Clause.around x outer fun x =>
        Instr.literal tag ++ Clause.around x inner body ++ Instr.literal closingTag
    | none => Clause.around x clauses body

/-- The instructions of an opening tag that stands alone. -/
def loneInstrs (options : Options) (x : Context) (t : Token) : List Instr :=
  let clauses := Clause.inOrder t.attributes
  if clauses.isEmpty then Instr.literal t.text
  else
    let (invoked, wrapping) := clauses.partition (·.directive.isInvocable)
    Clause.around x wrapping fun _ =>
      (t.keptTag? options).elim [] Instr.literal ++ invoked.flatMap Clause.invocation

/-- The instructions of a token that is not emitted with another one. -/
def instrs (options : Options) (x : Context) (t : Token) : List Instr :=
  match t.kind with
  | .text | .doctype | .tagClose => Instr.literal t.text
  | .comment => if isConditionalComment t.text then [.text t.text] else []
  | .tagOpen => t.loneInstrs options x

namespace Paired

/-- The position of the closing tag of an element that opens at position `lo`, if it lies between
`lo` and `hi`. -/
def closing? (t : Paired) (lo hi : Nat) : Option Nat :=
  if t.token.kind = .tagOpen then t.partner.filter fun e => lo < e ∧ e < hi else none

theorem lt_of_closing? {t : Paired} {lo hi e : Nat} (h : t.closing? lo hi = some e) :
    lo < e ∧ e < hi := by
  unfold closing? at h
  split at h
  · simpa using (Option.filter_eq_some_iff.mp h).2
  · simp at h

theorem kind_of_closing? {t : Paired} {lo hi e : Nat} (h : t.closing? lo hi = some e) :
    t.token.kind = .tagOpen ∧ t.partner = some e := by
  unfold closing? at h
  split at h
  · next hkind => exact ⟨hkind, (Option.filter_eq_some_iff.mp h).1⟩
  · simp at h

end Paired

def textAt (tokens : List Paired) (i : Nat) : Text := (tokens[i]?.map (·.token.text)).getD []

/-- The instructions of the tokens at the positions from `lo` up to `hi`, `hi` not included. -/
def rangeInstrs (options : Options) (tokens : List Paired) (x : Context) (lo hi : Nat) :
    List Instr :=
  if _hlo : lo < hi then
    match tokens[lo]? with
    | none => []
    | some t =>
      match _h : t.closing? lo hi with
      | some e =>
        t.token.elementInstrs options x (textAt tokens e)
            (fun x => rangeInstrs options tokens x (lo + 1) e) ++
          rangeInstrs options tokens x (e + 1) hi
      | none => t.token.instrs options x ++ rangeInstrs options tokens x (lo + 1) hi
  else []
termination_by hi - lo
decreasing_by
  all_goals try have := Paired.lt_of_closing? _h
  all_goals omega

theorem rangeInstrs_self (options : Options) (tokens : List Paired) (x : Context) (lo : Nat) :
    rangeInstrs options tokens x lo lo = [] := by
  unfold rangeInstrs
  exact dif_neg (Nat.lt_irrefl lo)

theorem rangeInstrs_element {options : Options} {tokens : List Paired} {t : Paired} {lo hi e : Nat}
    (ht : tokens[lo]? = some t) (h : t.closing? lo hi = some e) (x : Context) :
    rangeInstrs options tokens x lo hi =
      t.token.elementInstrs options x (textAt tokens e)
          (fun x => rangeInstrs options tokens x (lo + 1) e) ++
        rangeInstrs options tokens x (e + 1) hi := by
  have hbounds := Paired.lt_of_closing? h
  conv => lhs; unfold rangeInstrs
  rw [dif_pos (by omega)]
  simp only [ht]
  split
  · next e' he =>
    obtain rfl := Option.some.inj (h.symm.trans he)
    rfl
  · next hnone => simp [hnone] at h

theorem rangeInstrs_single {options : Options} {tokens : List Paired} {t : Paired} {lo hi : Nat}
    (hlt : lo < hi) (ht : tokens[lo]? = some t) (h : t.closing? lo hi = none) (x : Context) :
    rangeInstrs options tokens x lo hi =
      t.token.instrs options x ++ rangeInstrs options tokens x (lo + 1) hi := by
  conv => lhs; unfold rangeInstrs
  rw [dif_pos hlt]
  simp only [ht]
  split
  · next hsome => simp [hsome] at h
  · rfl

end Token

end HtmlTemplate
