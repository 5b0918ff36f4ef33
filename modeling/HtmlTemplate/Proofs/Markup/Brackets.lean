import HtmlTemplate.Proofs.Markup.Tokens

/-!
Pairing as bracket matching, one kind of bracket for each tag name. `Bracketed` says what that is
for any assignment of partners to positions: a closing tag gets the nearest opening tag of its name
that no closing tag before it has got. It leaves no choice (`Bracketed.unique`).

The sweep of `pairsFrom` keeps the opening tags without a partner, nearest first (`Swept`), so each
closing tag meets the stack of what is open at that point (`mem_pairsFrom_iff`). For the tokens of
a template this makes the partners that `associate` writes down the one matching of brackets
(`bracketed_associate_lex`).
-/

namespace HtmlTemplate.Token

/-- At position `i` stands an opening tag of this name that does not close itself. -/
def OpensAt (ts : List Token) (name : Text) (i : Nat) : Prop :=
  ∃ t ∈ ts[i]?, t.kind = .tagOpen ∧ t.standalone = false ∧ t.name = name

/-- At position `i` stands a closing tag of this name. -/
def ClosesAt (ts : List Token) (name : Text) (i : Nat) : Prop :=
  ∃ t ∈ ts[i]?, t.kind = .tagClose ∧ t.name = name

instance (ts : List Token) (name : Text) (i : Nat) : Decidable (OpensAt ts name i) :=
  inferInstanceAs (Decidable (∃ t ∈ ts[i]?, _))

instance (ts : List Token) (name : Text) (i : Nat) : Decidable (ClosesAt ts name i) :=
  inferInstanceAs (Decidable (∃ t ∈ ts[i]?, _))

/-- Of the opening tags of this name before position `e` that are not taken, the nearest one
stands at position `b`. -/
structure IsNearest (ts : List Token) (Taken : Nat → Prop) (name : Text) (e b : Nat) : Prop where
  opens : OpensAt ts name b
  before : b < e
  free : ¬Taken b
  nearest : ∀ b', b < b' → b' < e → OpensAt ts name b' → Taken b'

/-- A closing tag before position `e` is the partner of the token at position `b`. -/
def IsTakenBefore (partner : Nat → Option Nat) (e b : Nat) : Prop := ∃ c < e, partner b = some c

/-- The partners of the tokens are those of bracket matching by tag name. -/
structure Bracketed (ts : List Token) (partner : Nat → Option Nat) : Prop where
  /-- A closing tag has the nearest opening tag of its name before it that is not yet taken. -/
  nearest : ∀ {name e}, ClosesAt ts name e →
    ∀ b, partner e = some b ↔ IsNearest ts (IsTakenBefore partner e) name e b
  /-- A closing tag has no partner if every opening tag of its name before it is taken. -/
  stray : ∀ {name e}, ClosesAt ts name e →
    (partner e = none ↔ ∀ b < e, OpensAt ts name b → IsTakenBefore partner e b)
  symm : ∀ b e, partner b = some e ↔ partner e = some b
  /-- Of two partners the earlier one is an opening tag and the later one closes its name. -/
  sides : ∀ {b e}, partner b = some e →
    b < e ∧ (∃ name, OpensAt ts name b ∧ ClosesAt ts name e) ∨
      e < b ∧ ∃ name, OpensAt ts name e ∧ ClosesAt ts name b
  disjoint : ∀ {b e b' e'}, b < e → b' < e' → partner b = some e → partner b' = some e' →
    b = b' ∨ b = e' ∨ e = b' ∨ e = e' → b = b' ∧ e = e'
  /-- A pair that starts inside another one of the same name ends inside it. -/
  uncrossed : ∀ {name b e b' e'}, OpensAt ts name b → OpensAt ts name b' →
    partner b = some e → partner b' = some e' → b < b' → b' < e → e' < e
  /-- Text, comments, document types and standalone tags have no partner. -/
  alone : ∀ {i t}, ts[i]? = some t → t.isTag = false ∨ t.standalone = true → partner i = none

variable {ts : List Token} {name : Text}

theorem OpensAt.not_closesAt {i : Nat} (h : OpensAt ts name i) (other : Text) :
    ¬ClosesAt ts other i := by
  rintro ⟨u, hu, hclose, -⟩
  obtain ⟨t, ht, hopen, -⟩ := h
  obtain rfl := Option.mem_unique ht hu
  rw [hopen] at hclose
  nomatch hclose

theorem OpensAt.isTag {t : Token} {i : Nat} (h : OpensAt ts name i) (ht : ts[i]? = some t) :
    t.isTag = true ∧ t.standalone = false := by
  obtain ⟨u, hu, hopen, hstandalone, -⟩ := h
  obtain rfl := Option.mem_unique ht hu
  exact ⟨by simp [Token.isTag, hopen], hstandalone⟩

theorem OpensAt.name_eq {other : Text} {i : Nat} (h : OpensAt ts name i)
    (h' : OpensAt ts other i) : name = other := by
  obtain ⟨t, ht, -, -, rfl⟩ := h
  obtain ⟨u, hu, -, -, rfl⟩ := h'
  rw [Option.mem_unique ht hu]

theorem ClosesAt.name_eq {other : Text} {i : Nat} (h : ClosesAt ts name i)
    (h' : ClosesAt ts other i) : name = other := by
  obtain ⟨t, ht, -, rfl⟩ := h
  obtain ⟨u, hu, -, rfl⟩ := h'
  rw [Option.mem_unique ht hu]

/-! ## The nearest opening tag -/

section

variable {Taken Taken' : Nat → Prop} {e b : Nat}

theorem IsNearest.unique {b' : Nat} (h : IsNearest ts Taken name e b)
    (h' : IsNearest ts Taken name e b') : b = b' := by
  rcases Nat.lt_trichotomy b b' with hlt | heq | hlt
  · exact absurd (h.nearest b' hlt h'.before h'.opens) h'.free
  · exact heq
  · exact absurd (h'.nearest b hlt h.before h.opens) h.free

/-- Only which opening tags are taken matters. -/
theorem IsNearest.congr (htaken : ∀ b < e, OpensAt ts name b → (Taken b ↔ Taken' b)) :
    IsNearest ts Taken name e b ↔ IsNearest ts Taken' name e b := by
  have half {Taken Taken' : Nat → Prop}
      (htaken : ∀ b < e, OpensAt ts name b → (Taken b ↔ Taken' b))
      (h : IsNearest ts Taken name e b) : IsNearest ts Taken' name e b :=
    ⟨h.opens, h.before, (htaken b h.before h.opens).not.mp h.free, fun b' hlt hbefore hopens =>
      (htaken b' hbefore hopens).mp (h.nearest b' hlt hbefore hopens)⟩
  exact ⟨half htaken, half fun b hlt hopens => (htaken b hlt hopens).symm⟩

theorem exists_isNearest (hopens : OpensAt ts name b) (hbefore : b < e) (hfree : ¬Taken b) :
    ∃ b, IsNearest ts Taken name e b := by
  induction e with
  | zero => exact absurd hbefore (Nat.not_lt_zero b)
  | succ e ih =>
    by_cases hlast : OpensAt ts name e ∧ ¬Taken e
    · exact ⟨e, hlast.1, Nat.lt_succ_self e, hlast.2, fun b' hlt hlt' => by omega⟩
    · have hne : b ≠ e := fun h => hlast (h ▸ ⟨hopens, hfree⟩)
      obtain ⟨b, h⟩ := ih (by omega)
      refine ⟨b, h.opens, Nat.lt_succ_of_lt h.before, h.free, fun b' hlt hlt' hopens' => ?_⟩
      rcases Nat.lt_succ_iff_lt_or_eq.mp hlt' with hlt' | rfl
      · exact h.nearest b' hlt hlt' hopens'
      · exact not_not.mp fun hfree' => hlast ⟨hopens', hfree'⟩

end

/-! ## The sweep -/

/-- The tag taken from those that wait comes before all others of its name. -/
theorem eq_append_of_takeWaiting {waiting others : List (Text × Nat)} {found : Nat}
    (h : takeWaiting name waiting = some (found, others)) :
    ∃ xs ys, waiting = xs ++ (name, found) :: ys ∧ others = xs ++ ys ∧ ∀ x ∈ xs, x.1 ≠ name := by
  induction waiting generalizing others with
  | nil => nomatch h
  | cons head waiting ih =>
    obtain ⟨n, i⟩ := head
    unfold takeWaiting at h
    split at h
    · next heq =>
      obtain ⟨rfl, rfl⟩ := Prod.mk.inj (Option.some.inj h)
      exact ⟨[], waiting, by rw [heq]; rfl, rfl, by simp⟩
    · next hne =>
      obtain ⟨⟨_, rest⟩, hrest, heq⟩ := Option.map_eq_some_iff.mp h
      obtain ⟨rfl, rfl⟩ := Prod.mk.inj heq
      obtain ⟨xs, ys, rfl, rfl, hxs⟩ := ih hrest
      exact ⟨(n, i) :: xs, ys, rfl, rfl, List.forall_mem_cons.mpr ⟨hne, hxs⟩⟩

/-- The tags that wait for a partner, with the later ones first. -/
def LatestFirst (waiting : List (Text × Nat)) : Prop := waiting.Pairwise fun x y => y.2 < x.2

section

variable {waiting others : List (Text × Nat)} {found : Nat}

theorem mem_of_takeWaiting (h : takeWaiting name waiting = some (found, others)) :
    (name, found) ∈ waiting := by
  obtain ⟨xs, ys, rfl, -, -⟩ := eq_append_of_takeWaiting h
  simp

theorem LatestFirst.of_takeWaiting (hwaiting : LatestFirst waiting)
    (h : takeWaiting name waiting = some (found, others)) : LatestFirst others := by
  obtain ⟨xs, ys, rfl, rfl, -⟩ := eq_append_of_takeWaiting h
  exact hwaiting.sublist (List.Sublist.append_left (List.sublist_cons_self _ ys) xs)

/-- The positions that wait are different, so the others are those at other positions. -/
theorem LatestFirst.mem_others_iff (hwaiting : LatestFirst waiting)
    (h : takeWaiting name waiting = some (found, others)) (x : Text × Nat) :
    x ∈ others ↔ x ∈ waiting ∧ x.2 ≠ found := by
  obtain ⟨xs, ys, rfl, rfl, -⟩ := eq_append_of_takeWaiting h
  obtain ⟨-, hys, hacross⟩ := List.pairwise_append.mp hwaiting
  have hxs : x ∈ xs → x.2 ≠ found := fun hx =>
    Nat.ne_of_gt (hacross x hx (name, found) List.mem_cons_self)
  have hys : x ∈ ys → x.2 ≠ found := fun hx => Nat.ne_of_lt ((List.pairwise_cons.mp hys).1 x hx)
  simp only [List.mem_append, List.mem_cons]
  constructor
  · rintro (hx | hx)
    · exact ⟨.inl hx, hxs hx⟩
    · exact ⟨.inr (.inr hx), hys hx⟩
  · rintro ⟨hx | rfl | hx, hne⟩
    · exact .inl hx
    · exact absurd rfl hne
    · exact .inr hx

theorem LatestFirst.le_of_takeWaiting (hwaiting : LatestFirst waiting)
    (h : takeWaiting name waiting = some (found, others)) {b : Nat} (hb : (name, b) ∈ waiting) :
    b ≤ found := by
  obtain ⟨xs, ys, rfl, -, hxs⟩ := eq_append_of_takeWaiting h
  obtain ⟨-, hys, -⟩ := List.pairwise_append.mp hwaiting
  rcases List.mem_append.mp hb with hb | hb
  · exact absurd rfl (hxs _ hb)
  · rcases List.mem_cons.mp hb with heq | hb
    · exact Nat.le_of_eq (Prod.mk.inj heq).2
    · exact Nat.le_of_lt ((List.pairwise_cons.mp hys).1 _ hb)

end

theorem not_mem_of_takeWaiting_eq_none {waiting : List (Text × Nat)}
    (h : takeWaiting name waiting = none) (b : Nat) : (name, b) ∉ waiting := by
  induction waiting with
  | nil => exact List.not_mem_nil
  | cons head waiting ih =>
    obtain ⟨n, i⟩ := head
    unfold takeWaiting at h
    split at h
    · nomatch h
    · next hne =>
      intro hmem
      rcases List.mem_cons.mp hmem with heq | hmem
      · exact hne (Prod.mk.inj heq).1.symm
      · exact ih (Option.map_eq_none_iff.mp h) hmem

/-- A pair of the list closes the opening tag at `b` before position `e`. -/
def IsClosedBefore (done : List Pair) (e b : Nat) : Prop :=
  ∃ p ∈ done, p.opening = b ∧ p.closing < e

/-- The state of the sweep at position `i`: the pairs that have closed, and the opening tags among
the first `i` tokens that are in none of them, nearest first. -/
structure Swept (ts : List Token) (i : Nat) (waiting : List (Text × Nat)) (done : List Pair) :
    Prop where
  closed : ∀ p ∈ done, p.opening < i ∧ p.closing < i
  waits : ∀ n b, (n, b) ∈ waiting ↔ OpensAt ts n b ∧ b < i ∧ ∀ p ∈ done, p.opening ≠ b
  latestFirst : LatestFirst waiting

variable {waiting others : List (Text × Nat)} {done : List Pair} {i : Nat} {t : Token}

theorem swept_zero : Swept ts 0 [] [] :=
  ⟨by simp, by simp, .nil⟩

theorem Swept.closed_succ (h : Swept ts i waiting done) :
    ∀ p ∈ done, p.opening < i + 1 ∧ p.closing < i + 1 := fun p hp =>
  (h.closed p hp).imp Nat.lt_succ_of_lt Nat.lt_succ_of_lt

/-- A token that opens nothing leaves the state as it is. -/
theorem Swept.skip (h : Swept ts i waiting done) (hi : ∀ n, ¬OpensAt ts n i) :
    Swept ts (i + 1) waiting done where
  closed := h.closed_succ
  waits n b := by
    rw [h.waits]
    refine and_congr_right fun hopens => and_congr_left fun _ => ?_
    have hne : b ≠ i := fun hb => hi n (hb ▸ hopens)
    omega
  latestFirst := h.latestFirst

theorem Swept.push (h : Swept ts i waiting done) (hi : OpensAt ts name i) :
    Swept ts (i + 1) ((name, i) :: waiting) done where
  closed := h.closed_succ
  waits n b := by
    rw [List.mem_cons, h.waits, Prod.mk.injEq]
    constructor
    · rintro (⟨rfl, rfl⟩ | ⟨hopens, hlt, hfree⟩)
      · exact ⟨hi, Nat.lt_succ_self b, fun p hp => Nat.ne_of_lt (h.closed p hp).1⟩
      · exact ⟨hopens, Nat.lt_succ_of_lt hlt, hfree⟩
    · rintro ⟨hopens, hlt, hfree⟩
      rcases Nat.lt_succ_iff_lt_or_eq.mp hlt with hlt | rfl
      · exact .inr ⟨hopens, hlt, hfree⟩
      · exact .inl ⟨hopens.name_eq hi, rfl⟩
  latestFirst :=
    List.pairwise_cons.mpr ⟨fun x hx => ((h.waits x.1 x.2).mp hx).2.1, h.latestFirst⟩

theorem Swept.pop {b : Nat} (h : Swept ts i waiting done) (hi : ClosesAt ts name i)
    (htake : takeWaiting name waiting = some (b, others)) :
    Swept ts (i + 1) others (done ++ [⟨b, i⟩]) where
  closed := List.forall_mem_append.mpr ⟨h.closed_succ, List.forall_mem_singleton.mpr
    ⟨Nat.lt_succ_of_lt ((h.waits name b).mp (mem_of_takeWaiting htake)).2.1, Nat.lt_succ_self i⟩⟩
  waits n c := by
    have hopen : OpensAt ts n c → c ≠ i := fun hopens heq => (heq ▸ hopens).not_closesAt name hi
    rw [h.latestFirst.mem_others_iff htake, h.waits, List.forall_mem_append,
      List.forall_mem_singleton]
    constructor
    · rintro ⟨⟨hopens, hlt, hfree⟩, hne⟩
      exact ⟨hopens, Nat.lt_succ_of_lt hlt, hfree, hne.symm⟩
    · rintro ⟨hopens, hlt, hfree, hne⟩
      have hne' := hopen hopens
      exact ⟨⟨hopens, by omega, hfree⟩, hne.symm⟩
  latestFirst := h.latestFirst.of_takeWaiting htake

/-- An opening tag before position `i` waits, or a pair so far has closed it. -/
theorem Swept.mem_or_isClosedBefore {b : Nat} (h : Swept ts i waiting done)
    (hopens : OpensAt ts name b) (hlt : b < i) :
    (name, b) ∈ waiting ∨ IsClosedBefore done i b := by
  refine or_iff_not_imp_right.mpr fun hfree => (h.waits name b).mpr ⟨hopens, hlt, ?_⟩
  exact fun p hp hpb => hfree ⟨p, hp, hpb, (h.closed p hp).2⟩

/-- What the sweep takes for a closing tag is the nearest opening tag in no pair so far. -/
theorem Swept.isNearest {b : Nat} (h : Swept ts i waiting done)
    (htake : takeWaiting name waiting = some (b, others)) :
    IsNearest ts (IsClosedBefore done i) name i b := by
  obtain ⟨hopens, hlt, hfree⟩ := (h.waits name b).mp (mem_of_takeWaiting htake)
  refine ⟨hopens, hlt, fun ⟨p, hp, hpb, _⟩ => hfree p hp hpb, fun b' hbb' hlt' hopens' => ?_⟩
  refine (h.mem_or_isClosedBefore hopens' hlt').resolve_left fun hwaits => ?_
  have hle := h.latestFirst.le_of_takeWaiting htake hwaits
  omega

theorem Swept.not_isNearest (h : Swept ts i waiting done)
    (htake : takeWaiting name waiting = none) (b : Nat) :
    ¬IsNearest ts (IsClosedBefore done i) name i b := by
  intro hnearest
  refine not_mem_of_takeWaiting_eq_none htake b ?_
  exact (h.mem_or_isClosedBefore hnearest.opens hnearest.before).resolve_right hnearest.free

/-- One step of the sweep: the pair that the token at position `i` closes, if it closes one, and the
state after it. -/
theorem Swept.step (h : Swept ts i waiting done) (ht : ts[i]? = some t) (rest : List Token) :
    ∃ waiting' closes, pairsFrom i waiting (t :: rest) = closes ++ pairsFrom (i + 1) waiting' rest ∧
      Swept ts (i + 1) waiting' (done ++ closes) ∧
      (∀ p ∈ closes, p.closing = i ∧ ∃ name, ClosesAt ts name i) ∧
      ∀ name, ClosesAt ts name i → ∀ b,
        ⟨b, i⟩ ∈ closes ↔ IsNearest ts (IsClosedBefore done i) name i b := by
  by_cases hclose : t.kind = .tagClose
  · have hi : ClosesAt ts t.name i := ⟨t, ht, hclose, rfl⟩
    have hname {name : Text} (hcloses : ClosesAt ts name i) : name = t.name := hcloses.name_eq hi
    simp only [pairsFrom, hclose]
    cases htake : takeWaiting t.name waiting with
    | some taken =>
      obtain ⟨b, others⟩ := taken
      refine ⟨others, [⟨b, i⟩], rfl, h.pop hi htake, by simpa using ⟨_, hi⟩, ?_⟩
      intro name hcloses c
      obtain rfl := hname hcloses
      rw [List.mem_singleton, Pair.mk.injEq, and_iff_left rfl]
      exact ⟨fun heq => heq ▸ h.isNearest htake, fun hc => hc.unique (h.isNearest htake)⟩
    | none =>
      refine ⟨waiting, [], rfl, ?_, by simp, fun name hcloses c => ?_⟩
      · rw [List.append_nil]
        exact h.skip fun n hopens => hopens.not_closesAt _ hi
      · obtain rfl := hname hcloses
        exact iff_of_false List.not_mem_nil (h.not_isNearest htake c)
  · have hcloses (name : Text) : ¬ClosesAt ts name i := by
      rintro ⟨u, hu, hkind, -⟩
      exact hclose (Option.mem_unique ht hu ▸ hkind)
    simp only [hcloses, IsEmpty.forall_iff, forall_const, and_true]
    by_cases hopen : t.kind = .tagOpen ∧ t.standalone = false
    · refine ⟨(t.name, i) :: waiting, [], ?_, ?_, by simp⟩
      · simp [pairsFrom, hopen]
      · rw [List.append_nil]
        exact h.push ⟨t, ht, hopen.1, hopen.2, rfl⟩
    · refine ⟨waiting, [], ?_, ?_, by simp⟩
      · cases hkind : t.kind <;> simp_all [pairsFrom]
      · rw [List.append_nil]
        refine h.skip fun n => ?_
        rintro ⟨u, hu, hkind, hstandalone, -⟩
        obtain rfl := Option.mem_unique ht hu
        exact hopen ⟨hkind, hstandalone⟩

theorem closing_of_mem_pairsFrom {p : Pair} (h : p ∈ pairsFrom i waiting ts) : i ≤ p.closing := by
  obtain ⟨k, -, hk, -⟩ := kind_of_mem_pairsFrom h
  omega

/-- Pairs that close later make no difference to what is closed before a position. -/
theorem isClosedBefore_append {later : List Pair} {e b : Nat} (h : ∀ p ∈ later, e ≤ p.closing) :
    IsClosedBefore (done ++ later) e b ↔ IsClosedBefore done e b := by
  constructor
  · rintro ⟨p, hp, hpb, hlt⟩
    rcases List.mem_append.mp hp with hp | hp
    · exact ⟨p, hp, hpb, hlt⟩
    · exact absurd (h p hp) (Nat.not_le.mpr hlt)
  · rintro ⟨p, hp, hpb, hlt⟩
    exact ⟨p, List.mem_append_left _ hp, hpb, hlt⟩

/-- From a state of the sweep on, the pairs are those of each closing tag with the nearest opening
tag of its name that no pair has closed before. -/
theorem Swept.mem_pairsFrom_iff {rest : List Token} (h : Swept ts i waiting done)
    (hrest : ts.drop i = rest) {b e : Nat} :
    ⟨b, e⟩ ∈ pairsFrom i waiting rest ↔ i ≤ e ∧ ∃ name, ClosesAt ts name e ∧
      IsNearest ts (IsClosedBefore (done ++ pairsFrom i waiting rest) e) name e b := by
  induction rest generalizing i waiting done with
  | nil =>
    refine iff_of_false List.not_mem_nil ?_
    rintro ⟨hle, name, ⟨t, ht, -⟩, -⟩
    have hlength := List.drop_eq_nil_iff.mp hrest
    rw [Option.mem_def, List.getElem?_eq_none (by omega)] at ht
    nomatch ht
  | cons t rest ih =>
    have ht : ts[i]? = some t := by rw [← Nat.add_zero i, ← List.getElem?_drop, hrest]; rfl
    have hdrop : ts.drop (i + 1) = rest := by rw [← List.tail_drop, hrest]; rfl
    obtain ⟨waiting', closes, hpairs, hstep, hcloses, hnearest⟩ := h.step ht rest
    have hstart (hmem : ⟨b, e⟩ ∈ closes) : e = i := (hcloses _ hmem).1
    rw [hpairs, List.mem_append, ih hstep hdrop, List.append_assoc]
    by_cases hei : e = i
    · subst hei
      -- No pair of this step or a later one closes before the token at hand.
      have hbefore (c : Nat) :
          IsClosedBefore (done ++ (closes ++ pairsFrom (e + 1) waiting' rest)) e c ↔
            IsClosedBefore done e c := by
        refine isClosedBefore_append fun p hp => ?_
        rcases List.mem_append.mp hp with hp | hp
        · exact Nat.le_of_eq (hcloses p hp).1.symm
        · exact Nat.le_of_succ_le (closing_of_mem_pairsFrom hp)
      simp only [Nat.not_succ_le_self, false_and, or_false, Nat.le_refl, true_and,
        IsNearest.congr fun c _ _ => hbefore c]
      constructor
      · intro hmem
        obtain ⟨name, hname⟩ := (hcloses _ hmem).2
        exact ⟨name, hname, (hnearest name hname b).mp hmem⟩
      · rintro ⟨name, hname, h⟩
        exact (hnearest name hname b).mpr h
    · have hle : i + 1 ≤ e ↔ i ≤ e := by omega
      rw [or_iff_right fun hmem => hei (hstart hmem), hle]

/-- The pairs are those of each closing tag with the nearest opening tag of its name that no pair
has closed before. -/
theorem mem_pairs_iff {b e : Nat} :
    ⟨b, e⟩ ∈ pairs ts ↔
      ∃ name, ClosesAt ts name e ∧ IsNearest ts (IsClosedBefore (pairs ts) e) name e b := by
  have h : ⟨b, e⟩ ∈ pairs ts ↔ _ := (@swept_zero ts).mem_pairsFrom_iff rfl
  rwa [List.nil_append, and_iff_right (Nat.zero_le e)] at h

section

variable {b b' e e' : Nat}

theorem sides_of_mem_pairs (h : ⟨b, e⟩ ∈ pairs ts) :
    b < e ∧ ∃ name, OpensAt ts name b ∧ ClosesAt ts name e := by
  obtain ⟨name, hclose, hnearest⟩ := mem_pairs_iff.mp h
  exact ⟨hnearest.before, name, hnearest.opens, hclose⟩

theorem closing_eq_of_mem_pairs (h : ⟨b, e⟩ ∈ pairs ts) (h' : ⟨b, e'⟩ ∈ pairs ts) : e = e' := by
  obtain ⟨_, -, hnearest⟩ := mem_pairs_iff.mp h
  obtain ⟨_, -, hnearest'⟩ := mem_pairs_iff.mp h'
  -- A tag that closes `b` earlier takes it from the one that closes it later.
  rcases Nat.lt_trichotomy e e' with hlt | heq | hlt
  · exact absurd ⟨_, h, rfl, hlt⟩ hnearest'.free
  · exact heq
  · exact absurd ⟨_, h', rfl, hlt⟩ hnearest.free

theorem opening_eq_of_mem_pairs (h : ⟨b, e⟩ ∈ pairs ts) (h' : ⟨b', e⟩ ∈ pairs ts) : b = b' := by
  obtain ⟨name, hclose, hnearest⟩ := mem_pairs_iff.mp h
  obtain ⟨name', hclose', hnearest'⟩ := mem_pairs_iff.mp h'
  obtain rfl := hclose.name_eq hclose'
  exact hnearest.unique hnearest'

theorem ne_of_mem_pairs (h : ⟨b, e⟩ ∈ pairs ts) (h' : ⟨b', e'⟩ ∈ pairs ts) : b ≠ e' := by
  rintro rfl
  obtain ⟨-, name, hopen, -⟩ := sides_of_mem_pairs h
  obtain ⟨-, name', -, hclose⟩ := sides_of_mem_pairs h'
  exact hopen.not_closesAt name' hclose

/-! ## Partners -/

theorem partner?_eq_some_iff {i j : Nat} :
    partner? (pairs ts) i = some j ↔ ⟨i, j⟩ ∈ pairs ts ∨ ⟨j, i⟩ ∈ pairs ts := by
  have hfound {j : Nat} (h : partner? (pairs ts) i = some j) :
      ⟨i, j⟩ ∈ pairs ts ∨ ⟨j, i⟩ ∈ pairs ts := by
    obtain ⟨p, hp, hpj⟩ := List.exists_of_findSome?_eq_some h
    split at hpj
    · next hopening =>
      obtain rfl := Option.some.inj hpj
      exact .inl (hopening ▸ hp)
    · split at hpj
      · next hclosing =>
        obtain rfl := Option.some.inj hpj
        exact .inr (hclosing ▸ hp)
      · nomatch hpj
  refine ⟨hfound, fun h => ?_⟩
  -- The token is in no other pair, so what is found for it is this partner.
  have hsome : (partner? (pairs ts) i).isSome := by
    rw [partner?, List.findSome?_isSome_iff]
    rcases h with h | h
    · exact ⟨_, h, by simp⟩
    · exact ⟨_, h, by simp [ne_of_mem_pairs h h]⟩
  obtain ⟨k, hk⟩ := Option.isSome_iff_exists.mp hsome
  rw [hk]
  congr 1
  rcases h with h | h <;> rcases hfound hk with h' | h'
  · exact closing_eq_of_mem_pairs h' h
  · exact absurd rfl (ne_of_mem_pairs h h')
  · exact absurd rfl (ne_of_mem_pairs h' h)
  · exact opening_eq_of_mem_pairs h' h

theorem OpensAt.partner?_eq_some_iff (h : OpensAt ts name b) :
    partner? (pairs ts) b = some e ↔ ⟨b, e⟩ ∈ pairs ts := by
  rw [Token.partner?_eq_some_iff, or_iff_left]
  intro hmem
  obtain ⟨-, other, -, hclose⟩ := sides_of_mem_pairs hmem
  exact h.not_closesAt other hclose

theorem ClosesAt.partner?_eq_some_iff (h : ClosesAt ts name e) :
    partner? (pairs ts) e = some b ↔ ⟨b, e⟩ ∈ pairs ts := by
  rw [Token.partner?_eq_some_iff, or_iff_right]
  intro hmem
  obtain ⟨-, other, hopen, -⟩ := sides_of_mem_pairs hmem
  exact hopen.not_closesAt name h

theorem partner?_eq_some_iff_of_lt (h : b < e) :
    partner? (pairs ts) b = some e ↔ ⟨b, e⟩ ∈ pairs ts := by
  rw [partner?_eq_some_iff, or_iff_left fun hmem => Nat.lt_asymm h (sides_of_mem_pairs hmem).1]

theorem isTakenBefore_partner?_iff (h : OpensAt ts name b) :
    IsTakenBefore (partner? (pairs ts)) e b ↔ IsClosedBefore (pairs ts) e b := by
  simp only [IsTakenBefore, h.partner?_eq_some_iff]
  constructor
  · rintro ⟨c, hlt, hmem⟩
    exact ⟨_, hmem, rfl, hlt⟩
  · rintro ⟨p, hmem, rfl, hlt⟩
    exact ⟨p.closing, hlt, hmem⟩

theorem partner?_eq_some_iff_isNearest (h : ClosesAt ts name e) :
    partner? (pairs ts) e = some b ↔
      IsNearest ts (IsTakenBefore (partner? (pairs ts)) e) name e b := by
  rw [h.partner?_eq_some_iff, mem_pairs_iff,
    IsNearest.congr fun c _ hopens => isTakenBefore_partner?_iff hopens]
  constructor
  · rintro ⟨other, hclose, hnearest⟩
    exact h.name_eq hclose ▸ hnearest
  · exact fun hnearest => ⟨name, h, hnearest⟩

end

/-- The partners that the sweep finds are those of bracket matching. -/
theorem bracketed_partner? (hclosing : ∀ t ∈ ts, t.kind = .tagClose → t.standalone = false) :
    Bracketed ts (partner? (pairs ts)) where
  nearest h b := partner?_eq_some_iff_isNearest h
  stray {name e} h := by
    rw [Option.eq_none_iff_forall_ne_some]
    constructor
    · intro hnone b hlt hopens
      by_contra hfree
      obtain ⟨b, hnearest⟩ := exists_isNearest hopens hlt hfree
      exact hnone b ((partner?_eq_some_iff_isNearest h).mpr hnearest)
    · intro htaken b hb
      have hnearest := (partner?_eq_some_iff_isNearest h).mp hb
      exact hnearest.free (htaken b hnearest.before hnearest.opens)
  symm b e := by rw [partner?_eq_some_iff, partner?_eq_some_iff, or_comm]
  sides h := (partner?_eq_some_iff.mp h).imp sides_of_mem_pairs sides_of_mem_pairs
  disjoint {b e b' e'} hlt hlt' h h' hshare := by
    rw [partner?_eq_some_iff_of_lt hlt] at h
    rw [partner?_eq_some_iff_of_lt hlt'] at h'
    rcases hshare with rfl | hne | hne | rfl
    · exact ⟨rfl, closing_eq_of_mem_pairs h h'⟩
    · exact absurd hne (ne_of_mem_pairs h h')
    · exact absurd hne.symm (ne_of_mem_pairs h' h)
    · exact ⟨opening_eq_of_mem_pairs h h', rfl⟩
  uncrossed {name b e b' e'} hopens hopens' h h' hlt hlt' := by
    rw [hopens.partner?_eq_some_iff] at h
    rw [hopens'.partner?_eq_some_iff] at h'
    obtain ⟨other, -, hnearest⟩ := mem_pairs_iff.mp h
    obtain rfl := hopens.name_eq hnearest.opens
    obtain ⟨p, hp, rfl, hbefore⟩ := hnearest.nearest b' hlt hlt' hopens'
    rwa [← closing_eq_of_mem_pairs hp h']
  alone {i t} ht halone := by
    rw [Option.eq_none_iff_forall_ne_some]
    intro j hj
    have htag : t.isTag = true ∧ t.standalone = false := by
      rcases partner?_eq_some_iff.mp hj with hmem | hmem
      · obtain ⟨-, name, hopens, -⟩ := sides_of_mem_pairs hmem
        exact hopens.isTag ht
      · obtain ⟨-, name, -, u, hu, hclose, -⟩ := sides_of_mem_pairs hmem
        obtain rfl := Option.mem_unique ht hu
        exact ⟨by simp [isTag, hclose], hclosing t (List.mem_of_getElem? ht) hclose⟩
    simp [htag] at halone

section

variable {partner partner' : Nat → Option Nat}

/-- The partner of an opening tag is the same where the closing tag has the same. -/
theorem Bracketed.eq_some_of_opensAt (h : Bracketed ts partner) (h' : Bracketed ts partner')
    {b e : Nat} (hopens : OpensAt ts name b)
    (hsame : ∀ name, ClosesAt ts name e → partner e = partner' e) (he : partner b = some e) :
    partner' b = some e := by
  rcases h.sides he with ⟨-, other, -, hclose⟩ | ⟨-, other, -, hclose⟩
  · rw [h'.symm, ← hsame other hclose, ← h.symm, he]
  · exact absurd hclose (hopens.not_closesAt other)

theorem Bracketed.eq_of_closesAt (h : Bracketed ts partner) (h' : Bracketed ts partner') (e : Nat) :
    ∀ name, ClosesAt ts name e → partner e = partner' e := by
  induction e using Nat.strongRecOn with
  | ind e ih =>
    intro name he
    -- What takes an opening tag before `e` is a closing tag before `e`, where the two agree.
    have htaken (b : Nat) (hopens : OpensAt ts name b) :
        IsTakenBefore partner e b ↔ IsTakenBefore partner' e b := by
      constructor
      · rintro ⟨c, hlt, hc⟩
        exact ⟨c, hlt, h.eq_some_of_opensAt h' hopens (ih c hlt) hc⟩
      · rintro ⟨c, hlt, hc⟩
        exact ⟨c, hlt, h'.eq_some_of_opensAt h hopens (fun n hn => (ih c hlt n hn).symm) hc⟩
    refine Option.ext fun b => ?_
    rw [h.nearest he, h'.nearest he, IsNearest.congr fun b _ hopens => htaken b hopens]

/-- Tokens have one bracket matching. -/
theorem Bracketed.unique (h : Bracketed ts partner) (h' : Bracketed ts partner') :
    partner = partner' := by
  have half {partner partner' : Nat → Option Nat} (h : Bracketed ts partner)
      (h' : Bracketed ts partner') {i j : Nat} (hj : partner i = some j) : partner' i = some j := by
    rcases h.sides hj with ⟨-, name, hopens, -⟩ | ⟨-, name, -, hclose⟩
    · exact h.eq_some_of_opensAt h' hopens (h.eq_of_closesAt h' j) hj
    · rw [← h.eq_of_closesAt h' i name hclose, hj]
  exact funext fun i => Option.ext fun j => ⟨half h h', half h' h⟩

end

/-! ## Templates -/

/-- A closing tag does not close itself. -/
theorem standalone_ofMarkup_of_tagClose {kind : TokenKind} {start : Nat} {text : Text}
    (h : (ofMarkup kind start text).kind = .tagClose) :
    (ofMarkup kind start text).standalone = false := by
  have hkind : kind = .tagClose := by
    rcases ofMarkup_cases kind start text with ⟨k, rfl | rfl, hplain⟩ | ⟨-, _, _, _, htag, -⟩
    · rwa [hplain] at h
    · rw [hplain] at h
      nomatch h
    · rwa [htag] at h
  subst hkind
  have hmarkup : ofMarkup .tagClose start text = ofTag .tagClose start text := rfl
  simp only [hmarkup, ofTag, if_true, reduceCtorEq, if_false]
  generalize (text.drop 2).takeWhile isNameChar = written
  split <;> rfl

theorem standalone_of_tagClose_of_mem_lexFrom {start : Nat} {cs : Text} {t : Token}
    (ht : t ∈ lexFrom start cs) (hkind : t.kind = .tagClose) : t.standalone = false := by
  induction start, cs using lexFrom_induction with
  | nil start => nomatch ht
  | text start c cs rest hmarkup ih =>
    rcases List.mem_cons.mp ht with rfl | ht
    · rfl
    · exact ih ht
  | markup start c cs kind rest hmarkup cut token raw ih =>
    rcases List.mem_append.mp ht with ht | ht
    · rcases List.mem_cons.mp ht with rfl | ht
      · exact standalone_ofMarkup_of_tagClose hkind
      · unfold textToken at ht
        split at ht
        · nomatch ht
        · rw [List.mem_singleton.mp ht]
          rfl
    · exact ih ht

theorem standalone_of_tagClose_of_mem_neutralizeRawText {source : Text} {u : Token}
    (hu : u ∈ neutralizeRawText (lex source)) (hkind : u.kind = .tagClose) :
    u.standalone = false := by
  obtain ⟨t, ht, rfl | rfl⟩ :=
    Neutralized.exists_left (neutralized_neutralizeRawText (lex source)) hu
  · exact standalone_of_tagClose_of_mem_lexFrom ht hkind
  · rfl

def partnerAt (ps : List Paired) (i : Nat) : Option Nat := ps[i]?.bind (·.partner)

theorem partnerAt_associate (ts : List Token) :
    partnerAt (associate ts) = partner? (pairs (neutralizeRawText ts)) := by
  funext i
  rw [partnerAt, associate, List.getElem?_mapIdx]
  cases hi : (neutralizeRawText ts)[i]? with
  | some t => rfl
  | none =>
    rw [Option.map_none, Option.bind_none, eq_comm, Option.eq_none_iff_forall_ne_some]
    intro j hj
    -- Both ends of a pair are positions of tokens.
    rcases partner?_eq_some_iff.mp hj with hmem | hmem
    · obtain ⟨-, _, ⟨t, ht, -⟩, -⟩ := sides_of_mem_pairs hmem
      cases hi.symm.trans ht
    · obtain ⟨-, _, -, t, ht, -⟩ := sides_of_mem_pairs hmem
      cases hi.symm.trans ht

theorem bracketed_partnerAt (source : Text) :
    Bracketed (neutralizeRawText (lex source)) (partnerAt (associate (lex source))) := by
  rw [partnerAt_associate]
  exact bracketed_partner? fun t => standalone_of_tagClose_of_mem_neutralizeRawText

/-- The partners in a template are those of bracket matching by tag name on the tokens left after
raw text is neutralized, and only those. Each token keeps its stretch of the template. -/
theorem bracketed_associate_lex (source : Text) :
    let tokens := (associate (lex source)).map (·.token)
    tokens = neutralizeRawText (lex source) ∧
      Bracketed tokens (partnerAt (associate (lex source))) ∧
      (∀ partner, Bracketed tokens partner → partner = partnerAt (associate (lex source))) ∧
      tokens.map (fun t => (t.start, t.stop, t.text)) =
        (lex source).map fun t => (t.start, t.stop, t.text) := by
  intro tokens
  have htokens : tokens = neutralizeRawText (lex source) := map_token_associate (lex source)
  have hbracketed : Bracketed tokens (partnerAt (associate (lex source))) :=
    htokens ▸ bracketed_partnerAt source
  refine ⟨htokens, hbracketed, fun partner h => h.unique hbracketed, ?_⟩
  exact Neutralized.map_eq (fun _ => rfl) (neutralized_associate (lex source))

end HtmlTemplate.Token
