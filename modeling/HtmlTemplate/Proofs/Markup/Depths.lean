import HtmlTemplate.Proofs.Markup.Brackets
import Mathlib.Data.Finset.Prod
import Mathlib.Order.Interval.Finset.Nat

/-!
Depths as numbers of pairs. The counter of `depthsFrom` stands at the number of pairs that are open
before the token at hand (`openBefore`). A closing tag ends one of them, so there is one to take
away (`depthsFrom?_drop`), and the depth that is left is the number of pairs around the token
(`depths_associate_lex`). The two tags of a pair have the same pairs around them but for those that
cross it, so these make the difference between their depths (`depths_of_pair`).
-/

namespace HtmlTemplate.Token

/-- The pairs around position `i`, each with its opening tag before and its closing tag behind it.
-/
def pairsAround (ps : List Paired) (i : Nat) : Finset (Nat × Nat) :=
  (Finset.range i ×ˢ Finset.Ioo i ps.length).filter fun p => partnerAt ps p.1 = some p.2

/-- The depths of `depthsFrom`, absent as soon as a level is to be taken from depth 0. -/
def depthsFrom? (i depth : Nat) : List Paired → Option (List Nat)
  | [] => some []
  | p :: ps =>
    match p.partner with
    | some j =>
      if j < i then
        match depth with
        | 0 => none
        | depth + 1 => (depthsFrom? (i + 1) depth ps).map (depth :: ·)
      else (depthsFrom? (i + 1) (depth + 1) ps).map (depth :: ·)
    | none => (depthsFrom? (i + 1) depth ps).map (depth :: ·)

def depths? (ps : List Paired) : Option (List Nat) := depthsFrom? 0 0 ps

theorem depthsFrom_eq_of_depthsFrom? {i depth : Nat} {ps : List Paired} {ds : List Nat}
    (h : depthsFrom? i depth ps = some ds) : depthsFrom i depth ps = ds := by
  induction ps generalizing i depth ds with
  | nil => exact Option.some.inj h
  | cons p ps ih =>
    unfold depthsFrom? at h
    unfold depthsFrom
    cases hp : p.partner with
    | none =>
      simp only [hp] at h ⊢
      obtain ⟨rest, hrest, rfl⟩ := Option.map_eq_some_iff.mp h
      rw [ih hrest]
    | some j =>
      simp only [hp] at h ⊢
      split at h
      · next hlt =>
        rw [if_pos hlt]
        cases depth with
        | zero => cases h
        | succ depth =>
          obtain ⟨rest, hrest, rfl⟩ := Option.map_eq_some_iff.mp h
          rw [Nat.add_sub_cancel, ih hrest]
      · next hge =>
        rw [if_neg hge]
        obtain ⟨rest, hrest, rfl⟩ := Option.map_eq_some_iff.mp h
        rw [ih hrest]

/-! ## Pairs that are open -/

variable {ts : List Token} {partner : Nat → Option Nat} {i j : Nat}

/-- The opening tags before position `i` that are closed at `i` or behind it. -/
def openBefore (partner : Nat → Option Nat) (i : Nat) : Finset Nat :=
  (Finset.range i).filter fun b => ∃ e ∈ partner b, i ≤ e

/-- The opening tags before position `i` that are closed behind it. -/
def openAround (partner : Nat → Option Nat) (i : Nat) : Finset Nat :=
  (Finset.range i).filter fun b => ∃ e ∈ partner b, i < e

theorem mem_openBefore {b : Nat} :
    b ∈ openBefore partner i ↔ b < i ∧ ∃ e, partner b = some e ∧ i ≤ e := by
  simp [openBefore]

theorem mem_openAround {b : Nat} :
    b ∈ openAround partner i ↔ b < i ∧ ∃ e, partner b = some e ∧ i < e := by
  simp [openAround]

theorem Bracketed.ne_of_partner (h : Bracketed ts partner) (hij : partner i = some j) : i ≠ j := by
  rcases h.sides hij with ⟨hlt, -⟩ | ⟨hlt, -⟩ <;> omega

/-- What is open before a token is open around it, or closed by it. -/
theorem Bracketed.mem_openBefore_iff (h : Bracketed ts partner) {b : Nat} :
    b ∈ openBefore partner i ↔ b ∈ openAround partner i ∨ b < i ∧ partner i = some b := by
  rw [mem_openBefore, mem_openAround, ← h.symm, ← and_or_left]
  refine and_congr_right fun _ => ⟨?_, ?_⟩
  · rintro ⟨e, he, hle⟩
    rcases Nat.lt_or_eq_of_le hle with hlt | rfl
    · exact .inl ⟨e, he, hlt⟩
    · exact .inr he
  · rintro (⟨e, he, hlt⟩ | he)
    · exact ⟨e, he, Nat.le_of_lt hlt⟩
    · exact ⟨i, he, Nat.le_refl i⟩

/-- What is open behind a token is open around it, or opened by it. -/
theorem mem_openBefore_succ {b : Nat} :
    b ∈ openBefore partner (i + 1) ↔
      b ∈ openAround partner i ∨ b = i ∧ ∃ e, partner i = some e ∧ i < e := by
  rw [mem_openBefore, mem_openAround, Nat.lt_succ_iff_lt_or_eq, or_and_right]
  refine or_congr_right (and_congr_right ?_)
  rintro rfl
  rfl

/-- A token that closes no pair leaves open before it what is open around it. -/
theorem Bracketed.openBefore_eq (h : Bracketed ts partner) (hi : ∀ j < i, partner i ≠ some j) :
    openBefore partner i = openAround partner i := by
  ext b
  rw [h.mem_openBefore_iff, or_iff_left]
  rintro ⟨hlt, hb⟩
  exact hi b hlt hb

theorem Bracketed.card_openBefore (h : Bracketed ts partner) (hij : partner i = some j)
    (hlt : j < i) : (openBefore partner i).card = (openAround partner i).card + 1 := by
  have hnot : j ∉ openAround partner i := by
    rw [mem_openAround, (h.symm j i).mpr hij]
    rintro ⟨-, e, he, hie⟩
    obtain rfl := Option.some.inj he
    exact Nat.lt_irrefl i hie
  rw [← Finset.card_insert_of_notMem hnot]
  congr 1
  ext b
  rw [h.mem_openBefore_iff, Finset.mem_insert, hij, Option.some.injEq, or_comm]
  refine or_congr_left ⟨fun hb => hb.2.symm, ?_⟩
  rintro rfl
  exact ⟨hlt, rfl⟩

/-- A token that opens no pair leaves open behind it what is open around it. -/
theorem openBefore_succ_eq (hi : ∀ j > i, partner i ≠ some j) :
    openBefore partner (i + 1) = openAround partner i := by
  ext b
  rw [mem_openBefore_succ, or_iff_left]
  rintro ⟨-, e, he, hlt⟩
  exact hi e hlt he

theorem card_openBefore_succ (hij : partner i = some j) (hlt : i < j) :
    (openBefore partner (i + 1)).card = (openAround partner i).card + 1 := by
  have hnot : i ∉ openAround partner i := fun hmem => Nat.lt_irrefl i (mem_openAround.mp hmem).1
  rw [← Finset.card_insert_of_notMem hnot]
  congr 1
  ext b
  rw [mem_openBefore_succ, Finset.mem_insert, or_comm]
  exact or_congr_left (and_iff_left ⟨j, hij, hlt⟩)

/-! ## The counter -/

/-- From any token on, the counter is the number of pairs open before it, and no level is taken away
that is not there. The induction is along the tokens that are left. -/
theorem depthsFrom?_drop {ps rest : List Paired} (h : Bracketed ts (partnerAt ps))
    (hrest : ps.drop i = rest) :
    depthsFrom? i (openBefore (partnerAt ps) i).card rest =
      some ((List.range' i rest.length).map fun k => (openAround (partnerAt ps) k).card) := by
  induction rest generalizing i with
  | nil => rfl
  | cons p rest ih =>
    have hp : partnerAt ps i = p.partner := by
      have hi : ps[i]? = some p := by rw [← Nat.add_zero i, ← List.getElem?_drop, hrest]; rfl
      rw [partnerAt, hi, Option.bind_some]
    have hstep := ih (i := i + 1) (by rw [← List.tail_drop, hrest]; rfl)
    rw [List.length_cons, List.range'_succ, List.map_cons]
    unfold depthsFrom?
    cases hj : p.partner with
    | none =>
      have hnone : partnerAt ps i = none := hp.trans hj
      rw [openBefore_succ_eq (by simp [hnone])] at hstep
      rw [h.openBefore_eq (by simp [hnone]), hstep]
      rfl
    | some j =>
      have hsome : partnerAt ps i = some j := hp.trans hj
      have hne := h.ne_of_partner hsome
      by_cases hlt : j < i
      · have hcloses : ∀ k > i, partnerAt ps i ≠ some k := by
          intro k hk heq
          have := Option.some.inj (hsome.symm.trans heq)
          omega
        rw [openBefore_succ_eq hcloses] at hstep
        simp only [hlt, if_true, h.card_openBefore hsome hlt, hstep]
        rfl
      · have hopens : ∀ k < i, partnerAt ps i ≠ some k := by
          intro k hk heq
          have := Option.some.inj (hsome.symm.trans heq)
          omega
        rw [card_openBefore_succ hsome (by omega)] at hstep
        simp only [hlt, if_false, h.openBefore_eq hopens, hstep]
        rfl

theorem mem_pairsAround {ps : List Paired} {b e : Nat} :
    (b, e) ∈ pairsAround ps i ↔ (b < i ∧ i < e ∧ e < ps.length) ∧ partnerAt ps b = some e := by
  simp [pairsAround]

theorem lt_length_of_partnerAt {ps : List Paired} {b e : Nat} (h : partnerAt ps b = some e) :
    b < ps.length := by
  by_contra hge
  rw [partnerAt, List.getElem?_eq_none (by omega)] at h
  cases h

/-- Both ends of a pair are positions of tokens, and a pair is told by its opening tag. -/
theorem card_pairsAround {ps : List Paired} (h : Bracketed ts (partnerAt ps)) (i : Nat) :
    (pairsAround ps i).card = (openAround (partnerAt ps) i).card := by
  refine Finset.card_bij (fun p _ => p.1) ?_ ?_ ?_
  · rintro ⟨b, e⟩ hp
    obtain ⟨⟨hb, he, -⟩, hbe⟩ := mem_pairsAround.mp hp
    exact mem_openAround.mpr ⟨hb, e, hbe, he⟩
  · rintro ⟨b, e⟩ hp ⟨b', e'⟩ hp' rfl
    have heq := (mem_pairsAround.mp hp).2.symm.trans (mem_pairsAround.mp hp').2
    rw [Option.some.inj heq]
  · intro b hb
    obtain ⟨hlt, e, hbe, hie⟩ := mem_openAround.mp hb
    have hrange : e < ps.length := lt_length_of_partnerAt ((h.symm b e).mp hbe)
    exact ⟨(b, e), mem_pairsAround.mpr ⟨⟨hlt, hie, hrange⟩, hbe⟩, rfl⟩

/-- In a template no level is taken from depth 0, and each token is as deep as there are pairs
around it. -/
theorem depths_associate_lex (source : Text) :
    let ps := associate (lex source)
    depths? ps = some (depths ps) ∧
      depths ps = (List.range ps.length).map fun i => (pairsAround ps i).card := by
  intro ps
  have hbracketed : Bracketed (neutralizeRawText (lex source)) (partnerAt ps) :=
    bracketed_partnerAt source
  have hrun : depths? ps =
      some ((List.range ps.length).map fun i => (openAround (partnerAt ps) i).card) := by
    rw [List.range_eq_range']
    exact depthsFrom?_drop hbracketed rfl
  have hdepths : depths ps = _ := depthsFrom_eq_of_depthsFrom? hrun
  refine ⟨hdepths ▸ hrun, ?_⟩
  rw [hdepths]
  exact List.map_congr_left fun i _ => (card_pairsAround hbracketed i).symm

/-- A text between crossing pairs, with a closing tag that is not as deep as its opening tag. -/
example :
    let ps := associate (lex "<b><i>x</b></i></i>")
    depths ps = [0, 1, 2, 1, 0, 0] ∧ pairsAround ps 2 = {(0, 3), (1, 4)} := by decide +kernel

/-! ## Crossing pairs -/

/-- The pairs around the opening tag of a pair that end inside of it. -/
def crossingsBefore (ps : List Paired) (b e : Nat) : Finset (Nat × Nat) :=
  (pairsAround ps b).filter fun p => p.2 < e

/-- The pairs around the closing tag of a pair that begin inside of it. -/
def crossingsBehind (ps : List Paired) (b e : Nat) : Finset (Nat × Nat) :=
  (pairsAround ps e).filter fun p => b < p.1

/-- The pairs around one of the two tags that do not cross are around the other too. -/
theorem filter_pairsAround_eq {ps : List Paired} {b e : Nat} (h : Bracketed ts (partnerAt ps))
    (hpair : partnerAt ps b = some e) (hlt : b < e) :
    ((pairsAround ps b).filter fun p => ¬p.2 < e) =
      (pairsAround ps e).filter fun p => ¬b < p.1 := by
  ext ⟨c, d⟩
  rw [Finset.mem_filter, Finset.mem_filter, mem_pairsAround, mem_pairsAround]
  constructor
  · rintro ⟨⟨⟨hcb, hbd, hd⟩, hcd⟩, hde⟩
    have hne : d ≠ e := by
      rintro rfl
      have hcd' := (h.symm c d).mp hcd
      rw [(h.symm b d).mp hpair] at hcd'
      exact Nat.lt_irrefl b (Option.some.inj hcd' ▸ hcb)
    exact ⟨⟨⟨by omega, by omega, hd⟩, hcd⟩, by omega⟩
  · rintro ⟨⟨⟨hce, hed, hd⟩, hcd⟩, hbc⟩
    have hne : c ≠ b := by
      rintro rfl
      rw [hpair] at hcd
      exact Nat.lt_irrefl e (Option.some.inj hcd ▸ hed)
    exact ⟨⟨⟨by omega, by omega, hd⟩, hcd⟩, by omega⟩

/-- Pairs that cross an opening tag are not around its closing tag, and the other way round. -/
theorem card_pairsAround_add {ps : List Paired} {b e : Nat} (h : Bracketed ts (partnerAt ps))
    (hpair : partnerAt ps b = some e) (hlt : b < e) :
    (pairsAround ps e).card + (crossingsBefore ps b e).card =
      (pairsAround ps b).card + (crossingsBehind ps b e).card := by
  have hopening := Finset.card_filter_add_card_filter_not (s := pairsAround ps b)
    (p := fun p => p.2 < e)
  have hclosing := Finset.card_filter_add_card_filter_not (s := pairsAround ps e)
    (p := fun p => b < p.1)
  rw [filter_pairsAround_eq h hpair hlt] at hopening
  unfold crossingsBefore crossingsBehind
  omega

theorem getElem?_depths {ps : List Paired} (h : Bracketed ts (partnerAt ps)) (hi : i < ps.length) :
    (depths ps)[i]? = some (pairsAround ps i).card := by
  have hrun : depths? ps =
      some ((List.range' 0 ps.length).map fun k => (openAround (partnerAt ps) k).card) :=
    depthsFrom?_drop h rfl
  have hdepths : depths ps = _ := depthsFrom_eq_of_depthsFrom? hrun
  rw [hdepths, ← List.range_eq_range', List.getElem?_map, List.getElem?_range hi, Option.map_some,
    card_pairsAround h]

/-- The depths of the two tags of a pair differ by the pairs that cross it: a closing tag is as deep
as its opening tag exactly if as many pairs cross the pair at its end as at its beginning. -/
theorem depths_of_pair {source : Text} {b e : Nat}
    (hpair : partnerAt (associate (lex source)) b = some e) (hlt : b < e) :
    let ps := associate (lex source)
    ∃ d d', (depths ps)[b]? = some d ∧ (depths ps)[e]? = some d' ∧
      d' + (crossingsBefore ps b e).card = d + (crossingsBehind ps b e).card ∧
      (d' = d ↔ (crossingsBefore ps b e).card = (crossingsBehind ps b e).card) := by
  intro ps
  have hbracketed := bracketed_partnerAt source
  have hb : b < ps.length := lt_length_of_partnerAt hpair
  have he : e < ps.length := lt_length_of_partnerAt ((hbracketed.symm b e).mp hpair)
  have hadd : (pairsAround ps e).card + (crossingsBefore ps b e).card =
      (pairsAround ps b).card + (crossingsBehind ps b e).card :=
    card_pairsAround_add hbracketed hpair hlt
  exact ⟨_, _, getElem?_depths hbracketed hb, getElem?_depths hbracketed he, hadd, by omega⟩

/-- A pair that one pair crosses at its beginning and one at its end. -/
theorem depths_of_pair_crossed :
    let ps := associate (lex "<a><b></a><i></b></i>")
    partnerAt ps 1 = some 4 ∧ crossingsBefore ps 1 4 = {(0, 2)} ∧
      crossingsBehind ps 1 4 = {(3, 5)} ∧
      ∃ d d', (depths ps)[1]? = some d ∧ (depths ps)[4]? = some d' ∧ d' = d := by
  intro ps
  have hpair : partnerAt ps 1 = some 4 := by decide +kernel
  have hbefore : crossingsBefore ps 1 4 = {(0, 2)} := by decide +kernel
  have hbehind : crossingsBehind ps 1 4 = {(3, 5)} := by decide +kernel
  obtain ⟨d, d', hd, hd', -, heq⟩ := depths_of_pair hpair (by decide)
  exact ⟨hpair, hbefore, hbehind, d, d', hd, hd', heq.mpr (by rw [hbefore, hbehind]; rfl)⟩

/-- Of two pairs that cross each other, neither has a closing tag as deep as its opening tag. -/
theorem depths_of_crossing_pairs :
    let ps := associate (lex "<b><i></b></i>")
    partnerAt ps 0 = some 2 ∧ partnerAt ps 1 = some 3 ∧ depths ps = [0, 1, 1, 0] ∧
      ¬∀ b e, partnerAt ps b = some e → b < e → (depths ps)[e]? = (depths ps)[b]? := by
  intro ps
  have hpair : partnerAt ps 0 = some 2 := by decide +kernel
  have hdepths : depths ps = [0, 1, 1, 0] := by decide +kernel
  refine ⟨hpair, by decide +kernel, hdepths, fun h => ?_⟩
  have heq := h 0 2 hpair (by decide)
  rw [hdepths] at heq
  cases heq

end HtmlTemplate.Token
