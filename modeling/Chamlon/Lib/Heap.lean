import Mathlib.Tactic
import Mathlib.Data.List.GetD

/-!
A binary heap in a list. An element is put in place by moving a hole: the loops shift
their neighbours into it and write the element where the hole ends. The comparison gives
a number below, at or above zero, as in C.

Whatever the comparison, the loops lose and invent nothing. If it is that of a total
preorder, they keep every parent at or before its children, and the first element is a
least one.
-/

namespace Chamlon.Heap

variable {α : Type*} (cmp : α → α → Int)

/-- Moves the hole at `i` up past every parent that comes behind `x`. -/
def siftUp (x : α) : Nat → Nat → List α → List α
  | 0, i, nodes => nodes.set i x
  | fuel + 1, i, nodes =>
      let parent := nodes.getD ((i - 1) / 2) x
      if i = 0 ∨ 0 ≤ cmp x parent then nodes.set i x
      else siftUp x fuel ((i - 1) / 2) (nodes.set i parent)

def push (x : α) (nodes : List α) : List α :=
  siftUp cmp x nodes.length nodes.length (nodes ++ [x])

/-- The child of the hole that comes first. -/
def firstChild (last : α) (i : Nat) (nodes : List α) : Nat :=
  let child := i * 2 + 1
  if child + 1 < nodes.length ∧ cmp (nodes.getD (child + 1) last) (nodes.getD child last) < 0
  then child + 1 else child

/-- Moves the hole at `i` down past every child that comes before `last`. -/
def siftDown (last : α) : Nat → Nat → List α → List α
  | 0, i, nodes => nodes.set i last
  | fuel + 1, i, nodes =>
      let child := firstChild cmp last i nodes
      if nodes.length ≤ i * 2 + 1 ∨ cmp last (nodes.getD child last) ≤ 0 then
        nodes.set i last
      else siftDown last fuel child (nodes.set i (nodes.getD child last))

/-- The first element, and the heap that stays behind. -/
def pop : List α → Option (α × List α)
  | [] => none
  | first :: rest =>
      let last := rest.getLastD first
      let kept := (first :: rest).dropLast
      some (first, siftDown cmp last kept.length 0 kept)

variable {cmp}

/-- To move the hole is to swap two elements. -/
theorem move_perm {nodes : List α} {i j : Nat} (hi : i < nodes.length)
    (hj : j < nodes.length) (hne : j ≠ i) (x d : α) :
    ((nodes.set i (nodes.getD j d)).set j x).Perm (nodes.set i x) := by
  have hi' : i < (nodes.set i x).length := by rwa [List.length_set]
  have hj' : j < (nodes.set i x).length := by rwa [List.length_set]
  have hswap := List.set_set_perm hi' hj'
  rw [List.getElem_set_self, List.getElem_set_ne hne.symm, List.set_set] at hswap
  rwa [List.getD_eq_getElem nodes d hj]

theorem siftUp_perm (x : α) (fuel i : Nat) (nodes : List α) (hi : i < nodes.length) :
    (siftUp cmp x fuel i nodes).Perm (nodes.set i x) := by
  induction fuel generalizing i nodes with
  | zero => exact .refl _
  | succ fuel ih =>
      unfold siftUp
      dsimp only
      split
      next => exact .refl _
      next hmoves =>
        have hup : (i - 1) / 2 < i := by
          have hpos : i ≠ 0 := fun h => hmoves (Or.inl h)
          omega
        have hin : (i - 1) / 2 < nodes.length := hup.trans hi
        refine (ih _ _ (by rwa [List.length_set])).trans ?_
        exact move_perm hi hin hup.ne x x

theorem push_perm (x : α) (nodes : List α) : (push cmp x nodes).Perm (x :: nodes) := by
  have hlast : nodes.length < (nodes ++ [x]).length := by simp
  have hsift : (push cmp x nodes).Perm ((nodes ++ [x]).set nodes.length x) :=
    siftUp_perm x nodes.length nodes.length (nodes ++ [x]) hlast
  rw [List.set_append_right _ _ le_rfl, Nat.sub_self, List.set_cons_zero] at hsift
  exact hsift.trans (List.perm_append_singleton x nodes)

theorem siftDown_perm (last : α) (fuel i : Nat) (nodes : List α) (hi : i < nodes.length) :
    (siftDown cmp last fuel i nodes).Perm (nodes.set i last) := by
  induction fuel generalizing i nodes with
  | zero => exact .refl _
  | succ fuel ih =>
      unfold siftDown
      dsimp only
      split
      next => exact .refl _
      next hmoves =>
        have hleft : i * 2 + 1 < nodes.length :=
          Nat.lt_of_not_le fun h => hmoves (Or.inl h)
        have hchild : i < firstChild cmp last i nodes ∧
            firstChild cmp last i nodes < nodes.length := by
          unfold firstChild
          dsimp only
          split
          next hright => exact ⟨by omega, hright.1⟩
          next => exact ⟨by omega, hleft⟩
        refine (ih _ _ (by rw [List.length_set]; exact hchild.2)).trans ?_
        exact move_perm hi hchild.2 hchild.1.ne' last last

theorem pop_perm {nodes rest : List α} {x : α} (h : pop cmp nodes = some (x, rest)) :
    nodes.Perm (x :: rest) := by
  cases nodes with
  | nil => cases h
  | cons first others =>
      cases h
      refine .cons _ ?_
      rcases List.eq_nil_or_concat others with rfl | ⟨front, last, rfl⟩
      · exact .refl _
      · have hkept : (x :: (front ++ [last])).dropLast = x :: front := by
          rw [← List.cons_append, List.dropLast_concat]
        rw [List.concat_eq_append, hkept, List.getLastD_concat]
        refine (List.perm_append_singleton last front).trans ?_
        exact (siftDown_perm last _ 0 (x :: front) (Nat.succ_pos _)).symm

/-- The comparison of a total preorder. -/
structure IsCompare (cmp : α → α → Int) : Prop where
  flip : ∀ a b, cmp a b ≤ 0 ↔ 0 ≤ cmp b a
  trans : ∀ a b c, cmp a b ≤ 0 → cmp b c ≤ 0 → cmp a c ≤ 0

theorem IsCompare.refl (h : IsCompare cmp) (a : α) : cmp a a ≤ 0 := by
  have hflip := h.flip a a
  omega

/-- The edge that leads to position `i` is in order. -/
def Edge (cmp : α → α → Int) (nodes : List α) (i : Nat) : Prop :=
  ∀ p x, nodes[(i - 1) / 2]? = some p → nodes[i]? = some x → cmp p x ≤ 0

/-- No element comes before its parent. -/
def Ordered (cmp : α → α → Int) (nodes : List α) : Prop := ∀ i, 0 < i → Edge cmp nodes i

/-- The children of position `i` do not come before its parent. -/
def Grand (cmp : α → α → Int) (nodes : List α) (i : Nat) : Prop :=
  0 < i → ∀ j p x, 0 < j → (j - 1) / 2 = i → nodes[(i - 1) / 2]? = some p →
    nodes[j]? = some x → cmp p x ≤ 0

section Move

variable {nodes : List α} {i j k : Nat} (x y : α)

/-- Where the element that left the old hole stands after a move of the hole to `j`. -/
theorem move_self (hi : i < nodes.length) (hne : j ≠ i) :
    ((nodes.set i y).set j x)[i]? = some y := by
  rw [List.getElem?_set_ne hne, List.getElem?_set_self hi]

theorem move_hole (hj : j < nodes.length) : ((nodes.set i y).set j x)[j]? = some x := by
  rw [List.getElem?_set_self (by rwa [List.length_set])]

theorem move_other (hki : k ≠ i) (hkj : k ≠ j) :
    ((nodes.set i y).set j x)[k]? = nodes[k]? := by
  rw [List.getElem?_set_ne hkj.symm, List.getElem?_set_ne hki.symm]

end Move

/-- The root comes at or before every element. -/
theorem Ordered.root_le (hcmp : IsCompare cmp) {nodes : List α} (h : Ordered cmp nodes)
    {root : α} (hroot : nodes[0]? = some root) {x : α} (hx : x ∈ nodes) : cmp root x ≤ 0 := by
  obtain ⟨i, hi, rfl⟩ := List.mem_iff_getElem.mp hx
  induction i using Nat.strongRecOn with
  | ind i ih =>
      rcases Nat.eq_zero_or_pos i with rfl | hpos
      · rw [List.getElem?_eq_getElem hi] at hroot
        rw [Option.some.inj hroot]
        exact hcmp.refl root
      · have hup : (i - 1) / 2 < i := by omega
        have hin : (i - 1) / 2 < nodes.length := hup.trans hi
        refine hcmp.trans _ _ _ (ih _ hup hin (List.getElem_mem hin)) ?_
        exact h i hpos _ _ (List.getElem?_eq_getElem hin) (List.getElem?_eq_getElem hi)

section SiftUp

variable {nodes : List α} {i : Nat} {x : α}

/-- With `x` in the hole, only the edge to the hole may be out of order. -/
structure UpReady (cmp : α → α → Int) (nodes : List α) (i : Nat) : Prop where
  edges : ∀ j, 0 < j → j ≠ i → Edge cmp nodes j
  grand : Grand cmp nodes i

/-- The hole moves to its parent. -/
theorem UpReady.move (hcmp : IsCompare cmp) (hi : i < nodes.length) (hpos : 0 < i)
    {parent : α} (hparent : nodes[(i - 1) / 2]? = some parent) (hless : cmp x parent ≤ 0)
    (h : UpReady cmp (nodes.set i x) i) :
    UpReady cmp ((nodes.set i parent).set ((i - 1) / 2) x) ((i - 1) / 2) := by
  have hup : (i - 1) / 2 < i := by omega
  generalize hq : (i - 1) / 2 = q at hparent hup ⊢
  have hqlen : q < nodes.length := hup.trans hi
  -- The filled list before and after the move.
  have hbefore : ∀ j, j ≠ i → (nodes.set i x)[j]? = nodes[j]? := fun j hj =>
    List.getElem?_set_ne hj.symm
  have hafter : ∀ j, j ≠ i → j ≠ q → ((nodes.set i parent).set q x)[j]? = nodes[j]? :=
    fun _ => move_other x parent
  have hself := move_self x parent hi hup.ne
  have hhole := move_hole (i := i) x parent hqlen
  -- The parent that moved down is at or before every other child of its old place.
  have hchild : ∀ j y, 0 < j → j ≠ i → (j - 1) / 2 = q → nodes[j]? = some y →
      cmp parent y ≤ 0 := by
    intro j y hj hji hjq hy
    refine h.edges j hj hji parent y ?_ ?_
    · rw [hjq, hbefore q hup.ne, hparent]
    · rw [hbefore j hji, hy]
  constructor
  · intro j hj hjq p y hp hy
    by_cases hji : j = i
    · rw [hji, hself] at hy
      rw [hji, hq, hhole] at hp
      cases hp
      cases hy
      exact hless
    rw [hafter j hji hjq] at hy
    by_cases hpi : (j - 1) / 2 = i
    · rw [hpi, hself] at hp
      cases hp
      refine h.grand hpos j parent y hj hpi ?_ ?_
      · rw [hq, hbefore q hup.ne, hparent]
      · rw [hbefore j hji, hy]
    by_cases hpq : (j - 1) / 2 = q
    · rw [hpq, hhole] at hp
      cases hp
      exact hcmp.trans _ _ _ hless (hchild j y hj hji hpq hy)
    · rw [hafter _ hpi hpq] at hp
      refine h.edges j hj hji p y ?_ ?_
      · rw [hbefore _ hpi, hp]
      · rw [hbefore j hji, hy]
  · intro hqpos j p y hj hjq hp hy
    have hg : (q - 1) / 2 < q := by omega
    rw [hafter _ (hg.trans hup).ne hg.ne] at hp
    have habove : cmp p parent ≤ 0 := by
      refine h.edges q hqpos hup.ne p parent ?_ ?_
      · rw [hbefore _ (hg.trans hup).ne, hp]
      · rw [hbefore q hup.ne, hparent]
    by_cases hji : j = i
    · rw [hji, hself] at hy
      cases hy
      exact habove
    · have hjne : j ≠ q := by omega
      rw [hafter j hji hjne] at hy
      exact hcmp.trans _ _ _ habove (hchild j y hj hji hjq hy)

theorem siftUp_ordered (hcmp : IsCompare cmp) (x : α) (fuel i : Nat) (nodes : List α)
    (hi : i < nodes.length) (hfuel : i ≤ fuel) (h : UpReady cmp (nodes.set i x) i) :
    Ordered cmp (siftUp cmp x fuel i nodes) := by
  induction fuel generalizing i nodes with
  | zero =>
      intro j hj
      exact h.edges j hj (by omega)
  | succ fuel ih =>
      unfold siftUp
      dsimp only
      have hup : 0 < i → (i - 1) / 2 < i := by omega
      split
      next hstops =>
        intro j hj
        by_cases hji : j = i
        · rw [hji] at hj ⊢
          intro p y hp hy
          rw [List.getElem?_set_ne (hup hj).ne'] at hp
          rw [List.getElem?_set_self hi] at hy
          cases hy
          have hparent := hstops.resolve_left hj.ne'
          rw [List.getD_eq_getElem?_getD, hp] at hparent
          exact (hcmp.flip p x).mpr hparent
        · exact h.edges j hj hji
      next hmoves =>
        rw [not_or] at hmoves
        have hpos : 0 < i := Nat.pos_of_ne_zero hmoves.1
        have hin : (i - 1) / 2 < nodes.length := (hup hpos).trans hi
        have hparent : nodes[(i - 1) / 2]? = some (nodes.getD ((i - 1) / 2) x) := by
          rw [List.getD_eq_getElem _ _ hin, List.getElem?_eq_getElem hin]
        have hless : cmp x (nodes.getD ((i - 1) / 2) x) ≤ 0 := by omega
        refine ih _ _ (by rwa [List.length_set]) (by omega) ?_
        exact h.move hcmp hi hpos hparent hless

theorem push_ordered (hcmp : IsCompare cmp) (x : α) (h : Ordered cmp nodes) :
    Ordered cmp (push cmp x nodes) := by
  have hfilled : (nodes ++ [x]).set nodes.length x = nodes ++ [x] := by
    rw [List.set_append_right _ _ le_rfl, Nat.sub_self, List.set_cons_zero]
  have hlength : (nodes ++ [x]).length = nodes.length + 1 := by simp
  refine siftUp_ordered hcmp x _ _ _ (by omega) le_rfl ?_
  rw [hfilled]
  constructor
  · intro j hj hjne p y hp hy
    have hlt := (List.getElem?_eq_some_iff.mp hy).1
    have hin : j < nodes.length := by omega
    rw [List.getElem?_append_left (by omega)] at hp hy
    exact h j hj p y hp hy
  · intro _ j p y hj hparent _ hy
    have hlt := (List.getElem?_eq_some_iff.mp hy).1
    omega

end SiftUp

section SiftDown

variable {nodes : List α} {i : Nat} {last : α}

/-- With `last` in the hole, only the edges from the hole may be out of order. -/
structure DownReady (cmp : α → α → Int) (nodes : List α) (i : Nat) : Prop where
  edges : ∀ j, 0 < j → (j - 1) / 2 ≠ i → Edge cmp nodes j
  grand : Grand cmp nodes i

/-- Position `c` holds a child of `i`, and no child of `i` comes before it. -/
structure IsFirstChild (cmp : α → α → Int) (nodes : List α) (i c : Nat) (v : α) : Prop where
  parent : (c - 1) / 2 = i
  below : i < c
  here : nodes[c]? = some v
  first : ∀ j y, 0 < j → (j - 1) / 2 = i → nodes[j]? = some y → cmp v y ≤ 0

theorem firstChild_spec (hcmp : IsCompare cmp) (last : α) (hleft : i * 2 + 1 < nodes.length) :
    IsFirstChild cmp nodes i (firstChild cmp last i nodes)
      (nodes.getD (firstChild cmp last i nodes) last) := by
  have hget : ∀ j, j < nodes.length → nodes[j]? = some (nodes.getD j last) := fun j hj => by
    rw [List.getD_eq_getElem _ _ hj, List.getElem?_eq_getElem hj]
  -- A child of the hole is the left one or the right one.
  have hchildren : ∀ j y, 0 < j → (j - 1) / 2 = i → nodes[j]? = some y →
      y = nodes.getD (i * 2 + 1) last ∨
        i * 2 + 1 + 1 < nodes.length ∧ y = nodes.getD (i * 2 + 1 + 1) last := by
    intro j y hj hparent hy
    have hin := (List.getElem?_eq_some_iff.mp hy).1
    rw [hget j hin] at hy
    have hwhich : j = i * 2 + 1 ∨ j = i * 2 + 1 + 1 := by omega
    rcases hwhich with rfl | rfl
    · exact Or.inl (Option.some.inj hy).symm
    · exact Or.inr ⟨hin, (Option.some.inj hy).symm⟩
  unfold firstChild
  dsimp only
  split
  next hright =>
    refine ⟨by omega, by omega, hget _ hright.1, fun j y hj hparent hy => ?_⟩
    rcases hchildren j y hj hparent hy with rfl | ⟨_, rfl⟩
    · exact hright.2.le
    · exact hcmp.refl _
  next hnot =>
    refine ⟨by omega, by omega, hget _ hleft, fun j y hj hparent hy => ?_⟩
    rcases hchildren j y hj hparent hy with rfl | ⟨hin, rfl⟩
    · exact hcmp.refl _
    · rw [not_and, not_lt] at hnot
      exact (hcmp.flip _ _).mpr (hnot hin)

/-- The hole moves to its first child. -/
theorem DownReady.move {c : Nat} {v : α} (hi : i < nodes.length)
    (hc : IsFirstChild cmp nodes i c v) (hless : cmp v last ≤ 0)
    (h : DownReady cmp (nodes.set i last) i) :
    DownReady cmp ((nodes.set i v).set c last) c := by
  have hclen := (List.getElem?_eq_some_iff.mp hc.here).1
  have hbefore : ∀ j, j ≠ i → (nodes.set i last)[j]? = nodes[j]? := fun j hj =>
    List.getElem?_set_ne hj.symm
  have hafter : ∀ j, j ≠ i → j ≠ c → ((nodes.set i v).set c last)[j]? = nodes[j]? :=
    fun _ => move_other last v
  have hself := move_self last v hi hc.below.ne'
  have hhole := move_hole (i := i) last v hclen
  constructor
  · intro j hj hparent p y hp hy
    by_cases hjc : j = c
    · rw [hjc, hhole] at hy
      rw [hjc, hc.parent, hself] at hp
      cases hp
      cases hy
      exact hless
    by_cases hji : j = i
    · rw [hji, hself] at hy
      cases hy
      rw [hji] at hp hj hparent
      have hup : (i - 1) / 2 < i := by omega
      rw [hafter _ hup.ne hparent] at hp
      have hcpos : 0 < c := hj.trans hc.below
      refine h.grand hj c p v hcpos hc.parent ?_ ?_
      · rw [hbefore _ hup.ne, hp]
      · rw [hbefore _ hc.below.ne', hc.here]
    rw [hafter j hji hjc] at hy
    by_cases hpi : (j - 1) / 2 = i
    · rw [hpi, hself] at hp
      cases hp
      exact hc.first j y hj hpi hy
    · rw [hafter _ hpi hparent] at hp
      refine h.edges j hj hpi p y ?_ ?_
      · rw [hbefore _ hpi, hp]
      · rw [hbefore _ hji, hy]
  · intro _ j p y hj hparent hp hy
    rw [hc.parent, hself] at hp
    cases hp
    have hci := hc.below
    have hji : j ≠ i := by omega
    have hjc : j ≠ c := by omega
    rw [hafter j hji hjc] at hy
    refine h.edges j hj (by omega) v y ?_ ?_
    · rw [hparent, hbefore _ hci.ne', hc.here]
    · rw [hbefore _ hji, hy]

theorem siftDown_ordered (hcmp : IsCompare cmp) (last : α) (fuel i : Nat) (nodes : List α)
    (hi : i < nodes.length) (hfuel : nodes.length ≤ i + fuel)
    (h : DownReady cmp (nodes.set i last) i) :
    Ordered cmp (siftDown cmp last fuel i nodes) := by
  induction fuel generalizing i nodes with
  | zero => omega
  | succ fuel ih =>
      unfold siftDown
      dsimp only
      split
      next hstops =>
        intro j hj
        by_cases hparent : (j - 1) / 2 = i
        · intro p y hp hy
          rw [hparent, List.getElem?_set_self hi] at hp
          cases hp
          have hjlen := (List.getElem?_eq_some_iff.mp hy).1
          rw [List.length_set] at hjlen
          rw [List.getElem?_set_ne (by omega)] at hy
          have hleft : i * 2 + 1 < nodes.length := by omega
          have hchild := hstops.resolve_left (Nat.not_le_of_lt hleft)
          have hfirst := (firstChild_spec hcmp last hleft).first j y hj hparent hy
          exact hcmp.trans _ _ _ hchild hfirst
        · exact h.edges j hj hparent
      next hmoves =>
        rw [not_or, Nat.not_le, not_le] at hmoves
        have hc := firstChild_spec hcmp last hmoves.1
        have hclen := (List.getElem?_eq_some_iff.mp hc.here).1
        have hbelow := hc.below
        refine ih _ _ (by rwa [List.length_set]) (by rw [List.length_set]; omega) ?_
        exact h.move hi hc ((hcmp.flip _ _).mpr hmoves.2.le)

theorem pop_ordered (hcmp : IsCompare cmp) {rest : List α} {x : α} (h : Ordered cmp nodes)
    (hpop : pop cmp nodes = some (x, rest)) : Ordered cmp rest := by
  cases nodes with
  | nil => cases hpop
  | cons first others =>
      cases hpop
      rcases List.eq_nil_or_concat others with rfl | ⟨front, last, rfl⟩
      · intro j hj p y hp
        cases hp
      rw [List.concat_eq_append, ← List.cons_append] at h
      have hkept : (x :: (front ++ [last])).dropLast = x :: front := by
        rw [← List.cons_append, List.dropLast_concat]
      rw [List.concat_eq_append, hkept, List.getLastD_concat]
      refine siftDown_ordered hcmp last _ 0 _ (Nat.succ_pos _) (by omega) ⟨?_, ?_⟩
      · intro j hj hparent p y hp hy
        have hjlen := (List.getElem?_eq_some_iff.mp hy).1
        rw [List.length_set] at hjlen
        rw [List.getElem?_set_ne (Ne.symm hparent)] at hp
        rw [List.getElem?_set_ne hj.ne] at hy
        refine h j hj p y ?_ ?_
        · rwa [List.getElem?_append_left (by omega)]
        · rwa [List.getElem?_append_left hjlen]
      · intro hpos
        exact absurd hpos (Nat.lt_irrefl 0)

end SiftDown

/-- What a pop takes comes at or before all that was stored. -/
theorem pop_least (hcmp : IsCompare cmp) {nodes rest : List α} {x : α}
    (h : Ordered cmp nodes) (hpop : pop cmp nodes = some (x, rest)) {y : α}
    (hy : y ∈ nodes) : cmp x y ≤ 0 := by
  cases nodes with
  | nil => cases hpop
  | cons first others =>
      cases hpop
      exact h.root_le hcmp rfl hy

end Chamlon.Heap
