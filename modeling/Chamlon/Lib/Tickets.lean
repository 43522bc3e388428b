import Mathlib.Tactic
import Chamlon.Lib.Machine

/-!
Tickets from a counter that restarts whenever its key changes. A ticket is the
key current when it was drawn and the number of tickets drawn under that key
before it. Holders draw tickets and spend them later, in any order. As long as
no key comes back, no ticket is spent twice; the ledger is the bookkeeping that
proves it, and a program that uses counters under changing keys is compared
with it step by step.
-/

namespace Chamlon.Tickets

universe u v

variable {H : Type u} {κ : Type v}

structure Ledger (H : Type u) (κ : Type v) where
  key : κ
  /-- How many tickets were drawn under the current key. -/
  count : Nat
  retired : List κ
  held : H → Option (κ × Nat)
  spent : List (κ × Nat)

namespace Ledger

def init (key : κ) : Ledger H κ where
  key := key
  count := 0
  retired := []
  held := fun _ => none
  spent := []

/-- Every key the ledger has seen. -/
def keys (l : Ledger H κ) : List κ := l.key :: l.retired

def rekey (l : Ledger H κ) (key : κ) : Ledger H κ :=
  { l with key := key, count := 0, retired := l.key :: l.retired }

/-- Draw a ticket and spend it at once. -/
def issue (l : Ledger H κ) : Ledger H κ :=
  { l with count := l.count + 1, spent := l.spent ++ [(l.key, l.count)] }

def draw [DecidableEq H] (l : Ledger H κ) (h : H) : Ledger H κ :=
  { l with
    count := l.count + 1
    held := Function.update l.held h (some (l.key, l.count)) }

def spend [DecidableEq H] (l : Ledger H κ) (h : H) : Ledger H κ :=
  { l with
    held := Function.update l.held h none
    spent := l.spent ++ (l.held h).toList }

/-- The ticket was handed out before now. -/
def Issued (l : Ledger H κ) (t : κ × Nat) : Prop :=
  t.1 ∈ l.retired ∨ (t.1 = l.key ∧ t.2 < l.count)

/-- Held and spent tickets were issued, are all different and stay below the
bound of the counter. -/
structure Valid (bound : Nat) (l : Ledger H κ) : Prop where
  fresh : l.key ∉ l.retired
  spentIssued : ∀ t ∈ l.spent, l.Issued t ∧ t.2 < bound
  heldIssued : ∀ h t, l.held h = some t → l.Issued t ∧ t.2 < bound
  spentNodup : l.spent.Nodup
  heldUnspent : ∀ h t, l.held h = some t → t ∉ l.spent
  heldInjective : ∀ h g t, l.held h = some t → l.held g = some t → h = g

section Lemmas

variable {bound : Nat} {l : Ledger H κ}

theorem valid_init (key : κ) : (Ledger.init key : Ledger H κ).Valid bound where
  fresh := by simp [init]
  spentIssued := by simp [init]
  heldIssued := by simp [init]
  spentNodup := by simp [init]
  heldUnspent := by simp [init]
  heldInjective := by simp [init]

theorem Valid.not_issued_next (hl : l.Valid bound) : ¬l.Issued (l.key, l.count) := by
  rintro (h | h)
  · exact hl.fresh h
  · exact Nat.lt_irrefl _ h.2

/-- A larger count issues everything a smaller one did, and the new ticket. -/
theorem Issued.count_succ {t : κ × Nat} (h : l.Issued t) (l' : Ledger H κ)
    (hkey : l'.key = l.key) (hretired : l'.retired = l.retired)
    (hcount : l'.count = l.count + 1) : l'.Issued t := by
  rcases h with h | h
  · exact Or.inl (hretired ▸ h)
  · exact Or.inr ⟨h.1.trans hkey.symm, by omega⟩

theorem issued_next (l' : Ledger H κ) (hkey : l'.key = l.key)
    (hcount : l'.count = l.count + 1) : l'.Issued (l.key, l.count) :=
  Or.inr ⟨hkey.symm, by simp only [hcount, Nat.lt_succ_self]⟩

theorem Issued.rekey {t : κ × Nat} (h : l.Issued t) (key : κ) :
    (l.rekey key).Issued t := by
  refine Or.inl ?_
  rcases h with h | h
  · exact List.mem_cons_of_mem _ h
  · exact List.mem_cons.mpr (Or.inl h.1)

theorem Valid.rekey (hl : l.Valid bound) {key : κ} (hkey : key ∉ l.keys) :
    (l.rekey key).Valid bound where
  fresh := hkey
  spentIssued t ht := ⟨(hl.spentIssued t ht).1.rekey key, (hl.spentIssued t ht).2⟩
  heldIssued h t ht := ⟨(hl.heldIssued h t ht).1.rekey key, (hl.heldIssued h t ht).2⟩
  spentNodup := hl.spentNodup
  heldUnspent := hl.heldUnspent
  heldInjective := hl.heldInjective

theorem Valid.issue (hl : l.Valid bound) (hcount : l.count < bound) :
    l.issue.Valid bound where
  fresh := hl.fresh
  spentIssued t ht := by
    rcases List.mem_append.mp ht with h | h
    · exact ⟨(hl.spentIssued t h).1.count_succ _ rfl rfl rfl, (hl.spentIssued t h).2⟩
    · rw [List.mem_singleton.mp h]
      exact ⟨issued_next _ rfl rfl, hcount⟩
  heldIssued h t ht :=
    ⟨(hl.heldIssued h t ht).1.count_succ _ rfl rfl rfl, (hl.heldIssued h t ht).2⟩
  spentNodup := by
    refine List.Nodup.append hl.spentNodup (List.nodup_singleton _) ?_
    intro t hspent hnew
    rw [List.mem_singleton.mp hnew] at hspent
    exact hl.not_issued_next (hl.spentIssued _ hspent).1
  heldUnspent h t ht hspent := by
    rcases List.mem_append.mp hspent with hold | hnew
    · exact hl.heldUnspent h t ht hold
    · rw [List.mem_singleton.mp hnew] at ht
      exact hl.not_issued_next (hl.heldIssued h _ ht).1
  heldInjective := hl.heldInjective

end Lemmas

section Holders

variable [DecidableEq H] {bound : Nat} {l : Ledger H κ}

/-- After a draw its holder has the new ticket and the others have what they had. -/
theorem held_draw_cases {h g : H} {t : κ × Nat} (ht : (l.draw h).held g = some t) :
    (g = h ∧ t = (l.key, l.count)) ∨ (g ≠ h ∧ l.held g = some t) := by
  by_cases hg : g = h
  · subst hg
    simp only [Ledger.draw, Function.update_self, Option.some.injEq] at ht
    exact Or.inl ⟨rfl, ht.symm⟩
  · simp only [Ledger.draw, Function.update_of_ne hg] at ht
    exact Or.inr ⟨hg, ht⟩

theorem key_of_held_draw {h : H} {t : κ × Nat} (ht : t ∈ (l.draw h).held h) :
    t.1 = l.key := by
  rcases held_draw_cases ht with ⟨_, rfl⟩ | ⟨hne, _⟩
  · rfl
  · exact absurd rfl hne

theorem Valid.draw (hl : l.Valid bound) (hcount : l.count < bound) (h : H) :
    (l.draw h).Valid bound := by
  have hheld : ∀ g t, (l.draw h).held g = some t →
      (g = h ∧ t = (l.key, l.count)) ∨ (g ≠ h ∧ l.held g = some t) :=
    fun g t => held_draw_cases
  have hnew : ∀ g, l.held g ≠ some (l.key, l.count) := fun g hg =>
    hl.not_issued_next (hl.heldIssued g _ hg).1
  exact {
    fresh := hl.fresh
    spentIssued := fun t ht =>
      ⟨(hl.spentIssued t ht).1.count_succ _ rfl rfl rfl, (hl.spentIssued t ht).2⟩
    heldIssued := fun g t ht => by
      rcases hheld g t ht with ⟨_, rfl⟩ | ⟨_, hg⟩
      · exact ⟨issued_next _ rfl rfl, hcount⟩
      · exact ⟨(hl.heldIssued g t hg).1.count_succ _ rfl rfl rfl,
          (hl.heldIssued g t hg).2⟩
    spentNodup := hl.spentNodup
    heldUnspent := fun g t ht hspent => by
      rcases hheld g t ht with ⟨_, rfl⟩ | ⟨_, hg⟩
      · exact hl.not_issued_next (hl.spentIssued _ hspent).1
      · exact hl.heldUnspent g t hg hspent
    heldInjective := fun g g' t ht ht' => by
      rcases hheld g t ht with ⟨rfl, rfl⟩ | ⟨_, hg⟩
      · rcases hheld g' _ ht' with ⟨rfl, _⟩ | ⟨_, hg'⟩
        · rfl
        · exact absurd hg' (hnew g')
      · rcases hheld g' t ht' with ⟨_, rfl⟩ | ⟨_, hg'⟩
        · exact absurd hg (hnew g)
        · exact hl.heldInjective g g' t hg hg' }

theorem Valid.spend (hl : l.Valid bound) (h : H) : (l.spend h).Valid bound := by
  have hheld : ∀ g t, (l.spend h).held g = some t → g ≠ h ∧ l.held g = some t := by
    intro g t ht
    by_cases hg : g = h
    · subst hg
      simp only [Ledger.spend, Function.update_self, reduceCtorEq] at ht
    · simp only [Ledger.spend, Function.update_of_ne hg] at ht
      exact ⟨hg, ht⟩
  have hspent : ∀ t ∈ (l.spend h).spent, t ∈ l.spent ∨ l.held h = some t := by
    intro t ht
    simpa only [Ledger.spend, List.mem_append, Option.mem_toList, Option.mem_def]
      using ht
  exact {
    fresh := hl.fresh
    spentIssued := fun t ht => (hspent t ht).elim (hl.spentIssued t) (hl.heldIssued h t)
    heldIssued := fun g t ht => hl.heldIssued g t (hheld g t ht).2
    spentNodup := by
      refine List.Nodup.append hl.spentNodup ?_ ?_
      · cases l.held h <;> simp
      · intro t hold hnew
        exact hl.heldUnspent h t (by simpa using hnew) hold
    heldUnspent := fun g t ht hmem => by
      obtain ⟨hg, ht⟩ := hheld g t ht
      rcases hspent t hmem with hold | hnew
      · exact hl.heldUnspent g t ht hold
      · exact hg (hl.heldInjective g h t ht hnew)
    heldInjective := fun g g' t ht ht' =>
      hl.heldInjective g g' t (hheld g t ht).2 (hheld g' t ht').2 }

end Holders

/-- Below the bound a fixed-width counter tells all spent tickets apart. -/
theorem Valid.nodup_map {w : Nat} {l : Ledger H κ} (hl : l.Valid (2 ^ w)) :
    (l.spent.map fun t => (t.1, BitVec.ofNat w t.2)).Nodup := by
  refine hl.spentNodup.map_on ?_
  intro t ht t' ht' heq
  simp only [Prod.mk.injEq] at heq
  have hseq := congrArg BitVec.toNat heq.2
  rw [BitVec.toNat_ofNat, BitVec.toNat_ofNat,
    Nat.mod_eq_of_lt (hl.spentIssued t ht).2,
    Nat.mod_eq_of_lt (hl.spentIssued t' ht').2] at hseq
  exact Prod.ext heq.1 hseq

end Ledger

/-- A program's counter, the numbers its threads hold and the pairs it has used
are those of the ledger. -/
structure Mirrors {w : Nat} (counter : BitVec w) (seq : H → Option (BitVec w))
    (used : List (κ × BitVec w)) (l : Ledger H κ) : Prop where
  valid : l.Valid (2 ^ w)
  counterEq : counter = BitVec.ofNat w l.count
  holders : ∀ h, seq h = (l.held h).map fun t => BitVec.ofNat w t.2
  log : used = l.spent.map fun t => (t.1, BitVec.ofNat w t.2)

namespace Mirrors

variable {w : Nat} {counter : BitVec w} {seq : H → Option (BitVec w)}
  {used : List (κ × BitVec w)} {l : Ledger H κ}

theorem init (key : κ) :
    Mirrors (0 : BitVec w) (fun _ : H => none) [] (Ledger.init key) where
  valid := Ledger.valid_init key
  counterEq := rfl
  holders := fun _ => rfl
  log := rfl

theorem nodup (h : Mirrors counter seq used l) : used.Nodup := by
  rw [h.log]
  exact h.valid.nodup_map

theorem rekey (h : Mirrors counter seq used l) {key : κ} (hkey : key ∉ l.keys) :
    Mirrors 0 seq used (l.rekey key) where
  valid := h.valid.rekey hkey
  counterEq := rfl
  holders := h.holders
  log := h.log

theorem counter_succ (h : Mirrors counter seq used l) :
    counter + 1 = BitVec.ofNat w (l.count + 1) := by
  rw [h.counterEq, BitVec.ofNat_add]
  rfl

theorem issue (h : Mirrors counter seq used l) (hcount : l.count < 2 ^ w) :
    Mirrors (counter + 1) seq (used ++ [(l.key, counter)]) l.issue where
  valid := h.valid.issue hcount
  counterEq := h.counter_succ
  holders := h.holders
  log := by
    simp only [Ledger.issue, List.map_append, List.map_cons, List.map_nil, ← h.log,
      ← h.counterEq]

variable [DecidableEq H]

theorem draw (h : Mirrors counter seq used l) (hcount : l.count < 2 ^ w) (g : H) :
    Mirrors (counter + 1) (Function.update seq g (some counter)) used (l.draw g) where
  valid := h.valid.draw hcount g
  counterEq := h.counter_succ
  holders := fun g' => by
    by_cases hg : g' = g
    · subst hg
      simp only [Ledger.draw, Function.update_self, Option.map_some, h.counterEq]
    · simp only [Ledger.draw, Function.update_of_ne hg, h.holders g']
  log := h.log

/-- Spending a held number under the key it was drawn for. -/
theorem spend (h : Mirrors counter seq used l) {g : H} {q : BitVec w}
    (hseq : seq g = some q) {key : κ} (hkey : ∀ t ∈ l.held g, t.1 = key) :
    Mirrors counter (Function.update seq g none) (used ++ [(key, q)])
      (l.spend g) where
  valid := h.valid.spend g
  counterEq := h.counterEq
  holders := fun g' => by
    by_cases hg : g' = g
    · subst hg
      simp only [Ledger.spend, Function.update_self, Option.map_none]
    · simp only [Ledger.spend, Function.update_of_ne hg, h.holders g']
  log := by
    rw [h.holders g] at hseq
    obtain ⟨t, ht, hq⟩ := Option.map_eq_some_iff.mp hseq
    simp only [Ledger.spend, ht, Option.toList_some, List.map_append, List.map_cons,
      List.map_nil, ← h.log, hkey t ht, hq]

end Mirrors

/-- When the keys a run installs are all different, each one is new at the step
that installs it. -/
theorem along_fresh {σ : Type*} {α ε : Type*} (step : σ → α → σ × List ε)
    (newKey : α → Option κ) (known : σ → List κ)
    (hknown : ∀ s a, known (step s a).1 ⊆ (newKey a).toList ++ known s)
    (s : σ) (acts : List α) (hkeys : (acts.filterMap newKey).Nodup)
    (hnew : ∀ k ∈ known s, k ∉ acts.filterMap newKey) :
    Machine.Along step (fun s a => ∀ k, newKey a = some k → k ∉ known s) s acts := by
  induction acts generalizing s with
  | nil => trivial
  | cons a rest ih =>
      cases hkey : newKey a with
      | none =>
          rw [List.filterMap_cons_none hkey] at hkeys hnew
          refine ⟨by simp [hkey], ih _ hkeys fun k hk => hnew k ?_⟩
          simpa [hkey] using hknown s a hk
      | some new =>
          rw [List.filterMap_cons_some hkey] at hkeys hnew
          obtain ⟨hnotin, hrest⟩ := List.nodup_cons.mp hkeys
          refine ⟨?_, ih _ hrest fun k hk => ?_⟩
          · intro k hk hmem
            rw [hkey, Option.some.injEq] at hk
            exact hnew k hmem (hk ▸ List.mem_cons_self)
          · have hcases : k = new ∨ k ∈ known s := by
              simpa [hkey] using hknown s a hk
            rcases hcases with rfl | hold
            · exact hnotin
            · exact fun hmem => hnew k hold (List.mem_cons_of_mem _ hmem)

end Chamlon.Tickets
