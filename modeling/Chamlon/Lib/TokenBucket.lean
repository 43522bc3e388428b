import Mathlib.Tactic
import Chamlon.Lib.Machine

/-!
Token buckets. A bucket holds at most `capacity` tokens and gains `rate` of them a
second; it is refilled only when somebody looks at it. Its level at a time is what it
would hold if it were refilled then.

The second half bounds what a machine spends in an interval of time. It needs a level
that never exceeds a capacity, grows no faster than a rate, and at every step pays for
what the step spends.
-/

namespace Chamlon.TokenBucket

open Machine

structure Limit where
  capacity : Nat
  rate : Nat
deriving DecidableEq, Repr

/-- What time adds is not negative. -/
theorem Limit.gain_nonneg (limit : Limit) {t t' : Int} (h : t ≤ t') :
    0 ≤ (limit.rate : Int) * (t' - t) :=
  mul_nonneg (Int.natCast_nonneg _) (sub_nonneg.mpr h)

structure Bucket where
  tokens : Nat
  lastRefill : Int
deriving DecidableEq, Repr

def Bucket.refill (limit : Limit) (now : Int) (b : Bucket) : Bucket :=
  if 0 < now - b.lastRefill then
    ⟨min (b.tokens + (now - b.lastRefill).toNat * limit.rate) limit.capacity, now⟩
  else b

def Bucket.level (limit : Limit) (b : Bucket) (t : Int) : Nat :=
  min (b.tokens + (t - b.lastRefill).toNat * limit.rate) limit.capacity

section Bucket

variable {limit : Limit} {b : Bucket}

theorem Bucket.level_le (t : Int) : b.level limit t ≤ limit.capacity := min_le_right _ _

/-- The level grows no faster than the rate. -/
theorem Bucket.level_later {t t' : Int} (h : t ≤ t') :
    (b.level limit t' : Int) ≤ b.level limit t + limit.rate * (t' - t) := by
  obtain ⟨d, hd⟩ := Int.eq_ofNat_of_zero_le (sub_nonneg.mpr h)
  have helapsed : (t' - b.lastRefill).toNat ≤ (t - b.lastRefill).toNat + d := by omega
  have hmul := Nat.mul_le_mul_right limit.rate helapsed
  rw [Nat.add_mul] at hmul
  rw [hd, ← Nat.cast_mul, ← Nat.cast_add, Nat.cast_le, Nat.mul_comm limit.rate d]
  unfold Bucket.level
  omega

theorem Bucket.refill_tokens_le (now : Int) (h : b.tokens ≤ limit.capacity) :
    (b.refill limit now).tokens ≤ limit.capacity := by
  unfold Bucket.refill
  split
  · exact min_le_right _ _
  · exact h

theorem Bucket.le_refill_lastRefill (now : Int) :
    now ≤ (b.refill limit now).lastRefill := by
  unfold Bucket.refill
  split
  · exact le_refl now
  · omega

theorem Bucket.refill_lastRefill_le {now : Int} (h : b.lastRefill ≤ now) :
    (b.refill limit now).lastRefill ≤ now := by
  unfold Bucket.refill
  split
  · exact le_refl now
  · exact h

/-- A refill turns the level into tokens. -/
theorem Bucket.refill_tokens (now : Int) (h : b.tokens ≤ limit.capacity) :
    (b.refill limit now).tokens = b.level limit now := by
  unfold Bucket.refill Bucket.level
  split
  · rfl
  · have hzero : (now - b.lastRefill).toNat = 0 := by omega
    rw [hzero, Nat.zero_mul, Nat.add_zero, min_eq_left h]

/-- The level of a bucket that was just refilled is what it holds. -/
theorem Bucket.level_of_le {t : Int} (h : t ≤ b.lastRefill)
    (htokens : b.tokens ≤ limit.capacity) : b.level limit t = b.tokens := by
  have hzero : (t - b.lastRefill).toNat = 0 := by omega
  rw [Bucket.level, hzero, Nat.zero_mul, Nat.add_zero, min_eq_left htokens]

/-- After enough time the bucket is full. -/
theorem Bucket.level_eq_capacity {t : Int}
    (h : limit.capacity ≤ (t - b.lastRefill).toNat * limit.rate) :
    b.level limit t = limit.capacity :=
  min_eq_right (h.trans (Nat.le_add_left _ _))

end Bucket

section Spending

universe u v w

variable {σ : Type u} {α : Type v} {ε : Type w} (step : σ → α → σ × List ε)
  (time : α → Int) (cost : List ε → Nat)

/-- What the steps of a run at times from `t₁` to `t₂` spend together. -/
def spent (t₁ t₂ : Int) : σ → List α → Nat
  | _, [] => 0
  | s, a :: rest =>
      (if t₁ ≤ time a ∧ time a ≤ t₂ then cost (step s a).2 else 0) +
        spent t₁ t₂ (step s a).1 rest

theorem spent_of_later {t₁ t₂ : Int} (s : σ) (acts : List α)
    (h : ∀ a ∈ acts, t₂ < time a) : spent step time cost t₁ t₂ s acts = 0 := by
  induction acts generalizing s with
  | nil => rfl
  | cons a rest ih =>
      have hlate := h a List.mem_cons_self
      rw [spent, if_neg (fun hin => by omega),
        ih _ fun b hb => h b (List.mem_cons_of_mem a hb)]

/-- A level pays for what is spent: it has an upper bound, time adds to it at most the
rate, and no step spends more than it takes from the level. -/
structure Pays (ok : σ → α → Prop) (limit : Limit) (inv : Int → σ → Prop)
    (level : σ → Int → Nat) : Prop where
  bounded : ∀ s t, level s t ≤ limit.capacity
  later : ∀ s t t', t ≤ t' → (level s t' : Int) ≤ level s t + limit.rate * (t' - t)
  wait : ∀ c c' s, inv c s → c ≤ c' → inv c' s
  keeps : ∀ c s a, inv c s → c ≤ time a → ok s a → inv (time a) (step s a).1
  pays : ∀ c s a, inv c s → c ≤ time a → ok s a →
    level (step s a).1 (time a) + cost (step s a).2 ≤ level s (time a)

variable {step time cost} {ok : σ → α → Prop} {limit : Limit} {inv : Int → σ → Prop}
  {level : σ → Int → Nat}

/-- From time `c` on the level at `c` and what time adds pay for everything. -/
theorem Pays.spent_le_level (h : Pays step time cost ok limit inv level) (t₁ t₂ : Int)
    (acts : List α) (c : Int) (s : σ) (hinv : inv c s) (hc : c ≤ t₂)
    (hfrom : ∀ a ∈ acts, c ≤ time a) (hclock : (acts.map time).Pairwise (· ≤ ·))
    (hok : Along step ok s acts) :
    (spent step time cost t₁ t₂ s acts : Int) ≤ level s c + limit.rate * (t₂ - c) := by
  induction acts generalizing s c with
  | nil =>
      have hgain := limit.gain_nonneg hc
      rw [spent]
      push_cast
      omega
  | cons a rest ih =>
      rw [List.map_cons, List.pairwise_cons] at hclock
      have hat := hfrom a List.mem_cons_self
      have hbehind : ∀ b ∈ rest, time a ≤ time b := fun b hb =>
        hclock.1 (time b) (List.mem_map_of_mem hb)
      by_cases hlate : t₂ < time a
      · rw [spent_of_later]
        · have hgain := limit.gain_nonneg hc
          push_cast
          omega
        · intro b hb
          rcases List.mem_cons.mp hb with rfl | hb
          · exact hlate
          · exact lt_of_lt_of_le hlate (hbehind b hb)
      have hrest := ih (time a) (step s a).1 (h.keeps c s a hinv hat hok.1) (by omega)
        hbehind hclock.2 hok.2
      have hpays := h.pays c s a hinv hat hok.1
      have hlater := h.later s c (time a) hat
      have hcost : (if t₁ ≤ time a ∧ time a ≤ t₂ then cost (step s a).2 else 0) ≤
          cost (step s a).2 := by
        split
        · exact le_refl _
        · exact Nat.zero_le _
      have hsplit : (limit.rate : Int) * (t₂ - c) =
          limit.rate * (time a - c) + limit.rate * (t₂ - time a) := by ring
      rw [spent, hsplit]
      push_cast at hrest hlater ⊢
      omega

/-- In every interval a run spends at most the capacity and what the interval adds. -/
theorem Pays.spent_le (h : Pays step time cost ok limit inv level) {t₁ t₂ : Int}
    (ht : t₁ ≤ t₂) (acts : List α) (c : Int) (s : σ) (hinv : inv c s)
    (hfrom : ∀ a ∈ acts, c ≤ time a) (hclock : (acts.map time).Pairwise (· ≤ ·))
    (hok : Along step ok s acts) :
    (spent step time cost t₁ t₂ s acts : Int) ≤
      limit.capacity + limit.rate * (t₂ - t₁) := by
  have hgain := limit.gain_nonneg ht
  induction acts generalizing s c with
  | nil =>
      rw [spent]
      push_cast
      omega
  | cons a rest ih =>
      have hat := hfrom a List.mem_cons_self
      have hpairs := hclock
      rw [List.map_cons, List.pairwise_cons] at hpairs
      have hbehind : ∀ b ∈ rest, time a ≤ time b := fun b hb =>
        hpairs.1 (time b) (List.mem_map_of_mem hb)
      by_cases hearly : time a < t₁
      · have hrest := ih (time a) (step s a).1 (h.keeps c s a hinv hat hok.1) hbehind
          hpairs.2 hok.2
        rw [spent, if_neg (fun hin => by omega), Nat.zero_add]
        exact hrest
      have hself : ∀ b ∈ a :: rest, time a ≤ time b := by
        intro b hb
        rcases List.mem_cons.mp hb with rfl | hb
        · exact le_refl _
        · exact hbehind b hb
      by_cases hlate : t₂ < time a
      · rw [spent_of_later step time cost s _ fun b hb => lt_of_lt_of_le hlate (hself b hb)]
        push_cast
        omega
      · -- The first step in the interval: the level there is at most the capacity.
        have hlevel := h.spent_le_level t₁ t₂ (a :: rest) (time a) s
          (h.wait c (time a) s hinv hat) (by omega) hself hclock hok
        have hbounded := h.bounded s (time a)
        have hshorter : (limit.rate : Int) * (t₂ - time a) ≤ limit.rate * (t₂ - t₁) :=
          mul_le_mul_of_nonneg_left (by omega) (Int.natCast_nonneg _)
        omega

end Spending

end Chamlon.TokenBucket
