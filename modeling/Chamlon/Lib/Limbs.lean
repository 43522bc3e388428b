import Mathlib.Tactic

/-!
A number held in an array of words of `w` bits, word 0 least significant. Its bits are
those of the words, and a shift of the array is compared with a shift of the number bit
by bit.
-/

namespace Chamlon.Limbs

variable {w n : Nat}

/-- The number that the words stand for. -/
def value (limbs : Fin n → BitVec w) : Nat :=
  ∑ i, (limbs i).toNat * 2 ^ (w * i.val)

/-- Bit `k` of the array. -/
def bit (limbs : Fin n → BitVec w) (k : Nat) : Bool :=
  if h : k / w < n then (limbs ⟨k / w, h⟩).getLsbD (k % w) else false

theorem value_succ (limbs : Fin (n + 1) → BitVec w) :
    value limbs =
      2 ^ (w * n) * (limbs (Fin.last n)).toNat + value (fun i => limbs i.castSucc) := by
  unfold value
  rw [Fin.sum_univ_castSucc, Nat.add_comm, Nat.mul_comm]
  rfl

theorem value_lt (limbs : Fin n → BitVec w) : value limbs < 2 ^ (w * n) := by
  induction n with
  | zero => simp [value]
  | succ n ih =>
      have hlow := ih fun i => limbs i.castSucc
      have htop := (limbs (Fin.last n)).isLt
      rw [value_succ, Nat.mul_succ, Nat.pow_add]
      calc 2 ^ (w * n) * (limbs (Fin.last n)).toNat + value (fun i => limbs i.castSucc)
          < 2 ^ (w * n) * (limbs (Fin.last n)).toNat + 2 ^ (w * n) :=
            Nat.add_lt_add_left hlow _
        _ = 2 ^ (w * n) * ((limbs (Fin.last n)).toNat + 1) := (Nat.mul_succ _ _).symm
        _ ≤ 2 ^ (w * n) * 2 ^ w := Nat.mul_le_mul_left _ htop

theorem word_lt_iff (hw : 0 < w) {k m : Nat} : k / w < m ↔ k < w * m := by
  rw [Nat.mul_comm]
  exact Nat.div_lt_iff_lt_mul hw

theorem testBit_value (hw : 0 < w) (limbs : Fin n → BitVec w) (k : Nat) :
    (value limbs).testBit k = bit limbs k := by
  induction n with
  | zero => simp [value, bit]
  | succ n ih =>
      rw [value_succ, Nat.testBit_two_pow_mul_add _ (value_lt _), ih]
      unfold bit
      by_cases hlow : k / w < n
      · -- the bit lies in one of the lower words
        have hk : k < w * n := (word_lt_iff hw).mp hlow
        rw [if_pos hk, dif_pos hlow, dif_pos (Nat.lt_succ_of_lt hlow)]
        rfl
      · have hk : ¬k < w * n := fun h => hlow ((word_lt_iff hw).mpr h)
        have hge : w * n ≤ k := Nat.not_lt.mp hk
        rw [if_neg hk]
        by_cases htop : k / w < n + 1
        · have hword : k / w = n := by omega
          have hrest : k - w * n = k % w := by
            rw [← hword]
            exact (Nat.mod_eq_sub_mul_div).symm
          have hidx : (⟨k / w, htop⟩ : Fin (n + 1)) = Fin.last n := Fin.ext hword
          rw [dif_pos htop, hidx, hrest]
          rfl
        · -- beyond the last word every bit is clear
          have hsucc : w * (n + 1) ≤ k :=
            Nat.not_lt.mp fun h => htop ((word_lt_iff hw).mpr h)
          rw [dif_neg htop]
          apply Nat.testBit_lt_two_pow
          refine (limbs (Fin.last n)).isLt.trans_le (Nat.pow_le_pow_right Nat.two_pos ?_)
          rw [Nat.mul_succ] at hsucc
          omega

/-- An array whose bits are those of another moved up by `shift` holds the shifted
number, cut off at the array's width. -/
theorem value_of_shifted {before after : Fin n → BitVec w} {shift : Nat} (hw : 0 < w)
    (h : ∀ k < w * n, bit after k = (decide (shift ≤ k) && bit before (k - shift))) :
    value after = value before * 2 ^ shift % 2 ^ (w * n) := by
  apply Nat.eq_of_testBit_eq
  intro k
  rw [Nat.testBit_mod_two_pow, Nat.testBit_mul_two_pow, testBit_value hw]
  by_cases hk : k < w * n
  · rw [testBit_value hw, h k hk, decide_eq_true hk, Bool.true_and]
  · have hout : ¬k / w < n := fun hlt => hk ((word_lt_iff hw).mp hlt)
    rw [bit, dif_neg hout, decide_eq_false hk, Bool.false_and]

end Chamlon.Limbs
