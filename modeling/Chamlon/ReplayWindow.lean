import Mathlib.Tactic
import Chamlon.Config

/-!
The sliding replay window of `replay_window.c`. The client's
`vpn_replay_window.c` has the same two functions, so both sides share this
model. The code is written for any number of bitmap words and so is the model;
the shipped configuration has one.

Bit `k` of the bitmap stands for the sequence number `recv_max - k`. The two
facts the rest of the development uses are that recording a number makes the
window reject it, and that it never forgets a number it already rejects. Both
hold across the wrapping addition of the age test, which can only reject more.
-/

namespace Chamlon

open Config

/-- `replay_window_t` for a bitmap of `words` words. -/
structure ReplayWindow (words : Nat) where
  recvMax : BitVec 64
  bitmap : Fin words → BitVec 64

namespace ReplayWindow

variable {words : Nat}

/-- The window after `memset(w, 0, sizeof(*w))`. -/
def zero : ReplayWindow words := ⟨0, fun _ => 0⟩

def wordAt (bitmap : Fin words → BitVec 64) (word : Nat) : BitVec 64 :=
  if h : word < words then bitmap ⟨word, h⟩ else 0

/-- `check_replay`: `true` for a replayed, too old or zero sequence number. The
sum of the age test is taken modulo `2 ^ 64`. -/
def checkReplay (seq : BitVec 64) (w : ReplayWindow words) : Bool :=
  if seq = 0 then true
  else if w.recvMax < seq then false
  else if seq + BitVec.ofNat 64 (wordSize * words) ≤ w.recvMax then true
  else
    let diff := (w.recvMax - seq).toNat
    let word := diff / wordSize
    let bit := diff % wordSize
    wordAt w.bitmap word &&& (1#64 <<< bit) != 0

/-- The descending in-place loop over whole words; `i` counts down from the
number of words, so the cells below `i` are still the old ones. -/
def shiftWords (wordShift : Nat) :
    (i : Nat) → i ≤ words → (Fin words → BitVec 64) → Fin words → BitVec 64
  | 0, _, bitmap => bitmap
  | i + 1, h, bitmap =>
      let val := if wordShift ≤ i then bitmap ⟨i - wordShift, by omega⟩ else 0
      shiftWords wordShift i (by omega) (Function.update bitmap ⟨i, h⟩ val)

/-- The descending in-place loop that shifts inside each word and carries the
high bits of the word below. -/
def shiftBits (bitShift : Nat) :
    (i : Nat) → i ≤ words → (Fin words → BitVec 64) → Fin words → BitVec 64
  | 0, _, bitmap => bitmap
  | i + 1, h, bitmap =>
      let high := bitmap ⟨i, h⟩ <<< bitShift
      let carry :=
        if 0 < i then bitmap ⟨i - 1, by omega⟩ >>> (wordSize - bitShift) else 0
      shiftBits bitShift i (by omega)
        (Function.update bitmap ⟨i, h⟩ (high ||| carry))

/-- Case 1 of `update_window` for an advance below the window size: the word
and bit shifts, then the mask over the bits that slid in. -/
def advance (diff : Nat) (bitmap : Fin words → BitVec 64) :
    Fin words → BitVec 64 :=
  let shifted :=
    if wordSize ≤ diff then
      let moved := shiftWords (diff / wordSize) words le_rfl bitmap
      if diff % wordSize ≠ 0 then
        shiftBits (diff % wordSize) words le_rfl moved
      else moved
    else shiftBits diff words le_rfl bitmap
  let mask : BitVec 64 := if 64 ≤ diff then 0 else (1#64 <<< diff) - 1
  fun i => if i.val = 0 then shifted i &&& ~~~mask else shifted i

/-- `bitmap[word] |= 1ULL << bit`. Past the last word the code has no test and the store
is out of bounds. This function then changes nothing; `marksInside` says when that is. -/
def mark (diff : Nat) (bitmap : Fin words → BitVec 64) : Fin words → BitVec 64 :=
  fun i =>
    if i.val = diff / wordSize then bitmap i ||| (1#64 <<< (diff % wordSize))
    else bitmap i

/-- `update_window`. -/
def updateWindow (seq : BitVec 64) (w : ReplayWindow words) :
    ReplayWindow words :=
  if seq = 0 then w
  else
    let moved : ReplayWindow words :=
      if w.recvMax < seq then
        let diff := seq - w.recvMax
        if BitVec.ofNat 64 (wordSize * words) ≤ diff then ⟨seq, fun _ => 0⟩
        else ⟨seq, advance diff.toNat w.bitmap⟩
      else w
    ⟨moved.recvMax, mark (moved.recvMax - seq).toNat moved.bitmap⟩

/-- Whether the word that `update_window` marks is one of the bitmap's. -/
def marksInside (seq : BitVec 64) (w : ReplayWindow words) : Bool :=
  let diff := if w.recvMax < seq then 0 else (w.recvMax - seq).toNat
  decide (seq = 0 ∨ diff / wordSize < words)

/-- Bit `k` of the bitmap read as one number, word 0 least significant. -/
def bit (bitmap : Fin words → BitVec 64) (k : Nat) : Bool :=
  (wordAt bitmap (k / wordSize)).getLsbD (k % wordSize)

theorem shiftWords_apply (wordShift i : Nat) (h : i ≤ words)
    (bitmap : Fin words → BitVec 64) (j : Fin words) :
    shiftWords wordShift i h bitmap j =
      if j.val < i then
        (if wordShift ≤ j.val then bitmap ⟨j.val - wordShift, by omega⟩ else 0)
      else bitmap j := by
  induction i generalizing bitmap with
  | zero => simp [shiftWords]
  | succ i ih =>
      simp only [shiftWords]
      rw [ih]
      by_cases hlt : j.val < i
      · have hne : (⟨j.val - wordShift, by omega⟩ : Fin words) ≠ ⟨i, h⟩ := by
          simp only [ne_eq, Fin.mk.injEq]
          omega
        simp only [if_pos hlt, if_pos (Nat.lt_succ_of_lt hlt),
          Function.update_of_ne hne]
      · rw [if_neg hlt]
        by_cases heq : j.val = i
        · have hj : j = ⟨i, h⟩ := Fin.ext heq
          subst hj
          simp
        · have hj : j ≠ ⟨i, h⟩ := fun hj => heq (congrArg Fin.val hj)
          rw [Function.update_of_ne hj, if_neg (by omega)]

theorem shiftBits_apply (bitShift i : Nat) (h : i ≤ words)
    (bitmap : Fin words → BitVec 64) (j : Fin words) :
    shiftBits bitShift i h bitmap j =
      if j.val < i then
        (bitmap j <<< bitShift) |||
          (if 0 < j.val then
            bitmap ⟨j.val - 1, by omega⟩ >>> (wordSize - bitShift) else 0)
      else bitmap j := by
  induction i generalizing bitmap with
  | zero => simp [shiftBits]
  | succ i ih =>
      simp only [shiftBits]
      rw [ih]
      by_cases hlt : j.val < i
      · have hself : j ≠ ⟨i, h⟩ := by
          intro hj
          have := congrArg Fin.val hj
          simp only at this
          omega
        have hbelow : (⟨j.val - 1, by omega⟩ : Fin words) ≠ ⟨i, h⟩ := by
          simp only [ne_eq, Fin.mk.injEq]
          omega
        simp only [if_pos hlt, if_pos (Nat.lt_succ_of_lt hlt),
          Function.update_of_ne hself, Function.update_of_ne hbelow]
      · rw [if_neg hlt]
        by_cases heq : j.val = i
        · have hj : j = ⟨i, h⟩ := Fin.ext heq
          subst hj
          simp
        · have hj : j ≠ ⟨i, h⟩ := fun hj => heq (congrArg Fin.val hj)
          rw [Function.update_of_ne hj, if_neg (by omega)]

theorem bit_of_lt (bitmap : Fin words → BitVec 64) (k : Nat)
    (h : k / wordSize < words) :
    bit bitmap k = (bitmap ⟨k / wordSize, h⟩).getLsbD (k % wordSize) := by
  simp [bit, wordAt, h]

/-- Moving whole words moves every bit by a multiple of the word size. -/
theorem bit_shiftWords (wordShift k : Nat) (bitmap : Fin words → BitVec 64)
    (hk : k < wordSize * words) :
    bit (shiftWords wordShift words le_rfl bitmap) k =
      (decide (wordSize * wordShift ≤ k) && bit bitmap (k - wordSize * wordShift)) := by
  simp only [wordSize] at *
  have hword : k / 64 < words := Nat.div_lt_of_lt_mul hk
  rw [bit_of_lt _ k hword, shiftWords_apply]
  simp only [wordSize, if_pos hword]
  by_cases hle : 64 * wordShift ≤ k
  · have hshift : wordShift ≤ k / 64 := by omega
    have hidx : (k - 64 * wordShift) / 64 = k / 64 - wordShift := by omega
    have hmod : (k - 64 * wordShift) % 64 = k % 64 := by omega
    rw [bit_of_lt _ (k - 64 * wordShift) (by simp only [wordSize]; omega)]
    simp only [wordSize, hidx, hmod, hshift, hle, if_true, decide_true, Bool.true_and]
  · have hshift : ¬wordShift ≤ k / 64 := by omega
    simp [hshift, hle]

/-- The bit loop with its carries moves every bit up by `bitShift`. -/
theorem bit_shiftBits (bitShift k : Nat) (bitmap : Fin words → BitVec 64)
    (hpos : 0 < bitShift) (hshift : bitShift < wordSize)
    (hk : k < wordSize * words) :
    bit (shiftBits bitShift words le_rfl bitmap) k =
      (decide (bitShift ≤ k) && bit bitmap (k - bitShift)) := by
  simp only [wordSize] at *
  have hword : k / 64 < words := Nat.div_lt_of_lt_mul hk
  have hbit : k % 64 < 64 := Nat.mod_lt _ (by decide)
  rw [bit_of_lt _ k hword, shiftBits_apply]
  simp only [wordSize, if_pos hword, BitVec.getLsbD_or, BitVec.getLsbD_shiftLeft,
    hbit, decide_true, Bool.true_and]
  by_cases hinside : bitShift ≤ k % 64
  · -- the bit stays in its word; the carry has no bit this high
    have hle : bitShift ≤ k := hinside.trans (Nat.mod_le _ _)
    have hidx : (k - bitShift) / 64 = k / 64 := by omega
    have hmod : (k - bitShift) % 64 = k % 64 - bitShift := by omega
    have hcarry :
        (if 0 < k / 64 then bitmap ⟨k / 64 - 1, by omega⟩ >>> (64 - bitShift)
          else 0).getLsbD (k % 64) = false := by
      split
      · rw [BitVec.getLsbD_ushiftRight]
        exact BitVec.getLsbD_of_ge _ _ (by omega)
      · simp
    rw [bit_of_lt _ (k - bitShift) (by simp only [wordSize]; omega), hcarry]
    simp [hle, hidx, hmod, Nat.not_lt.mpr hinside]
  · by_cases hfirst : k / 64 = 0
    · -- below the shift in word 0 only zeros come in
      have hle : ¬bitShift ≤ k := by omega
      simp [hfirst, hle, Nat.not_le.mp hinside]
    · have hle : bitShift ≤ k := by omega
      have hidx : (k - bitShift) / 64 = k / 64 - 1 := by omega
      have hmod : (k - bitShift) % 64 = 64 - bitShift + k % 64 := by omega
      rw [bit_of_lt _ (k - bitShift) (by simp only [wordSize]; omega)]
      simp [hle, hidx, hmod, Nat.not_le.mp hinside, Nat.pos_of_ne_zero hfirst,
        BitVec.getLsbD_ushiftRight]

/-- The mask only clears bits that the shift has already filled with zeros. -/
private theorem getLsbD_mask (diff j : Nat) (hdiff : diff < 64) (hj : j < 64) :
    (~~~((1#64 <<< diff) - 1)).getLsbD j = decide (diff ≤ j) := by
  have hpow : 2 ^ diff < 2 ^ 64 := Nat.pow_lt_pow_right (by decide) hdiff
  have hone : (1#64 <<< diff).toNat = 2 ^ diff := by
    rw [BitVec.toNat_shiftLeft, Nat.shiftLeft_eq]
    simpa using Nat.mod_eq_of_lt hpow
  have hnat : ((1#64 <<< diff) - 1).toNat = 2 ^ diff - 1 := by
    have hle : (1 : BitVec 64) ≤ 1#64 <<< diff := by
      rw [BitVec.le_def, hone]
      exact Nat.one_le_two_pow
    rw [BitVec.toNat_sub_of_le hle, hone]
    rfl
  rw [BitVec.getLsbD_not, BitVec.getLsbD, hnat, Nat.testBit_two_pow_sub_one]
  by_cases hle : diff ≤ j
  · simp [hj, hle]
  · simp [hle, Nat.not_le.mp hle]

/-- The whole of Case 1 is one shift of the bitmap by `diff` bits. -/
theorem bit_advance (diff k : Nat) (bitmap : Fin words → BitVec 64)
    (hpos : 0 < diff) (hk : k < wordSize * words) :
    bit (advance diff bitmap) k = (decide (diff ≤ k) && bit bitmap (k - diff)) := by
  have hword : k / wordSize < words := Nat.div_lt_of_lt_mul hk
  simp only [wordSize] at *
  by_cases hbig : 64 ≤ diff
  · have hunmasked : bit (advance diff bitmap) k =
        bit (if diff % 64 ≠ 0 then
          shiftBits (diff % 64) words le_rfl
            (shiftWords (diff / 64) words le_rfl bitmap)
          else shiftWords (diff / 64) words le_rfl bitmap) k := by
      have hcells : advance diff bitmap =
          if diff % 64 ≠ 0 then
            shiftBits (diff % 64) words le_rfl
              (shiftWords (diff / 64) words le_rfl bitmap)
          else shiftWords (diff / 64) words le_rfl bitmap := by
        funext i
        have hfull (v : BitVec 64) : v &&& ~~~(0 : BitVec 64) = v := by
          rw [show ~~~(0 : BitVec 64) = BitVec.allOnes 64 from by decide,
            BitVec.and_allOnes]
        simp only [advance, wordSize, hbig, if_true, hfull, ite_self]
      rw [hcells]
    rw [hunmasked]
    split
    next hmod =>
      rw [bit_shiftBits _ _ _ (Nat.pos_of_ne_zero hmod)
        (by simp only [wordSize]; omega) hk]
      by_cases hle : diff % 64 ≤ k
      · rw [bit_shiftWords _ _ _ (by simp only [wordSize]; omega)]
        have hsum : k - diff % 64 - 64 * (diff / 64) = k - diff := by omega
        have hiff : 64 * (diff / 64) ≤ k - diff % 64 ↔ diff ≤ k := by omega
        simp [hle, hsum, hiff]
      · have hle' : ¬diff ≤ k := by omega
        simp [hle, hle']
    next hmod =>
      rw [bit_shiftWords _ _ _ hk]
      have hexact : 64 * (diff / 64) = diff := by omega
      simp only [wordSize, hexact]
  · have hmask : bit (advance diff bitmap) k =
        (bit (shiftBits diff words le_rfl bitmap) k &&
          (decide (k / 64 = 0 → diff ≤ k % 64))) := by
      rw [bit_of_lt _ k hword, bit_of_lt _ k hword]
      simp only [advance, wordSize, hbig, if_false]
      by_cases hzero : k / 64 = 0
      · simp only [hzero, if_true, BitVec.getLsbD_and]
        rw [getLsbD_mask diff _ (by omega) (Nat.mod_lt _ (by decide))]
        simp
      · simp [hzero]
    rw [hmask, bit_shiftBits _ _ _ hpos (by simp only [wordSize]; omega) hk]
    by_cases hle : diff ≤ k
    · have hkeep : k / 64 = 0 → diff ≤ k % 64 := by omega
      rw [decide_eq_true hkeep, Bool.and_true]
    · simp [hle]

theorem bit_mark (diff k : Nat) (bitmap : Fin words → BitVec 64)
    (hk : k < wordSize * words) :
    bit (mark diff bitmap) k = (bit bitmap k || decide (k = diff)) := by
  have hword : k / wordSize < words := Nat.div_lt_of_lt_mul hk
  rw [bit_of_lt _ k hword, bit_of_lt _ k hword]
  simp only [mark, wordSize] at *
  by_cases hsame : k / 64 = diff / 64
  · simp only [hsame, if_true, BitVec.getLsbD_or]
    have hone : (1#64 <<< (diff % 64)).getLsbD (k % 64) = decide (k = diff) := by
      have hlt : k % 64 < 64 := Nat.mod_lt _ (by decide)
      rw [BitVec.getLsbD_shiftLeft, BitVec.getLsbD_one]
      by_cases heq : k = diff
      · subst heq
        simp [hlt]
      · have hmod : k % 64 ≠ diff % 64 := by omega
        simp only [heq, decide_false]
        by_cases hlow : k % 64 < diff % 64
        · simp [hlow]
        · have hsub : k % 64 - diff % 64 ≠ 0 := by omega
          simp [hsub]
    rw [hone]
  · have hne : k ≠ diff := fun heq => hsame (by rw [heq])
    simp [hsame, hne]

/-- `check_replay` in exact arithmetic, except for the one wrapping sum. -/
theorem checkReplay_iff (seq : BitVec 64) (w : ReplayWindow words)
    (hwords : wordSize * words < 2 ^ 64) :
    checkReplay seq w = true ↔
      seq = 0 ∨ (seq.toNat ≤ w.recvMax.toNat ∧
        ((seq.toNat + wordSize * words) % 2 ^ 64 ≤ w.recvMax.toNat ∨
          bit w.bitmap (w.recvMax.toNat - seq.toNat) = true)) := by
  unfold checkReplay
  by_cases hzero : seq = 0
  · simp [hzero]
  by_cases hnew : w.recvMax < seq
  · have hlt : ¬seq.toNat ≤ w.recvMax.toNat := by
      rw [BitVec.lt_def] at hnew
      omega
    simp [hnew, hlt]
  · have hle : seq ≤ w.recvMax := BitVec.not_lt.mp hnew
    have hnat : seq.toNat ≤ w.recvMax.toNat := hle
    have hage : seq + BitVec.ofNat 64 (wordSize * words) ≤ w.recvMax ↔
        (seq.toNat + wordSize * words) % 2 ^ 64 ≤ w.recvMax.toNat := by
      rw [BitVec.le_def, BitVec.toNat_add, BitVec.toNat_ofNat,
        Nat.mod_eq_of_lt hwords]
    have hdiff : (w.recvMax - seq).toNat = w.recvMax.toNat - seq.toNat :=
      BitVec.toNat_sub_of_le hle
    have htest : ∀ (word : BitVec 64) (b : Nat), b < 64 →
        ((word &&& (1#64 <<< b)) != 0) = word.getLsbD b := by
      intro word b hb
      rw [← BitVec.twoPow_eq, BitVec.and_twoPow]
      cases word.getLsbD b with
      | false => simp
      | true =>
          have hpow : BitVec.twoPow 64 b ≠ 0 := by
            intro h
            have hbit := congrArg (fun v => v.getLsbD b) h
            simp [hb] at hbit
          simpa using hpow
    simp only [hzero, if_false, hnew, hage, hdiff, hnat, true_and, false_or]
    split
    next h => exact ⟨fun _ => Or.inl h, fun _ => rfl⟩
    next h =>
      rw [htest _ _ (Nat.mod_lt _ (by decide))]
      exact ⟨Or.inr, fun hor => hor.resolve_left h⟩

/-- Inside the window the age test has not wrapped, so the number is less than
a window behind. -/
theorem behind_lt_window (s m size : Nat) (hm : m < 2 ^ 64)
    (hsize : size < 2 ^ 64) (hle : s ≤ m) (hage : ¬(s + size) % 2 ^ 64 ≤ m) :
    m - s < size ∧ s + size < 2 ^ 64 := by
  by_cases hwrap : s + size < 2 ^ 64
  · rw [Nat.mod_eq_of_lt hwrap] at hage
    omega
  · rw [Nat.mod_eq_sub_mod (by omega), Nat.mod_eq_of_lt (by omega)] at hage
    omega

/-- The store is inside the bitmap for numbers above `recv_max` and for those less than
a window behind it. -/
theorem marksInside_iff (seq : BitVec 64) (w : ReplayWindow words) (hpos : 0 < words)
    (hseq : seq ≠ 0) :
    marksInside seq w = true ↔
      w.recvMax < seq ∨ w.recvMax.toNat < seq.toNat + wordSize * words := by
  unfold marksInside
  dsimp only
  rw [decide_eq_true_iff, or_iff_right hseq]
  by_cases hnew : w.recvMax < seq
  · rw [if_pos hnew, Nat.zero_div]
    exact ⟨fun _ => Or.inl hnew, fun _ => hpos⟩
  · rw [if_neg hnew, or_iff_right hnew, BitVec.toNat_sub_of_le (BitVec.not_lt.mp hnew),
      Nat.div_lt_iff_lt_mul (by decide), Nat.mul_comm]
    have hle : seq.toNat ≤ w.recvMax.toNat := BitVec.not_lt.mp hnew
    omega

/-- So it is for every number that `check_replay` lets pass, if no one has moved the
window since. -/
theorem accepted_near (seq : BitVec 64) (w : ReplayWindow words)
    (hwords : wordSize * words < 2 ^ 64)
    (haccept : checkReplay seq w = false) :
    seq ≠ 0 ∧ (w.recvMax < seq ∨ w.recvMax.toNat < seq.toNat + wordSize * words) := by
  have hnot : ¬checkReplay seq w = true := by simp [haccept]
  rw [checkReplay_iff seq w hwords] at hnot
  push Not at hnot
  obtain ⟨hseq, hwindow⟩ := hnot
  refine ⟨hseq, ?_⟩
  by_cases hnew : w.recvMax < seq
  · exact Or.inl hnew
  · have hle : seq.toNat ≤ w.recvMax.toNat := BitVec.not_lt.mp hnew
    have hbehind := (behind_lt_window _ _ _ w.recvMax.isLt hwords hle
      (Nat.not_le.mpr (hwindow hle).1)).1
    exact Or.inr (by omega)

theorem updateWindow_recvMax (seq : BitVec 64) (w : ReplayWindow words)
    (hseq : seq ≠ 0) :
    (updateWindow seq w).recvMax = if w.recvMax < seq then seq else w.recvMax := by
  simp only [updateWindow, hseq, if_false]
  split
  · split <;> rfl
  · rfl

/-- The bitmap after a number beyond the right edge was recorded. -/
theorem updateWindow_bit_of_new (seq : BitVec 64) (w : ReplayWindow words)
    (hwords : wordSize * words < 2 ^ 64) (hnew : w.recvMax < seq) (k : Nat)
    (hk : k < wordSize * words) :
    bit (updateWindow seq w).bitmap k =
      ((decide (seq.toNat - w.recvMax.toNat ≤ k) &&
        bit w.bitmap (k - (seq.toNat - w.recvMax.toNat))) || decide (k = 0)) := by
  have hnat : w.recvMax.toNat < seq.toNat := hnew
  have hseq : seq ≠ 0 := by
    intro h
    subst h
    simp at hnat
  have hdiff : (seq - w.recvMax).toNat = seq.toNat - w.recvMax.toNat :=
    BitVec.toNat_sub_of_le (by rw [BitVec.le_def]; omega)
  have hself : (seq - seq).toNat = 0 := by simp
  have hjump : BitVec.ofNat 64 (wordSize * words) ≤ seq - w.recvMax ↔
      wordSize * words ≤ seq.toNat - w.recvMax.toNat := by
    rw [BitVec.le_def, BitVec.toNat_ofNat, Nat.mod_eq_of_lt hwords, hdiff]
  simp only [updateWindow, hseq, if_false, hnew, if_true, hjump]
  split
  next hfar =>
    have hbehind : ¬seq.toNat - w.recvMax.toNat ≤ k := by omega
    rw [hself, bit_mark _ _ _ hk]
    simp [hbehind, bit, wordAt]
  next hnear =>
    rw [hself, hdiff, bit_mark _ _ _ hk,
      bit_advance _ _ _ (by omega) hk]

/-- The bitmap after a number inside the window was recorded. -/
theorem updateWindow_bit_of_old (seq : BitVec 64) (w : ReplayWindow words)
    (hseq : seq ≠ 0) (hold : ¬w.recvMax < seq) (k : Nat)
    (hk : k < wordSize * words) :
    bit (updateWindow seq w).bitmap k =
      (bit w.bitmap k || decide (k = w.recvMax.toNat - seq.toNat)) := by
  have hdiff : (w.recvMax - seq).toNat = w.recvMax.toNat - seq.toNat :=
    BitVec.toNat_sub_of_le (BitVec.not_lt.mp hold)
  simp only [updateWindow, hseq, if_false, hold]
  rw [bit_mark _ _ _ hk, hdiff]

/-- Once recorded, an accepted number is rejected. -/
theorem checkReplay_updateWindow_self (seq : BitVec 64) (w : ReplayWindow words)
    (hpos : 0 < words) (hwords : wordSize * words < 2 ^ 64)
    (haccept : checkReplay seq w = false) :
    checkReplay seq (updateWindow seq w) = true := by
  have hnot : ¬checkReplay seq w = true := by simp [haccept]
  rw [checkReplay_iff seq w hwords] at hnot
  push Not at hnot
  obtain ⟨hseq, hwindow⟩ := hnot
  rw [checkReplay_iff _ _ hwords]
  right
  rw [updateWindow_recvMax seq w hseq]
  by_cases hnew : w.recvMax < seq
  · rw [if_pos hnew]
    refine ⟨le_rfl, Or.inr ?_⟩
    rw [Nat.sub_self, updateWindow_bit_of_new seq w hwords hnew 0 (by
      simp only [wordSize] at *
      omega)]
    simp
  · rw [if_neg hnew]
    have hle : seq.toNat ≤ w.recvMax.toNat := BitVec.not_lt.mp hnew
    obtain ⟨hage, _⟩ := hwindow hle
    have hbehind := (behind_lt_window _ _ _ w.recvMax.isLt hwords hle
      (Nat.not_le.mpr hage)).1
    refine ⟨hle, Or.inr ?_⟩
    rw [updateWindow_bit_of_old seq w hseq hnew _ hbehind]
    simp

/-- Recording an accepted number never makes the window forget a rejection. A
rejected number is either inside the window with its bit set, and then the
shift carries the bit along, or it drops off the left edge for good. -/
theorem checkReplay_updateWindow_of_rejected (seq other : BitVec 64)
    (w : ReplayWindow words) (hwords : wordSize * words < 2 ^ 64)
    (hreject : checkReplay other w = true) :
    checkReplay other (updateWindow seq w) = true := by
  by_cases hseq : seq = 0
  · simpa [updateWindow, hseq] using hreject
  rw [checkReplay_iff _ _ hwords] at hreject ⊢
  rcases hreject with hzero | ⟨hle, hrejected⟩
  · exact Or.inl hzero
  right
  rw [updateWindow_recvMax seq w hseq]
  by_cases hnew : w.recvMax < seq
  · have hnat : w.recvMax.toNat < seq.toNat := hnew
    rw [if_pos hnew]
    refine ⟨by omega, ?_⟩
    by_cases hage : (other.toNat + wordSize * words) % 2 ^ 64 ≤ w.recvMax.toNat
    · exact Or.inl (by omega)
    · obtain ⟨hbehind, hfit⟩ := behind_lt_window _ _ _ w.recvMax.isLt hwords hle hage
      have hbit := hrejected.resolve_left hage
      by_cases hslid : wordSize * words ≤ seq.toNat - other.toNat
      · left
        rw [Nat.mod_eq_of_lt hfit]
        omega
      · right
        rw [updateWindow_bit_of_new seq w hwords hnew _ (by omega)]
        have hadvance : seq.toNat - w.recvMax.toNat ≤ seq.toNat - other.toNat := by
          omega
        have hpos : seq.toNat - other.toNat - (seq.toNat - w.recvMax.toNat) =
            w.recvMax.toNat - other.toNat := by omega
        simp [hadvance, hpos, hbit]
  · rw [if_neg hnew]
    refine ⟨hle, ?_⟩
    by_cases hage : (other.toNat + wordSize * words) % 2 ^ 64 ≤ w.recvMax.toNat
    · exact Or.inl hage
    · have hbehind := (behind_lt_window _ _ _ w.recvMax.isLt hwords hle hage).1
      right
      rw [updateWindow_bit_of_old seq w hseq hnew _ hbehind,
        hrejected.resolve_left hage]
      rfl

end ReplayWindow

end Chamlon
