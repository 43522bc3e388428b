import Mathlib.Tactic
import Chamlon.Lib.Limbs
import Chamlon.ReplayWindow

/-!
The shift in `update_window` as C executes it. The two loops run down through the array
and overwrite the words they read from, so the order matters; an index outside the array
or a shift count of the word size and more has no meaning. Here such an access gives no
result at all, and the loops are compared with the arithmetic they stand for: the bitmap
is one number, and an advance by `diff` multiplies it by `2 ^ diff`.
-/

namespace Chamlon.ReplayWindow

open Config

variable {words : Nat}

/-- `w->bitmap[i]`. -/
def readWord (bitmap : Fin words → BitVec 64) (i : Int) : Option (BitVec 64) :=
  if h : 0 ≤ i ∧ i.toNat < words then some (bitmap ⟨i.toNat, h.2⟩) else none

/-- `w->bitmap[i] = val`. -/
def writeWord (bitmap : Fin words → BitVec 64) (i : Int) (val : BitVec 64) :
    Option (Fin words → BitVec 64) :=
  if h : 0 ≤ i ∧ i.toNat < words then some (Function.update bitmap ⟨i.toNat, h.2⟩ val)
  else none

/-- `val << count`. -/
def shiftUp (val : BitVec 64) (count : Nat) : Option (BitVec 64) :=
  if count < 64 then some (val <<< count) else none

/-- `val >> count`. -/
def shiftDown (val : BitVec 64) (count : Nat) : Option (BitVec 64) :=
  if count < 64 then some (val >>> count) else none

/-- `for (int i = count - 1; i >= 0; i--)`. -/
def downLoop (body : Int → (Fin words → BitVec 64) → Option (Fin words → BitVec 64)) :
    Nat → (Fin words → BitVec 64) → Option (Fin words → BitVec 64)
  | 0, bitmap => some bitmap
  | i + 1, bitmap => do downLoop body i (← body i bitmap)

/-- One turn of the loop over whole words. -/
def wordTurn (wordShift : Nat) (i : Int) (bitmap : Fin words → BitVec 64) :
    Option (Fin words → BitVec 64) :=
  if wordShift ≤ i then do writeWord bitmap i (← readWord bitmap (i - wordShift))
  else writeWord bitmap i 0

/-- What a word gets from the word below it. -/
def carryInto (bitShift : Nat) (i : Int) (bitmap : Fin words → BitVec 64) :
    Option (BitVec 64) :=
  if 0 < i then do shiftDown (← readWord bitmap (i - 1)) (wordSize - bitShift)
  else some 0

/-- One turn of the loop that shifts inside the words. -/
def bitTurn (bitShift : Nat) (i : Int) (bitmap : Fin words → BitVec 64) :
    Option (Fin words → BitVec 64) := do
  let word ← readWord bitmap i
  let high ← shiftUp word bitShift
  let carry ← carryInto bitShift i bitmap
  writeWord bitmap i (high ||| carry)

/-- The loops over the words and over their bits. -/
def shiftLoops (diff : Nat) (bitmap : Fin words → BitVec 64) :
    Option (Fin words → BitVec 64) :=
  if wordSize ≤ diff then do
    let moved ← downLoop (wordTurn (diff / wordSize)) words bitmap
    if diff % wordSize ≠ 0 then downLoop (bitTurn (diff % wordSize)) words moved
    else some moved
  else downLoop (bitTurn diff) words bitmap

/-- `(diff >= 64) ? 0 : ((1ULL << diff) - 1)`. -/
def slidMask (diff : Nat) : Option (BitVec 64) :=
  if 64 ≤ diff then some 0 else (shiftUp 1 diff).map (· - 1)

/-- The loops, and the mask over `bitmap[0]`. -/
def shiftWindow (diff : Nat) (bitmap : Fin words → BitVec 64) :
    Option (Fin words → BitVec 64) := do
  let shifted ← shiftLoops diff bitmap
  let mask ← slidMask diff
  let low ← readWord shifted 0
  writeWord shifted 0 (low &&& ~~~mask)

theorem readWord_ofNat (bitmap : Fin words → BitVec 64) {i : Nat} (h : i < words) :
    readWord bitmap i = some (bitmap ⟨i, h⟩) := by
  have hin : 0 ≤ (i : Int) ∧ (i : Int).toNat < words := ⟨Int.natCast_nonneg i, h⟩
  rw [readWord, dif_pos hin]
  rfl

theorem writeWord_ofNat (bitmap : Fin words → BitVec 64) {i : Nat} (h : i < words)
    (val : BitVec 64) :
    writeWord bitmap i val = some (Function.update bitmap ⟨i, h⟩ val) := by
  have hin : 0 ≤ (i : Int) ∧ (i : Int).toNat < words := ⟨Int.natCast_nonneg i, h⟩
  rw [writeWord, dif_pos hin]
  rfl

theorem wordTurn_eq (wordShift : Nat) {i : Nat} (h : i < words)
    (bitmap : Fin words → BitVec 64) :
    wordTurn wordShift i bitmap =
      some (Function.update bitmap ⟨i, h⟩
        (if wordShift ≤ i then bitmap ⟨i - wordShift, by omega⟩ else 0)) := by
  unfold wordTurn
  by_cases hle : wordShift ≤ i
  · have hcast : (i : Int) - (wordShift : Int) = ((i - wordShift : Nat) : Int) := by omega
    rw [if_pos (Int.ofNat_le.mpr hle), if_pos hle, hcast, readWord_ofNat bitmap]
    exact writeWord_ofNat bitmap h _
  · rw [if_neg (fun hint => hle (Int.ofNat_le.mp hint)), if_neg hle]
    exact writeWord_ofNat bitmap h _

theorem carryInto_eq {bitShift : Nat} (hpos : 0 < bitShift) {i : Nat} (h : i < words)
    (bitmap : Fin words → BitVec 64) :
    carryInto bitShift i bitmap =
      some (if 0 < i then bitmap ⟨i - 1, by omega⟩ >>> (wordSize - bitShift) else 0) := by
  have hcount : wordSize - bitShift < 64 := Nat.sub_lt (by decide) hpos
  unfold carryInto
  by_cases hi : 0 < i
  · have hcast : (i : Int) - 1 = ((i - 1 : Nat) : Int) := by omega
    rw [if_pos (Int.natCast_pos.mpr hi), if_pos hi, hcast,
      readWord_ofNat bitmap (show i - 1 < words by omega)]
    exact if_pos hcount
  · rw [if_neg (fun hint => hi (Int.natCast_pos.mp hint)), if_neg hi]

theorem bitTurn_eq {bitShift : Nat} (hpos : 0 < bitShift) (hlt : bitShift < wordSize)
    {i : Nat} (h : i < words) (bitmap : Fin words → BitVec 64) :
    bitTurn bitShift i bitmap =
      some (Function.update bitmap ⟨i, h⟩
        ((bitmap ⟨i, h⟩ <<< bitShift) |||
          (if 0 < i then bitmap ⟨i - 1, by omega⟩ >>> (wordSize - bitShift) else 0))) := by
  have hup : shiftUp (bitmap ⟨i, h⟩) bitShift = some (bitmap ⟨i, h⟩ <<< bitShift) :=
    if_pos hlt
  simp only [bitTurn, readWord_ofNat bitmap h, Option.bind_eq_bind, Option.bind_some, hup,
    carryInto_eq hpos h]
  exact writeWord_ofNat bitmap h _

/-- No turn of the loop over whole words leaves the array. -/
theorem downLoop_wordTurn (wordShift i : Nat) (h : i ≤ words)
    (bitmap : Fin words → BitVec 64) :
    downLoop (wordTurn wordShift) i bitmap = some (shiftWords wordShift i h bitmap) := by
  induction i generalizing bitmap with
  | zero => rfl
  | succ i ih =>
      have hturn := wordTurn_eq wordShift h bitmap
      simp only [downLoop, shiftWords]
      rw [hturn]
      exact ih _ _

/-- No turn of the bit loop leaves the array or shifts by the word size. -/
theorem downLoop_bitTurn {bitShift : Nat} (hpos : 0 < bitShift) (hlt : bitShift < wordSize)
    (i : Nat) (h : i ≤ words) (bitmap : Fin words → BitVec 64) :
    downLoop (bitTurn bitShift) i bitmap = some (shiftBits bitShift i h bitmap) := by
  induction i generalizing bitmap with
  | zero => rfl
  | succ i ih =>
      have hturn := bitTurn_eq hpos hlt h bitmap
      simp only [downLoop, shiftBits]
      rw [hturn]
      exact ih _ _

theorem shiftLoops_eq {diff : Nat} (bitmap : Fin words → BitVec 64) (hpos : 0 < diff) :
    shiftLoops diff bitmap =
      some (if wordSize ≤ diff then
        if diff % wordSize ≠ 0 then
          shiftBits (diff % wordSize) words le_rfl
            (shiftWords (diff / wordSize) words le_rfl bitmap)
        else shiftWords (diff / wordSize) words le_rfl bitmap
      else shiftBits diff words le_rfl bitmap) := by
  unfold shiftLoops
  by_cases hbig : wordSize ≤ diff
  · rw [if_pos hbig, if_pos hbig, downLoop_wordTurn _ _ le_rfl, Option.bind_eq_bind,
      Option.bind_some]
    by_cases hmod : diff % wordSize ≠ 0
    · have hbits : diff % wordSize < wordSize := Nat.mod_lt _ (by decide)
      rw [if_pos hmod, if_pos hmod]
      exact downLoop_bitTurn (Nat.pos_of_ne_zero hmod) hbits _ le_rfl _
    · rw [if_neg hmod, if_neg hmod]
  · rw [if_neg hbig, if_neg hbig]
    exact downLoop_bitTurn hpos (Nat.not_le.mp hbig) _ le_rfl _

theorem slidMask_eq (diff : Nat) :
    slidMask diff = some (if 64 ≤ diff then 0 else (1#64 <<< diff) - 1) := by
  unfold slidMask
  by_cases h : 64 ≤ diff
  · rw [if_pos h, if_pos h]
  · rw [if_neg h, if_neg h, shiftUp, if_pos (Nat.not_le.mp h)]
    rfl

/-- The loops of the code are the ones of `advance`, with every access in range. -/
theorem shiftWindow_eq_advance {diff : Nat} (bitmap : Fin words → BitVec 64)
    (hpos : 0 < diff) (hlt : diff < wordSize * words) :
    shiftWindow diff bitmap = some (advance diff bitmap) := by
  have hwords : 0 < words := Nat.pos_of_ne_zero fun h => by simp [h] at hlt
  have hread (shifted : Fin words → BitVec 64) :
      readWord shifted 0 = some (shifted ⟨0, hwords⟩) :=
    readWord_ofNat shifted hwords
  have hwrite (shifted : Fin words → BitVec 64) (val : BitVec 64) :
      writeWord shifted 0 val = some (Function.update shifted ⟨0, hwords⟩ val) :=
    writeWord_ofNat shifted hwords val
  simp only [shiftWindow, shiftLoops_eq bitmap hpos, slidMask_eq, Option.bind_eq_bind,
    Option.bind_some, hread, hwrite]
  refine congrArg some (funext fun i => ?_)
  by_cases hi : i = ⟨0, hwords⟩
  · subst hi
    rw [Function.update_self]
    rfl
  · have hval : i.val ≠ 0 := fun h => hi (Fin.ext h)
    simp only [Function.update_of_ne hi, advance, if_neg hval]

theorem bit_eq_limbs (bitmap : Fin words → BitVec 64) {k : Nat} (hk : k < wordSize * words) :
    Limbs.bit bitmap k = bit bitmap k := by
  have hword : k / 64 < words := Nat.div_lt_of_lt_mul hk
  rw [bit_of_lt bitmap k hword, Limbs.bit, dif_pos hword]

/-- For every number of words, every bitmap and every advance below the window size, the
loops and the mask multiply the bitmap by `2 ^ diff` modulo the window's `2 ^ (64 * n)`.
The result of `shiftWindow` says that all indices and shift counts were in range, and it
is the one that `update_window` stores. -/
theorem shiftWindow_multiplies (bitmap : Fin words → BitVec 64) {diff : Nat}
    (hpos : 0 < diff) (hlt : diff < wordSize * words) :
    ∃ next, shiftWindow diff bitmap = some next ∧ next = advance diff bitmap ∧
      Limbs.value next = Limbs.value bitmap * 2 ^ diff % 2 ^ (wordSize * words) := by
  refine ⟨advance diff bitmap, shiftWindow_eq_advance bitmap hpos hlt, rfl, ?_⟩
  apply Limbs.value_of_shifted (by decide)
  intro k hk
  rw [bit_eq_limbs _ hk, bit_advance diff k bitmap hpos hk]
  by_cases hle : diff ≤ k
  · rw [bit_eq_limbs bitmap ((Nat.sub_le k diff).trans_lt hk)]
  · rw [decide_eq_false hle, Bool.false_and, Bool.false_and]

/-- An advance over a word border in a window of three words. -/
theorem shiftWindow_multiplies_over_words :
    ∃ next, shiftWindow 70 (fun _ : Fin 3 => 0xF0F0F0F0F0F0F0F1#64) = some next ∧
      next = advance 70 (fun _ : Fin 3 => 0xF0F0F0F0F0F0F0F1#64) ∧
      Limbs.value next =
        Limbs.value (fun _ : Fin 3 => 0xF0F0F0F0F0F0F0F1#64) * 2 ^ 70 %
          2 ^ (wordSize * 3) :=
  shiftWindow_multiplies (fun _ : Fin 3 => 0xF0F0F0F0F0F0F0F1#64) (by decide) (by decide)

end Chamlon.ReplayWindow
