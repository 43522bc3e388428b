import Mathlib.Tactic
import Chamlon.Client.Options

/-!
`hex2bin`, which reads the server's public key from the command line. The length of the
text is checked, and each pair of characters is left to `sscanf` with `%2x`. That
conversion skips white space, takes a sign, and is content with one digit where the second
character is none, so texts that are not hexadecimal pass as well.

What `sscanf` makes of the two characters `0x` depends on the reading: the standard has the
conversion fail, while `strtoul` would return the zero. `lenient` is the latter.
-/

namespace Chamlon.Client.Hex

open Memory

/-- A string of C, without its terminating zero. -/
structure CString where
  chars : Bytes
  noNul : 0 ∉ chars
  fits : chars.length < 2 ^ 64

/-- The value of a hexadecimal digit. -/
def hexVal (c : UInt8) : Option Nat :=
  if isDigit c then some (c.toNat - 48)
  else if 97 ≤ c && c ≤ 102 then some (c.toNat - 87)
  else if 65 ≤ c && c ≤ 70 then some (c.toNat - 55)
  else none

/-- The characters `0x`, which begin a number without being one. -/
def isHexMarker (c d : UInt8) : Bool :=
  c == '0'.toUInt8 && (d == 'x'.toUInt8 || d == 'X'.toUInt8)

/-- `sscanf(input, "%2x", &v)`: the value of `v` if it returned 1. A negative number wraps
around. -/
def scanHex (lenient : Bool) (input : Bytes) : Option (BitVec 32) :=
  match input.dropWhile isSpace with
  | [] => none
  | [c] => (hexVal c).map (BitVec.ofNat 32)
  | c :: d :: _ =>
      match hexVal c, hexVal d with
      | some x, some y => some (BitVec.ofNat 32 (16 * x + y))
      | some x, none =>
          if isHexMarker c d && !lenient then none else some (BitVec.ofNat 32 x)
      | none, some y =>
          if c = '+'.toUInt8 then some (BitVec.ofNat 32 y)
          else if c = '-'.toUInt8 then some (-BitVec.ofNat 32 y)
          else none
      | none, none => none

/-- The loop of `hex2bin` from the pair `i` on, with `n` pairs to go. -/
def hexLoop (lenient : Bool) (hex : Bytes) : Nat → Nat → Option Bytes
  | _, 0 => some []
  | i, n + 1 =>
      match scanHex lenient (hex.drop (2 * i)) with
      | none => none
      | some v => (hexLoop lenient hex (i + 1) n).map (UInt8.ofNat v.toNat :: ·)

/-- `hex2bin`: the bytes of `out` if it returned 0. The product is one of `size_t`. -/
def hex2bin (lenient : Bool) (hex : CString) (outlen : BitVec 64) : Option Bytes :=
  if hex.chars.length ≠ (outlen * 2).toNat then none
  else hexLoop lenient hex.chars 0 outlen.toNat

/-- The text consists of exactly `2 * outlen` hexadecimal digits. -/
def IsHex (hex : CString) (outlen : BitVec 64) : Prop :=
  hex.chars.length = 2 * outlen.toNat ∧ ∀ c ∈ hex.chars, (hexVal c).isSome = true

/-- A text that begins with a number: a digit, or a sign and a digit. -/
def BeginsNumber (lenient : Bool) : Bytes → Prop
  | [] => False
  | [c] => (hexVal c).isSome = true
  | c :: d :: _ =>
      (hexVal c).isSome = true ∧ (isHexMarker c d = true → lenient = true) ∨
      (c = '+'.toUInt8 ∨ c = '-'.toUInt8) ∧ (hexVal d).isSome = true

/-- The digit that `%x` prints. -/
def digitChar (x : Nat) : UInt8 := UInt8.ofNat (if x < 10 then 48 + x else 87 + x)

/-- `%02x` for each byte. -/
def render (bytes : Bytes) : Bytes :=
  bytes.flatMap fun b => [digitChar (b.toNat / 16), digitChar (b.toNat % 16)]

def toLower (c : UInt8) : UInt8 := if 65 ≤ c && c ≤ 90 then c + 32 else c

/-- A digit is printed as it was read, in lower case. -/
theorem hexVal_digit {c : UInt8} {x : Nat} (h : hexVal c = some x) :
    x < 16 ∧ digitChar x = toLower c := by
  have hall : ∀ c : UInt8,
      (hexVal c).all (fun x => decide (x < 16 ∧ digitChar x = toLower c)) = true := by
    decide +kernel
  have hc := hall c
  rw [h] at hc
  exact of_decide_eq_true hc

theorem isSpace_of_hexVal {c : UInt8} (h : (hexVal c).isSome = true) : isSpace c = false := by
  have hall : ∀ c : UInt8, (hexVal c).isSome = true → isSpace c = false := by decide +kernel
  exact hall c h

theorem isHexMarker_of_hexVal (c : UInt8) {d : UInt8} (h : (hexVal d).isSome = true) :
    isHexMarker c d = false := by
  have hall : ∀ d : UInt8, (hexVal d).isSome = true →
      (d == 'x'.toUInt8 || d == 'X'.toUInt8) = false := by decide +kernel
  rw [isHexMarker, hall d h, Bool.and_false]

theorem scanHex_isSome_iff (lenient : Bool) (input : Bytes) :
    (scanHex lenient input).isSome = true ↔
      BeginsNumber lenient (input.dropWhile isSpace) := by
  unfold scanHex
  match input.dropWhile isSpace with
  | [] => simp [BeginsNumber]
  | [c] => simp [BeginsNumber]
  | c :: d :: rest =>
      dsimp only [BeginsNumber]
      cases hc : hexVal c with
      | some x =>
          cases hd : hexVal d with
          | some y =>
              have hmarker : isHexMarker c d = false := isHexMarker_of_hexVal c (by rw [hd]; rfl)
              simp [hmarker]
          | none => cases lenient <;> cases isHexMarker c d <;> simp
      | none =>
          cases hd : hexVal d with
          | some y =>
              by_cases hplus : c = '+'.toUInt8
              · simp [hplus]
              · dsimp only
                by_cases hminus : c = '-'.toUInt8
                · rw [if_neg hplus, if_pos hminus]
                  simp [hminus]
                · rw [if_neg hplus, if_neg hminus]
                  simp [hplus, hminus]
          | none => simp

/-- Two digits are read as the number they stand for. -/
theorem scanHex_pair (lenient : Bool) {c d : UInt8} {x y : Nat} (rest : Bytes)
    (hc : hexVal c = some x) (hd : hexVal d = some y) :
    scanHex lenient (c :: d :: rest) = some (BitVec.ofNat 32 (16 * x + y)) := by
  have hspace : isSpace c = false := isSpace_of_hexVal (by rw [hc]; rfl)
  have hskip : (c :: d :: rest).dropWhile isSpace = c :: d :: rest :=
    List.dropWhile_cons_of_neg (by rw [hspace]; exact Bool.false_ne_true)
  rw [scanHex, hskip]
  dsimp only
  rw [hc, hd]

theorem render_pair {c d : UInt8} {x y : Nat} (hc : hexVal c = some x)
    (hd : hexVal d = some y) :
    render [UInt8.ofNat (BitVec.ofNat 32 (16 * x + y)).toNat] = [toLower c, toLower d] := by
  obtain ⟨hx, hxc⟩ := hexVal_digit hc
  obtain ⟨hy, hyd⟩ := hexVal_digit hd
  have hbyte : (UInt8.ofNat (BitVec.ofNat 32 (16 * x + y)).toNat).toNat = 16 * x + y := by
    rw [BitVec.toNat_ofNat, UInt8.toNat_ofNat']
    omega
  have hhigh : (16 * x + y) / 16 = x := by omega
  have hlow : (16 * x + y) % 16 = y := by omega
  rw [render, List.flatMap_singleton, hbyte, hhigh, hlow, hxc, hyd]

theorem hexLoop_isSome_iff (lenient : Bool) (hex : Bytes) (i n : Nat) :
    (hexLoop lenient hex i n).isSome = true ↔
      ∀ k, i ≤ k → k < i + n → (scanHex lenient (hex.drop (2 * k))).isSome = true := by
  induction n generalizing i with
  | zero =>
      simp only [hexLoop, Option.isSome_some, true_iff]
      intro k hi hk
      omega
  | succ n ih =>
      rw [hexLoop]
      cases hscan : scanHex lenient (hex.drop (2 * i)) with
      | none =>
          refine ⟨nofun, fun h => ?_⟩
          have hi := h i le_rfl (by omega)
          rw [hscan] at hi
          exact hi
      | some v =>
          rw [Option.isSome_map, ih]
          constructor
          · intro h k hi hk
            rcases Nat.eq_or_lt_of_le hi with rfl | hlt
            · rw [hscan]
              rfl
            · exact h k hlt (by omega)
          · intro h k hi hk
            exact h k (by omega) (by omega)

/-- The loop over a text of digits. -/
theorem hexLoop_digits (lenient : Bool) {hex : Bytes}
    (hdigits : ∀ c ∈ hex, (hexVal c).isSome = true) (i n : Nat)
    (hlength : hex.length = 2 * (i + n)) :
    ∃ out, hexLoop lenient hex i n = some out ∧ out.length = n ∧
      render out = (hex.drop (2 * i)).map toLower := by
  induction n generalizing i with
  | zero =>
      refine ⟨[], rfl, rfl, ?_⟩
      rw [List.drop_of_length_le (by omega)]
      rfl
  | succ n ih =>
      obtain ⟨out, hout, hcount, hrender⟩ := ih (i + 1) (by omega)
      have hfirst : 2 * i < hex.length := by omega
      have hsecond : 2 * i + 1 < hex.length := by omega
      obtain ⟨x, hx⟩ := Option.isSome_iff_exists.mp (hdigits _ (List.getElem_mem hfirst))
      obtain ⟨y, hy⟩ := Option.isSome_iff_exists.mp (hdigits _ (List.getElem_mem hsecond))
      have hdrop : hex.drop (2 * i) = hex[2 * i] :: hex[2 * i + 1] :: hex.drop (2 * (i + 1)) := by
        rw [List.drop_eq_getElem_cons hfirst, List.drop_eq_getElem_cons hsecond]
        rfl
      refine ⟨UInt8.ofNat (BitVec.ofNat 32 (16 * x + y)).toNat :: out, ?_, ?_, ?_⟩
      · rw [hexLoop, hdrop, scanHex_pair lenient _ hx hy]
        dsimp only
        rw [hout]
        rfl
      · rw [List.length_cons, hcount]
      · have hpair := render_pair hx hy
        rw [hdrop, List.map_cons, List.map_cons, ← hrender]
        exact congrArg (· ++ render out) hpair

/-- A text of the wrong length is refused, also where `outlen * 2` wraps around: the scan
then meets the end of the text. -/
theorem hex2bin_isSome_iff (lenient : Bool) (hex : CString) (outlen : BitVec 64) :
    (hex2bin lenient hex outlen).isSome = true ↔
      hex.chars.length = 2 * outlen.toNat ∧ ∀ i < outlen.toNat,
        BeginsNumber lenient ((hex.chars.drop (2 * i)).dropWhile isSpace) := by
  have hfits := hex.fits
  have hproduct : (outlen * 2).toNat = outlen.toNat * 2 % 2 ^ 64 := BitVec.toNat_mul _ _
  have hloop := hexLoop_isSome_iff lenient hex.chars 0 outlen.toNat
  unfold hex2bin
  by_cases hlength : hex.chars.length = (outlen * 2).toNat
  · rw [if_neg (not_not.mpr hlength), hloop]
    constructor
    · intro hscans
      refine ⟨?_, fun i hi => ?_⟩
      · by_contra hshort
        -- the pair behind the last character
        have hend := hscans (hex.chars.length / 2) (Nat.zero_le _) (by omega)
        rw [List.drop_of_length_le (by omega)] at hend
        cases hend
      · exact (scanHex_isSome_iff lenient _).mp (hscans i (Nat.zero_le _) (by omega))
    · rintro ⟨-, hnumbers⟩ k - hk
      exact (scanHex_isSome_iff lenient _).mpr (hnumbers k (by omega))
  · rw [if_pos hlength]
    refine ⟨nofun, fun h => absurd ?_ hlength⟩
    rw [hproduct, ← h.1.trans (Nat.mul_comm _ _), Nat.mod_eq_of_lt hfits]

/-- On hexadecimal digits `hex2bin` returns the bytes they stand for. -/
theorem hex2bin_digits (lenient : Bool) {hex : CString} {outlen : BitVec 64}
    (h : IsHex hex outlen) :
    ∃ out, hex2bin lenient hex outlen = some out ∧ out.length = outlen.toNat ∧
      render out = hex.chars.map toLower := by
  obtain ⟨out, hout, hcount, hrender⟩ :=
    hexLoop_digits lenient h.2 0 outlen.toNat (by rw [Nat.zero_add]; exact h.1)
  refine ⟨out, ?_, hcount, hrender⟩
  have hproduct : (outlen * 2).toNat = outlen.toNat * 2 % 2 ^ 64 := BitVec.toNat_mul _ _
  have hlength : hex.chars.length = (outlen * 2).toNat := by
    rw [hproduct, ← h.1.trans (Nat.mul_comm _ _), Nat.mod_eq_of_lt hex.fits]
  rw [hex2bin, if_neg (not_not.mpr hlength)]
  exact hout

/-- `hex2bin` returns 0 exactly on `2 * outlen` hexadecimal digits, and then the bytes that
print as them, for those texts that are hexadecimal, have another length, or have a pair
behind which no number begins. -/
theorem hex2bin_exact_iff (lenient : Bool) (hex : CString) (outlen : BitVec 64) :
    (((hex2bin lenient hex outlen).isSome = true ↔ IsHex hex outlen) ∧
      ∀ out, hex2bin lenient hex outlen = some out →
        out.length = outlen.toNat ∧ render out = hex.chars.map toLower) ↔
    IsHex hex outlen ∨ hex.chars.length ≠ 2 * outlen.toNat ∨
      ∃ i < outlen.toNat,
        ¬BeginsNumber lenient ((hex.chars.drop (2 * i)).dropWhile isSpace) := by
  constructor
  · rintro ⟨hexact, -⟩
    by_cases hhex : IsHex hex outlen
    · exact Or.inl hhex
    · right
      have hrefused := mt hexact.mp hhex
      rw [hex2bin_isSome_iff, not_and] at hrefused
      by_cases hlength : hex.chars.length = 2 * outlen.toNat
      · right
        simpa using hrefused hlength
      · exact Or.inl hlength
  · intro hcond
    by_cases hhex : IsHex hex outlen
    · obtain ⟨out, hout, hcount, hrender⟩ := hex2bin_digits lenient hhex
      rw [hout]
      refine ⟨⟨fun _ => hhex, fun _ => rfl⟩, ?_⟩
      rintro _ ⟨⟩
      exact ⟨hcount, hrender⟩
    · have hrefused : hex2bin lenient hex outlen = none := by
        rw [← Option.not_isSome_iff_eq_none, hex2bin_isSome_iff]
        rintro ⟨hlength, hnumbers⟩
        rcases hcond.resolve_left hhex with hother | ⟨i, hi, hnone⟩
        · exact hother hlength
        · exact hnone (hnumbers i hi)
      rw [hrefused]
      exact ⟨⟨nofun, fun h => absurd h hhex⟩, nofun⟩

/-- The text `-1` is taken for the byte 255. -/
theorem hex2bin_accepts_minus_one :
    let hex : CString := ⟨chars ['-', '1'], by decide, by decide⟩
    (∀ lenient, hex2bin lenient hex 1 = some [255]) ∧ ¬IsHex hex 1 := by
  intro hex
  refine ⟨fun lenient => ?_, fun h => ?_⟩
  · cases lenient <;> decide
  · have hminus := h.2 '-'.toUInt8 List.mem_cons_self
    exact absurd hminus (by decide)

end Chamlon.Client.Hex
