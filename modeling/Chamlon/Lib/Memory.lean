import Mathlib.Tactic

/-!
Byte strings as the memory of a C program: slices, `memcpy` into a buffer,
fixed-length octet arrays and the two byte orders of an integer in memory.
Nothing here knows about a particular program.

A `memcpy` is only meaningful when its destination range lies inside the
buffer. The lemmas carry that bound as a hypothesis; a model of code that may
violate it has to treat the violation as a case of its own.
-/

namespace Chamlon.Memory

abbrev Bytes := List UInt8

/-- The `len` bytes of `buf` from `off` on, fewer when the buffer is shorter. -/
def slice (buf : Bytes) (off len : Nat) : Bytes :=
  (buf.drop off).take len

/-- The buffer after `memcpy(dst + off, src, |src|)`. -/
def memcpy (dst : Bytes) (off : Nat) (src : Bytes) : Bytes :=
  dst.take off ++ src ++ dst.drop (off + src.length)

@[simp] theorem length_memcpy (dst : Bytes) (off : Nat) (src : Bytes)
    (h : off + src.length ≤ dst.length) :
    (memcpy dst off src).length = dst.length := by
  simp only [memcpy, List.length_append, List.length_take, List.length_drop]
  omega

theorem getElem?_slice (buf : Bytes) (off len i : Nat) :
    (slice buf off len)[i]? = if i < len then buf[off + i]? else none := by
  simp only [slice, List.getElem?_take, List.getElem?_drop]

/-- A copied byte is read back from the source, any other byte is the old one. -/
theorem getElem?_memcpy (dst : Bytes) (off : Nat) (src : Bytes) (i : Nat)
    (h : off ≤ dst.length) :
    (memcpy dst off src)[i]? =
      if off ≤ i ∧ i < off + src.length then src[i - off]? else dst[i]? := by
  unfold memcpy
  grind

/-- Overwriting a buffer from its start with as many bytes as it has leaves
only the new bytes. -/
theorem memcpy_zero_of_length (dst src : Bytes)
    (h : dst.length = src.length) : memcpy dst 0 src = src := by
  simp [memcpy, h]

/-- A message built by a series of copies to fixed offsets of a buffer. -/
def layout (buf : Bytes) : List (Nat × Bytes) → Bytes
  | [] => buf
  | part :: rest => layout (memcpy buf part.1 part.2) rest

/-- The parts follow each other without gap from the given offset on. -/
def Contiguous : Nat → List (Nat × Bytes) → Prop
  | _, [] => True
  | off, part :: rest => part.1 = off ∧ Contiguous (off + part.2.length) rest

/-- Copies that follow each other leave exactly their parts, whatever was in
the buffer before. -/
theorem layout_of_contiguous (buf : Bytes) (parts : List (Nat × Bytes)) (off : Nat)
    (h : Contiguous off parts)
    (hlen : off + (parts.flatMap Prod.snd).length = buf.length) :
    layout buf parts = buf.take off ++ parts.flatMap Prod.snd := by
  induction parts generalizing buf off with
  | nil =>
      simp only [List.flatMap_nil, List.length_nil, Nat.add_zero] at hlen
      simp [layout, hlen]
  | cons part rest ih =>
      obtain ⟨hoff, hrest⟩ := h
      simp only [List.flatMap_cons, List.length_append] at hlen
      have hcopy : off + part.2.length ≤ buf.length := by omega
      have hsize : (memcpy buf off part.2).length = buf.length :=
        length_memcpy buf off part.2 hcopy
      rw [layout, hoff, ih _ _ hrest (by rw [hsize]; omega), List.flatMap_cons,
        ← List.append_assoc]
      congr 1
      have hhead : (buf.take off ++ part.2).length = off + part.2.length := by
        simp only [List.length_append, List.length_take]
        omega
      rw [memcpy, ← hhead, List.take_left]

/-- An array of exactly `n` octets. The length travels with the value, so no
key, nonce or identifier of a wrong size can be formed. -/
def Octets (n : Nat) := { bytes : Bytes // bytes.length = n }

instance (n : Nat) : DecidableEq (Octets n) :=
  inferInstanceAs (DecidableEq { bytes : Bytes // bytes.length = n })

namespace Octets

variable {n : Nat}

@[ext] theorem ext {a b : Octets n} (h : a.val = b.val) : a = b :=
  Subtype.ext h

@[simp] theorem length_val (a : Octets n) : a.val.length = n := a.property

/-- `memset(p, byte, n)`. -/
def fill (n : Nat) (byte : UInt8) : Octets n :=
  ⟨List.replicate n byte, List.length_replicate⟩

abbrev zero (n : Nat) : Octets n := fill n 0

instance : Inhabited (Octets n) := ⟨zero n⟩

/-- `n` bytes read through an accessor, starting at `off`. -/
def read (n : Nat) (peek : Nat → UInt8) (off : Nat) : Octets n :=
  ⟨List.ofFn (fun i : Fin n => peek (off + i.val)), List.length_ofFn⟩

/-- A `memcpy` into the array whose range has been checked. -/
def copy (dst : Octets n) (off : Nat) (src : Bytes)
    (h : off + src.length ≤ n) : Octets n :=
  ⟨memcpy dst.val off src, by
    rw [length_memcpy dst.val off src (by simpa using h), dst.length_val]⟩

end Octets

/-- Reading past the end of a buffer yields whatever bytes lie there. -/
def peek (buf : Bytes) (past : Nat → UInt8) (i : Nat) : UInt8 :=
  buf.getD i (past i)

/-- Inside the buffer an array read is the slice of the buffer. -/
theorem Octets.read_peek_val (n : Nat) (buf : Bytes) (past : Nat → UInt8)
    (off : Nat) (h : off + n ≤ buf.length) :
    (Octets.read n (peek buf past) off).val = slice buf off n := by
  apply List.ext_getElem?
  intro i
  rw [getElem?_slice]
  by_cases hi : i < n
  · have hoff : off + i < buf.length := by omega
    simp [Octets.read, hi, peek, List.getElem?_eq_getElem hoff]
  · rw [if_neg hi, List.getElem?_eq_none (by simp [Octets.read]; omega)]

/-- `n` bytes of a buffer that is long enough. -/
def field (n : Nat) (buf : Bytes) (off : Nat) : Octets n :=
  Octets.read n (peek buf fun _ => 0) off

theorem val_field (n : Nat) (buf : Bytes) (off : Nat) (h : off + n ≤ buf.length) :
    (field n buf off).val = slice buf off n :=
  Octets.read_peek_val n buf _ off h

/-- A part of a message is read back at the offset where the parts before it
end. -/
theorem field_append (n : Nat) (before : Bytes) (part : Octets n) (behind : Bytes)
    (off : Nat) (hoff : before.length = off) :
    field n (before ++ (part.val ++ behind)) off = part := by
  apply Octets.ext
  rw [val_field n _ off (by simp only [List.length_append, part.length_val]; omega),
    slice, ← hoff, List.drop_left, List.take_append_of_le_length (by simp)]
  rw [List.take_of_length_le (by simp)]

inductive Endian where
  | little
  | big
deriving DecidableEq, Repr

/-- The `n` low bytes of a value, least significant first. -/
def leBytes : Nat → Nat → Bytes
  | 0, _ => []
  | n + 1, v => UInt8.ofNat v :: leBytes n (v / 256)

def leNat : Bytes → Nat
  | [] => 0
  | b :: rest => b.toNat + 256 * leNat rest

@[simp] theorem length_leBytes (n v : Nat) : (leBytes n v).length = n := by
  induction n generalizing v with
  | zero => rfl
  | succ n ih => simp [leBytes, ih]

theorem leNat_leBytes (n v : Nat) (h : v < 256 ^ n) :
    leNat (leBytes n v) = v := by
  induction n generalizing v with
  | zero =>
      simp only [Nat.pow_zero] at h
      simp only [leBytes, leNat]
      omega
  | succ n ih =>
      have hdiv : v / 256 < 256 ^ n := by
        rw [Nat.pow_succ] at h
        exact Nat.div_lt_of_lt_mul (by omega)
      simp only [leBytes, leNat, ih (v / 256) hdiv, UInt8.toNat_ofNat']
      omega

/-- The `n` bytes an unsigned integer occupies in memory. -/
def Endian.encode (order : Endian) (n v : Nat) : Octets n :=
  match order with
  | .little => ⟨leBytes n v, length_leBytes n v⟩
  | .big => ⟨(leBytes n v).reverse, by simp⟩

def Endian.decode (order : Endian) (bytes : Bytes) : Nat :=
  match order with
  | .little => leNat bytes
  | .big => leNat bytes.reverse

/-- What one byte order writes, the same byte order reads back. -/
theorem Endian.decode_encode (order : Endian) (n v : Nat) (h : v < 256 ^ n) :
    order.decode (order.encode n v).val = v := by
  cases order with
  | little => exact leNat_leBytes n v h
  | big =>
      simp only [Endian.decode, Endian.encode, List.reverse_reverse]
      exact leNat_leBytes n v h

/-- A signed 32-bit integer in memory. -/
def Endian.encodeInt (order : Endian) (v : Int) : Octets 4 :=
  order.encode 4 (BitVec.ofInt 32 v).toNat

def Endian.decodeInt (order : Endian) (bytes : Bytes) : Int :=
  (BitVec.ofNat 32 (order.decode bytes)).toInt

theorem Endian.decodeInt_encodeInt (order : Endian) (v : Int)
    (hlow : -2 ^ 31 ≤ v) (hhigh : v < 2 ^ 31) :
    order.decodeInt (order.encodeInt v).val = v := by
  have hlt : (BitVec.ofInt 32 v).toNat < 256 ^ 4 := (BitVec.ofInt 32 v).isLt
  rw [Endian.decodeInt, Endian.encodeInt, order.decode_encode 4 _ hlt,
    BitVec.ofNat_toNat, BitVec.setWidth_eq, BitVec.toInt_ofInt]
  exact Int.bmod_eq_of_le (by omega) (by omega)

end Chamlon.Memory
