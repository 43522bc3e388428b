import Mathlib.Tactic
import Chamlon.Reassembly.Basic

/-!
Memory accesses of the server's plaintext handling. The server never compares
the plaintext length with the size of the tunnel header. Below that size the
payload length wraps around, and the one size check, a sum modulo `2 ^ 64`,
can wrap back under the limit and let the copy through. This module says for
exactly which plaintexts every access stays inside its object.
-/

namespace Chamlon.Reassembly

open Config Memory

/-- What the code does with the plaintext array: it acts on a header field, or
it copies into the entry buffer with `memcpy(buffer + dst, plain + src, len)`. -/
inductive Access where
  | field (off len : Nat)
  | memcpy (src dst len : Nat)
deriving DecidableEq, Repr

/-- The accesses of `handle_inbound_udp` after `update_window`, in order. -/
def inboundAccesses (order : Endian) (stack : Nat → UInt8) (now : Int)
    (plain : Bytes) (table : ReassemblyTable) : List Access :=
  let header := readHeader order (peek plain stack)
  .field 6 2 ::
    if header.isControl then []
    else
      .field 0 2 ::
        match findOrCreateEntry now header.packetId table with
        | none => []
        | some (i, table) =>
            let offset := header.fragmentOffset.toNat
            let payloadLen := fragmentPayloadLen plain
            .field 2 2 ::
              if exceedsBuffer offset payloadLen then []
              else
                (if (table i).expectedLength = 0 then [.field 4 2] else []) ++
                  [.memcpy tunnelHeaderLen offset payloadLen]

/-- A field acted on is made of plaintext bytes; a copy reads plaintext bytes
and writes inside the entry buffer. -/
def Access.InBounds (plain : Bytes) : Access → Prop
  | .field off len => off + len ≤ plain.length
  | .memcpy src dst len => src + len ≤ plain.length ∧ dst + len ≤ maxPacketSize

instance (plain : Bytes) : DecidablePred (Access.InBounds plain)
  | .field off len => inferInstanceAs (Decidable (off + len ≤ plain.length))
  | .memcpy src dst len =>
      inferInstanceAs (Decidable (src + len ≤ plain.length ∧ dst + len ≤ maxPacketSize))

theorem Access.inBounds_memcpy (plain : Bytes) (src dst len : Nat) :
    (Access.memcpy src dst len).InBounds plain ↔
      src + len ≤ plain.length ∧ dst + len ≤ maxPacketSize :=
  Iff.rfl

/-- The copy is executed for a fragment that has an entry and passes the size
check, and it always starts behind the header. -/
theorem memcpy_mem_inboundAccesses_iff (order : Endian) (stack : Nat → UInt8)
    (now : Int) (plain : Bytes) (table : ReassemblyTable) (src dst len : Nat) :
    .memcpy src dst len ∈ inboundAccesses order stack now plain table ↔
      (readHeader order (peek plain stack)).isControl = false ∧
      (findOrCreateEntry now
        (readHeader order (peek plain stack)).packetId table).isSome = true ∧
      exceedsBuffer (readHeader order (peek plain stack)).fragmentOffset.toNat
        (fragmentPayloadLen plain) = false ∧
      src = tunnelHeaderLen ∧
      dst = (readHeader order (peek plain stack)).fragmentOffset.toNat ∧
      len = fragmentPayloadLen plain := by
  unfold inboundAccesses
  generalize readHeader order (peek plain stack) = header
  cases hctrl : header.isControl with
  | true => simp [hctrl]
  | false =>
      cases hfind : findOrCreateEntry now header.packetId table with
      | none => simp [hctrl, hfind]
      | some found =>
          cases hcheck : exceedsBuffer header.fragmentOffset.toNat
              (fragmentPayloadLen plain) with
          | true => simp [hctrl, hfind, hcheck]
          | false =>
              by_cases hlen : (found.2 found.1).expectedLength = 0
              · simp [hctrl, hfind, hcheck, hlen]
              · simp [hctrl, hfind, hcheck, hlen]

theorem storeFragment_badCopy_iff (now : Int) (header : TunnelHeader)
    (payload : Bytes) (payloadLen : Nat) (table : ReassemblyTable) :
    (∃ i, storeFragment now header payload payloadLen table = .badCopy i) ↔
      (findOrCreateEntry now header.packetId table).isSome = true ∧
      exceedsBuffer header.fragmentOffset.toNat payloadLen = false ∧
      ¬(payload.length = payloadLen ∧
        header.fragmentOffset.toNat + payload.length ≤ maxPacketSize) := by
  rcases storeFragment_cases now header payload payloadLen table with
    ⟨hfind, hout⟩ | ⟨i, next, hfind, hfiled⟩
  · simp [hfind, hout]
  · generalize storeFragment now header payload payloadLen table = outcome at hfiled
    cases hfiled with
    | oversize hlarge => simp [hlarge]
    | written hlen hfits hlast hfull => simp [hlen, hlen ▸ hfits]
    | stored hlen hfits hpart => simp [hlen, hlen ▸ hfits]
    | badCopy hsmall hbad => exact ⟨fun _ => ⟨by rw [hfind]; rfl, hsmall, hbad⟩,
        fun _ => ⟨i, rfl⟩⟩

/-- The payload behind the header is all there exactly when the computed length
did not wrap. -/
theorem fragmentPayloadLen_eq_iff (plain : Bytes) (h : plain.length ≤ bufferSize) :
    (plain.drop tunnelHeaderLen).length = fragmentPayloadLen plain ↔
      tunnelHeaderLen + fragmentPayloadLen plain ≤ plain.length := by
  simp only [fragmentPayloadLen, List.length_drop, tunnelHeaderLen, bufferSize] at *
  omega

/-- The trace belongs to the modelled code: the copy that the model reports as
bad is the one access of the trace that leaves its objects. -/
theorem inboundPlain_badCopy_iff (order : Endian) (stack : Nat → UInt8)
    (now : Int) (plain : Bytes) (table : ReassemblyTable)
    (hbound : plain.length ≤ bufferSize) :
    (∃ i, inboundPlain order stack now plain table = .fragment (.badCopy i)) ↔
      ∃ src dst len,
        .memcpy src dst len ∈ inboundAccesses order stack now plain table ∧
          ¬(Access.memcpy src dst len).InBounds plain := by
  have hranges : (Access.memcpy tunnelHeaderLen
      (readHeader order (peek plain stack)).fragmentOffset.toNat
      (fragmentPayloadLen plain)).InBounds plain ↔
      (plain.drop tunnelHeaderLen).length = fragmentPayloadLen plain ∧
      (readHeader order (peek plain stack)).fragmentOffset.toNat +
        (plain.drop tunnelHeaderLen).length ≤ maxPacketSize := by
    rw [Access.inBounds_memcpy, ← fragmentPayloadLen_eq_iff plain hbound]
    exact and_congr_right fun hlen => by rw [hlen]
  cases hctrl : (readHeader order (peek plain stack)).isControl with
  | true =>
      have hno : ∀ i, inboundPlain order stack now plain table ≠
          .fragment (.badCopy i) := fun i =>
        dispatchPlain_of_control order stack now plain table hctrl (.badCopy i)
      simp [memcpy_mem_inboundAccesses_iff, hctrl, hno]
  | false =>
      rw [inboundPlain, dispatchPlain_of_not_control order stack now plain table hctrl]
      simp only [PlainOutcome.fragment.injEq]
      rw [storeFragment_badCopy_iff, ← hranges]
      constructor
      · rintro ⟨hfound, hcheck, hbad⟩
        refine ⟨tunnelHeaderLen,
          (readHeader order (peek plain stack)).fragmentOffset.toNat,
          fragmentPayloadLen plain, ?_, hbad⟩
        rw [memcpy_mem_inboundAccesses_iff]
        exact ⟨hctrl, hfound, hcheck, rfl, rfl, rfl⟩
      · rintro ⟨src, dst, len, hmem, hbad⟩
        rw [memcpy_mem_inboundAccesses_iff] at hmem
        obtain ⟨_, hfound, hcheck, hsrc, hdst, hlen⟩ := hmem
        rw [hsrc, hdst, hlen] at hbad
        exact ⟨hfound, hcheck, hbad⟩

/-- The header of a plaintext that holds its four fields does not depend on
what lies behind the plaintext. -/
theorem readHeader_peek_congr (order : Endian) (plain : Bytes)
    (stack other : Nat → UInt8) (h : 8 ≤ plain.length) :
    readHeader order (peek plain stack) = readHeader order (peek plain other) := by
  have hread (off : Nat) (hoff : off + 2 ≤ plain.length) :
      readU16 order (peek plain stack) off = readU16 order (peek plain other) off := by
    unfold readU16
    rw [Octets.read_peek_val 2 plain stack off hoff,
      Octets.read_peek_val 2 plain other off hoff]
  simp only [readHeader, hread 0 (by omega), hread 2 (by omega),
    hread 4 (by omega), hread 6 (by omega)]

/-- The short plaintexts that reach the copy: no control flag, an entry to put
the fragment in, and an offset that wraps the sum back under the limit. -/
def SlipsThrough (order : Endian) (now : Int) (plain : Bytes)
    (table : ReassemblyTable) : Prop :=
  let header := readHeader order (peek plain fun _ => 0)
  header.isControl = false ∧
    (findOrCreateEntry now header.packetId table).isSome = true ∧
    tunnelHeaderLen ≤ header.fragmentOffset.toNat + plain.length ∧
    header.fragmentOffset.toNat + plain.length ≤ tunnelHeaderLen + maxPacketSize

/-- For a short plaintext the size check passes on a wrapped sum: the offset
makes up for the missing header bytes. -/
theorem exceedsBuffer_of_short (plain : Bytes) (offset : Nat)
    (hshort : plain.length < tunnelHeaderLen) (hoffset : offset < 2 ^ 16) :
    exceedsBuffer offset (fragmentPayloadLen plain) = false ↔
      tunnelHeaderLen ≤ offset + plain.length ∧
        offset + plain.length ≤ tunnelHeaderLen + maxPacketSize := by
  rw [exceedsBuffer, decide_eq_false_iff_not, fragmentPayloadLen]
  simp only [tunnelHeaderLen, maxPacketSize] at hshort ⊢
  omega

/-- With a whole header the size check bounds both ranges of the copy. -/
theorem memcpy_inBounds_of_header (plain : Bytes) (offset : Nat)
    (hheader : tunnelHeaderLen ≤ plain.length) (hbound : plain.length ≤ bufferSize)
    (hoffset : offset < 2 ^ 16)
    (hcheck : exceedsBuffer offset (fragmentPayloadLen plain) = false) :
    (Access.memcpy tunnelHeaderLen offset (fragmentPayloadLen plain)).InBounds
      plain := by
  rw [exceedsBuffer, decide_eq_false_iff_not, fragmentPayloadLen] at hcheck
  rw [Access.inBounds_memcpy, fragmentPayloadLen]
  simp only [tunnelHeaderLen, maxPacketSize, bufferSize] at hcheck hheader hbound ⊢
  omega

/-- The fields are read from the first eight bytes, whichever branch follows. -/
theorem field_mem_inboundAccesses (order : Endian) (stack : Nat → UInt8)
    (now : Int) (plain : Bytes) (table : ReassemblyTable) (off len : Nat)
    (h : .field off len ∈ inboundAccesses order stack now plain table) :
    off + len ≤ 8 := by
  unfold inboundAccesses at h
  generalize readHeader order (peek plain stack) = header at h
  generalize fragmentPayloadLen plain = payloadLen at h
  simp only [List.mem_cons] at h
  rcases h with h | h
  · cases h
    decide
  cases hctrl : header.isControl with
  | true => simp [hctrl] at h
  | false =>
      rw [if_neg (by simp [hctrl])] at h
      rcases List.mem_cons.mp h with h | h
      · cases h
        decide
      cases hfind : findOrCreateEntry now header.packetId table with
      | none => simp [hfind] at h
      | some found =>
          rw [hfind] at h
          dsimp only at h
          rcases List.mem_cons.mp h with h | h
          · cases h
            decide
          split at h
          · cases h
          rcases List.mem_append.mp h with h | h
          · split at h
            · cases List.mem_singleton.mp h
              decide
            · cases h
          · cases List.mem_singleton.mp h

/-- Every access of the server's plaintext handling stays inside its object
exactly when the plaintext holds a whole tunnel header, or holds the four
fields and is not one of the short plaintexts that slip through the size
check. -/
theorem inboundAccesses_inBounds_iff (order : Endian) (stack : Nat → UInt8)
    (now : Int) (plain : Bytes) (table : ReassemblyTable)
    (hbound : plain.length ≤ bufferSize) :
    (∀ access ∈ inboundAccesses order stack now plain table,
      access.InBounds plain) ↔
      tunnelHeaderLen ≤ plain.length ∨
        (8 ≤ plain.length ∧ ¬SlipsThrough order now plain table) := by
  constructor
  · intro hall
    by_contra hnot
    push Not at hnot
    obtain ⟨hshort, himp⟩ := hnot
    have hflags : 8 ≤ plain.length :=
      hall (.field 6 2) (by simp [inboundAccesses])
    obtain ⟨hctrl, hfound, hlow, hhigh⟩ := himp hflags
    have hheader := readHeader_peek_congr order plain stack (fun _ => 0) hflags
    have hcheck : exceedsBuffer (readHeader order (peek plain stack)).fragmentOffset.toNat
        (fragmentPayloadLen plain) = false := by
      rw [hheader, exceedsBuffer_of_short plain _ hshort (UInt16.toNat_lt _)]
      exact ⟨hlow, hhigh⟩
    have hcopy := hall (.memcpy tunnelHeaderLen
      (readHeader order (peek plain stack)).fragmentOffset.toNat
      (fragmentPayloadLen plain)) (by
        rw [memcpy_mem_inboundAccesses_iff, hheader]
        exact ⟨hctrl, hfound, hheader ▸ hcheck, rfl, rfl, rfl⟩)
    rw [Access.inBounds_memcpy] at hcopy
    have hsrc := hcopy.1
    simp only [fragmentPayloadLen, tunnelHeaderLen] at hsrc hshort
    omega
  · intro hcond access hmem
    have hfields : 8 ≤ plain.length := by
      rcases hcond with h | h
      · simp only [tunnelHeaderLen] at h
        omega
      · exact h.1
    cases access with
    | field off len =>
        exact (field_mem_inboundAccesses order stack now plain table off len
          hmem).trans hfields
    | memcpy src dst len =>
        rw [memcpy_mem_inboundAccesses_iff] at hmem
        obtain ⟨hctrl, hfound, hcheck, hsrc, hdst, hlen⟩ := hmem
        rw [hsrc, hdst, hlen]
        by_cases hfull : tunnelHeaderLen ≤ plain.length
        · exact memcpy_inBounds_of_header plain _ hfull hbound (UInt16.toNat_lt _)
            hcheck
        · have hslip := (hcond.resolve_left hfull).2
          rw [readHeader_peek_congr order plain stack (fun _ => 0) hfields,
            exceedsBuffer_of_short plain _ (Nat.lt_of_not_le hfull)
              (UInt16.toNat_lt _)] at hcheck
          rw [readHeader_peek_congr order plain stack (fun _ => 0) hfields]
            at hctrl hfound
          exact absurd ⟨hctrl, hfound, hcheck⟩ hslip

/-- A data fragment of four bytes behind a whole header is copied, and meets the
condition. -/
theorem inboundAccesses_inBounds_fragment :
    let plain : Bytes := [1, 0, 0, 0, 4, 0, 0, 0] ++ List.replicate 16 0 ++ [69, 1, 2, 3]
    plain.length ≤ bufferSize ∧
      .memcpy 24 0 4 ∈ inboundAccesses .little (fun _ => 0) 0 plain emptyTable ∧
      ((∀ access ∈ inboundAccesses .little (fun _ => 0) 0 plain emptyTable,
        access.InBounds plain) ↔
        tunnelHeaderLen ≤ plain.length ∨
          (8 ≤ plain.length ∧ ¬SlipsThrough .little 0 plain emptyTable)) :=
  ⟨by decide, by decide +kernel,
    inboundAccesses_inBounds_iff .little (fun _ => 0) 0 _ emptyTable (by decide)⟩

/-- Eight authenticated bytes, offset 100 and no control flag: the copy has
length `2 ^ 64 - 16`. -/
theorem inboundAccesses_out_of_bounds :
    let plain : Bytes := [1, 0, 100, 0, 50, 0, 0, 0]
    ∃ access ∈ inboundAccesses .little (fun _ => 0) 0 plain emptyTable,
      access = .memcpy 24 100 (2 ^ 64 - 16) ∧ ¬access.InBounds plain := by
  decide +kernel

end Chamlon.Reassembly
