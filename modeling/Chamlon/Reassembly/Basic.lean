import Mathlib.Tactic
import Chamlon.Lib.Memory
import Chamlon.Config

/-!
Reassembly of tunnelled IP packets. `find_or_create_entry` and
`sweep_reassembly_table` are the same text in the server's `fragment.c`, where
each session has a table, and in the client's `vpn_reassembly.c`. So is the
code that stores a fragment, at the end of `handle_inbound_udp` and of
`handle_udp_packet`. The client alone first checks that the plaintext holds a
whole tunnel header.

`size_t` arithmetic is modulo `2 ^ 64`. A `memcpy` whose ranges leave the
plaintext or the entry buffer has no meaning in C; the model reports it as
`badCopy` and gives no table for it.
-/

namespace Chamlon.Reassembly

open Config Memory

/-- `reassembly_entry_t`. -/
structure ReassemblyEntry where
  packetId : UInt16
  lastActivity : Int
  expectedLength : Nat
  receivedBytes : Nat
  buffer : Octets maxPacketSize
  isActive : Bool

/-- The entry after `memset(entry, 0, sizeof(reassembly_entry_t))`. -/
def ReassemblyEntry.zero : ReassemblyEntry where
  packetId := 0
  lastActivity := 0
  expectedLength := 0
  receivedBytes := 0
  buffer := Octets.zero maxPacketSize
  isActive := false

/-- The entry `find_or_create_entry` makes for a packet it does not know. -/
def ReassemblyEntry.create (now : Int) (id : UInt16) : ReassemblyEntry :=
  { ReassemblyEntry.zero with isActive := true, packetId := id, lastActivity := now }

abbrev ReassemblyTable := Fin maxReassemblyEntries → ReassemblyEntry

def emptyTable : ReassemblyTable := fun _ => .zero

/-- The fields of `tunnel_header_t` that are read. Its session id never is. -/
structure TunnelHeader where
  packetId : UInt16
  fragmentOffset : UInt16
  totalIpLen : UInt16
  flags : UInt16
deriving DecidableEq, Repr

/-- A 16-bit field of the packed header, in the host's byte order. -/
def readU16 (order : Endian) (peek : Nat → UInt8) (off : Nat) : UInt16 :=
  UInt16.ofNat (order.decode (Octets.read 2 peek off).val)

def readHeader (order : Endian) (peek : Nat → UInt8) : TunnelHeader where
  packetId := readU16 order peek 0
  fragmentOffset := readU16 order peek 2
  totalIpLen := readU16 order peek 4
  flags := readU16 order peek 6

/-- `find_or_create_entry`: the index of the entry and the table after the
call, or nothing when the table is full. -/
def findOrCreateEntry (now : Int) (id : UInt16) (table : ReassemblyTable) :
    Option (Fin maxReassemblyEntries × ReassemblyTable) :=
  match Fin.find? (fun i => (table i).isActive && (table i).packetId == id) with
  | some i => some (i, Function.update table i { table i with lastActivity := now })
  | none =>
      match Fin.find? (fun i => !(table i).isActive) with
      | some i => some (i, Function.update table i (.create now id))
      | none => none

/-- `sweep_reassembly_table` over one table. -/
def sweepReassemblyTable (now : Int) (table : ReassemblyTable) : ReassemblyTable :=
  fun i =>
    if (table i).isActive && decide (reassemblyTimeout < now - (table i).lastActivity)
    then .zero else table i

/-- `!(header->flags & 0x8000)`. -/
def TunnelHeader.isLast (header : TunnelHeader) : Bool :=
  header.flags &&& 0x8000 == 0

/-- The entry after the fragment was copied: the first declared length stays,
and the byte count grows by the length of the payload. -/
def ReassemblyEntry.fill (entry : ReassemblyEntry) (header : TunnelHeader)
    (payload : Bytes)
    (h : header.fragmentOffset.toNat + payload.length ≤ maxPacketSize) :
    ReassemblyEntry :=
  { entry with
    expectedLength :=
      if entry.expectedLength = 0 then header.totalIpLen.toNat
      else entry.expectedLength
    buffer := entry.buffer.copy header.fragmentOffset.toNat payload h
    receivedBytes := (entry.receivedBytes + payload.length) % 2 ^ 64 }

/-- The size check: `fragment_offset + fragment_payload_len > MAX_PACKET_SIZE`. -/
def exceedsBuffer (offset payloadLen : Nat) : Bool :=
  decide (maxPacketSize < (offset + payloadLen) % 2 ^ 64)

/-- How the handling of one fragment ends. -/
inductive FragmentOutcome where
  /-- No entry for the packet and none free. -/
  | tableFull
  /-- The size check fired and deactivated the entry. -/
  | oversize (table : ReassemblyTable) (i : Fin maxReassemblyEntries)
  /-- The fragment was copied and the packet is not complete. -/
  | stored (table : ReassemblyTable) (i : Fin maxReassemblyEntries)
  /-- The packet was complete: `write(tun_fd, buffer, length)`. -/
  | written (table : ReassemblyTable) (i : Fin maxReassemblyEntries)
      (buffer : Octets maxPacketSize) (length : Nat)
  /-- The `memcpy` was executed on ranges that are not inside its objects. -/
  | badCopy (i : Fin maxReassemblyEntries)

/-- The common code that files one fragment. `payloadLen` is the computed
`fragment_payload_len`; `payload` are the bytes that really follow the header. -/
def storeFragment (now : Int) (header : TunnelHeader) (payload : Bytes)
    (payloadLen : Nat) (table : ReassemblyTable) : FragmentOutcome :=
  match findOrCreateEntry now header.packetId table with
  | none => .tableFull
  | some (i, table) =>
      let offset := header.fragmentOffset.toNat
      if exceedsBuffer offset payloadLen then
        .oversize (Function.update table i { table i with isActive := false }) i
      else if h : payload.length = payloadLen ∧
          offset + payload.length ≤ maxPacketSize then
        let entry := (table i).fill header payload h.2
        if header.isLast && decide (entry.expectedLength ≤ entry.receivedBytes) then
          .written (Function.update table i { entry with isActive := false }) i
            entry.buffer entry.expectedLength
        else .stored (Function.update table i entry) i
      else .badCopy i

/-- The ways a fragment can end in an entry that was found or made. -/
inductive FiledAs (header : TunnelHeader) (payload : Bytes) (payloadLen : Nat)
    (next : ReassemblyTable) (i : Fin maxReassemblyEntries) :
    FragmentOutcome → Prop where
  | oversize (hlarge : exceedsBuffer header.fragmentOffset.toNat payloadLen = true) :
      FiledAs header payload payloadLen next i
        (.oversize (Function.update next i { next i with isActive := false }) i)
  | written (hlen : payload.length = payloadLen)
      (hfits : header.fragmentOffset.toNat + payload.length ≤ maxPacketSize)
      (hlast : header.isLast = true)
      (hfull : ((next i).fill header payload hfits).expectedLength ≤
        ((next i).fill header payload hfits).receivedBytes) :
      FiledAs header payload payloadLen next i
        (.written (Function.update next i
          { (next i).fill header payload hfits with isActive := false }) i
          ((next i).fill header payload hfits).buffer
          ((next i).fill header payload hfits).expectedLength)
  | stored (hlen : payload.length = payloadLen)
      (hfits : header.fragmentOffset.toNat + payload.length ≤ maxPacketSize)
      (hpart : header.isLast = true →
        ((next i).fill header payload hfits).receivedBytes <
          ((next i).fill header payload hfits).expectedLength) :
      FiledAs header payload payloadLen next i
        (.stored (Function.update next i ((next i).fill header payload hfits)) i)
  | badCopy (hsmall : exceedsBuffer header.fragmentOffset.toNat payloadLen = false)
      (hbad : ¬(payload.length = payloadLen ∧
        header.fragmentOffset.toNat + payload.length ≤ maxPacketSize)) :
      FiledAs header payload payloadLen next i (.badCopy i)

/-- What a decrypted plaintext turned out to be. -/
inductive PlainOutcome where
  | dummy
  | keepalive
  | disconnect
  | tooShort
  | fragment (outcome : FragmentOutcome)

/-- The flag values of packets that carry no fragment. -/
def TunnelHeader.isControl (header : TunnelHeader) : Bool :=
  header.flags.toNat == pktDummy || header.flags.toNat == pktCtrlKeepalive ||
    header.flags.toNat == pktCtrlDisconnect

/-- `plain_len - sizeof(tunnel_header_t)`, which wraps for a short plaintext. -/
def fragmentPayloadLen (plain : Bytes) : Nat :=
  (plain.length + 2 ^ 64 - tunnelHeaderLen) % 2 ^ 64

/-- The code after `update_window`, shared by both programs. The header pointer
is the start of the `plain` array, whose bytes past the plaintext are whatever
the `stack` holds there. -/
def dispatchPlain (order : Endian) (stack : Nat → UInt8) (now : Int)
    (plain : Bytes) (table : ReassemblyTable) : PlainOutcome :=
  let header := readHeader order (peek plain stack)
  if header.flags.toNat = pktDummy then .dummy
  else if header.flags.toNat = pktCtrlKeepalive then .keepalive
  else if header.flags.toNat = pktCtrlDisconnect then .disconnect
  else
    .fragment (storeFragment now header (plain.drop tunnelHeaderLen)
      (fragmentPayloadLen plain) table)

/-- The end of the server's `handle_inbound_udp`. -/
def inboundPlain (order : Endian) (stack : Nat → UInt8) (now : Int)
    (plain : Bytes) (table : ReassemblyTable) : PlainOutcome :=
  dispatchPlain order stack now plain table

/-- The end of the client's `handle_udp_packet`, with its length check. -/
def udpPlain (order : Endian) (stack : Nat → UInt8) (now : Int)
    (plain : Bytes) (table : ReassemblyTable) : PlainOutcome :=
  if plain.length < tunnelHeaderLen then .tooShort
  else dispatchPlain order stack now plain table

/-- Everything a successful `find_or_create_entry` can do: it touches the one
active entry of the packet, or it reuses the first inactive entry when there is
none. -/
theorem findOrCreateEntry_cases {now : Int} {id : UInt16}
    {table next : ReassemblyTable} {i : Fin maxReassemblyEntries}
    (h : findOrCreateEntry now id table = some (i, next)) :
    ((table i).isActive = true ∧ (table i).packetId = id ∧
      next = Function.update table i { table i with lastActivity := now }) ∨
    ((∀ j, (table j).isActive = true → (table j).packetId ≠ id) ∧
      (table i).isActive = false ∧ (∀ j < i, (table j).isActive = true) ∧
      next = Function.update table i (.create now id)) := by
  unfold findOrCreateEntry at h
  split at h
  next j hfound =>
    obtain ⟨hmatch, _⟩ := Fin.find?_eq_some_iff.mp hfound
    simp only [Bool.and_eq_true, beq_iff_eq] at hmatch
    simp only [Option.some.injEq, Prod.mk.injEq] at h
    obtain ⟨rfl, rfl⟩ := h
    exact Or.inl ⟨hmatch.1, hmatch.2, rfl⟩
  next hnone =>
    have habsent : ∀ j, (table j).isActive = true → (table j).packetId ≠ id := by
      intro j hactive hid
      have hj := Fin.find?_eq_none_iff.mp hnone j
      simp [hactive, hid] at hj
    split at h
    next j hfree =>
      obtain ⟨hinactive, hbefore⟩ := Fin.find?_eq_some_iff.mp hfree
      simp only [Option.some.injEq, Prod.mk.injEq] at h
      obtain ⟨rfl, rfl⟩ := h
      refine Or.inr ⟨habsent, by simpa using hinactive, ?_, rfl⟩
      intro k hk
      simpa using hbefore k hk
    next => cases h

theorem findOrCreateEntry_self {now : Int} {id : UInt16}
    {table next : ReassemblyTable} {i : Fin maxReassemblyEntries}
    (h : findOrCreateEntry now id table = some (i, next)) :
    next i = if (table i).isActive then { table i with lastActivity := now }
      else .create now id := by
  rcases findOrCreateEntry_cases h with ⟨hactive, _, rfl⟩ | ⟨_, hinactive, _, rfl⟩
  · rw [Function.update_self, if_pos hactive]
  · rw [Function.update_self, if_neg (by simp [hinactive])]

theorem findOrCreateEntry_other {now : Int} {id : UInt16}
    {table next : ReassemblyTable} {i j : Fin maxReassemblyEntries}
    (h : findOrCreateEntry now id table = some (i, next)) (hj : j ≠ i) :
    next j = table j := by
  rcases findOrCreateEntry_cases h with ⟨_, _, rfl⟩ | ⟨_, _, _, rfl⟩
  · rw [Function.update_of_ne hj]
  · rw [Function.update_of_ne hj]

/-- The table is full exactly when every entry is busy with another packet. -/
theorem findOrCreateEntry_eq_none_iff (now : Int) (id : UInt16)
    (table : ReassemblyTable) :
    findOrCreateEntry now id table = none ↔
      ∀ i, (table i).isActive = true ∧ (table i).packetId ≠ id := by
  unfold findOrCreateEntry
  constructor
  · intro h i
    split at h
    next => cases h
    next hnone =>
      split at h
      next => cases h
      next hbusy =>
        have hactive : (table i).isActive = true := by
          simpa using Fin.find?_eq_none_iff.mp hbusy i
        have hother := Fin.find?_eq_none_iff.mp hnone i
        exact ⟨hactive, by simpa [hactive] using hother⟩
  · intro h
    have hnone : Fin.find? (fun i =>
        (table i).isActive && (table i).packetId == id) = none := by
      rw [Fin.find?_eq_none_iff]
      intro i
      simp [(h i).2]
    have hbusy : Fin.find? (fun i => !(table i).isActive) = none := by
      rw [Fin.find?_eq_none_iff]
      intro i
      simp [(h i).1]
    rw [hnone, hbusy]

/-- A packet that already has an entry, or a free entry to take, finds one. -/
theorem findOrCreateEntry_isSome (now : Int) (id : UInt16)
    (table : ReassemblyTable) (i : Fin maxReassemblyEntries)
    (h : (table i).isActive = true → (table i).packetId = id) :
    ∃ k next, findOrCreateEntry now id table = some (k, next) := by
  cases hres : findOrCreateEntry now id table with
  | none =>
      have hfull := (findOrCreateEntry_eq_none_iff now id table).mp hres i
      exact absurd (h hfull.1) hfull.2
  | some result => exact ⟨result.1, result.2, rfl⟩

/-- Without wrapping the size check is the comparison it looks like. -/
theorem exceedsBuffer_iff (offset payloadLen : Nat)
    (h : offset + payloadLen < 2 ^ 64) :
    exceedsBuffer offset payloadLen = true ↔ maxPacketSize < offset + payloadLen := by
  simp only [exceedsBuffer, Nat.mod_eq_of_lt h, decide_eq_true_eq]

/-- Everything that filing a fragment can do. -/
theorem storeFragment_cases (now : Int) (header : TunnelHeader) (payload : Bytes)
    (payloadLen : Nat) (table : ReassemblyTable) :
    (findOrCreateEntry now header.packetId table = none ∧
      storeFragment now header payload payloadLen table = .tableFull) ∨
    ∃ i next, findOrCreateEntry now header.packetId table = some (i, next) ∧
      FiledAs header payload payloadLen next i
        (storeFragment now header payload payloadLen table) := by
  unfold storeFragment
  cases hfind : findOrCreateEntry now header.packetId table with
  | none => exact Or.inl ⟨rfl, rfl⟩
  | some found =>
      obtain ⟨i, next⟩ := found
      refine Or.inr ⟨i, next, rfl, ?_⟩
      dsimp only
      split
      next hlarge => exact .oversize hlarge
      next hsmall =>
        split
        next hfits =>
          split
          next hdone =>
            rw [Bool.and_eq_true, decide_eq_true_eq] at hdone
            exact .written hfits.1 hfits.2 hdone.1 hdone.2
          next hpart =>
            rw [Bool.and_eq_true, decide_eq_true_eq] at hpart
            exact .stored hfits.1 hfits.2 fun hlast =>
              Nat.lt_of_not_le fun hfull => hpart ⟨hlast, hfull⟩
        next hbad => exact .badCopy (by simpa using hsmall) hbad

theorem storeFragment_of_full {now : Int} {header : TunnelHeader} {payload : Bytes}
    {payloadLen : Nat} {table : ReassemblyTable}
    (hfind : findOrCreateEntry now header.packetId table = none) :
    storeFragment now header payload payloadLen table = .tableFull := by
  unfold storeFragment
  rw [hfind]

/-- Filing a fragment whose payload is all there and fits the buffer. -/
theorem storeFragment_of_fits {now : Int} {header : TunnelHeader}
    {payload : Bytes} {table next : ReassemblyTable}
    {i : Fin maxReassemblyEntries}
    (hfind : findOrCreateEntry now header.packetId table = some (i, next))
    (hfits : header.fragmentOffset.toNat + payload.length ≤ maxPacketSize) :
    storeFragment now header payload payload.length table =
      let entry := (next i).fill header payload hfits
      if header.isLast && decide (entry.expectedLength ≤ entry.receivedBytes) then
        .written (Function.update next i { entry with isActive := false }) i
          entry.buffer entry.expectedLength
      else .stored (Function.update next i entry) i := by
  have hcheck : ¬exceedsBuffer header.fragmentOffset.toNat payload.length = true := by
    rw [exceedsBuffer_iff _ _ (by simp only [maxPacketSize] at hfits; omega)]
    exact Nat.not_lt.mpr hfits
  unfold storeFragment
  rw [hfind]
  dsimp only
  rw [if_neg hcheck, dif_pos ⟨rfl, hfits⟩]

/-- With a whole header the payload length is exact. -/
theorem fragmentPayloadLen_of_le (plain : Bytes)
    (hheader : tunnelHeaderLen ≤ plain.length)
    (hbound : plain.length ≤ bufferSize) :
    fragmentPayloadLen plain = (plain.drop tunnelHeaderLen).length := by
  simp only [fragmentPayloadLen, List.length_drop, tunnelHeaderLen, bufferSize] at *
  omega

theorem dispatchPlain_of_not_control (order : Endian) (stack : Nat → UInt8)
    (now : Int) (plain : Bytes) (table : ReassemblyTable)
    (h : (readHeader order (peek plain stack)).isControl = false) :
    dispatchPlain order stack now plain table =
      .fragment (storeFragment now (readHeader order (peek plain stack))
        (plain.drop tunnelHeaderLen) (fragmentPayloadLen plain) table) := by
  simp only [TunnelHeader.isControl, Bool.or_eq_false_iff, beq_eq_false_iff_ne] at h
  simp only [dispatchPlain, h.1.1, h.1.2, h.2, if_false]

theorem dispatchPlain_of_control (order : Endian) (stack : Nat → UInt8)
    (now : Int) (plain : Bytes) (table : ReassemblyTable)
    (h : (readHeader order (peek plain stack)).isControl = true)
    (outcome : FragmentOutcome) :
    dispatchPlain order stack now plain table ≠ .fragment outcome := by
  simp only [TunnelHeader.isControl, Bool.or_eq_true, beq_iff_eq] at h
  unfold dispatchPlain
  grind

end Chamlon.Reassembly
