import Mathlib.Tactic
import Chamlon.Reassembly.Run
import Chamlon.Wire

/-!
The two fragmenters: the loop of the client's `handle_tun_packet` and that of the
server's `handle_outbound_tun_buf` with `send_outbound_packet`. They cut an IP
packet into chunks of `FRAG - sizeof(tunnel_header_t)` bytes, put a header in
front of each and pad to `FRAG` on their own conditions. The result is the list
of plaintexts handed to `aead_encrypt`.

The `k`-th plaintext of both carries the same header and the same chunk; they
differ in the padding and in the header's session id, which no one reads.
-/

namespace Chamlon.Reassembly

open Config Memory

/-- The bytes of a packed `tunnel_header_t`. -/
def encodeHeader (order : Endian) (header : TunnelHeader)
    (sessionId : Octets sessionIdLen) : Octets tunnelHeaderLen :=
  ⟨(order.encode 2 header.packetId.toNat).val ++
    ((order.encode 2 header.fragmentOffset.toNat).val ++
      ((order.encode 2 header.totalIpLen.toNat).val ++
        ((order.encode 2 header.flags.toNat).val ++ sessionId.val))), by
    simp [Octets.length_val, tunnelHeaderLen, sessionIdLen]⟩

/-- A header filled up to `frag` bytes, as in dummies and control packets. -/
theorem length_header_fill (order : Endian) (header : TunnelHeader)
    (sessionId : Octets sessionIdLen) (byte : UInt8) {frag : Nat}
    (h : tunnelHeaderLen ≤ frag) :
    ((encodeHeader order header sessionId).val ++
      List.replicate (frag - tunnelHeaderLen) byte).length = frag := by
  rw [List.length_append, Octets.length_val, List.length_replicate]
  omega

/-- `chunk_len`: what is left of the packet, at most `max_payload`. -/
def chunkLen (len maxPayload offset : Nat) : Nat :=
  if maxPayload < len - offset then maxPayload else len - offset

/-- The header both loops build. -/
def chunkHeader (id : UInt16) (len maxPayload offset : Nat) : TunnelHeader where
  packetId := id
  fragmentOffset := UInt16.ofNat offset
  totalIpLen := UInt16.ofNat len
  flags := if offset + chunkLen len maxPayload offset = len then 0x0000 else 0x8000

/-- `buf2` after it was zeroed and the header and the chunk were copied in. -/
def fragmentBuffer (order : Endian) (frag : Nat) (sessionId : Octets sessionIdLen)
    (id : UInt16) (buf : Bytes) (offset : Nat) : Bytes :=
  let maxPayload := frag - tunnelHeaderLen
  let header := encodeHeader order (chunkHeader id buf.length maxPayload offset) sessionId
  let chunk := slice buf offset (chunkLen buf.length maxPayload offset)
  memcpy (memcpy (Octets.zero frag).val 0 header.val) tunnelHeaderLen chunk

/-- `real_data_len`. -/
def realDataLen (frag : Nat) (buf : Bytes) (offset : Nat) : Nat :=
  tunnelHeaderLen + chunkLen buf.length (frag - tunnelHeaderLen) offset

/-- `memset(buf2 + real_data_len, 0, max_len - real_data_len)`. -/
def zeroFill (buf2 : Bytes) (realDataLen frag : Nat) : Bytes :=
  memcpy buf2 realDataLen (Octets.zero (frag - realDataLen)).val

/-- The client's `packet_padding`, with nothing for -1. -/
def clientPacketPadding (pad : UInt8) (frag : Nat) (buf2 : Bytes) (realDataLen : Nat) :
    Option Bytes :=
  if pad = 'N'.toUInt8 then none else some (zeroFill buf2 realDataLen frag)

/-- The server's `packet_padding`. -/
def serverPacketPadding (buf2 : Bytes) (realDataLen : Nat) (frag : Int) : Bytes :=
  if frag ≤ 0 ∨ (maxFrag : Int) < frag then buf2
  else if frag < realDataLen then buf2
  else zeroFill buf2 realDataLen frag.toNat

/-- One turn of the loop in `handle_tun_packet`. The header's session id is not
initialised. -/
def clientFragment (order : Endian) (argv : Params) (uninit : Octets sessionIdLen)
    (id : UInt16) (buf : Bytes) (offset : Nat) : Bytes :=
  let frag := argv.frag.toNat
  let buf2 := fragmentBuffer order frag uninit id buf offset
  match clientPacketPadding argv.pad frag buf2 (realDataLen frag buf offset) with
  | some buf2 => buf2.take frag
  | none => buf2.take (realDataLen frag buf offset)

/-- The plaintext `send_outbound_packet` encrypts. -/
def outboundPlain (argv : Params) (buf2 : Bytes) (realDataLen : Nat) : Bytes :=
  if argv.cbr = 'Y'.toUInt8 ∧ realDataLen < argv.frag.toNat then
    (serverPacketPadding buf2 realDataLen argv.frag).take argv.frag.toNat
  else buf2.take realDataLen

/-- One turn of the loop in `handle_outbound_tun_buf`. -/
def serverFragment (order : Endian) (argv : Params) (id : UInt16) (buf : Bytes)
    (offset : Nat) : Bytes :=
  let frag := argv.frag.toNat
  let buf2 := fragmentBuffer order frag (Octets.zero sessionIdLen) id buf offset
  if argv.pad = 'Y'.toUInt8 then
    outboundPlain argv
      (serverPacketPadding buf2 (realDataLen frag buf offset) argv.frag) frag
  else outboundPlain argv buf2 (realDataLen frag buf offset)

/-- `while (current_offset < len)`, with the body's plaintext as a function of the
offset. -/
def fragmentLoop (len maxPayload : Nat) (fragment : Nat → Bytes) :
    Nat → Nat → List Bytes
  | 0, _ => []
  | fuel + 1, offset =>
      if offset < len then
        fragment offset :: fragmentLoop len maxPayload fragment fuel
          (offset + chunkLen len maxPayload offset)
      else []

/-- The plaintexts of `handle_tun_packet` for an IP packet. -/
def handleTunPacket (order : Endian) (argv : Params)
    (uninit : Nat → Octets sessionIdLen) (id : UInt16) (buf : Bytes) : List Bytes :=
  if buf.length < 20 then []
  else fragmentLoop buf.length (argv.frag.toNat - tunnelHeaderLen)
    (fun offset => clientFragment order argv (uninit offset) id buf offset) buf.length 0

/-- The plaintexts of `handle_outbound_tun_buf` for an IP packet. -/
def handleOutboundTunBuf (order : Endian) (argv : Params) (id : UInt16) (buf : Bytes) :
    List Bytes :=
  if buf.length < 20 then []
  else fragmentLoop buf.length (argv.frag.toNat - tunnelHeaderLen)
    (serverFragment order argv id buf) buf.length 0

theorem readU16_append (order : Endian) (before : Bytes) (value : UInt16) (behind : Bytes)
    (off : Nat) (hoff : before.length = off) :
    readU16 order (peek (before ++ ((order.encode 2 value.toNat).val ++ behind))
      fun _ => 0) off = value := by
  have hfield := field_append 2 before (order.encode 2 value.toNat) behind off hoff
  rw [field] at hfield
  rw [readU16, hfield, order.decode_encode 2 value.toNat value.toNat_lt]
  simp

/-- A header is read back as it was written, whatever follows it. -/
theorem plainHeader_encode (order : Endian) (header : TunnelHeader)
    (sessionId : Octets sessionIdLen) (payload : Bytes) :
    plainHeader order ((encodeHeader order header sessionId).val ++ payload) = header := by
  simp only [plainHeader, readHeader, encodeHeader, List.append_assoc]
  have hid := readU16_append order [] header.packetId
    ((order.encode 2 header.fragmentOffset.toNat).val ++
      ((order.encode 2 header.totalIpLen.toNat).val ++
        ((order.encode 2 header.flags.toNat).val ++ (sessionId.val ++ payload)))) 0 rfl
  have hoffset := readU16_append order (order.encode 2 header.packetId.toNat).val
    header.fragmentOffset ((order.encode 2 header.totalIpLen.toNat).val ++
      ((order.encode 2 header.flags.toNat).val ++ (sessionId.val ++ payload))) 2
    (Octets.length_val _)
  have htotal := readU16_append order ((order.encode 2 header.packetId.toNat).val ++
      (order.encode 2 header.fragmentOffset.toNat).val) header.totalIpLen
    ((order.encode 2 header.flags.toNat).val ++ (sessionId.val ++ payload)) 4
    (by simp [Octets.length_val])
  have hflags := readU16_append order ((order.encode 2 header.packetId.toNat).val ++
      ((order.encode 2 header.fragmentOffset.toNat).val ++
        (order.encode 2 header.totalIpLen.toNat).val)) header.flags
    (sessionId.val ++ payload) 6 (by simp [Octets.length_val])
  simp only [List.append_assoc, List.nil_append] at hid hoffset htotal hflags
  rw [hid, hoffset, htotal, hflags]

theorem plainPayload_encode (order : Endian) (header : TunnelHeader)
    (sessionId : Octets sessionIdLen) (payload : Bytes) :
    plainPayload ((encodeHeader order header sessionId).val ++ payload) = payload := by
  rw [plainPayload, List.drop_left' (Octets.length_val _)]

/-- A plaintext that carries the chunk of the packet at this offset: its header,
the chunk and perhaps zeros behind it. -/
structure FragmentOf (order : Endian) (maxPayload : Nat) (id : UInt16) (buf : Bytes)
    (offset : Nat) (plain : Bytes) : Prop where
  header : plainHeader order plain = chunkHeader id buf.length maxPayload offset
  payload : ∃ n, plainPayload plain =
    slice buf offset (chunkLen buf.length maxPayload offset) ++ List.replicate n 0
  fits : (plainPayload plain).length ≤ maxPayload
  whole : tunnelHeaderLen ≤ plain.length ∧ plain.length ≤ bufferSize

theorem chunkLen_le (len maxPayload offset : Nat) :
    chunkLen len maxPayload offset ≤ maxPayload ∧
      chunkLen len maxPayload offset ≤ len - offset := by
  unfold chunkLen
  split <;> omega

theorem length_chunk (buf : Bytes) (maxPayload offset : Nat) :
    (slice buf offset (chunkLen buf.length maxPayload offset)).length =
      chunkLen buf.length maxPayload offset := by
  rw [slice, List.length_take, List.length_drop]
  exact min_eq_left (chunkLen_le buf.length maxPayload offset).2

section Shape

variable (order : Endian) (frag : Nat) (sessionId : Octets sessionIdLen) (id : UInt16)
  (buf : Bytes) (offset : Nat)

/-- Header and chunk as they lie in `buf2`. -/
def fragmentHead : Bytes :=
  (encodeHeader order (chunkHeader id buf.length (frag - tunnelHeaderLen) offset)
    sessionId).val ++
    slice buf offset (chunkLen buf.length (frag - tunnelHeaderLen) offset)

theorem length_fragmentHead :
    (fragmentHead order frag sessionId id buf offset).length =
      realDataLen frag buf offset := by
  rw [fragmentHead, realDataLen, List.length_append, Octets.length_val, length_chunk]

theorem realDataLen_le (h : tunnelHeaderLen ≤ frag) :
    realDataLen frag buf offset ≤ frag := by
  have hle := (chunkLen_le buf.length (frag - tunnelHeaderLen) offset).1
  unfold realDataLen
  omega

/-- `buf2` holds header, chunk and zeros. -/
theorem fragmentBuffer_eq :
    fragmentBuffer order frag sessionId id buf offset =
      fragmentHead order frag sessionId id buf offset ++
        List.replicate (frag - realDataLen frag buf offset) 0 := by
  unfold fragmentBuffer fragmentHead realDataLen
  dsimp only
  generalize encodeHeader order (chunkHeader id buf.length (frag - tunnelHeaderLen)
    offset) sessionId = header
  have hchunk := length_chunk buf (frag - tunnelHeaderLen) offset
  generalize slice buf offset (chunkLen buf.length (frag - tunnelHeaderLen) offset) =
    chunk at hchunk ⊢
  rw [← hchunk]
  have hfirst : memcpy (Octets.zero frag).val 0 header.val =
      header.val ++ List.replicate (frag - tunnelHeaderLen) 0 := by
    simp [memcpy, Octets.zero, Octets.fill]
  rw [hfirst, memcpy, List.take_left' header.length_val, ← List.drop_drop,
    List.drop_left' header.length_val, List.drop_replicate, Nat.sub_sub]

theorem length_fragmentBuffer (h : tunnelHeaderLen ≤ frag) :
    (fragmentBuffer order frag sessionId id buf offset).length = frag := by
  have hle := realDataLen_le frag buf offset h
  rw [fragmentBuffer_eq, List.length_append, length_fragmentHead, List.length_replicate]
  omega

/-- Filling the tail of `buf2` with zeros changes nothing. -/
theorem zeroFill_fragmentBuffer :
    zeroFill (fragmentBuffer order frag sessionId id buf offset)
      (realDataLen frag buf offset) frag =
        fragmentBuffer order frag sessionId id buf offset := by
  have hhead := length_fragmentHead order frag sessionId id buf offset
  rw [fragmentBuffer_eq, zeroFill, memcpy, List.take_left' hhead, ← List.drop_drop,
    List.drop_left' hhead]
  simp [Octets.zero, Octets.fill]

/-- Header, chunk and no more zeros than fit are a fragment. -/
theorem fragmentOf_head (n : Nat) (hlow : tunnelHeaderLen ≤ frag)
    (hhigh : frag ≤ bufferSize) (hfits : realDataLen frag buf offset + n ≤ frag) :
    FragmentOf order (frag - tunnelHeaderLen) id buf offset
      (fragmentHead order frag sessionId id buf offset ++ List.replicate n 0) where
  header := by
    rw [fragmentHead, List.append_assoc]
    exact plainHeader_encode order _ sessionId _
  payload := ⟨n, by rw [fragmentHead, List.append_assoc, plainPayload_encode]⟩
  fits := by
    rw [fragmentHead, List.append_assoc, plainPayload_encode, List.length_append,
      List.length_replicate, length_chunk]
    unfold realDataLen at hfits
    omega
  whole := by
    rw [List.length_append, length_fragmentHead, List.length_replicate]
    exact ⟨(Nat.le_add_right _ _).trans (Nat.le_add_right _ n), hfits.trans hhigh⟩

/-- `aead_encrypt` gets the whole of `buf2` or its start without the zeros. -/
theorem fragmentOf_take (hlow : tunnelHeaderLen ≤ frag) (hhigh : frag ≤ bufferSize) :
    FragmentOf order (frag - tunnelHeaderLen) id buf offset
        ((fragmentBuffer order frag sessionId id buf offset).take frag) ∧
      FragmentOf order (frag - tunnelHeaderLen) id buf offset
        ((fragmentBuffer order frag sessionId id buf offset).take
          (realDataLen frag buf offset)) := by
  have hle := realDataLen_le frag buf offset hlow
  have hhead := length_fragmentHead order frag sessionId id buf offset
  rw [fragmentBuffer_eq]
  constructor
  · rw [List.take_of_length_le (by
      rw [List.length_append, hhead, List.length_replicate]
      omega)]
    exact fragmentOf_head order frag sessionId id buf offset _ hlow hhigh (by omega)
  · rw [List.take_left' hhead, ← List.append_nil (fragmentHead _ _ _ _ _ _)]
    exact fragmentOf_head order frag sessionId id buf offset 0 hlow hhigh (by omega)

end Shape

theorem clientFragment_of {order : Endian} {argv : Params} {id : UInt16} {buf : Bytes}
    {offset : Nat} (uninit : Octets sessionIdLen)
    (hlow : tunnelHeaderLen ≤ argv.frag.toNat) (hhigh : argv.frag.toNat ≤ bufferSize) :
    FragmentOf order (argv.frag.toNat - tunnelHeaderLen) id buf offset
      (clientFragment order argv uninit id buf offset) := by
  obtain ⟨hfull, hreal⟩ :=
    fragmentOf_take order argv.frag.toNat uninit id buf offset hlow hhigh
  unfold clientFragment clientPacketPadding
  dsimp only
  rw [zeroFill_fragmentBuffer]
  by_cases hpad : argv.pad = 'N'.toUInt8
  · rw [if_pos hpad]
    exact hreal
  · rw [if_neg hpad]
    exact hfull

/-- A fragment of the client is padded unless padding is off. -/
theorem length_clientFragment {order : Endian} {argv : Params} {id : UInt16} {buf : Bytes}
    {offset : Nat} (uninit : Octets sessionIdLen)
    (hlow : tunnelHeaderLen ≤ argv.frag.toNat) :
    (clientFragment order argv uninit id buf offset).length =
      if argv.pad = 'N'.toUInt8 then realDataLen argv.frag.toNat buf offset
      else argv.frag.toNat := by
  have hbuffer := length_fragmentBuffer order argv.frag.toNat uninit id buf offset hlow
  unfold clientFragment clientPacketPadding
  dsimp only
  rw [zeroFill_fragmentBuffer]
  by_cases hpad : argv.pad = 'N'.toUInt8
  · rw [if_pos hpad, if_pos hpad]
    dsimp only
    rw [List.length_take, hbuffer]
    exact min_eq_left (realDataLen_le argv.frag.toNat buf offset hlow)
  · rw [if_neg hpad, if_neg hpad]
    dsimp only
    rw [List.length_take, hbuffer, min_self]

theorem serverPacketPadding_fragmentBuffer (order : Endian) (argv : Params)
    (sessionId : Octets sessionIdLen) (id : UInt16) (buf : Bytes) (offset : Nat) :
    serverPacketPadding (fragmentBuffer order argv.frag.toNat sessionId id buf offset)
      (realDataLen argv.frag.toNat buf offset) argv.frag =
        fragmentBuffer order argv.frag.toNat sessionId id buf offset := by
  unfold serverPacketPadding
  rw [zeroFill_fragmentBuffer, ite_self, ite_self]

/-- With constant bit rate the server fills every fragment. -/
theorem length_serverFragment {order : Endian} {argv : Params} {id : UInt16} {buf : Bytes}
    {offset : Nat} (hlow : tunnelHeaderLen ≤ argv.frag.toNat)
    (hcbr : argv.cbr = 'Y'.toUInt8) :
    (serverFragment order argv id buf offset).length = argv.frag.toNat := by
  have hbuffer := length_fragmentBuffer order argv.frag.toNat (Octets.zero sessionIdLen) id
    buf offset hlow
  have hreal := realDataLen_le argv.frag.toNat buf offset hlow
  unfold serverFragment outboundPlain
  dsimp only
  rw [serverPacketPadding_fragmentBuffer]
  split
  · rw [if_neg fun h => lt_irrefl _ h.2, List.length_take, hbuffer, min_self]
  split
  · rw [List.length_take, hbuffer, min_self]
  next hfull =>
    have hsame : realDataLen argv.frag.toNat buf offset = argv.frag.toNat :=
      le_antisymm hreal (not_lt.mp fun h => hfull ⟨hcbr, h⟩)
    rw [hsame, List.length_take, hbuffer, min_self]

theorem serverFragment_of {order : Endian} {argv : Params} {id : UInt16} {buf : Bytes}
    {offset : Nat} (hlow : tunnelHeaderLen ≤ argv.frag.toNat)
    (hhigh : argv.frag.toNat ≤ bufferSize) :
    FragmentOf order (argv.frag.toNat - tunnelHeaderLen) id buf offset
      (serverFragment order argv id buf offset) := by
  obtain ⟨hfull, hreal⟩ := fragmentOf_take order argv.frag.toNat
    (Octets.zero sessionIdLen) id buf offset hlow hhigh
  unfold serverFragment outboundPlain
  dsimp only
  rw [serverPacketPadding_fragmentBuffer]
  split
  · rw [if_neg fun h => lt_irrefl _ h.2]
    exact hfull
  split
  · exact hfull
  · exact hreal

/-- Every plaintext of the loop is that of some offset inside the packet. -/
theorem mem_fragmentLoop {len maxPayload : Nat} {fragment : Nat → Bytes} {fuel start : Nat}
    {plain : Bytes} (h : plain ∈ fragmentLoop len maxPayload fragment fuel start) :
    ∃ offset, offset < len ∧ plain = fragment offset := by
  induction fuel generalizing start with
  | zero => cases h
  | succ fuel ih =>
      unfold fragmentLoop at h
      split at h
      next hmore =>
        rcases List.mem_cons.mp h with hfirst | hrest
        · exact ⟨start, hmore, hfirst⟩
        · exact ih hrest
      next => cases h

/-- `⌈len / maxPayload⌉`. -/
def fragmentCount (maxPayload len : Nat) : Nat := (len + maxPayload - 1) / maxPayload

theorem fragmentCount_succ {maxPayload len : Nat} (hpos : 0 < maxPayload)
    (h : maxPayload < len) :
    fragmentCount maxPayload len = fragmentCount maxPayload (len - maxPayload) + 1 := by
  unfold fragmentCount
  rw [← Nat.add_div_right _ hpos]
  congr 1
  omega

theorem fragmentCount_one {maxPayload len : Nat} (hpos : 0 < len)
    (h : len ≤ maxPayload) : fragmentCount maxPayload len = 1 := by
  unfold fragmentCount
  exact Nat.div_eq_of_lt_le (by omega) (by omega)

theorem fragmentCount_zero {maxPayload : Nat} (hpos : 0 < maxPayload) :
    fragmentCount maxPayload 0 = 0 := by
  unfold fragmentCount
  exact Nat.div_eq_of_lt (by omega)

/-- The loop runs over the multiples of the payload size. -/
theorem fragmentLoop_eq {len maxPayload : Nat} (hpos : 0 < maxPayload)
    (fragment : Nat → Bytes) (fuel offset : Nat) (hfuel : len - offset ≤ fuel) :
    fragmentLoop len maxPayload fragment fuel offset =
      (List.range (fragmentCount maxPayload (len - offset))).map fun k =>
        fragment (offset + k * maxPayload) := by
  induction fuel generalizing offset with
  | zero =>
      have hdone : len - offset = 0 := by omega
      rw [hdone, fragmentCount_zero hpos]
      rfl
  | succ fuel ih =>
      unfold fragmentLoop
      split
      next hmore =>
        rcases Nat.lt_or_ge maxPayload (len - offset) with hlong | hshort
        · have hchunk : chunkLen len maxPayload offset = maxPayload := if_pos hlong
          rw [hchunk, ih _ (by omega), fragmentCount_succ hpos hlong,
            List.range_succ_eq_map, List.map_cons, List.map_map, Nat.sub_sub]
          simp only [Nat.zero_mul, Nat.add_zero, Function.comp_def, Nat.succ_eq_add_one,
            Nat.add_mul, Nat.one_mul, Nat.add_assoc, Nat.add_comm maxPayload]
        · have hchunk : chunkLen len maxPayload offset = len - offset :=
            if_neg (Nat.not_lt.mpr hshort)
          rw [hchunk, ih _ (by omega), fragmentCount_one (by omega) hshort]
          have hend : len - (offset + (len - offset)) = 0 := by omega
          rw [hend, fragmentCount_zero hpos]
          simp
      next hdone =>
        have hzero : len - offset = 0 := by omega
        rw [hzero, fragmentCount_zero hpos]
        rfl

end Chamlon.Reassembly
