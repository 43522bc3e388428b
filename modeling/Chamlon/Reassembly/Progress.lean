import Mathlib.Tactic
import Chamlon.Reassembly.Fragmenter
import Chamlon.Reassembly.Store

/-!
One packet on its way through an entry. Fragment `k` of a packet is copied to
the `k`-th window of the buffer, and only the last window can hold padding. So
the windows seen so far are right, and the byte count lies between what the seen
chunks hold and what their windows hold. That is enough: the windows without the
last one never hold the whole packet.
-/

namespace Chamlon.Reassembly

open Config Memory

theorem lt_fragmentCount_iff {maxPayload len k : Nat} (hpos : 0 < maxPayload) :
    k < fragmentCount maxPayload len ↔ k * maxPayload < len := by
  rw [fragmentCount, Nat.lt_iff_add_one_le, Nat.le_div_iff_mul_le hpos, Nat.add_mul]
  omega

theorem chunkLen_eq_min (len maxPayload offset : Nat) :
    chunkLen len maxPayload offset = min maxPayload (len - offset) := by
  unfold chunkLen
  split <;> omega

/-- The first chunks hold their windows, up to the end of the packet. -/
theorem sum_chunkLen (len maxPayload n : Nat) :
    ∑ k ∈ Finset.range n, chunkLen len maxPayload (k * maxPayload) =
      min (n * maxPayload) len := by
  induction n with
  | zero => simp
  | succ n ih =>
      rw [Finset.sum_range_succ, ih, chunkLen_eq_min, Nat.add_mul]
      omega

/-- Sizes the two programs allow: fragments of at most 1200 bytes with their
header, packets of at most 1600 bytes. -/
structure Sizes (maxPayload len : Nat) : Prop where
  payload_pos : 0 < maxPayload
  payload_le : maxPayload ≤ 1176
  len_pos : 0 < len
  len_le : len ≤ 1600

/-- The window of every fragment lies in the buffer. -/
theorem Sizes.window_le {maxPayload len k : Nat} (h : Sizes maxPayload len)
    (hk : k * maxPayload < len) : k * maxPayload + maxPayload ≤ maxPacketSize := by
  have hlen := h.len_le
  have hpayload := h.payload_le
  simp only [maxPacketSize]
  rcases Nat.lt_or_ge k 2 with hfew | hmany
  · have hstart : k * maxPayload ≤ 1 * maxPayload :=
      Nat.mul_le_mul_right maxPayload (by omega)
    omega
  · have hstart : 2 * maxPayload ≤ k * maxPayload := Nat.mul_le_mul_right maxPayload hmany
    omega

theorem Sizes.toNat_offset {maxPayload len k : Nat} (h : Sizes maxPayload len)
    (hk : k * maxPayload < len) (id : UInt16) :
    (chunkHeader id len maxPayload (k * maxPayload)).fragmentOffset.toNat =
      k * maxPayload := by
  have hlen := h.len_le
  exact UInt16.toNat_ofNat_of_lt' (by simp only [UInt16.size]; omega)

theorem Sizes.toNat_total {maxPayload len : Nat} (h : Sizes maxPayload len) (id : UInt16)
    (offset : Nat) : (chunkHeader id len maxPayload offset).totalIpLen.toNat = len := by
  have hlen := h.len_le
  exact UInt16.toNat_ofNat_of_lt' (by simp only [UInt16.size]; omega)

theorem chunkHeader_isLast_iff (id : UInt16) (len maxPayload offset : Nat) :
    (chunkHeader id len maxPayload offset).isLast = true ↔
      offset + chunkLen len maxPayload offset = len := by
  unfold TunnelHeader.isLast chunkHeader
  dsimp only
  split
  next hend => simp [hend]
  next hmore => simp [hmore]

theorem chunkHeader_isControl (id : UInt16) (len maxPayload offset : Nat) :
    (chunkHeader id len maxPayload offset).isControl = false := by
  unfold TunnelHeader.isControl chunkHeader
  dsimp only
  split <;> decide

/-- The payload of fragment `k`: its chunk and perhaps zeros behind it. -/
def Carries (maxPayload : Nat) (buf : Bytes) (k : Nat) (payload : Bytes) : Prop :=
  payload.length ≤ maxPayload ∧ ∃ n, payload =
    slice buf (k * maxPayload) (chunkLen buf.length maxPayload (k * maxPayload)) ++
      List.replicate n 0

theorem FragmentOf.carries {order : Endian} {maxPayload : Nat} {id : UInt16}
    {buf plain : Bytes} {k : Nat}
    (h : FragmentOf order maxPayload id buf (k * maxPayload) plain) :
    Carries maxPayload buf k (plainPayload plain) := ⟨h.fits, h.payload⟩

/-- No fragment trips the size check. -/
theorem Carries.fits {maxPayload : Nat} {buf payload : Bytes} {k : Nat}
    (h : Carries maxPayload buf k payload) (hsizes : Sizes maxPayload buf.length)
    (hk : k * maxPayload < buf.length) (id : UInt16) :
    (chunkHeader id buf.length maxPayload (k * maxPayload)).fragmentOffset.toNat +
      payload.length ≤ maxPacketSize := by
  rw [hsizes.toNat_offset hk]
  exact (Nat.add_le_add_left h.1 _).trans (hsizes.window_le hk)

theorem Carries.chunkLen_le {maxPayload : Nat} {buf payload : Bytes} {k : Nat}
    (h : Carries maxPayload buf k payload) :
    chunkLen buf.length maxPayload (k * maxPayload) ≤ payload.length := by
  obtain ⟨_, n, hpayload⟩ := h
  rw [hpayload, List.length_append, length_chunk]
  exact Nat.le_add_right _ _

/-- The payload agrees with the packet as far as the packet goes. -/
theorem Carries.getElem? {maxPayload : Nat} {buf payload : Bytes} {k x : Nat}
    (h : Carries maxPayload buf k payload)
    (hx : x < chunkLen buf.length maxPayload (k * maxPayload)) :
    payload[x]? = buf[k * maxPayload + x]? := by
  obtain ⟨_, n, hpayload⟩ := h
  rw [hpayload, List.getElem?_append_left (by rw [length_chunk]; exact hx),
    getElem?_slice, if_pos hx]

/-- The entry holds these fragments of the packet. -/
structure PartOf (maxPayload : Nat) (buf : Bytes) (seen : Finset Nat)
    (entry : ReassemblyEntry) : Prop where
  declared : entry.expectedLength = 0 ∨ entry.expectedLength = buf.length
  atLeast : ∑ k ∈ seen, chunkLen buf.length maxPayload (k * maxPayload) ≤
    entry.receivedBytes
  atMost : entry.receivedBytes ≤ seen.card * maxPayload
  bytes : ∀ x < buf.length, x / maxPayload ∈ seen → entry.buffer.val[x]? = buf[x]?

theorem partOf_create (maxPayload : Nat) (buf : Bytes) (now : Int) (id : UInt16) :
    PartOf maxPayload buf ∅ (.create now id) where
  declared := Or.inl rfl
  atLeast := Nat.zero_le _
  atMost := Nat.zero_le _
  bytes _ _ hseen := absurd hseen (Finset.notMem_empty _)

theorem PartOf.touch {maxPayload : Nat} {buf : Bytes} {seen : Finset Nat}
    {entry : ReassemblyEntry} (h : PartOf maxPayload buf seen entry) (now : Int) :
    PartOf maxPayload buf seen { entry with lastActivity := now } :=
  ⟨h.declared, h.atLeast, h.atMost, h.bytes⟩

/-- Without one of its fragments a packet has less than its length, padding
included. -/
theorem PartOf.receivedBytes_lt {maxPayload : Nat} {buf : Bytes} {seen : Finset Nat}
    {entry : ReassemblyEntry} (h : PartOf maxPayload buf seen entry)
    (hsizes : Sizes maxPayload buf.length)
    (hseen : seen ⊂ Finset.range (fragmentCount maxPayload buf.length)) :
    entry.receivedBytes < buf.length := by
  have hcard := Finset.card_lt_card hseen
  rw [Finset.card_range] at hcard
  exact h.atMost.trans_lt ((lt_fragmentCount_iff hsizes.payload_pos).mp hcard)

/-- With all of its fragments a packet has its length and its bytes. -/
theorem PartOf.whole {maxPayload : Nat} {buf : Bytes} {entry : ReassemblyEntry}
    (h : PartOf maxPayload buf
      (Finset.range (fragmentCount maxPayload buf.length)) entry)
    (hsizes : Sizes maxPayload buf.length) :
    buf.length ≤ entry.receivedBytes ∧ entry.buffer.val.take buf.length = buf := by
  have hpos := hsizes.payload_pos
  constructor
  · have hend : buf.length ≤ fragmentCount maxPayload buf.length * maxPayload := by
      by_contra hshort
      rw [Nat.not_le, ← lt_fragmentCount_iff hpos] at hshort
      exact lt_irrefl _ hshort
    have hleast := h.atLeast
    rw [sum_chunkLen, min_eq_right hend] at hleast
    exact hleast
  · apply List.ext_getElem?
    intro x
    rw [List.getElem?_take]
    split
    next hx =>
      refine h.bytes x hx (Finset.mem_range.mpr ?_)
      rw [lt_fragmentCount_iff hpos]
      exact (Nat.div_mul_le_self x maxPayload).trans_lt hx
    next hx => rw [List.getElem?_eq_none (Nat.le_of_not_lt hx)]

section Fill

variable {maxPayload : Nat} {buf payload : Bytes} {seen : Finset Nat} {k : Nat}
  {entry : ReassemblyEntry} {id : UInt16}

/-- The first declared length is the packet's, and later ones do not change it. -/
theorem PartOf.fill_expectedLength (h : PartOf maxPayload buf seen entry)
    (hsizes : Sizes maxPayload buf.length)
    (hfits : (chunkHeader id buf.length maxPayload
      (k * maxPayload)).fragmentOffset.toNat + payload.length ≤ maxPacketSize) :
    (entry.fill (chunkHeader id buf.length maxPayload (k * maxPayload)) payload
      hfits).expectedLength = buf.length := by
  rw [ReassemblyEntry.fill_expectedLength, hsizes.toNat_total]
  rcases h.declared with hzero | hlen
  · rw [if_pos hzero]
  · rw [if_neg (by rw [hlen]; exact hsizes.len_pos.ne'), hlen]

/-- The byte count does not wrap. -/
theorem PartOf.fill_receivedBytes (h : PartOf maxPayload buf seen entry)
    (hsizes : Sizes maxPayload buf.length)
    (hseen : seen.card < fragmentCount maxPayload buf.length)
    (hcarries : Carries maxPayload buf k payload)
    (hfits : (chunkHeader id buf.length maxPayload
      (k * maxPayload)).fragmentOffset.toNat + payload.length ≤ maxPacketSize) :
    (entry.fill (chunkHeader id buf.length maxPayload (k * maxPayload)) payload
      hfits).receivedBytes = entry.receivedBytes + payload.length := by
  have hbefore := (lt_fragmentCount_iff hsizes.payload_pos).mp hseen
  have hlen := hsizes.len_le
  have hmax := hsizes.payload_le
  have hpart := h.atMost
  have hpayload := hcarries.1
  rw [ReassemblyEntry.fill_receivedBytes]
  exact Nat.mod_eq_of_lt (by omega)

/-- The new window is right and the others stay as they were. -/
theorem PartOf.fill_bytes (h : PartOf maxPayload buf seen entry)
    (hsizes : Sizes maxPayload buf.length) (hk : k * maxPayload < buf.length)
    (hnew : k ∉ seen) (hcarries : Carries maxPayload buf k payload)
    (hfits : (chunkHeader id buf.length maxPayload
      (k * maxPayload)).fragmentOffset.toNat + payload.length ≤ maxPacketSize)
    {x : Nat} (hx : x < buf.length) (hwindow : x / maxPayload ∈ insert k seen) :
    (entry.fill (chunkHeader id buf.length maxPayload (k * maxPayload)) payload
      hfits).buffer.val[x]? = buf[x]? := by
  have hinside : k * maxPayload ≤ entry.buffer.val.length := by
    rw [Octets.length_val]
    exact (Nat.le_add_right _ _).trans (hsizes.window_le hk)
  rw [ReassemblyEntry.fill_buffer, hsizes.toNat_offset hk,
    getElem?_memcpy _ _ _ _ hinside]
  rcases Finset.mem_insert.mp hwindow with hhere | hthere
  · -- The byte lies in the window just written.
    have hdiv := Nat.div_add_mod x maxPayload
    have hmod := Nat.mod_lt x hsizes.payload_pos
    rw [Nat.mul_comm, hhere] at hdiv
    have hchunk : x - k * maxPayload <
        chunkLen buf.length maxPayload (k * maxPayload) := by
      rw [chunkLen_eq_min]
      omega
    have hin := hchunk.trans_le hcarries.chunkLen_le
    rw [if_pos (by omega), hcarries.getElem? hchunk]
    congr 1
    omega
  · -- It lies in another window, which this payload does not reach.
    have hout : ¬(k * maxPayload ≤ x ∧ x < k * maxPayload + payload.length) := by
      rintro ⟨hlow, hhigh⟩
      have hsame : x / maxPayload = k := by
        refine Nat.div_eq_of_lt_le hlow ?_
        rw [Nat.add_mul, Nat.one_mul]
        exact hhigh.trans_le (Nat.add_le_add_left hcarries.1 _)
      rw [hsame] at hthere
      exact hnew hthere
    rw [if_neg hout]
    exact h.bytes x hx hthere

/-- One more fragment. -/
theorem PartOf.fill (h : PartOf maxPayload buf seen entry)
    (hsizes : Sizes maxPayload buf.length) (hk : k * maxPayload < buf.length)
    (hnew : k ∉ seen) (hseen : seen.card < fragmentCount maxPayload buf.length)
    (hcarries : Carries maxPayload buf k payload)
    (hfits : (chunkHeader id buf.length maxPayload
      (k * maxPayload)).fragmentOffset.toNat + payload.length ≤ maxPacketSize) :
    PartOf maxPayload buf (insert k seen)
      (entry.fill (chunkHeader id buf.length maxPayload (k * maxPayload)) payload
        hfits) where
  declared := Or.inr (h.fill_expectedLength hsizes hfits)
  atLeast := by
    rw [h.fill_receivedBytes hsizes hseen hcarries hfits, Finset.sum_insert hnew,
      Nat.add_comm]
    exact Nat.add_le_add h.atLeast hcarries.chunkLen_le
  atMost := by
    rw [h.fill_receivedBytes hsizes hseen hcarries hfits,
      Finset.card_insert_of_notMem hnew, Nat.add_mul, Nat.one_mul]
    exact Nat.add_le_add h.atMost hcarries.1
  bytes _ hx hwindow := h.fill_bytes hsizes hk hnew hcarries hfits hx hwindow

theorem chunkHeader_isLast_iff_succ (hsizes : Sizes maxPayload buf.length) (id : UInt16)
    (hk : k < fragmentCount maxPayload buf.length) :
    (chunkHeader id buf.length maxPayload (k * maxPayload)).isLast = true ↔
      k + 1 = fragmentCount maxPayload buf.length := by
  have hstart := (lt_fragmentCount_iff hsizes.payload_pos).mp hk
  have hnext : k + 1 < fragmentCount maxPayload buf.length ↔
      (k + 1) * maxPayload < buf.length := lt_fragmentCount_iff hsizes.payload_pos
  rw [Nat.add_mul] at hnext
  rw [chunkHeader_isLast_iff, chunkLen_eq_min]
  omega

section Filed

variable {store : Store} {now : Int} (hsizes : Sizes maxPayload buf.length)
  (hpart : PartOf maxPayload buf seen (store.entry now id))
  (hk : k < fragmentCount maxPayload buf.length) (hnew : k ∉ seen)
  (hcarries : Carries maxPayload buf k payload)
  (hfits : (chunkHeader id buf.length maxPayload (k * maxPayload)).fragmentOffset.toNat +
    payload.length ≤ maxPacketSize)

include hsizes hpart hk hnew hcarries

/-- The fragment that completes its packet has it written. -/
theorem Store.file_complete
    (hall : insert k seen = Finset.range (fragmentCount maxPayload buf.length))
    (hlast : k + 1 = fragmentCount maxPayload buf.length) :
    store.file now (chunkHeader id buf.length maxPayload (k * maxPayload)) payload hfits =
      (Function.update store id none, [.tunWrite buf buf.length]) := by
  have hstart := (lt_fragmentCount_iff hsizes.payload_pos).mp hk
  have hcard := Finset.card_lt_card
    (Finset.ssubset_iff.mpr ⟨k, hnew, hall.subset⟩)
  rw [Finset.card_range] at hcard
  have hexpected := hpart.fill_expectedLength hsizes hfits
  have hfilled := hpart.fill hsizes hstart hnew hcard hcarries hfits
  rw [hall] at hfilled
  obtain ⟨hreceived, hbytes⟩ := hfilled.whole hsizes
  unfold Store.file
  rw [show (chunkHeader id buf.length maxPayload (k * maxPayload)).packetId = id from rfl,
    (chunkHeader_isLast_iff_succ hsizes id hk).mpr hlast]
  dsimp only
  rw [hexpected, hbytes, if_pos (by simpa using hreceived)]

/-- Any other fragment is kept: it leaves the packet incomplete, or it is not the
one with which the code looks whether the packet is complete. -/
theorem Store.file_kept
    (hseen : seen ⊆ Finset.range (fragmentCount maxPayload buf.length))
    (hopen : insert k seen = Finset.range (fragmentCount maxPayload buf.length) →
      k + 1 ≠ fragmentCount maxPayload buf.length) :
    ∃ entry, store.file now (chunkHeader id buf.length maxPayload (k * maxPayload)) payload
        hfits = (Function.update store id (some entry), []) ∧
      entry.lastActivity = now ∧
      PartOf maxPayload buf (insert k seen) entry := by
  have hstart := (lt_fragmentCount_iff hsizes.payload_pos).mp hk
  have hsubset := Finset.insert_subset (Finset.mem_range.mpr hk) hseen
  have hcard := Finset.card_lt_card (Finset.ssubset_iff.mpr ⟨k, hnew, hsubset⟩)
  rw [Finset.card_range] at hcard
  have hexpected := hpart.fill_expectedLength hsizes hfits
  have hfilled := hpart.fill hsizes hstart hnew hcard hcarries hfits
  have hnotYet : ((chunkHeader id buf.length maxPayload (k * maxPayload)).isLast &&
      decide (buf.length ≤ ((store.entry now id).fill (chunkHeader id buf.length maxPayload
        (k * maxPayload)) payload hfits).receivedBytes)) = false := by
    by_cases hall : insert k seen = Finset.range (fragmentCount maxPayload buf.length)
    · have hmiddle : (chunkHeader id buf.length maxPayload (k * maxPayload)).isLast = false := by
        rw [Bool.eq_false_iff]
        exact fun hlast => hopen hall ((chunkHeader_isLast_iff_succ hsizes id hk).mp hlast)
      rw [hmiddle, Bool.false_and]
    · have hreceived := hfilled.receivedBytes_lt hsizes (hsubset.ssubset_of_ne hall)
      rw [decide_eq_false (Nat.not_le.mpr hreceived), Bool.and_false]
  have hnow := store.entry_lastActivity now id
  refine ⟨(store.entry now id).fill _ payload hfits, ?_, hnow, hfilled⟩
  unfold Store.file
  rw [show (chunkHeader id buf.length maxPayload (k * maxPayload)).packetId = id from rfl]
  dsimp only
  rw [hexpected, hnotYet, if_neg Bool.false_ne_true]

end Filed

end Fill

end Chamlon.Reassembly
