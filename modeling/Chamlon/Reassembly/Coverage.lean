import Mathlib.Tactic
import Chamlon.Reassembly.Run

/-!
Which bytes of a written packet were really received. A history variable keeps,
for every entry, the byte indices stored since the entry was created. The code
itself keeps only their number, `received_bytes`, and a declared length it never
compares with the buffer, so a write can be too long or have holes. It is right
along every run in which the fragments of a packet do not overlap, and behind a
last fragment there is less padding than bytes are still missing.
-/

namespace Chamlon.Reassembly

open Config Memory Machine

/-- The table together with the byte indices each entry holds. -/
structure Coverage where
  table : ReassemblyTable
  stored : Fin maxReassemblyEntries → Finset Nat

def Coverage.empty : Coverage := ⟨emptyTable, fun _ => ∅⟩

/-- The bytes stored before a fragment: none when the entry is created for it. -/
def Coverage.before (c : Coverage) (i : Fin maxReassemblyEntries) : Finset Nat :=
  if (c.table i).isActive then c.stored i else ∅

/-- The range of the entry buffer a fragment is copied to. -/
def payloadRange (header : TunnelHeader) (payload : Bytes) : Finset Nat :=
  Finset.Ico header.fragmentOffset.toNat
    (header.fragmentOffset.toNat + payload.length)

/-- A write to the TUN device and the bytes stored in its entry. -/
structure Write where
  length : Nat
  stored : Finset Nat
deriving DecidableEq

def Coverage.record (c : Coverage) (next : ReassemblyTable)
    (i : Fin maxReassemblyEntries) (range : Finset Nat) : Coverage where
  table := next
  stored := Function.update c.stored i (c.before i ∪ range)

/-- What one filed fragment does to the history variable. -/
def Coverage.file (c : Coverage) (range : Finset Nat) :
    FragmentOutcome → Coverage × List Write
  | .stored next i => (c.record next i range, [])
  | .written next i _ length =>
      (c.record next i range, [⟨length, c.before i ∪ range⟩])
  | .oversize next _ => ({ c with table := next }, [])
  | .tableFull => (c, [])
  | .badCopy _ => (c, [])

/-- The reassembly machine with its history variable. -/
def coverageStep (side : Side) (order : Endian) (stack : Nat → UInt8)
    (c : Coverage) : Input → Coverage × List Write
  | .sweep now => ({ c with table := sweepReassemblyTable now c.table }, [])
  | .plain now bytes =>
      match handlePlain side order stack now bytes c.table with
      | .fragment outcome =>
          c.file (payloadRange (plainHeader order bytes) (plainPayload bytes)) outcome
      | _ => (c, [])

/-- The history variable only watches: table and writes are the machine's own. -/
theorem coverageStep_refines (side : Side) (order : Endian) (stack : Nat → UInt8)
    (c : Coverage) (input : Input) :
    (coverageStep side order stack c input).1.table =
        (reassemblyStep side order stack c.table input).1 ∧
      (coverageStep side order stack c input).2.map Write.length =
        (reassemblyStep side order stack c.table input).2.filterMap
          fun | .tunWrite _ length => some length | _ => none := by
  cases input with
  | sweep now => exact ⟨rfl, rfl⟩
  | plain now bytes =>
      simp only [coverageStep, reassemblyStep]
      cases handlePlain side order stack now bytes c.table with
      | fragment outcome => cases outcome <;> exact ⟨rfl, rfl⟩
      | _ => exact ⟨rfl, rfl⟩

/-- What a written packet has to satisfy. -/
def Write.Sound (w : Write) : Prop :=
  w.length ≤ maxPacketSize ∧ ∀ j < w.length, j ∈ w.stored

instance : DecidablePred Write.Sound := fun w =>
  inferInstanceAs (Decidable (w.length ≤ maxPacketSize ∧ ∀ j < w.length, j ∈ w.stored))

/-- The stored bytes past the declared length. -/
def padding (total : Nat) (stored : Finset Nat) : Finset Nat := stored.filter (total ≤ ·)

/-- The bytes below the declared length that are not stored. -/
def missing (total : Nat) (stored : Finset Nat) : Finset Nat := Finset.range total \ stored

/-- A fragment adds new bytes only, and behind a last fragment there is less padding than
bytes are missing, if any are. -/
def FragmentConforms (last : Bool) (total : Nat) (before range : Finset Nat) : Prop :=
  Disjoint before range ∧
    (last = true → missing total (before ∪ range) = ∅ ∨
      (padding total (before ∪ range)).card < (missing total (before ∪ range)).card)

instance (last : Bool) (total : Nat) (before range : Finset Nat) :
    Decidable (FragmentConforms last total before range) :=
  inferInstanceAs (Decidable (_ ∧ (_ → _)))

/-- The declared length an entry has once a fragment is filed in it. -/
def ReassemblyEntry.totalWith (entry : ReassemblyEntry) (header : TunnelHeader) : Nat :=
  if entry.expectedLength = 0 then header.totalIpLen.toNat else entry.expectedLength

/-- Every fragment that is filed conforms; control packets, refused fragments
and sweeps are free. -/
def Coverage.Conforms (order : Endian) (c : Coverage) : Input → Prop
  | .sweep _ => True
  | .plain now bytes =>
      let header := plainHeader order bytes
      header.isControl = false →
      header.fragmentOffset.toNat + (plainPayload bytes).length ≤ maxPacketSize →
      ∀ found ∈ findOrCreateEntry now header.packetId c.table,
        FragmentConforms header.isLast ((found.2 found.1).totalWith header)
          (c.before found.1) (payloadRange header (plainPayload bytes))

instance (order : Endian) (c : Coverage) : DecidablePred (c.Conforms order)
  | .sweep _ => inferInstanceAs (Decidable True)
  | .plain _ _ => inferInstanceAs (Decidable (_ → _ → ∀ found ∈ _, _))

/-- The byte count of an active entry is the number of stored indices, and all
of them lie in the buffer. -/
def Coverage.Counted (c : Coverage) : Prop :=
  ∀ i, (c.table i).isActive = true →
    (c.table i).receivedBytes = (c.stored i).card ∧
      c.stored i ⊆ Finset.range maxPacketSize

theorem Coverage.counted_empty : Coverage.empty.Counted := by
  intro i hactive
  cases hactive

theorem payloadRange_subset (header : TunnelHeader) (payload : Bytes)
    (h : header.fragmentOffset.toNat + payload.length ≤ maxPacketSize) :
    payloadRange header payload ⊆ Finset.range maxPacketSize := by
  intro j hj
  rw [payloadRange, Finset.mem_Ico] at hj
  rw [Finset.mem_range]
  omega

/-- The entry a fragment is filed in counts the bytes stored before it. -/
theorem Coverage.counted_found {c : Coverage} (hc : c.Counted) {now : Int}
    {id : UInt16} {i : Fin maxReassemblyEntries} {next : ReassemblyTable}
    (hfind : findOrCreateEntry now id c.table = some (i, next)) :
    (next i).receivedBytes = (c.before i).card ∧
      c.before i ⊆ Finset.range maxPacketSize := by
  rw [findOrCreateEntry_self hfind, Coverage.before]
  cases hactive : (c.table i).isActive with
  | true => exact hc i hactive
  | false => exact ⟨rfl, Finset.empty_subset _⟩

/-- Filling keeps the count right when the new bytes are new. -/
theorem Coverage.counted_fill {c : Coverage} (hc : c.Counted) {now : Int}
    {header : TunnelHeader} {payload : Bytes} {i : Fin maxReassemblyEntries}
    {next : ReassemblyTable}
    (hfind : findOrCreateEntry now header.packetId c.table = some (i, next))
    (hfits : header.fragmentOffset.toNat + payload.length ≤ maxPacketSize)
    (hnew : Disjoint (c.before i) (payloadRange header payload)) :
    ((next i).fill header payload hfits).receivedBytes =
        (c.before i ∪ payloadRange header payload).card ∧
      c.before i ∪ payloadRange header payload ⊆ Finset.range maxPacketSize := by
  obtain ⟨hcount, hsub⟩ := Coverage.counted_found hc hfind
  have hunion := Finset.union_subset hsub (payloadRange_subset header payload hfits)
  have hcard := Finset.card_union_of_disjoint hnew
  have hrange : (payloadRange header payload).card = payload.length := by
    rw [payloadRange, Nat.card_Ico, Nat.add_sub_cancel_left]
  have hle := Finset.card_le_card hunion
  rw [Finset.card_range] at hle
  refine ⟨?_, hunion⟩
  simp only [ReassemblyEntry.fill, hcount, ← hrange, ← hcard]
  exact Nat.mod_eq_of_lt (hle.trans_lt (by decide))

/-- Bytes below the declared length cannot be missing when as many bytes are
stored and the padding is smaller than the gap. -/
theorem covered_of_card_le {total : Nat} {stored : Finset Nat}
    (hfull : total ≤ stored.card)
    (hpad : missing total stored = ∅ ∨
      (padding total stored).card < (missing total stored).card) :
    Finset.range total ⊆ stored := by
  unfold missing padding at hpad
  rcases hpad with hcovered | hgap
  · exact Finset.sdiff_eq_empty_iff_subset.mp hcovered
  · have hsplit := Finset.card_filter_add_card_filter_not (s := stored) (total ≤ ·)
    have hbelow : stored.filter (¬total ≤ ·) = Finset.range total ∩ stored := by
      ext j
      simp only [Finset.mem_filter, Finset.mem_inter, Finset.mem_range, not_le]
      exact and_comm
    have hmissing := Finset.card_sdiff_add_card_inter (Finset.range total) stored
    rw [hbelow] at hsplit
    rw [Finset.card_range] at hmissing
    omega

/-- Recording a filled entry keeps the counts of the others. -/
theorem Coverage.counted_record {c : Coverage} (hc : c.Counted) {now : Int}
    {header : TunnelHeader} {i : Fin maxReassemblyEntries}
    {next : ReassemblyTable} (entry : ReassemblyEntry) (range : Finset Nat)
    (hfind : findOrCreateEntry now header.packetId c.table = some (i, next))
    (hentry : entry.isActive = true →
      entry.receivedBytes = (c.before i ∪ range).card ∧
        c.before i ∪ range ⊆ Finset.range maxPacketSize) :
    (c.record (Function.update next i entry) i range).Counted := by
  intro j hactive
  simp only [Coverage.record] at hactive ⊢
  by_cases hj : j = i
  · subst hj
    rw [Function.update_self] at hactive ⊢
    rw [Function.update_self]
    exact hentry hactive
  · rw [Function.update_of_ne hj] at hactive ⊢
    rw [Function.update_of_ne hj]
    rw [findOrCreateEntry_other hfind hj] at hactive ⊢
    exact hc j hactive

/-- Deactivating the entry of a refused fragment keeps the counts. -/
theorem Coverage.counted_refuse {c : Coverage} (hc : c.Counted) {now : Int}
    {header : TunnelHeader} {i : Fin maxReassemblyEntries} {next : ReassemblyTable}
    (hfind : findOrCreateEntry now header.packetId c.table = some (i, next)) :
    Coverage.Counted { c with
      table := Function.update next i { next i with isActive := false } } := by
  intro j hactive
  by_cases hj : j = i
  · subst hj
    simp only [Function.update_self] at hactive
    cases hactive
  · simp only [Function.update_of_ne hj, findOrCreateEntry_other hfind hj]
      at hactive ⊢
    exact hc j hactive

theorem Coverage.counted_sweep {c : Coverage} (hc : c.Counted) (now : Int) :
    Coverage.Counted { c with table := sweepReassemblyTable now c.table } := by
  intro i hactive
  simp only [sweepReassemblyTable] at hactive ⊢
  split at hactive
  · cases hactive
  · rename_i hkeep
    rw [if_neg hkeep]
    exact hc i hactive

/-- One conforming input keeps the counts right and writes only sound packets. -/
theorem coverageStep_sound (side : Side) (order : Endian) (stack : Nat → UInt8)
    (c : Coverage) (input : Input) (hc : c.Counted) (hwf : input.WellFormed)
    (hconf : c.Conforms order input) :
    (coverageStep side order stack c input).1.Counted ∧
      ∀ w ∈ (coverageStep side order stack c input).2, w.Sound := by
  cases input with
  | sweep now => exact ⟨Coverage.counted_sweep hc now, by simp [coverageStep]⟩
  | plain now bytes =>
      rcases handlePlain_cases side order stack now bytes c.table hwf with
        ⟨_, hskip⟩ | ⟨hctrl, hfile⟩
      · simp only [coverageStep]
        exact ⟨hc, by simp⟩
      · simp only [coverageStep, hfile]
        rcases storeFragment_cases now (plainHeader order bytes) (plainPayload bytes)
          (plainPayload bytes).length c.table with
          ⟨_, hout⟩ | ⟨i, next, hfind, hfiled⟩
        · rw [hout]
          exact ⟨hc, by simp [Coverage.file]⟩
        · generalize storeFragment now (plainHeader order bytes) (plainPayload bytes)
            (plainPayload bytes).length c.table = outcome at hfiled
          cases hfiled with
          | oversize hlarge =>
              exact ⟨Coverage.counted_refuse hc hfind, by simp [Coverage.file]⟩
          | badCopy hsmall hbad => exact ⟨hc, by simp [Coverage.file]⟩
          | stored hlen hfits hpart =>
              have hframe := hconf hctrl hfits (i, next) hfind
              exact ⟨Coverage.counted_record hc _ _ hfind fun _ =>
                Coverage.counted_fill hc hfind hfits hframe.1, by simp [Coverage.file]⟩
          | written hlen hfits hlast hfull =>
              have hframe := hconf hctrl hfits (i, next) hfind
              have hcount := Coverage.counted_fill hc hfind hfits hframe.1
              refine ⟨Coverage.counted_record hc _ _ hfind fun hactive =>
                absurd hactive Bool.false_ne_true, ?_⟩
              intro w hw
              rw [List.mem_singleton.mp hw]
              rw [hcount.1] at hfull
              -- No byte was counted twice, so the count is at most the size of the buffer.
              have hcard := Finset.card_le_card hcount.2
              rw [Finset.card_range] at hcard
              refine ⟨hfull.trans hcard, fun j hj => ?_⟩
              exact covered_of_card_le hfull (hframe.2 hlast) (Finset.mem_range.mpr hj)

/-- Along every run of conforming fragments, whatever else is interleaved, each
packet written to the TUN device fits the buffer and all its bytes were stored
since its entry was created. -/
theorem coverage_run_sound (side : Side) (order : Endian) (stack : Nat → UInt8)
    (inputs : List Input) (hwf : ∀ input ∈ inputs, input.WellFormed)
    (hconf : Along (coverageStep side order stack)
      (fun c input => c.Conforms order input) Coverage.empty inputs) :
    ∀ w ∈ (run (coverageStep side order stack) Coverage.empty inputs).2, w.Sound := by
  have hok := Along.and (coverageStep side order stack)
    (Along.of_forall (coverageStep side order stack) Input.WellFormed
      Coverage.empty inputs hwf) hconf
  exact run_forall_events _ _ Coverage.Counted Write.Sound
    (fun c input hc h => (coverageStep_sound side order stack c input hc h.1 h.2).1)
    (fun c input hc h => (coverageStep_sound side order stack c input hc h.1 h.2).2)
    Coverage.empty inputs Coverage.counted_empty hok

/-- A plaintext with the given header fields, an unused session id and a
payload, as a little-endian host lays it out. -/
def fragmentBytes (id offset total flags : UInt8) (payload : Bytes) : Bytes :=
  [id, 0, offset, 0, total, 0, flags, 0] ++ List.replicate 16 0 ++ payload

/-- A packet of three bytes in two fragments, the last one padded, with a sweep between. -/
def paddedPacket : List Input :=
  [.plain 0 ([1, 0, 0, 0, 3, 0, 0, 128] ++ List.replicate 16 0 ++ [7, 8]), .sweep 9,
    .plain 10 (fragmentBytes 1 2 3 0 [9, 0])]

theorem coverage_run_sound_padded :
    (∀ input ∈ paddedPacket, input.WellFormed) ∧
      Along (coverageStep .server .little fun _ => 0)
        (fun c input => c.Conforms .little input) Coverage.empty paddedPacket ∧
      (run (coverageStep .server .little fun _ => 0) Coverage.empty paddedPacket).2 =
        [⟨3, {0, 1, 2, 3}⟩] ∧
      (∀ w ∈ (run (coverageStep .server .little fun _ => 0)
        Coverage.empty paddedPacket).2, w.Sound) := by
  have hwf : ∀ input ∈ paddedPacket, input.WellFormed := by decide
  have hconf : Along (coverageStep .server .little fun _ => 0)
      (fun c input => c.Conforms .little input) Coverage.empty paddedPacket := by
    decide +kernel
  exact ⟨hwf, hconf, by decide +kernel,
    coverage_run_sound .server .little (fun _ => 0) paddedPacket hwf hconf⟩

/-- Two fragments that repeat one byte complete a packet of two, and two halves
of a declared length of 3000 make a write past the buffer. -/
theorem coverage_run_unsound :
    let holes : List Input :=
      [.plain 0 (fragmentBytes 1 0 2 0 [7]), .plain 0 (fragmentBytes 1 0 2 0 [7])]
    let half (flags : UInt8) : Input := .plain 0
      ([1, 0, 0, 0, 184, 11, 0, flags] ++ List.replicate 16 0 ++ List.replicate 1500 7)
    (∀ input ∈ holes ++ [half 128, half 0], input.WellFormed) ∧
      (∃ w ∈ (run (coverageStep .server .little fun _ => 0)
        Coverage.empty holes).2, w.length = 2 ∧ 1 ∉ w.stored) ∧
      (∃ w ∈ (run (coverageStep .client .little fun _ => 0)
        Coverage.empty [half 128, half 0]).2, maxPacketSize < w.length) := by
  decide +kernel

end Chamlon.Reassembly
