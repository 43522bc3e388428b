import Mathlib.Tactic
import Chamlon.Reassembly.Run

/-!
The reassembly table as what it is for: a partial map from packet ids to the
packets being put together. Which of the 256 entries a packet occupies does not
matter as long as no id occupies two. The code keeps it that way, and while there
is room its steps are those of the map.
-/

namespace Chamlon.Reassembly

open Config Memory

/-- Packets being reassembled, by id. -/
abbrev Store := UInt16 → Option ReassemblyEntry

/-- The entry that `find_or_create_entry` finds for a packet. -/
def storeOf (table : ReassemblyTable) : Store := fun id =>
  (Fin.find? fun i => (table i).isActive && (table i).packetId == id).map table

/-- No packet occupies two entries. -/
def UniqueIds (table : ReassemblyTable) : Prop :=
  ∀ i j, (table i).isActive = true → (table j).isActive = true →
    (table i).packetId = (table j).packetId → i = j

/-- The entry of a packet as the next fragment finds it. -/
def Store.entry (store : Store) (now : Int) (id : UInt16) : ReassemblyEntry :=
  match store id with
  | some entry => { entry with lastActivity := now }
  | none => .create now id

theorem Store.entry_lastActivity (store : Store) (now : Int) (id : UInt16) :
    (store.entry now id).lastActivity = now := by
  unfold Store.entry
  cases store id <;> rfl

/-- A fragment that fits is added to its packet; with the last fragment a packet
that has its length is written and forgotten. -/
def Store.file (store : Store) (now : Int) (header : TunnelHeader) (payload : Bytes)
    (h : header.fragmentOffset.toNat + payload.length ≤ maxPacketSize) :
    Store × List ReassemblyEvent :=
  let entry := (store.entry now header.packetId).fill header payload h
  if header.isLast && decide (entry.expectedLength ≤ entry.receivedBytes) then
    (Function.update store header.packetId none,
      [.tunWrite (entry.buffer.val.take entry.expectedLength) entry.expectedLength])
  else (Function.update store header.packetId (some entry), [])

theorem storeOf_eq_none_iff (table : ReassemblyTable) (id : UInt16) :
    storeOf table id = none ↔ ∀ i, (table i).isActive = true → (table i).packetId ≠ id := by
  rw [storeOf, Option.map_eq_none_iff, Fin.find?_eq_none_iff]
  simp

theorem storeOf_eq_some {table : ReassemblyTable} {id : UInt16} {entry : ReassemblyEntry}
    (h : storeOf table id = some entry) :
    ∃ i, (table i).isActive = true ∧ (table i).packetId = id ∧ table i = entry := by
  obtain ⟨i, hfound, hentry⟩ := Option.map_eq_some_iff.mp h
  have hmatch := (Fin.find?_eq_some_iff.mp hfound).1
  simp only [Bool.and_eq_true, beq_iff_eq] at hmatch
  exact ⟨i, hmatch.1, hmatch.2, hentry⟩

/-- This packet does not occupy two entries. -/
def UniqueAt (table : ReassemblyTable) (id : UInt16) : Prop :=
  ∀ i j, (table i).isActive = true → (table j).isActive = true →
    (table i).packetId = id → (table j).packetId = id → i = j

theorem UniqueIds.at {table : ReassemblyTable} (h : UniqueIds table) (id : UInt16) :
    UniqueAt table id :=
  fun i j hi hj hid hjd => h i j hi hj (hid.trans hjd.symm)

theorem uniqueAt_of_absent {table : ReassemblyTable} {id : UInt16}
    (h : ∀ i, (table i).isActive = true → (table i).packetId ≠ id) :
    UniqueAt table id :=
  fun i _ hi _ hid => absurd hid (h i hi)

theorem UniqueAt.storeOf_of_active {table : ReassemblyTable} {id : UInt16}
    (huniq : UniqueAt table id) {i : Fin maxReassemblyEntries}
    (hactive : (table i).isActive = true) (hid : (table i).packetId = id) :
    storeOf table id = some (table i) := by
  cases hstore : storeOf table id with
  | none => exact absurd hid ((storeOf_eq_none_iff table id).mp hstore i hactive)
  | some entry =>
      obtain ⟨j, hj, hjd, hentry⟩ := storeOf_eq_some hstore
      rw [← hentry, huniq j i hj hactive hjd hid]

theorem UniqueIds.storeOf_of_active {table : ReassemblyTable} (huniq : UniqueIds table)
    {i : Fin maxReassemblyEntries} (hactive : (table i).isActive = true) :
    storeOf table (table i).packetId = some (table i) :=
  (huniq.at _).storeOf_of_active hactive rfl

/-- A table without packets in progress. -/
theorem uniqueIds_of_inactive {table : ReassemblyTable}
    (h : ∀ i, (table i).isActive = false) : UniqueIds table := by
  intro i j hi
  rw [h i] at hi
  cases hi

theorem storeOf_of_inactive {table : ReassemblyTable}
    (h : ∀ i, (table i).isActive = false) : storeOf table = fun _ => none := by
  funext id
  rw [storeOf_eq_none_iff]
  intro i hi
  rw [h i] at hi
  cases hi

section Update

variable {table : ReassemblyTable} {i : Fin maxReassemblyEntries} {id : UInt16}
  {entry : ReassemblyEntry}

/-- The entry `i` belongs to the packet or is free, and no other entry belongs to
the packet. -/
def Owns (table : ReassemblyTable) (i : Fin maxReassemblyEntries) (id : UInt16) : Prop :=
  ((table i).isActive = true → (table i).packetId = id) ∧
    ∀ j, j ≠ i → (table j).isActive = true → (table j).packetId ≠ id

theorem UniqueIds.update (huniq : UniqueIds table) (howns : Owns table i id)
    (hid : entry.packetId = id) : UniqueIds (Function.update table i entry) := by
  intro a b ha hb hsame
  by_cases hai : a = i
  · by_cases hbi : b = i
    · rw [hai, hbi]
    · rw [Function.update_of_ne hbi] at hb hsame
      rw [hai, Function.update_self, hid] at hsame
      exact absurd hsame.symm (howns.2 b hbi hb)
  · rw [Function.update_of_ne hai] at ha hsame
    by_cases hbi : b = i
    · rw [hbi, Function.update_self, hid] at hsame
      exact absurd hsame (howns.2 a hai ha)
    · rw [Function.update_of_ne hbi] at hb hsame
      exact huniq a b ha hb hsame

theorem Owns.uniqueAt_update (howns : Owns table i id) (entry : ReassemblyEntry) :
    UniqueAt (Function.update table i entry) id := by
  have hself : ∀ j, (Function.update table i entry j).isActive = true →
      (Function.update table i entry j).packetId = id → j = i := by
    intro j hj hjd
    by_contra hji
    rw [Function.update_of_ne hji] at hj hjd
    exact howns.2 j hji hj hjd
  intro a b ha hb had hbd
  rw [hself a ha had, hself b hb hbd]

theorem storeOf_update_other (howns : Owns table i id) (hid : entry.packetId = id)
    {other : UInt16} (hother : other ≠ id) :
    storeOf (Function.update table i entry) other = storeOf table other := by
  have hkept : ∀ j, (table j).isActive = true → (table j).packetId = other →
      Function.update table i entry j = table j := by
    intro j hj hjd
    refine Function.update_of_ne ?_ _ _
    rintro rfl
    exact hother (hjd.symm.trans (howns.1 hj))
  have hscan : (fun j => (Function.update table i entry j).isActive &&
      (Function.update table i entry j).packetId == other) =
      fun j => (table j).isActive && (table j).packetId == other := by
    funext j
    by_cases hji : j = i
    · rw [hji, Function.update_self, hid]
      rw [beq_false_of_ne hother.symm, Bool.and_false]
      cases hi : (table i).isActive with
      | false => rfl
      | true => rw [howns.1 hi, beq_false_of_ne hother.symm, Bool.and_false]
    · rw [Function.update_of_ne hji]
  unfold storeOf
  rw [hscan]
  cases hfound : Fin.find? fun j => (table j).isActive && (table j).packetId == other with
  | none => rfl
  | some j =>
      have hmatch := (Fin.find?_eq_some_iff.mp hfound).1
      simp only [Bool.and_eq_true, beq_iff_eq] at hmatch
      rw [Option.map_some, Option.map_some, hkept j hmatch.1 hmatch.2]

/-- Writing the entry of a packet updates the map at its id. -/
theorem storeOf_update (howns : Owns table i id) (hid : entry.packetId = id) :
    storeOf (Function.update table i entry) =
      Function.update (storeOf table) id (if entry.isActive then some entry else none) := by
  funext other
  by_cases hother : other = id
  · rw [hother, Function.update_self]
    split
    next hactive =>
      have hlookup := (howns.uniqueAt_update entry).storeOf_of_active
        (i := i) (by rw [Function.update_self]; exact hactive)
        (by rw [Function.update_self]; exact hid)
      rwa [Function.update_self] at hlookup
    next hinactive =>
      rw [storeOf_eq_none_iff]
      intro j hj
      by_cases hji : j = i
      · rw [hji, Function.update_self] at hj
        exact absurd hj hinactive
      · rw [Function.update_of_ne hji] at hj ⊢
        exact howns.2 j hji hj
  · rw [Function.update_of_ne hother, storeOf_update_other howns hid hother]

end Update

theorem ReassemblyEntry.fill_packetId (entry : ReassemblyEntry) (header : TunnelHeader)
    (payload : Bytes) (h : header.fragmentOffset.toNat + payload.length ≤ maxPacketSize) :
    (entry.fill header payload h).packetId = entry.packetId := rfl

theorem ReassemblyEntry.fill_isActive (entry : ReassemblyEntry) (header : TunnelHeader)
    (payload : Bytes) (h : header.fragmentOffset.toNat + payload.length ≤ maxPacketSize) :
    (entry.fill header payload h).isActive = entry.isActive := rfl

theorem ReassemblyEntry.fill_expectedLength (entry : ReassemblyEntry)
    (header : TunnelHeader) (payload : Bytes)
    (h : header.fragmentOffset.toNat + payload.length ≤ maxPacketSize) :
    (entry.fill header payload h).expectedLength =
      if entry.expectedLength = 0 then header.totalIpLen.toNat
      else entry.expectedLength := rfl

theorem ReassemblyEntry.fill_receivedBytes (entry : ReassemblyEntry)
    (header : TunnelHeader) (payload : Bytes)
    (h : header.fragmentOffset.toNat + payload.length ≤ maxPacketSize) :
    (entry.fill header payload h).receivedBytes =
      (entry.receivedBytes + payload.length) % 2 ^ 64 := rfl

theorem ReassemblyEntry.fill_buffer (entry : ReassemblyEntry) (header : TunnelHeader)
    (payload : Bytes) (h : header.fragmentOffset.toNat + payload.length ≤ maxPacketSize) :
    (entry.fill header payload h).buffer.val =
      memcpy entry.buffer.val header.fragmentOffset.toNat payload := rfl

theorem storeOf_entry (table : ReassemblyTable) (now : Int) (id : UInt16) :
    ((storeOf table).entry now id).packetId = id ∧
      ((storeOf table).entry now id).isActive = true := by
  unfold Store.entry
  cases hstore : storeOf table id with
  | none => exact ⟨rfl, rfl⟩
  | some entry =>
      obtain ⟨i, hactive, hid, hentry⟩ := storeOf_eq_some hstore
      rw [← hentry]
      exact ⟨hid, hactive⟩

/-- `find_or_create_entry` puts the packet's entry where it belongs. -/
theorem findOrCreateEntry_owns {table next : ReassemblyTable} {now : Int} {id : UInt16}
    (huniq : UniqueAt table id) {i : Fin maxReassemblyEntries}
    (h : findOrCreateEntry now id table = some (i, next)) :
    Owns table i id ∧ next = Function.update table i ((storeOf table).entry now id) := by
  rcases findOrCreateEntry_cases h with ⟨hactive, hid, hnext⟩ | ⟨habsent, hfree, _, hnext⟩
  · have hstore : storeOf table id = some (table i) := huniq.storeOf_of_active hactive hid
    refine ⟨⟨fun _ => hid, fun j hji hj hjid => ?_⟩, by rw [hnext, Store.entry, hstore]⟩
    exact hji (huniq j i hj hactive hjid hid)
  · have hstore : storeOf table id = none := (storeOf_eq_none_iff table id).mpr habsent
    refine ⟨⟨fun hactive => ?_, fun j _ hj => habsent j hj⟩,
      by rw [hnext, Store.entry, hstore]⟩
    rw [hfree] at hactive
    cases hactive

section Refines

variable {table next : ReassemblyTable} {now : Int} (header : TunnelHeader)
  (payload : Bytes) {i : Fin maxReassemblyEntries}
  (hfind : findOrCreateEntry now header.packetId table = some (i, next))
  (hfits : header.fragmentOffset.toNat + payload.length ≤ maxPacketSize)

include hfind

/-- When an entry is found or made, it alone changes, and the events are those of
the map. -/
theorem storeFragment_eq_update (huniq : UniqueAt table header.packetId) :
    let outcome := storeFragment now header payload payload.length table
    let filed := (storeOf table).file now header payload hfits
    Owns table i header.packetId ∧ ∃ entry, entry.packetId = header.packetId ∧
      outcome.tableAfter table = Function.update table i entry ∧
      filed.1 = Function.update (storeOf table) header.packetId
        (if entry.isActive then some entry else none) ∧
      outcome.events = filed.2 := by
  obtain ⟨howns, hnext⟩ := findOrCreateEntry_owns huniq hfind
  obtain ⟨hid, hactive⟩ := storeOf_entry table now header.packetId
  have hentry : next i = (storeOf table).entry now header.packetId := by
    rw [hnext, Function.update_self]
  refine ⟨howns, ?_⟩
  rw [storeFragment_of_fits hfind hfits]
  dsimp only
  rw [hentry, hnext, Function.update_idem, Function.update_idem]
  unfold Store.file
  dsimp only
  have hfilled := ((storeOf table).entry now header.packetId).fill_packetId header payload
    hfits
  have hkept := ((storeOf table).entry now header.packetId).fill_isActive header payload
    hfits
  rw [hid] at hfilled
  rw [hactive] at hkept
  generalize ((storeOf table).entry now header.packetId).fill header payload hfits =
    entry at hfilled hkept ⊢
  split
  · exact ⟨{ entry with isActive := false }, hfilled, rfl, rfl, rfl⟩
  · exact ⟨entry, hfilled, rfl, by rw [if_pos hkept], rfl⟩

/-- When an entry is found or made, the table does what the map does. -/
theorem storeFragment_refines_at (huniq : UniqueAt table header.packetId) :
    let outcome := storeFragment now header payload payload.length table
    let filed := (storeOf table).file now header payload hfits
    (UniqueAt (outcome.tableAfter table) header.packetId ∧
        (UniqueIds table → UniqueIds (outcome.tableAfter table))) ∧
      storeOf (outcome.tableAfter table) = filed.1 ∧ outcome.events = filed.2 := by
  obtain ⟨howns, entry, hid, htable, hfiled, hevents⟩ :=
    storeFragment_eq_update header payload hfind hfits huniq
  dsimp only
  rw [htable, hfiled]
  exact ⟨⟨howns.uniqueAt_update entry, fun hall => hall.update howns hid⟩,
    storeOf_update howns hid, hevents⟩

end Refines

theorem storeFragment_refines {table next : ReassemblyTable} (huniq : UniqueIds table)
    {now : Int} (header : TunnelHeader) (payload : Bytes) {i : Fin maxReassemblyEntries}
    (hfind : findOrCreateEntry now header.packetId table = some (i, next))
    (hfits : header.fragmentOffset.toNat + payload.length ≤ maxPacketSize) :
    let outcome := storeFragment now header payload payload.length table
    let filed := (storeOf table).file now header payload hfits
    UniqueIds (outcome.tableAfter table) ∧ storeOf (outcome.tableAfter table) = filed.1 ∧
      outcome.events = filed.2 := by
  obtain ⟨⟨_, hids⟩, hresult⟩ :=
    storeFragment_refines_at header payload hfind hfits (huniq.at _)
  exact ⟨hids huniq, hresult⟩

section Sweep

variable {table : ReassemblyTable} {id : UInt16}

/-- The sweep drops this entry if it is active. -/
def ReassemblyEntry.timedOut (entry : ReassemblyEntry) (now : Int) : Bool :=
  decide (reassemblyTimeout < now - entry.lastActivity)

theorem sweep_of_active {now : Int} {i : Fin maxReassemblyEntries}
    (h : (sweepReassemblyTable now table i).isActive = true) :
    sweepReassemblyTable now table i = table i ∧ (table i).timedOut now = false := by
  unfold sweepReassemblyTable at h ⊢
  split at h
  · cases h
  next hkept =>
    rw [if_neg hkept]
    refine ⟨rfl, ?_⟩
    rw [h, Bool.true_and] at hkept
    exact Bool.eq_false_iff.mpr hkept

theorem sweep_of_not_timedOut {now : Int} {i : Fin maxReassemblyEntries}
    (h : (table i).timedOut now = false) :
    sweepReassemblyTable now table i = table i := by
  unfold ReassemblyEntry.timedOut at h
  unfold sweepReassemblyTable
  rw [h, Bool.and_false, if_neg Bool.false_ne_true]

theorem UniqueAt.sweep (h : UniqueAt table id) (now : Int) :
    UniqueAt (sweepReassemblyTable now table) id := by
  intro i j hi hj hid hjd
  obtain ⟨hsame, _⟩ := sweep_of_active hi
  obtain ⟨hsame', _⟩ := sweep_of_active hj
  rw [hsame] at hi hid
  rw [hsame'] at hj hjd
  exact h i j hi hj hid hjd

theorem UniqueIds.sweep (h : UniqueIds table) (now : Int) :
    UniqueIds (sweepReassemblyTable now table) :=
  fun i j hi hj hsame => ((h.at _).sweep now) i j hi hj rfl hsame.symm

/-- The sweep forgets the packets that have timed out. -/
theorem storeOf_sweep (h : UniqueAt table id) (now : Int) :
    storeOf (sweepReassemblyTable now table) id =
      (storeOf table id).filter fun entry => !entry.timedOut now := by
  cases hstore : storeOf table id with
  | none =>
      rw [storeOf_eq_none_iff] at hstore
      rw [Option.filter_none, storeOf_eq_none_iff]
      intro i hi
      obtain ⟨hsame, _⟩ := sweep_of_active hi
      rw [hsame] at hi ⊢
      exact hstore i hi
  | some entry =>
      obtain ⟨i, hactive, hid, hentry⟩ := storeOf_eq_some hstore
      cases hout : entry.timedOut now with
      | true =>
          rw [Option.filter_some_neg (by simp [hout]), storeOf_eq_none_iff]
          intro j hj hjd
          obtain ⟨hsame, hkept⟩ := sweep_of_active hj
          rw [hsame] at hj hjd
          rw [h j i hj hactive hjd hid, hentry, hout] at hkept
          cases hkept
      | false =>
          have hsame : sweepReassemblyTable now table i = table i :=
            sweep_of_not_timedOut (by rw [hentry]; exact hout)
          have hlookup := (h.sweep now).storeOf_of_active (i := i)
            (by rw [hsame]; exact hactive) (by rw [hsame]; exact hid)
          rw [Option.filter_some_pos (by simp [hout]), hlookup, hsame, hentry]

end Sweep

/-- While fewer than 256 packets are in progress there is a free entry. -/
theorem exists_inactive {table : ReassemblyTable} (huniq : UniqueIds table)
    (ids : Finset UInt16) (hids : ∀ i, (table i).isActive = true → (table i).packetId ∈ ids)
    (hcard : ids.card < maxReassemblyEntries) : ∃ i, (table i).isActive = false := by
  by_contra hfull
  simp only [not_exists, Bool.not_eq_false] at hfull
  have hcount := Finset.card_le_card_of_injOn (fun i => (table i).packetId)
    (fun i _ => hids i (hfull i))
    (fun i _ j _ hsame => huniq i j (hfull i) (hfull j) hsame)
    (s := (Finset.univ : Finset (Fin maxReassemblyEntries)))
  rw [Finset.card_univ, Fintype.card_fin] at hcount
  omega

end Chamlon.Reassembly
