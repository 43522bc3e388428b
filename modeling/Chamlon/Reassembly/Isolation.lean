import Mathlib.Tactic
import Chamlon.Reassembly.Fragmenter
import Chamlon.Reassembly.Store

/-!
How far a table shows what was in it before. Inactive entries never show: a new
packet starts from a zeroed entry. An active entry always can: it takes up room,
so there are fragments that complete a packet in a clean table and not in this
one.
-/

namespace Chamlon.Reassembly

open Config Memory

/-- The same entries are active and these are the same. -/
def SameActive (first second : ReassemblyTable) : Prop :=
  ∀ i, (first i).isActive = (second i).isActive ∧
    ((first i).isActive = true → first i = second i)

theorem sameActive_of_inactive {first second : ReassemblyTable}
    (hfirst : ∀ i, (first i).isActive = false)
    (hsecond : ∀ i, (second i).isActive = false) : SameActive first second := by
  intro i
  refine ⟨(hfirst i).trans (hsecond i).symm, fun hactive => ?_⟩
  rw [hfirst i] at hactive
  cases hactive

theorem SameActive.update {first second : ReassemblyTable} (h : SameActive first second)
    (i : Fin maxReassemblyEntries) (entry : ReassemblyEntry) :
    SameActive (Function.update first i entry) (Function.update second i entry) := by
  intro j
  by_cases hj : j = i
  · rw [hj, Function.update_self, Function.update_self]
    exact ⟨rfl, fun _ => rfl⟩
  · rw [Function.update_of_ne hj, Function.update_of_ne hj]
    exact h j

/-- Both tables answer `find_or_create_entry` with the same index and entry. -/
theorem SameActive.findOrCreateEntry {first second : ReassemblyTable}
    (h : SameActive first second) (now : Int) (id : UInt16) :
    (findOrCreateEntry now id first = none ∧ findOrCreateEntry now id second = none) ∨
    ∃ i entry,
      findOrCreateEntry now id first = some (i, Function.update first i entry) ∧
      findOrCreateEntry now id second = some (i, Function.update second i entry) := by
  have hfound : (fun i => (first i).isActive && (first i).packetId == id) =
      fun i => (second i).isActive && (second i).packetId == id := by
    funext i
    obtain ⟨hactive, hentry⟩ := h i
    rw [← hactive]
    cases hfirst : (first i).isActive with
    | false => rfl
    | true => rw [hentry hfirst]
  have hfree : (fun i => !(first i).isActive) = fun i => !(second i).isActive := by
    funext i
    rw [(h i).1]
  unfold Reassembly.findOrCreateEntry
  rw [hfound, hfree]
  split
  next i hi =>
    have hmatch := (Fin.find?_eq_some_iff.mp hi).1
    rw [Bool.and_eq_true, ← (h i).1] at hmatch
    rw [(h i).2 hmatch.1]
    exact Or.inr ⟨i, _, rfl, rfl⟩
  next =>
    split
    next i _ => exact Or.inr ⟨i, _, rfl, rfl⟩
    next => exact Or.inl ⟨rfl, rfl⟩

/-- Filing a fragment in both gives the same events. -/
theorem SameActive.storeFragment {first second : ReassemblyTable}
    (h : SameActive first second) (now : Int) (header : TunnelHeader) (payload : Bytes)
    (payloadLen : Nat) :
    let outcome := storeFragment now header payload payloadLen first
    let outcome' := storeFragment now header payload payloadLen second
    outcome.events = outcome'.events ∧
      SameActive (outcome.tableAfter first) (outcome'.tableAfter second) := by
  dsimp only
  unfold Reassembly.storeFragment
  rcases h.findOrCreateEntry now header.packetId with
    ⟨hfirst, hsecond⟩ | ⟨i, entry, hfirst, hsecond⟩
  · rw [hfirst, hsecond]
    exact ⟨rfl, h⟩
  · rw [hfirst, hsecond]
    dsimp only
    rw [Function.update_self, Function.update_self]
    split
    · exact ⟨rfl, (h.update i entry).update i _⟩
    split
    · split
      · exact ⟨rfl, (h.update i entry).update i _⟩
      · exact ⟨rfl, (h.update i entry).update i _⟩
    · exact ⟨rfl, h⟩

theorem SameActive.sweep {first second : ReassemblyTable} (h : SameActive first second)
    (now : Int) :
    SameActive (sweepReassemblyTable now first) (sweepReassemblyTable now second) := by
  intro i
  obtain ⟨hactive, hentry⟩ := h i
  unfold sweepReassemblyTable
  by_cases hfirst : (first i).isActive = true
  · rw [hentry hfirst]
    exact ⟨rfl, fun _ => rfl⟩
  · have hsecond : ¬(second i).isActive = true := by
      rw [← hactive]
      exact hfirst
    rw [if_neg (by simp [hfirst]), if_neg (by simp [hsecond])]
    exact h i

/-- A fragment of another packet leaves an active entry as it is. -/
theorem storeFragment_other (now : Int) (header : TunnelHeader) (payload : Bytes)
    (payloadLen : Nat) {table : ReassemblyTable} {j : Fin maxReassemblyEntries}
    (hactive : (table j).isActive = true) (hid : (table j).packetId ≠ header.packetId) :
    (storeFragment now header payload payloadLen table).tableAfter table j = table j := by
  rcases storeFragment_cases now header payload payloadLen table with
    ⟨_, hfull⟩ | ⟨i, next, hfind, hfiled⟩
  · rw [hfull]
    rfl
  · have hne : j ≠ i := by
      rintro rfl
      rcases findOrCreateEntry_cases hfind with ⟨_, hsame, _⟩ | ⟨_, hfree, _, _⟩
      · exact hid hsame
      · rw [hactive] at hfree
        cases hfree
    have hnext := findOrCreateEntry_other hfind hne
    generalize storeFragment now header payload payloadLen table = outcome at hfiled ⊢
    cases hfiled with
    | oversize => exact (Function.update_of_ne hne _ _).trans hnext
    | written => exact (Function.update_of_ne hne _ _).trans hnext
    | stored => exact (Function.update_of_ne hne _ _).trans hnext
    | badCopy => rfl

/-- A first and a last fragment of one byte each, for a packet of two bytes. -/
def openingHeader (id : UInt16) : TunnelHeader := ⟨id, 0, 2, 0x8000⟩

def closingHeader (id : UInt16) : TunnelHeader := ⟨id, 1, 2, 0⟩

theorem openingHeader_isLast (id : UInt16) : (openingHeader id).isLast = false := by
  rw [openingHeader, TunnelHeader.isLast]
  dsimp only
  decide

theorem closingHeader_isLast (id : UInt16) : (closingHeader id).isLast = true := by
  rw [closingHeader, TunnelHeader.isLast]
  dsimp only
  decide

theorem openingHeader_fits (id : UInt16) :
    (openingHeader id).fragmentOffset.toNat + ([1] : Bytes).length ≤ maxPacketSize := by
  rw [openingHeader]
  dsimp only
  decide

theorem closingHeader_fits (id : UInt16) :
    (closingHeader id).fragmentOffset.toNat + ([1] : Bytes).length ≤ maxPacketSize := by
  rw [closingHeader]
  dsimp only
  decide

/-- The table after the first fragments of these packets. -/
def openAll (now : Int) (table : ReassemblyTable) (ids : List UInt16) : ReassemblyTable :=
  ids.foldl (fun table id =>
    (storeFragment now (openingHeader id) [1] 1 table).tableAfter table) table

theorem openAll_cons (now : Int) (table : ReassemblyTable) (id : UInt16)
    (rest : List UInt16) :
    openAll now table (id :: rest) =
      openAll now ((storeFragment now (openingHeader id) [1] 1 table).tableAfter table)
        rest := List.foldl_cons ..

theorem openAll_other {now : Int} {table : ReassemblyTable} {ids : List UInt16}
    {j : Fin maxReassemblyEntries} (hactive : (table j).isActive = true)
    (hid : (table j).packetId ∉ ids) : openAll now table ids j = table j := by
  induction ids generalizing table with
  | nil => rfl
  | cons id rest ih =>
      have hrest := List.not_mem_of_not_mem_cons hid
      have hstep := storeFragment_other now (openingHeader id) [1] 1 hactive
        (List.ne_of_not_mem_cons hid)
      rw [openAll_cons, ih (by rw [hstep]; exact hactive)
        (by rw [hstep]; exact hrest), hstep]

/-- Next to an active entry there is no room for 256 other packets. -/
theorem openAll_refused (now : Int) {table : ReassemblyTable} {ids : List UInt16}
    {j : Fin maxReassemblyEntries} (hactive : (table j).isActive = true)
    (hid : (table j).packetId ∉ ids) (hnodup : ids.Nodup)
    (hlength : ids.length = maxReassemblyEntries) :
    ∃ id ∈ ids, ∀ i, (openAll now table ids i).isActive = true →
      (openAll now table ids i).packetId ≠ id := by
  by_contra hall
  simp only [not_exists, not_and, not_forall, ne_eq, not_not] at hall
  have hsubset : ids.toFinset ⊆
      (Finset.univ.erase j).image fun i => (openAll now table ids i).packetId := by
    intro id hmem
    obtain ⟨i, _, hi⟩ := hall id (List.mem_toFinset.mp hmem)
    refine Finset.mem_image.mpr ⟨i, Finset.mem_erase.mpr ⟨?_, Finset.mem_univ i⟩, hi⟩
    rintro rfl
    rw [openAll_other hactive hid] at hi
    rw [hi] at hid
    exact hid (List.mem_toFinset.mp hmem)
  have hcard := (Finset.card_le_card hsubset).trans Finset.card_image_le
  rw [List.toFinset_card_of_nodup hnodup, hlength,
    Finset.card_erase_of_mem (Finset.mem_univ j), Finset.card_univ, Fintype.card_fin] at hcard
  simp only [maxReassemblyEntries] at hcard
  omega

/-- The last fragment of a packet whose first one was refused writes nothing. -/
theorem closing_refused {now : Int} {table : ReassemblyTable} {id : UInt16}
    (h : ∀ i, (table i).isActive = true → (table i).packetId ≠ id) (bytes : Bytes)
    (length : Nat) :
    .tunWrite bytes length ∉ (storeFragment now (closingHeader id) [1] 1 table).events := by
  rcases storeFragment_cases now (closingHeader id) [1] 1 table with
    ⟨_, hfull⟩ | ⟨i, next, hfind, hfiled⟩
  · rw [hfull]
    simp [FragmentOutcome.events]
  · have hentry : next i = .create now id := by
      rcases findOrCreateEntry_cases hfind with ⟨hactive, hsame, _⟩ | ⟨_, _, _, hnext⟩
      · exact absurd hsame (h i hactive)
      · rw [hnext, Function.update_self]
        rfl
    generalize storeFragment now (closingHeader id) [1] 1 table = outcome at hfiled ⊢
    cases hfiled with
    | oversize => simp [FragmentOutcome.events]
    | written hlen hfits hlast hcomplete =>
        rw [hentry, ReassemblyEntry.fill_expectedLength,
          ReassemblyEntry.fill_receivedBytes] at hcomplete
        have hfresh : (ReassemblyEntry.create now id).expectedLength = 0 := rfl
        have htotal : (closingHeader id).totalIpLen.toNat = 2 := rfl
        have hnothing : (ReassemblyEntry.create now id).receivedBytes = 0 := rfl
        rw [if_pos hfresh, htotal, hnothing] at hcomplete
        simp at hcomplete
    | stored => simp [FragmentOutcome.events]
    | badCopy => simp [FragmentOutcome.events]

/-- Exactly these packets are in progress, each with its first fragment. -/
structure Opened (table : ReassemblyTable) (ids : List UInt16) : Prop where
  unique : UniqueIds table
  present : ∀ id ∈ ids, ∃ entry, storeOf table id = some entry ∧
    entry.expectedLength = 2 ∧ entry.receivedBytes = 1
  absent : ∀ id ∉ ids, storeOf table id = none

theorem opened_of_inactive {table : ReassemblyTable}
    (h : ∀ i, (table i).isActive = false) : Opened table [] where
  unique := uniqueIds_of_inactive h
  present _ hmem := nomatch hmem
  absent id _ := by rw [storeOf_of_inactive h]

theorem Opened.open {table : ReassemblyTable} {ids : List UInt16} (h : Opened table ids)
    (now : Int) {id : UInt16} (hnew : id ∉ ids) (hroom : ids.length < maxReassemblyEntries) :
    Opened ((storeFragment now (openingHeader id) [1] 1 table).tableAfter table)
      (ids ++ [id]) := by
  have hids : ∀ i, (table i).isActive = true → (table i).packetId ∈ ids.toFinset := by
    intro i hactive
    by_contra hmissing
    have hnone := h.absent _ fun hmem => hmissing (List.mem_toFinset.mpr hmem)
    rw [h.unique.storeOf_of_active hactive] at hnone
    cases hnone
  obtain ⟨free, hfree⟩ := exists_inactive h.unique ids.toFinset hids
    ((List.toFinset_card_le ids).trans_lt hroom)
  obtain ⟨i, next, hfind⟩ := findOrCreateEntry_isSome now id table free
    (fun hactive => by rw [hfree] at hactive; cases hactive)
  have hfits := openingHeader_fits id
  obtain ⟨hunique, hstore, _⟩ :=
    storeFragment_refines h.unique (openingHeader id) [1] hfind hfits
  have hfiled : ((storeOf table).file now (openingHeader id) [1] hfits).1 =
      Function.update (storeOf table) id
        (some ((ReassemblyEntry.create now id).fill (openingHeader id) [1] hfits)) := by
    have hentry : (storeOf table).entry now (openingHeader id).packetId =
        .create now id := by
      rw [Store.entry, show (openingHeader id).packetId = id from rfl, h.absent id hnew]
    unfold Store.file
    rw [hentry, openingHeader_isLast]
    rfl
  rw [hfiled] at hstore
  refine ⟨hunique, fun other hmem => ?_, fun other hmem => ?_⟩
  · have hlookup := congrFun hstore other
    by_cases hother : other = id
    · rw [hother, Function.update_self] at hlookup
      rw [hother]
      exact ⟨_, hlookup, rfl, rfl⟩
    · rw [Function.update_of_ne hother] at hlookup
      obtain ⟨entry, hentry, hdone⟩ := h.present other
        ((List.mem_append.mp hmem).resolve_right fun hlast =>
          hother (List.mem_singleton.mp hlast))
      exact ⟨entry, hlookup.trans hentry, hdone⟩
  · have hlookup := congrFun hstore other
    rw [List.mem_append, List.mem_singleton, not_or] at hmem
    rw [Function.update_of_ne hmem.2] at hlookup
    exact hlookup.trans (h.absent other hmem.1)

theorem Opened.openAll {table : ReassemblyTable} {ids : List UInt16}
    (h : Opened table ids) (now : Int) (more : List UInt16)
    (hnodup : (ids ++ more).Nodup) (hroom : (ids ++ more).length ≤ maxReassemblyEntries) :
    Opened (openAll now table more) (ids ++ more) := by
  induction more generalizing table ids with
  | nil =>
      rw [List.append_nil]
      exact h
  | cons id rest ih =>
      have hsplit : ids ++ id :: rest = ids ++ [id] ++ rest := by simp
      have hnew : id ∉ ids := fun hmem =>
        (List.nodup_append.mp hnodup).2.2 id hmem id List.mem_cons_self rfl
      have hlength : ids.length < maxReassemblyEntries := by
        simp only [List.length_append, List.length_cons] at hroom
        omega
      rw [hsplit] at hnodup hroom ⊢
      rw [openAll_cons]
      exact ih (h.open now hnew hlength) hnodup hroom

/-- The last fragment of a packet in progress completes it. -/
theorem Opened.closing {table : ReassemblyTable} {ids : List UInt16}
    (h : Opened table ids) (now : Int) {id : UInt16} (hmem : id ∈ ids) :
    ∃ bytes, (storeFragment now (closingHeader id) [1] 1 table).events =
      [.tunWrite bytes 2] := by
  obtain ⟨entry, hentry, hexpected, hreceived⟩ := h.present id hmem
  obtain ⟨j, _, hj, _⟩ := storeOf_eq_some hentry
  obtain ⟨i, next, hfind⟩ := findOrCreateEntry_isSome now id table j fun _ => hj
  have hfits := closingHeader_fits id
  obtain ⟨_, _, hevents⟩ :=
    storeFragment_refines h.unique (closingHeader id) [1] hfind hfits
  have hfound : (storeOf table).entry now (closingHeader id).packetId =
      { entry with lastActivity := now } := by
    rw [Store.entry, show (closingHeader id).packetId = id from rfl, hentry]
  have hlength : (({ entry with lastActivity := now } : ReassemblyEntry).fill
      (closingHeader id) [1] hfits).expectedLength = 2 := by
    rw [ReassemblyEntry.fill_expectedLength, if_neg (by rw [hexpected]; decide)]
    exact hexpected
  have hcount : (({ entry with lastActivity := now } : ReassemblyEntry).fill
      (closingHeader id) [1] hfits).receivedBytes = 2 := by
    rw [ReassemblyEntry.fill_receivedBytes, hreceived]
    decide
  unfold Store.file at hevents
  rw [hfound, closingHeader_isLast] at hevents
  dsimp only at hevents
  rw [hlength, hcount] at hevents
  exact ⟨_, hevents⟩

/-- The bytes and lengths written to the TUN device. -/
def writesOf (events : List ReassemblyEvent) : List (Bytes × Nat) :=
  events.filterMap fun
    | .tunWrite bytes length => some (bytes, length)
    | _ => none

theorem writesOf_eq_nil {events : List ReassemblyEvent}
    (h : ∀ bytes length, .tunWrite bytes length ∉ events) : writesOf events = [] := by
  rw [writesOf, List.filterMap_eq_nil_iff]
  intro event hmem
  cases event with
  | tunWrite bytes length => exact absurd hmem (h bytes length)
  | oversize => rfl
  | tableFull => rfl
  | badCopy => rfl

theorem opening_silent (now : Int) (id : UInt16) (table : ReassemblyTable) :
    writesOf (storeFragment now (openingHeader id) [1] 1 table).events = [] := by
  apply writesOf_eq_nil
  intro bytes length
  rcases storeFragment_cases now (openingHeader id) [1] 1 table with
    ⟨_, hfull⟩ | ⟨i, next, _, hfiled⟩
  · rw [hfull]
    simp [FragmentOutcome.events]
  · generalize storeFragment now (openingHeader id) [1] 1 table = outcome at hfiled ⊢
    cases hfiled with
    | oversize => simp [FragmentOutcome.events]
    | written hlen hfits hlast =>
        rw [openingHeader_isLast] at hlast
        cases hlast
    | stored => simp [FragmentOutcome.events]
    | badCopy => simp [FragmentOutcome.events]

/-- As many ids as a table has entries, all different from this one. -/
def otherIds (id : UInt16) : List UInt16 :=
  (List.range maxReassemblyEntries).map fun k => id + UInt16.ofNat (k + 1)

theorem otherIds_nodup (id : UInt16) : (otherIds id).Nodup := by
  apply List.Nodup.map_on _ List.nodup_range
  intro a ha b hb hsame
  rw [List.mem_range] at ha hb
  simp only [maxReassemblyEntries] at ha hb
  have hcancel := congrArg UInt16.toNat ((UInt16.add_right_inj id).mp hsame)
  rw [UInt16.toNat_ofNat_of_lt' (by simp only [UInt16.size]; omega),
    UInt16.toNat_ofNat_of_lt' (by simp only [UInt16.size]; omega)] at hcancel
  omega

theorem not_mem_otherIds (id : UInt16) : id ∉ otherIds id := by
  intro hmem
  obtain ⟨k, hk, hsame⟩ := List.mem_map.mp hmem
  rw [List.mem_range] at hk
  simp only [maxReassemblyEntries] at hk
  have hcancel := congrArg UInt16.toNat (UInt16.add_eq_left.mp hsame)
  rw [UInt16.toNat_ofNat_of_lt' (by simp only [UInt16.size]; omega)] at hcancel
  cases hcancel

end Chamlon.Reassembly
