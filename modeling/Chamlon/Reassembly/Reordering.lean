import Mathlib.Tactic
import Chamlon.Reassembly.RoundTrip

/-!
One packet whose fragments arrive in any order. An entry files bytes by offset and
counts them, so the order could be left to the network. But the code asks whether
the packet is complete only when it has just filed the fragment without the 0x8000
flag. The packet is written exactly when that fragment is the last to arrive;
otherwise the entry stays, full, until the sweep drops it.
-/

namespace Chamlon.Reassembly

open Config Memory Machine

/-- What happens at the receiver while the packet is under way. -/
inductive Arrival where
  | fragment (now : Int) (index : Nat)
  | sweep (now : Int)

def Arrival.input (sender : Sender) (order : Endian) (p : Packet) : Arrival → Input
  | .fragment now index => .plain now ((sender.fragments order p).getD index [])
  | .sweep now => .sweep now

/-- The numbers of the fragments in the order they arrive. -/
def fragmentIndices : List Arrival → List Nat
  | [] => []
  | .fragment _ index :: rest => index :: fragmentIndices rest
  | .sweep _ :: rest => fragmentIndices rest

/-- No sweep finds the entry timed out; `last` is when a fragment last came. -/
def InTime : Option Int → List Arrival → Prop
  | _, [] => True
  | _, .fragment now _ :: rest => InTime (some now) rest
  | none, .sweep _ :: rest => InTime none rest
  | some last, .sweep now :: rest => now - last ≤ reassemblyTimeout ∧ InTime (some last) rest

theorem InTime.sweep {last : Option Int} {now : Int} {rest : List Arrival}
    (h : InTime last (.sweep now :: rest)) :
    (∀ t ∈ last, now - t ≤ reassemblyTimeout) ∧ InTime last rest := by
  cases last with
  | none => exact ⟨by simp, h⟩
  | some last => exact ⟨by simpa using h.1, h.2⟩

/-- No entry is at work on the packet. -/
def Absent (table : ReassemblyTable) (p : Packet) : Prop :=
  ∀ i, (table i).isActive = true → (table i).packetId ≠ p.id

/-- Each fragment of the packet arrives once, in any order and before a timeout,
at a table that has a free entry for it. -/
structure Shuffled (sender : Sender) (order : Endian) (p : Packet)
    (table : ReassemblyTable) (arrivals : List Arrival) : Prop where
  fresh : Absent table p
  room : ∃ i, (table i).isActive = false
  once : (fragmentIndices arrivals).Perm
    (List.range (sender.fragments order p).length)
  inTime : InTime none arrivals

theorem absent_emptyTable (p : Packet) : Absent emptyTable p := by
  intro i hi
  cases hi

theorem Absent.sweep {table : ReassemblyTable} {p : Packet} (h : Absent table p)
    (now : Int) : Absent (sweepReassemblyTable now table) p := by
  intro i hi
  obtain ⟨hsame, _⟩ := sweep_of_active hi
  rw [hsame] at hi ⊢
  exact h i hi

/-- Sweeps write nothing and bring no packet back. -/
theorem Absent.run_sweeps {table : ReassemblyTable} {p : Packet} (h : Absent table p)
    (sender : Sender) (order : Endian) (side : Side) (stack : Nat → UInt8)
    {rest : List Arrival} (hrest : fragmentIndices rest = []) :
    let result := run (reassemblyStep side order stack) table
      (rest.map (Arrival.input sender order p))
    result.2 = [] ∧ Absent result.1 p := by
  induction rest generalizing table with
  | nil => exact ⟨rfl, h⟩
  | cons a rest ih =>
      cases a with
      | fragment now index => cases hrest
      | sweep now => exact ih (h.sweep now) hrest

/-- The numbers in `ks` are those below `count` that are still to be seen. -/
structure Missing (count : Nat) (seen : Finset Nat) (ks : List Nat) : Prop where
  within : seen ⊆ Finset.range count
  nodup : ks.Nodup
  new : ∀ k ∈ ks, k ∉ seen ∧ k < count
  all : seen ∪ ks.toFinset = Finset.range count

section Missing

variable {count k : Nat} {seen : Finset Nat} {ks : List Nat}

theorem missing_of_perm (h : ks.Perm (List.range count)) : Missing count ∅ ks where
  within := Finset.empty_subset _
  nodup := h.nodup_iff.mpr List.nodup_range
  new k hk := ⟨Finset.notMem_empty k, List.mem_range.mp (h.mem_iff.mp hk)⟩
  all := by
    ext k
    rw [Finset.empty_union, List.mem_toFinset, h.mem_iff, List.mem_range, Finset.mem_range]

theorem Missing.see (h : Missing count seen (k :: ks)) :
    Missing count (insert k seen) ks := by
  obtain ⟨hfresh, hnodup⟩ := List.nodup_cons.mp h.nodup
  obtain ⟨_, hcount⟩ := h.new k List.mem_cons_self
  refine ⟨Finset.insert_subset (Finset.mem_range.mpr hcount) h.within, hnodup, ?_, ?_⟩
  · intro m hm
    obtain ⟨hseen, hlt⟩ := h.new m (List.mem_cons_of_mem k hm)
    rw [Finset.mem_insert, not_or]
    exact ⟨⟨fun hsame => hfresh (hsame ▸ hm), hseen⟩, hlt⟩
  · rw [← h.all, List.toFinset_cons, Finset.insert_union, Finset.union_insert]

theorem Missing.eq_nil_iff (h : Missing count seen ks) :
    ks = [] ↔ seen = Finset.range count := by
  constructor
  · rintro rfl
    rw [← h.all, List.toFinset_nil, Finset.union_empty]
  · intro hfull
    rw [List.eq_nil_iff_forall_not_mem]
    intro k hk
    obtain ⟨hout, hlt⟩ := h.new k hk
    rw [hfull, Finset.mem_range] at hout
    exact hout hlt

/-- A number that is not the highest, or not the last to be seen, does not change which
one comes last. -/
theorem Missing.getLast?_iff (h : Missing count (insert k seen) ks)
    (hopen : insert k seen = Finset.range count → k ≠ count - 1) :
    (k :: ks).getLast? = some (count - 1) ↔ ks.getLast? = some (count - 1) := by
  cases ks with
  | nil =>
      have hmiddle := hopen (h.eq_nil_iff.mp rfl)
      simpa using hmiddle
  | cons m ms => rw [List.getLast?_cons_cons]

end Missing

/-- The table holds the fragments seen so far, the last of which came at `last`;
before the first it has a free entry. -/
def Holding (sender : Sender) (p : Packet) (seen : Finset Nat) :
    Option Int → ReassemblyTable → Prop
  | none, table => seen = ∅ ∧ Absent table p ∧ ∃ i, (table i).isActive = false
  | some last, table => UniqueAt table p.id ∧ ∃ entry, storeOf table p.id = some entry ∧
      entry.lastActivity = last ∧ PartOf sender.maxPayload p.bytes seen entry

section Steps

variable {sender : Sender} {p : Packet} {seen : Finset Nat} {last : Option Int}
  {table : ReassemblyTable}

theorem Holding.uniqueAt (h : Holding sender p seen last table) :
    UniqueAt table p.id := by
  cases last with
  | none => exact uniqueAt_of_absent h.2.1
  | some last => exact h.1

/-- The next fragment meets an entry with those before it. -/
theorem Holding.entry (h : Holding sender p seen last table) (now : Int) :
    PartOf sender.maxPayload p.bytes seen ((storeOf table).entry now p.id) := by
  unfold Store.entry
  cases last with
  | none =>
      obtain ⟨hseen, habsent, _⟩ := h
      rw [(storeOf_eq_none_iff table p.id).mpr habsent, hseen]
      exact partOf_create sender.maxPayload p.bytes now p.id
  | some last =>
      obtain ⟨_, entry, hentry, _, hpart⟩ := h
      rw [hentry]
      exact hpart.touch now

theorem Holding.finds (h : Holding sender p seen last table) (now : Int) :
    ∃ i next, findOrCreateEntry now p.id table = some (i, next) := by
  cases last with
  | none =>
      obtain ⟨_, _, i, hfree⟩ := h
      exact findOrCreateEntry_isSome now p.id table i fun hactive => by
        rw [hfree] at hactive
        cases hactive
  | some last =>
      obtain ⟨_, entry, hentry, _, _⟩ := h
      obtain ⟨i, _, hid, _⟩ := storeOf_eq_some hentry
      exact findOrCreateEntry_isSome now p.id table i fun _ => hid

theorem Holding.sweep (h : Holding sender p seen last table) {now : Int}
    (hearly : ∀ t ∈ last, now - t ≤ reassemblyTimeout) :
    Holding sender p seen last (sweepReassemblyTable now table) := by
  cases last with
  | none =>
      obtain ⟨hseen, habsent, i, hfree⟩ := h
      refine ⟨hseen, habsent.sweep now, i, ?_⟩
      by_contra hactive
      rw [Bool.not_eq_false] at hactive
      obtain ⟨hsame, _⟩ := sweep_of_active hactive
      rw [hsame, hfree] at hactive
      cases hactive
  | some last =>
      obtain ⟨huniq, entry, hentry, hlast, hpart⟩ := h
      have hkept : entry.timedOut now = false := by
        have hdue := hearly last rfl
        rw [ReassemblyEntry.timedOut, hlast, decide_eq_false_iff_not]
        omega
      refine ⟨huniq.sweep now, entry, ?_, hlast, hpart⟩
      rw [storeOf_sweep huniq, hentry, Option.filter_some_pos (by simp [hkept])]

/-- From any point on, when the fragments still to come are the ones missing. -/
theorem Holding.run (h : Holding sender p seen last table) (order : Endian) (side : Side)
    (stack : Nat → UInt8) {rest : List Arrival}
    (hmissing : Missing (fragmentCount sender.maxPayload p.bytes.length) seen
      (fragmentIndices rest))
    (htime : InTime last rest) :
    let result := run (reassemblyStep side order stack) table
      (rest.map (Arrival.input sender order p))
    if (fragmentIndices rest).getLast? =
        some (fragmentCount sender.maxPayload p.bytes.length - 1) then
      result.2 = [p.write] ∧ Absent result.1 p
    else result.2 = [] := by
  induction rest generalizing seen last table with
  | nil => rfl
  | cons a rest ih =>
      cases a with
      | sweep now =>
          obtain ⟨hearly, hrest⟩ := htime.sweep
          exact ih (h.sweep hearly) hmissing hrest
      | fragment now k =>
          obtain ⟨hk, hcount⟩ := hmissing.new k List.mem_cons_self
          have hlater := hmissing.see
          obtain ⟨i, next, hfind⟩ := h.finds now
          obtain ⟨⟨huniq, _⟩, hcases⟩ := sender.reassemblyStep_cases order side stack
            h.uniqueAt hfind (h.entry now) hcount hk hmissing.within
          simp only [List.map_cons, Arrival.input, Machine.run, fragmentIndices]
          generalize reassemblyStep side order stack table
            (.plain now ((sender.fragments order p).getD k [])) = stepped at *
          rcases hcases with ⟨hfull, hlast, hstore, hevents⟩ |
            ⟨hopen, hevents, entry, hstore, hnow, hpart⟩
          · -- Nothing is missing now, so only sweeps follow.
            have htail := hlater.eq_nil_iff.mpr hfull
            have habsent : Absent stepped.1 p := by
              rw [Absent, ← storeOf_eq_none_iff, hstore, Function.update_self]
            obtain ⟨hquiet, hfinal⟩ := habsent.run_sweeps sender order side stack htail
            have hnumber : k = fragmentCount sender.maxPayload p.bytes.length - 1 := by
              omega
            rw [htail, List.getLast?_singleton, if_pos (congrArg some hnumber), hevents,
              hquiet]
            exact ⟨rfl, hfinal⟩
          · -- The fragment was kept; what follows decides.
            have hholding : Holding sender p (insert k seen) (some now) stepped.1 :=
              ⟨huniq, entry, by rw [hstore, Function.update_self], hnow, hpart⟩
            have hrest := ih hholding hlater htime
            have hagree := hlater.getLast?_iff fun hall => by
              have hmiddle := hopen hall
              omega
            rw [hevents, List.nil_append]
            simpa only [hagree] using hrest

end Steps

/-- For every packet, sender and order of arrival: the receiver writes the packet
once, byte for byte, and frees its entry exactly when the fragment with the highest
number is the last to arrive. -/
theorem any_order_reassembles_iff (sender : Sender) (order : Endian)
    (stack : Nat → UInt8) (p : Packet) (table : ReassemblyTable) (arrivals : List Arrival)
    (h : Shuffled sender order p table arrivals) :
    let result := run (reassemblyStep sender.side.peer order stack) table
      (arrivals.map (Arrival.input sender order p))
    result.2 = [p.write] ∧ Absent result.1 p ↔
      (fragmentIndices arrivals).getLast? =
        some ((sender.fragments order p).length - 1) := by
  have hcount := (sender.fragments_spec order p).1
  have honce := h.once
  rw [hcount] at honce ⊢
  have hholding : Holding sender p ∅ none table := ⟨rfl, h.fresh, h.room⟩
  have hresult := hholding.run order sender.side.peer stack (missing_of_perm honce) h.inTime
  dsimp only at hresult ⊢
  split at hresult
  next hlast => exact ⟨fun _ => hlast, fun _ => hresult⟩
  next hlast =>
    refine ⟨fun hwritten => ?_, fun hlast' => absurd hlast' hlast⟩
    rw [hresult] at hwritten
    cases hwritten.1

/-- A packet of 60 bytes that a server with FRAG 64 sends in two fragments: in
order it is written. -/
theorem any_order_reassembles_in_order :
    let sender : Sender := ⟨.server, ⟨5, 64, 'N'.toUInt8, 'N'.toUInt8⟩,
      fun _ _ => Octets.zero sessionIdLen, by decide, by decide⟩
    let p : Packet := ⟨1, List.replicate 60 7, by decide +kernel, by decide +kernel⟩
    let arrivals : List Arrival := [.fragment 0 0, .sweep 5, .fragment 9 1]
    Shuffled sender .little p emptyTable arrivals ∧
      (run (reassemblyStep .client .little fun _ => 0) emptyTable
        (arrivals.map (Arrival.input sender .little p))).2 = [p.write] := by
  intro sender p arrivals
  have hshuffled : Shuffled sender .little p emptyTable arrivals :=
    ⟨absent_emptyTable p, ⟨0, rfl⟩, by decide +kernel,
      ⟨by decide, trivial⟩⟩
  have hlast : (fragmentIndices arrivals).getLast? =
      some ((sender.fragments .little p).length - 1) := by decide +kernel
  exact ⟨hshuffled, ((any_order_reassembles_iff sender .little (fun _ => 0) p emptyTable
    arrivals hshuffled).mpr hlast).1⟩

/-- The same packet with its two fragments swapped: all bytes arrive, nothing is
written and the entry stays active. -/
theorem swapped_fragments_lose_packet :
    let sender : Sender := ⟨.server, ⟨5, 64, 'N'.toUInt8, 'N'.toUInt8⟩,
      fun _ _ => Octets.zero sessionIdLen, by decide, by decide⟩
    let p : Packet := ⟨1, List.replicate 60 7, by decide +kernel, by decide +kernel⟩
    let arrivals : List Arrival := [.fragment 0 1, .fragment 0 0]
    let result := run (reassemblyStep .client .little fun _ => 0) emptyTable
      (arrivals.map (Arrival.input sender .little p))
    Shuffled sender .little p emptyTable arrivals ∧ result.2 = [] ∧
      (result.1 0).isActive = true := by
  intro sender p arrivals result
  refine ⟨⟨absent_emptyTable p, ⟨0, rfl⟩, by decide +kernel, trivial⟩, ?_, ?_⟩
  · decide +kernel
  · decide +kernel

end Chamlon.Reassembly
