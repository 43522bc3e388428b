import Mathlib.Tactic
import Chamlon.Reassembly.Progress

/-!
Fragmenter and reassembler together. A sender, client or server, cuts IP packets
into plaintexts, the network delivers some of them in any interleaving that
keeps the order within a packet, and the other program puts them together. What
it writes is decided by the deliveries alone: a packet is written when, and only
when, its last missing fragment arrives.
-/

namespace Chamlon.Reassembly

open Config Memory Machine

/-- An IP packet from the TUN device and the id it is sent under. -/
structure Packet where
  id : UInt16
  bytes : Bytes
  long : 20 ≤ bytes.length
  short : bytes.length ≤ 1600
deriving DecidableEq

def Side.peer : Side → Side
  | .server => .client
  | .client => .server

/-- The values of FRAG a program can have. -/
def Side.minFrag : Side → Int
  | .server => 64
  | .client => 300

/-- A program with the options of its session. The client leaves the session id
in a tunnel header uninitialised, so these bytes are part of it. -/
structure Sender where
  side : Side
  argv : Params
  uninit : UInt16 → Nat → Octets sessionIdLen
  frag_ge : side.minFrag ≤ argv.frag
  frag_le : argv.frag ≤ 1200

/-- The plaintexts a packet is sent in. -/
def Sender.fragments (sender : Sender) (order : Endian) (p : Packet) : List Bytes :=
  match sender.side with
  | .client => handleTunPacket order sender.argv (sender.uninit p.id) p.id p.bytes
  | .server => handleOutboundTunBuf order sender.argv p.id p.bytes

/-- A fragment, by packet and number, that arrives at some time. -/
structure Delivery where
  packet : Packet
  index : Nat
  now : Int

def Delivery.input (sender : Sender) (order : Endian) (d : Delivery) : Input :=
  .plain d.now ((sender.fragments order d.packet).getD d.index [])

/-- The fragments of a packet that arrived. -/
def arrived (ds : List Delivery) (p : Packet) : Finset Nat :=
  ((ds.filter fun d => d.packet = p).map Delivery.index).toFinset

/-- All fragments of the packet arrived. -/
def Complete (sender : Sender) (order : Endian) (ds : List Delivery) (p : Packet) : Prop :=
  ∀ k < (sender.fragments order p).length, k ∈ arrived ds p

instance (sender : Sender) (order : Endian) (ds : List Delivery) :
    DecidablePred (Complete sender order ds) := fun p =>
  inferInstanceAs (Decidable (∀ k < (sender.fragments order p).length, k ∈ arrived ds p))

/-- The packets that are incomplete while `d` is handled: a fragment has come,
perhaps just now, and not all had come before. -/
def incomplete (sender : Sender) (order : Endian) (packets : List Packet)
    (past : List Delivery) (d : Delivery) : List Packet :=
  packets.filter fun p =>
    (arrived (past ++ [d]) p).Nonempty ∧ ¬Complete sender order past p

/-- What the network may do: deliver fragments that were sent, those of a packet
in their order and never twice, while the table has room. -/
structure Delivers (sender : Sender) (order : Endian) (packets : List Packet)
    (ds : List Delivery) : Prop where
  ids : (packets.map Packet.id).Nodup
  sent : ∀ d ∈ ds, d.packet ∈ packets ∧
    d.index < (sender.fragments order d.packet).length
  ordered : ds.Pairwise fun a b => a.packet = b.packet → a.index < b.index
  room : ∀ past d rest, ds = past ++ d :: rest →
    (incomplete sender order packets past d).length ≤ maxReassemblyEntries

/-- `write(tun_fd, …)` of exactly this packet. -/
def Packet.write (p : Packet) : ReassemblyEvent := .tunWrite p.bytes p.bytes.length

/-- The payload size of a session. -/
def Sender.maxPayload (sender : Sender) : Nat := sender.argv.frag.toNat - tunnelHeaderLen

theorem Sender.frag_toNat (sender : Sender) :
    64 ≤ sender.argv.frag.toNat ∧ sender.argv.frag.toNat ≤ 1200 := by
  have hlow := sender.frag_ge
  have hhigh := sender.frag_le
  cases hside : sender.side with
  | server =>
      rw [hside, Side.minFrag] at hlow
      omega
  | client =>
      rw [hside, Side.minFrag] at hlow
      omega

theorem Sender.sizes (sender : Sender) (p : Packet) :
    Sizes sender.maxPayload p.bytes.length := by
  obtain ⟨hlow, hhigh⟩ := sender.frag_toNat
  have hlong := p.long
  refine ⟨?_, ?_, by omega, p.short⟩
  · simp only [Sender.maxPayload, tunnelHeaderLen]
    omega
  · simp only [Sender.maxPayload, tunnelHeaderLen]
    omega

/-- Both loops send one fragment per window of the packet. -/
theorem Sender.fragments_spec (sender : Sender) (order : Endian) (p : Packet) :
    (sender.fragments order p).length =
        fragmentCount sender.maxPayload p.bytes.length ∧
      ∀ k < fragmentCount sender.maxPayload p.bytes.length,
        FragmentOf order sender.maxPayload p.id p.bytes (k * sender.maxPayload)
          ((sender.fragments order p).getD k []) := by
  obtain ⟨hlow, hhigh⟩ := sender.frag_toNat
  have hheader : tunnelHeaderLen ≤ sender.argv.frag.toNat := by
    simp only [tunnelHeaderLen]
    omega
  have hbuffer : sender.argv.frag.toNat ≤ bufferSize := by
    simp only [bufferSize]
    omega
  have hpos := (sender.sizes p).payload_pos
  have hlong : ¬p.bytes.length < 20 := Nat.not_lt.mpr p.long
  have hloop : ∃ fragment : Nat → Bytes,
      sender.fragments order p = (List.range (fragmentCount sender.maxPayload
        p.bytes.length)).map (fun k => fragment (k * sender.maxPayload)) ∧
      ∀ offset, FragmentOf order sender.maxPayload p.id p.bytes offset
        (fragment offset) := by
    unfold Sender.fragments
    cases sender.side with
    | client =>
        refine ⟨_, ?_, fun offset =>
          clientFragment_of (sender.uninit p.id offset) hheader hbuffer⟩
        dsimp only
        rw [handleTunPacket, if_neg hlong,
          ← Sender.maxPayload, fragmentLoop_eq hpos _ _ _ (Nat.sub_le _ _)]
        simp only [Nat.zero_add, Nat.sub_zero]
    | server =>
        refine ⟨_, ?_, fun offset => serverFragment_of hheader hbuffer⟩
        dsimp only
        rw [handleOutboundTunBuf, if_neg hlong,
          ← Sender.maxPayload, fragmentLoop_eq hpos _ _ _ (Nat.sub_le _ _)]
        simp only [Nat.zero_add, Nat.sub_zero]
  obtain ⟨fragment, hfragments, hof⟩ := hloop
  rw [hfragments]
  refine ⟨by rw [List.length_map, List.length_range], fun k hk => ?_⟩
  rw [List.getD_eq_getElem?_getD, List.getElem?_map, List.getElem?_range hk]
  exact hof (k * sender.maxPayload)

/-- A sender's fragment is filed under the header and payload of its chunk. -/
theorem reassemblyStep_fragment {side : Side} {order : Endian} {stack : Nat → UInt8}
    {maxPayload : Nat} {id : UInt16} {buf plain : Bytes} {offset : Nat}
    (h : FragmentOf order maxPayload id buf offset plain) (now : Int)
    (table : ReassemblyTable) :
    reassemblyStep side order stack table (.plain now plain) =
      let outcome := storeFragment now (chunkHeader id buf.length maxPayload offset)
        (plainPayload plain) (plainPayload plain).length table
      (outcome.tableAfter table, outcome.events) := by
  rcases handlePlain_cases side order stack now plain table h.whole with
    ⟨hcontrol, _⟩ | ⟨_, hfragment⟩
  · rw [h.header, chunkHeader_isControl] at hcontrol
    cases hcontrol
  · rw [h.header] at hfragment
    unfold reassemblyStep
    dsimp only
    rw [hfragment]

/-- A fragment that finds or makes its entry, where the entry holds other fragments
of the same packet. The packet is written when the fragment completes it and is the
one with the highest number. -/
theorem Sender.reassemblyStep_cases (sender : Sender) (order : Endian) (side : Side)
    (stack : Nat → UInt8) {table next : ReassemblyTable} {now : Int} {p : Packet}
    {k : Nat} {seen : Finset Nat} {i : Fin maxReassemblyEntries}
    (huniq : UniqueAt table p.id)
    (hfind : findOrCreateEntry now p.id table = some (i, next))
    (hpart : PartOf sender.maxPayload p.bytes seen ((storeOf table).entry now p.id))
    (hk : k < fragmentCount sender.maxPayload p.bytes.length) (hnew : k ∉ seen)
    (hseen : seen ⊆ Finset.range (fragmentCount sender.maxPayload p.bytes.length)) :
    let result := reassemblyStep side order stack table
      (.plain now ((sender.fragments order p).getD k []))
    (UniqueAt result.1 p.id ∧ (UniqueIds table → UniqueIds result.1)) ∧
      ((insert k seen = Finset.range (fragmentCount sender.maxPayload p.bytes.length) ∧
          k + 1 = fragmentCount sender.maxPayload p.bytes.length ∧
          storeOf result.1 = Function.update (storeOf table) p.id none ∧
          result.2 = [p.write]) ∨
        ((insert k seen = Finset.range (fragmentCount sender.maxPayload p.bytes.length) →
            k + 1 ≠ fragmentCount sender.maxPayload p.bytes.length) ∧
          result.2 = [] ∧ ∃ entry,
            storeOf result.1 = Function.update (storeOf table) p.id (some entry) ∧
            entry.lastActivity = now ∧
            PartOf sender.maxPayload p.bytes (insert k seen) entry)) := by
  have hsizes := sender.sizes p
  have hfragment := (sender.fragments_spec order p).2 k hk
  generalize (sender.fragments order p).getD k [] = plain at hfragment ⊢
  have hcarries := hfragment.carries
  have hfits := hcarries.fits hsizes ((lt_fragmentCount_iff hsizes.payload_pos).mp hk) p.id
  rw [reassemblyStep_fragment hfragment]
  obtain ⟨hunique, hstore, hevents⟩ := storeFragment_refines_at
    (chunkHeader p.id p.bytes.length sender.maxPayload (k * sender.maxPayload))
    (plainPayload plain) hfind hfits huniq
  dsimp only
  refine ⟨hunique, ?_⟩
  by_cases hdone : insert k seen =
      Finset.range (fragmentCount sender.maxPayload p.bytes.length) ∧
      k + 1 = fragmentCount sender.maxPayload p.bytes.length
  · rw [Store.file_complete hsizes hpart hk hnew hcarries hfits hdone.1 hdone.2]
      at hstore hevents
    exact Or.inl ⟨hdone.1, hdone.2, hstore, hevents⟩
  · have hopen := not_and.mp hdone
    obtain ⟨entry, hfile, hnow, hentry⟩ :=
      Store.file_kept hsizes hpart hk hnew hcarries hfits hseen hopen
    rw [hfile] at hstore hevents
    exact Or.inr ⟨hopen, hevents, entry, hstore, hnow, hentry⟩

theorem mem_arrived {ds : List Delivery} {p : Packet} {k : Nat} :
    k ∈ arrived ds p ↔ ∃ d ∈ ds, d.packet = p ∧ d.index = k := by
  simp [arrived, and_assoc]

theorem arrived_append_self (past : List Delivery) (d : Delivery) :
    arrived (past ++ [d]) d.packet = insert d.index (arrived past d.packet) := by
  simp [arrived, List.filter_append]

theorem arrived_append_of_ne (past : List Delivery) {d : Delivery} {p : Packet}
    (h : p ≠ d.packet) : arrived (past ++ [d]) p = arrived past p := by
  simp [arrived, List.filter_append, h.symm]

section Run

variable {sender : Sender} {order : Endian} {packets : List Packet}

theorem complete_append_of_ne {past : List Delivery} {d : Delivery} {p : Packet}
    (h : p ≠ d.packet) :
    Complete sender order (past ++ [d]) p ↔ Complete sender order past p := by
  rw [Complete, arrived_append_of_ne past h, Complete]

theorem Delivers.id_injective {ds : List Delivery}
    (h : Delivers sender order packets ds) {p q : Packet} (hp : p ∈ packets)
    (hq : q ∈ packets) (hid : p.id = q.id) : p = q :=
  List.inj_on_of_nodup_map h.ids hp hq hid

theorem Delivers.arrived_subset {past rest : List Delivery}
    (h : Delivers sender order packets (past ++ rest)) (p : Packet) :
    arrived past p ⊆ Finset.range (fragmentCount sender.maxPayload p.bytes.length) := by
  intro k hk
  obtain ⟨d, hd, rfl, rfl⟩ := mem_arrived.mp hk
  rw [Finset.mem_range, ← (sender.fragments_spec order d.packet).1]
  exact (h.sent d (List.mem_append_left rest hd)).2

/-- The next fragment of a packet comes after those that arrived. -/
theorem Delivers.arrived_lt {past rest : List Delivery} {d : Delivery}
    (h : Delivers sender order packets (past ++ d :: rest)) {k : Nat}
    (hk : k ∈ arrived past d.packet) : k < d.index := by
  obtain ⟨e, he, hpacket, rfl⟩ := mem_arrived.mp hk
  exact (List.pairwise_append.mp h.ordered).2.2 e he d List.mem_cons_self hpacket

theorem complete_iff {ds : List Delivery} {p : Packet}
    (h : arrived ds p ⊆ Finset.range (fragmentCount sender.maxPayload p.bytes.length)) :
    Complete sender order ds p ↔
      arrived ds p = Finset.range (fragmentCount sender.maxPayload p.bytes.length) := by
  rw [Complete, (sender.fragments_spec order p).1]
  constructor
  · intro hall
    exact h.antisymm fun k hk => hall k (Finset.mem_range.mp hk)
  · intro hall k hk
    rw [hall]
    exact Finset.mem_range.mpr hk

section Next

variable {past rest : List Delivery} {d : Delivery}
  (h : Delivers sender order packets (past ++ d :: rest))

include h

theorem Delivers.index_lt :
    d.index < fragmentCount sender.maxPayload d.packet.bytes.length := by
  rw [← (sender.fragments_spec order d.packet).1]
  exact (h.sent d (by simp)).2

theorem Delivers.not_arrived : d.index ∉ arrived past d.packet :=
  fun hmem => lt_irrefl _ (h.arrived_lt hmem)

theorem Delivers.not_complete : ¬Complete sender order past d.packet :=
  fun hall => h.not_arrived (hall d.index (h.sent d (by simp)).2)

theorem Delivers.complete_append_iff :
    Complete sender order (past ++ [d]) d.packet ↔
      insert d.index (arrived past d.packet) =
        Finset.range (fragmentCount sender.maxPayload d.packet.bytes.length) := by
  have hsubset : arrived (past ++ [d]) d.packet ⊆
      Finset.range (fragmentCount sender.maxPayload d.packet.bytes.length) := by
    rw [arrived_append_self]
    exact Finset.insert_subset (Finset.mem_range.mpr h.index_lt)
      (h.arrived_subset d.packet)
  rw [complete_iff hsubset, arrived_append_self]

/-- A packet is completed by its last fragment: no number that came before can
be the highest one. -/
theorem Delivers.last_index (hall : insert d.index (arrived past d.packet) =
    Finset.range (fragmentCount sender.maxPayload d.packet.bytes.length)) :
    d.index + 1 = fragmentCount sender.maxPayload d.packet.bytes.length := by
  have hindex := h.index_lt
  have hmem : fragmentCount sender.maxPayload d.packet.bytes.length - 1 ∈
      insert d.index (arrived past d.packet) := by
    rw [hall, Finset.mem_range]
    omega
  rcases Finset.mem_insert.mp hmem with hsame | hbefore
  · omega
  · have hlt := h.arrived_lt hbefore
    omega

end Next

/-- The table holds the incomplete packets as far as they arrived, and the
complete ones were written. -/
structure Reassembling (sender : Sender) (order : Endian) (packets : List Packet)
    (past : List Delivery) (table : ReassemblyTable) (written : List Packet) : Prop where
  unique : UniqueIds table
  present : ∀ p ∈ packets, (arrived past p).Nonempty → ¬Complete sender order past p →
    ∃ entry, storeOf table p.id = some entry ∧
      PartOf sender.maxPayload p.bytes (arrived past p) entry
  absent : ∀ p ∈ packets, arrived past p = ∅ ∨ Complete sender order past p →
    storeOf table p.id = none
  foreign : ∀ id, id ∉ packets.map Packet.id → storeOf table id = none
  nodup : written.Nodup
  mem_written : ∀ p, p ∈ written ↔ p ∈ packets ∧ Complete sender order past p

theorem reassembling_start (sender : Sender) (order : Endian) (packets : List Packet) :
    Reassembling sender order packets [] emptyTable [] where
  unique := uniqueIds_of_inactive fun _ => rfl
  present p _ hsome := absurd hsome (by simp [arrived])
  absent p _ _ := by rw [storeOf_of_inactive fun _ => rfl]
  foreign id _ := by rw [storeOf_of_inactive fun _ => rfl]
  nodup := List.nodup_nil
  mem_written p := by
    have hpos := (sender.sizes p).len_pos
    have hfirst : 0 < (sender.fragments order p).length := by
      rw [(sender.fragments_spec order p).1,
        lt_fragmentCount_iff (sender.sizes p).payload_pos]
      omega
    have hnone : ¬Complete sender order [] p := fun hall =>
      absurd (hall 0 hfirst) (by simp [arrived])
    simp [hnone]

/-- The entry a fragment meets holds what arrived of its packet. -/
theorem Reassembling.entry {past : List Delivery} {table : ReassemblyTable}
    {written : List Packet} (h : Reassembling sender order packets past table written)
    {p : Packet} (hp : p ∈ packets) (hopen : ¬Complete sender order past p) (now : Int) :
    PartOf sender.maxPayload p.bytes (arrived past p) ((storeOf table).entry now p.id) := by
  unfold Store.entry
  rcases (arrived past p).eq_empty_or_nonempty with hnone | hsome
  · rw [h.absent p hp (Or.inl hnone), hnone]
    exact partOf_create sender.maxPayload p.bytes now p.id
  · obtain ⟨entry, hentry, hpart⟩ := h.present p hp hsome hopen
    rw [hentry]
    exact hpart.touch now

/-- An active entry belongs to a packet that is incomplete. -/
theorem Reassembling.active {past : List Delivery} {table : ReassemblyTable}
    {written : List Packet} (h : Reassembling sender order packets past table written)
    {i : Fin maxReassemblyEntries} (hactive : (table i).isActive = true) :
    ∃ p ∈ packets, p.id = (table i).packetId ∧ (arrived past p).Nonempty ∧
      ¬Complete sender order past p := by
  have hstore := h.unique.storeOf_of_active hactive
  have hknown : (table i).packetId ∈ packets.map Packet.id := by
    by_contra hforeign
    rw [h.foreign _ hforeign] at hstore
    cases hstore
  obtain ⟨p, hp, hid⟩ := List.mem_map.mp hknown
  refine ⟨p, hp, hid, ?_⟩
  by_contra hdone
  rw [← hid, h.absent p hp] at hstore
  · cases hstore
  · rw [not_and_or, Finset.not_nonempty_iff_eq_empty, not_not] at hdone
    exact hdone

/-- While the network leaves room, a fragment finds its entry or a free one. -/
theorem Reassembling.finds {past rest : List Delivery} {d : Delivery}
    {table : ReassemblyTable} {written : List Packet}
    (h : Reassembling sender order packets past table written)
    (hds : Delivers sender order packets (past ++ d :: rest)) (now : Int) :
    ∃ i next, findOrCreateEntry now d.packet.id table = some (i, next) := by
  have hpacket := (hds.sent d (by simp)).1
  have hopen := hds.not_complete
  rcases (arrived past d.packet).eq_empty_or_nonempty with hnone | hsome
  · -- A new packet: the others that are incomplete leave an entry free.
    have hself : d.packet ∈ incomplete sender order packets past d := by
      have harrived : (arrived (past ++ [d]) d.packet).Nonempty := by
        rw [arrived_append_self]
        exact Finset.insert_nonempty _ _
      simp only [incomplete, List.mem_filter, decide_eq_true_eq]
      exact ⟨hpacket, harrived, hopen⟩
    have hcount := List.length_erase_of_mem hself
    have hroom := hds.room past d rest rfl
    have hpositive := List.length_pos_of_mem hself
    obtain ⟨i, hfree⟩ := exists_inactive h.unique
      (((incomplete sender order packets past d).erase d.packet).map Packet.id).toFinset
      (fun i hactive => by
        obtain ⟨p, hp, hid, harrived, hmissing⟩ := h.active hactive
        have hne : p ≠ d.packet := by
          rintro rfl
          rw [hnone] at harrived
          exact Finset.not_nonempty_empty harrived
        rw [List.mem_toFinset, List.mem_map]
        refine ⟨p, (List.mem_erase_of_ne hne).mpr ?_, hid⟩
        simp only [incomplete, List.mem_filter, decide_eq_true_eq]
        rw [arrived_append_of_ne past hne]
        exact ⟨hp, harrived, hmissing⟩)
      (lt_of_le_of_lt (List.toFinset_card_le _) (by rw [List.length_map]; omega))
    exact findOrCreateEntry_isSome now d.packet.id table i fun hactive => by
      rw [hfree] at hactive
      cases hactive
  · obtain ⟨entry, hentry, _⟩ := h.present d.packet hpacket hsome hopen
    obtain ⟨i, _, hid, _⟩ := storeOf_eq_some hentry
    exact findOrCreateEntry_isSome now d.packet.id table i fun _ => hid

/-- The packets written so far, with the one that a delivery completes. -/
theorem Reassembling.mem_append {past rest : List Delivery} {d : Delivery}
    {table : ReassemblyTable} {written more : List Packet}
    (h : Reassembling sender order packets past table written)
    (hds : Delivers sender order packets (past ++ d :: rest))
    (hmore : ∀ p, p ∈ more ↔ p = d.packet ∧ Complete sender order (past ++ [d]) p)
    (p : Packet) :
    p ∈ written ++ more ↔ p ∈ packets ∧ Complete sender order (past ++ [d]) p := by
  rw [List.mem_append, h.mem_written, hmore]
  by_cases hp : p = d.packet
  · rw [hp]
    have hpacket := (hds.sent d (by simp)).1
    have hopen := hds.not_complete
    simp [hpacket, hopen]
  · rw [complete_append_of_ne hp]
    exact or_iff_left fun hself => hp hself.1

/-- The table after a fragment, when only the entry of its packet changed as the
deliveries say. -/
theorem Reassembling.advance {past rest : List Delivery} {d : Delivery}
    {table next : ReassemblyTable} {written more : List Packet}
    {result : Option ReassemblyEntry}
    (h : Reassembling sender order packets past table written)
    (hds : Delivers sender order packets (past ++ d :: rest)) (hunique : UniqueIds next)
    (hstore : storeOf next = Function.update (storeOf table) d.packet.id result)
    (hdone : Complete sender order (past ++ [d]) d.packet → result = none)
    (hpart : ¬Complete sender order (past ++ [d]) d.packet → ∃ entry,
      result = some entry ∧
        PartOf sender.maxPayload d.packet.bytes (arrived (past ++ [d]) d.packet) entry)
    (hnodup : more.Nodup)
    (hmore : ∀ p, p ∈ more ↔ p = d.packet ∧ Complete sender order (past ++ [d]) p) :
    Reassembling sender order packets (past ++ [d]) next (written ++ more) := by
  have hpacket := (hds.sent d (by simp)).1
  have hself : storeOf next d.packet.id = result := by
    rw [hstore, Function.update_self]
  have hother : ∀ p ∈ packets, p ≠ d.packet →
      storeOf next p.id = storeOf table p.id := by
    intro p hp hne
    rw [hstore, Function.update_of_ne fun hid => hne (hds.id_injective hp hpacket hid)]
  refine ⟨hunique, fun p hp hsome hmissing => ?_, fun p hp hclosed => ?_,
    fun id hforeign => ?_, ?_, h.mem_append hds hmore⟩
  · by_cases hp' : p = d.packet
    · rw [hp'] at hmissing ⊢
      obtain ⟨entry, hresult, hentry⟩ := hpart hmissing
      exact ⟨entry, hself.trans hresult, hentry⟩
    · rw [arrived_append_of_ne past hp'] at hsome ⊢
      rw [complete_append_of_ne hp'] at hmissing
      rw [hother p hp hp']
      exact h.present p hp hsome hmissing
  · by_cases hp' : p = d.packet
    · rw [hp', arrived_append_self] at hclosed
      rw [hp', hself]
      exact hdone (hclosed.resolve_left (Finset.insert_ne_empty _ _))
    · rw [arrived_append_of_ne past hp', complete_append_of_ne hp'] at hclosed
      rw [hother p hp hp']
      exact h.absent p hp hclosed
  · have hne : id ≠ d.packet.id := by
      rintro rfl
      exact hforeign (List.mem_map_of_mem hpacket)
    rw [hstore, Function.update_of_ne hne]
    exact h.foreign id hforeign
  · refine List.nodup_append.mpr ⟨h.nodup, hnodup, ?_⟩
    rintro p hwritten q hq rfl
    rw [((hmore p).mp hq).1] at hwritten
    exact hds.not_complete ((h.mem_written d.packet).mp hwritten).2

/-- One delivery: its packet is written if it is complete now, and nothing
otherwise. -/
theorem Reassembling.step {past rest : List Delivery} {d : Delivery}
    {table : ReassemblyTable} {written : List Packet} (side : Side)
    (stack : Nat → UInt8)
    (h : Reassembling sender order packets past table written)
    (hds : Delivers sender order packets (past ++ d :: rest)) :
    ∃ more,
      Reassembling sender order packets (past ++ [d])
        (reassemblyStep side order stack table (d.input sender order)).1
        (written ++ more) ∧
      (reassemblyStep side order stack table (d.input sender order)).2 =
        more.map Packet.write := by
  have hpacket := (hds.sent d (by simp)).1
  have hentry := h.entry hpacket hds.not_complete d.now
  obtain ⟨i, next, hfind⟩ := h.finds hds d.now
  obtain ⟨⟨_, hunique⟩, hcases⟩ := sender.reassemblyStep_cases order side stack
    (h.unique.at d.packet.id) hfind hentry hds.index_lt hds.not_arrived
    (hds.arrived_subset d.packet)
  rw [← Delivery.input] at hunique hcases
  rcases hcases with ⟨hall, _, hstore, hevents⟩ | ⟨hopen, hevents, entry, hstore, _, hpart⟩
  · have hcomplete := hds.complete_append_iff.mpr hall
    refine ⟨[d.packet], ?_, hevents⟩
    refine h.advance hds (hunique h.unique) hstore (fun _ => rfl)
      (fun hmissing => absurd hcomplete hmissing) (List.nodup_singleton _) fun p => ?_
    rw [List.mem_singleton]
    exact ⟨fun hp => ⟨hp, hp ▸ hcomplete⟩, fun hp => hp.1⟩
  · have hmissing : ¬Complete sender order (past ++ [d]) d.packet := by
      intro hdone
      have hall := hds.complete_append_iff.mp hdone
      exact hopen hall (hds.last_index hall)
    rw [← arrived_append_self] at hpart
    refine ⟨[], ?_, hevents⟩
    refine h.advance hds (hunique h.unique) hstore (fun hdone => absurd hdone hmissing)
      (fun _ => ⟨entry, rfl, hpart⟩) List.nodup_nil fun p => ?_
    constructor
    · intro hp
      cases hp
    · rintro ⟨hp, hdone⟩
      rw [hp] at hdone
      exact absurd hdone hmissing

/-- Over a whole delivery, from any point of it. -/
theorem Reassembling.run {past rest : List Delivery} {table : ReassemblyTable}
    {written : List Packet} (side : Side) (stack : Nat → UInt8)
    (h : Reassembling sender order packets past table written)
    (hds : Delivers sender order packets (past ++ rest)) :
    ∃ more,
      Reassembling sender order packets (past ++ rest)
        (run (reassemblyStep side order stack) table
          (rest.map (Delivery.input sender order))).1 (written ++ more) ∧
      (run (reassemblyStep side order stack) table
        (rest.map (Delivery.input sender order))).2 = more.map Packet.write := by
  induction rest generalizing past table written with
  | nil =>
      refine ⟨[], ?_, rfl⟩
      rw [List.append_nil, List.append_nil]
      exact h
  | cons d rest ih =>
      obtain ⟨first, hstep, hevents⟩ := h.step side stack hds
      have hsplit : past ++ d :: rest = past ++ [d] ++ rest := by simp
      rw [hsplit] at hds ⊢
      obtain ⟨more, hrest, hmore⟩ := ih hstep hds
      refine ⟨first ++ more, ?_, ?_⟩
      · rw [← List.append_assoc]
        exact hrest
      · rw [List.map_append, ← hevents, ← hmore]
        rfl

end Run

/-- For every client with FRAG from 300 to 1200 into the server and every server
with FRAG from 64 to 1200 into the client, whatever PAD and CBR are: the
reassembler writes the packets all of whose fragments arrive, each once and byte
for byte, and does nothing else. Packets have 20 to 1600 bytes and distinct ids;
the deliveries keep the order within a packet, repeat nothing, lose anything and
never leave more than 256 packets incomplete, the one being handled included. -/
theorem fragmentation_round_trip (sender : Sender) (order : Endian)
    (stack : Nat → UInt8) (packets : List Packet) (ds : List Delivery)
    (h : Delivers sender order packets ds) :
    let events := (run (reassemblyStep sender.side.peer order stack) emptyTable
      (ds.map (Delivery.input sender order))).2
    events.Perm ((packets.filter (Complete sender order ds)).map Packet.write) ∧
      .oversize ∉ events := by
  obtain ⟨written, hfinal, hevents⟩ :=
    (reassembling_start sender order packets).run sender.side.peer stack h
  dsimp only
  rw [hevents]
  constructor
  · apply List.Perm.map
    have hnodup : (packets.filter (Complete sender order ds)).Nodup :=
      (List.Nodup.of_map Packet.id h.ids).filter _
    refine (List.perm_ext_iff_of_nodup hfinal.nodup hnodup).mpr fun p => ?_
    rw [hfinal.mem_written, List.mem_filter, decide_eq_true_eq]
    rfl
  · simp [Packet.write]

/-- A padding client sends packets of 300 and 600 bytes in two and three
fragments. The fragments interleave and the middle one of the second packet is
lost: the first packet is written, the second is not. -/
theorem fragmentation_round_trip_lossy :
    let sender : Sender := ⟨.client, ⟨5, 300, 'N'.toUInt8, 'Y'.toUInt8⟩,
      fun _ _ => Octets.fill sessionIdLen 170, by decide, by decide⟩
    let p : Packet := ⟨1, List.replicate 300 7, by decide +kernel, by decide +kernel⟩
    let q : Packet := ⟨2, List.replicate 600 9, by decide +kernel, by decide +kernel⟩
    let ds : List Delivery := [⟨p, 0, 0⟩, ⟨q, 0, 0⟩, ⟨q, 2, 1⟩, ⟨p, 1, 2⟩]
    Delivers sender .little [p, q] ds ∧
      (run (reassemblyStep .server .little fun _ => 0) emptyTable
        (ds.map (Delivery.input sender .little))).2 = [p.write] := by
  intro sender p q ds
  have hds : Delivers sender .little [p, q] ds :=
    ⟨by decide, by decide +kernel, by decide +kernel,
      fun _ _ _ _ => (List.length_filter_le _ _).trans (by decide)⟩
  refine ⟨hds, ?_⟩
  have hwritten := (fragmentation_round_trip sender .little (fun _ => 0) [p, q] ds hds).1
  have hcomplete : [p, q].filter (Complete sender .little ds) = [p] := by decide +kernel
  rw [hcomplete] at hwritten
  exact List.perm_singleton.mp hwritten

end Chamlon.Reassembly
