import Mathlib.Tactic
import Chamlon.Reassembly.Integrity
import Chamlon.Reassembly.Isolation

/-!
What the plaintexts of a session carry, and what the receiving table makes of them when
they come in any order, with gaps, but never twice. Each fragment is then filed at most
once, so an entry only ever holds different fragments of one packet, and a packet that
was written cannot be written again: all of its fragments have come.

Nothing is asked of the order, of the time between fragments or of the room in the
table. These decide which packets are written, not what is written.
-/

namespace Chamlon.Tunnel

open Config Memory Machine Reassembly

/-- A fragment of an IP packet, by number, or a plaintext without payload: a dummy, a
keepalive or a notice. -/
inductive Cargo where
  | fragment (packet : Packet) (index : Nat)
  | control (plain : Bytes)
deriving DecidableEq

variable {sender : Sender} {order : Endian}

def Cargo.plain (sender : Sender) (order : Endian) : Cargo → Bytes
  | .fragment p k => (sender.fragments order p).getD k []
  | .control plain => plain

/-- The fragment exists, or the flags are those of a packet without payload. The longest
of these is the 1400 bytes of `send_disconnect`. -/
def Cargo.Valid (sender : Sender) (order : Endian) : Cargo → Prop
  | .fragment p k => k < (sender.fragments order p).length
  | .control plain => tunnelHeaderLen ≤ plain.length ∧ plain.length ≤ 1400 ∧
      (plainHeader order plain).isControl = true

instance (sender : Sender) (order : Endian) :
    (cargo : Cargo) → Decidable (cargo.Valid sender order)
  | .fragment _ _ => inferInstanceAs (Decidable (_ < _))
  | .control _ => inferInstanceAs (Decidable (_ ∧ _ ∧ _))

/-- What the receiver does to its table: it handles a plaintext that was accepted, or it
sweeps. -/
inductive Receipt where
  | plain (stack : Nat → UInt8) (now : Int) (cargo : Cargo)
  | sweep (now : Int)

def receiptStep (sender : Sender) (order : Endian) (table : ReassemblyTable) :
    Receipt → ReassemblyTable × List ReassemblyEvent
  | .plain stack now cargo => reassemblyStep sender.side.peer order stack table
      (.plain now (cargo.plain sender order))
  | .sweep now => (sweepReassemblyTable now table, [])

def carried (receipts : List Receipt) : List Cargo :=
  receipts.filterMap fun | .plain _ _ cargo => some cargo | .sweep _ => none

@[simp] theorem carried_append (first second : List Receipt) :
    carried (first ++ second) = carried first ++ carried second :=
  List.filterMap_append

theorem writesOf_append (first second : List ReassemblyEvent) :
    writesOf (first ++ second) = writesOf first ++ writesOf second :=
  List.filterMap_append

/-- Different fragments of different packets, where a packet is known by its id. -/
structure Distinct (cargo : List Cargo) : Prop where
  once : ∀ p k, cargo.count (.fragment p k) ≤ 1
  ids : ∀ p k q l, .fragment p k ∈ cargo → .fragment q l ∈ cargo → p.id = q.id → p = q

/-- Each entry holds fragments that came, all of one packet, and each packet that was
written has come completely. -/
structure Piecewise (sender : Sender) (came : List Cargo) (table : ReassemblyTable)
    (written : List Packet) : Prop where
  unique : UniqueIds table
  parts : ∀ id entry, storeOf table id = some entry → ∃ p seen, p.id = id ∧
    seen.Nonempty ∧ (∀ k ∈ seen, .fragment p k ∈ came) ∧
    seen ⊆ Finset.range (fragmentCount sender.maxPayload p.bytes.length) ∧
    PartOf sender.maxPayload p.bytes seen entry
  nodup : written.Nodup
  complete : ∀ p ∈ written, ∀ k < fragmentCount sender.maxPayload p.bytes.length,
    .fragment p k ∈ came

theorem piecewise_start (sender : Sender) {table : ReassemblyTable}
    (h : ∀ i, (table i).isActive = false) : Piecewise sender [] table [] where
  unique := uniqueIds_of_inactive h
  parts id entry hentry := by
    rw [storeOf_of_inactive h] at hentry
    cases hentry
  nodup := List.nodup_nil
  complete := nofun

section Steps

variable {came : List Cargo} {table : ReassemblyTable} {written : List Packet}

theorem Piecewise.mono (h : Piecewise sender came table written) {more : List Cargo}
    (hmore : came ⊆ more) : Piecewise sender more table written where
  unique := h.unique
  parts id entry hentry := by
    obtain ⟨p, seen, hid, hsome, hcame, hbelow, hpart⟩ := h.parts id entry hentry
    exact ⟨p, seen, hid, hsome, fun k hk => hmore (hcame k hk), hbelow, hpart⟩
  nodup := h.nodup
  complete p hp k hk := hmore (h.complete p hp k hk)

theorem Piecewise.sweep (h : Piecewise sender came table written) (now : Int) :
    Piecewise sender came (sweepReassemblyTable now table) written where
  unique := h.unique.sweep now
  parts id entry hentry := by
    rw [storeOf_sweep (h.unique.at _), Option.filter_eq_some_iff] at hentry
    exact h.parts id entry hentry.1
  nodup := h.nodup
  complete := h.complete

/-- A plaintext without payload leaves the table alone. -/
theorem receiptStep_control (stack : Nat → UInt8) (now : Int) {plain : Bytes}
    (hvalid : (Cargo.control plain).Valid sender order) :
    receiptStep sender order table (.plain stack now (.control plain)) = (table, []) := by
  obtain ⟨hheader, hfrag, hcontrol⟩ := hvalid
  have hbound : plain.length ≤ bufferSize := hfrag.trans (by decide)
  unfold receiptStep reassemblyStep
  dsimp only [Cargo.plain]
  rcases handlePlain_cases sender.side.peer order stack now plain table ⟨hheader, hbound⟩ with
    ⟨_, hnone⟩ | ⟨hfragment, _⟩
  · split
    next outcome houtcome => exact absurd houtcome (hnone outcome)
    next => rfl
  · rw [hcontrol] at hfragment
    cases hfragment

section Fragment

variable {p : Packet} {k : Nat}

/-- The entry that a fragment meets holds other fragments of its packet. -/
theorem Piecewise.entry (h : Piecewise sender came table written) (now : Int)
    (hids : ∀ q l, .fragment q l ∈ came → q.id = p.id → q = p) :
    ∃ seen, (∀ l ∈ seen, .fragment p l ∈ came) ∧
      seen ⊆ Finset.range (fragmentCount sender.maxPayload p.bytes.length) ∧
      PartOf sender.maxPayload p.bytes seen ((storeOf table).entry now p.id) := by
  unfold Store.entry
  cases hentry : storeOf table p.id with
  | none =>
      exact ⟨∅, nofun, Finset.empty_subset _,
        partOf_create sender.maxPayload p.bytes now p.id⟩
  | some entry =>
      obtain ⟨q, seen, hid, hsome, hcame, hbelow, hpart⟩ := h.parts p.id entry hentry
      obtain ⟨l, hl⟩ := hsome
      obtain rfl : q = p := hids q l (hcame l hl) hid
      exact ⟨seen, hcame, hbelow, hpart.touch now⟩

/-- Only the entry of the packet changed. -/
theorem Piecewise.advance (h : Piecewise sender came table written) {next : ReassemblyTable}
    {result : Option ReassemblyEntry} {more : List Packet} (hunique : UniqueIds next)
    (hstore : storeOf next = Function.update (storeOf table) p.id result)
    (hpart : ∀ entry ∈ result, ∃ seen, k ∈ seen ∧
      (∀ l ∈ seen, .fragment p l ∈ came ++ [.fragment p k]) ∧
      seen ⊆ Finset.range (fragmentCount sender.maxPayload p.bytes.length) ∧
      PartOf sender.maxPayload p.bytes seen entry)
    (hnodup : (written ++ more).Nodup)
    (hmore : ∀ q ∈ more, ∀ l < fragmentCount sender.maxPayload q.bytes.length,
      .fragment q l ∈ came ++ [.fragment p k]) :
    Piecewise sender (came ++ [.fragment p k]) next (written ++ more) := by
  have hbefore := h.mono (List.subset_append_left came [.fragment p k])
  refine ⟨hunique, fun id entry hentry => ?_, hnodup, fun q hq => ?_⟩
  · rw [hstore] at hentry
    by_cases hid : id = p.id
    · subst hid
      rw [Function.update_self] at hentry
      obtain ⟨seen, hk, hcame, hbelow, hof⟩ := hpart entry hentry
      exact ⟨p, seen, rfl, ⟨k, hk⟩, hcame, hbelow, hof⟩
    · rw [Function.update_of_ne hid] at hentry
      exact hbefore.parts id entry hentry
  · rcases List.mem_append.mp hq with hold | hlast
    · exact hbefore.complete q hold
    · exact hmore q hlast

/-- One more fragment, which has not come before: its packet is written or nothing is. -/
theorem Piecewise.fragment (h : Piecewise sender came table written) (order : Endian)
    (stack : Nat → UInt8) (now : Int)
    (hk : k < fragmentCount sender.maxPayload p.bytes.length)
    (hnew : .fragment p k ∉ came)
    (hids : ∀ q l, .fragment q l ∈ came → q.id = p.id → q = p) :
    let stepped := receiptStep sender order table (.plain stack now (.fragment p k))
    ∃ more : List Packet,
      writesOf stepped.2 = more.map (fun q => (q.bytes, q.bytes.length)) ∧
      Piecewise sender (came ++ [.fragment p k]) stepped.1 (written ++ more) := by
  dsimp only [receiptStep, Cargo.plain]
  cases hfind : findOrCreateEntry now p.id table with
  | none =>
      rw [reassemblyStep_of_full sender order _ stack hk hfind]
      refine ⟨[], rfl, ?_⟩
      rw [List.append_nil]
      exact h.mono (List.subset_append_left _ _)
  | some found =>
      obtain ⟨seen, hcame, hbelow, hpart⟩ := h.entry now hids
      have hunseen : k ∉ seen := fun hmem => hnew (hcame k hmem)
      obtain ⟨⟨_, hunique⟩, hresult⟩ := sender.reassemblyStep_cases order sender.side.peer
        stack (h.unique.at p.id) hfind hpart hk hunseen hbelow
      have hinserted : ∀ l ∈ insert k seen, .fragment p l ∈ came ++ [.fragment p k] := by
        intro l hl
        rcases Finset.mem_insert.mp hl with rfl | hold
        · exact List.mem_append_right _ (List.mem_singleton_self _)
        · exact List.mem_append_left _ (hcame l hold)
      rcases hresult with ⟨hall, _, hstore, hevents⟩ | ⟨_, hevents, entry, hstore, _, hentry⟩
      · refine ⟨[p], by rw [hevents]; rfl, h.advance (hunique h.unique) hstore nofun ?_ ?_⟩
        · exact List.Nodup.append h.nodup (List.nodup_singleton p) fun q hq hp =>
            hnew (h.complete p (List.mem_singleton.mp hp ▸ hq) k hk)
        · intro q hq l hl
          rw [List.mem_singleton.mp hq] at hl ⊢
          exact hinserted l (by rw [hall]; exact Finset.mem_range.mpr hl)
      · refine ⟨[], by rw [hevents]; rfl, h.advance (hunique h.unique) hstore ?_ ?_ nofun⟩
        · intro _ hmem
          obtain rfl := Option.some.inj hmem
          exact ⟨insert k seen, Finset.mem_insert_self k seen, hinserted,
            Finset.insert_subset (Finset.mem_range.mpr hk) hbelow, hentry⟩
        · rw [List.append_nil]
          exact h.nodup

end Fragment

/-- One receipt of cargo that has not come before. -/
theorem Piecewise.step (h : Piecewise sender came table written) (receipt : Receipt)
    (hvalid : ∀ c ∈ carried [receipt], c.Valid sender order)
    (hcargo : Distinct (came ++ carried [receipt])) :
    ∃ more : List Packet,
      writesOf (receiptStep sender order table receipt).2 =
        more.map (fun q => (q.bytes, q.bytes.length)) ∧
      Piecewise sender (came ++ carried [receipt]) (receiptStep sender order table receipt).1
        (written ++ more) := by
  cases receipt with
  | sweep now =>
      refine ⟨[], rfl, ?_⟩
      rw [List.append_nil, show carried [.sweep now] = [] from rfl, List.append_nil]
      exact h.sweep now
  | plain stack now cargo =>
      have hvalid' : cargo.Valid sender order := hvalid cargo (List.mem_singleton_self cargo)
      cases cargo with
      | control plain =>
          refine ⟨[], by rw [receiptStep_control stack now hvalid']; rfl, ?_⟩
          rw [receiptStep_control stack now hvalid', List.append_nil]
          exact h.mono (List.subset_append_left _ _)
      | fragment p k =>
          have hk : k < fragmentCount sender.maxPayload p.bytes.length := by
            rw [← (sender.fragments_spec order p).1]
            exact hvalid'
          refine h.fragment order stack now hk (fun hold => ?_) fun q l hq => ?_
          · have htwice := hcargo.once p k
            rw [show carried [.plain stack now (.fragment p k)] = [.fragment p k] from rfl,
              List.count_append, List.count_singleton_self] at htwice
            have hpos := List.count_pos_iff.mpr hold
            omega
          · exact hcargo.ids q l p k (List.mem_append_left _ hq)
              (List.mem_append_right _ (List.mem_singleton_self _))

theorem Distinct.left {first second : List Cargo} (h : Distinct (first ++ second)) :
    Distinct first where
  once p k := ((List.sublist_append_left first second).count_le _).trans (h.once p k)
  ids p k q l hp hq := h.ids p k q l (List.mem_append_left _ hp) (List.mem_append_left _ hq)

theorem Piecewise.run (h : Piecewise sender came table written) (receipts : List Receipt)
    (hvalid : ∀ c ∈ carried receipts, c.Valid sender order)
    (hcargo : Distinct (came ++ carried receipts)) :
    ∃ more : List Packet,
      writesOf (run (receiptStep sender order) table receipts).2 =
        more.map (fun q => (q.bytes, q.bytes.length)) ∧
      Piecewise sender (came ++ carried receipts)
        (Machine.run (receiptStep sender order) table receipts).1 (written ++ more) := by
  induction receipts generalizing came table written with
  | nil => exact ⟨[], rfl, by simpa [carried, Machine.run] using h⟩
  | cons receipt rest ih =>
      have hsplit : carried (receipt :: rest) = carried [receipt] ++ carried rest :=
        carried_append [receipt] rest
      rw [hsplit, ← List.append_assoc] at hcargo ⊢
      rw [hsplit] at hvalid
      obtain ⟨first, hfirst, hnext⟩ := h.step receipt
        (fun c hc => hvalid c (List.mem_append_left _ hc)) hcargo.left
      obtain ⟨others, hothers, hfinal⟩ := ih hnext
        (fun c hc => hvalid c (List.mem_append_right _ hc)) hcargo
      refine ⟨first ++ others, ?_, ?_⟩
      · rw [Machine.run, writesOf_append, hfirst, hothers, List.map_append]
      · rw [← List.append_assoc]
        exact hfinal

end Steps

/-- Whatever the order, the gaps and the time: what is written are different packets, each
byte for byte one whose fragments have come. -/
theorem receipts_write {table : ReassemblyTable} (hclean : ∀ i, (table i).isActive = false)
    (receipts : List Receipt) (hvalid : ∀ c ∈ carried receipts, c.Valid sender order)
    (hcargo : Distinct (carried receipts)) :
    ∃ written : List Packet, written.Nodup ∧
      (∀ p ∈ written, .fragment p 0 ∈ carried receipts) ∧
      writesOf (run (receiptStep sender order) table receipts).2 =
        written.map fun p => (p.bytes, p.bytes.length) := by
  obtain ⟨written, hwrites, hfinal⟩ :=
    (piecewise_start sender hclean).run receipts hvalid hcargo
  rw [List.nil_append, List.nil_append] at hfinal
  refine ⟨written, hfinal.nodup, fun p hp => hfinal.complete p hp 0 ?_, hwrites⟩
  rw [lt_fragmentCount_iff (sender.sizes p).payload_pos, Nat.zero_mul]
  exact (sender.sizes p).len_pos

end Chamlon.Tunnel
