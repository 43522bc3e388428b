import Mathlib.Tactic
import Chamlon.ReplayHistory
import Chamlon.Sodium
import Chamlon.Tunnel.Cargo

/-!
The two ends of a session, seen from the tunnel. The sender has sealed cargo, each under
a number of its own: the log. The receiver keeps a journal: the plaintexts that passed its
window and opened, and its sweeps. In between is a network that may do anything.

The encryption enters with one assumption, that nothing opens which the peer has not
sealed under that number. From there on all is counting. The numbers of a journal are
different because a window lets each pass once, so different entries of the journal are
different entries of the log, and what the journal makes of the table is a matter of
distinct cargo.
-/

namespace Chamlon.Tunnel

open Config Memory Machine Reassembly ReplayWindow

/-- An entry of the journal. -/
inductive Intake where
  | plain (stack : Nat → UInt8) (now : Int) (seq : BitVec 64) (bytes : Bytes)
  | sweep (now : Int)

/-- The numbers of a journal, in order. -/
def numbers (journal : List Intake) : List (BitVec 64) :=
  journal.filterMap fun | .plain _ _ seq _ => some seq | .sweep _ => none

/-- What a journal does to the table of a side. -/
def journalStep (side : Side) (order : Endian) (table : ReassemblyTable) :
    Intake → ReassemblyTable × List ReassemblyEvent
  | .plain stack now _ bytes => reassemblyStep side order stack table (.plain now bytes)
  | .sweep now => (sweepReassemblyTable now table, [])

/-- A side whose window and table started like this wrote these packets, because of this
journal. -/
structure Journaled (na : Sodium) (side : Side) (order : Endian) (key : Octets aeadKeyLen)
    (sessionId : Octets sessionIdLen) (rw : ReplayWindow bitmapWords)
    (table : ReassemblyTable) (writes : List (Bytes × Nat)) (journal : List Intake) :
    Prop where
  admits : windowGate.Admits rw (numbers journal)
  opens : ∀ stack now seq bytes, .plain stack now seq bytes ∈ journal →
    ∃ ct, na.decrypt key sessionId seq ct = some bytes
  writes : writesOf (run (journalStep side order) table journal).2 = writes

section Journaled

variable {na : Sodium} {side : Side} {order : Endian} {key : Octets aeadKeyLen}
  {sessionId : Octets sessionIdLen} {rw : ReplayWindow bitmapWords} {table : ReassemblyTable}

theorem journaled_nil : Journaled na side order key sessionId rw table [] [] :=
  ⟨trivial, nofun, rfl⟩

/-- A sweep goes first. -/
theorem Journaled.sweep {writes : List (Bytes × Nat)} {journal : List Intake} (now : Int)
    (h : Journaled na side order key sessionId rw (sweepReassemblyTable now table) writes
      journal) :
    Journaled na side order key sessionId rw table writes (.sweep now :: journal) where
  admits := h.admits
  opens stack now seq bytes hmem := by
    rcases List.mem_cons.mp hmem with hfirst | hlater
    · cases hfirst
    · exact h.opens stack now seq bytes hlater
  writes := by
    rw [Machine.run]
    exact h.writes

/-- A plaintext goes first. -/
theorem Journaled.plain {writes : List (Bytes × Nat)} {journal : List Intake}
    (stack : Nat → UInt8) (now : Int) {seq : BitVec 64} {bytes ct : Bytes}
    (hnew : rw.checkReplay seq = false)
    (hopens : na.decrypt key sessionId seq ct = some bytes)
    (h : Journaled na side order key sessionId (rw.updateWindow seq)
      (reassemblyStep side order stack table (.plain now bytes)).1 writes journal) :
    Journaled na side order key sessionId rw table
      (writesOf (reassemblyStep side order stack table (.plain now bytes)).2 ++ writes)
      (.plain stack now seq bytes :: journal) where
  admits := ⟨hnew, h.admits⟩
  opens stack' now' seq' bytes' hmem := by
    rcases List.mem_cons.mp hmem with hfirst | hlater
    · cases hfirst
      exact ⟨ct, hopens⟩
    · exact h.opens stack' now' seq' bytes' hlater
  writes := by
    rw [Machine.run, writesOf_append, ← h.writes]
    rfl

end Journaled

/-- What a sender has sealed, by number. -/
abbrev Log := List (BitVec 64 × Cargo)

/-- No number was used twice, and no fragment of a packet was sealed twice. -/
structure Log.Consistent (sender : Sender) (order : Endian) (log : Log) : Prop where
  numbers : (log.map Prod.fst).Nodup
  cargo : Distinct (log.map Prod.snd)
  valid : ∀ entry ∈ log, entry.2.Valid sender order

theorem Distinct.append {first second : List Cargo} (h : Distinct first)
    (h' : Distinct second)
    (hids : ∀ p k q l, .fragment p k ∈ first → .fragment q l ∈ second → p.id ≠ q.id) :
    Distinct (first ++ second) where
  once p k := by
    rw [List.count_append]
    by_cases hmem : .fragment p k ∈ first
    · have hnone : .fragment p k ∉ second := fun hlater => hids p k p k hmem hlater rfl
      rw [List.count_eq_zero.mpr hnone]
      exact h.once p k
    · rw [List.count_eq_zero.mpr hmem, Nat.zero_add]
      exact h'.once p k
  ids p k q l hp hq hid := by
    rcases List.mem_append.mp hp with hp | hp
    · rcases List.mem_append.mp hq with hq | hq
      · exact h.ids p k q l hp hq hid
      · exact absurd hid (hids p k q l hp hq)
    · rcases List.mem_append.mp hq with hq | hq
      · exact absurd hid.symm (hids q l p k hq hp)
      · exact h'.ids p k q l hp hq hid

/-- The numbers go up, from one value of the counter to another. -/
structure Ascending (low high : Nat) (log : Log) : Prop where
  le : low ≤ high
  sorted : log.Pairwise fun a b => a.1.toNat < b.1.toNat
  within : ∀ entry ∈ log, low ≤ entry.1.toNat ∧ entry.1.toNat < high

theorem ascending_nil {low high : Nat} (h : low ≤ high) : Ascending low high [] :=
  ⟨h, List.Pairwise.nil, nofun⟩

theorem Ascending.append {low mid high : Nat} {first second : Log}
    (h : Ascending low mid first) (h' : Ascending mid high second) :
    Ascending low high (first ++ second) where
  le := h.le.trans h'.le
  sorted := List.pairwise_append.mpr ⟨h.sorted, h'.sorted, fun a ha b hb =>
    (h.within a ha).2.trans_le (h'.within b hb).1⟩
  within entry hentry := by
    rcases List.mem_append.mp hentry with hfirst | hsecond
    · exact ⟨(h.within entry hfirst).1, (h.within entry hfirst).2.trans_le h'.le⟩
    · exact ⟨h.le.trans (h'.within entry hsecond).1, (h'.within entry hsecond).2⟩

theorem Ascending.nodup {low high : Nat} {log : Log} (h : Ascending low high log) :
    (log.map Prod.fst).Nodup := by
  refine List.pairwise_map.mpr (h.sorted.imp fun hlt heq => ?_)
  rw [heq] at hlt
  exact lt_irrefl _ hlt

/-- One entry, under the number that the counter shows. -/
theorem ascending_single {seq : BitVec 64} (h : seq.toNat + 1 < 2 ^ 64) (cargo : Cargo) :
    Ascending seq.toNat (seq + 1).toNat [(seq, cargo)] := by
  have hnext : (seq + 1).toNat = seq.toNat + 1 := by
    rw [BitVec.toNat_add]
    exact Nat.mod_eq_of_lt h
  refine ⟨by omega, List.pairwise_singleton _ _, fun entry hentry => ?_⟩
  obtain rfl := List.mem_singleton.mp hentry
  exact ⟨le_rfl, hnext ▸ Nat.lt_succ_self _⟩

/-- The first fragments of a packet, each under the next number. -/
def fragmentLog (p : Packet) (seq : BitVec 64) (count : Nat) : Log :=
  (List.range count).map fun k => (seq + BitVec.ofNat 64 k, .fragment p k)

section FragmentLog

variable {p : Packet} {seq : BitVec 64} {count : Nat}

theorem toNat_add_ofNat (h : seq.toNat + count < 2 ^ 64) :
    (seq + BitVec.ofNat 64 count).toNat = seq.toNat + count := by
  rw [BitVec.toNat_add, BitVec.toNat_ofNat, Nat.add_mod_mod]
  exact Nat.mod_eq_of_lt h

theorem fragmentLog_ascending (h : seq.toNat + count < 2 ^ 64) :
    Ascending seq.toNat (seq + BitVec.ofNat 64 count).toNat (fragmentLog p seq count) := by
  rw [toNat_add_ofNat h]
  refine ⟨Nat.le_add_right _ _, ?_, fun entry hentry => ?_⟩
  · refine List.pairwise_map.mpr
      (List.Pairwise.imp_of_mem ?_ (List.pairwise_lt_range (n := count)))
    intro k l hk hl hlt
    rw [List.mem_range] at hk hl
    rw [toNat_add_ofNat (by omega), toNat_add_ofNat (by omega)]
    omega
  · obtain ⟨k, hk, rfl⟩ := List.mem_map.mp hentry
    rw [List.mem_range] at hk
    rw [toNat_add_ofNat (by omega)]
    omega

theorem mem_fragmentLog {cargo : Cargo} (h : cargo ∈ (fragmentLog p seq count).map Prod.snd) :
    ∃ k < count, cargo = .fragment p k := by
  obtain ⟨entry, hentry, rfl⟩ := List.mem_map.mp h
  obtain ⟨k, hk, rfl⟩ := List.mem_map.mp hentry
  exact ⟨k, List.mem_range.mp hk, rfl⟩

theorem fragmentLog_distinct : Distinct ((fragmentLog p seq count).map Prod.snd) where
  once q k := by
    refine List.nodup_iff_count_le_one.mp ?_ _
    rw [fragmentLog, List.map_map]
    refine List.Nodup.map (fun k l hkl => ?_) List.nodup_range
    exact (Cargo.fragment.inj hkl).2
  ids q k r l hq hr _ := by
    obtain ⟨_, _, hq⟩ := mem_fragmentLog hq
    obtain ⟨_, _, hr⟩ := mem_fragmentLog hr
    rw [(Cargo.fragment.inj hq).1, (Cargo.fragment.inj hr).1]

end FragmentLog

theorem distinct_nil : Distinct [] where
  once _ _ := Nat.zero_le _
  ids := nofun

theorem distinct_control (plain : Bytes) : Distinct [.control plain] where
  once p k := by simp
  ids p k q l hp := by simp at hp

section StepLog

variable {order : Endian}

theorem control_valid (sender : Sender) (header : TunnelHeader)
    (sessionId : Octets sessionIdLen) (byte : UInt8) {frag : Nat}
    (hlow : tunnelHeaderLen ≤ frag) (hhigh : frag ≤ 1400)
    (hcontrol : header.isControl = true) :
    (Cargo.control ((encodeHeader order header sessionId).val ++
      List.replicate (frag - tunnelHeaderLen) byte)).Valid sender order := by
  have hlength := length_header_fill order header sessionId byte hlow
  refine ⟨by rw [hlength]; exact hlow, by rw [hlength]; exact hhigh, ?_⟩
  rw [plainHeader_encode]
  exact hcontrol

/-- A packet has at most as many fragments as bytes. -/
theorem length_fragments_le (sender : Sender) (p : Packet) :
    (sender.fragments order p).length ≤ 1600 := by
  rw [(sender.fragments_spec order p).1]
  by_contra hmany
  have hsizes := sender.sizes p
  have hbelow := (lt_fragmentCount_iff hsizes.payload_pos).mp (not_le.mp hmany)
  have hpos := Nat.mul_le_mul_left 1600 hsizes.payload_pos
  have hshort := p.short
  omega

/-- What the entries of one step have to be. -/
structure StepLog (sender : Sender) (order : Endian) (low high : Nat) (packet : Option Packet)
    (log : Log) : Prop where
  ascending : Ascending low high log
  near : high ≤ low + 1600
  cargo : Distinct (log.map Prod.snd)
  valid : ∀ entry ∈ log, entry.2.Valid sender order
  packet : ∀ p k, .fragment p k ∈ log.map Prod.snd → packet = some p

theorem stepLog_nil (sender : Sender) (low : Nat) (packet : Option Packet) :
    StepLog sender order low low packet [] where
  ascending := ascending_nil le_rfl
  near := Nat.le_add_right _ _
  cargo := distinct_nil
  valid := nofun
  packet := nofun

theorem stepLog_control {sender : Sender} {seq : BitVec 64} (h : seq.toNat + 1600 < 2 ^ 64)
    {plain : Bytes} (hvalid : (Cargo.control plain).Valid sender order) :
    StepLog sender order seq.toNat (seq + 1).toNat none [(seq, .control plain)] where
  ascending := ascending_single (by omega) _
  near := by
    rw [BitVec.toNat_add]
    exact (Nat.mod_le _ _).trans (Nat.add_le_add_left (by decide) _)
  cargo := distinct_control plain
  valid entry hentry := by
    rw [List.mem_singleton.mp hentry]
    exact hvalid
  packet p k hmem := by simp at hmem

theorem stepLog_fragments {sender : Sender} {seq : BitVec 64} (h : seq.toNat + 1600 < 2 ^ 64)
    {p : Packet} {count : Nat} (hcount : count ≤ (sender.fragments order p).length) :
    StepLog sender order seq.toNat (seq + BitVec.ofNat 64 count).toNat (some p)
      (fragmentLog p seq count) := by
  have hmany := hcount.trans (length_fragments_le sender p)
  refine ⟨fragmentLog_ascending (by omega), ?_, fragmentLog_distinct, ?_, ?_⟩
  · rw [toNat_add_ofNat (by omega)]
    omega
  · intro entry hentry
    obtain ⟨k, hk, hcargo⟩ := mem_fragmentLog (List.mem_map_of_mem hentry)
    rw [hcargo]
    exact hk.trans_le hcount
  · intro q k hq
    obtain ⟨_, _, hcargo⟩ := mem_fragmentLog hq
    rw [(Cargo.fragment.inj hcargo).1]

end StepLog

/-- What the entries of a whole run have to be, when these packets went into it. As long
as packet ids do not come again, no fragment does. -/
structure RunLog (sender : Sender) (order : Endian) (low : Nat) (packets : List Packet)
    (log : Log) : Prop where
  ascending : ∃ high, Ascending low high log
  cargo : (packets.map Packet.id).Nodup → Distinct (log.map Prod.snd)
  valid : ∀ entry ∈ log, entry.2.Valid sender order
  packets : ∀ p k, .fragment p k ∈ log.map Prod.snd → p ∈ packets

/-- A sender all of whose steps take their numbers from a counter, as long as the counter
does not wrap. A step may be the last one and leave no counter behind. -/
theorem run_runLog {σ α : Type*} {sender : Sender} {order : Endian}
    (step : σ → α → σ × Log) (count : σ → Nat) (packet : α → Option Packet)
    (ok : σ → α → Prop)
    (hstep : ∀ s a, ok s a → count s + 1600 < 2 ^ 64 →
      ∃ high, StepLog sender order (count s) high (packet a) (step s a).2 ∧
        ∀ b, ok (step s a).1 b → count (step s a).1 = high)
    (s : σ) (acts : List α) (hok : Along step ok s acts)
    (hroom : count s + 1600 * acts.length < 2 ^ 64) :
    RunLog sender order (count s) (acts.filterMap packet) (run step s acts).2 := by
  induction acts generalizing s with
  | nil =>
      exact ⟨⟨count s, ascending_nil le_rfl⟩, fun _ => distinct_nil, nofun, nofun⟩
  | cons a rest ih =>
      rw [List.length_cons, Nat.mul_succ] at hroom
      have hnow : count s + 1600 ≤ count s + (1600 * rest.length + 1600) :=
        Nat.add_le_add_left (Nat.le_add_left _ _) _
      obtain ⟨mid, hfirst, hnext⟩ := hstep s a hok.1 (hnow.trans_lt hroom)
      have hsplit : (a :: rest).filterMap packet =
          (packet a).toList ++ rest.filterMap packet := by
        rw [List.filterMap_cons]
        cases packet a <;> rfl
      rw [hsplit]
      have hothers : RunLog sender order mid (rest.filterMap packet)
          (run step (step s a).1 rest).2 := by
        cases rest with
        | nil => exact ⟨⟨mid, ascending_nil le_rfl⟩, fun _ => distinct_nil, nofun, nofun⟩
        | cons b later =>
            have hcount := hnext b hok.2.1
            have hlater := Nat.add_le_add_right hfirst.near (1600 * (b :: later).length)
            rw [Nat.add_assoc, Nat.add_comm 1600, ← hcount] at hlater
            rw [← hcount]
            exact ih (step s a).1 hok.2 (hlater.trans_lt hroom)
      obtain ⟨high, hascending⟩ := hothers.ascending
      rw [Machine.run]
      refine ⟨⟨high, hfirst.ascending.append hascending⟩, ?_, ?_, ?_⟩
      · intro hids
        rw [List.map_append] at hids
        obtain ⟨_, hidsRest, hdisjoint⟩ := List.nodup_append.mp hids
        rw [List.map_append]
        refine hfirst.cargo.append (hothers.cargo hidsRest) fun p k q l hp hq => ?_
        have hpacket : p ∈ (packet a).toList := by
          rw [hfirst.packet p k hp]
          exact List.mem_singleton_self p
        exact hdisjoint _ (List.mem_map_of_mem hpacket) _
          (List.mem_map_of_mem (hothers.packets q l hq))
      · intro entry hentry
        rcases List.mem_append.mp hentry with hnow | hlater
        · exact hfirst.valid entry hnow
        · exact hothers.valid entry hlater
      · intro p k hp
        rw [List.map_append] at hp
        rcases List.mem_append.mp hp with hnow | hlater
        · rw [hfirst.packet p k hnow]
          exact List.mem_append_left _ (List.mem_singleton_self p)
        · exact List.mem_append_right _ (hothers.packets p k hlater)

theorem RunLog.consistent {sender : Sender} {order : Endian} {low : Nat}
    {packets : List Packet} {log : Log} (h : RunLog sender order low packets log)
    (hids : (packets.map Packet.id).Nodup) : log.Consistent sender order := by
  obtain ⟨high, hascending⟩ := h.ascending
  exact ⟨hascending.nodup, h.cargo hids, h.valid⟩

/-- Nothing opens under this key and session id but what was sealed under its number. -/
def Authentic (na : Sodium) (sender : Sender) (order : Endian) (key : Octets aeadKeyLen)
    (sessionId : Octets sessionIdLen) (log : Log) : Prop :=
  ∀ seq ct bytes, na.decrypt key sessionId seq ct = some bytes →
    ∃ cargo, (seq, cargo) ∈ log ∧ cargo.plain sender order = bytes

theorem decode_seqBytes (seq : BitVec 64) :
    BitVec.ofNat 64 (Endian.big.decode (Sodium.seqBytes seq).val) = seq := by
  rw [Sodium.seqBytes, Endian.decode_encode _ _ _ seq.isLt, BitVec.ofNat_toNat,
    BitVec.setWidth_eq]

/-- A stand-in that opens one ciphertext, under one session id and number. -/
def onlyOpens (sessionId : Octets sessionIdLen) (seq : BitVec 64) (ct plain : Bytes) :
    Sodium :=
  { Sodium.xorSodium with
    aeadDecrypt := fun _ _ ad c =>
      if ad = sessionId.val ++ (Sodium.seqBytes seq).val ∧ c = ct then some plain else none }

/-- It is a faithful one if this is what was sealed under the number. -/
theorem onlyOpens_authentic {sender : Sender} {order : Endian} (key : Octets aeadKeyLen)
    {sessionId : Octets sessionIdLen} {seq : BitVec 64} (ct : Bytes) {cargo : Cargo}
    {log : Log} (h : (seq, cargo) ∈ log) :
    Authentic (onlyOpens sessionId seq ct (cargo.plain sender order)) sender order key
      sessionId log := by
  intro seq' ct' bytes hopens
  simp only [Sodium.decrypt, onlyOpens] at hopens
  split at hopens
  next hsame =>
    have hnumber : Sodium.seqBytes seq' = Sodium.seqBytes seq :=
      Octets.ext (List.append_cancel_left hsame.1)
    have hseq : seq' = seq := by
      rw [← decode_seqBytes seq', hnumber, decode_seqBytes]
    exact ⟨cargo, hseq ▸ h, Option.some.inj hopens⟩
  next => cases hopens

theorem Distinct.subperm {first second : List Cargo} (h : Distinct second)
    (hsub : first.Subperm second) : Distinct first where
  once p k := (hsub.count_le _).trans (h.once p k)
  ids p k q l hp hq := h.ids p k q l (hsub.subset hp) (hsub.subset hq)

/-- The journal in terms of cargo: each plaintext is that of one entry of the log. -/
theorem journal_receipts {sender : Sender} {order : Endian} (log : Log)
    (journal : List Intake)
    (h : ∀ stack now seq bytes, .plain stack now seq bytes ∈ journal →
      ∃ cargo, (seq, cargo) ∈ log ∧ cargo.plain sender order = bytes) :
    ∃ (receipts : List Receipt) (picked : Log), picked ⊆ log ∧
      picked.map Prod.fst = numbers journal ∧ carried receipts = picked.map Prod.snd ∧
      ∀ table, run (receiptStep sender order) table receipts =
        run (journalStep sender.side.peer order) table journal := by
  induction journal with
  | nil => exact ⟨[], [], List.nil_subset _, rfl, rfl, fun _ => rfl⟩
  | cons intake rest ih =>
      obtain ⟨receipts, picked, hsub, hnumbers, hcarried, hrun⟩ := ih
        fun stack now seq bytes hmem => h stack now seq bytes (List.mem_cons_of_mem _ hmem)
      cases intake with
      | sweep now =>
          refine ⟨.sweep now :: receipts, picked, hsub, hnumbers, hcarried, fun table => ?_⟩
          simp only [run, receiptStep, journalStep, hrun]
      | plain stack now seq bytes =>
          obtain ⟨cargo, hmem, rfl⟩ := h stack now seq bytes List.mem_cons_self
          refine ⟨.plain stack now cargo :: receipts, (seq, cargo) :: picked,
            List.cons_subset.mpr ⟨hmem, hsub⟩, ?_, ?_, fun table => ?_⟩
          · rw [List.map_cons, hnumbers]
            rfl
          · rw [List.map_cons, ← hcarried]
            rfl
          · simp only [run, receiptStep, journalStep, hrun]

/-- What a side writes because of its journal are different packets of the log. -/
theorem Journaled.written {na : Sodium} {sender : Sender} {order : Endian}
    {key : Octets aeadKeyLen} {sessionId : Octets sessionIdLen}
    {rw : ReplayWindow bitmapWords} {table : ReassemblyTable} {writes : List (Bytes × Nat)}
    {journal : List Intake}
    (h : Journaled na sender.side.peer order key sessionId rw table writes journal)
    (hclean : ∀ i, (table i).isActive = false) {log : Log} (hlog : log.Consistent sender order)
    (hauth : Authentic na sender order key sessionId log) :
    ∃ written : List Packet, written.Nodup ∧
      (∀ p ∈ written, .fragment p 0 ∈ log.map Prod.snd) ∧
      writes = written.map fun p => (p.bytes, p.bytes.length) := by
  obtain ⟨receipts, picked, hsub, hnumbers, hcarried, hrun⟩ := journal_receipts log
    journal fun stack now seq bytes hmem => by
      obtain ⟨ct, hct⟩ := h.opens stack now seq bytes hmem
      exact hauth seq ct bytes hct
  have hpicked : picked.Nodup := by
    refine List.Nodup.of_map Prod.fst ?_
    rw [hnumbers]
    exact h.admits.nodup
  have hsubperm : (picked.map Prod.snd).Subperm (log.map Prod.snd) := by
    obtain ⟨some, hperm, hsublist⟩ := List.subperm_of_subset hpicked hsub
    exact ⟨some.map Prod.snd, hperm.map _, hsublist.map _⟩
  obtain ⟨written, hnodup, hcame, hwrites⟩ := receipts_write hclean receipts
    (by
      intro c hc
      rw [hcarried] at hc
      obtain ⟨entry, hentry, rfl⟩ := List.mem_map.mp hc
      exact hlog.valid entry (hsub hentry))
    (by
      rw [hcarried]
      exact hlog.cargo.subperm hsubperm)
  refine ⟨written, hnodup, fun p hp => hsubperm.subset ?_, ?_⟩
  · rw [← hcarried]
    exact hcame p hp
  · rw [← h.writes, ← hrun table, hwrites]

/-- The packets that a side writes are, one for one, packets that went into the tunnel at
the other side. -/
theorem Journaled.integrity {na : Sodium} {sender : Sender} {order : Endian}
    {key : Octets aeadKeyLen} {sessionId : Octets sessionIdLen}
    {rw : ReplayWindow bitmapWords} {table : ReassemblyTable} {writes : List (Bytes × Nat)}
    {journal : List Intake} {low : Nat} {packets : List Packet} {log : Log}
    (h : Journaled na sender.side.peer order key sessionId rw table writes journal)
    (hclean : ∀ i, (table i).isActive = false) (hlog : RunLog sender order low packets log)
    (hids : (packets.map Packet.id).Nodup)
    (hauth : Authentic na sender order key sessionId log) :
    writes.Subperm (packets.map fun p => (p.bytes, p.bytes.length)) := by
  obtain ⟨written, hnodup, hcame, rfl⟩ := h.written hclean (hlog.consistent hids) hauth
  have hpackets : written ⊆ packets := fun p hp => hlog.packets p 0 (hcame p hp)
  obtain ⟨some, hperm, hsublist⟩ := List.subperm_of_subset hnodup hpackets
  exact ⟨some.map _, hperm.map _, hsublist.map _⟩

end Chamlon.Tunnel
