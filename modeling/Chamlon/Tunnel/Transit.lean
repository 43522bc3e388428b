import Mathlib.Tactic
import Chamlon.Tunnel.Journal

/-!
The other half of the tunnel: what arrives is written. The receiving side is reduced to
its inbox, the replay window and the reassembly table, and a run to the datagrams of the
peer that it takes. Of the network something has to be asked now. It may lose datagrams
and mix those of different packets, but it must not hold one back for as long as a window
or change the order within a packet, and never leave more packets unfinished than the
table has entries.
-/

namespace Chamlon.Tunnel

open Config Memory Machine Reassembly ReplayWindow

/-- A datagram of the peer that is taken, and what the stack and the clock show then. -/
structure Opened where
  stack : Nat → UInt8
  now : Int
  seq : BitVec 64
  cargo : Cargo

structure Inbox where
  window : ReplayWindow bitmapWords
  table : ReassemblyTable

/-- The fragments among them. -/
def deliveries (taken : List Opened) : List Delivery :=
  taken.filterMap fun o =>
    match o.cargo with
    | .fragment p k => some ⟨p, k, o.now⟩
    | .control _ => none

/-- The network delivers datagrams of the log, each once and less than a window late. The
number 0 is not among them: the window refuses it. -/
structure Timely (log : Log) (taken : List Opened) : Prop where
  sent : ∀ o ∈ taken, (o.seq, o.cargo) ∈ log
  range : ∀ o ∈ taken, o.seq ≠ 0 ∧ o.seq.toNat + windowSize < 2 ^ 64
  late : taken.Pairwise fun a b => a.seq ≠ b.seq ∧ a.seq.toNat < b.seq.toNat + windowSize

/-- It keeps the order within a packet, and it does not leave more packets unfinished than
the table can hold. -/
structure Orderly (sender : Sender) (order : Endian) (packets : List Packet)
    (ds : List Delivery) : Prop where
  ordered : ds.Pairwise fun a b => a.packet = b.packet → a.index < b.index
  room : ∀ past d rest, ds = past ++ d :: rest →
    (incomplete sender order packets past d).length ≤ maxReassemblyEntries

/-- A window that remembers numbers lets later ones pass that are not too late. -/
theorem admits_of_remembers {w : ReplayWindow bitmapWords} {seen : Set (BitVec 64)}
    (h : Remembers w seen) (seqs : List (BitVec 64))
    (hrange : ∀ seq ∈ seqs, seq ≠ 0 ∧ seq.toNat + windowSize < 2 ^ 64)
    (hseen : ∀ old ∈ seen, ∀ seq ∈ seqs, old ≠ seq ∧ old.toNat < seq.toNat + windowSize)
    (hlate : seqs.Pairwise fun a b => a ≠ b ∧ a.toNat < b.toNat + windowSize) :
    windowGate.Admits w seqs := by
  induction seqs generalizing w seen with
  | nil => trivial
  | cons seq rest ih =>
      obtain ⟨hnonzero, hbound⟩ := hrange seq List.mem_cons_self
      obtain ⟨hfirst, hrest⟩ := List.pairwise_cons.mp hlate
      have hpass : w.checkReplay seq = false := by
        refine (h.accepts_iff (by decide)).mpr ⟨hnonzero, ?_⟩
        rcases h.max_mem with hzero | hmax
        · refine .inl ?_
          rw [hzero]
          exact Nat.pos_of_ne_zero fun hnat => hnonzero (BitVec.eq_of_toNat_eq hnat)
        · refine .inr ⟨?_, fun hold => (hseen seq hold seq List.mem_cons_self).1 rfl⟩
          have hend : (seq.toNat + wordSize * bitmapWords) % 2 ^ 64 =
              seq.toNat + windowSize := Nat.mod_eq_of_lt hbound
          rw [hend]
          exact (hseen _ hmax seq List.mem_cons_self).2
      refine ⟨hpass, ih (h.update (by decide) hnonzero) ?_ ?_ hrest⟩
      · exact fun other hother => hrange other (List.mem_cons_of_mem seq hother)
      · intro old hold other hother
        rcases hold with rfl | hold
        · exact hfirst other hother
        · exact hseen old hold other (List.mem_cons_of_mem seq hother)

theorem Timely.admits {log : Log} {taken : List Opened} (h : Timely log taken) :
    windowGate.Admits ReplayWindow.zero (taken.map Opened.seq) := by
  refine admits_of_remembers remembers_zero _ ?_ (fun _ hnone => hnone.elim)
    (List.pairwise_map.mpr h.late)
  intro seq hseq
  obtain ⟨o, ho, rfl⟩ := List.mem_map.mp hseq
  exact h.range o ho

/-- A datagram that is taken: its number is recorded and its plaintext handled. -/
def inboxStep (sender : Sender) (order : Endian) (inbox : Inbox) (o : Opened) :
    Inbox × List ReassemblyEvent :=
  let stepped := receiptStep sender order inbox.table (.plain o.stack o.now o.cargo)
  (⟨inbox.window.updateWindow o.seq, stepped.1⟩, stepped.2)

/-- A side whose every step is that of its inbox, as long as it goes on, writes what the
inbox writes. -/
theorem run_inbox {σ α ε : Type*} (sender : Sender) (order : Endian)
    (step : σ → α → σ × List ε) (ok : σ → α → Prop) (see : List ε → List (Bytes × Nat))
    (inbox : σ → Inbox) (opened : α → Option Opened) (hnil : see [] = [])
    (happend : ∀ first second, see (first ++ second) = see first ++ see second)
    (hstep : ∀ s a, ok s a →
      (∀ o ∈ opened a, o.cargo.Valid sender order ∧
        (inbox s).window.checkReplay o.seq = false) →
      let stepped := run (inboxStep sender order) (inbox s) (opened a).toList
      see (step s a).2 = writesOf stepped.2 ∧
        ∀ b, ok (step s a).1 b → inbox (step s a).1 = stepped.1)
    (s : σ) (acts : List α) (hok : Along step ok s acts)
    (hvalid : ∀ o ∈ acts.filterMap opened, o.cargo.Valid sender order)
    (hadmits : windowGate.Admits (inbox s).window
      ((acts.filterMap opened).map Opened.seq)) :
    see (run step s acts).2 =
      writesOf (run (inboxStep sender order) (inbox s) (acts.filterMap opened)).2 := by
  induction acts generalizing s with
  | nil => exact hnil
  | cons a rest ih =>
      have hsplit : (a :: rest).filterMap opened =
          (opened a).toList ++ rest.filterMap opened := by
        rw [List.filterMap_cons]
        cases opened a with
        | none => rfl
        | some o => rfl
      rw [hsplit] at hvalid hadmits ⊢
      rw [run_append, writesOf_append, Machine.run, happend]
      have hnew : ∀ o ∈ opened a, o.cargo.Valid sender order ∧
          (inbox s).window.checkReplay o.seq = false := by
        intro o ho
        rw [Option.mem_def.mp ho] at hvalid hadmits
        exact ⟨hvalid o List.mem_cons_self, hadmits.1⟩
      obtain ⟨hsee, hnext⟩ := hstep s a hok.1 hnew
      rw [hsee]
      congr 1
      cases rest with
      | nil => exact hnil
      | cons b more =>
          rw [ih _ hok.2 fun o ho => hvalid o (List.mem_append_right _ ho),
            hnext b hok.2.1]
          rw [hnext b hok.2.1]
          cases hopened : opened a with
          | none =>
              rw [hopened] at hadmits
              exact hadmits
          | some o =>
              rw [hopened] at hadmits
              exact hadmits.2

section Reassembly

variable {sender : Sender} {order : Endian} {packets : List Packet}

/-- The table may have been used before, as long as nothing is left in it. -/
theorem reassembling_of_inactive (sender : Sender) (order : Endian) (packets : List Packet)
    {table : ReassemblyTable} (h : ∀ i, (table i).isActive = false) :
    Reassembling sender order packets [] table [] := by
  have hempty : storeOf table = storeOf emptyTable := by
    rw [storeOf_of_inactive h, storeOf_of_inactive fun _ => rfl]
  have hstart := reassembling_start sender order packets
  refine ⟨uniqueIds_of_inactive h, ?_, ?_, ?_, hstart.nodup, hstart.mem_written⟩
  · rw [hempty]
    exact hstart.present
  · rw [hempty]
    exact hstart.absent
  · rw [hempty]
    exact hstart.foreign

/-- The inbox over a whole delivery, from any point of it: what is not a fragment makes no
difference. -/
theorem reassembling_inbox {past : List Delivery} {inbox : Inbox} {written : List Packet}
    (h : Reassembling sender order packets past inbox.table written) (taken : List Opened)
    (hvalid : ∀ o ∈ taken, o.cargo.Valid sender order)
    (hds : Delivers sender order packets (past ++ deliveries taken)) :
    ∃ more,
      Reassembling sender order packets (past ++ deliveries taken)
        (run (inboxStep sender order) inbox taken).1.table (written ++ more) ∧
      (run (inboxStep sender order) inbox taken).2 = more.map Packet.write := by
  induction taken generalizing past inbox written with
  | nil =>
      refine ⟨[], ?_, rfl⟩
      rw [deliveries, List.filterMap_nil, List.append_nil, List.append_nil]
      exact h
  | cons o rest ih =>
      have hrest : ∀ o ∈ rest, o.cargo.Valid sender order := fun other hother =>
        hvalid other (List.mem_cons_of_mem o hother)
      have hfirst := hvalid o List.mem_cons_self
      obtain ⟨stack, now, seq, cargo⟩ := o
      rw [Machine.run]
      dsimp only
      cases cargo with
      | control plain =>
          have hstep : inboxStep sender order inbox ⟨stack, now, seq, .control plain⟩ =
              (⟨inbox.window.updateWindow seq, inbox.table⟩, []) := by
            unfold inboxStep
            dsimp only
            rw [receiptStep_control stack now hfirst]
          rw [hstep]
          exact @ih past ⟨inbox.window.updateWindow seq, inbox.table⟩ written h hrest hds
      | fragment p k =>
          have hmore : deliveries (⟨stack, now, seq, .fragment p k⟩ :: rest) =
              ⟨p, k, now⟩ :: deliveries rest := rfl
          rw [hmore] at hds ⊢
          obtain ⟨first, hnext, hevents⟩ := h.step sender.side.peer stack hds
          rw [List.append_cons] at hds
          obtain ⟨more, hfinal, hlater⟩ := @ih (past ++ [⟨p, k, now⟩])
            (inboxStep sender order inbox ⟨stack, now, seq, .fragment p k⟩).1
            (written ++ first) hnext hrest hds
          refine ⟨first ++ more, ?_, ?_⟩
          · rw [List.append_cons, ← List.append_assoc]
            exact hfinal
          · rw [List.map_append, hlater]
            exact congrArg (· ++ _) hevents

theorem writesOf_map_write (packets : List Packet) :
    writesOf (packets.map Packet.write) =
      packets.map fun p => (p.bytes, p.bytes.length) := by
  unfold writesOf
  rw [List.filterMap_map]
  exact congrFun List.filterMap_eq_map packets

theorem Timely.delivers {low : Nat} {log : Log} {taken : List Opened}
    (h : Timely log taken) (hlog : RunLog sender order low packets log)
    (hids : (packets.map Packet.id).Nodup)
    (horderly : Orderly sender order packets (deliveries taken)) :
    Delivers sender order packets (deliveries taken) := by
  refine ⟨hids, ?_, horderly.ordered, horderly.room⟩
  intro d hd
  obtain ⟨o, ho, hsome⟩ := List.mem_filterMap.mp hd
  have hlogged := h.sent o ho
  obtain ⟨stack, now, seq, cargo⟩ := o
  cases cargo with
  | control plain => cases hsome
  | fragment p k =>
      cases hsome
      exact ⟨hlog.packets p k (List.mem_map_of_mem hlogged), hlog.valid _ hlogged⟩

/-- From a clean inbox: what is written are the packets all of whose fragments are taken. -/
theorem inbox_writes {low : Nat} {log : Log} {taken : List Opened} {inbox : Inbox}
    (hclean : ∀ i, (inbox.table i).isActive = false) (htimely : Timely log taken)
    (hlog : RunLog sender order low packets log) (hids : (packets.map Packet.id).Nodup)
    (horderly : Orderly sender order packets (deliveries taken)) :
    (writesOf (run (inboxStep sender order) inbox taken).2).Perm
      ((packets.filter (Complete sender order (deliveries taken))).map
        fun p => (p.bytes, p.bytes.length)) := by
  have hvalid : ∀ o ∈ taken, o.cargo.Valid sender order := fun o ho =>
    hlog.valid _ (htimely.sent o ho)
  obtain ⟨written, hfinal, hevents⟩ := reassembling_inbox
    (reassembling_of_inactive sender order packets hclean) taken hvalid
    (htimely.delivers hlog hids horderly)
  rw [hevents, writesOf_map_write]
  apply List.Perm.map
  have hnodup : (packets.filter (Complete sender order (deliveries taken))).Nodup :=
    (List.Nodup.of_map Packet.id hids).filter _
  refine (List.perm_ext_iff_of_nodup hfinal.nodup hnodup).mpr fun p => ?_
  rw [hfinal.mem_written, List.mem_filter, decide_eq_true_eq, List.nil_append]

end Reassembly

end Chamlon.Tunnel
