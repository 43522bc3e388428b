import Mathlib.Tactic
import Chamlon.Client.Senders

/-!
How much is encrypted under one key. The rekey branch of `event_loop_run` has two limits
for it, on `bytes_sent` and on `send_seq`. The counter of packets is drawn from by every
path that sends. The counter of bytes is set to zero by a rehandshake, and nothing ever
adds to it, so its limit is never reached.
-/

namespace Chamlon.Client.Senders

open Config Memory Machine Reassembly

/-- The bytes that an event puts under the key. -/
def SendEvent.bytes (key : Octets aeadKeyLen) : SendEvent → Nat
  | .encrypted k length => if k = key then length else 0
  | .emitted _ => 0

def SendEvent.packets (key : Octets aeadKeyLen) : SendEvent → Nat
  | .encrypted k _ => if k = key then 1 else 0
  | .emitted _ => 0

def bytesUnder (key : Octets aeadKeyLen) (events : List SendEvent) : Nat :=
  (events.map (SendEvent.bytes key)).sum

def packetsUnder (key : Octets aeadKeyLen) (events : List SendEvent) : Nat :=
  (events.map (SendEvent.packets key)).sum

theorem bytesUnder_append (key : Octets aeadKeyLen) (first second : List SendEvent) :
    bytesUnder key (first ++ second) = bytesUnder key first + bytesUnder key second := by
  unfold bytesUnder
  rw [List.map_append, List.sum_append]

/-- The event encrypts something. -/
def SendEvent.Filled : SendEvent → Prop
  | .encrypted _ length => 0 < length
  | .emitted _ => True

/-- Bytes are encrypted under a key exactly if packets are. -/
theorem bytesUnder_eq_zero_iff (key : Octets aeadKeyLen) {events : List SendEvent}
    (h : ∀ e ∈ events, e.Filled) : bytesUnder key events = 0 ↔ packetsUnder key events = 0 := by
  have hone : ∀ e : SendEvent, e.Filled → (e.bytes key = 0 ↔ e.packets key = 0) := by
    intro e hfilled
    cases e with
    | emitted pkt => exact Iff.rfl
    | encrypted k length =>
        change 0 < length at hfilled
        simp only [SendEvent.bytes, SendEvent.packets]
        split <;> omega
  unfold bytesUnder packetsUnder
  simp only [List.sum_eq_zero_iff, List.mem_map, forall_exists_index, and_imp,
    forall_apply_eq_imp_iff₂]
  constructor
  · intro hbytes e he
    exact (hone e (h e he)).mp (hbytes e he)
  · intro hpackets e he
    exact (hone e (h e he)).mpr (hpackets e he)

section Limits

variable {order : Endian} {argv : Params}

variable (order) in
theorem length_plain_pos (hfrag : 300 ≤ argv.frag ∧ argv.frag ≤ 1200) (payload : Payload) :
    0 < (payload.plain order argv).length := by
  have hlow : tunnelHeaderLen ≤ argv.frag.toNat := by
    unfold tunnelHeaderLen
    omega
  have hheader : 0 < tunnelHeaderLen := by decide
  cases payload with
  | fragment uninit id buf offset =>
      unfold Payload.plain
      dsimp only
      rw [length_clientFragment uninit hlow]
      split
      · unfold realDataLen
        omega
      · exact hheader.trans_le hlow
  | dummy =>
      unfold Payload.plain
      dsimp only
      rw [length_header_fill _ _ _ _ hlow]
      exact hheader.trans_le hlow
  | keepalive uninit =>
      unfold Payload.plain
      dsimp only
      rw [length_header_fill _ _ _ _ hlow]
      exact hheader.trans_le hlow
  | disconnect uninit =>
      have hown : tunnelHeaderLen ≤ disconnectLen := by decide
      unfold Payload.plain
      dsimp only
      rw [length_header_fill _ _ _ _ hown]
      exact hheader.trans_le hown

/-- What one step does to the count of bytes: nothing adds to it, and nothing that is
encrypted is empty. -/
def CountsNothing (result : SendThreads × List SendEvent) : Prop :=
  result.1.bytesSent = 0 ∧ ∀ e ∈ result.2, e.Filled

theorem loopNext_countsNothing (hfrag : 300 ≤ argv.frag ∧ argv.frag ≤ 1200)
    {s : SendThreads} (hzero : s.bytesSent = 0) (encrypts allocated : Bool) :
    CountsNothing (loopNext order argv s encrypts allocated) := by
  have hsilent : CountsNothing (s, []) := ⟨hzero, by simp⟩
  unfold loopNext
  cases s.loop with
  | idle => exact hsilent
  | drawn seq payload =>
      have hpos := length_plain_pos order hfrag payload
      dsimp only
      split
      · cases payload with
        | fragment uninit id buf offset | disconnect uninit =>
            refine ⟨hzero, fun e he => ?_⟩
            rw [List.mem_singleton.mp he]
            exact hpos
        | keepalive uninit =>
            refine ⟨hzero, List.forall_mem_cons.mpr ⟨hpos, fun e he => ?_⟩⟩
            rw [List.mem_singleton.mp he]
            trivial
        | dummy => exact ⟨hzero, by simp [sendDrawn]⟩
      · exact ⟨hzero, by simp⟩
  | noticed key seq boundId =>
      refine ⟨hzero, fun e he => ?_⟩
      rw [List.eq_of_mem_replicate he]
      trivial
  | idStored new => exact ⟨rfl, by simp⟩
  | keyStored new | restarted new | pendingKeyStored new | pendingIdStored =>
      exact ⟨hzero, by simp⟩

theorem senderNext_countsNothing (hfrag : 300 ≤ argv.frag ∧ argv.frag ≤ 1200)
    {s : SendThreads} (hzero : s.bytesSent = 0) (encrypts : Bool) :
    CountsNothing (senderNext order argv s encrypts) := by
  unfold senderNext
  cases s.sender with
  | drawn seq =>
      have hpos := length_plain_pos order hfrag .dummy
      dsimp only
      split
      · refine ⟨hzero, List.forall_mem_cons.mpr ⟨hpos, fun e he => ?_⟩⟩
        rw [List.mem_singleton.mp he]
        trivial
      · exact ⟨hzero, by simp⟩
  | drain =>
      dsimp only
      split
      · exact ⟨hzero, by simp⟩
      · exact ⟨hzero, by simp⟩
  | head | copyKey | copyId | copyGlobalId | prepareDummy | clearKey | clearId | clearFlag
  | exited => exact ⟨hzero, by simp⟩

theorem sendStep_countsNothing (hfrag : 300 ≤ argv.frag ∧ argv.frag ≤ 1200)
    (s : SendThreads) (act : SendAct) (hzero : s.bytesSent = 0) :
    CountsNothing (sendStep order argv s act) := by
  cases act with
  | fetch payload | rehandshake new =>
      dsimp only [sendStep]
      split
      · exact ⟨hzero, by simp⟩
      · exact ⟨hzero, by simp⟩
  | loopNext encrypts allocated => exact loopNext_countsNothing hfrag hzero encrypts allocated
  | senderNext encrypts => exact senderNext_countsNothing hfrag hzero encrypts
  | dequeue i sent =>
      dsimp only [sendStep]
      split
      · exact ⟨hzero, by simp⟩
      split
      · exact ⟨hzero, by simp⟩
      refine ⟨hzero, fun e he => ?_⟩
      split at he
      · rw [List.mem_singleton.mp he]
        trivial
      · cases he

variable (order) in
theorem sendRun_countsNothing (hfrag : 300 ≤ argv.frag ∧ argv.frag ≤ 1200)
    (first pending : Channel) (pendingRekey : Bool) (acts : List SendAct) :
    CountsNothing (run (sendStep order argv) (.start first pending pendingRekey) acts) := by
  have halong := Along.of_forall (sendStep order argv) (fun _ => True)
    (.start first pending pendingRekey) acts fun _ _ => trivial
  constructor
  · exact run_invariant (sendStep order argv) (fun _ _ => True) (fun s => s.bytesSent = 0)
      (fun s act hzero _ => (sendStep_countsNothing hfrag s act hzero).1) _ acts rfl halong
  · exact run_forall_events (sendStep order argv) (fun _ _ => True) (fun s => s.bytesSent = 0)
      SendEvent.Filled (fun s act hzero _ => (sendStep_countsNothing hfrag s act hzero).1)
      (fun s act hzero _ => (sendStep_countsNothing hfrag s act hzero).2) _ acts rfl halong

end Limits

/-- In every state of every run: the counters cover what was encrypted under the current
key, and force a rekey at the limits, exactly if nothing was encrypted under it. The branch
is taken when the interval is over or `send_seq` has reached its limit, and never for the
bytes. -/
theorem key_limits_iff_unused (order : Endian) (argv : Params)
    (hfrag : 300 ≤ argv.frag ∧ argv.frag ≤ 1200) (first pending : Channel)
    (pendingRekey : Bool) (acts : List SendAct) :
    let final := run (sendStep order argv) (.start first pending pendingRekey) acts
    let s := final.1
    let bytes := bytesUnder s.srv.kSend final.2
    let packets := packetsUnder s.srv.kSend final.2
    ((bytes ≤ s.bytesSent ∧ packets ≤ s.sendSeq.toNat ∧
        (2 ^ 30 ≤ bytes ∨ 2 ^ 32 ≤ packets → ∀ interval elapsed,
          rekeyCondition interval elapsed s.bytesSent s.sendSeq = true)) ↔ packets = 0) ∧
      ∀ interval elapsed, rekeyCondition interval elapsed s.bytesSent s.sendSeq =
        (decide (interval ≤ elapsed) || decide (rehandshakeSeqLimit ≤ s.sendSeq.toNat)) := by
  intro final s bytes packets
  obtain ⟨hzero, hfilled⟩ := sendRun_countsNothing order hfrag first pending
    pendingRekey acts
  have hnone : bytes = 0 ↔ packets = 0 := bytesUnder_eq_zero_iff s.srv.kSend hfilled
  change s.bytesSent = 0 at hzero
  rw [hzero]
  constructor
  · constructor
    · intro hcovered
      exact hnone.mp (Nat.le_zero.mp hcovered.1)
    · intro hunused
      rw [hnone.mpr hunused, hunused]
      refine ⟨le_rfl, Nat.zero_le _, fun hlimit => ?_⟩
      norm_num at hlimit
  · intro interval elapsed
    simp [rekeyCondition]

/-- After a rehandshake nothing is encrypted yet under the new key. -/
theorem key_limits_iff_unused_fresh :
    let argv : Params := ⟨5, 1024, 'N'.toUInt8, 'N'.toUInt8⟩
    let final := run (sendStep .little argv) (.start oldChannel oldChannel false)
      (noticeActs ++ rehandshakeActs newChannel)
    bytesUnder oldChannel.kSend final.2 = 1400 ∧
      bytesUnder final.1.srv.kSend final.2 ≤ final.1.bytesSent := by
  intro argv final
  exact ⟨by decide +kernel, ((key_limits_iff_unused .little argv (by decide) oldChannel
    oldChannel false (noticeActs ++ rehandshakeActs newChannel)).1.mpr
      (by decide +kernel)).1⟩

/-- `send_keepalive`, `n` times. -/
def keepaliveActs : Nat → List SendAct
  | 0 => []
  | n + 1 =>
      [.fetch (.keepalive (Octets.zero sessionIdLen)), .loopNext true true] ++ keepaliveActs n

theorem keepalive_run (order : Endian) (argv : Params) (uninit : Octets sessionIdLen)
    {s : SendThreads} (hidle : s.loop = .idle) :
    run (sendStep order argv) s [.fetch (.keepalive uninit), .loopNext true true] =
      ({ s with sendSeq := s.sendSeq + 1, loop := .idle },
        [.encrypted s.srv.kSend (Payload.plain order argv (.keepalive uninit)).length,
          .emitted ⟨s.srv.kSend, s.sendSeq, s.srv.sessionId, s.srv.sessionId⟩]) := by
  simp only [run, sendStep, hidle, loopNext, sendDrawn, if_true, List.nil_append,
    List.append_nil]

theorem keepalives_run (order : Endian) (argv : Params)
    (hfrag : tunnelHeaderLen ≤ argv.frag.toNat) (n : Nat) (s : SendThreads)
    (hidle : s.loop = .idle) :
    let final := run (sendStep order argv) s (keepaliveActs n)
    final.1.srv = s.srv ∧ final.1.bytesSent = s.bytesSent ∧
      final.1.sendSeq = s.sendSeq + BitVec.ofNat 64 n ∧
      bytesUnder s.srv.kSend final.2 = n * argv.frag.toNat := by
  induction n generalizing s with
  | zero => simp [keepaliveActs, run, bytesUnder]
  | succ n ih =>
      have hlength : (Payload.plain order argv
          (.keepalive (Octets.zero sessionIdLen))).length = argv.frag.toNat :=
        length_header_fill _ _ _ _ hfrag
      obtain ⟨hsrv, hbytes, hseq, hunder⟩ := ih
        { s with sendSeq := s.sendSeq + 1, loop := .idle } rfl
      dsimp only [keepaliveActs]
      rw [run_append, keepalive_run order argv _ hidle, hlength]
      refine ⟨hsrv, hbytes, ?_, ?_⟩
      · have hone : (1 : BitVec 64) + BitVec.ofNat 64 n = BitVec.ofNat 64 (n + 1) := by
          rw [BitVec.ofNat_add, BitVec.add_comm]
          rfl
        exact hseq.trans (by rw [BitVec.add_assoc, hone])
      · rw [bytesUnder_append, hunder, Nat.succ_mul, Nat.add_comm]
        simp [bytesUnder, SendEvent.bytes]

/-- With 1024 bytes a packet, 2 ^ 20 keepalives put 2 ^ 30 bytes under the first key, and
the rekey branch is not taken before the interval is over. -/
theorem byte_limit_ignored :
    let argv : Params := ⟨5, 1024, 'N'.toUInt8, 'N'.toUInt8⟩
    let final := run (sendStep .little argv) (.start oldChannel oldChannel false)
      (keepaliveActs (2 ^ 20))
    bytesUnder final.1.srv.kSend final.2 = 2 ^ 30 ∧ final.1.bytesSent = 0 ∧
      ∀ interval elapsed : Int, elapsed < interval →
        rekeyCondition interval elapsed final.1.bytesSent final.1.sendSeq = false := by
  intro argv final
  obtain ⟨hsrv, hbytes, hseq, hunder⟩ := keepalives_run .little argv (by decide) (2 ^ 20)
    (.start oldChannel oldChannel false) rfl
  change final.1.srv = _ at hsrv
  change final.1.bytesSent = 0 at hbytes
  change final.1.sendSeq = 0 + BitVec.ofNat 64 (2 ^ 20) at hseq
  refine ⟨?_, hbytes, fun interval elapsed hearly => ?_⟩
  · rw [hsrv]
    exact hunder.trans (by decide)
  · rw [hbytes, hseq, rekeyCondition]
    have hnot : ¬interval ≤ elapsed := not_le.mpr hearly
    have hfew : ¬rehandshakeSeqLimit ≤ (0 + BitVec.ofNat 64 (2 ^ 20)).toNat := by decide
    have hbelow : ¬rehandshakeBytesLimit ≤ 0 := by decide
    rw [decide_eq_false hnot, decide_eq_false hbelow, decide_eq_false hfew]
    rfl

end Chamlon.Client.Senders
