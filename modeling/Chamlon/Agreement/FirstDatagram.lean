import Mathlib.Tactic
import Chamlon.ReplayHistory
import Chamlon.Server.Leaves
import Chamlon.Client.Rehandshake
import Chamlon.Agreement.Honest

/-!
The datagrams of one direction on a network that delivers all of them in order. The
sender counts from the number that the handshake left in `send_seq`, the receiver
starts from the window that the handshake left there. Both programs restart the
counter at zero, in the first handshake and in a rehandshake, and both reject number
zero: each direction loses the first datagram after each handshake, and nothing else.
-/

namespace Chamlon.Agreement

open Config Memory Machine Server Client ReplayWindow

/-- What a side encrypts. Each of them takes one number from `send_seq`. -/
inductive Datagram where
  | data
  | dummy
  | keepalive
  | control
deriving DecidableEq, Repr

/-- `atomic_fetch_add(&send_seq, 1)`. -/
def drawSeq (sendSeq : BitVec 64) (_ : Datagram) : BitVec 64 × List (BitVec 64) :=
  (sendSeq + 1, [sendSeq])

/-- The counter of one direction and the window of the other, at one side. -/
structure Endpoint where
  sendSeq : BitVec 64
  rw : ReplayWindow bitmapWords

def Endpoint.ofSession (s : Session) : Endpoint := ⟨s.sendSeq, s.rw⟩

def Endpoint.ofConnection (srv : Connection) : Endpoint := ⟨srv.sendSeq, srv.rw⟩

/-- A side that has just completed a handshake: a slot of the server that a datagram
has put a session into, and the client's connection after its first handshake or
after a rehandshake. -/
inductive Established : Endpoint → Prop where
  | server (na : Sodium) (keys : ServerKeys) (order : Endian) (env : Env) (src : SockAddr)
      (buf : Bytes) (sessions : Sessions) (i : Slot) (sessionId : Octets sessionIdLen)
      (hinstalled : .installed i sessionId ∈
        (handleInboundUdp na keys order env src buf sessions).2)
      (hactive : ((handleInboundUdp na keys order env src buf sessions).1 i).active = true) :
      Established (.ofSession ((handleInboundUdp na keys order env src buf sessions).1 i))
  | client (session : ClientSession) (now : Int) :
      Established (.ofConnection (.opened session now))
  | clientAgain (srv : Connection) (new : ClientSession) (now : Int) :
      Established (.ofConnection (srv.rehandshakeSucceeded new now))

theorem Established.fresh {side : Endpoint} (h : Established side) :
    side.sendSeq = 0 ∧ side.rw = .zero := by
  cases h with
  | server na keys order env src buf sessions i sessionId hinstalled hactive =>
      exact handleInboundUdp_installed hinstalled hactive
  | client session now => exact ⟨rfl, rfl⟩
  | clientAgain srv new now => exact ⟨rfl, rfl⟩

/-- The numbers of these datagrams as the receiver's window judges them, in order. -/
def verdicts (sender receiver : Endpoint) (sent : List Datagram) :
    List (BitVec 64 × Bool) :=
  (run windowStep receiver.rw (run drawSeq sender.sendSeq sent).2).2

theorem drawSeq_run (sent : List Datagram) (n : Nat) :
    (run drawSeq (BitVec.ofNat 64 n) sent).2 =
      (List.range' n sent.length).map (BitVec.ofNat 64) := by
  induction sent generalizing n with
  | nil => rfl
  | cons datagram rest ih =>
      have hnext := ih (n + 1)
      rw [BitVec.ofNat_add] at hnext
      rw [List.length_cons, List.range'_succ, List.map_cons, ← hnext]
      rfl

/-- What a window has seen of the numbers below `n`, when they came in order. -/
def seenBelow (n : Nat) : Set (BitVec 64) := { x | x ≠ 0 ∧ x.toNat < n }

section InOrder

variable {w : ReplayWindow bitmapWords} {n : Nat}

theorem ofNat_ne_zero (h : 0 < n ∧ n < 2 ^ 64) : BitVec.ofNat 64 n ≠ 0 := by
  intro hzero
  have hnat := congrArg BitVec.toNat hzero
  rw [BitVec.toNat_ofNat, Nat.mod_eq_of_lt h.2] at hnat
  exact h.1.ne' hnat

theorem checkReplay_next (h : Remembers w (seenBelow n)) :
    w.checkReplay (BitVec.ofNat 64 n) = false ↔ 0 < n ∧ n < 2 ^ 64 := by
  have hmod : (BitVec.ofNat 64 n).toNat = n % 2 ^ 64 := BitVec.toNat_ofNat n 64
  rw [h.accepts_iff (by decide)]
  constructor
  · rintro ⟨hne, haccepted⟩
    have hbelow : n < 2 ^ 64 := by
      by_contra hwrapped
      have hseen : BitVec.ofNat 64 n ∈ seenBelow n := ⟨hne, by omega⟩
      rcases haccepted with hbeyond | ⟨_, hnew⟩
      · have hle := h.le_max _ hseen
        omega
      · exact hnew hseen
    refine ⟨Nat.pos_of_ne_zero fun hzero => hne ?_, hbelow⟩
    rw [hzero]
    rfl
  · rintro ⟨hpos, hbelow⟩
    rw [Nat.mod_eq_of_lt hbelow] at hmod
    refine ⟨ofNat_ne_zero ⟨hpos, hbelow⟩, Or.inl ?_⟩
    rw [hmod]
    rcases h.max_mem with hmax | hmax
    · rw [hmax]
      exact hpos
    · exact hmax.2

/-- One more number in order: the window has then seen the numbers below `n + 1`. -/
theorem windowStep_next (h : Remembers w (seenBelow n)) :
    (windowStep w (BitVec.ofNat 64 n)).2 =
        [(BitVec.ofNat 64 n, decide (0 < n ∧ n < 2 ^ 64))] ∧
      Remembers (windowStep w (BitVec.ofNat 64 n)).1 (seenBelow (n + 1)) := by
  have hmod : (BitVec.ofNat 64 n).toNat = n % 2 ^ 64 := BitVec.toNat_ofNat n 64
  have hverdict := checkReplay_next h
  unfold windowStep
  by_cases hnext : 0 < n ∧ n < 2 ^ 64
  · rw [Nat.mod_eq_of_lt hnext.2] at hmod
    have hne := ofNat_ne_zero hnext
    have hgrown : seenBelow (n + 1) = insert (BitVec.ofNat 64 n) (seenBelow n) := by
      ext x
      rw [Set.mem_insert_iff]
      constructor
      · rintro ⟨hx, hlt⟩
        by_cases hlast : x.toNat = n
        · exact Or.inl (BitVec.eq_of_toNat_eq (by omega))
        · exact Or.inr ⟨hx, by omega⟩
      · rintro (rfl | ⟨hx, hlt⟩)
        · exact ⟨hne, by omega⟩
        · exact ⟨hx, by omega⟩
    rw [hverdict.mpr hnext, decide_eq_true hnext, hgrown]
    exact ⟨rfl, h.update (by decide) hne⟩
  · have hrefused : w.checkReplay (BitVec.ofNat 64 n) = true := by
      rw [← Bool.not_eq_false, hverdict]
      exact hnext
    have hsame : seenBelow (n + 1) = seenBelow n := by
      ext x
      have hx := x.isLt
      refine and_congr_right fun hne => ?_
      have hpos : x.toNat ≠ 0 := fun hzero => hne (BitVec.eq_of_toNat_eq hzero)
      omega
    rw [hrefused, decide_eq_false hnext, hsame]
    exact ⟨rfl, h⟩

theorem windowStep_run (h : Remembers w (seenBelow n)) (count : Nat) :
    (run windowStep w ((List.range' n count).map (BitVec.ofNat 64))).2 =
      (List.range' n count).map fun k =>
        (BitVec.ofNat 64 k, decide (0 < k ∧ k < 2 ^ 64)) := by
  induction count generalizing w n with
  | zero => rfl
  | succ count ih =>
      obtain ⟨hverdict, hnext⟩ := windowStep_next h
      rw [List.range'_succ, List.map_cons, List.map_cons, run]
      dsimp only
      rw [hverdict, ih hnext]
      rfl

end InOrder

theorem remembers_seenBelow_zero :
    Remembers (.zero : ReplayWindow bitmapWords) (seenBelow 0) := by
  have hnone : seenBelow 0 = ∅ := by
    ext x
    exact ⟨fun h => absurd h.2 (Nat.not_lt_zero _), fun h => absurd h (Set.notMem_empty x)⟩
  rw [hnone]
  exact remembers_zero

/-- Between two sides that have just completed a handshake a datagram that arrives in
order is accepted exactly when it is not the first one, as long as the counter does
not wrap. -/
theorem in_order_accepted_iff {sender receiver : Endpoint} (hsender : Established sender)
    (hreceiver : Established receiver) (sent : List Datagram) (k : Nat)
    (hk : k < sent.length) :
    ∃ accepted, (verdicts sender receiver sent)[k]? = some (BitVec.ofNat 64 k, accepted) ∧
      (accepted = true ↔ 0 < k ∧ k < 2 ^ 64) := by
  refine ⟨decide (0 < k ∧ k < 2 ^ 64), ?_, decide_eq_true_iff⟩
  have hzero : (0 : BitVec 64) = BitVec.ofNat 64 0 := rfl
  rw [verdicts, hsender.fresh.1, hreceiver.fresh.2, hzero, drawSeq_run,
    windowStep_run remembers_seenBelow_zero, List.getElem?_map,
    List.getElem?_range' hk, Option.map_some, Nat.one_mul, Nat.zero_add]

theorem greeted_established :
    Established (.ofSession (greeted.1 0)) := by
  have hinstalled : .installed 0 (greeted.1 0).sessionId ∈ greeted.2 := by decide +kernel
  have hactive : (greeted.1 0).active = true := by decide +kernel
  generalize (greeted.1 0).sessionId = sessionId at hinstalled
  unfold greeted at hinstalled hactive ⊢
  exact .server _ _ _ _ _ _ _ 0 sessionId hinstalled hactive

/-- The client's second datagram to that slot. -/
theorem in_order_accepted_iff_second :
    let client := Endpoint.ofConnection (.opened (clientView (greeted.1 0)) 0)
    ∃ accepted,
      (verdicts client (.ofSession (greeted.1 0)) [.keepalive, .data])[1]? =
        some (BitVec.ofNat 64 1, accepted) ∧
      (accepted = true ↔ 0 < 1 ∧ 1 < 2 ^ 64) :=
  in_order_accepted_iff (.client (clientView (greeted.1 0)) 0) greeted_established
    [.keepalive, .data] 1 (by decide)

/-- The first datagram of each direction is refused: by the window, and by the
server's inbound path, where the client's keepalive ends as a validation error. -/
theorem first_datagram_refused :
    let slot := greeted.1 0
    let srv := Connection.opened (clientView slot) 0
    let keepalive := (protoHeader .little pktTypeData).val ++ srv.session.sessionId.val ++
      (Sodium.seqBytes srv.sendSeq).val ++ [2]
    Matches slot srv.session ∧
      verdicts (.ofConnection srv) (.ofSession slot) [.keepalive, .data] =
        [(0, false), (1, true)] ∧
      verdicts (.ofSession slot) (.ofConnection srv) [.keepalive, .data] =
        [(0, false), (1, true)] ∧
      (handleInboundUdp Sodium.xorSodium zeroKeys .little (calmEnv 1 3) ⟨1, 2⟩ keepalive
        greeted.1).2 = [.packetRateCheck 1 .ok, .packetReceived 31, .validationError] := by
  decide +kernel

end Chamlon.Agreement
