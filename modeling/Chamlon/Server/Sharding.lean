import Mathlib.Tactic
import Chamlon.Server.Cases
import Chamlon.Agreement.Honest

/-!
Which worker a datagram goes to. The receive loop of `main` takes the first byte of the
session id as shard key, but only from datagrams of type `PKT_TYPE_DATA`. The workers
look up a session for every type except `PKT_TYPE_HANDSHAKE`. So two workers can serve
one session, and its replay window has no lock of its own.
-/

namespace Chamlon.Server

open Config Memory

/-- The header check of the receive loop in `main`. -/
def mainAccepts (order : Endian) (tmp : Bytes) : Bool :=
  decide (protoHeaderLen ≤ tmp.length) && decide (tmp.length ≤ bufferSize - 1) &&
    headerAccepted order tmp

/-- `main` takes the shard key from the session id. -/
def KeyedById (tmp : Bytes) : Prop :=
  packetType tmp = pktTypeData ∧ protoHeaderLen + sessionIdLen ≤ tmp.length

instance (tmp : Bytes) : Decidable (KeyedById tmp) := inferInstanceAs (Decidable (_ ∧ _))

def shardKey (tmp : Bytes) : UInt8 :=
  if KeyedById tmp then peek tmp (fun _ => 0) protoHeaderLen else 0

/-- `thread_pool_submit_sharded` with `n` worker threads. -/
def shardOf (n : Nat) [NeZero n] (tmp : Bytes) : Fin n := Fin.ofNat n (shardKey tmp).toNat

/-- `session_id[0]`. -/
def firstByte (sessionId : Octets sessionIdLen) : UInt8 :=
  peek sessionId.val (fun _ => 0) 0

theorem lookup_sessionId {env : Env} {buf : Bytes} {sessions : Sessions} {i : Slot}
    (h : lookup env buf sessions = some i) :
    (sessions i).sessionId =
      Octets.read sessionIdLen (peek buf env.past) protoHeaderLen :=
  (sessionById_eq_some h).2

theorem shardKey_of_lookup {env : Env} {buf : Bytes} {sessions : Sessions} {i : Slot}
    (h : lookup env buf sessions = some i) :
    shardKey buf = if KeyedById buf then firstByte (sessions i).sessionId else 0 := by
  unfold shardKey
  split
  next hkeyed =>
    have hlong : protoHeaderLen + sessionIdLen ≤ buf.length := hkeyed.2
    have hin : protoHeaderLen < buf.length := Nat.lt_of_lt_of_le (by decide) hlong
    rw [lookup_sessionId h, firstByte, peek, peek, Octets.read_peek_val _ _ _ _ hlong,
      List.getD_eq_getElem?_getD, List.getD_eq_getElem?_getD, getElem?_slice,
      if_pos (by decide), Nat.add_zero, List.getElem?_eq_getElem hin]
  next => rfl

theorem shardOf_eq_iff {n : Nat} [NeZero n] (first second : Bytes) :
    shardOf n first = shardOf n second ↔
      (shardKey first).toNat % n = (shardKey second).toNat % n := by
  rw [Fin.ext_iff]
  exact Iff.rfl

/-- Two datagrams whose session lookup finds the same slot, with the same session id in
it, go to the same worker exactly when `main` treats both alike or the first byte of
the id selects worker 0 anyway. -/
theorem same_shard_iff (n : Nat) [NeZero n] (order : Endian) (sessions sessions' : Sessions)
    (env env' : Env) (d d' : Bytes) (i : Slot)
    (hkeys : (sessions' i).sessionId = (sessions i).sessionId)
    (hd : ReachesLookup order env d ∧ lookup env d sessions = some i)
    (hd' : ReachesLookup order env' d' ∧ lookup env' d' sessions' = some i) :
    shardOf n d = shardOf n d' ↔
      (KeyedById d ↔ KeyedById d') ∨ (firstByte (sessions i).sessionId).toNat % n = 0 := by
  rw [shardOf_eq_iff, shardKey_of_lookup hd.2, shardKey_of_lookup hd'.2, hkeys]
  have hzero : (0 : UInt8).toNat % n = 0 := Nat.zero_mod n
  generalize firstByte (sessions i).sessionId = byte
  by_cases hkeyed : KeyedById d
  · by_cases hkeyed' : KeyedById d'
    · rw [if_pos hkeyed, if_pos hkeyed']
      exact ⟨fun _ => Or.inl ⟨fun _ => hkeyed', fun _ => hkeyed⟩, fun _ => rfl⟩
    · rw [if_pos hkeyed, if_neg hkeyed', hzero]
      exact ⟨Or.inr, fun h => h.resolve_left fun hsame => hkeyed' (hsame.mp hkeyed)⟩
  · by_cases hkeyed' : KeyedById d'
    · rw [if_neg hkeyed, if_pos hkeyed', hzero]
      exact ⟨fun h => Or.inr h.symm,
        fun h => (h.resolve_left fun hsame => hkeyed (hsame.mpr hkeyed')).symm⟩
    · rw [if_neg hkeyed, if_neg hkeyed']
      exact ⟨fun _ => Or.inl ⟨fun h => absurd h hkeyed, fun h => absurd h hkeyed'⟩,
        fun _ => rfl⟩

/-- Datagram number 1 of the session in slot 0 of `Agreement.greeted`, of any type. -/
def greetedDatagram (type : UInt8) : Bytes :=
  (protoHeader .little type).val ++ (Agreement.greeted.1 0).sessionId.val ++
    (Sodium.seqBytes 1).val ++ [0]

/-- The next datagram of the session: another number and a longer ciphertext. -/
def nextDatagram : Bytes :=
  (protoHeader .little pktTypeData).val ++ (Agreement.greeted.1 0).sessionId.val ++
    (Sodium.seqBytes 2).val ++ [7, 8, 9]

/-- Two data datagrams of one session, with three workers. -/
theorem same_shard_iff_data :
    let env := Agreement.calmEnv 1 3
    let env' := Agreement.calmEnv 2 3
    let d := greetedDatagram pktTypeData
    (ReachesLookup .little env d ∧ lookup env d Agreement.greeted.1 = some 0) ∧
      (ReachesLookup .little env' nextDatagram ∧
        lookup env' nextDatagram Agreement.greeted.1 = some 0) ∧
      d ≠ nextDatagram ∧ shardOf 3 d = shardOf 3 nextDatagram := by
  intro env env' d
  have hd : ReachesLookup .little env d ∧ lookup env d Agreement.greeted.1 = some 0 := by
    decide +kernel
  have hd' : ReachesLookup .little env' nextDatagram ∧
      lookup env' nextDatagram Agreement.greeted.1 = some 0 := by
    decide +kernel
  have hboth : KeyedById d ↔ KeyedById nextDatagram := by decide +kernel
  exact ⟨hd, hd', by decide +kernel,
    (same_shard_iff 3 .little _ _ env env' d nextDatagram 0 rfl hd hd').mpr (.inl hboth)⟩

/-- The same datagram with type byte 0 is looked up and checked like one of type
`PKT_TYPE_DATA`, by another worker. -/
theorem other_type_other_shard :
    let env := Agreement.calmEnv 1 3
    let d := greetedDatagram pktTypeData
    let d' := greetedDatagram 0
    mainAccepts .little d = true ∧ mainAccepts .little d' = true ∧
      (ReachesLookup .little env d ∧ lookup env d Agreement.greeted.1 = some 0) ∧
      (ReachesLookup .little env d' ∧ lookup env d' Agreement.greeted.1 = some 0) ∧
      shardOf 3 d = 1 ∧ shardOf 3 d' = 0 := by
  decide +kernel

end Chamlon.Server
