import Mathlib.Tactic
import Chamlon.Lib.Tickets

/-!
Which nonces the client uses under which key. Two threads share the counter
`servers[0].send_seq`. The event loop encrypts with `servers[0].k_send`, which
it replaces itself in `rehandshake_client_with_state`. The sender thread draws
its dummies from the same counter but encrypts them with its own copy of the
key, and takes over a new key only at the head of its loop.

Every shared memory access is a step of its own. The events are the pairs of
key and sequence number handed to `aead_encrypt`.
-/

namespace Chamlon.Client.NonceUse

open Machine Tickets

universe v

variable {κ : Type v}

inductive Thread where
  | eventLoop
  | sender
deriving DecidableEq, Repr

/-- Where the event loop is. The last three stand between the stores of
`rehandshake_client_with_state`. -/
inductive LoopAt (κ : Type v) where
  | idle
  | drawn (seq : BitVec 64)
  | installed (kSend : κ)
  | restarted (kSend : κ)
  | published

/-- Where `sender_thread_fn` is: before the test of `pending_rekey`, inside the
key swap, draining the queue, or in `send_one_dummy` with a number drawn. -/
inductive SenderAt where
  | head
  | swap
  | copied
  | zeroed
  | drain
  | drawn (seq : BitVec 64)
deriving DecidableEq

structure SendState (κ : Type v) where
  /-- `servers[0].k_send` and `servers[0].send_seq`. -/
  kSend : κ
  sendSeq : BitVec 64
  /-- `k_send`, `pending_k_send` and `pending_rekey` of the sender arguments. -/
  argKey : κ
  pendingKey : κ
  pendingRekey : Bool
  loop : LoopAt κ
  sender : SenderAt

inductive SendAct (κ : Type v) where
  /-- `atomic_fetch_add` in `handle_tun_packet`, `send_keepalive` or
  `send_disconnect`. -/
  | fetch
  /-- `client_handshake` succeeded: the new `k_send` is copied to `servers[0]`. -/
  | rehandshake (kSend : κ)
  /-- The next step of what the event loop has begun. -/
  | loopNext
  /-- The next step of the sender thread. -/
  | senderNext

/-- After the first handshake and `start_sender_thread`. The arguments are
allocated but their pending fields are not initialised. -/
def SendState.start (kSend pendingKey : κ) (pendingRekey : Bool) : SendState κ where
  kSend := kSend
  sendSeq := 0
  argKey := kSend
  pendingKey := pendingKey
  pendingRekey := pendingRekey
  loop := .idle
  sender := .head

def loopNext (s : SendState κ) : SendState κ × List (κ × BitVec 64) :=
  match s.loop with
  | .idle => (s, [])
  | .drawn seq => ({ s with loop := .idle }, [(s.kSend, seq)])
  | .installed kSend => ({ s with sendSeq := 0, loop := .restarted kSend }, [])
  | .restarted kSend => ({ s with pendingKey := kSend, loop := .published }, [])
  | .published => ({ s with pendingRekey := true, loop := .idle }, [])

/-- `zeroKey` is what `sodium_memzero` leaves of the pending key. -/
def senderNext (cbr : Bool) (zeroKey : κ) (s : SendState κ) :
    SendState κ × List (κ × BitVec 64) :=
  match s.sender with
  | .head => ({ s with sender := if s.pendingRekey then .swap else .drain }, [])
  | .swap => ({ s with argKey := s.pendingKey, sender := .copied }, [])
  | .copied => ({ s with pendingKey := zeroKey, sender := .zeroed }, [])
  | .zeroed => ({ s with pendingRekey := false, sender := .drain }, [])
  | .drain =>
      if cbr then
        ({ s with sendSeq := s.sendSeq + 1, sender := .drawn s.sendSeq }, [])
      else ({ s with sender := .head }, [])
  | .drawn seq => ({ s with sender := .head }, [(s.argKey, seq)])

def sendStep (cbr : Bool) (zeroKey : κ) (s : SendState κ) :
    SendAct κ → SendState κ × List (κ × BitVec 64)
  | .fetch =>
      match s.loop with
      | .idle => ({ s with sendSeq := s.sendSeq + 1, loop := .drawn s.sendSeq }, [])
      | _ => (s, [])
  | .rehandshake kSend =>
      match s.loop with
      | .idle => ({ s with kSend := kSend, loop := .installed kSend }, [])
      | _ => (s, [])
  | .loopNext => loopNext s
  | .senderNext => senderNext cbr zeroKey s

def SendAct.newKey : SendAct κ → Option κ
  | .rehandshake kSend => some kSend
  | _ => none

/-- The client with a ledger of its sequence numbers as history variable. The
ledger changes its key when the counter restarts. -/
structure Audited (κ : Type v) where
  state : SendState κ
  ledger : Ledger Thread κ

def Audited.start (kSend pendingKey : κ) (pendingRekey : Bool) : Audited κ :=
  ⟨.start kSend pendingKey pendingRekey, .init kSend⟩

def auditLedger (cbr : Bool) (s : Audited κ) : SendAct κ → Ledger Thread κ
  | .fetch =>
      match s.state.loop with
      | .idle => s.ledger.draw .eventLoop
      | _ => s.ledger
  | .rehandshake _ => s.ledger
  | .loopNext =>
      match s.state.loop with
      | .drawn _ => s.ledger.spend .eventLoop
      | .installed kSend => s.ledger.rekey kSend
      | _ => s.ledger
  | .senderNext =>
      match s.state.sender with
      | .drain => if cbr then s.ledger.draw .sender else s.ledger
      | .drawn _ => s.ledger.spend .sender
      | _ => s.ledger

def auditStep (cbr : Bool) (zeroKey : κ) (s : Audited κ) (a : SendAct κ) :
    Audited κ × List (κ × BitVec 64) :=
  (⟨(sendStep cbr zeroKey s.state a).1, auditLedger cbr s a⟩,
    (sendStep cbr zeroKey s.state a).2)

/-- The sender draws only while its copy of the key is the one the counter was
restarted for, and no key serves more than `2 ^ 64` numbers. -/
def KeyCurrent (cbr : Bool) (s : Audited κ) : SendAct κ → Prop
  | .fetch => s.ledger.count < 2 ^ 64
  | .senderNext => s.state.sender = .drain → cbr = true →
      s.ledger.count < 2 ^ 64 ∧ s.state.argKey = s.ledger.key
  | .rehandshake _ => True
  | .loopNext => True

instance [DecidableEq κ] (cbr : Bool) (s : Audited κ) :
    DecidablePred (KeyCurrent cbr s)
  | .fetch => inferInstanceAs (Decidable (_ < _))
  | .senderNext => inferInstanceAs (Decidable (_ → _ → _ ∧ _))
  | .rehandshake _ => inferInstanceAs (Decidable True)
  | .loopNext => inferInstanceAs (Decidable True)

/-- The number each thread has drawn and not used. -/
def SendState.seq (s : SendState κ) : Thread → Option (BitVec 64)
  | .eventLoop =>
      match s.loop with
      | .drawn seq => some seq
      | _ => none
  | .sender =>
      match s.sender with
      | .drawn seq => some seq
      | _ => none

/-- The key `rehandshake_client_with_state` is about to restart the counter for. -/
def SendState.incoming (s : SendState κ) : List κ :=
  match s.loop with
  | .installed kSend => [kSend]
  | _ => []

def Audited.known (s : Audited κ) : List κ := s.state.incoming ++ s.ledger.keys

/-- The ledger describes the client. The event loop's key is the counter's key
except between the two stores of a rekey; a number is held by a thread whose
key it was drawn for. -/
structure Agrees (past : List (κ × BitVec 64)) (s : Audited κ) : Prop where
  mirrors : Mirrors s.state.sendSeq s.state.seq past s.ledger
  loopKey : s.state.incoming = [] → s.state.kSend = s.ledger.key
  incoming : ∀ k ∈ s.state.incoming, s.state.kSend = k ∧ k ∉ s.ledger.keys
  loopHeld : ∀ t ∈ s.ledger.held .eventLoop, t.1 = s.state.kSend
  senderHeld : ∀ t ∈ s.ledger.held .sender, t.1 = s.state.argKey

theorem agrees_start (kSend pendingKey : κ) (pendingRekey : Bool) :
    Agrees [] (Audited.start kSend pendingKey pendingRekey) where
  mirrors := by
    have hseq : (SendState.start kSend pendingKey pendingRekey).seq =
        fun _ => none := by
      funext thread
      cases thread <;> rfl
    simp only [Audited.start, hseq]
    exact Mirrors.init kSend
  loopKey := fun _ => rfl
  incoming := by simp [Audited.start, SendState.start, SendState.incoming]
  loopHeld := by simp [Audited.start, Ledger.init]
  senderHeld := by simp [Audited.start, Ledger.init]

section Steps

variable {past : List (κ × BitVec 64)} {s : Audited κ}

theorem Agrees.held_none (h : Agrees past s) (thread : Thread)
    (hseq : s.state.seq thread = none) : s.ledger.held thread = none := by
  have hheld := h.mirrors.holders thread
  rw [hseq] at hheld
  exact Option.map_eq_none_iff.mp hheld.symm

/-- A step that touches neither counter, numbers, keys in use nor ledger. -/
theorem Agrees.frame (h : Agrees past s) (t : SendState κ)
    (hcounter : t.sendSeq = s.state.sendSeq) (hseq : t.seq = s.state.seq)
    (hincoming : t.incoming = s.state.incoming) (hkSend : t.kSend = s.state.kSend)
    (hargKey : t.argKey = s.state.argKey) :
    Agrees (past ++ []) ⟨t, s.ledger⟩ := by
  rw [List.append_nil]
  exact ⟨by rw [hcounter, hseq]; exact h.mirrors,
    by rw [hincoming, hkSend]; exact h.loopKey,
    by rw [hincoming, hkSend]; exact h.incoming,
    by rw [hkSend]; exact h.loopHeld, by rw [hargKey]; exact h.senderHeld⟩

theorem Agrees.fetch (h : Agrees past s) (cbr : Bool) (zeroKey : κ)
    (hok : KeyCurrent cbr s .fetch) :
    Agrees (past ++ (auditStep cbr zeroKey s .fetch).2)
      (auditStep cbr zeroKey s .fetch).1 := by
  cases hloop : s.state.loop with
  | idle =>
      have hkey := h.loopKey (by simp [SendState.incoming, hloop])
      have hdraw := h.mirrors.draw hok .eventLoop
      simp only [auditStep, sendStep, auditLedger, hloop, List.append_nil]
      refine ⟨?_, fun _ => hkey, by simp [SendState.incoming], ?_, ?_⟩
      · convert hdraw using 1
        funext thread
        cases thread <;> rfl
      · exact fun t ht => (Ledger.key_of_held_draw ht).trans hkey.symm
      · intro t ht
        exact h.senderHeld t ht
  | _ =>
      simp only [auditStep, sendStep, auditLedger, hloop]
      exact h.frame _ rfl rfl rfl rfl rfl

theorem Agrees.rehandshake (h : Agrees past s) (cbr : Bool) (zeroKey kSend : κ)
    (hnew : kSend ∉ s.known) :
    Agrees (past ++ (auditStep cbr zeroKey s (.rehandshake kSend)).2)
      (auditStep cbr zeroKey s (.rehandshake kSend)).1 := by
  cases hloop : s.state.loop with
  | idle =>
      have hnone := h.held_none .eventLoop (by simp [SendState.seq, hloop])
      have hkeys : kSend ∉ s.ledger.keys := fun hmem =>
        hnew (List.mem_append_right _ hmem)
      simp only [auditStep, sendStep, auditLedger, hloop, List.append_nil]
      refine ⟨?_, by simp [SendState.incoming], ?_, by simp [hnone], h.senderHeld⟩
      · convert h.mirrors using 1
        funext thread
        cases thread <;> simp [SendState.seq, hloop]
      · simpa [SendState.incoming] using hkeys
  | _ =>
      simp only [auditStep, sendStep, auditLedger, hloop]
      exact h.frame _ rfl rfl rfl rfl rfl

theorem Agrees.loopNext (h : Agrees past s) (cbr : Bool) (zeroKey : κ) :
    Agrees (past ++ (auditStep cbr zeroKey s .loopNext).2)
      (auditStep cbr zeroKey s .loopNext).1 := by
  cases hloop : s.state.loop with
  | idle =>
      simp only [auditStep, sendStep, NonceUse.loopNext, auditLedger, hloop]
      exact h.frame _ rfl rfl rfl rfl rfl
  | drawn seq =>
      have hkey := h.loopKey (by simp [SendState.incoming, hloop])
      have hspend := h.mirrors.spend (g := .eventLoop) (q := seq)
        (by simp [SendState.seq, hloop]) h.loopHeld
      simp only [auditStep, sendStep, NonceUse.loopNext, auditLedger, hloop]
      refine ⟨?_, fun _ => hkey, by simp [SendState.incoming], ?_, h.senderHeld⟩
      · convert hspend using 1
        funext thread
        cases thread <;> rfl
      · simp [Ledger.spend]
  | installed kSend =>
      have hnone := h.held_none .eventLoop (by simp [SendState.seq, hloop])
      obtain ⟨hkey, hkeys⟩ := h.incoming kSend (by simp [SendState.incoming, hloop])
      simp only [auditStep, sendStep, NonceUse.loopNext, auditLedger, hloop,
        List.append_nil]
      refine ⟨?_, fun _ => hkey, by simp [SendState.incoming], ?_, h.senderHeld⟩
      · convert h.mirrors.rekey hkeys using 1
        funext thread
        cases thread <;> simp [SendState.seq, hloop]
      · simp [Ledger.rekey, hnone]
  | restarted kSend =>
      simp only [auditStep, sendStep, NonceUse.loopNext, auditLedger, hloop]
      exact h.frame _ rfl (by funext thread; cases thread <;> simp [SendState.seq, hloop])
        (by simp [SendState.incoming, hloop]) rfl rfl
  | published =>
      simp only [auditStep, sendStep, NonceUse.loopNext, auditLedger, hloop]
      exact h.frame _ rfl (by funext thread; cases thread <;> simp [SendState.seq, hloop])
        (by simp [SendState.incoming, hloop]) rfl rfl

theorem Agrees.senderNext (h : Agrees past s) (cbr : Bool) (zeroKey : κ)
    (hok : KeyCurrent cbr s .senderNext) :
    Agrees (past ++ (auditStep cbr zeroKey s .senderNext).2)
      (auditStep cbr zeroKey s .senderNext).1 := by
  cases hsender : s.state.sender with
  | head =>
      simp only [auditStep, sendStep, NonceUse.senderNext, auditLedger, hsender]
      refine h.frame _ rfl ?_ rfl rfl rfl
      funext thread
      cases thread with
      | eventLoop => rfl
      | sender => cases hpending : s.state.pendingRekey <;> simp [SendState.seq, hsender]
  | swap =>
      have hnone := h.held_none .sender (by simp [SendState.seq, hsender])
      simp only [auditStep, sendStep, NonceUse.senderNext, auditLedger, hsender,
        List.append_nil]
      refine ⟨?_, h.loopKey, h.incoming, h.loopHeld, by simp [hnone]⟩
      convert h.mirrors using 1
      funext thread
      cases thread <;> simp [SendState.seq, hsender]
  | copied =>
      simp only [auditStep, sendStep, NonceUse.senderNext, auditLedger, hsender]
      exact h.frame _ rfl (by funext thread; cases thread <;> simp [SendState.seq, hsender])
        rfl rfl rfl
  | zeroed =>
      simp only [auditStep, sendStep, NonceUse.senderNext, auditLedger, hsender]
      exact h.frame _ rfl (by funext thread; cases thread <;> simp [SendState.seq, hsender])
        rfl rfl rfl
  | drain =>
      cases cbr with
      | false =>
          simp only [auditStep, sendStep, NonceUse.senderNext, auditLedger, hsender]
          exact h.frame _ rfl
            (by funext thread; cases thread <;> simp [SendState.seq, hsender]) rfl rfl rfl
      | true =>
          obtain ⟨hcount, hkey⟩ := hok hsender rfl
          have hdraw := h.mirrors.draw hcount .sender
          simp only [auditStep, sendStep, NonceUse.senderNext, auditLedger, hsender,
            if_true, List.append_nil]
          refine ⟨?_, h.loopKey, h.incoming, h.loopHeld, ?_⟩
          · convert hdraw using 1
            funext thread
            cases thread <;> rfl
          · exact fun t ht => (Ledger.key_of_held_draw ht).trans hkey.symm
  | drawn seq =>
      have hspend := h.mirrors.spend (g := .sender) (q := seq)
        (by simp [SendState.seq, hsender]) h.senderHeld
      simp only [auditStep, sendStep, NonceUse.senderNext, auditLedger, hsender]
      refine ⟨?_, h.loopKey, h.incoming, h.loopHeld, ?_⟩
      · convert hspend using 1
        funext thread
        cases thread <;> rfl
      · simp [Ledger.spend]

end Steps

theorem auditStep_known (cbr : Bool) (zeroKey : κ) (s : Audited κ) (a : SendAct κ) :
    (auditStep cbr zeroKey s a).1.known ⊆ a.newKey.toList ++ s.known := by
  intro k hk
  cases a with
  | fetch => cases hloop : s.state.loop <;>
      simp_all [auditStep, sendStep, auditLedger, Audited.known, SendState.incoming,
        SendAct.newKey, Ledger.draw, Ledger.keys]
  | rehandshake kSend => cases hloop : s.state.loop <;>
      simp_all [auditStep, sendStep, auditLedger, Audited.known, SendState.incoming,
        SendAct.newKey, Ledger.keys]
  | loopNext => cases hloop : s.state.loop <;>
      simp_all [auditStep, sendStep, NonceUse.loopNext, auditLedger, Audited.known,
        SendState.incoming, SendAct.newKey, Ledger.spend, Ledger.rekey, Ledger.keys]
  | senderNext => cases hsender : s.state.sender <;> cases cbr <;>
      simp_all [auditStep, sendStep, NonceUse.senderNext, auditLedger, Audited.known,
        SendState.incoming, SendAct.newKey, Ledger.spend, Ledger.draw, Ledger.keys]

/-- The ledger does not change what the threads do. -/
theorem auditStep_refines (cbr : Bool) (zeroKey : κ) (s : Audited κ)
    (acts : List (SendAct κ)) :
    (run (auditStep cbr zeroKey) s acts).2 = (run (sendStep cbr zeroKey) s.state acts).2 :=
  (run_related (auditStep cbr zeroKey) (sendStep cbr zeroKey)
    (fun s t => s.state = t) (fun _ => True)
    (by rintro s _ a rfl _; exact ⟨rfl, rfl⟩) s s.state acts rfl
    (fun _ _ => trivial)).2

/-- No pair of key and sequence number reaches `aead_encrypt` twice along a run
in which the sender thread draws its dummies only while its key is the one the
counter was restarted for. -/
theorem client_pairs_nodup (cbr : Bool) (zeroKey kSend pendingKey : κ)
    (pendingRekey : Bool) (acts : List (SendAct κ))
    (hkeys : (kSend :: acts.filterMap SendAct.newKey).Nodup)
    (hcurrent : Along (auditStep cbr zeroKey) (KeyCurrent cbr)
      (Audited.start kSend pendingKey pendingRekey) acts) :
    (run (sendStep cbr zeroKey)
      (SendState.start kSend pendingKey pendingRekey) acts).2.Nodup := by
  obtain ⟨hfirst, hlater⟩ := List.nodup_cons.mp hkeys
  have hfresh := along_fresh (auditStep cbr zeroKey) SendAct.newKey Audited.known
    (auditStep_known cbr zeroKey) (Audited.start kSend pendingKey pendingRekey) acts
    hlater (fun k hk => by rwa [List.mem_singleton.mp hk])
  have hagrees := run_history (auditStep cbr zeroKey) _ Agrees
    (fun past s a h hok => by
      cases a with
      | fetch => exact h.fetch cbr zeroKey hok.1
      | rehandshake k => exact h.rehandshake cbr zeroKey k (hok.2 k rfl)
      | loopNext => exact h.loopNext cbr zeroKey
      | senderNext => exact h.senderNext cbr zeroKey hok.1)
    [] (Audited.start kSend pendingKey pendingRekey) acts
    (agrees_start kSend pendingKey pendingRekey)
    (Along.and (auditStep cbr zeroKey) hcurrent hfresh)
  rw [List.nil_append, auditStep_refines] at hagrees
  exact hagrees.mirrors.nodup

/-- A dummy and a packet before a rekey, and a dummy after the sender has taken
the new key over. -/
theorem client_pairs_nodup_rekeyed :
    let acts : List (SendAct Nat) := [.senderNext, .fetch, .senderNext, .loopNext,
      .senderNext, .rehandshake 8, .loopNext, .loopNext, .loopNext, .senderNext,
      .senderNext, .senderNext, .senderNext, .senderNext, .senderNext]
    ((7 : Nat) :: acts.filterMap SendAct.newKey).Nodup ∧
      Along (auditStep true 0) (KeyCurrent true) (Audited.start 7 0 false) acts ∧
      (run (sendStep true 0) (SendState.start 7 0 false) acts).2.Nodup := by
  intro acts
  have hkeys : ((7 : Nat) :: acts.filterMap SendAct.newKey).Nodup := by decide
  have hcurrent : Along (auditStep true 0) (KeyCurrent true)
      (Audited.start 7 0 false) acts := by decide
  exact ⟨hkeys, hcurrent, client_pairs_nodup true 0 7 0 false acts hkeys hcurrent⟩

/-- The counter restarts for key 8 while the sender still encrypts with key 7:
its next dummy repeats number 0 under key 7. -/
theorem client_pair_repeated :
    let acts : List (SendAct Nat) := [.senderNext, .senderNext, .senderNext,
      .rehandshake 8, .loopNext, .senderNext, .senderNext, .senderNext]
    ((7 : Nat) :: acts.filterMap SendAct.newKey).Nodup ∧
      (run (sendStep true 0) (SendState.start 7 0 false) acts).2 =
        [(7, 0), (7, 0)] := by
  decide

end Chamlon.Client.NonceUse
