import Mathlib.Tactic
import Chamlon.Client.RekeyLoop
import Chamlon.Client.Traffic
import Chamlon.Lib.Machine

/-!
The two threads of the client that send. The event loop encrypts with `servers[0]`, which
it overwrites itself after a rehandshake, except that `send_disconnect` takes the session
id from `g_session_id`. The sender thread has its own copy of key and session id, with a
prepared header for dummies. It takes over a new pair at the head of its loop through the
pending fields, and it is this thread that then sets `g_session_id`.

Every `memcpy` to or from memory that the other thread uses is a step. The queue hands
out or drops any of its packets, as the order does not matter here.
-/

namespace Chamlon.Client.Senders

open Config Memory Machine

/-- An encrypted datagram: the key, number and associated data it was sealed with, and
the session id in its header. -/
structure Sealed where
  key : Octets aeadKeyLen
  seq : BitVec 64
  boundId : Octets sessionIdLen
  headerId : Octets sessionIdLen
deriving DecidableEq

inductive SendEvent where
  /-- So many bytes of plaintext were encrypted under the key. -/
  | encrypted (key : Octets aeadKeyLen) (length : Nat)
  | emitted (pkt : Sealed)
deriving DecidableEq

/-- Where the event loop is: between two calls, in a call that has drawn its number, in
`send_disconnect` before it writes the header, or between the stores of
`rehandshake_client_with_state`. -/
inductive LoopAt where
  | idle
  | drawn (seq : BitVec 64) (payload : Payload)
  | noticed (key : Octets aeadKeyLen) (seq : BitVec 64) (boundId : Octets sessionIdLen)
  | keyStored (new : Channel)
  | idStored (new : Channel)
  | restarted (new : Channel)
  | pendingKeyStored (new : Channel)
  | pendingIdStored

/-- Where `sender_thread_fn` is: before the test of `pending_rekey`, before each of the
stores of the key swap, draining the queue, in `send_one_dummy`, or behind its loop. -/
inductive SenderAt where
  | head
  | copyKey
  | copyId
  | copyGlobalId
  | prepareDummy
  | clearKey
  | clearId
  | clearFlag
  | drain
  | drawn (seq : BitVec 64)
  | exited
deriving DecidableEq

structure SendThreads where
  /-- `k_send`, `session_id`, `send_seq` and `bytes_sent` of `servers[0]`. -/
  srv : Channel
  sendSeq : BitVec 64
  bytesSent : Nat
  gSessionId : Octets sessionIdLen
  /-- The sender's arguments. -/
  arg : Channel
  pending : Channel
  pendingRekey : Bool
  /-- The session id in `final_pkt_dummy`. -/
  dummyId : Octets sessionIdLen
  outq : List Sealed
  loop : LoopAt
  sender : SenderAt
  /-- History: the handshakes that were completed. -/
  completed : List Channel

/-- After the first handshake and `start_sender_thread`, which leaves the pending fields
as `malloc` returns them. -/
def SendThreads.start (first pending : Channel) (pendingRekey : Bool) : SendThreads where
  srv := first
  sendSeq := 0
  bytesSent := 0
  gSessionId := first.sessionId
  arg := first
  pending := pending
  pendingRekey := pendingRekey
  dummyId := first.sessionId
  outq := []
  loop := .idle
  sender := .head
  completed := [first]

inductive SendAct where
  /-- `atomic_fetch_add` in a call of the event loop that sends this. -/
  | fetch (payload : Payload)
  /-- `client_handshake` has returned 0 in a rehandshake. -/
  | rehandshake (new : Channel)
  /-- The next step of the event loop. Encryption and allocation may fail. -/
  | loopNext (encrypts allocated : Bool)
  /-- The next step of the sender thread. -/
  | senderNext (encrypts : Bool)
  /-- A packet leaves the queue, to be sent by the sender thread or dropped. -/
  | dequeue (i : Nat) (sent : Bool)

section Steps

variable (order : Endian) (argv : Params)

/-- The call behind its `fetch_add`: encryption, and what is done with the packet. -/
def sendDrawn (s : SendThreads) (seq : BitVec 64) (payload : Payload) (allocated : Bool) :
    SendThreads × List SendEvent :=
  let sealing := SendEvent.encrypted s.srv.kSend (payload.plain order argv).length
  let pkt : Sealed := ⟨s.srv.kSend, seq, s.srv.sessionId, s.srv.sessionId⟩
  match payload with
  | .fragment _ _ _ _ =>
      ({ s with loop := .idle, outq := if allocated then s.outq ++ [pkt] else s.outq },
        [sealing])
  | .keepalive _ => ({ s with loop := .idle }, [sealing, .emitted pkt])
  | .disconnect _ =>
      ({ s with loop := .noticed s.srv.kSend seq s.gSessionId }, [sealing])
  | .dummy => ({ s with loop := .idle }, [])

def loopNext (s : SendThreads) (encrypts allocated : Bool) :
    SendThreads × List SendEvent :=
  match s.loop with
  | .idle => (s, [])
  | .drawn seq payload =>
      if encrypts then sendDrawn order argv s seq payload allocated
      else ({ s with loop := .idle }, [])
  | .noticed key seq boundId =>
      -- The notice is sent three times.
      ({ s with loop := .idle },
        List.replicate 3 (.emitted ⟨key, seq, boundId, s.gSessionId⟩))
  | .keyStored new =>
      ({ s with srv := { s.srv with sessionId := new.sessionId }, loop := .idStored new }, [])
  | .idStored new => ({ s with sendSeq := 0, bytesSent := 0, loop := .restarted new }, [])
  | .restarted new =>
      ({ s with
          pending := { s.pending with kSend := new.kSend }
          loop := .pendingKeyStored new }, [])
  | .pendingKeyStored new =>
      ({ s with
          pending := { s.pending with sessionId := new.sessionId }
          loop := .pendingIdStored }, [])
  | .pendingIdStored => ({ s with pendingRekey := true, loop := .idle }, [])

def senderNext (s : SendThreads) (encrypts : Bool) : SendThreads × List SendEvent :=
  match s.sender with
  | .head => ({ s with sender := if s.pendingRekey then .copyKey else .drain }, [])
  | .copyKey =>
      ({ s with arg := { s.arg with kSend := s.pending.kSend }, sender := .copyId }, [])
  | .copyId =>
      ({ s with
          arg := { s.arg with sessionId := s.pending.sessionId }
          sender := .copyGlobalId }, [])
  | .copyGlobalId =>
      ({ s with gSessionId := s.arg.sessionId, sender := .prepareDummy }, [])
  | .prepareDummy => ({ s with dummyId := s.arg.sessionId, sender := .clearKey }, [])
  | .clearKey =>
      ({ s with
          pending := { s.pending with kSend := Octets.zero aeadKeyLen }
          sender := .clearId }, [])
  | .clearId =>
      ({ s with
          pending := { s.pending with sessionId := Octets.zero sessionIdLen }
          sender := .clearFlag }, [])
  | .clearFlag => ({ s with pendingRekey := false, sender := .drain }, [])
  | .drain =>
      if argv.cbr = 'Y'.toUInt8 then
        ({ s with sendSeq := s.sendSeq + 1, sender := .drawn s.sendSeq }, [])
      else ({ s with sender := .head }, [])
  | .drawn seq =>
      if encrypts then
        ({ s with sender := .head },
          [.encrypted s.arg.kSend (Payload.plain order argv .dummy).length,
            .emitted ⟨s.arg.kSend, seq, s.arg.sessionId, s.dummyId⟩])
      else ({ s with sender := .exited }, [])
  | .exited => (s, [])

def sendStep (s : SendThreads) : SendAct → SendThreads × List SendEvent
  | .fetch payload =>
      match s.loop with
      | .idle => ({ s with sendSeq := s.sendSeq + 1, loop := .drawn s.sendSeq payload }, [])
      | _ => (s, [])
  | .rehandshake new =>
      match s.loop with
      | .idle =>
          ({ s with
              srv := { s.srv with kSend := new.kSend }
              loop := .keyStored new
              completed := new :: s.completed }, [])
      | _ => (s, [])
  | .loopNext encrypts allocated => loopNext order argv s encrypts allocated
  | .senderNext encrypts => senderNext order argv s encrypts
  | .dequeue i sent =>
      match s.outq[i]? with
      | none => (s, [])
      | some pkt =>
          if sent = true ∧ s.sender ≠ .drain then (s, [])
          else ({ s with outq := s.outq.eraseIdx i }, if sent then [.emitted pkt] else [])

end Steps

/-- Key, associated data and header belong to one of these handshakes. -/
def Matches (completed : List Channel) (pkt : Sealed) : Prop :=
  ∃ handshake ∈ completed, pkt.key = handshake.kSend ∧
    pkt.boundId = handshake.sessionId ∧ pkt.headerId = handshake.sessionId

/-- The pending fields are being written. -/
def LoopAt.publishing : LoopAt → Bool
  | .pendingKeyStored _ | .pendingIdStored => true
  | _ => false

/-- The pending fields are being read or cleared. -/
def SenderAt.swapping : SenderAt → Bool
  | .head | .drain | .drawn _ | .exited => false
  | _ => true

/-- The next step of the event loop keeps the copies apart: `send_disconnect` reads
`g_session_id` when it is the session id of `servers[0]`, and the stores to the pending
fields do not begin during a key swap. -/
def LoopAt.Orderly (s : SendThreads) : LoopAt → Prop
  | .drawn _ (.disconnect _) => s.gSessionId = s.srv.sessionId
  | .noticed _ _ _ => s.gSessionId = s.srv.sessionId
  | .restarted _ => s.sender.swapping = false
  | _ => True

/-- So does the next step, the sender's too: a key swap does not begin between the stores
to the pending fields. -/
def Orderly (s : SendThreads) : SendAct → Prop
  | .loopNext _ _ => s.loop.Orderly s
  | .senderNext _ => s.sender = .head → s.pendingRekey = true → s.loop.publishing = false
  | _ => True

instance (s : SendThreads) : (place : LoopAt) → Decidable (place.Orderly s)
  | .drawn _ (.disconnect _) => inferInstanceAs (Decidable (s.gSessionId = s.srv.sessionId))
  | .noticed _ _ _ => inferInstanceAs (Decidable (s.gSessionId = s.srv.sessionId))
  | .restarted _ => inferInstanceAs (Decidable (s.sender.swapping = false))
  | .drawn _ (.fragment _ _ _ _) | .drawn _ (.keepalive _) | .drawn _ .dummy | .idle
  | .keyStored _ | .idStored _ | .pendingKeyStored _ | .pendingIdStored =>
      inferInstanceAs (Decidable True)

instance (s : SendThreads) : DecidablePred (Orderly s)
  | .loopNext _ _ => inferInstanceAs (Decidable (s.loop.Orderly s))
  | .senderNext _ => inferInstanceAs (Decidable (_ → _ → _))
  | .fetch _ | .rehandshake _ | .dequeue _ _ => inferInstanceAs (Decidable True)

def LoopPaired (s : SendThreads) : Prop :=
  match s.loop with
  | .idle | .drawn _ _ => s.srv ∈ s.completed
  | .noticed key _ boundId =>
      s.srv ∈ s.completed ∧ key = s.srv.kSend ∧ boundId = s.srv.sessionId
  | .keyStored new => new ∈ s.completed ∧ s.srv.kSend = new.kSend
  | .idStored new | .restarted new => new ∈ s.completed ∧ s.srv = new
  | .pendingKeyStored new =>
      new ∈ s.completed ∧ s.srv = new ∧ s.pending.kSend = new.kSend
  | .pendingIdStored => s.srv ∈ s.completed ∧ s.pending ∈ s.completed

def SenderPaired (s : SendThreads) : Prop :=
  match s.sender with
  | .copyKey => s.pending ∈ s.completed
  | .copyId => s.pending ∈ s.completed ∧ s.arg.kSend = s.pending.kSend
  | .copyGlobalId | .prepareDummy => s.arg ∈ s.completed
  | _ => s.arg ∈ s.completed ∧ s.dummyId = s.arg.sessionId

/-- Every pair that is in use, or will be, comes from one handshake. -/
structure Paired (s : SendThreads) : Prop where
  loop : LoopPaired s
  sender : SenderPaired s
  pending : s.pendingRekey = true → s.loop.publishing = false → s.sender.swapping = false →
    s.pending ∈ s.completed
  exclusive : s.sender.swapping = true → s.loop.publishing = false
  queue : ∀ pkt ∈ s.outq, Matches s.completed pkt

theorem paired_start (first pending : Channel) :
    Paired (SendThreads.start first pending false) where
  loop := List.mem_singleton_self first
  sender := ⟨List.mem_singleton_self first, rfl⟩
  pending h := Bool.noConfusion h
  exclusive h := Bool.noConfusion h
  queue _ h := absurd h List.not_mem_nil

theorem Matches.of_mem {completed : List Channel} {channel : Channel} (seq : BitVec 64)
    (h : channel ∈ completed) :
    Matches completed ⟨channel.kSend, seq, channel.sessionId, channel.sessionId⟩ :=
  ⟨channel, h, rfl, rfl, rfl⟩

theorem Matches.mono {completed : List Channel} {pkt : Sealed} (h : Matches completed pkt)
    (new : Channel) : Matches (new :: completed) pkt := by
  obtain ⟨handshake, hmem, hpair⟩ := h
  exact ⟨handshake, List.mem_cons_of_mem new hmem, hpair⟩

def SendEvent.Matched (completed : List Channel) : SendEvent → Prop
  | .emitted pkt => Matches completed pkt
  | .encrypted _ _ => True

/-- The states keep their pairs and the events of the step match. -/
structure StepPaired (s : SendThreads) (result : SendThreads × List SendEvent) : Prop where
  paired : Paired result.1
  events : ∀ e ∈ result.2, e.Matched result.1.completed
  grows : s.completed ⊆ result.1.completed

section Step

variable {order : Endian} {argv : Params} {s : SendThreads}

theorem Paired.sendDrawn (h : Paired s) {seq : BitVec 64} {payload : Payload}
    (hloop : s.loop = .drawn seq payload) (allocated : Bool)
    (hid : ∀ uninit, payload = .disconnect uninit → s.gSessionId = s.srv.sessionId) :
    StepPaired s (sendDrawn order argv s seq payload allocated) := by
  have hsrv : s.srv ∈ s.completed := by
    have hpair := h.loop
    rwa [LoopPaired, hloop] at hpair
  have hpending := h.pending
  rw [hloop] at hpending
  cases payload with
  | fragment uninit id buf offset =>
      refine ⟨⟨hsrv, h.sender, hpending, fun _ => rfl, ?_⟩, ?_, List.Subset.refl _⟩
      · intro pkt hpkt
        dsimp only [Senders.sendDrawn] at hpkt
        split at hpkt
        · rcases List.mem_append.mp hpkt with hold | hnew
          · exact h.queue pkt hold
          · rw [List.mem_singleton.mp hnew]
            exact Matches.of_mem seq hsrv
        · exact h.queue pkt hpkt
      · intro e he
        rw [List.mem_singleton.mp he]
        trivial
  | keepalive uninit =>
      refine ⟨⟨hsrv, h.sender, hpending, fun _ => rfl, h.queue⟩, ?_, List.Subset.refl _⟩
      intro e he
      rcases List.mem_cons.mp he with rfl | hpkt
      · trivial
      · rw [List.mem_singleton.mp hpkt]
        exact Matches.of_mem seq hsrv
  | disconnect uninit =>
      refine ⟨⟨⟨hsrv, rfl, hid uninit rfl⟩, h.sender, hpending, fun _ => rfl, h.queue⟩, ?_,
        List.Subset.refl _⟩
      intro e he
      rw [List.mem_singleton.mp he]
      trivial
  | dummy =>
      exact ⟨⟨hsrv, h.sender, hpending, fun _ => rfl, h.queue⟩, by simp [Senders.sendDrawn],
        List.Subset.refl _⟩

/-- Outside of a swap the pending fields do not matter to the sender. -/
theorem SenderPaired.pending (h : SenderPaired s) (hidle : s.sender.swapping = false)
    (pending : Channel) (loop : LoopAt) :
    SenderPaired { s with pending := pending, loop := loop } := by
  unfold SenderPaired at h ⊢
  dsimp only
  cases hsender : s.sender with
  | copyKey | copyId | copyGlobalId | prepareDummy | clearKey | clearId | clearFlag =>
      rw [hsender] at hidle
      cases hidle
  | head | drain | drawn seq | exited =>
      rw [hsender] at h
      exact h

/-- Outside of its stores to the pending fields the event loop does not depend on what
the sender writes. -/
theorem LoopPaired.sender (h : LoopPaired s) {next : SendThreads}
    (hidle : s.loop.publishing = false) (hloop : next.loop = s.loop) (hsrv : next.srv = s.srv)
    (hcompleted : next.completed = s.completed) : LoopPaired next := by
  unfold LoopPaired at h ⊢
  rw [hloop, hsrv, hcompleted]
  cases hat : s.loop with
  | pendingKeyStored new | pendingIdStored =>
      rw [hat] at hidle
      cases hidle
  | idle | drawn seq payload | noticed key seq boundId | keyStored new | idStored new
  | restarted new =>
      rw [hat] at h
      exact h

/-- A step that emits nothing and does not touch the queue. -/
theorem Paired.silent (h : Paired s) {next : SendThreads} (hloop : LoopPaired next)
    (hsender : SenderPaired next)
    (hpending : next.pendingRekey = true → next.loop.publishing = false →
      next.sender.swapping = false → next.pending ∈ next.completed)
    (hexclusive : next.sender.swapping = true → next.loop.publishing = false)
    (hqueue : next.outq = s.outq) (hcompleted : next.completed = s.completed) :
    StepPaired s (next, []) where
  paired := ⟨hloop, hsender, hpending, hexclusive, by rw [hqueue, hcompleted]; exact h.queue⟩
  events _ he := absurd he List.not_mem_nil
  grows := by rw [hcompleted]; exact List.Subset.refl _

theorem Paired.loopNext (h : Paired s) {encrypts allocated : Bool}
    (hok : Orderly s (.loopNext encrypts allocated)) :
    StepPaired s (loopNext order argv s encrypts allocated) := by
  have hpair := h.loop
  have hsender := h.sender
  have hpending := h.pending
  have hexclusive := h.exclusive
  dsimp only [Orderly] at hok
  unfold LoopPaired at hpair
  unfold Senders.loopNext
  cases hloop : s.loop with
  | idle => exact h.silent h.loop hsender hpending hexclusive rfl rfl
  | drawn seq payload =>
      rw [hloop] at hpair hok hpending
      dsimp only
      split
      · refine h.sendDrawn hloop allocated fun uninit hnotice => ?_
        rw [hnotice] at hok
        exact hok
      · exact h.silent hpair hsender hpending (fun _ => rfl) rfl rfl
  | noticed key seq boundId =>
      rw [hloop] at hpair hok hpending
      obtain ⟨hsrv, hkey, hbound⟩ := hpair
      refine ⟨⟨hsrv, hsender, hpending, fun _ => rfl, h.queue⟩, ?_, List.Subset.refl _⟩
      intro e he
      rw [List.eq_of_mem_replicate he]
      exact ⟨s.srv, hsrv, hkey, hbound, hok⟩
  | keyStored new =>
      rw [hloop] at hpair hpending
      have hnew : (⟨s.srv.kSend, new.sessionId⟩ : Channel) = new := by
        rw [hpair.2]
      exact h.silent ⟨hpair.1, hnew⟩ hsender hpending (fun _ => rfl) rfl rfl
  | idStored new =>
      rw [hloop] at hpair hpending
      exact h.silent hpair hsender hpending (fun _ => rfl) rfl rfl
  | restarted new =>
      rw [hloop] at hpair hok
      have hidle : s.sender.swapping = false := hok
      refine h.silent ⟨hpair.1, hpair.2, rfl⟩ (hsender.pending hidle _ _)
        (fun _ hnot => Bool.noConfusion hnot) (fun hswap => ?_) rfl rfl
      rw [hidle] at hswap
      cases hswap
  | pendingKeyStored new =>
      rw [hloop] at hpair hexclusive
      obtain ⟨hmem, hsrv, hkey⟩ := hpair
      have hidle : s.sender.swapping = false := by
        cases hswap : s.sender.swapping with
        | false => rfl
        | true => exact Bool.noConfusion (hexclusive hswap)
      have hnew : (⟨s.pending.kSend, new.sessionId⟩ : Channel) = new := by
        rw [hkey]
      refine h.silent ⟨by rw [hsrv]; exact hmem, ?_⟩ (hsender.pending hidle _ _)
        (fun _ hnot => Bool.noConfusion hnot) (fun hswap => ?_) rfl rfl
      · change (⟨s.pending.kSend, new.sessionId⟩ : Channel) ∈ s.completed
        rw [hnew]
        exact hmem
      · rw [hidle] at hswap
        cases hswap
  | pendingIdStored =>
      rw [hloop] at hpair
      exact h.silent hpair.1 hsender (fun _ _ _ => hpair.2) (fun _ => rfl) rfl rfl

theorem Paired.senderNext (h : Paired s) {encrypts : Bool}
    (hok : Orderly s (.senderNext encrypts)) :
    StepPaired s (senderNext order argv s encrypts) := by
  have hpair := h.sender
  have hpending := h.pending
  have hexclusive := h.exclusive
  unfold Orderly at hok
  unfold SenderPaired at hpair
  unfold Senders.senderNext
  cases hsender : s.sender with
  | head =>
      rw [hsender] at hpair
      dsimp only
      cases hflag : s.pendingRekey with
      | false =>
          exact h.silent h.loop hpair (fun hset => Bool.noConfusion hset)
            (fun hswap => Bool.noConfusion hswap) rfl rfl
      | true =>
          have hnot := hok hsender hflag
          have hmem := hpending hflag hnot (by rw [hsender]; rfl)
          exact h.silent h.loop hmem (fun _ _ hidle => Bool.noConfusion hidle) (fun _ => hnot)
            rfl rfl
  | copyKey =>
      rw [hsender] at hpair hexclusive
      exact h.silent (h.loop.sender (hexclusive rfl) rfl rfl rfl) ⟨hpair, rfl⟩
        (fun _ _ hidle => Bool.noConfusion hidle) (fun _ => hexclusive rfl) rfl rfl
  | copyId =>
      rw [hsender] at hpair hexclusive
      have hwhole : (⟨s.arg.kSend, s.pending.sessionId⟩ : Channel) = s.pending := by
        rw [hpair.2]
      refine h.silent (h.loop.sender (hexclusive rfl) rfl rfl rfl) ?_
        (fun _ _ hidle => Bool.noConfusion hidle) (fun _ => hexclusive rfl) rfl rfl
      change (⟨s.arg.kSend, s.pending.sessionId⟩ : Channel) ∈ s.completed
      rw [hwhole]
      exact hpair.1
  | copyGlobalId =>
      rw [hsender] at hpair hexclusive
      exact h.silent (h.loop.sender (hexclusive rfl) rfl rfl rfl) hpair
        (fun _ _ hidle => Bool.noConfusion hidle) (fun _ => hexclusive rfl) rfl rfl
  | prepareDummy =>
      rw [hsender] at hpair hexclusive
      exact h.silent (h.loop.sender (hexclusive rfl) rfl rfl rfl) ⟨hpair, rfl⟩
        (fun _ _ hidle => Bool.noConfusion hidle) (fun _ => hexclusive rfl) rfl rfl
  | clearKey | clearId =>
      rw [hsender] at hpair hexclusive
      exact h.silent (h.loop.sender (hexclusive rfl) rfl rfl rfl) hpair
        (fun _ _ hidle => Bool.noConfusion hidle) (fun _ => hexclusive rfl) rfl rfl
  | clearFlag =>
      rw [hsender] at hpair hexclusive
      exact h.silent (h.loop.sender (hexclusive rfl) rfl rfl rfl) hpair
        (fun hset => Bool.noConfusion hset) (fun _ => hexclusive rfl) rfl rfl
  | drain =>
      rw [hsender] at hpair hpending
      dsimp only
      split
      · exact h.silent h.loop hpair hpending (fun hswap => Bool.noConfusion hswap) rfl rfl
      · exact h.silent h.loop hpair hpending (fun hswap => Bool.noConfusion hswap) rfl rfl
  | drawn seq =>
      rw [hsender] at hpair hpending
      dsimp only
      split
      · refine ⟨⟨h.loop, hpair, hpending, fun hswap => Bool.noConfusion hswap, h.queue⟩, ?_,
          List.Subset.refl _⟩
        intro e he
        rcases List.mem_cons.mp he with rfl | hpkt
        · trivial
        · rw [List.mem_singleton.mp hpkt, hpair.2]
          exact Matches.of_mem seq hpair.1
      · exact h.silent h.loop hpair hpending (fun hswap => Bool.noConfusion hswap) rfl rfl
  | exited => exact h.silent h.loop h.sender hpending hexclusive rfl rfl

theorem Paired.rehandshake (h : Paired s) (new : Channel) :
    StepPaired s (sendStep order argv s (.rehandshake new)) := by
  dsimp only [sendStep]
  split
  next hloop =>
    have hmono : ∀ channel ∈ s.completed, channel ∈ new :: s.completed := fun _ =>
      List.mem_cons_of_mem new
    refine ⟨⟨⟨List.mem_cons_self, rfl⟩, ?_, ?_, fun _ => rfl,
      fun pkt hpkt => (h.queue pkt hpkt).mono new⟩, by simp, fun _ => hmono _⟩
    · have hsender := h.sender
      unfold SenderPaired at hsender ⊢
      dsimp only
      cases hat : s.sender with
      | copyKey | copyGlobalId | prepareDummy =>
          rw [hat] at hsender
          exact hmono _ hsender
      | copyId | head | clearKey | clearId | clearFlag | drain | drawn seq | exited =>
          rw [hat] at hsender
          exact ⟨hmono _ hsender.1, hsender.2⟩
    · intro hset _ hidle
      exact hmono _ (h.pending hset (by rw [hloop]; rfl) hidle)
  next => exact h.silent h.loop h.sender h.pending h.exclusive rfl rfl

variable (order argv) in
theorem Paired.step (h : Paired s) {act : SendAct} (hok : Orderly s act) :
    StepPaired s (sendStep order argv s act) := by
  cases act with
  | fetch payload =>
      dsimp only [sendStep]
      split
      next hloop =>
        have hpair := h.loop
        have hpending := h.pending
        unfold LoopPaired at hpair
        rw [hloop] at hpair hpending
        exact h.silent hpair h.sender hpending (fun _ => rfl) rfl rfl
      next => exact h.silent h.loop h.sender h.pending h.exclusive rfl rfl
  | rehandshake new => exact h.rehandshake new
  | loopNext encrypts allocated => exact h.loopNext hok
  | senderNext encrypts => exact h.senderNext hok
  | dequeue i sent =>
      dsimp only [sendStep]
      split
      · exact h.silent h.loop h.sender h.pending h.exclusive rfl rfl
      next pkt hpkt =>
        have hin := h.queue pkt (List.mem_of_getElem? hpkt)
        split
        · exact h.silent h.loop h.sender h.pending h.exclusive rfl rfl
        refine ⟨⟨h.loop, h.sender, h.pending, h.exclusive, fun other hother =>
          h.queue other (List.mem_of_mem_eraseIdx hother)⟩, ?_, List.Subset.refl _⟩
        intro e he
        split at he
        · rw [List.mem_singleton.mp he]
          exact hin
        · cases he

end Step

/-- With `pending_rekey` zero at the start, in every interleaving of the two threads in
which `send_disconnect` finds the session id of `servers[0]` in `g_session_id` and no key
swap of the sender overlaps the stores of a rehandshake to the pending fields, every
datagram that is sent has its key and both of its session ids from one completed
handshake. -/
theorem sent_pairs_match (order : Endian) (argv : Params) (first pending : Channel)
    (acts : List SendAct)
    (hok : Along (sendStep order argv) Orderly (.start first pending false) acts) :
    let final := run (sendStep order argv) (.start first pending false) acts
    ∀ pkt, .emitted pkt ∈ final.2 → Matches final.1.completed pkt := by
  intro final pkt hpkt
  have hinv := run_history (sendStep order argv) Orderly
    (fun past s => Paired s ∧ ∀ e ∈ past, SendEvent.Matched s.completed e)
    (fun past s act h hact => by
      have hstep := h.1.step order argv hact
      refine ⟨hstep.paired, fun e he => ?_⟩
      rcases List.mem_append.mp he with hold | hnew
      · have hmatched := h.2 e hold
        cases e with
        | encrypted key length => trivial
        | emitted pkt =>
            obtain ⟨handshake, hmem, hpair⟩ := hmatched
            exact ⟨handshake, hstep.grows hmem, hpair⟩
      · exact hstep.events e hnew)
    [] _ acts ⟨paired_start first pending, fun e he => absurd he List.not_mem_nil⟩ hok
  rw [List.nil_append] at hinv
  exact hinv.2 _ hpkt

/-- The steps of the event loop in a rehandshake. -/
def rehandshakeActs (new : Channel) : List SendAct :=
  .rehandshake new :: List.replicate 5 (.loopNext true true)

/-- The test of `pending_rekey` and the key swap. -/
def swapActs : List SendAct := List.replicate 8 (.senderNext true)

/-- `send_disconnect`. -/
def noticeActs : List SendAct :=
  [.fetch (.disconnect (Octets.zero sessionIdLen)), .loopNext true true, .loopNext true true]

def oldChannel : Channel := ⟨Octets.fill aeadKeyLen 1, Octets.fill sessionIdLen 1⟩
def newChannel : Channel := ⟨Octets.fill aeadKeyLen 2, Octets.fill sessionIdLen 2⟩

/-- The client disconnects after the sender has swapped. -/
theorem sent_pairs_match_swapped :
    let argv : Params := ⟨5, 1024, 'N'.toUInt8, 'N'.toUInt8⟩
    let final := run (sendStep .little argv) (.start oldChannel oldChannel false)
      (rehandshakeActs newChannel ++ swapActs ++ noticeActs)
    .emitted ⟨newChannel.kSend, 0, newChannel.sessionId, newChannel.sessionId⟩ ∈ final.2 ∧
      ∀ pkt, .emitted pkt ∈ final.2 → Matches final.1.completed pkt := by
  intro argv final
  exact ⟨by decide +kernel, sent_pairs_match .little argv oldChannel oldChannel
    (rehandshakeActs newChannel ++ swapActs ++ noticeActs) (by decide +kernel)⟩

/-- The client disconnects before the sender has swapped: the notice is encrypted under
the new key and carries the old session id. -/
theorem notice_mixes_handshakes :
    let argv : Params := ⟨5, 1024, 'N'.toUInt8, 'N'.toUInt8⟩
    let final := run (sendStep .little argv) (.start oldChannel oldChannel false)
      (rehandshakeActs newChannel ++ noticeActs)
    .emitted ⟨newChannel.kSend, 0, oldChannel.sessionId, oldChannel.sessionId⟩ ∈ final.2 ∧
      ∀ handshake ∈ final.1.completed, ¬(newChannel.kSend = handshake.kSend ∧
        oldChannel.sessionId = handshake.sessionId) := by
  decide +kernel

end Chamlon.Client.Senders
