import Mathlib.Tactic
import Chamlon.Lib.Tickets

/-!
Which nonces the server uses under which key. A worker in
`send_outbound_packet` takes its sequence number and encrypts in two separate
steps, while `handle_rehandshake_msg1` on another worker replaces the key and
restarts the counter. The dummies of `execute_send`, keepalives and control
packets take number and key together under `sessions_rwlock`.

Actions interleave arbitrarily; one that its worker cannot take now does
nothing. The events are the pairs of key and sequence number handed to
`aead_encrypt`.
-/

namespace Chamlon.Server.NonceUse

open Machine Tickets

universe u v

variable {W : Type u} {κ : Type v}

/-- The sending half of one session. -/
structure SendState (W : Type u) (κ : Type v) where
  kSend : κ
  sendSeq : BitVec 64
  /-- The local `seq` of each worker that has not encrypted yet. -/
  seq : W → Option (BitVec 64)

inductive SendAct (W : Type u) (κ : Type v) where
  /-- `atomic_fetch_add(&s->send_seq, 1)` in `send_outbound_packet`. -/
  | fetch (w : W)
  /-- `aead_encrypt(s->k_send, ..., seq, ...)` of the same call. -/
  | encrypt (w : W)
  /-- A dummy, keepalive or control packet. -/
  | locked
  /-- The locked key swap of `handle_rehandshake_msg1`. -/
  | rehandshake (kSend : κ)

def SendState.start (kSend : κ) : SendState W κ where
  kSend := kSend
  sendSeq := 0
  seq := fun _ => none

def sendStep [DecidableEq W] (s : SendState W κ) :
    SendAct W κ → SendState W κ × List (κ × BitVec 64)
  | .fetch w =>
      match s.seq w with
      | none =>
          ({ s with
            sendSeq := s.sendSeq + 1
            seq := Function.update s.seq w (some s.sendSeq) }, [])
      | some _ => (s, [])
  | .encrypt w =>
      match s.seq w with
      | none => (s, [])
      | some seq =>
          ({ s with seq := Function.update s.seq w none }, [(s.kSend, seq)])
  | .locked => ({ s with sendSeq := s.sendSeq + 1 }, [(s.kSend, s.sendSeq)])
  | .rehandshake kSend => ({ s with kSend := kSend, sendSeq := 0 }, [])

def SendAct.newKey : SendAct W κ → Option κ
  | .rehandshake kSend => some kSend
  | _ => none

/-- The session with a ledger of its sequence numbers as history variable. -/
structure Audited (W : Type u) (κ : Type v) where
  state : SendState W κ
  ledger : Ledger W κ

def Audited.start (kSend : κ) : Audited W κ := ⟨.start kSend, .init kSend⟩

def auditLedger [DecidableEq W] (s : Audited W κ) : SendAct W κ → Ledger W κ
  | .fetch w => if (s.ledger.held w).isNone then s.ledger.draw w else s.ledger
  | .encrypt w => if (s.ledger.held w).isNone then s.ledger else s.ledger.spend w
  | .locked => s.ledger.issue
  | .rehandshake kSend => s.ledger.rekey kSend

def auditStep [DecidableEq W] (s : Audited W κ) (a : SendAct W κ) :
    Audited W κ × List (κ × BitVec 64) :=
  (⟨(sendStep s.state a).1, auditLedger s a⟩, (sendStep s.state a).2)

/-- A worker encrypts under the key its number was drawn for, and no key serves
more than `2 ^ 64` numbers. -/
def KeyKept (s : Audited W κ) : SendAct W κ → Prop
  | .fetch _ => s.ledger.count < 2 ^ 64
  | .encrypt w => ∀ t ∈ s.ledger.held w, t.1 = s.state.kSend
  | .locked => s.ledger.count < 2 ^ 64
  | .rehandshake _ => True

instance [DecidableEq κ] (s : Audited W κ) : DecidablePred (KeyKept s)
  | .fetch _ => inferInstanceAs (Decidable (_ < _))
  | .encrypt _ => inferInstanceAs (Decidable (∀ _ ∈ _, _))
  | .locked => inferInstanceAs (Decidable (_ < _))
  | .rehandshake _ => inferInstanceAs (Decidable True)

/-- The ledger describes the session. -/
structure Agrees (past : List (κ × BitVec 64)) (s : Audited W κ) : Prop where
  key : s.state.kSend = s.ledger.key
  mirrors : Mirrors s.state.sendSeq s.state.seq past s.ledger

theorem agrees_start (kSend : κ) : Agrees [] (Audited.start kSend : Audited W κ) :=
  ⟨rfl, Mirrors.init kSend⟩

variable [DecidableEq W]

/-- A step that meets the condition and installs a new key, if any, keeps the
ledger a description of the session. -/
theorem auditStep_agrees (past : List (κ × BitVec 64)) (s : Audited W κ)
    (a : SendAct W κ) (h : Agrees past s) (hok : KeyKept s a)
    (hnew : ∀ k, a.newKey = some k → k ∉ s.ledger.keys) :
    Agrees (past ++ (auditStep s a).2) (auditStep s a).1 := by
  cases a with
  | fetch w =>
      have hseq := h.mirrors.holders w
      cases hheld : s.ledger.held w with
      | some t =>
          rw [hheld] at hseq
          simpa [auditStep, sendStep, auditLedger, hseq, hheld] using h
      | none =>
          rw [hheld] at hseq
          simp only [auditStep, sendStep, auditLedger, hseq, hheld, Option.map_none,
            Option.isNone_none, if_true, List.append_nil]
          exact ⟨h.key, h.mirrors.draw hok w⟩
  | encrypt w =>
      have hseq := h.mirrors.holders w
      cases hheld : s.ledger.held w with
      | none =>
          rw [hheld] at hseq
          simpa [auditStep, sendStep, auditLedger, hseq, hheld] using h
      | some t =>
          rw [hheld] at hseq
          simp only [auditStep, sendStep, auditLedger, hseq, hheld, Option.map_some,
            Option.isNone_some]
          exact ⟨h.key, h.mirrors.spend hseq hok⟩
  | locked =>
      simp only [auditStep, sendStep, auditLedger, h.key]
      exact ⟨rfl, h.mirrors.issue hok⟩
  | rehandshake kSend =>
      simp only [auditStep, sendStep, auditLedger, List.append_nil]
      exact ⟨rfl, h.mirrors.rekey (hnew kSend rfl)⟩

theorem auditStep_keys (s : Audited W κ) (a : SendAct W κ) :
    (auditStep s a).1.ledger.keys ⊆ a.newKey.toList ++ s.ledger.keys := by
  cases a with
  | fetch w =>
      simp only [auditStep, auditLedger]
      split <;> exact List.Subset.refl _
  | encrypt w =>
      simp only [auditStep, auditLedger]
      split <;> exact List.Subset.refl _
  | locked => exact List.Subset.refl _
  | rehandshake kSend => exact List.Subset.refl _

/-- The ledger does not change what the session does. -/
theorem auditStep_refines (s : Audited W κ) (acts : List (SendAct W κ)) :
    (run auditStep s acts).2 = (run sendStep s.state acts).2 :=
  (run_related auditStep sendStep (fun s t => s.state = t) (fun _ => True)
    (by rintro s _ a rfl _; exact ⟨rfl, rfl⟩) s s.state acts rfl
    (fun _ _ => trivial)).2

/-- No pair of key and sequence number reaches `aead_encrypt` twice along a run
whose workers encrypt under the key they drew their number for. -/
theorem sendStep_pairs_nodup (kSend : κ) (acts : List (SendAct W κ))
    (hkeys : (kSend :: acts.filterMap SendAct.newKey).Nodup)
    (hkept : Along auditStep KeyKept (Audited.start kSend) acts) :
    (run sendStep (SendState.start kSend) acts).2.Nodup := by
  obtain ⟨hfirst, hlater⟩ := List.nodup_cons.mp hkeys
  have hfresh := along_fresh auditStep SendAct.newKey
    (fun s : Audited W κ => s.ledger.keys) auditStep_keys (Audited.start kSend) acts
    hlater (fun k hk => by rwa [List.mem_singleton.mp hk])
  have hagrees := run_history auditStep _ Agrees
    (fun past s a h hok => auditStep_agrees past s a h hok.1 hok.2)
    [] (Audited.start kSend) acts (agrees_start kSend)
    (Along.and auditStep hkept hfresh)
  rw [List.nil_append, auditStep_refines] at hagrees
  exact hagrees.mirrors.nodup

/-- Two workers, a dummy and a rekey between their packets. -/
theorem sendStep_pairs_nodup_rekeyed :
    let acts : List (SendAct (Fin 2) Nat) := [.fetch 0, .fetch 1, .encrypt 1, .locked,
      .encrypt 0, .rehandshake 8, .fetch 1, .encrypt 1, .locked]
    ((7 : Nat) :: acts.filterMap SendAct.newKey).Nodup ∧
      Along auditStep KeyKept (Audited.start 7) acts ∧
      (run sendStep (SendState.start 7) acts).2.Nodup := by
  intro acts
  have hkeys : ((7 : Nat) :: acts.filterMap SendAct.newKey).Nodup := by decide
  have hkept : Along auditStep KeyKept (Audited.start 7) acts := by decide
  exact ⟨hkeys, hkept, sendStep_pairs_nodup 7 acts hkeys hkept⟩

/-- A worker draws number 0, the session is rekeyed, the worker encrypts under
the new key, and the restarted counter gives 0 to a dummy. -/
theorem sendStep_pair_repeated :
    let acts : List (SendAct (Fin 1) Nat) :=
      [.fetch 0, .rehandshake 8, .encrypt 0, .locked]
    ((7 : Nat) :: acts.filterMap SendAct.newKey).Nodup ∧
      (run sendStep (SendState.start 7) acts).2 = [(8, 0), (8, 0)] := by
  decide

end Chamlon.Server.NonceUse
