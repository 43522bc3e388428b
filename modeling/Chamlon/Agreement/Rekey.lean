import Mathlib.Tactic
import Chamlon.Agreement.Honest
import Chamlon.Client.Rehandshake
import Chamlon.Server.Frame

/-!
One client, the server and the network between them, over repeated handshakes.
The network keeps every message it was given and may deliver any of them any
number of times or never; it makes no messages of its own. The server goes on
with everything else it does: data, other clients and maintenance.

The server commits to new keys when it answers MSG1, the client when it accepts
MSG2. Nothing ties the two together, so a lost MSG2 or a repeated MSG1 leaves
them apart. They stay together as long as every MSG1 is answered within its own
attempt and every answered attempt ends with that answer.
-/

namespace Chamlon.Agreement

open Config Memory Machine Server Client

/-- What stays fixed: libsodium, the keys, the byte order, the client's options
and the address it sends from. -/
structure World where
  na : Sodium
  keys : ServerKeys
  serverPk : Octets pubkeyLen
  order : Endian
  argv : Params
  src : SockAddr

/-- Where the client is. Inside `client_handshake` it carries its ephemeral
values, whether MSG1 went out and, in a rehandshake, the connection it has. -/
inductive Phase where
  | started
  | waiting (eph : Client.Ephemeral) (msg1Sent : Bool) (previous : Option Connection)
  | connected (srv : Connection)
  | closed

/-- The client's connection outside `client_handshake`. -/
def Phase.connection : Phase → Option Connection
  | .connected srv => some srv
  | _ => none

structure System where
  server : Sessions
  client : Phase
  /-- Every MSG1 the client has sent, and every MSG2 sent to it. -/
  msg1s : List Bytes
  msg2s : List Bytes
  /-- What the server did with MSG1s since the client entered
  `client_handshake`. Nothing reads it. -/
  answers : List Event
  /-- The server has freed or timed out a slot of the client. -/
  dropped : Bool

def System.start : System where
  server := noSessions
  client := .started
  msg1s := []
  msg2s := []
  answers := []
  dropped := false

inductive Act where
  /-- The client enters `client_handshake`, if it does so now. -/
  | enter (now : Int) (eph : Client.Ephemeral) (msg1Sent : Bool)
  /-- The network delivers an MSG1 of the client. -/
  | serve (env : Env) (msg1 : Bytes)
  /-- The client returns from `client_handshake` after these polls. -/
  | leave (start : Int) (uninit : Octets msg2Total) (polls : List Poll) (now : Int)
  /-- Any other operation of the server. -/
  | operate (op : Op)
  /-- The client disconnects or gives up on the server. -/
  | quit

/-- The network delivers to the client what the server sent, or packets of
another type. -/
def Genuine (msg2s : List Bytes) (poll : Poll) : Bool :=
  match poll.result with
  | .datagram bytes =>
      decide (bytes ∈ msg2s) || bytes[5]? != some pktTypeHandshake
  | _ => true

def sentMsg2s (src : SockAddr) (events : List Event) : List Bytes :=
  events.filterMap fun
    | .sendMsg2 dst msg2 => if dst = src then some msg2 else none
    | _ => none

/-- Some slot that served the client is not in use any more. -/
def dropsClient (src : SockAddr) (before after : Sessions) : Bool :=
  decide (∃ i, (before i).active = true ∧ (before i).clientAddr = src ∧
    (after i).active = false)

namespace World

variable (w : World)

def msg1 (eph : Client.Ephemeral) : Bytes := clientMsg1 w.na w.order w.argv eph

/-- `setup_and_handshake` or the rehandshake branch of the event loop, up to the
receive loop of `client_handshake`. -/
def enterHandshake (s : System) (now : Int) (eph : Client.Ephemeral) (msg1Sent : Bool) :
    System :=
  let enter (previous : Option Connection) : System :=
    { s with
      client := .waiting eph msg1Sent previous
      msg1s := if msg1Sent then s.msg1s ++ [w.msg1 eph] else s.msg1s
      answers := [] }
  match s.client with
  | .started => enter none
  | .connected srv =>
      match shouldAttemptRehandshake now srv with
      | (srv, .now) => enter (some (srv.beginRehandshake now))
      | (srv, .wait) => { s with client := .connected srv }
      | (_, .disconnect) => { s with client := .closed }
  | _ => s

/-- What `client_handshake` returns after these polls. -/
def handshakeResult (eph : Client.Ephemeral) (msg1Sent : Bool)
    (previous : Option Connection) (start : Int) (uninit : Octets msg2Total)
    (polls : List Poll) : HandshakeResult :=
  (clientHandshake w.na w.serverPk eph msg1Sent start uninit
    (previous.map fun _ => []) polls).1

/-- The code behind `client_handshake`: the first handshake opens the event loop
or ends the program, a later one changes the keys or starts the backoff. -/
def afterHandshake (previous : Option Connection) (now : Int) :
    HandshakeResult → Option Phase
  | .waiting => none
  | .failed =>
      match previous with
      | none => some .closed
      | some srv => some (.connected srv.rehandshakeFailed)
  | .established session =>
      match previous with
      | none => some (.connected (.opened session now))
      | some srv => some (.connected (srv.rehandshakeSucceeded session now))

def leaveHandshake (s : System) (start : Int) (uninit : Octets msg2Total)
    (polls : List Poll) (now : Int) : System :=
  match s.client with
  | .waiting eph msg1Sent previous =>
      if polls.all (Genuine s.msg2s) then
        match afterHandshake previous now
            (w.handshakeResult eph msg1Sent previous start uninit polls) with
        | none => s
        | some client => { s with client }
      else s
  | _ => s

def serveMsg1 (s : System) (env : Env) (msg1 : Bytes) : System × List Event :=
  if msg1 ∈ s.msg1s then
    let result := handleInboundUdp w.na w.keys w.order env w.src msg1 s.server
    ({ s with
        server := result.1
        msg2s := s.msg2s ++ sentMsg2s w.src result.2
        answers := s.answers ++ result.2 }, result.2)
  else (s, [])

def operateServer (s : System) (op : Op) : System × List Event :=
  if op.isHandshakeFrom w.src then (s, [])
  else
    let result := serverStep w.na w.keys w.order s.server op
    ({ s with
        server := result.1
        dropped := s.dropped || dropsClient w.src s.server result.1 }, result.2)

def step (s : System) : Act → System × List Event
  | .enter now eph msg1Sent => (w.enterHandshake s now eph msg1Sent, [])
  | .serve env msg1 => w.serveMsg1 s env msg1
  | .leave start uninit polls now => (w.leaveHandshake s start uninit polls now, [])
  | .operate op => w.operateServer s op
  | .quit => ({ s with client := .closed }, [])

end World

/-- Outside `client_handshake` and with neither side gone, the server has a slot
for the client's session. -/
def Agrees (s : System) : Prop :=
  ∀ srv, s.client = .connected srv → s.dropped = false →
    ∃ i, Matches (s.server i) srv.session

/-- An MSG1 is delivered in the attempt it was sent in and before the server has
committed to that attempt. After that the attempt ends with the MSG2 the server
sent for it, and no other MSG2 ends an attempt with success. -/
def orderly (w : World) (s : System) : Act → Bool
  | .serve _ msg1 =>
      match s.client with
      | .waiting eph _ _ => msg1 == w.msg1 eph && decide (Uncommitted s.answers)
      | _ => false
  | .leave start uninit polls _ =>
      match s.client with
      | .waiting eph msg1Sent previous =>
          match w.handshakeResult eph msg1Sent previous start uninit polls with
          | .waiting => true
          | .failed => previous.isNone || decide (Uncommitted s.answers)
          | .established _ =>
              match (receiveMsg2 (start + msg2TimeoutSec) polls 0 uninit
                  (previous.map fun _ => [])).1 with
              | .received msg2 => decide (.sendMsg2 w.src msg2.val ∈ s.answers)
              | _ => false
      | _ => true
  | _ => true

/-- Some slot of the client's address serves its session. -/
def Served (w : World) (s : System) (session : ClientSession) : Prop :=
  ∃ i, Matches (s.server i) session ∧ (s.server i).clientAddr = w.src

/-- What holds between the steps of an orderly run, as long as no slot of the
client was dropped. -/
structure Tracked (w : World) (s : System) : Prop where
  connected : ∀ srv, s.client = .connected srv → s.dropped = false →
    Served w s srv.session
  /-- Until the server commits it serves the old session. -/
  pending : ∀ eph msg1Sent srv, s.client = .waiting eph msg1Sent (some srv) →
    s.dropped = false → Uncommitted s.answers → Served w s srv.session
  /-- Afterwards a slot serves the exchange it has sent MSG2 for. -/
  answered : ∀ eph msg1Sent previous msg2, s.client = .waiting eph msg1Sent previous →
    s.dropped = false → .sendMsg2 w.src msg2 ∈ s.answers →
    ∃ i random, Answers w.na w.keys w.order random (w.msg1 eph) w.src msg2 (s.server i)

theorem tracked_start (w : World) : Tracked w .start where
  connected _ hclient := nomatch hclient
  pending _ _ _ hclient := nomatch hclient
  answered _ _ _ _ hclient := nomatch hclient

/-- Entering an attempt keeps the old session pending. -/
theorem Tracked.waiting {w : World} {s : System} {eph : Client.Ephemeral}
    {msg1Sent : Bool} {previous : Option Connection} {msg1s : List Bytes}
    (hprevious : ∀ srv, previous = some srv → s.dropped = false →
      Served w s srv.session) :
    Tracked w { s with client := .waiting eph msg1Sent previous, msg1s, answers := [] } where
  connected _ hclient := nomatch hclient
  pending _ _ srv hclient hkept _ := by
    simp only [Phase.waiting.injEq] at hclient
    exact hprevious srv hclient.2.2 hkept
  answered _ _ _ _ _ _ hsent := nomatch hsent

theorem Tracked.closed {w : World} {s : System} :
    Tracked w { s with client := .closed } where
  connected _ hclient := nomatch hclient
  pending _ _ _ hclient := nomatch hclient
  answered _ _ _ _ hclient := nomatch hclient

theorem Tracked.idle {w : World} {s : System} {srv : Connection}
    (hserved : s.dropped = false → Served w s srv.session) :
    Tracked w { s with client := .connected srv } where
  connected srv' hclient hkept := by
    obtain rfl := Phase.connected.inj hclient
    exact hserved hkept
  pending _ _ _ hclient := nomatch hclient
  answered _ _ _ _ hclient := nomatch hclient

theorem Tracked.enter {w : World} {s : System} (h : Tracked w s) (now : Int)
    (eph : Client.Ephemeral) (msg1Sent : Bool) :
    Tracked w (w.enterHandshake s now eph msg1Sent) := by
  unfold World.enterHandshake
  dsimp only
  cases hclient : s.client with
  | started => exact .waiting fun srv hsrv => nomatch hsrv
  | connected srv =>
      have hsession := shouldAttemptRehandshake_session now srv
      have hserved := h.connected srv hclient
      dsimp only
      generalize shouldAttemptRehandshake now srv = attempt at hsession ⊢
      obtain ⟨next, decision⟩ := attempt
      dsimp only at hsession
      rw [← hsession] at hserved
      cases decision with
      | now =>
          refine .waiting fun srv' hsrv' => ?_
          obtain rfl := Option.some.inj hsrv'
          exact hserved
      | wait => exact .idle hserved
      | disconnect => exact .closed
  | waiting eph msg1Sent previous => exact h
  | closed => exact h

theorem Served.of_server {w : World} {s t : System} {session : ClientSession}
    (h : Served w s session)
    (hserver : ∀ i, (s.server i).active = true → (s.server i).clientAddr = w.src →
      SameKeys (s.server i) (t.server i)) : Served w t session := by
  obtain ⟨i, ⟨hactive, hid, hrecv, hsend⟩, haddr⟩ := h
  obtain ⟨hactive', haddr', hid', hrecv', hsend', _⟩ := hserver i hactive haddr
  exact ⟨i, ⟨hactive'.trans hactive, hid'.trans hid, hrecv'.trans hrecv,
    hsend'.trans hsend⟩, haddr'.trans haddr⟩

/-- Without a commit, MSG1 leaves every slot in use as it is. -/
theorem serve_uncommitted {w : World} {env : Env} {eph : Client.Ephemeral}
    {server : Sessions}
    (h : Uncommitted (handleInboundUdp w.na w.keys w.order env w.src (w.msg1 eph)
      server).2) (i : Slot) (hactive : (server i).active = true) :
    (handleInboundUdp w.na w.keys w.order env w.src (w.msg1 eph) server).1 i =
      server i := by
  rw [World.msg1, handleInboundUdp_clientMsg1] at h ⊢
  split at h
  next hserved =>
    rw [if_pos hserved]
    exact handleRehandshakeMsg1_frame hactive (.inr h)
  next hnew =>
    rw [if_neg hnew]
    exact handleMsg1_frame hactive (.inr h)

/-- The server handles MSG1 while it has not committed to the attempt. -/
theorem Tracked.handled {w : World} {s : System} (h : Tracked w s)
    {eph : Client.Ephemeral} {msg1Sent : Bool} {previous : Option Connection}
    (hclient : s.client = .waiting eph msg1Sent previous) (hfresh : Uncommitted s.answers)
    {after : Sessions} {events : List Event} {msg2s : List Bytes}
    (hquiet : Uncommitted events →
      ∀ i, (s.server i).active = true → after i = s.server i)
    (hsent : ∀ msg2, .sendMsg2 w.src msg2 ∈ events →
      ∃ i random, Answers w.na w.keys w.order random (w.msg1 eph) w.src msg2 (after i)) :
    Tracked w { s with server := after, msg2s, answers := s.answers ++ events } where
  connected srv hsrv := by
    rw [hclient] at hsrv
    cases hsrv
  pending eph' sent' srv hsrv hkept huncommitted := by
    have hevents := (uncommitted_append.mp huncommitted).2
    refine (h.pending eph' sent' srv hsrv hkept hfresh).of_server fun i hactive _ => ?_
    dsimp only
    rw [hquiet hevents i hactive]
    exact .refl _
  answered eph' sent' previous' msg2 hsrv _ hmem := by
    rcases List.mem_append.mp hmem with hold | hnew
    · cases hfresh _ hold
    · rw [hclient] at hsrv
      simp only [Phase.waiting.injEq] at hsrv
      rw [← hsrv.1]
      exact hsent msg2 hnew

theorem Tracked.serve {w : World} {s : System} (h : Tracked w s) (env : Env)
    (msg1 : Bytes) (hok : orderly w s (.serve env msg1) = true) :
    Tracked w (w.serveMsg1 s env msg1).1 := by
  unfold orderly at hok
  dsimp only at hok
  split at hok
  next eph msg1Sent previous hclient =>
    simp only [Bool.and_eq_true, beq_iff_eq, decide_eq_true_eq] at hok
    rw [hok.1]
    unfold World.serveMsg1
    split
    · refine h.handled hclient hok.2 serve_uncommitted fun msg2 hsent => ?_
      obtain ⟨_, i, random, _, hanswers, _⟩ := handleInboundUdp_sent hsent
      exact ⟨i, random, hanswers⟩
    · exact h
  next => cases hok

/-- A success on an MSG2 of the attempt gives the client the session of the slot
that answered. -/
theorem Tracked.established {w : World} (hkeys : TrustedKeys w.na w.keys w.serverPk)
    {s : System} (h : Tracked w s) {eph : Client.Ephemeral} {msg1Sent : Bool}
    {previous : Option Connection} (hclient : s.client = .waiting eph msg1Sent previous)
    {start : Int} {uninit msg2 : Octets msg2Total} {polls : List Poll}
    {session : ClientSession}
    (hresult : w.handshakeResult eph msg1Sent previous start uninit polls =
      .established session)
    (hreceived : (receiveMsg2 (start + msg2TimeoutSec) polls 0 uninit
      (previous.map fun _ => [])).1 = .received msg2)
    (hsent : .sendMsg2 w.src msg2.val ∈ s.answers) (hkept : s.dropped = false) :
    Served w s session := by
  obtain ⟨serverKxPk, received, hconvert, hloop, hfinish⟩ :=
    clientHandshake_established hresult
  rw [hkeys.converts] at hconvert
  obtain ⟨i, random, hanswers⟩ := h.answered eph msg1Sent previous _ hclient hkept hsent
  have hview := finishHandshake_of_answers hkeys hanswers
  rw [hreceived] at hloop
  rw [← Receive.received.inj hloop, ← Option.some.inj hconvert, hview] at hfinish
  have hsession := Option.some.inj hfinish
  rw [← hsession]
  exact ⟨i, ⟨hanswers.1, rfl, rfl, rfl⟩, hanswers.2.1⟩

theorem Tracked.leave {w : World} (hkeys : TrustedKeys w.na w.keys w.serverPk)
    {s : System} (h : Tracked w s) (start : Int) (uninit : Octets msg2Total)
    (polls : List Poll) (now : Int)
    (hok : orderly w s (.leave start uninit polls now) = true) :
    Tracked w (w.leaveHandshake s start uninit polls now) := by
  unfold orderly at hok
  unfold World.leaveHandshake
  dsimp only at hok
  split
  next eph msg1Sent previous hclient =>
    rw [hclient] at hok
    dsimp only at hok
    split
    · cases hresult : w.handshakeResult eph msg1Sent previous start uninit polls with
      | waiting => exact h
      | failed =>
          rw [hresult] at hok
          cases previous with
          | none => exact .closed
          | some srv =>
              simp only [Option.isNone_some, Bool.false_or, decide_eq_true_eq] at hok
              exact .idle fun hkept => h.pending eph msg1Sent srv hclient hkept hok
      | established session =>
          rw [hresult] at hok
          dsimp only at hok
          split at hok
          next msg2 hreceived =>
            have hserved := h.established hkeys hclient hresult hreceived
              (of_decide_eq_true hok)
            cases previous with
            | none => exact .idle hserved
            | some srv => exact .idle hserved
          next => cases hok
    · exact h
  next => exact h

/-- Whatever else the server does, it leaves the client's slots alone or drops
them. -/
theorem Tracked.operate {w : World} {s : System} (h : Tracked w s) (op : Op) :
    Tracked w (w.operateServer s op).1 := by
  unfold World.operateServer
  split
  · exact h
  next hop =>
    have hkeeps (i : Slot) (hactive : (s.server i).active = true)
        (haddr : (s.server i).clientAddr = w.src) :
        Keeps (s.server i) ((serverStep w.na w.keys w.order s.server op).1 i) :=
      serverStep_keeps hactive haddr (Bool.eq_false_iff.mpr hop)
    generalize serverStep w.na w.keys w.order s.server op = result at hkeeps ⊢
    obtain ⟨after, events⟩ := result
    dsimp only at hkeeps ⊢
    have hsame (hkept : (s.dropped || dropsClient w.src s.server after) = false) :
        s.dropped = false ∧ ∀ i, (s.server i).active = true →
          (s.server i).clientAddr = w.src → SameKeys (s.server i) (after i) := by
      simp only [Bool.or_eq_false_iff, dropsClient, decide_eq_false_iff_not,
        not_exists, not_and] at hkept
      exact ⟨hkept.1, fun i hactive haddr =>
        (hkeeps i hactive haddr).resolve_right (hkept.2 i hactive haddr)⟩
    refine ⟨fun srv hclient hkept => ?_, fun eph sent srv hclient hkept hquiet => ?_,
      fun eph sent previous msg2 hclient hkept hsent => ?_⟩
    · obtain ⟨hdropped, hslots⟩ := hsame hkept
      exact (h.connected srv hclient hdropped).of_server hslots
    · obtain ⟨hdropped, hslots⟩ := hsame hkept
      exact (h.pending eph sent srv hclient hdropped hquiet).of_server hslots
    · obtain ⟨hdropped, hslots⟩ := hsame hkept
      obtain ⟨i, random, hanswers⟩ :=
        h.answered eph sent previous msg2 hclient hdropped hsent
      exact ⟨i, random, hanswers.of_sameKeys (hslots i hanswers.1 hanswers.2.1)⟩

theorem Tracked.step {w : World} (hkeys : TrustedKeys w.na w.keys w.serverPk)
    (s : System) (a : Act) (h : Tracked w s) (hok : orderly w s a = true) :
    Tracked w (w.step s a).1 := by
  cases a with
  | enter now eph msg1Sent => exact h.enter now eph msg1Sent
  | serve env msg1 => exact h.serve env msg1 hok
  | leave start uninit polls now => exact h.leave hkeys start uninit polls now hok
  | operate op => exact h.operate op
  | quit => exact .closed

/-- Along every orderly run the client and the server agree whenever the client
is outside `client_handshake`, in backoff as well. -/
theorem rekey_agreement (w : World) (hkeys : TrustedKeys w.na w.keys w.serverPk)
    (acts : List Act)
    (hok : Along w.step (fun s a => orderly w s a = true) .start acts) :
    Agrees (run w.step .start acts).1 := by
  have htracked := run_invariant w.step (fun s a => orderly w s a = true) (Tracked w)
    (Tracked.step hkeys) .start acts (tracked_start w) hok
  intro srv hclient hkept
  obtain ⟨i, hmatches, _⟩ := htracked.connected srv hclient hkept
  exact ⟨i, hmatches⟩

def zeroWorld : World where
  na := Sodium.xorSodium
  keys := zeroKeys
  serverPk := Octets.zero pubkeyLen
  order := .little
  argv := ⟨5, 1024, 'N'.toUInt8, 'N'.toUInt8⟩
  src := ⟨1, 2⟩

/-- An attempt at time `now` that nothing disturbs. -/
def undisturbed (now : Int) (client server : UInt8) : List Act :=
  [.enter now (bytewise client) true,
    .serve (calmEnv now server) (zeroWorld.msg1 (bytewise client)),
    .leave now (Octets.zero msg2Total)
      [⟨now + 1, .datagram (bytewiseMsg2 client server (vpnIpOf 0)), true⟩] (now + 1)]

/-- A first handshake, a rehandshake whose MSG1 is lost, and the next one. -/
theorem rekey_agreement_retried :
    let acts := undisturbed 0 5 3 ++
      [.enter 20 (bytewise 6) true,
        .leave 20 (Octets.zero msg2Total) [⟨35, .selectTimeout, true⟩] 35] ++
      undisturbed 40 7 4
    Along zeroWorld.step (fun s a => orderly zeroWorld s a = true) .start acts ∧
      (run zeroWorld.step .start acts).1.client.connection.any (·.pendingRekey) = true ∧
      Agrees (run zeroWorld.step .start acts).1 := by
  intro acts
  have hok : Along zeroWorld.step (fun s a => orderly zeroWorld s a = true) .start
      acts := by
    decide +kernel
  exact ⟨hok, by decide +kernel, rekey_agreement zeroWorld xorSodium_trusted acts hok⟩

theorem Phase.connection_eq_some {phase : Phase} {srv : Connection}
    (h : phase.connection = some srv) : phase = .connected srv := by
  cases phase with
  | connected other => rw [Option.some.inj h]
  | started => cases h
  | waiting eph msg1Sent previous => cases h
  | closed => cases h

/-- No slot of the server serves the session of the idle client. -/
def Stranded (s : System) (state : RehandshakeState) : Bool :=
  !s.dropped && s.client.connection.any fun srv =>
    srv.rehandshakeState == state && decide (∀ i, ¬Matches (s.server i) srv.session)

theorem Stranded.not_agrees {s : System} {state : RehandshakeState}
    (h : Stranded s state = true) : ¬Agrees s := by
  simp only [Stranded, Bool.and_eq_true, Bool.not_eq_true', Option.any_eq_true,
    decide_eq_true_eq] at h
  obtain ⟨hkept, srv, hclient, _, hnone⟩ := h
  intro hagrees
  obtain ⟨i, hmatches⟩ := hagrees srv (Phase.connection_eq_some hclient) hkept
  exact hnone i hmatches

/-- In the first run the MSG2 of a rehandshake is lost and the client ends in
backoff, in the second the MSG1 of a successful rehandshake arrives once more.
Both times the server is left with keys the client does not have. -/
theorem rekey_disagrees :
    let lost := undisturbed 0 5 3 ++
      [.enter 20 (bytewise 6) true,
        .serve (calmEnv 20 4) (zeroWorld.msg1 (bytewise 6)),
        .leave 20 (Octets.zero msg2Total) [⟨35, .selectTimeout, true⟩] 35]
    let repeated := undisturbed 0 5 3 ++ undisturbed 20 6 4 ++
      [.serve (calmEnv 25 9) (zeroWorld.msg1 (bytewise 6))]
    (Stranded (run zeroWorld.step .start lost).1 .backoff = true ∧
        ¬Agrees (run zeroWorld.step .start lost).1) ∧
      Stranded (run zeroWorld.step .start repeated).1 .ready = true ∧
        ¬Agrees (run zeroWorld.step .start repeated).1 := by
  intro lost repeated
  have hlost : Stranded (run zeroWorld.step .start lost).1 .backoff = true := by
    decide +kernel
  have hrepeated : Stranded (run zeroWorld.step .start repeated).1 .ready = true := by
    decide +kernel
  exact ⟨⟨hlost, Stranded.not_agrees hlost⟩, hrepeated, Stranded.not_agrees hrepeated⟩

end Chamlon.Agreement
