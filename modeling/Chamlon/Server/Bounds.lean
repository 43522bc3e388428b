import Mathlib.Tactic
import Chamlon.Lib.Access
import Chamlon.Server.Cases

/-!
What the server reads of a datagram. `handle_inbound_udp` and the two handshake
functions are written once more as programs that load from the buffer, with the
loads in the order of the source. They know the length `r` of the buffer and
nothing of its bytes but what they load. On every memory that holds the datagram
they compute the functions of `Inbound` and `Handshake`.
-/

namespace Chamlon.Server

open Config Memory Reassembly

/-- `handle_msg1` once a slot is allocated, from the fields of MSG1. -/
def openSlot (na : Sodium) (keys : ServerKeys) (order : Endian) (env : Env)
    (random : Ephemeral) (cPub : Octets pubkeyLen) (cNonce : Octets 8) (argv : Params)
    (src : SockAddr) (i : Slot) (sessions : Sessions) : Sessions × List Event :=
  let sPub := na.kxPublic random.sPriv
  let sessions := Function.update sessions i ((sessions i).reserve i argv)
  match na.signDetached keys.signSk (signedBlob sPub random.sNonce cPub cNonce) with
  | none => freeSession i sessions
  | some sig =>
      let msg2 := buildMsg2 order sPub random.sNonce (sessions i).vpnIp sig
      match na.serverSecrets random.sPriv keys.serverSk cPub cNonce random.sNonce with
      | none => freeSession i sessions
      | some secrets => activateSlot env src i secrets msg2 sessions

/-- `handle_msg1` on a buffer of `len` bytes. -/
def msg1Access (na : Sodium) (keys : ServerKeys) (order : Endian) (env : Env)
    (random : Ephemeral) (len : Nat) (src : SockAddr) (sessions : Sessions) :
    Access (Sessions × List Event) :=
  if !keys.signSkLoaded then .done (sessions, [])
  else
    .map (emit [.handshakeInitiated, .handshakeRateCheck src.addr env.handshakeVerdict]) <|
      match env.handshakeVerdict with
      | .blacklisted => .done (sessions, [.handshakeFailed, .blacklistEvent])
      | .exceeded => .done (sessions, [.handshakeFailed])
      | .ok =>
          if len ≠ protoHeaderLen + msg1Len + params then .done (sessions, [])
          else
            .load protoHeaderLen pubkeyLen fun cPub =>
            .load (protoHeaderLen + pubkeyLen) 8 fun cNonce =>
              match allocateSession sessions with
              | none => .done (sessions, [.handshakeFailed])
              | some (i, sessions) =>
                  .load (protoHeaderLen + pubkeyLen + 8) 4 fun mbps =>
                  .load (protoHeaderLen + pubkeyLen + 8 + 4) 4 fun frag =>
                  .loadByte (protoHeaderLen + pubkeyLen + 8 + 8) fun cbr =>
                  .loadByte (protoHeaderLen + pubkeyLen + 8 + 9) fun pad =>
                    .done (openSlot na keys order env random cPub cNonce
                      ⟨order.decodeInt mbps.val, order.decodeInt frag.val, cbr, pad⟩
                      src i sessions)

/-- `handle_rehandshake_msg1` on a buffer of `len` bytes. -/
def rehandshakeMsg1Access (na : Sodium) (keys : ServerKeys) (order : Endian) (env : Env)
    (len : Nat) (src : SockAddr) (sessions : Sessions) : Access (Sessions × List Event) :=
  if len ≠ protoHeaderLen + msg1Len + params then .done (sessions, [])
  else
    match sessionByAddr src sessions with
    | none => msg1Access na keys order env env.random len src sessions
    | some i =>
        .load protoHeaderLen pubkeyLen fun cPub =>
        .load (protoHeaderLen + pubkeyLen) 8 fun cNonce =>
          let sPub := na.kxPublic env.random.sPriv
          let sNonce := env.random.sNonce
          match na.serverSecrets env.random.sPriv keys.serverSk cPub cNonce sNonce with
          | none => msg1Access na keys order env env.fallback len src sessions
          | some secrets =>
              match na.signDetached keys.signSk (signedBlob sPub sNonce cPub cNonce) with
              | none => msg1Access na keys order env env.fallback len src sessions
              | some sig =>
                  let msg2 := buildMsg2 order sPub sNonce (sessions i).vpnIp sig
                  .done (Function.update sessions i
                    ((sessions i).rekey secrets env.now env.outqAllocated),
                    [.installed i secrets.sessionId, .schedulerAdd secrets.sessionId] ++
                      if env.msg2Sent then [.sendMsg2 src msg2] else [])

/-- The loop of `session_by_id` over the given slots. `memcmp` is a load of the whole
session id, made for active slots only and until one matches. -/
def sessionByIdAccess (sessions : Sessions) : List Slot → Access (Option Slot)
  | [] => .done none
  | i :: rest =>
      if (sessions i).active then
        .load protoHeaderLen sessionIdLen fun sessionId =>
          if (sessions i).sessionId == sessionId then .done (some i)
          else sessionByIdAccess sessions rest
      else sessionByIdAccess sessions rest

/-- `handle_inbound_udp` from `aead_decrypt` on. -/
def inboundCipher (na : Sodium) (order : Endian) (env : Env) (i : Slot) (seq : BitVec 64)
    (cipher : Bytes) (sessions : Sessions) : Sessions × List Event :=
  let s := sessions i
  match na.decrypt s.kRecv s.sessionId seq cipher with
  | none => (sessions, [])
  | some plain =>
      if bufferSize < plain.length then (sessions, [])
      else
        emit [.accepted s.sessionId seq] <|
          inboundAccepted order env i plain
            (Function.update sessions i { s with rw := s.rw.updateWindow seq })

/-- `handle_inbound_udp` from the session lookup on. The ciphertext is loaded as a whole
by `aead_decrypt`. -/
def inboundDataAccess (na : Sodium) (order : Endian) (env : Env) (len : Nat)
    (sessions : Sessions) : Access (Sessions × List Event) :=
  (sessionByIdAccess sessions (List.finRange maxClients)).bind fun found =>
    match found with
    | none => .done (sessions, [])
    | some i =>
        let sessions := Function.update sessions i
          { sessions i with lastActivity := env.now }
        .load (protoHeaderLen + sessionIdLen) 8 fun p =>
          let seq := BitVec.ofNat 64 (Endian.big.decode p.val)
          if (sessions i).rw.checkReplay seq then .done (sessions, [.validationError])
          else
            let cipherLen := (len + 2 ^ 64 - dataHeaderLen) % 2 ^ 64
            if bufferSize - dataHeaderLen < cipherLen then .done (sessions, [])
            else
              .load dataHeaderLen cipherLen fun cipher =>
                .done (inboundCipher na order env i seq cipher.val sessions)

/-- `handle_inbound_udp` once magic and version are accepted. -/
def inboundTypeAccess (na : Sodium) (keys : ServerKeys) (order : Endian) (env : Env)
    (src : SockAddr) (len : Nat) (sessions : Sessions) (type : UInt8) :
    Access (Sessions × List Event) :=
  if type = pktTypeData ∧ env.packetVerdict ≠ .ok then
    .done (sessions, [.packetRateCheck src.addr env.packetVerdict, .packetDropped,
      .rateLimitDrop])
  else
    .map (emit (if type = pktTypeData then
        [.packetRateCheck src.addr env.packetVerdict] else [])) <|
      if type = pktTypeHandshake then
        if len = protoHeaderLen + msg1Len + params then
          match sessionByAddr src sessions with
          | some _ => rehandshakeMsg1Access na keys order env len src sessions
          | none => msg1Access na keys order env env.random len src sessions
        else .done (sessions, [])
      else
        .map (emit [.packetReceived len]) (inboundDataAccess na order env len sessions)

/-- `handle_inbound_udp` on a buffer of `len` bytes. -/
def inboundUdpAccess (na : Sodium) (keys : ServerKeys) (order : Endian) (env : Env)
    (src : SockAddr) (len : Nat) (sessions : Sessions) : Access (Sessions × List Event) :=
  if len < protoHeaderLen then .done (sessions, [])
  else if bufferSize < len then .done (sessions, [])
  else
    .load 0 4 fun magic =>
      if order.decode magic.val ≠ pktMagic then .done (sessions, [])
      else
        .loadByte 4 fun version =>
          if version ≠ pktVersion then .done (sessions, [])
          else .loadByte 5 (inboundTypeAccess na keys order env src len sessions)

/-- Inside the buffer it does not matter what lies behind it. -/
theorem read_peek_eq_field {n off : Nat} {buf : Bytes} (past : Nat → UInt8)
    (h : off + n ≤ buf.length) : Octets.read n (peek buf past) off = field n buf off := by
  apply Octets.ext
  rw [Octets.read_peek_val n buf past off h, val_field n buf off h]

theorem peek_eq_of_lt {buf : Bytes} {i : Nat} (past past' : Nat → UInt8)
    (h : i < buf.length) : peek buf past i = peek buf past' i := by
  simp [peek, List.getElem?_eq_getElem h]

section Values

variable {buf : Bytes} (past : Nat → UInt8)

theorem value_msg1Access (na : Sodium) (keys : ServerKeys) (order : Endian) (env : Env)
    (random : Ephemeral) (src : SockAddr) (sessions : Sessions) :
    (msg1Access na keys order env random buf.length src sessions).value (peek buf past) =
      handleMsg1 na keys order env random buf src sessions := by
  unfold msg1Access handleMsg1
  split
  · rfl
  rw [Access.value_map]
  congr 1
  cases env.handshakeVerdict with
  | blacklisted => rfl
  | exceeded => rfl
  | ok =>
      dsimp only
      split
      · rfl
      next hlen =>
      have hlen : buf.length = protoHeaderLen + msg1Len + params := not_not.mp hlen
      have hfield (n off : Nat) (h : off + n ≤ protoHeaderLen + msg1Len + params) :
          Octets.read n (peek buf past) off = field n buf off :=
        read_peek_eq_field past (hlen ▸ h)
      have hbyte (off : Nat) (h : off < protoHeaderLen + msg1Len + params) :
          peek buf past off = peek buf (fun _ => 0) off :=
        peek_eq_of_lt past _ (hlen ▸ h)
      rw [Access.value_load, Access.value_load, hfield _ _ (by decide),
        hfield _ _ (by decide)]
      cases allocateSession sessions with
      | none => rfl
      | some allocated =>
          dsimp only
          rw [Access.value_load, Access.value_load, Access.value_loadByte,
            Access.value_loadByte, hfield _ _ (by decide), hfield _ _ (by decide),
            hbyte _ (by decide), hbyte _ (by decide)]
          rfl

theorem value_rehandshakeMsg1Access (na : Sodium) (keys : ServerKeys) (order : Endian)
    (env : Env) (src : SockAddr) (sessions : Sessions) :
    (rehandshakeMsg1Access na keys order env buf.length src sessions).value
        (peek buf past) =
      handleRehandshakeMsg1 na keys order env buf src sessions := by
  unfold rehandshakeMsg1Access handleRehandshakeMsg1
  split
  · rfl
  next hlen =>
  have hlen : buf.length = protoHeaderLen + msg1Len + params := not_not.mp hlen
  cases sessionByAddr src sessions with
  | none => exact value_msg1Access past na keys order env env.random src sessions
  | some i =>
      dsimp only
      rw [Access.value_load, Access.value_load,
        read_peek_eq_field past (hlen ▸ by decide),
        read_peek_eq_field past (hlen ▸ by decide)]
      unfold msg1Pub msg1Nonce
      cases na.serverSecrets env.random.sPriv keys.serverSk
          (field pubkeyLen buf protoHeaderLen) (field 8 buf (protoHeaderLen + pubkeyLen))
          env.random.sNonce with
      | none => exact value_msg1Access past na keys order env env.fallback src sessions
      | some secrets =>
          dsimp only
          cases na.signDetached keys.signSk (signedBlob (na.kxPublic env.random.sPriv)
              env.random.sNonce (field pubkeyLen buf protoHeaderLen)
              (field 8 buf (protoHeaderLen + pubkeyLen))) with
          | none => exact value_msg1Access past na keys order env env.fallback src sessions
          | some sig => rfl

theorem value_sessionByIdAccess (mem : Nat → UInt8) (sessions : Sessions)
    (slots : List Slot) :
    (sessionByIdAccess sessions slots).value mem = slots.find? fun i =>
      (sessions i).active &&
        (sessions i).sessionId == Octets.read sessionIdLen mem protoHeaderLen := by
  induction slots with
  | nil => rfl
  | cons i rest ih =>
      rw [sessionByIdAccess, List.find?_cons]
      cases (sessions i).active with
      | false => exact ih
      | true =>
          rw [if_pos rfl, Access.value_load, Bool.true_and]
          cases (sessions i).sessionId == Octets.read sessionIdLen mem protoHeaderLen with
          | false => exact ih
          | true => rfl

/-- The lookup in the buffer finds what `session_by_id` finds. -/
theorem value_sessionByIdAccess_all (env : Env) (buf : Bytes) (sessions : Sessions) :
    (sessionByIdAccess sessions (List.finRange maxClients)).value (peek buf env.past) =
      lookup env buf sessions := by
  rw [value_sessionByIdAccess]
  exact Fin.find?_eq_find?_finRange.symm

/-- The test on `cipher_len` stops every length that wrapped. -/
theorem cipherLen_eq {len : Nat} (hlen : len ≤ bufferSize)
    (hfits : ¬bufferSize - dataHeaderLen < (len + 2 ^ 64 - dataHeaderLen) % 2 ^ 64) :
    dataHeaderLen ≤ len ∧ (len + 2 ^ 64 - dataHeaderLen) % 2 ^ 64 = len - dataHeaderLen := by
  have hheader : dataHeaderLen = 30 := rfl
  have hbuffer : bufferSize = 1600 := rfl
  rw [hheader, hbuffer] at hfits
  rw [hbuffer] at hlen
  rw [hheader]
  omega

theorem value_inboundDataAccess (na : Sodium) (order : Endian) (env : Env) {buf : Bytes}
    (hlen : buf.length ≤ bufferSize) (sessions : Sessions) :
    (inboundDataAccess na order env buf.length sessions).value (peek buf env.past) =
      inboundData na order env buf sessions := by
  have hcipher (hfits : ¬bufferSize - dataHeaderLen <
      (buf.length + 2 ^ 64 - dataHeaderLen) % 2 ^ 64) :
      dataHeaderLen + (buf.length + 2 ^ 64 - dataHeaderLen) % 2 ^ 64 ≤ buf.length := by
    obtain ⟨hheader, hcipher⟩ := cipherLen_eq hlen hfits
    rw [hcipher, Nat.add_sub_cancel' hheader]
  unfold inboundDataAccess inboundData
  dsimp only
  generalize (buf.length + 2 ^ 64 - dataHeaderLen) % 2 ^ 64 = cipherLen at hcipher ⊢
  rw [Access.value_bind, value_sessionByIdAccess_all, lookup]
  cases sessionById (Octets.read sessionIdLen (peek buf env.past) protoHeaderLen)
      sessions with
  | none => rfl
  | some i =>
      dsimp only
      rw [Access.value_load]
      by_cases hreplay : (Function.update sessions i { sessions i with
          lastActivity := env.now } i).rw.checkReplay (pktSeq env buf) = true
      · rw [if_pos hreplay]
        exact congrArg (Access.value _) (if_pos hreplay)
      rw [if_neg hreplay]
      refine (congrArg (Access.value _) (if_neg hreplay)).trans ?_
      split
      · rfl
      next hfits =>
      rw [Access.value_load, Access.value_done, inboundCipher,
        Octets.read_peek_val _ _ _ _ (hcipher hfits)]
      rfl

end Values

section Loads

variable {mem : Nat → UInt8}

/-- Every load of a handshake function lies inside the buffer, and none of them is at the
offset of the ciphertext. -/
def FieldsWithin (mem : Nat → UInt8) (len : Nat) (prog : Access (Sessions × List Event)) :
    Prop :=
  ∀ range ∈ prog.loads mem, range.1 + range.2 ≤ len ∧ range.1 ≠ dataHeaderLen

theorem msg1Access_within (na : Sodium) (keys : ServerKeys) (order : Endian) (env : Env)
    (random : Ephemeral) (len : Nat) (src : SockAddr) (sessions : Sessions) :
    FieldsWithin mem len (msg1Access na keys order env random len src sessions) := by
  unfold FieldsWithin msg1Access
  split
  · simp
  rw [Access.loads_map]
  split
  · simp
  · simp
  split
  · simp
  next hlen =>
  rw [not_not.mp hlen]
  rw [Access.loads_load, Access.loads_load]
  split
  · simp
    decide
  · simp
    decide

theorem rehandshakeMsg1Access_within (na : Sodium) (keys : ServerKeys) (order : Endian)
    (env : Env) (len : Nat) (src : SockAddr) (sessions : Sessions) :
    FieldsWithin mem len (rehandshakeMsg1Access na keys order env len src sessions) := by
  unfold rehandshakeMsg1Access
  split
  · simp [FieldsWithin]
  next hlen =>
  split
  · exact msg1Access_within na keys order env env.random len src sessions
  rw [FieldsWithin, Access.loads_load, Access.loads_load, List.forall_mem_cons,
    List.forall_mem_cons]
  refine ⟨?_, ?_, ?_⟩
  · rw [not_not.mp hlen]
    decide
  · rw [not_not.mp hlen]
    decide
  dsimp only
  split
  · exact msg1Access_within na keys order env env.fallback len src sessions
  split
  · exact msg1Access_within na keys order env env.fallback len src sessions
  · simp

theorem mem_loads_sessionByIdAccess (sessions : Sessions) (slots : List Slot)
    (range : Nat × Nat) :
    range ∈ (sessionByIdAccess sessions slots).loads mem ↔
      range = (protoHeaderLen, sessionIdLen) ∧ ∃ i ∈ slots, (sessions i).active = true := by
  induction slots with
  | nil => simp [sessionByIdAccess]
  | cons i rest ih =>
      rw [sessionByIdAccess]
      cases hactive : (sessions i).active with
      | false => simp [ih, hactive]
      | true =>
          rw [if_pos rfl, Access.loads_load, List.mem_cons]
          constructor
          · rintro (hload | hlater)
            · exact ⟨hload, i, List.mem_cons_self, hactive⟩
            split at hlater
            · cases hlater
            · obtain ⟨hload, j, hj, hother⟩ := ih.mp hlater
              exact ⟨hload, j, List.mem_cons_of_mem _ hj, hother⟩
          · rintro ⟨hload, _⟩
            exact Or.inl hload

/-- The loads of the data path: the session id if any slot is active, and for a datagram
of a session the number and, if that is new and the length passes its test, the
ciphertext. -/
theorem mem_loads_inboundDataAccess (na : Sodium) (order : Endian) (env : Env)
    (buf : Bytes) (sessions : Sessions) (range : Nat × Nat) :
    range ∈ (inboundDataAccess na order env buf.length sessions).loads
        (peek buf env.past) ↔
      (range = (protoHeaderLen, sessionIdLen) ∧ ∃ i, (sessions i).active = true) ∨
      ∃ i, lookup env buf sessions = some i ∧
        (range = (protoHeaderLen + sessionIdLen, 8) ∨
          (sessions i).rw.checkReplay (pktSeq env buf) = false ∧
          ¬bufferSize - dataHeaderLen < (buf.length + 2 ^ 64 - dataHeaderLen) % 2 ^ 64 ∧
          range = (dataHeaderLen, (buf.length + 2 ^ 64 - dataHeaderLen) % 2 ^ 64)) := by
  unfold inboundDataAccess
  dsimp only
  generalize (buf.length + 2 ^ 64 - dataHeaderLen) % 2 ^ 64 = cipherLen
  rw [Access.loads_bind, List.mem_append, mem_loads_sessionByIdAccess,
    value_sessionByIdAccess_all]
  refine or_congr (by simp) ?_
  cases lookup env buf sessions with
  | none => simp
  | some i =>
      simp only [Access.loads_load, List.mem_cons, Option.some.injEq, exists_eq_left',
        Function.update_self]
      refine or_congr_right ?_
      change range ∈ Access.loads _ (if (sessions i).rw.checkReplay (pktSeq env buf) = true
        then _ else _) ↔ _
      split
      next hreplay => simp [hreplay]
      next hreplay =>
      split
      next hlong => simp [hlong]
      next hfits => simpa [hfits] using fun _ => hreplay

end Loads

section Whole

variable (na : Sodium) (keys : ServerKeys) (order : Endian) (env : Env) (src : SockAddr)
  {buf : Bytes} (sessions : Sessions)

/-- A header that is not accepted ends the call. -/
theorem inboundUdpAccess_refused (hheader : protoHeaderLen ≤ buf.length)
    (hrefused : headerAccepted order buf = false) :
    let prog := inboundUdpAccess na keys order env src buf.length sessions
    prog.value (peek buf env.past) = (sessions, []) ∧
      FieldsWithin (peek buf env.past) buf.length prog := by
  have hlen : 6 ≤ buf.length := hheader
  have hmagicLoad : 0 + 4 ≤ buf.length ∧ 0 ≠ dataHeaderLen := ⟨by omega, by decide⟩
  have hversionLoad : 4 + 1 ≤ buf.length ∧ 4 ≠ dataHeaderLen := ⟨by omega, by decide⟩
  unfold inboundUdpAccess
  dsimp only
  split
  · simp [FieldsWithin]
  split
  · simp [FieldsWithin]
  rw [Access.value_load, FieldsWithin, Access.loads_load,
    read_peek_eq_field env.past hmagicLoad.1]
  split
  · refine ⟨rfl, fun range hrange => ?_⟩
    rw [List.mem_singleton.mp hrange]
    exact hmagicLoad
  next hmagic =>
  have hversion : peek buf env.past 4 ≠ pktVersion := by
    intro hversion
    rw [headerAccepted, not_not.mp hmagic,
      peek_eq_of_lt (fun _ => 0) env.past (by omega : 4 < buf.length), hversion] at hrefused
    simp at hrefused
  rw [Access.value_loadByte, Access.loads_loadByte, if_pos hversion]
  refine ⟨rfl, fun range hrange => ?_⟩
  rcases List.mem_cons.mp hrange with hfirst | hsecond
  · rw [hfirst]
    exact hmagicLoad
  · rw [List.mem_singleton.mp hsecond]
    exact hversionLoad

/-- After an accepted header the type byte decides. -/
theorem inboundUdpAccess_accepted (hheader : protoHeaderLen ≤ buf.length)
    (hbuffer : buf.length ≤ bufferSize) (haccepted : headerAccepted order buf = true) :
    let prog := inboundUdpAccess na keys order env src buf.length sessions
    let rest := inboundTypeAccess na keys order env src buf.length sessions (packetType buf)
    prog.value (peek buf env.past) = rest.value (peek buf env.past) ∧
      prog.loads (peek buf env.past) =
        [(0, 4), (4, 1), (5, 1)] ++ rest.loads (peek buf env.past) := by
  have hlen : 6 ≤ buf.length := hheader
  have hmagic : order.decode (field 4 buf 0).val = pktMagic := by
    simpa using (Bool.and_eq_true_iff.mp haccepted).1
  have hversion : peek buf env.past 4 = pktVersion := by
    rw [peek_eq_of_lt env.past (fun _ => 0) (by omega : 4 < buf.length)]
    simpa using (Bool.and_eq_true_iff.mp haccepted).2
  have htype : peek buf env.past 5 = packetType buf :=
    peek_eq_of_lt env.past _ (by omega)
  unfold inboundUdpAccess
  dsimp only
  rw [if_neg (Nat.not_lt.mpr hheader), if_neg (Nat.not_lt.mpr hbuffer), Access.value_load,
    Access.loads_load, read_peek_eq_field env.past (by omega : 0 + 4 ≤ buf.length),
    if_neg (not_not.mpr hmagic), Access.value_loadByte, Access.loads_loadByte,
    if_neg (not_not.mpr hversion), Access.value_loadByte, Access.loads_loadByte, htype]
  exact ⟨rfl, rfl⟩

variable (buf) in
/-- On every memory that holds the datagram the program is `handle_inbound_udp`. -/
theorem value_inboundUdpAccess :
    (inboundUdpAccess na keys order env src buf.length sessions).value
        (peek buf env.past) =
      handleInboundUdp na keys order env src buf sessions := by
  unfold handleInboundUdp
  split
  next hshort =>
    unfold inboundUdpAccess
    rw [if_pos hshort]
    rfl
  next hheader =>
  split
  next hlarge =>
    unfold inboundUdpAccess
    rw [if_neg hheader, if_pos hlarge]
    rfl
  next hbuffer =>
  have hheader : protoHeaderLen ≤ buf.length := Nat.not_lt.mp hheader
  have hbuffer : buf.length ≤ bufferSize := Nat.not_lt.mp hbuffer
  cases haccepted : headerAccepted order buf with
  | false => exact (inboundUdpAccess_refused na keys order env src sessions hheader haccepted).1
  | true =>
      rw [(inboundUdpAccess_accepted na keys order env src sessions hheader hbuffer
        haccepted).1, if_neg (by simp), inboundTypeAccess]
      split
      · rfl
      rw [Access.value_map]
      congr 1
      split
      · split
        · cases sessionByAddr src sessions with
          | none => exact value_msg1Access env.past na keys order env env.random src sessions
          | some i =>
              exact value_rehandshakeMsg1Access env.past na keys order env src sessions
        · rfl
      · rw [Access.value_map, value_inboundDataAccess na order env hbuffer sessions]

/-- The program knows the memory by its loads only. -/
theorem inboundUdpAccess_past (past : Nat → UInt8) (len : Nat) :
    inboundUdpAccess na keys order { env with past := past } src len sessions =
      inboundUdpAccess na keys order env src len sessions := by
  have htype : inboundTypeAccess na keys order { env with past := past } src len sessions =
      inboundTypeAccess na keys order env src len sessions := by
    funext type
    simp only [inboundTypeAccess, inboundDataAccess, inboundCipher, inboundAccepted,
      rehandshakeMsg1Access, msg1Access, openSlot, activateSlot]
  rw [inboundUdpAccess, htype]
  rfl

/-- A datagram that is read inside its buffer is handled alike whatever lies behind it. -/
theorem handleInboundUdp_of_touched_lt
    (hwithin : ∀ i ∈ (inboundUdpAccess na keys order env src buf.length sessions).touched
      (peek buf env.past), i < buf.length) (past : Nat → UInt8) :
    handleInboundUdp na keys order { env with past := past } src buf sessions =
      handleInboundUdp na keys order env src buf sessions := by
  rw [← value_inboundUdpAccess, ← value_inboundUdpAccess, inboundUdpAccess_past]
  refine (Access.value_congr _ fun i hi => ?_).symm
  exact peek_eq_of_lt env.past past (hwithin i hi)

theorem header_within (hheader : protoHeaderLen ≤ buf.length) :
    ∀ range ∈ [((0 : Nat), 4), (4, 1), (5, 1)],
      range.1 + range.2 ≤ buf.length ∧ range.1 ≠ dataHeaderLen := by
  intro range hrange
  have hsix : range.1 + range.2 ≤ protoHeaderLen ∧ range.1 ≠ dataHeaderLen := by
    revert range
    decide
  exact ⟨hsix.1.trans hheader, hsix.2⟩

/-- By its type a datagram is read inside its buffer, or goes to the session lookup. -/
theorem inboundTypeAccess_loads (mem : Nat → UInt8) (len : Nat) (type : UInt8) :
    let rest := inboundTypeAccess na keys order env src len sessions type
    (¬(type ≠ pktTypeHandshake ∧ (type = pktTypeData → env.packetVerdict = .ok)) ∧
        FieldsWithin mem len rest) ∨
      ((type ≠ pktTypeHandshake ∧ (type = pktTypeData → env.packetVerdict = .ok)) ∧
        rest.loads mem = (inboundDataAccess na order env len sessions).loads mem) := by
  by_cases hlimited : type = pktTypeData ∧ env.packetVerdict ≠ .ok
  · refine Or.inl ⟨fun h => hlimited.2 (h.2 hlimited.1), ?_⟩
    simp [FieldsWithin, inboundTypeAccess, hlimited]
  by_cases hhandshake : type = pktTypeHandshake
  · refine Or.inl ⟨fun h => h.1 hhandshake, ?_⟩
    rw [FieldsWithin, inboundTypeAccess, if_neg hlimited, Access.loads_map,
      if_pos hhandshake]
    split
    · split
      · exact rehandshakeMsg1Access_within na keys order env len src sessions
      · exact msg1Access_within na keys order env env.random len src sessions
    · simp
  · refine Or.inr ⟨⟨hhandshake, fun hdata => ?_⟩, ?_⟩
    · exact not_not.mp fun hverdict => hlimited ⟨hdata, hverdict⟩
    · rw [inboundTypeAccess, if_neg hlimited, Access.loads_map, if_neg hhandshake,
        Access.loads_map]

variable (buf) in
/-- A datagram that does not get to the session lookup is read inside its buffer. One that
does is read as the data path reads it, after the header. -/
theorem inboundUdpAccess_loads :
    let prog := inboundUdpAccess na keys order env src buf.length sessions
    (¬ReachesLookup order env buf ∧ FieldsWithin (peek buf env.past) buf.length prog) ∨
      (ReachesLookup order env buf ∧ prog.loads (peek buf env.past) =
        [(0, 4), (4, 1), (5, 1)] ++
          (inboundDataAccess na order env buf.length sessions).loads
            (peek buf env.past)) := by
  by_cases hshort : buf.length < protoHeaderLen
  · refine Or.inl ⟨fun h => absurd h.1 (Nat.not_le.mpr hshort), ?_⟩
    simp [FieldsWithin, inboundUdpAccess, hshort]
  by_cases hlarge : bufferSize < buf.length
  · refine Or.inl ⟨fun h => absurd h.2.1 (Nat.not_le.mpr hlarge), ?_⟩
    simp [FieldsWithin, inboundUdpAccess, hlarge]
  have hheader : protoHeaderLen ≤ buf.length := Nat.not_lt.mp hshort
  have hbuffer : buf.length ≤ bufferSize := Nat.not_lt.mp hlarge
  cases haccepted : headerAccepted order buf with
  | false =>
      refine Or.inl ⟨fun h => ?_, (inboundUdpAccess_refused na keys order env src sessions
        hheader haccepted).2⟩
      rw [h.2.2.1] at haccepted
      cases haccepted
  | true =>
      have hloads := (inboundUdpAccess_accepted na keys order env src sessions hheader
        hbuffer haccepted).2
      rcases inboundTypeAccess_loads na keys order env src sessions (peek buf env.past)
        buf.length (packetType buf) with ⟨hends, hwithin⟩ | ⟨hgoes, hdata⟩
      · refine Or.inl ⟨fun h => hends h.2.2.2, fun range hrange => ?_⟩
        rw [hloads] at hrange
        rcases List.mem_append.mp hrange with hfirst | hlater
        · exact header_within hheader range hfirst
        · exact hwithin range hlater
      · refine Or.inr ⟨⟨hheader, hbuffer, haccepted, hgoes⟩, ?_⟩
        rw [hloads, hdata]

/-- A found session is an active one. -/
theorem exists_active_of_lookup {i : Slot} (hfound : lookup env buf sessions = some i) :
    ∃ j, (sessions j).active = true :=
  ⟨i, (sessionById_eq_some hfound).1⟩

/-- The data path stays inside the buffer exactly if the session id does, or is not
compared with any slot, and the rest of the header does for a datagram of a session. -/
theorem inboundDataAccess_within_iff (hbuffer : buf.length ≤ bufferSize) :
    (∀ range ∈ (inboundDataAccess na order env buf.length sessions).loads
        (peek buf env.past), range.2 = 0 ∨ range.1 + range.2 ≤ buf.length) ↔
      ((∃ i, (sessions i).active = true) →
        protoHeaderLen + sessionIdLen ≤ buf.length ∧
          ((lookup env buf sessions).isSome = true → dataHeaderLen ≤ buf.length)) := by
  have hheaderLen : protoHeaderLen + sessionIdLen + 8 = dataHeaderLen := rfl
  constructor
  · rintro hwithin hactive
    have hid := hwithin (protoHeaderLen, sessionIdLen)
      ((mem_loads_inboundDataAccess na order env buf sessions _).mpr
        (Or.inl ⟨rfl, hactive⟩))
    refine ⟨hid.resolve_left (by decide), fun hfound => ?_⟩
    obtain ⟨i, hi⟩ := Option.isSome_iff_exists.mp hfound
    have hseq := hwithin (protoHeaderLen + sessionIdLen, 8)
      ((mem_loads_inboundDataAccess na order env buf sessions _).mpr
        (Or.inr ⟨i, hi, Or.inl rfl⟩))
    exact hheaderLen ▸ hseq.resolve_left (by decide)
  · rintro hlong range hrange
    rcases (mem_loads_inboundDataAccess na order env buf sessions range).mp hrange with
      ⟨hid, hactive⟩ | ⟨i, hi, hseq | ⟨_, hfits, hcipher⟩⟩
    · rw [hid]
      exact Or.inr (hlong hactive).1
    · have hheader := (hlong (exists_active_of_lookup env sessions hi)).2
        (Option.isSome_iff_exists.mpr ⟨i, hi⟩)
      rw [hseq]
      exact Or.inr (hheaderLen ▸ hheader)
    · obtain ⟨hheader, hlength⟩ := cipherLen_eq hbuffer hfits
      rw [hcipher, hlength]
      exact Or.inr (Nat.add_sub_cancel' hheader).le

/-- Only the ciphertext is loaded at its offset, and its length did not wrap. -/
theorem inboundUdpAccess_cipher {n : Nat} (hload : (dataHeaderLen, n) ∈
      (inboundUdpAccess na keys order env src buf.length sessions).loads
        (peek buf env.past)) :
    dataHeaderLen ≤ buf.length ∧ n = buf.length - dataHeaderLen := by
  rcases inboundUdpAccess_loads na keys order env src buf sessions with
    ⟨_, hwithin⟩ | ⟨hreaches, hloads⟩
  · exact absurd rfl (hwithin _ hload).2
  rw [hloads] at hload
  rcases List.mem_append.mp hload with hfirst | hlater
  · exact absurd hfirst (by simp [dataHeaderLen])
  rcases (mem_loads_inboundDataAccess na order env buf sessions _).mp hlater with
    ⟨hid, _⟩ | ⟨i, _, hseq | ⟨_, hfits, hcipher⟩⟩
  · have hoffset : dataHeaderLen = protoHeaderLen := congrArg Prod.fst hid
    exact absurd hoffset (by decide)
  · have hoffset : dataHeaderLen = protoHeaderLen + sessionIdLen := congrArg Prod.fst hseq
    exact absurd hoffset (by decide)
  · obtain ⟨hheader, hlength⟩ := cipherLen_eq hreaches.2.1 hfits
    exact ⟨hheader, (congrArg Prod.snd hcipher).trans hlength⟩

end Whole

/-- Every index of the datagram that is read lies inside it exactly if a datagram that
gets to the session lookup while some slot is active has its session id, and one of a
session has its whole header. The length of the ciphertext never wraps where it is used. -/
theorem datagram_reads_within_iff (na : Sodium) (keys : ServerKeys) (order : Endian)
    (env : Env) (src : SockAddr) (buf : Bytes) (sessions : Sessions) :
    let prog := inboundUdpAccess na keys order env src buf.length sessions
    let mem := peek buf env.past
    prog.value mem = handleInboundUdp na keys order env src buf sessions ∧
      ((∀ i ∈ prog.touched mem, i < buf.length) ↔
        (ReachesLookup order env buf → (∃ i, (sessions i).active = true) →
          protoHeaderLen + sessionIdLen ≤ buf.length ∧
            ((lookup env buf sessions).isSome = true → dataHeaderLen ≤ buf.length))) ∧
      ∀ n, (dataHeaderLen, n) ∈ prog.loads mem →
        dataHeaderLen ≤ buf.length ∧ n = buf.length - dataHeaderLen := by
  intro prog mem
  refine ⟨value_inboundUdpAccess na keys order env src buf sessions, ?_, fun n hload =>
    inboundUdpAccess_cipher na keys order env src sessions hload⟩
  rw [Access.touched_lt_iff]
  rcases inboundUdpAccess_loads na keys order env src buf sessions with
    ⟨hends, hwithin⟩ | ⟨hreaches, hloads⟩
  · refine ⟨fun _ hreaches => absurd hreaches hends, fun _ range hrange => ?_⟩
    exact Or.inr (hwithin range hrange).1
  · rw [hloads, List.forall_mem_append,
      inboundDataAccess_within_iff na order env sessions hreaches.2.1]
    refine ⟨fun h _ => h.2, fun h => ⟨fun range hrange => ?_, h hreaches⟩⟩
    exact Or.inr (header_within hreaches.1 range hrange).1

/-- A bare header of a data packet, six bytes, while slot 0 is active: `session_by_id`
compares sixteen bytes that lie behind the buffer. -/
theorem bare_header_read_past_end :
    let env : Env := ⟨0, .ok, .ok, ⟨Octets.zero privkeyLen, Octets.zero 8⟩,
      ⟨Octets.zero privkeyLen, Octets.zero 8⟩, true, true, fun _ => 1, fun _ => 0⟩
    let keys : ServerKeys := ⟨Octets.zero 64, true, Octets.zero privkeyLen⟩
    let buf := (protoHeader .little pktTypeData).val
    let sessions := Function.update noSessions 0 { Session.zero with active := true }
    let prog := inboundUdpAccess Sodium.xorSodium keys .little env ⟨1, 2⟩ buf.length sessions
    buf.length = 6 ∧
      prog.loads (peek buf env.past) = [(0, 4), (4, 1), (5, 1), (6, 16)] ∧
      21 ∈ prog.touched (peek buf env.past) := by
  decide +kernel

end Chamlon.Server
