import Mathlib.Tactic
import Chamlon.Sodium

/-!
The handshake messages as bytes. MSG1 is built by the client and taken apart by
the server, MSG2 the other way round; builders and readers use their own offset
arithmetic. Structs go over the wire in host byte order, which is a parameter.
-/

namespace Chamlon

open Config Memory

/-- The options a client sends along: `argv_MBPS`, `argv_FRAG`, `argv_CBR` and
`argv_PAD`. -/
structure Params where
  mbps : Int
  frag : Int
  cbr : UInt8
  pad : UInt8
deriving DecidableEq, Repr

/-- The bytes of a packed `proto_header_t`. -/
def protoHeader (order : Endian) (type : UInt8) : Octets protoHeaderLen :=
  ⟨(order.encode 4 pktMagic).val ++ [pktVersion, type], by
    simp [Octets.length_val, protoHeaderLen]⟩

theorem getElem?_protoHeader_append (order : Endian) (type : UInt8) (rest : Bytes) :
    ((protoHeader order type).val ++ rest)[5]? = some type := by
  rw [List.getElem?_append_left (by rw [Octets.length_val]; decide), protoHeader,
    List.getElem?_append_right (by rw [Octets.length_val]; decide), Octets.length_val]
  rfl

/-- MSG1 as `client_handshake` builds it. -/
def buildMsg1 (order : Endian) (cPub : Octets pubkeyLen) (cNonce : Octets 8)
    (argv : Params) : Bytes :=
  layout (Octets.zero (protoHeaderLen + msg1Len + params)).val
    [(0, (protoHeader order pktTypeHandshake).val),
      (protoHeaderLen, cPub.val),
      (protoHeaderLen + pubkeyLen, cNonce.val),
      (protoHeaderLen + pubkeyLen + 8, (order.encodeInt argv.mbps).val),
      (protoHeaderLen + pubkeyLen + 8 + 4, (order.encodeInt argv.frag).val),
      (protoHeaderLen + pubkeyLen + 8 + 8, [argv.cbr]),
      (protoHeaderLen + pubkeyLen + 8 + 9, [argv.pad])]

/-- The client key and nonce, as both server functions copy them out of MSG1. -/
def msg1Pub (msg1 : Bytes) : Octets pubkeyLen := field pubkeyLen msg1 protoHeaderLen

def msg1Nonce (msg1 : Bytes) : Octets 8 := field 8 msg1 (protoHeaderLen + pubkeyLen)

/-- The options as `handle_msg1` copies them into the slot. -/
def msg1Params (order : Endian) (msg1 : Bytes) : Params where
  mbps := order.decodeInt (field 4 msg1 (protoHeaderLen + pubkeyLen + 8)).val
  frag := order.decodeInt (field 4 msg1 (protoHeaderLen + pubkeyLen + 8 + 4)).val
  cbr := peek msg1 (fun _ => 0) (protoHeaderLen + pubkeyLen + 8 + 8)
  pad := peek msg1 (fun _ => 0) (protoHeaderLen + pubkeyLen + 8 + 9)

/-- The validation in `handle_msg1`: an option out of range falls back to its
default. -/
def validateParams (argv : Params) : Params where
  mbps := if argv.mbps < minMbps ∨ maxMbps < argv.mbps then defaultMbps else argv.mbps
  frag := if argv.frag < minFragParam ∨ maxFragParam < argv.frag then defaultFragParam
    else argv.frag
  cbr := if argv.cbr ≠ 'Y'.toUInt8 ∧ argv.cbr ≠ 'N'.toUInt8 then 'N'.toUInt8
    else argv.cbr
  pad := if argv.pad ≠ 'Y'.toUInt8 ∧ argv.pad ≠ 'N'.toUInt8 then 'N'.toUInt8
    else argv.pad

/-- The blob under the server's signature. Both programs lay it out alike. -/
def signedBlob (sPub : Octets pubkeyLen) (sNonce : Octets 8)
    (cPub : Octets pubkeyLen) (cNonce : Octets 8) : Bytes :=
  layout (Octets.zero (pubkeyLen + 8 + pubkeyLen + 8)).val
    [(0, sPub.val), (pubkeyLen, sNonce.val), (pubkeyLen + 8, cPub.val),
      (pubkeyLen + 8 + pubkeyLen, cNonce.val)]

/-- MSG2 as both server functions build it. -/
def buildMsg2 (order : Endian) (sPub : Octets pubkeyLen) (sNonce : Octets 8)
    (vpnIp : Octets 4) (sig : Octets sigLen) : Bytes :=
  layout (Octets.zero (protoHeaderLen + msg2Len)).val
    [(0, (protoHeader order pktTypeHandshake).val),
      (protoHeaderLen, sPub.val),
      (protoHeaderLen + pubkeyLen, sNonce.val),
      (protoHeaderLen + pubkeyLen + 8, vpnIp.val),
      (protoHeaderLen + pubkeyLen + 8 + 4, sig.val)]

/-- The fields `client_handshake` copies out of MSG2. -/
structure Msg2 where
  sPub : Octets pubkeyLen
  sNonce : Octets 8
  assignedIp : Octets 4
  sig : Octets sigLen
deriving DecidableEq

def parseMsg2 (msg2 : Bytes) : Msg2 where
  sPub := field pubkeyLen msg2 protoHeaderLen
  sNonce := field 8 msg2 (protoHeaderLen + pubkeyLen)
  assignedIp := field 4 msg2 (protoHeaderLen + pubkeyLen + 8)
  sig := field sigLen msg2 (protoHeaderLen + pubkeyLen + 8 + 4)

theorem buildMsg1_eq (order : Endian) (cPub : Octets pubkeyLen) (cNonce : Octets 8)
    (argv : Params) :
    buildMsg1 order cPub cNonce argv =
      (protoHeader order pktTypeHandshake).val ++ (cPub.val ++ (cNonce.val ++
        ((order.encodeInt argv.mbps).val ++ ((order.encodeInt argv.frag).val ++
          ([argv.cbr] ++ [argv.pad]))))) := by
  rw [buildMsg1, layout_of_contiguous _ _ 0
    (by simp [Contiguous, Octets.length_val, protoHeaderLen, pubkeyLen])
    (by simp [Octets.length_val, protoHeaderLen, pubkeyLen, msg1Len, params])]
  simp

theorem length_buildMsg1 (order : Endian) (cPub : Octets pubkeyLen)
    (cNonce : Octets 8) (argv : Params) :
    (buildMsg1 order cPub cNonce argv).length = protoHeaderLen + msg1Len + params := by
  simp [buildMsg1_eq, Octets.length_val, protoHeaderLen, pubkeyLen, msg1Len, params]

theorem msg1Pub_buildMsg1 (order : Endian) (cPub : Octets pubkeyLen)
    (cNonce : Octets 8) (argv : Params) :
    msg1Pub (buildMsg1 order cPub cNonce argv) = cPub := by
  rw [msg1Pub, buildMsg1_eq]
  exact field_append _ _ cPub _ _ (by simp [Octets.length_val, protoHeaderLen])

theorem msg1Nonce_buildMsg1 (order : Endian) (cPub : Octets pubkeyLen)
    (cNonce : Octets 8) (argv : Params) :
    msg1Nonce (buildMsg1 order cPub cNonce argv) = cNonce := by
  rw [msg1Nonce, buildMsg1_eq, ← List.append_assoc]
  exact field_append _ _ cNonce _ _ (by simp [Octets.length_val, protoHeaderLen, pubkeyLen])

/-- The server reads back the options the client wrote, as long as they are
32-bit integers. -/
theorem msg1Params_buildMsg1 (order : Endian) (cPub : Octets pubkeyLen)
    (cNonce : Octets 8) (argv : Params)
    (hmbps : -2 ^ 31 ≤ argv.mbps ∧ argv.mbps < 2 ^ 31)
    (hfrag : -2 ^ 31 ≤ argv.frag ∧ argv.frag < 2 ^ 31) :
    msg1Params order (buildMsg1 order cPub cNonce argv) = argv := by
  have hmbpsField : field 4 (buildMsg1 order cPub cNonce argv)
      (protoHeaderLen + pubkeyLen + 8) = order.encodeInt argv.mbps := by
    rw [buildMsg1_eq, ← List.append_assoc, ← List.append_assoc]
    exact field_append _ _ (order.encodeInt argv.mbps) _ _
      (by simp [Octets.length_val, protoHeaderLen, pubkeyLen])
  have hfragField : field 4 (buildMsg1 order cPub cNonce argv)
      (protoHeaderLen + pubkeyLen + 8 + 4) = order.encodeInt argv.frag := by
    rw [buildMsg1_eq, ← List.append_assoc, ← List.append_assoc, ← List.append_assoc]
    exact field_append _ _ (order.encodeInt argv.frag) _ _
      (by simp [Octets.length_val, protoHeaderLen, pubkeyLen])
  have hcbr : peek (buildMsg1 order cPub cNonce argv) (fun _ => 0)
      (protoHeaderLen + pubkeyLen + 8 + 8) = argv.cbr := by
    simp [peek, buildMsg1_eq, Octets.length_val, protoHeaderLen, pubkeyLen]
  have hpad : peek (buildMsg1 order cPub cNonce argv) (fun _ => 0)
      (protoHeaderLen + pubkeyLen + 8 + 9) = argv.pad := by
    simp [peek, buildMsg1_eq, Octets.length_val, protoHeaderLen, pubkeyLen]
  simp only [msg1Params, hmbpsField, hfragField, hcbr, hpad,
    order.decodeInt_encodeInt _ hmbps.1 hmbps.2, order.decodeInt_encodeInt _ hfrag.1 hfrag.2]

theorem buildMsg2_eq (order : Endian) (sPub : Octets pubkeyLen) (sNonce : Octets 8)
    (vpnIp : Octets 4) (sig : Octets sigLen) :
    buildMsg2 order sPub sNonce vpnIp sig =
      (protoHeader order pktTypeHandshake).val ++ (sPub.val ++ (sNonce.val ++
        (vpnIp.val ++ (sig.val ++ [])))) := by
  rw [buildMsg2, layout_of_contiguous _ _ 0
    (by simp [Contiguous, Octets.length_val, protoHeaderLen, pubkeyLen])
    (by simp [Octets.length_val, protoHeaderLen, pubkeyLen, msg2Len, sigLen])]
  simp

theorem length_buildMsg2 (order : Endian) (sPub : Octets pubkeyLen)
    (sNonce : Octets 8) (vpnIp : Octets 4) (sig : Octets sigLen) :
    (buildMsg2 order sPub sNonce vpnIp sig).length = protoHeaderLen + msg2Len := by
  simp [buildMsg2_eq, Octets.length_val, protoHeaderLen, pubkeyLen, msg2Len, sigLen]

theorem type_buildMsg2 (order : Endian) (sPub : Octets pubkeyLen) (sNonce : Octets 8)
    (vpnIp : Octets 4) (sig : Octets sigLen) :
    (buildMsg2 order sPub sNonce vpnIp sig)[5]? = some pktTypeHandshake := by
  rw [buildMsg2_eq]
  exact getElem?_protoHeader_append order pktTypeHandshake _

/-- The client reads back every field the server wrote. -/
theorem parseMsg2_buildMsg2 (order : Endian) (sPub : Octets pubkeyLen)
    (sNonce : Octets 8) (vpnIp : Octets 4) (sig : Octets sigLen) :
    parseMsg2 (buildMsg2 order sPub sNonce vpnIp sig) = ⟨sPub, sNonce, vpnIp, sig⟩ := by
  have hpub : field pubkeyLen (buildMsg2 order sPub sNonce vpnIp sig)
      protoHeaderLen = sPub := by
    rw [buildMsg2_eq]
    exact field_append _ _ sPub _ _ (by simp [Octets.length_val, protoHeaderLen])
  have hnonce : field 8 (buildMsg2 order sPub sNonce vpnIp sig)
      (protoHeaderLen + pubkeyLen) = sNonce := by
    rw [buildMsg2_eq, ← List.append_assoc]
    exact field_append _ _ sNonce _ _ (by simp [Octets.length_val, protoHeaderLen, pubkeyLen])
  have hip : field 4 (buildMsg2 order sPub sNonce vpnIp sig)
      (protoHeaderLen + pubkeyLen + 8) = vpnIp := by
    rw [buildMsg2_eq, ← List.append_assoc, ← List.append_assoc]
    exact field_append _ _ vpnIp _ _ (by simp [Octets.length_val, protoHeaderLen, pubkeyLen])
  have hsig : field sigLen (buildMsg2 order sPub sNonce vpnIp sig)
      (protoHeaderLen + pubkeyLen + 8 + 4) = sig := by
    rw [buildMsg2_eq, ← List.append_assoc, ← List.append_assoc, ← List.append_assoc]
    exact field_append _ _ sig _ _ (by simp [Octets.length_val, protoHeaderLen, pubkeyLen])
  simp only [parseMsg2, hpub, hnonce, hip, hsig]

/-- The signed blob determines the four values in it. -/
theorem signedBlob_inj {sPub sPub' : Octets pubkeyLen} {sNonce sNonce' : Octets 8}
    {cPub cPub' : Octets pubkeyLen} {cNonce cNonce' : Octets 8}
    (h : signedBlob sPub sNonce cPub cNonce = signedBlob sPub' sNonce' cPub' cNonce') :
    sPub = sPub' ∧ sNonce = sNonce' ∧ cPub = cPub' ∧ cNonce = cNonce' := by
  have heq (a : Octets pubkeyLen) (b : Octets 8) (c : Octets pubkeyLen) (d : Octets 8) :
      signedBlob a b c d = a.val ++ (b.val ++ (c.val ++ d.val)) := by
    rw [signedBlob, layout_of_contiguous _ _ 0
      (by simp [Contiguous, Octets.length_val, pubkeyLen])
      (by simp [Octets.length_val, pubkeyLen])]
    simp
  rw [heq, heq] at h
  obtain ⟨hs, h⟩ := List.append_inj h (by simp [Octets.length_val])
  obtain ⟨hn, h⟩ := List.append_inj h (by simp [Octets.length_val])
  obtain ⟨hc, hd⟩ := List.append_inj h (by simp [Octets.length_val])
  exact ⟨Octets.ext hs, Octets.ext hn, Octets.ext hc, Octets.ext hd⟩

end Chamlon
