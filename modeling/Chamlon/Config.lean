import Mathlib.Tactic

/-!
The compile-time constants of the two programs. The server takes them from
`config.h`, the client from its own `config.h`, `vpn_reassembly.h` and
`vpn_replay_window.h`. Both sides agree on the constants they share; the number
of clients, the session timeout, the keepalive interval and the parameter ranges
are the server's.
-/

namespace Chamlon.Config

abbrev bufferSize : Nat := 1600
abbrev maxFrag : Nat := 1600
abbrev maxPacketSize : Nat := 2500
abbrev maxClients : Nat := 250
abbrev sessionTimeoutSec : Int := 60
abbrev keepaliveIntervalSec : Int := 10

abbrev windowSize : Nat := 64
abbrev wordSize : Nat := 64
abbrev bitmapWords : Nat := windowSize / wordSize

abbrev maxReassemblyEntries : Nat := 256
abbrev reassemblyTimeout : Int := 20

abbrev minMbps : Int := 1
abbrev maxMbps : Int := 15
abbrev defaultMbps : Int := 5
abbrev minFragParam : Int := 64
abbrev maxFragParam : Int := 1200
abbrev defaultFragParam : Int := 1024

abbrev sessionIdLen : Nat := 16
abbrev pubkeyLen : Nat := 32
abbrev privkeyLen : Nat := 32
abbrev dhLen : Nat := 32
abbrev aeadKeyLen : Nat := 32
abbrev sigLen : Nat := 64
abbrev macLen : Nat := 16

abbrev pktMagic : Nat := 0x77E1DA
abbrev pktVersion : UInt8 := 1
abbrev pktTypeHandshake : UInt8 := 222
abbrev pktTypeData : UInt8 := 111

abbrev pktCtrlKeepalive : Nat := 0x02
abbrev pktCtrlDisconnect : Nat := 0x03
abbrev pktDummy : Nat := 0xFF

/-- `sizeof(proto_header_t)`, a packed struct of four, one and one bytes. -/
abbrev protoHeaderLen : Nat := 6

/-- `sizeof(tunnel_header_t)`: four 16-bit fields and a session id. -/
abbrev tunnelHeaderLen : Nat := 24

abbrev dataHeaderLen : Nat := protoHeaderLen + sessionIdLen + 8
abbrev msg1Len : Nat := pubkeyLen + 8
abbrev params : Nat := 4 + 4 + 1 + 1
abbrev msg2Len : Nat := pubkeyLen + 8 + 4 + sigLen

end Chamlon.Config
