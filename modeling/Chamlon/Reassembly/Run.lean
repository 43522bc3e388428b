import Mathlib.Tactic
import Chamlon.Lib.Machine
import Chamlon.Reassembly.Bounds

/-!
The reassembly code as a machine over one table. Its inputs are the plaintexts
that passed authentication and the calls of the timeout sweep, its events are
the writes to the TUN device and the ways a fragment is refused. On plaintexts
with a whole tunnel header the two programs run the same machine and never make
a bad copy.
-/

namespace Chamlon.Reassembly

open Config Memory

/-- Which program runs the reassembly code. -/
inductive Side where
  | server
  | client
deriving DecidableEq, Repr

def handlePlain : Side → Endian → (Nat → UInt8) → Int → Bytes →
    ReassemblyTable → PlainOutcome
  | .server => inboundPlain
  | .client => udpPlain

inductive Input where
  | plain (now : Int) (bytes : Bytes)
  | sweep (now : Int)

/-- The plaintext holds a tunnel header and fits the receive buffer. -/
def Input.WellFormed : Input → Prop
  | .plain _ bytes => tunnelHeaderLen ≤ bytes.length ∧ bytes.length ≤ bufferSize
  | .sweep _ => True

instance : DecidablePred Input.WellFormed
  | .plain _ bytes => inferInstanceAs
      (Decidable (tunnelHeaderLen ≤ bytes.length ∧ bytes.length ≤ bufferSize))
  | .sweep _ => inferInstanceAs (Decidable True)

inductive ReassemblyEvent where
  /-- `write(tun_fd, entry->buffer, length)` and the bytes of the buffer it
  reaches. -/
  | tunWrite (bytes : Bytes) (length : Nat)
  | oversize
  | tableFull
  | badCopy
deriving DecidableEq

def FragmentOutcome.tableAfter (table : ReassemblyTable) :
    FragmentOutcome → ReassemblyTable
  | .tableFull => table
  | .oversize next _ => next
  | .stored next _ => next
  | .written next _ _ _ => next
  | .badCopy _ => table

def FragmentOutcome.events : FragmentOutcome → List ReassemblyEvent
  | .tableFull => [.tableFull]
  | .oversize _ _ => [.oversize]
  | .stored _ _ => []
  | .written _ _ buffer length => [.tunWrite (buffer.val.take length) length]
  | .badCopy _ => [.badCopy]

def reassemblyStep (side : Side) (order : Endian) (stack : Nat → UInt8)
    (table : ReassemblyTable) : Input → ReassemblyTable × List ReassemblyEvent
  | .sweep now => (sweepReassemblyTable now table, [])
  | .plain now bytes =>
      match handlePlain side order stack now bytes table with
      | .fragment outcome => (outcome.tableAfter table, outcome.events)
      | _ => (table, [])

/-- With a whole header the client's length check does nothing. -/
theorem handlePlain_of_header (side : Side) (order : Endian) (stack : Nat → UInt8)
    (now : Int) (bytes : Bytes) (table : ReassemblyTable)
    (h : tunnelHeaderLen ≤ bytes.length) :
    handlePlain side order stack now bytes table =
      dispatchPlain order stack now bytes table := by
  cases side with
  | server => rfl
  | client => exact if_neg (Nat.not_lt.mpr h)

/-- The header of a plaintext, where the bytes behind it do not matter. -/
def plainHeader (order : Endian) (bytes : Bytes) : TunnelHeader :=
  readHeader order (peek bytes fun _ => 0)

def plainPayload (bytes : Bytes) : Bytes :=
  bytes.drop tunnelHeaderLen

/-- On a plaintext with a whole header the machine either skips a control packet
or files the payload under the header. -/
theorem handlePlain_cases (side : Side) (order : Endian) (stack : Nat → UInt8)
    (now : Int) (bytes : Bytes) (table : ReassemblyTable)
    (h : (Input.plain now bytes).WellFormed) :
    ((plainHeader order bytes).isControl = true ∧ ∀ outcome,
      handlePlain side order stack now bytes table ≠ .fragment outcome) ∨
    ((plainHeader order bytes).isControl = false ∧
      handlePlain side order stack now bytes table =
        .fragment (storeFragment now (plainHeader order bytes)
          (plainPayload bytes) (plainPayload bytes).length table)) := by
  have hfields : 8 ≤ bytes.length :=
    (show 8 ≤ tunnelHeaderLen by decide).trans h.1
  have hheader : readHeader order (peek bytes stack) = plainHeader order bytes :=
    readHeader_peek_congr order bytes stack (fun _ => 0) hfields
  rw [handlePlain_of_header side order stack now bytes table h.1]
  cases hctrl : (plainHeader order bytes).isControl with
  | true =>
      exact Or.inl ⟨rfl, dispatchPlain_of_control order stack now bytes table
        (by rw [hheader]; exact hctrl)⟩
  | false =>
      refine Or.inr ⟨rfl, ?_⟩
      rw [dispatchPlain_of_not_control order stack now bytes table
        (by rw [hheader]; exact hctrl), hheader,
        fragmentPayloadLen_of_le bytes h.1 h.2]
      rfl

end Chamlon.Reassembly
