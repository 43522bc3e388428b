import Mathlib.Tactic
import Chamlon.Lib.Memory

/-!
Programs that read memory, as trees: a program is done, or loads a range of bytes
and goes on with what it found there. A program has no other way to the memory, so
its loads are all it can know of it. Two memories that agree on the bytes a run
touches have the same run.
-/

namespace Chamlon.Memory

/-- A program that reads memory and returns a value. -/
inductive Access (α : Type) where
  | done (value : α)
  | load (off n : Nat) (next : Octets n → Access α)

namespace Access

variable {α β : Type}

/-- A load of one byte. -/
def loadByte (off : Nat) (next : UInt8 → Access α) : Access α :=
  .load off 1 fun byte => next (byte.val.headD 0)

def bind (next : α → Access β) : Access α → Access β
  | .done value => next value
  | .load off n rest => .load off n fun bytes => (rest bytes).bind next

def map (f : α → β) : Access α → Access β :=
  bind fun value => .done (f value)

/-- What the program returns on a memory. -/
def value (mem : Nat → UInt8) : Access α → α
  | .done value => value
  | .load off n next => (next (Octets.read n mem off)).value mem

/-- The ranges it loads, each with its offset and length. -/
def loads (mem : Nat → UInt8) : Access α → List (Nat × Nat)
  | .done _ => []
  | .load off n next => (off, n) :: (next (Octets.read n mem off)).loads mem

/-- The indices it reads. -/
def touched (mem : Nat → UInt8) (prog : Access α) : List Nat :=
  (prog.loads mem).flatMap fun range => List.range' range.1 range.2

variable (mem : Nat → UInt8)

@[simp] theorem value_done (value : α) : (Access.done value).value mem = value := rfl

@[simp] theorem value_load (off n : Nat) (next : Octets n → Access α) :
    (Access.load off n next).value mem = (next (Octets.read n mem off)).value mem := rfl

@[simp] theorem value_loadByte (off : Nat) (next : UInt8 → Access α) :
    (loadByte off next).value mem = (next (mem off)).value mem := by
  simp [loadByte, Octets.read]

@[simp] theorem value_bind (next : α → Access β) (prog : Access α) :
    (prog.bind next).value mem = (next (prog.value mem)).value mem := by
  induction prog with
  | done value => rfl
  | load off n rest ih => exact ih (Octets.read n mem off)

@[simp] theorem value_map (f : α → β) (prog : Access α) :
    (prog.map f).value mem = f (prog.value mem) :=
  value_bind mem _ prog

@[simp] theorem loads_done (value : α) : (Access.done value).loads mem = [] := rfl

@[simp] theorem loads_load (off n : Nat) (next : Octets n → Access α) :
    (Access.load off n next).loads mem =
      (off, n) :: (next (Octets.read n mem off)).loads mem := rfl

@[simp] theorem loads_loadByte (off : Nat) (next : UInt8 → Access α) :
    (loadByte off next).loads mem = (off, 1) :: (next (mem off)).loads mem := by
  simp [loadByte, Octets.read]

@[simp] theorem loads_bind (next : α → Access β) (prog : Access α) :
    (prog.bind next).loads mem = prog.loads mem ++ (next (prog.value mem)).loads mem := by
  induction prog with
  | done value => rfl
  | load off n rest ih => exact congrArg ((off, n) :: ·) (ih (Octets.read n mem off))

@[simp] theorem loads_map (f : α → β) (prog : Access α) :
    (prog.map f).loads mem = prog.loads mem := by
  simp [map]

/-- A program stays below a bound if each of its nonempty ranges does. -/
theorem touched_lt_iff (prog : Access α) (len : Nat) :
    (∀ i ∈ prog.touched mem, i < len) ↔
      ∀ range ∈ prog.loads mem, range.2 = 0 ∨ range.1 + range.2 ≤ len := by
  constructor
  · intro hbelow range hrange
    by_cases hempty : range.2 = 0
    · exact Or.inl hempty
    have hlast := hbelow (range.1 + (range.2 - 1)) (List.mem_flatMap.mpr
      ⟨range, hrange, List.mem_range'_1.mpr (by omega)⟩)
    omega
  · intro hranges i hi
    obtain ⟨range, hrange, hinside⟩ := List.mem_flatMap.mp hi
    have hspan := List.mem_range'_1.mp hinside
    have hfits := hranges range hrange
    omega

variable {mem} in
/-- A run depends on nothing but the bytes it touches. -/
theorem value_congr {mem' : Nat → UInt8} (prog : Access α)
    (hagree : ∀ i ∈ prog.touched mem, mem i = mem' i) :
    prog.value mem = prog.value mem' := by
  induction prog with
  | done value => rfl
  | load off n next ih =>
      have hsplit : ((Access.load off n next).touched mem) =
          List.range' off n ++ (next (Octets.read n mem off)).touched mem := rfl
      rw [hsplit] at hagree
      have hbytes : Octets.read n mem off = Octets.read n mem' off := by
        apply Octets.ext
        refine List.ofFn_inj.mpr (funext fun k => ?_)
        exact hagree _ (List.mem_append_left _ (List.mem_range'_1.mpr (by omega)))
      rw [value_load, value_load, ← hbytes]
      exact ih _ fun i hi => hagree i (List.mem_append_right _ hi)

end Access

end Chamlon.Memory
