import Mathlib.Tactic
import Chamlon.Reassembly.Store

/-!
A reassembly table under the operations of its users, in any order and with any clock:
`find_or_create_entry`, the copy of a fragment into an entry, the end of a packet that is
complete or does not fit, and `sweep_reassembly_table`. The clock may jump back; only the
sweep compares with it, and the sweep can do no more than free entries.
-/

namespace Chamlon.Reassembly

open Config Memory Machine

/-- An operation on one table. -/
inductive TableCall where
  | findOrCreate (now : Int) (id : UInt16)
  /-- The copy of a fragment and the counts that go with it. -/
  | fill (i : Fin maxReassemblyEntries) (header : TunnelHeader) (payload : Bytes)
      (h : header.fragmentOffset.toNat + payload.length ≤ maxPacketSize)
  /-- `entry->is_active = false`. -/
  | deactivate (i : Fin maxReassemblyEntries)
  | sweep (now : Int)

/-- The table after the call, and what `find_or_create_entry` returned. -/
def callStep (table : ReassemblyTable) :
    TableCall → ReassemblyTable × List (Option (Fin maxReassemblyEntries))
  | .findOrCreate now id =>
      match findOrCreateEntry now id table with
      | some (i, next) => (next, [some i])
      | none => (table, [none])
  | .fill i header payload h =>
      (Function.update table i ((table i).fill header payload h), [])
  | .deactivate i => (Function.update table i { table i with isActive := false }, [])
  | .sweep now => (sweepReassemblyTable now table, [])

/-- An entry that keeps its packet, or gives it up, takes none from another entry. -/
theorem UniqueIds.replace {table : ReassemblyTable} (huniq : UniqueIds table)
    {i : Fin maxReassemblyEntries} {entry : ReassemblyEntry}
    (hactive : entry.isActive = true → (table i).isActive = true)
    (hid : entry.packetId = (table i).packetId) :
    UniqueIds (Function.update table i entry) := by
  have hback : ∀ j, (Function.update table i entry j).isActive = true →
      (table j).isActive = true ∧
        (Function.update table i entry j).packetId = (table j).packetId := by
    intro j hj
    by_cases hji : j = i
    · subst hji
      rw [Function.update_self] at hj ⊢
      exact ⟨hactive hj, hid⟩
    · rw [Function.update_of_ne hji] at hj ⊢
      exact ⟨hj, rfl⟩
  intro a b ha hb hsame
  obtain ⟨ha, haid⟩ := hback a ha
  obtain ⟨hb, hbid⟩ := hback b hb
  exact huniq a b ha hb (haid ▸ hbid ▸ hsame)

theorem UniqueIds.findOrCreate {table next : ReassemblyTable} (huniq : UniqueIds table)
    {now : Int} {id : UInt16} {i : Fin maxReassemblyEntries}
    (h : findOrCreateEntry now id table = some (i, next)) : UniqueIds next := by
  obtain ⟨howns, hnext⟩ := findOrCreateEntry_owns (huniq.at id) h
  rw [hnext]
  exact huniq.update howns (storeOf_entry table now id).1

theorem callStep_uniqueIds {table : ReassemblyTable} (huniq : UniqueIds table)
    (call : TableCall) : UniqueIds (callStep table call).1 := by
  cases call with
  | findOrCreate now id =>
      dsimp only [callStep]
      cases hfind : findOrCreateEntry now id table with
      | none => exact huniq
      | some found => exact huniq.findOrCreate hfind
  | fill i header payload h => exact huniq.replace id rfl
  | deactivate i =>
      apply huniq.replace
      · intro h
        cases h
      · rfl
  | sweep now => exact huniq.sweep now

theorem callRun_uniqueIds (calls : List TableCall) :
    UniqueIds (run callStep emptyTable calls).1 := by
  apply run_invariant callStep (fun _ _ => True) UniqueIds
  · intro table call huniq _
    exact callStep_uniqueIds huniq call
  · exact uniqueIds_of_inactive fun _ => rfl
  · exact Along.of_forall _ (fun _ => True) _ calls fun _ _ => trivial

/-- In every table that calls can lead to, no two active entries carry one packet id. A
call of `find_or_create_entry` there returns the active entry of the packet, of which it
writes the time alone, or a cleared entry with the packet's id, and changes no other
entry. It returns `NULL` exactly when all entries are active with other ids. -/
theorem reassemblyTable_invariant (calls : List TableCall) (now : Int) (id : UInt16) :
    let table := (run callStep emptyTable calls).1
    (∀ i j, (table i).isActive = true → (table j).isActive = true →
      (table i).packetId = (table j).packetId → i = j) ∧
    (∀ i next, findOrCreateEntry now id table = some (i, next) →
      ((table i).isActive = true ∧ (table i).packetId = id ∧
          next i = { table i with lastActivity := now } ∨
        (∀ j, (table j).isActive = true → (table j).packetId ≠ id) ∧
          (table i).isActive = false ∧
          next i = { ReassemblyEntry.zero with
            isActive := true, packetId := id, lastActivity := now }) ∧
      ∀ j, j ≠ i → next j = table j) ∧
    (findOrCreateEntry now id table = none ↔
      ∀ j, (table j).isActive = true ∧ (table j).packetId ≠ id) ∧
    (findOrCreateEntry now id table = none →
      callStep table (.findOrCreate now id) = (table, [none])) := by
  intro table
  refine ⟨callRun_uniqueIds calls, ?_, findOrCreateEntry_eq_none_iff now id table, ?_⟩
  · intro i next hfind
    refine ⟨?_, fun j hj => findOrCreateEntry_other hfind hj⟩
    rcases findOrCreateEntry_cases hfind with
      ⟨hactive, hid, hnext⟩ | ⟨habsent, hfree, _, hnext⟩
    · exact Or.inl ⟨hactive, hid, by rw [hnext, Function.update_self]⟩
    · refine Or.inr ⟨habsent, hfree, ?_⟩
      rw [hnext, Function.update_self]
      rfl
  · intro hfull
    dsimp only [callStep]
    rw [hfull]

end Chamlon.Reassembly
