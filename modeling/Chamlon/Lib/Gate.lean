import Mathlib.Data.List.Nodup

/-!
A gate that lets every number pass at most once. Of its memory only two things are
known: a number that has passed is refused from then on, and what is refused stays
refused. Nothing is said about numbers that never came, so a gate may refuse some of
them as well.

A gate under a name is one that is replaced from time to time by a new one under a new
name. The pairs of name and number that pass are then all different, as long as the
names are.
-/

namespace Chamlon

universe u v

structure Gate (γ : Type u) (ν : Type v) where
  refuses : γ → ν → Bool
  record : γ → ν → γ
  refuses_self : ∀ g n, refuses g n = false → refuses (record g n) n = true
  refuses_record : ∀ g n m, refuses g m = true → refuses (record g n) m = true

namespace Gate

variable {γ : Type u} {ν : Type v} (gate : Gate γ ν)

/-- The numbers pass one after the other. -/
def Admits : γ → List ν → Prop
  | _, [] => True
  | g, n :: rest => gate.refuses g n = false ∧ Admits (gate.record g n) rest

theorem Admits.not_mem {gate : Gate γ ν} {g : γ} {ns : List ν} (h : gate.Admits g ns)
    {m : ν} (hm : gate.refuses g m = true) : m ∉ ns := by
  induction ns generalizing g with
  | nil => exact List.not_mem_nil
  | cons n rest ih =>
      intro hmem
      rcases List.mem_cons.mp hmem with rfl | hlater
      · rw [h.1] at hm
        cases hm
      · exact ih h.2 (gate.refuses_record g n m hm) hlater

theorem Admits.nodup {gate : Gate γ ν} {g : γ} {ns : List ν} (h : gate.Admits g ns) :
    ns.Nodup := by
  induction ns generalizing g with
  | nil => exact List.nodup_nil
  | cons n rest ih =>
      exact List.nodup_cons.mpr
        ⟨h.2.not_mem (gate.refuses_self g n h.1), ih h.2⟩

section Named

variable {ι : Type*}

/-- A gate under a name: the pairs that have passed are different and bear a name that
was used, and those under the present name are refused. -/
structure Passed (names : List ι) (name : ι) (g : γ) (past : List (ι × ν)) : Prop where
  current : name ∈ names
  known : ∀ pair ∈ past, pair.1 ∈ names
  refused : ∀ n, (name, n) ∈ past → gate.refuses g n = true
  once : past.Nodup

variable {gate} {names : List ι} {name : ι} {g : γ} {past : List (ι × ν)}

theorem passed_start (gate : Gate γ ν) (name : ι) (g : γ) :
    gate.Passed [name] name g [] where
  current := List.mem_singleton_self name
  known := nofun
  refused := nofun
  once := List.nodup_nil

/-- One more number passes. -/
theorem Passed.pass (h : gate.Passed names name g past) {n : ν}
    (hnew : gate.refuses g n = false) :
    gate.Passed names name (gate.record g n) (past ++ [(name, n)]) := by
  refine ⟨h.current, ?_, ?_, ?_⟩
  · intro pair hpair
    rcases List.mem_append.mp hpair with hold | hlast
    · exact h.known pair hold
    · rw [List.mem_singleton.mp hlast]
      exact h.current
  · intro m hm
    rcases List.mem_append.mp hm with hold | hlast
    · exact gate.refuses_record _ _ _ (h.refused m hold)
    · obtain rfl : m = n := (Prod.mk.inj (List.mem_singleton.mp hlast)).2
      exact gate.refuses_self _ _ hnew
  · refine List.Nodup.append h.once (List.nodup_singleton _) ?_
    intro pair hold hlast
    rw [List.mem_singleton.mp hlast] at hold
    rw [h.refused n hold] at hnew
    cases hnew

/-- A new gate under a new name, whatever it remembers. -/
theorem Passed.renew (h : gate.Passed names name g past) {other : ι}
    (hnew : other ∉ names) (g' : γ) :
    gate.Passed (names ++ [other]) other g' past where
  current := List.mem_append_right _ (List.mem_singleton_self _)
  known pair hpair := List.mem_append_left _ (h.known pair hpair)
  refused _ hn := absurd (h.known _ hn) hnew
  once := h.once

end Named

end Gate

end Chamlon
