import Mathlib.Tactic

/-!
Singly linked lists with a pointer to the first and one to the last node, in a heap of
nodes. `Seg` follows the links from one pointer to another, `Linked` is a whole list
from `head` to the null pointer. The two operations of a queue are to take the first
node out and to hang a new one behind the last. Each is a few stores, and each is
shown to do to the list of nodes what it should.
-/

namespace Chamlon.LinkedList

variable {A α : Type}

/-- A node: its link, null at the end, and what it holds. -/
structure Cell (A α : Type) where
  next : Option A
  value : α

/-- The live nodes. -/
abbrev Heap (A α : Type) := A → Option (Cell A α)

/-- The links lead from `ptr` through these nodes to `stop`. -/
def Seg (heap : Heap A α) : Option A → List (A × α) → Option A → Prop
  | ptr, [], stop => ptr = stop
  | ptr, (a, x) :: rest, stop =>
      ptr = some a ∧ ∃ next, heap a = some ⟨next, x⟩ ∧ Seg heap next rest stop

theorem seg_append {heap : Heap A α} {ptr stop : Option A} {first second : List (A × α)} :
    Seg heap ptr (first ++ second) stop ↔
      ∃ mid, Seg heap ptr first mid ∧ Seg heap mid second stop := by
  induction first generalizing ptr with
  | nil =>
      constructor
      · intro h
        exact ⟨ptr, rfl, h⟩
      · rintro ⟨mid, rfl, h⟩
        exact h
  | cons node rest ih =>
      constructor
      · rintro ⟨hptr, next, hcell, hrest⟩
        obtain ⟨mid, hfirst, hsecond⟩ := ih.mp hrest
        exact ⟨mid, ⟨hptr, next, hcell, hfirst⟩, hsecond⟩
      · rintro ⟨mid, ⟨hptr, next, hcell, hfirst⟩, hsecond⟩
        exact ⟨hptr, next, hcell, ih.mpr ⟨mid, hfirst, hsecond⟩⟩

/-- A segment depends on its own nodes only. -/
theorem Seg.congr {heap heap' : Heap A α} {ptr stop : Option A} {cells : List (A × α)}
    (h : Seg heap ptr cells stop) (hagree : ∀ a ∈ cells.map Prod.fst, heap' a = heap a) :
    Seg heap' ptr cells stop := by
  induction cells generalizing ptr with
  | nil => exact h
  | cons node rest ih =>
      obtain ⟨hptr, next, hcell, hrest⟩ := h
      refine ⟨hptr, next, ?_, ih hrest fun a ha => hagree a (List.mem_cons_of_mem _ ha)⟩
      rw [hagree node.1 List.mem_cons_self]
      exact hcell

theorem Seg.live {heap : Heap A α} {ptr stop : Option A} {cells : List (A × α)}
    (h : Seg heap ptr cells stop) {a : A} (ha : a ∈ cells.map Prod.fst) :
    (heap a).isSome = true := by
  induction cells generalizing ptr with
  | nil => cases ha
  | cons node rest ih =>
      obtain ⟨_, next, hcell, hrest⟩ := h
      rcases List.mem_cons.mp ha with rfl | hlater
      · rw [hcell]
        rfl
      · exact ih hrest hlater

/-- A whole list, with no node twice. -/
structure Linked (heap : Heap A α) (head tail : Option A) (cells : List (A × α)) :
    Prop where
  links : Seg heap head cells none
  last : tail = cells.getLast?.map Prod.fst
  nodup : (cells.map Prod.fst).Nodup

namespace Linked

variable {heap : Heap A α} {head tail : Option A} {cells : List (A × α)}

theorem nil (heap : Heap A α) : Linked heap none none [] :=
  ⟨rfl, rfl, List.nodup_nil⟩

/-- The list is empty exactly if `head` is null. -/
theorem head_eq (h : Linked heap head tail cells) : head = cells.head?.map Prod.fst := by
  cases cells with
  | nil => exact h.links
  | cons node rest => exact h.links.1

theorem congr (h : Linked heap head tail cells) {heap' : Heap A α}
    (hagree : ∀ a ∈ cells.map Prod.fst, heap' a = heap a) :
    Linked heap' head tail cells :=
  ⟨h.links.congr hagree, h.last, h.nodup⟩

/-- The first node of a list that was empty. -/
theorem link_nil {new : A} {y : α} (hnew : heap new = some ⟨none, y⟩) :
    Linked heap (some new) (some new) [(new, y)] :=
  ⟨⟨rfl, none, hnew, rfl⟩, rfl, List.nodup_singleton new⟩

variable [DecidableEq A]

/-- The first node is taken out and freed. -/
theorem unlink {a : A} {x : α} {rest : List (A × α)}
    (h : Linked heap head tail ((a, x) :: rest)) :
    ∃ next, heap a = some ⟨next, x⟩ ∧
      Linked (Function.update heap a none) next (if next.isNone then none else tail)
        rest := by
  obtain ⟨_, next, hcell, hrest⟩ := h.links
  obtain ⟨hfresh, hnodup⟩ := List.nodup_cons.mp h.nodup
  refine ⟨next, hcell, hrest.congr fun b hb => ?_, ?_, hnodup⟩
  · have hne : b ≠ a := fun heq => hfresh (heq ▸ hb : a ∈ rest.map Prod.fst)
    exact Function.update_of_ne hne _ _
  · cases rest with
    | nil =>
        have hend : next = none := hrest
        rw [hend]
        rfl
    | cons node more =>
        have hnext : next = some node.1 := hrest.1
        rw [hnext, h.last]
        rfl

/-- A new node is hung behind the last one. -/
theorem link {last new : A} {y : α} (h : Linked heap head tail cells)
    (hlast : tail = some last) (hnew : heap new = some ⟨none, y⟩)
    (hfresh : new ∉ cells.map Prod.fst) :
    ∃ cell, heap last = some cell ∧ last ∈ cells.map Prod.fst ∧
      Linked (Function.update heap last (some { cell with next := some new })) head
        (some new) (cells ++ [(new, y)]) := by
  rcases List.eq_nil_or_concat cells with rfl | ⟨init, ⟨a, x⟩, hcells⟩
  · rw [h.last] at hlast
    cases hlast
  rw [List.concat_eq_append] at hcells
  subst hcells
  have ha : a = last := by
    have hend := h.last.symm.trans hlast
    simpa using hend
  subst ha
  obtain ⟨mid, hinit, hmid, next, hcell, hnext⟩ := seg_append.mp h.links
  have hnext : next = none := hnext
  have hnodup := h.nodup
  rw [List.map_append, List.map_singleton] at hnodup hfresh
  have houtside : a ∉ init.map Prod.fst := fun hmem =>
    List.disjoint_of_nodup_append hnodup hmem List.mem_cons_self
  have hne : new ≠ a := fun heq =>
    hfresh (List.mem_append_right _ (heq ▸ List.mem_cons_self))
  refine ⟨⟨next, x⟩, hcell, by simp, ?_, by simp, ?_⟩
  · rw [List.append_assoc]
    refine seg_append.mpr ⟨mid, hinit.congr fun b hb => ?_, hmid, some new, ?_, rfl, none,
      ?_, rfl⟩
    · have hother : b ≠ a := fun heq => houtside (heq ▸ hb : a ∈ init.map Prod.fst)
      exact Function.update_of_ne hother _ _
    · exact Function.update_self a _ heap
    · rw [Function.update_of_ne hne]
      exact hnew
  · rw [List.map_append, List.map_append, List.map_singleton, List.map_singleton]
    refine List.nodup_append.mpr ⟨hnodup, List.nodup_singleton new, ?_⟩
    intro b hb c hc heq
    rw [heq, List.mem_singleton.mp hc] at hb
    exact hfresh hb

end Linked

end Chamlon.LinkedList
