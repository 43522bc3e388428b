import Mathlib.Data.List.Basic

/-!
Runs of a state machine that emits events. A machine is its step function; an
action that is not enabled leaves the state as it is and emits nothing, so every
list of actions is a run and an interleaving is an arbitrary list.

The rules below reduce a statement about all runs to one about a single step:
an invariant of the state, an invariant that also sees the events emitted so
far, a relation between the runs of two machines, a simulation, a view that moves as
another machine does, and one that does not see some of the actions. `Along` says that a
condition on the state and the action holds at every step of a run.
-/

namespace Chamlon.Machine

universe u v w

variable {σ : Type u} {α : Type v} {ε : Type w}

/-- The final state of a run and the events it emits, in order. -/
def run (step : σ → α → σ × List ε) : σ → List α → σ × List ε
  | s, [] => (s, [])
  | s, a :: rest =>
      let next := step s a
      let final := run step next.1 rest
      (final.1, next.2 ++ final.2)

/-- The condition holds before every action of the run. -/
def Along (step : σ → α → σ × List ε) (ok : σ → α → Prop) : σ → List α → Prop
  | _, [] => True
  | s, a :: rest => ok s a ∧ Along step ok (step s a).1 rest

instance Along.decidable (step : σ → α → σ × List ε) (ok : σ → α → Prop)
    [∀ s a, Decidable (ok s a)] : ∀ s acts, Decidable (Along step ok s acts)
  | _, [] => inferInstanceAs (Decidable True)
  | s, a :: rest =>
      have := Along.decidable step ok (step s a).1 rest
      inferInstanceAs (Decidable (ok s a ∧ Along step ok (step s a).1 rest))

section Rules

variable (step : σ → α → σ × List ε) (ok : σ → α → Prop)

theorem run_append (s : σ) (first second : List α) :
    run step s (first ++ second) =
      ((run step (run step s first).1 second).1,
        (run step s first).2 ++ (run step (run step s first).1 second).2) := by
  induction first generalizing s with
  | nil => rfl
  | cons a rest ih => simp only [List.cons_append, run, ih, List.append_assoc]

/-- An invariant over the state and the events so far. -/
theorem run_history (inv : List ε → σ → Prop)
    (hstep : ∀ past s a, inv past s → ok s a →
      inv (past ++ (step s a).2) (step s a).1)
    (past : List ε) (s : σ) (acts : List α) (hinit : inv past s)
    (hok : Along step ok s acts) :
    inv (past ++ (run step s acts).2) (run step s acts).1 := by
  induction acts generalizing past s with
  | nil => simpa only [run, List.append_nil] using hinit
  | cons a rest ih =>
      have hnext := ih _ _ (hstep past s a hinit hok.1) hok.2
      simpa only [run, List.append_assoc] using hnext

/-- An invariant of the state. -/
theorem run_invariant (inv : σ → Prop)
    (hstep : ∀ s a, inv s → ok s a → inv (step s a).1)
    (s : σ) (acts : List α) (hinit : inv s) (hok : Along step ok s acts) :
    inv (run step s acts).1 :=
  run_history step ok (fun _ => inv) (fun _ => hstep) [] s acts hinit hok

/-- Every event of a run is good when every step from the invariant emits only
good events. -/
theorem run_forall_events (inv : σ → Prop) (good : ε → Prop)
    (hstep : ∀ s a, inv s → ok s a → inv (step s a).1)
    (hgood : ∀ s a, inv s → ok s a → ∀ e ∈ (step s a).2, good e)
    (s : σ) (acts : List α) (hinit : inv s) (hok : Along step ok s acts) :
    ∀ e ∈ (run step s acts).2, good e := by
  have hboth := run_history step ok
    (fun past s => inv s ∧ ∀ e ∈ past, good e)
    (fun past s a h hok => ⟨hstep s a h.1 hok, fun e he =>
      (List.mem_append.mp he).elim (h.2 e) (hgood s a h.1 hok e)⟩)
    [] s acts ⟨hinit, by simp⟩ hok
  exact hboth.2

/-- When a step from the invariant emits only good events exactly under a condition, a
run emits only good events exactly when the condition holds along it. -/
theorem run_forall_events_iff (inv : σ → Prop) (good : ε → Prop)
    (hstep : ∀ s a, inv s → inv (step s a).1)
    (hgood : ∀ s a, inv s → ((∀ e ∈ (step s a).2, good e) ↔ ok s a))
    (s : σ) (acts : List α) (hinit : inv s) :
    (∀ e ∈ (run step s acts).2, good e) ↔ Along step ok s acts := by
  induction acts generalizing s with
  | nil => exact ⟨fun _ => trivial, fun _ => by simp [run]⟩
  | cons a rest ih =>
      rw [Along, ← hgood s a hinit, ← ih (step s a).1 (hstep s a hinit)]
      simp only [run, List.mem_append, or_imp, forall_and]

theorem Along.and {ok also : σ → α → Prop} {s : σ} {acts : List α}
    (h : Along step ok s acts) (h' : Along step also s acts) :
    Along step (fun s a => ok s a ∧ also s a) s acts := by
  induction acts generalizing s with
  | nil => trivial
  | cons a rest ih => exact ⟨⟨h.1, h'.1⟩, ih h.2 h'.2⟩

theorem along_append (s : σ) (first second : List α) :
    Along step ok s (first ++ second) ↔
      Along step ok s first ∧ Along step ok (run step s first).1 second := by
  induction first generalizing s with
  | nil => exact ⟨fun h => ⟨trivial, h⟩, fun h => h.2⟩
  | cons a rest ih => simp only [List.cons_append, Along, run, ih, and_assoc]

/-- A condition on the actions alone holds along every run of such actions. -/
theorem Along.of_forall (act : α → Prop) :
    ∀ (s : σ) (acts : List α), (∀ a ∈ acts, act a) →
      Along step (fun _ a => act a) s acts
  | _, [], _ => trivial
  | s, a :: rest, h =>
      ⟨h a List.mem_cons_self, Along.of_forall act (step s a).1 rest
        fun b hb => h b (List.mem_cons_of_mem a hb)⟩

/-- Actions that do nothing can be left out of a run. -/
theorem run_filter (keep : α → Bool)
    (hskip : ∀ s a, keep a = false → step s a = (s, [])) (s : σ) (acts : List α) :
    run step s (acts.filter keep) = run step s acts := by
  induction acts generalizing s with
  | nil => rfl
  | cons a rest ih =>
      cases hkeep : keep a with
      | true =>
          rw [List.filter_cons_of_pos hkeep]
          simp only [run, ih]
      | false =>
          rw [List.filter_cons_of_neg (by rw [hkeep]; exact Bool.false_ne_true), ih]
          simp only [run, hskip s a hkeep, List.nil_append]

/-- Unwinding: what `see` makes of a run is what it makes of the run without the actions
that are not kept. Two states are related when they look alike; a kept action leads
related states to related ones, any other leaves them so on its own, unseen. -/
theorem run_unwinding {δ : Type*} (keep : α → Bool) (rel : σ → σ → Prop)
    (see : List ε → List δ)
    (happend : ∀ first second, see (first ++ second) = see first ++ see second)
    (hkeep : ∀ s t a, rel s t → ok s a → keep a = true →
      rel (step s a).1 (step t a).1 ∧ see (step s a).2 = see (step t a).2)
    (hskip : ∀ s t a, rel s t → ok s a → keep a = false →
      rel (step s a).1 t ∧ see (step s a).2 = [])
    (s t : σ) (acts : List α) (hinit : rel s t) (hok : Along step ok s acts) :
    rel (run step s acts).1 (run step t (acts.filter keep)).1 ∧
      see (run step s acts).2 = see (run step t (acts.filter keep)).2 := by
  induction acts generalizing s t with
  | nil => exact ⟨hinit, rfl⟩
  | cons a rest ih =>
      cases hkept : keep a with
      | true =>
          obtain ⟨hnext, hsee⟩ := hkeep s t a hinit hok.1 hkept
          obtain ⟨hfinal, hevents⟩ := ih _ _ hnext hok.2
          rw [List.filter_cons_of_pos hkept]
          exact ⟨hfinal, by simp only [run, happend, hsee, hevents]⟩
      | false =>
          obtain ⟨hnext, hsee⟩ := hskip s t a hinit hok.1 hkept
          obtain ⟨hfinal, hevents⟩ := ih _ _ hnext hok.2
          rw [List.filter_cons_of_neg (by rw [hkept]; exact Bool.false_ne_true)]
          exact ⟨hfinal, by simp only [run, happend, hsee, hevents, List.nil_append]⟩

/-- A machine simulates another: related states stay related when each takes its step for
the same action, and `see` of the one's events is what the other emits. -/
theorem run_simulates {τ : Type*} {β : Type*} {δ : Type*} (step' : τ → β → τ × List δ)
    (call : α → β) (rel : σ → τ → Prop) (see : List ε → List δ) (hnil : see [] = [])
    (happend : ∀ first second, see (first ++ second) = see first ++ see second)
    (hstep : ∀ s t a, rel s t → ok s a →
      rel (step s a).1 (step' t (call a)).1 ∧ see (step s a).2 = (step' t (call a)).2)
    (s : σ) (t : τ) (acts : List α) (hinit : rel s t) (hok : Along step ok s acts) :
    rel (run step s acts).1 (run step' t (acts.map call)).1 ∧
      see (run step s acts).2 = (run step' t (acts.map call)).2 := by
  induction acts generalizing s t with
  | nil => exact ⟨hinit, hnil⟩
  | cons a rest ih =>
      obtain ⟨hnext, hsee⟩ := hstep s t a hinit hok.1
      obtain ⟨hfinal, hevents⟩ := ih _ _ hnext hok.2
      exact ⟨hfinal, by simp only [run, List.map_cons, happend, hsee, hevents]⟩

/-- A machine refines another: at every step its view moves as the other machine does,
and `see` of its events is what the other emits. -/
theorem run_refines {τ : Type u} {δ : Type w} (step' : τ → α → τ × List δ)
    (inv : σ → Prop) (view : σ → τ) (see : List ε → List δ) (hnil : see [] = [])
    (happend : ∀ first second, see (first ++ second) = see first ++ see second)
    (hkeeps : ∀ s a, inv s → ok s a → inv (step s a).1)
    (hstep : ∀ s a, inv s → ok s a →
      view (step s a).1 = (step' (view s) a).1 ∧
        see (step s a).2 = (step' (view s) a).2)
    (s : σ) (acts : List α) (hinit : inv s) (hok : Along step ok s acts) :
    view (run step s acts).1 = (run step' (view s) acts).1 ∧
      see (run step s acts).2 = (run step' (view s) acts).2 := by
  have hrun := run_simulates step ok step' id (fun s t => inv s ∧ view s = t) see hnil
    happend (fun s t a hrel ha => by
      obtain ⟨hview, hsee⟩ := hstep s a hrel.1 ha
      rw [← hrel.2]
      exact ⟨⟨hkeeps s a hrel.1 ha, hview⟩, hsee⟩)
    s (view s) acts ⟨hinit, rfl⟩ hok
  rw [List.map_id] at hrun
  exact ⟨hrun.1.2, hrun.2⟩

end Rules

/-- Two machines that keep a relation and emit the same events at every step
emit the same events over whole runs. -/
theorem run_related {τ : Type u} (step : σ → α → σ × List ε)
    (step' : τ → α → τ × List ε) (rel : σ → τ → Prop) (act : α → Prop)
    (hstep : ∀ s t a, rel s t → act a →
      rel (step s a).1 (step' t a).1 ∧ (step s a).2 = (step' t a).2)
    (s : σ) (t : τ) (acts : List α) (hinit : rel s t)
    (hacts : ∀ a ∈ acts, act a) :
    rel (run step s acts).1 (run step' t acts).1 ∧
      (run step s acts).2 = (run step' t acts).2 := by
  induction acts generalizing s t with
  | nil => exact ⟨hinit, rfl⟩
  | cons a rest ih =>
      obtain ⟨hnext, hout⟩ := hstep s t a hinit (hacts a List.mem_cons_self)
      obtain ⟨hfinal, houts⟩ := ih (step s a).1 (step' t a).1 hnext
        fun b hb => hacts b (List.mem_cons_of_mem a hb)
      exact ⟨hfinal, by simp only [run, hout, houts]⟩

end Chamlon.Machine
