import Mathlib.Tactic
import Chamlon.Server.LimiterRun

/-!
The blacklist of the rate limiter, over whole runs. An address that is put on it stays
there for its time: no call shortens the time, and the compaction keeps the entry. And it
is put there for a reason: `Record` counts, beside the limiter, the violations of an
address since its entry was made and whether it was blacklisted by hand. The counters of
the entry have 32 bits and can wrap, so they are only a lower bound of the record.
-/

namespace Chamlon.Server

open Machine TokenBucket

/-- A check finds that the entry is not blacklisted and that its bucket is empty. -/
def IpRateLimit.Violates (kind : LimitKind) (now : Int) (entry : IpRateLimit) : Prop :=
  ¬ now < entry.blacklistUntil ∧ ¬ 1 ≤ ((entry.bucket kind).refill kind.limit now).tokens

instance (kind : LimitKind) (now : Int) (entry : IpRateLimit) :
    Decidable (entry.Violates kind now) :=
  inferInstanceAs (Decidable (_ ∧ _))

/-- The counts of an entry after one more violation. -/
def IpRateLimit.counted (kind : LimitKind) (entry : IpRateLimit) : LimitKind → BitVec 32 :=
  Function.update entry.violations kind (entry.violations kind + 1)

/-- A check counts exactly the violations, and blacklists the address with the first one
over the allowance. -/
theorem IpRateLimit.check_counts (kind : LimitKind) (now : Int) (entry : IpRateLimit) :
    (now < entry.blacklistUntil ∧ entry.check kind now = (entry, .blacklisted)) ∨
    (¬ entry.Violates kind now ∧
      ∃ bucket, entry.check kind now = ({ entry with bucket := bucket }, .ok)) ∨
    (entry.Violates kind now ∧ kind.allowance < (entry.counted kind kind).toNat ∧
      ∃ bucket, entry.check kind now =
        ({ entry with
          bucket := bucket
          violations := entry.counted kind
          blacklistUntil := now + blacklistDurationSec }, .blacklisted)) ∨
    (entry.Violates kind now ∧ ∃ bucket, entry.check kind now =
        ({ entry with bucket := bucket, violations := entry.counted kind }, .exceeded)) := by
  unfold IpRateLimit.check IpRateLimit.Violates IpRateLimit.counted
  by_cases hblacklisted : now < entry.blacklistUntil
  · rw [if_pos hblacklisted]
    exact Or.inl ⟨hblacklisted, rfl⟩
  rw [if_neg hblacklisted, Function.update_self]
  dsimp only
  refine Or.inr ?_
  by_cases htoken : 1 ≤ ((entry.bucket kind).refill kind.limit now).tokens
  · rw [if_pos htoken]
    exact Or.inl ⟨fun hviolates => hviolates.2 htoken, _, rfl⟩
  rw [if_neg htoken]
  refine Or.inr ?_
  by_cases hallowance : kind.allowance < (entry.violations kind + 1).toNat
  · rw [if_pos hallowance]
    exact Or.inl ⟨⟨hblacklisted, htoken⟩, hallowance, _, rfl⟩
  · rw [if_neg hallowance]
    exact Or.inr ⟨⟨hblacklisted, htoken⟩, _, rfl⟩

section Sticks

/-- The address is blacklisted up to the deadline, or longer. -/
def AddressView.Until (deadline : Int) (view : AddressView) : Prop :=
  ∃ entry ∈ view.entry, deadline ≤ entry.blacklistUntil

variable {view : AddressView} {deadline : Int}

theorem AddressView.Until.opened (h : view.Until deadline) (ipAddr : UInt32) (room : Bool)
    (now : Int) :
    ∃ entry, view.opened ipAddr room now = some entry ∧
      deadline ≤ entry.blacklistUntil := by
  obtain ⟨entry, hentry, huntil⟩ := h
  unfold AddressView.opened
  rw [Option.mem_def.mp hentry]
  exact ⟨_, rfl, huntil⟩

/-- Before the deadline no call takes the address off the blacklist. -/
theorem AddressView.Until.step (h : view.Until deadline) (ipAddr : UInt32) (room : Bool)
    (c : TimedCall) (hbefore : c.now < deadline)
    (hafter : deadline ≤ c.now + blacklistDurationSec) :
    (view.step ipAddr room c).1.Until deadline := by
  unfold AddressView.step
  cases c.call with
  | check kind other =>
      dsimp only
      split
      · obtain ⟨entry, hopened, huntil⟩ := h.opened ipAddr room c.now
        unfold AddressView.check
        rw [hopened]
        dsimp only
        rw [IpRateLimit.check_blacklisted kind (lt_of_lt_of_le hbefore huntil)]
        exact ⟨entry, rfl, huntil⟩
      · exact h
  | blacklist other =>
      dsimp only
      split
      · obtain ⟨entry, hopened, huntil⟩ := h.opened ipAddr room c.now
        unfold AddressView.blacklist
        rw [hopened]
        exact ⟨_, rfl, hafter⟩
      · exact h
  | cleanup =>
      obtain ⟨entry, hentry, huntil⟩ := h
      dsimp only
      unfold AddressView.cleanup
      split
      · exact ⟨entry, hentry, huntil⟩
      · have hkept : c.now < entry.blacklistUntil := lt_of_lt_of_le hbefore huntil
        refine ⟨entry, ?_, huntil⟩
        dsimp only
        rw [Option.mem_def.mp hentry, Option.filter_some, if_pos (by simp [hkept])]
        rfl

variable {limiter : RateLimiter}

theorem AddressView.Until.blacklisted {now : Int} {ipAddr : UInt32}
    (h : (limiter.view ipAddr).Until deadline) (hnow : now < deadline) :
    limiter.Blacklisted now ipAddr := by
  obtain ⟨entry, hentry, huntil⟩ := h
  exact ⟨entry, hentry, lt_of_lt_of_le hnow huntil⟩

end Sticks

section Earned

/-- What the address did since its entry was made. -/
structure Record where
  byHand : Bool
  violations : LimitKind → Nat

def Record.clean : Record := ⟨false, fun _ => 0⟩

/-- Reasons to blacklist the address. -/
def Record.Earned (record : Record) : Prop :=
  record.byHand = true ∨ 50 < record.violations .handshake ∨
    500 < record.violations .packet

instance (record : Record) : Decidable record.Earned :=
  inferInstanceAs (Decidable (_ ∨ _))

def Record.count (kind : LimitKind) (record : Record) : Record :=
  { record with
    violations := Function.update record.violations kind (record.violations kind + 1) }

/-- The record goes with the entry: it starts anew when the compaction drops the entry. -/
def Record.step (ipAddr : UInt32) (limiter : RateLimiter) (record : Record)
    (c : TimedCall) : Record :=
  let opened := (limiter.view ipAddr).opened ipAddr limiter.hasRoom c.now
  match c.call with
  | .check kind other =>
      if other = ipAddr ∧ ∃ entry ∈ opened, entry.Violates kind c.now then
        record.count kind
      else record
  | .blacklist other =>
      if other = ipAddr ∧ opened.isSome then { record with byHand := true } else record
  | .cleanup =>
      if (entryOf ipAddr (rateLimiterCleanup c.now limiter).entries).isSome then record
      else .clean

/-- The limiter with the record of one address beside it. -/
def recordedStep (ipAddr : UInt32) (s : RateLimiter × Record) (c : TimedCall) :
    (RateLimiter × Record) × List Answer :=
  (((limiterStep s.1 c).1, s.2.step ipAddr s.1 c), (limiterStep s.1 c).2)

variable {record : Record} {entry : IpRateLimit} {kind : LimitKind} {now : Int}

theorem Record.le_count (kind kind' : LimitKind) (record : Record) :
    record.violations kind' ≤ (record.count kind).violations kind' := by
  unfold Record.count
  by_cases hkind : kind' = kind
  · subst hkind
    simp
  · simp [hkind]

theorem Record.Earned.count (h : record.Earned) (kind : LimitKind) :
    (record.count kind).Earned := by
  rcases h with hhand | hhandshake | hpacket
  · exact Or.inl hhand
  · exact Or.inr (Or.inl (lt_of_lt_of_le hhandshake (record.le_count kind _)))
  · exact Or.inr (Or.inr (lt_of_lt_of_le hpacket (record.le_count kind _)))

theorem Record.earned_of_allowance (h : kind.allowance < record.violations kind) :
    record.Earned := by
  cases kind with
  | handshake => exact Or.inr (Or.inl h)
  | packet => exact Or.inr (Or.inr h)

/-- The record bounds the counters of the entry and gives the reason for its deadline. -/
structure IpRateLimit.Justified (record : Record) (entry : IpRateLimit) : Prop where
  counts : ∀ kind, (entry.violations kind).toNat ≤ record.violations kind
  reason : 0 < entry.blacklistUntil → record.Earned

theorem IpRateLimit.Justified.counted_le (h : entry.Justified record)
    (kind kind' : LimitKind) :
    (entry.counted kind kind').toNat ≤ (record.count kind).violations kind' := by
  unfold IpRateLimit.counted Record.count
  by_cases hkind : kind' = kind
  · subst hkind
    have hcount := h.counts kind'
    have hwrap : (entry.violations kind' + 1).toNat ≤ (entry.violations kind').toNat + 1 := by
      rw [BitVec.toNat_add]
      exact Nat.mod_le _ _
    simp only [Function.update_self]
    omega
  · simpa [hkind] using h.counts kind'

/-- The record after a check of the entry. -/
def Record.checked (kind : LimitKind) (now : Int) (entry : IpRateLimit)
    (record : Record) : Record :=
  if entry.Violates kind now then record.count kind else record

theorem IpRateLimit.Justified.check (h : entry.Justified record) (kind : LimitKind)
    (now : Int) :
    (entry.check kind now).1.Justified (record.checked kind now entry) := by
  unfold Record.checked
  rcases entry.check_counts kind now with
    ⟨hthen, hcheck⟩ | ⟨hno, bucket, hcheck⟩ | ⟨hviolates, hover, bucket, hcheck⟩ |
      ⟨hviolates, bucket, hcheck⟩
  · rw [hcheck, if_neg fun hviolates => hviolates.1 hthen]
    exact h
  · rw [hcheck, if_neg hno]
    exact ⟨h.counts, h.reason⟩
  · rw [hcheck, if_pos hviolates]
    exact ⟨h.counted_le kind, fun _ =>
      Record.earned_of_allowance (lt_of_lt_of_le hover (h.counted_le kind kind))⟩
  · rw [hcheck, if_pos hviolates]
    exact ⟨h.counted_le kind, fun huntil => (h.reason huntil).count kind⟩

/-- The entry of the address, if it has one, is justified by the record. -/
structure RecordInv (ipAddr : UInt32) (s : RateLimiter × Record) : Prop where
  distinct : s.1.Distinct
  justified : ∀ entry ∈ (s.1.view ipAddr).entry, entry.Justified s.2

variable {ipAddr : UInt32} {s : RateLimiter × Record}

theorem RecordInv.opened (h : RecordInv ipAddr s)
    (hopened : (s.1.view ipAddr).opened ipAddr s.1.hasRoom now = some entry) :
    entry.Justified s.2 := by
  unfold AddressView.opened at hopened
  cases hentry : (s.1.view ipAddr).entry with
  | some old =>
      have hold := h.justified old hentry
      rw [hentry] at hopened
      rw [← Option.some.inj hopened]
      exact ⟨hold.counts, hold.reason⟩
  | none =>
      rw [hentry] at hopened
      dsimp only at hopened
      split at hopened
      · rw [← Option.some.inj hopened]
        exact ⟨fun _ => Nat.zero_le _, fun hpos => absurd hpos (lt_irrefl 0)⟩
      · cases hopened

theorem Record.step_check (kind : LimitKind) (now : Int)
    (hopened : (s.1.view ipAddr).opened ipAddr s.1.hasRoom now = some entry) :
    s.2.step ipAddr s.1 ⟨now, .check kind ipAddr⟩ = s.2.checked kind now entry := by
  unfold Record.step Record.checked
  simp only [hopened, Option.mem_some_iff, exists_eq_left', true_and]

theorem RecordInv.check (h : RecordInv ipAddr s) (kind : LimitKind) (now : Int) :
    RecordInv ipAddr (recordedStep ipAddr s ⟨now, .check kind ipAddr⟩).1 := by
  refine ⟨limiterStep_distinct h.distinct _, ?_⟩
  unfold recordedStep
  dsimp only
  rw [(limiterStep_view h.distinct ipAddr _).1, AddressView.step]
  dsimp only
  rw [if_pos rfl, AddressView.check]
  cases hopened : (s.1.view ipAddr).opened ipAddr s.1.hasRoom now with
  | some entry =>
      rw [Record.step_check kind now hopened]
      intro entry' hentry'
      rw [← Option.some.inj hentry']
      exact (h.opened hopened).check kind now
  | none =>
      have hsame : s.2.step ipAddr s.1 ⟨now, .check kind ipAddr⟩ = s.2 := by
        unfold Record.step
        simp [hopened]
      rw [hsame]
      exact h.justified

theorem RecordInv.blacklist (h : RecordInv ipAddr s) (now : Int) :
    RecordInv ipAddr (recordedStep ipAddr s ⟨now, .blacklist ipAddr⟩).1 := by
  refine ⟨limiterStep_distinct h.distinct _, ?_⟩
  unfold recordedStep Record.step
  dsimp only
  rw [(limiterStep_view h.distinct ipAddr _).1, AddressView.step]
  dsimp only
  rw [if_pos rfl, AddressView.blacklist]
  cases hopened : (s.1.view ipAddr).opened ipAddr s.1.hasRoom now with
  | some entry =>
      rw [if_pos ⟨rfl, rfl⟩]
      intro entry' hentry'
      rw [← Option.some.inj hentry']
      exact ⟨(h.opened hopened).counts, fun _ => Or.inl rfl⟩
  | none =>
      rw [if_neg fun hboth => by cases hboth.2]
      exact h.justified

theorem RecordInv.cleanup (h : RecordInv ipAddr s) (now : Int) :
    RecordInv ipAddr (recordedStep ipAddr s ⟨now, .cleanup⟩).1 := by
  refine ⟨limiterStep_distinct h.distinct _, ?_⟩
  unfold recordedStep Record.step limiterStep
  dsimp only
  intro entry hentry
  have hkept : entryOf ipAddr (rateLimiterCleanup now s.1).entries = some entry := hentry
  rw [hkept, if_pos Option.isSome_some]
  apply h.justified
  unfold rateLimiterCleanup at hkept
  split at hkept
  · exact hkept
  · rw [entryOf_filter _ _ h.distinct] at hkept
    exact (Option.filter_eq_some_iff.mp hkept).1

theorem RecordInv.step (h : RecordInv ipAddr s) (c : TimedCall) :
    RecordInv ipAddr (recordedStep ipAddr s c).1 := by
  obtain ⟨now, call⟩ := c
  by_cases hconcerns : (TimedCall.mk now call).concerns ipAddr = false
  · -- A call for another address changes neither the entry nor the record.
    refine ⟨limiterStep_distinct h.distinct _, ?_⟩
    have hrecord : s.2.step ipAddr s.1 ⟨now, call⟩ = s.2 := by
      unfold TimedCall.concerns at hconcerns
      unfold Record.step
      cases call with
      | check kind other => exact if_neg fun hboth => by simp [hboth.1] at hconcerns
      | blacklist other => exact if_neg fun hboth => by simp [hboth.1] at hconcerns
      | cleanup => cases hconcerns
    unfold recordedStep
    dsimp only
    rw [(limiterStep_view h.distinct ipAddr _).1,
      AddressView.step_of_not_concerns ipAddr _ _ _ hconcerns, hrecord]
    exact h.justified
  · rw [Bool.not_eq_false, TimedCall.concerns] at hconcerns
    cases call with
    | check kind other =>
        rw [beq_iff_eq] at hconcerns
        rw [hconcerns]
        exact h.check kind now
    | blacklist other =>
        rw [beq_iff_eq] at hconcerns
        rw [hconcerns]
        exact h.blacklist now
    | cleanup => exact h.cleanup now

end Earned

end Chamlon.Server
