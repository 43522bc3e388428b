import Mathlib.Tactic
import Chamlon.Server.RateLimiter

/-!
Runs of the rate limiter: the calls of its interface, each with its time, in any mix.

What a call does to one address depends on the entry of that address, on the time of the
last compaction and on whether the table has room for a new entry, and on nothing else.
`AddressView` is that state and `limiterStep_view` says that the limiter refines it. The
bounds on the granted checks need the buckets of the whole table only through their level.
-/

namespace Chamlon.Server

open Machine TokenBucket

/-- The interface of the limiter behind `rate_limiter_init`. -/
inductive LimiterCall where
  | check (kind : LimitKind) (ipAddr : UInt32)
  | blacklist (ipAddr : UInt32)
  | cleanup
deriving DecidableEq, Repr

/-- A call and the time at which it is made. -/
structure TimedCall where
  now : Int
  call : LimiterCall
deriving DecidableEq, Repr

/-- The result of a check. -/
structure Answer where
  kind : LimitKind
  ipAddr : UInt32
  verdict : RateVerdict
deriving DecidableEq, Repr

def limiterStep (limiter : RateLimiter) (c : TimedCall) : RateLimiter × List Answer :=
  match c.call with
  | .check kind ipAddr =>
      ((checkRateLimit kind c.now ipAddr limiter).1,
        [⟨kind, ipAddr, (checkRateLimit kind c.now ipAddr limiter).2⟩])
  | .blacklist ipAddr => (blacklistIp c.now ipAddr limiter, [])
  | .cleanup => (rateLimiterCleanup c.now limiter, [])

section Bound

/-- The checks of one kind and address that were answered yes. -/
def granted (kind : LimitKind) (ipAddr : UInt32) (answers : List Answer) : Nat :=
  answers.count ⟨kind, ipAddr, .ok⟩

theorem granted_singleton (kind kind' : LimitKind) (ipAddr other : UInt32)
    (verdict : RateVerdict) :
    granted kind ipAddr [⟨kind', other, verdict⟩] =
      tokenOf kind' kind other ipAddr verdict := by
  simp only [granted, tokenOf, List.count_singleton, beq_iff_eq, Answer.mk.injEq]
  simp only [eq_comm]

theorem limiterStep_sound {clock : Int} {limiter : RateLimiter} (h : limiter.Sound clock)
    (c : TimedCall) (hclock : clock ≤ c.now) : (limiterStep limiter c).1.Sound c.now := by
  unfold limiterStep
  cases c.call with
  | check kind ipAddr => exact checkRateLimit_sound h hclock kind ipAddr
  | blacklist ipAddr => exact blacklistIp_sound h hclock ipAddr
  | cleanup => exact rateLimiterCleanup_sound h hclock

/-- A call takes from the level of a bucket what it grants, and adds nothing. -/
theorem limiterStep_pays {clock : Int} {limiter : RateLimiter} (h : limiter.Sound clock)
    (c : TimedCall) (hclock : clock ≤ c.now) (kind : LimitKind) (ipAddr : UInt32) :
    (limiterStep limiter c).1.level kind ipAddr c.now +
        granted kind ipAddr (limiterStep limiter c).2 ≤
      limiter.level kind ipAddr c.now := by
  unfold limiterStep
  cases c.call with
  | check kind' other =>
      have hpays := checkRateLimit_pays h hclock kind' kind other ipAddr
      dsimp only
      rw [granted_singleton]
      exact hpays
  | blacklist other =>
      dsimp only
      rw [blacklistIp_level h hclock]
      exact le_refl _
  | cleanup =>
      dsimp only
      rw [rateLimiterCleanup_level h]
      exact le_refl _

/-- The level of a bucket pays for the checks it grants. -/
theorem limiterStep_budget (kind : LimitKind) (ipAddr : UInt32) :
    Pays limiterStep TimedCall.now (granted kind ipAddr) (fun _ _ => True) kind.limit
      (fun clock limiter => limiter.Sound clock)
      (fun limiter t => limiter.level kind ipAddr t) where
  bounded _ t := RateLimiter.level_le t
  later _ _ _ ht := RateLimiter.level_later ht
  wait _ _ _ h hle := h.later hle
  keeps _ _ c h hle _ := limiterStep_sound h c hle
  pays _ _ c h hle _ := limiterStep_pays h c hle kind ipAddr

/-- In every run of the limiter under a clock that does not go back, an address gets in an
interval at most the burst and what the rate adds, of handshakes and of packets. -/
theorem limiter_grants_at_most_rate (start : Int) (calls : List TimedCall)
    (hfrom : ∀ c ∈ calls, start ≤ c.now)
    (hclock : (calls.map TimedCall.now).Pairwise (· ≤ ·)) (ipAddr : UInt32) {t₁ t₂ : Int}
    (ht : t₁ ≤ t₂) :
    (spent limiterStep TimedCall.now (granted .handshake ipAddr) t₁ t₂
        (rateLimiterInit start) calls : Int) ≤ 10 + 5 * (t₂ - t₁) ∧
      (spent limiterStep TimedCall.now (granted .packet ipAddr) t₁ t₂
        (rateLimiterInit start) calls : Int) ≤ 2000 + 1000 * (t₂ - t₁) := by
  have hany := Along.of_forall limiterStep (fun _ => True) (rateLimiterInit start) calls
    (fun _ _ => trivial)
  have hbound := fun kind => (limiterStep_budget kind ipAddr).spent_le ht calls start
    (rateLimiterInit start) (rateLimiterInit_sound start) hfrom hclock hany
  exact ⟨hbound .handshake, hbound .packet⟩

theorem limiter_grants_at_most_rate_mixed :
    ((spent limiterStep TimedCall.now (granted .handshake 7) 0 3 (rateLimiterInit 0)
        [⟨0, .check .handshake 7⟩, ⟨2, .blacklist 9⟩, ⟨3, .check .packet 7⟩, ⟨12, .cleanup⟩] :
          Nat) : Int) ≤ 10 + 5 * (3 - 0) ∧
      ((spent limiterStep TimedCall.now (granted .packet 7) 0 3 (rateLimiterInit 0)
        [⟨0, .check .handshake 7⟩, ⟨2, .blacklist 9⟩, ⟨3, .check .packet 7⟩, ⟨12, .cleanup⟩] :
          Nat) : Int) ≤ 2000 + 1000 * (3 - 0) :=
  limiter_grants_at_most_rate 0 _ (by decide) (by decide) 7 (by decide)

end Bound

section View

/-- What the limiter keeps about one address. -/
structure AddressView where
  entry : Option IpRateLimit
  lastCleanup : Int

def RateLimiter.view (ipAddr : UInt32) (limiter : RateLimiter) : AddressView :=
  ⟨entryOf ipAddr limiter.entries, limiter.lastCleanup⟩

def RateLimiter.hasRoom (limiter : RateLimiter) : Bool :=
  decide (limiter.entries.length < maxRateLimitEntries)

/-- The entry that a call for the address works on. -/
def AddressView.opened (ipAddr : UInt32) (room : Bool) (now : Int) (view : AddressView) :
    Option IpRateLimit :=
  match view.entry with
  | some entry => some { entry with lastSeen := now }
  | none => if room then some (.fresh ipAddr now) else none

def AddressView.check (ipAddr : UInt32) (room : Bool) (now : Int) (kind : LimitKind)
    (view : AddressView) : AddressView × List Answer :=
  match view.opened ipAddr room now with
  | some entry =>
      ({ view with entry := some (entry.check kind now).1 },
        [⟨kind, ipAddr, (entry.check kind now).2⟩])
  | none => (view, [⟨kind, ipAddr, .exceeded⟩])

def AddressView.blacklist (ipAddr : UInt32) (room : Bool) (now : Int)
    (view : AddressView) : AddressView :=
  match view.opened ipAddr room now with
  | some entry =>
      { view with entry := some { entry with
          blacklistUntil := now + blacklistDurationSec } }
  | none => view

def AddressView.cleanup (now : Int) (view : AddressView) : AddressView :=
  if now - view.lastCleanup < rateLimiterCleanupInterval then view
  else
    { entry := view.entry.filter fun entry =>
        decide (now - entry.lastSeen < 300) || decide (now < entry.blacklistUntil)
      lastCleanup := now }

/-- The calls for other addresses do nothing here. -/
def AddressView.step (ipAddr : UInt32) (room : Bool) (view : AddressView) (c : TimedCall) :
    AddressView × List Answer :=
  match c.call with
  | .check kind other =>
      if other = ipAddr then view.check ipAddr room c.now kind else (view, [])
  | .blacklist other =>
      if other = ipAddr then (view.blacklist ipAddr room c.now, []) else (view, [])
  | .cleanup => (view.cleanup c.now, [])

def answersFor (ipAddr : UInt32) (answers : List Answer) : List Answer :=
  answers.filter (·.ipAddr == ipAddr)

/-- Every address has at most one entry. -/
def RateLimiter.Distinct (limiter : RateLimiter) : Prop :=
  (limiter.entries.map IpRateLimit.ipAddr).Nodup

/-- The table after the entry of an address was put back or added. -/
structure PutBack (ipAddr : UInt32) (entries entries' : List IpRateLimit)
    (entry : IpRateLimit) : Prop where
  distinct : (entries'.map IpRateLimit.ipAddr).Nodup
  lookup : ∀ other, entryOf other entries' =
    if other = ipAddr then some entry else entryOf other entries

/-- What `find_or_create_ip_entry` returns is the entry that the view opens. -/
theorem findOrCreateIpEntry_opens {limiter : RateLimiter} (hdistinct : limiter.Distinct)
    (ipAddr : UInt32) (now : Int) :
    (findOrCreateIpEntry now ipAddr limiter.entries = none ∧
      (limiter.view ipAddr).opened ipAddr limiter.hasRoom now = none) ∨
    ∃ before entry behind,
      findOrCreateIpEntry now ipAddr limiter.entries = some (before, entry, behind) ∧
      (limiter.view ipAddr).opened ipAddr limiter.hasRoom now = some entry ∧
      entry.ipAddr = ipAddr ∧
      ∀ entry' : IpRateLimit, entry'.ipAddr = ipAddr →
        PutBack ipAddr limiter.entries (before ++ entry' :: behind) entry' := by
  unfold AddressView.opened RateLimiter.view RateLimiter.hasRoom
  rcases findOrCreateIpEntry_cases now ipAddr limiter.entries with
    ⟨hnone, hfull, hnew⟩ | ⟨hnone, hroom, hnew⟩ |
      ⟨before, entry, behind, hsplit, hbefore, hip, hfound⟩
  · refine Or.inl ⟨hnew, ?_⟩
    simp only [hnone, hfull, decide_false, Bool.false_eq_true, if_false]
  · refine Or.inr ⟨_, _, _, hnew, ?_, rfl, fun entry' hip' => ⟨?_, fun other => ?_⟩⟩
    · simp only [hnone, hroom, decide_true, if_true]
    · have habsent := entryOf_none_iff.mp hnone
      rw [List.map_append, List.map_cons, List.nodup_middle, List.map_nil, List.append_nil,
        List.nodup_cons]
      refine ⟨fun hmem => ?_, hdistinct⟩
      obtain ⟨e, he, hsame⟩ := List.mem_map.mp hmem
      exact habsent e he (hsame.trans hip')
    · split_ifs with hother
      · rw [hother, entryOf_self (entryOf_none_iff.mp hnone) hip']
      · rw [entryOf_other hother hip', List.append_nil]
  · have hkeys := hdistinct
    rw [RateLimiter.Distinct, hsplit, List.map_append, List.map_cons] at hkeys
    refine Or.inr ⟨before, _, behind, hfound, ?_, hip, fun entry' hip' =>
      ⟨?_, fun other => ?_⟩⟩
    · rw [hsplit, entryOf_self hbefore hip]
    · rw [List.map_append, List.map_cons, hip', ← hip]
      exact hkeys
    · split_ifs with hother
      · rw [hother, entryOf_self hbefore hip']
      · rw [entryOf_other hother hip', hsplit, entryOf_other hother hip]

variable {limiter : RateLimiter} {ipAddr : UInt32}

theorem PutBack.view {other : UInt32} {entries : List IpRateLimit} {entry : IpRateLimit}
    (h : PutBack other limiter.entries entries entry) :
    RateLimiter.view ipAddr { limiter with entries := entries } =
      if other = ipAddr then ⟨some entry, limiter.lastCleanup⟩ else limiter.view ipAddr := by
  unfold RateLimiter.view
  dsimp only
  rw [h.lookup]
  split_ifs with hsame hother hother
  · rfl
  · exact absurd hsame.symm hother
  · exact absurd hother.symm hsame
  · rfl

theorem limiterStep_distinct (hdistinct : limiter.Distinct) (c : TimedCall) :
    (limiterStep limiter c).1.Distinct := by
  unfold limiterStep
  cases c.call with
  | check kind other =>
      dsimp only
      unfold checkRateLimit
      rcases findOrCreateIpEntry_opens hdistinct other c.now with
        ⟨hfull, _⟩ | ⟨before, entry, behind, hfound, _, hip, hput⟩
      · rw [hfull]
        exact hdistinct
      · rw [hfound]
        exact (hput _ ((entry.check_ipAddr kind c.now).trans hip)).distinct
  | blacklist other =>
      dsimp only
      unfold blacklistIp
      rcases findOrCreateIpEntry_opens hdistinct other c.now with
        ⟨hfull, _⟩ | ⟨before, entry, behind, hfound, _, hip, hput⟩
      · rw [hfull]
        exact hdistinct
      · rw [hfound]
        exact (hput { entry with blacklistUntil := c.now + blacklistDurationSec } hip).distinct
  | cleanup =>
      dsimp only
      unfold rateLimiterCleanup
      split
      · exact hdistinct
      · exact hdistinct.sublist (List.filter_sublist.map _)

/-- One call, seen from one address. -/
theorem limiterStep_view (hdistinct : limiter.Distinct) (ipAddr : UInt32) (c : TimedCall) :
    (limiterStep limiter c).1.view ipAddr =
        ((limiter.view ipAddr).step ipAddr limiter.hasRoom c).1 ∧
      answersFor ipAddr (limiterStep limiter c).2 =
        ((limiter.view ipAddr).step ipAddr limiter.hasRoom c).2 := by
  unfold limiterStep AddressView.step
  cases c.call with
  | check kind other =>
      dsimp only
      unfold checkRateLimit
      rcases findOrCreateIpEntry_opens hdistinct other c.now with
        ⟨hfull, hopened⟩ | ⟨before, entry, behind, hfound, hopened, hip, hput⟩
      · rw [hfull]
        by_cases hother : other = ipAddr
        · subst hother
          rw [if_pos rfl, AddressView.check, hopened]
          exact ⟨rfl, by simp [answersFor]⟩
        · rw [if_neg hother]
          exact ⟨rfl, by simp [answersFor, hother]⟩
      · rw [hfound]
        dsimp only
        rw [(hput _ ((entry.check_ipAddr kind c.now).trans hip)).view]
        by_cases hother : other = ipAddr
        · subst hother
          rw [if_pos rfl, if_pos rfl, AddressView.check, hopened]
          exact ⟨rfl, by simp [answersFor]⟩
        · rw [if_neg hother, if_neg hother]
          exact ⟨rfl, by simp [answersFor, hother]⟩
  | blacklist other =>
      dsimp only
      unfold blacklistIp
      rcases findOrCreateIpEntry_opens hdistinct other c.now with
        ⟨hfull, hopened⟩ | ⟨before, entry, behind, hfound, hopened, hip, hput⟩
      · rw [hfull]
        by_cases hother : other = ipAddr
        · subst hother
          rw [if_pos rfl, AddressView.blacklist, hopened]
          exact ⟨rfl, rfl⟩
        · rw [if_neg hother]
          exact ⟨rfl, rfl⟩
      · rw [hfound]
        dsimp only
        rw [(hput { entry with blacklistUntil := c.now + blacklistDurationSec } hip).view]
        by_cases hother : other = ipAddr
        · subst hother
          rw [if_pos rfl, if_pos rfl, AddressView.blacklist, hopened]
          exact ⟨rfl, rfl⟩
        · rw [if_neg hother, if_neg hother]
          exact ⟨rfl, rfl⟩
  | cleanup =>
      dsimp only
      unfold rateLimiterCleanup AddressView.cleanup RateLimiter.view
      dsimp only
      split
      · exact ⟨rfl, rfl⟩
      · rw [entryOf_filter _ _ hdistinct]
        exact ⟨rfl, rfl⟩

end View

section Independence

/-- The calls that stay when those for other addresses are deleted. -/
def TimedCall.concerns (ipAddr : UInt32) (c : TimedCall) : Bool :=
  match c.call with
  | .check _ other => other == ipAddr
  | .blacklist other => other == ipAddr
  | .cleanup => true

theorem AddressView.step_of_not_concerns (ipAddr : UInt32) (room : Bool)
    (view : AddressView) (c : TimedCall) (h : c.concerns ipAddr = false) :
    view.step ipAddr room c = (view, []) := by
  unfold TimedCall.concerns at h
  unfold AddressView.step
  cases hcall : c.call with
  | check kind other =>
      rw [hcall] at h
      exact if_neg (by simpa using h)
  | blacklist other =>
      rw [hcall] at h
      exact if_neg (by simpa using h)
  | cleanup =>
      rw [hcall] at h
      cases h

/-- A table in which only one address has an entry. -/
def RateLimiter.OnlyOf (ipAddr : UInt32) (limiter : RateLimiter) : Prop :=
  ∀ other ≠ ipAddr, entryOf other limiter.entries = none

theorem RateLimiter.OnlyOf.hasRoom {limiter : RateLimiter} {ipAddr : UInt32}
    (honly : limiter.OnlyOf ipAddr) (hdistinct : limiter.Distinct) :
    limiter.hasRoom = true := by
  have hall : ∀ key ∈ limiter.entries.map IpRateLimit.ipAddr, key = ipAddr := by
    intro key hkey
    obtain ⟨entry, hentry, rfl⟩ := List.mem_map.mp hkey
    by_contra hne
    exact entryOf_none_iff.mp (honly _ hne) entry hentry rfl
  have hkeys := List.eq_replicate_of_mem hall
  have hone : limiter.entries.length ≤ 1 := by
    rw [RateLimiter.Distinct, hkeys, List.nodup_replicate, List.length_map] at hdistinct
    exact hdistinct
  exact decide_eq_true (lt_of_le_of_lt hone (by decide))

/-- A call for the address, or a compaction, makes no entry for another one. -/
theorem RateLimiter.OnlyOf.step {limiter : RateLimiter} {ipAddr : UInt32}
    (honly : limiter.OnlyOf ipAddr) (hdistinct : limiter.Distinct) (c : TimedCall)
    (hconcerns : c.concerns ipAddr = true) : (limiterStep limiter c).1.OnlyOf ipAddr := by
  intro other hne
  have hview := congrArg AddressView.entry (limiterStep_view hdistinct other c).1
  refine hview.trans ?_
  unfold TimedCall.concerns at hconcerns
  unfold AddressView.step
  cases hcall : c.call with
  | check kind who =>
      rw [hcall, beq_iff_eq] at hconcerns
      dsimp only
      rw [if_neg (by rw [hconcerns]; exact hne.symm)]
      exact honly other hne
  | blacklist who =>
      rw [hcall, beq_iff_eq] at hconcerns
      dsimp only
      rw [if_neg (by rw [hconcerns]; exact hne.symm)]
      exact honly other hne
  | cleanup =>
      have hnone : (limiter.view other).entry = none := honly other hne
      dsimp only
      unfold AddressView.cleanup
      split
      · exact hnone
      · rw [hnone]
        rfl

theorem answersFor_append (ipAddr : UInt32) (first second : List Answer) :
    answersFor ipAddr (first ++ second) =
      answersFor ipAddr first ++ answersFor ipAddr second :=
  List.filter_append ..

/-- As long as the table has room, the results of the calls for an address are those of the
run in which all checks and blacklistings of other addresses are left out. -/
theorem limiter_answers_independent_of_other_addresses (start : Int)
    (calls : List TimedCall) (ipAddr : UInt32)
    (hroom : Along limiterStep
      (fun limiter _ => limiter.entries.length < maxRateLimitEntries)
      (rateLimiterInit start) calls) :
    answersFor ipAddr (run limiterStep (rateLimiterInit start) calls).2 =
      answersFor ipAddr (run limiterStep (rateLimiterInit start)
        (calls.filter (TimedCall.concerns ipAddr))).2 := by
  have hempty : (rateLimiterInit start).Distinct := List.nodup_nil
  have hfull := run_refines limiterStep _ (AddressView.step ipAddr true)
    RateLimiter.Distinct (RateLimiter.view ipAddr) (answersFor ipAddr) rfl
    (answersFor_append ipAddr) (fun limiter c h _ => limiterStep_distinct h c)
    (fun limiter c h hok => by
      have hview := limiterStep_view h ipAddr c
      rwa [RateLimiter.hasRoom, decide_eq_true hok] at hview)
    (rateLimiterInit start) calls hempty hroom
  have hkept := Along.of_forall limiterStep (fun c => c.concerns ipAddr = true)
    (rateLimiterInit start) (calls.filter (TimedCall.concerns ipAddr))
    (fun c hc => List.of_mem_filter hc)
  have hprojected := run_refines limiterStep _ (AddressView.step ipAddr true)
    (fun limiter => limiter.Distinct ∧ limiter.OnlyOf ipAddr) (RateLimiter.view ipAddr)
    (answersFor ipAddr) rfl (answersFor_append ipAddr)
    (fun limiter c h hok => ⟨limiterStep_distinct h.1 c, h.2.step h.1 c hok⟩)
    (fun limiter c h hok => by
      have hview := limiterStep_view h.1 ipAddr c
      rwa [h.2.hasRoom h.1] at hview)
    (rateLimiterInit start) _ ⟨hempty, fun _ _ => rfl⟩ hkept
  have hskip := run_filter (AddressView.step ipAddr true) (TimedCall.concerns ipAddr)
    (AddressView.step_of_not_concerns ipAddr true) ((rateLimiterInit start).view ipAddr) calls
  rw [hfull.2, hprojected.2, hskip]

theorem limiter_answers_independent_of_other_addresses_two :
    answersFor 7 (run limiterStep (rateLimiterInit 0)
        [⟨0, .check .handshake 7⟩, ⟨1, .check .packet 9⟩, ⟨2, .blacklist 9⟩, ⟨20, .cleanup⟩,
          ⟨21, .check .handshake 7⟩]).2 =
      answersFor 7 (run limiterStep (rateLimiterInit 0)
        (List.filter (TimedCall.concerns 7)
          [⟨0, .check .handshake 7⟩, ⟨1, .check .packet 9⟩, ⟨2, .blacklist 9⟩,
            ⟨20, .cleanup⟩, ⟨21, .check .handshake 7⟩])).2 :=
  limiter_answers_independent_of_other_addresses 0 _ 7 (by decide +kernel)

end Independence

end Chamlon.Server
