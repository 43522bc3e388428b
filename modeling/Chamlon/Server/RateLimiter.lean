import Mathlib.Tactic
import Chamlon.Lib.TokenBucket
import Chamlon.Server.Session

/-!
The rate limiter, from `rate_limiter.c`. Each address that was seen has an entry with two
token buckets, one for handshakes and one for data packets. The two checks are the same
code over different fields and constants, so they are one definition here. The token
counts of the source are of type `double`, but all of them are whole numbers.

The clock is an argument: the calls of `time` inside one function are taken at one time.
-/

namespace Chamlon.Server

open TokenBucket

abbrev handshakeMaxPerSecond : Nat := 5
abbrev handshakeBurstCapacity : Nat := 10
abbrev packetMaxPerSecond : Nat := 1000
abbrev packetBurstCapacity : Nat := 2000
abbrev blacklistDurationSec : Int := 60
abbrev maxRateLimitEntries : Nat := 10000
abbrev rateLimiterCleanupInterval : Int := 10

/-- What `check_handshake_rate_limit` and `check_packet_rate_limit` count. -/
inductive LimitKind where
  | handshake
  | packet
deriving DecidableEq, Repr

def LimitKind.limit : LimitKind → Limit
  | .handshake => ⟨handshakeBurstCapacity, handshakeMaxPerSecond⟩
  | .packet => ⟨packetBurstCapacity, packetMaxPerSecond⟩

/-- The violations that are let pass before an address is blacklisted. -/
def LimitKind.allowance : LimitKind → Nat
  | .handshake => 50
  | .packet => 500

/-- `ip_rate_limit_t`. -/
structure IpRateLimit where
  ipAddr : UInt32
  bucket : LimitKind → Bucket
  violations : LimitKind → BitVec 32
  blacklistUntil : Int
  lastSeen : Int

/-- The entry that `find_or_create_ip_entry` makes. -/
def IpRateLimit.fresh (ipAddr : UInt32) (now : Int) : IpRateLimit where
  ipAddr := ipAddr
  bucket := fun kind => ⟨kind.limit.capacity, now⟩
  violations := fun _ => 0
  blacklistUntil := 0
  lastSeen := now

/-- `rate_limiter_t`: the first `num_entries` entries. -/
structure RateLimiter where
  entries : List IpRateLimit
  lastCleanup : Int

/-- `rate_limiter_init`. -/
def rateLimiterInit (now : Int) : RateLimiter := ⟨[], now⟩

/-- `find_or_create_ip_entry`: what stands before the entry, the entry, and what stands
behind it. -/
def findOrCreateIpEntry (now : Int) (ipAddr : UInt32) (entries : List IpRateLimit) :
    Option (List IpRateLimit × IpRateLimit × List IpRateLimit) :=
  match entries.dropWhile (·.ipAddr != ipAddr) with
  | entry :: behind =>
      some (entries.takeWhile (·.ipAddr != ipAddr), { entry with lastSeen := now }, behind)
  | [] =>
      if entries.length < maxRateLimitEntries then some (entries, .fresh ipAddr now, [])
      else none

/-- The part of the two checks that works on the entry. -/
def IpRateLimit.check (kind : LimitKind) (now : Int) (entry : IpRateLimit) :
    IpRateLimit × RateVerdict :=
  if now < entry.blacklistUntil then (entry, .blacklisted)
  else
    let bucket := (entry.bucket kind).refill kind.limit now
    if 1 ≤ bucket.tokens then
      let bucket := { bucket with tokens := bucket.tokens - 1 }
      ({ entry with bucket := Function.update entry.bucket kind bucket }, .ok)
    else
      let violations := entry.violations kind + 1
      let entry := { entry with
        bucket := Function.update entry.bucket kind bucket
        violations := Function.update entry.violations kind violations }
      if kind.allowance < violations.toNat then
        ({ entry with blacklistUntil := now + blacklistDurationSec }, .blacklisted)
      else (entry, .exceeded)

def checkRateLimit (kind : LimitKind) (now : Int) (ipAddr : UInt32)
    (limiter : RateLimiter) : RateLimiter × RateVerdict :=
  match findOrCreateIpEntry now ipAddr limiter.entries with
  | none => (limiter, .exceeded)
  | some (before, entry, behind) =>
      ({ limiter with entries := before ++ (entry.check kind now).1 :: behind },
        (entry.check kind now).2)

def checkHandshakeRateLimit (now : Int) (ipAddr : UInt32) (limiter : RateLimiter) :
    RateLimiter × RateVerdict :=
  checkRateLimit .handshake now ipAddr limiter

def checkPacketRateLimit (now : Int) (ipAddr : UInt32) (limiter : RateLimiter) :
    RateLimiter × RateVerdict :=
  checkRateLimit .packet now ipAddr limiter

def blacklistIp (now : Int) (ipAddr : UInt32) (limiter : RateLimiter) : RateLimiter :=
  match findOrCreateIpEntry now ipAddr limiter.entries with
  | none => limiter
  | some (before, entry, behind) =>
      { limiter with entries := before ++
          { entry with blacklistUntil := now + blacklistDurationSec } :: behind }

def rateLimiterCleanup (now : Int) (limiter : RateLimiter) : RateLimiter :=
  if now - limiter.lastCleanup < rateLimiterCleanupInterval then limiter
  else
    { entries := limiter.entries.filter fun entry =>
        decide (now - entry.lastSeen < 300) || decide (now < entry.blacklistUntil)
      lastCleanup := now }

/-- The entry of an address. -/
def entryOf (ipAddr : UInt32) (entries : List IpRateLimit) : Option IpRateLimit :=
  entries.find? (·.ipAddr == ipAddr)

section Entries

variable {ipAddr other : UInt32} {before behind : List IpRateLimit} {entry : IpRateLimit}

theorem entryOf_none_iff {entries : List IpRateLimit} :
    entryOf ipAddr entries = none ↔ ∀ e ∈ entries, e.ipAddr ≠ ipAddr := by
  simp [entryOf]

theorem entryOf_self (hbefore : ∀ e ∈ before, e.ipAddr ≠ ipAddr)
    (hentry : entry.ipAddr = ipAddr) :
    entryOf ipAddr (before ++ entry :: behind) = some entry := by
  have hnone : before.find? (·.ipAddr == ipAddr) = none := entryOf_none_iff.mpr hbefore
  rw [entryOf, List.find?_append, hnone, Option.none_or,
    List.find?_cons_of_pos (by rw [hentry]; exact beq_self_eq_true ipAddr)]

/-- Replacing the entry of one address does not change those of others. -/
theorem entryOf_other (hne : other ≠ ipAddr) (hentry : entry.ipAddr = ipAddr) :
    entryOf other (before ++ entry :: behind) = entryOf other (before ++ behind) := by
  have hskip : (entry.ipAddr == other) = false := by
    rw [hentry]
    exact beq_false_of_ne hne.symm
  rw [entryOf, entryOf, List.find?_append, List.find?_append,
    List.find?_cons_of_neg (by rw [hskip]; exact Bool.false_ne_true)]

/-- The compaction of the table drops the entry of an address or keeps it. -/
theorem entryOf_filter (keep : IpRateLimit → Bool) (entries : List IpRateLimit)
    (hdistinct : (entries.map IpRateLimit.ipAddr).Nodup) :
    entryOf ipAddr (entries.filter keep) = (entryOf ipAddr entries).filter keep := by
  induction entries with
  | nil => rfl
  | cons e rest ih =>
      rw [List.map_cons, List.nodup_cons] at hdistinct
      have hrest := ih hdistinct.2
      by_cases hip : e.ipAddr = ipAddr
      · have hhead : entryOf ipAddr (e :: rest) = some e :=
          List.find?_cons_of_pos (beq_iff_eq.mpr hip)
        have hgone : entryOf ipAddr rest = none := by
          refine entryOf_none_iff.mpr fun e' he' hsame => hdistinct.1 ?_
          rw [hip, ← hsame]
          exact List.mem_map_of_mem he'
        rw [hhead, Option.filter_some]
        split
        next hkeep =>
          rw [List.filter_cons_of_pos hkeep]
          exact List.find?_cons_of_pos (beq_iff_eq.mpr hip)
        next hdrop => rw [List.filter_cons_of_neg hdrop, hrest, hgone, Option.filter_none]
      · have hskip : ∀ l, entryOf ipAddr (e :: l) = entryOf ipAddr l := fun l =>
          List.find?_cons_of_neg (by simpa using hip)
        rw [hskip rest, ← hrest, List.filter_cons]
        split
        · exact hskip _
        · rfl

/-- `find_or_create_ip_entry` finds the entry, makes one at the end, or has no room. -/
theorem findOrCreateIpEntry_cases (now : Int) (ipAddr : UInt32)
    (entries : List IpRateLimit) :
    (entryOf ipAddr entries = none ∧ ¬ entries.length < maxRateLimitEntries ∧
      findOrCreateIpEntry now ipAddr entries = none) ∨
    (entryOf ipAddr entries = none ∧ entries.length < maxRateLimitEntries ∧
      findOrCreateIpEntry now ipAddr entries = some (entries, .fresh ipAddr now, [])) ∨
    ∃ before entry behind, entries = before ++ entry :: behind ∧
      (∀ e ∈ before, e.ipAddr ≠ ipAddr) ∧ entry.ipAddr = ipAddr ∧
      findOrCreateIpEntry now ipAddr entries =
        some (before, { entry with lastSeen := now }, behind) := by
  have hsplit := List.takeWhile_append_dropWhile
    (p := fun entry : IpRateLimit => entry.ipAddr != ipAddr) (l := entries)
  have hbefore : ∀ e ∈ entries.takeWhile (·.ipAddr != ipAddr), e.ipAddr ≠ ipAddr := by
    intro e he
    simpa using List.mem_takeWhile_imp he
  unfold findOrCreateIpEntry
  cases hrest : entries.dropWhile (·.ipAddr != ipAddr) with
  | nil =>
      rw [hrest, List.append_nil] at hsplit
      rw [hsplit] at hbefore
      have hnone := entryOf_none_iff.mpr hbefore
      dsimp only
      split
      next hroom => exact Or.inr (Or.inl ⟨hnone, hroom, rfl⟩)
      next hfull => exact Or.inl ⟨hnone, hfull, rfl⟩
  | cons entry behind =>
      rw [hrest] at hsplit
      have hentry : entry.ipAddr = ipAddr := by
        have hhead := List.head_dropWhile_not (fun e : IpRateLimit => e.ipAddr != ipAddr)
          (show entries.dropWhile (·.ipAddr != ipAddr) ≠ [] by rw [hrest]; simp)
        simp only [hrest, List.head_cons] at hhead
        simpa using hhead
      exact Or.inr (Or.inr ⟨_, entry, behind, hsplit.symm, hbefore, hentry, rfl⟩)

end Entries

/-- No bucket holds more than its capacity, and the times are in order. -/
structure IpRateLimit.Sound (clock : Int) (entry : IpRateLimit) : Prop where
  tokens : ∀ kind, (entry.bucket kind).tokens ≤ kind.limit.capacity
  refill : ∀ kind, (entry.bucket kind).lastRefill ≤ entry.lastSeen
  seen : entry.lastSeen ≤ clock

structure RateLimiter.Sound (clock : Int) (limiter : RateLimiter) : Prop where
  entries : ∀ entry ∈ limiter.entries, entry.Sound clock
  distinct : (limiter.entries.map IpRateLimit.ipAddr).Nodup

/-- The level of the bucket of an address. An address without entry would get a full
one. -/
def RateLimiter.level (kind : LimitKind) (ipAddr : UInt32) (limiter : RateLimiter)
    (t : Int) : Nat :=
  match entryOf ipAddr limiter.entries with
  | some entry => (entry.bucket kind).level kind.limit t
  | none => kind.limit.capacity

theorem rateLimiterInit_sound (now : Int) : (rateLimiterInit now).Sound now where
  entries _ h := absurd h List.not_mem_nil
  distinct := List.nodup_nil

theorem IpRateLimit.Sound.later {clock clock' : Int} {entry : IpRateLimit}
    (h : entry.Sound clock) (hle : clock ≤ clock') : entry.Sound clock' :=
  ⟨h.tokens, h.refill, h.seen.trans hle⟩

theorem RateLimiter.Sound.later {clock clock' : Int} {limiter : RateLimiter}
    (h : limiter.Sound clock) (hle : clock ≤ clock') : limiter.Sound clock' :=
  ⟨fun entry hentry => (h.entries entry hentry).later hle, h.distinct⟩

section Level

variable {kind : LimitKind} {ipAddr : UInt32} {limiter : RateLimiter}

theorem RateLimiter.level_le (t : Int) :
    limiter.level kind ipAddr t ≤ kind.limit.capacity := by
  unfold RateLimiter.level
  split
  · exact Bucket.level_le t
  · exact le_refl _

theorem RateLimiter.level_later {t t' : Int} (h : t ≤ t') :
    (limiter.level kind ipAddr t' : Int) ≤
      limiter.level kind ipAddr t + kind.limit.rate * (t' - t) := by
  unfold RateLimiter.level
  split
  · exact Bucket.level_later h
  · exact le_add_of_nonneg_right (kind.limit.gain_nonneg h)

end Level

/-- The entry that a call works on, taken out of the table. -/
structure Opened (now : Int) (ipAddr : UInt32) (limiter : RateLimiter)
    (before : List IpRateLimit) (entry : IpRateLimit) (behind : List IpRateLimit) :
    Prop where
  address : entry.ipAddr = ipAddr
  seen : entry.lastSeen = now
  sound : entry.Sound now
  rest : ∀ e ∈ before ++ behind, e ∈ limiter.entries
  distinct : ((before ++ behind).map IpRateLimit.ipAddr).Nodup
  alone : ∀ e ∈ before ++ behind, e.ipAddr ≠ ipAddr
  others : ∀ other ≠ ipAddr,
    entryOf other (before ++ behind) = entryOf other limiter.entries
  level : ∀ kind t, (entry.bucket kind).level kind.limit t = limiter.level kind ipAddr t

theorem IpRateLimit.fresh_sound (ipAddr : UInt32) (now : Int) :
    (IpRateLimit.fresh ipAddr now).Sound now :=
  ⟨fun _ => le_refl _, fun _ => le_refl _, le_refl _⟩

theorem findOrCreateIpEntry_opened {clock now : Int} {limiter : RateLimiter}
    (h : limiter.Sound clock) (hclock : clock ≤ now) {ipAddr : UInt32}
    {before behind : List IpRateLimit} {entry : IpRateLimit}
    (hfound : findOrCreateIpEntry now ipAddr limiter.entries =
      some (before, entry, behind)) :
    Opened now ipAddr limiter before entry behind := by
  rcases findOrCreateIpEntry_cases now ipAddr limiter.entries with
    ⟨_, _, hfull⟩ | ⟨hnone, _, hfresh⟩ |
      ⟨before', entry', behind', hsplit, hbefore, hip, hthis⟩
  · rw [hfull] at hfound
    cases hfound
  · rw [hfresh, Option.some.injEq, Prod.mk.injEq, Prod.mk.injEq] at hfound
    obtain ⟨rfl, rfl, rfl⟩ := hfound
    have habsent := entryOf_none_iff.mp hnone
    refine ⟨rfl, rfl, IpRateLimit.fresh_sound ipAddr now, ?_, ?_, ?_, ?_, ?_⟩
    · simp
    · simpa using h.distinct
    · simpa using habsent
    · simp
    · intro kind t
      rw [RateLimiter.level, hnone]
      exact min_eq_right (Nat.le_add_right _ _)
  · rw [hthis, Option.some.injEq, Prod.mk.injEq, Prod.mk.injEq] at hfound
    obtain ⟨rfl, rfl, rfl⟩ := hfound
    have hmem : entry' ∈ limiter.entries := by
      rw [hsplit]
      exact List.mem_append_right _ List.mem_cons_self
    have hdistinct := h.distinct
    rw [hsplit, List.map_append, List.map_cons, List.nodup_middle, ← List.map_append,
      List.nodup_cons] at hdistinct
    refine ⟨hip, rfl, ?_, ?_, hdistinct.2, ?_, ?_, ?_⟩
    · have hsound := h.entries entry' hmem
      exact ⟨hsound.tokens,
        fun kind => (hsound.refill kind).trans (hsound.seen.trans hclock), le_refl _⟩
    · intro e he
      rw [hsplit]
      rcases List.mem_append.mp he with hleft | hright
      · exact List.mem_append_left _ hleft
      · exact List.mem_append_right _ (List.mem_cons_of_mem _ hright)
    · intro e he hsame
      refine hdistinct.1 ?_
      rw [hip, ← hsame]
      exact List.mem_map_of_mem he
    · intro other hother
      rw [hsplit, entryOf_other hother hip]
    · intro kind t
      rw [RateLimiter.level, hsplit, entryOf_self hbefore hip]

section Replace

variable {now : Int} {ipAddr : UInt32} {limiter : RateLimiter}
  {before behind : List IpRateLimit} {entry : IpRateLimit}

/-- Putting a sound entry of the same address back. -/
theorem Opened.replace_sound (h : Opened now ipAddr limiter before entry behind)
    (hlimiter : limiter.Sound now) (entry' : IpRateLimit) (hip : entry'.ipAddr = ipAddr)
    (hsound : entry'.Sound now) :
    RateLimiter.Sound now { limiter with entries := before ++ entry' :: behind } := by
  constructor
  · intro e he
    rcases List.mem_append.mp he with hleft | hright
    · exact hlimiter.entries e (h.rest e (List.mem_append_left _ hleft))
    rcases List.mem_cons.mp hright with rfl | hright
    · exact hsound
    · exact hlimiter.entries e (h.rest e (List.mem_append_right _ hright))
  · dsimp only
    rw [List.map_append, List.map_cons, List.nodup_middle, ← List.map_append,
      List.nodup_cons]
    refine ⟨fun hmem => ?_, h.distinct⟩
    obtain ⟨e, he, hsame⟩ := List.mem_map.mp hmem
    exact h.alone e he (hsame.trans hip)

theorem Opened.replace_level (h : Opened now ipAddr limiter before entry behind)
    (entry' : IpRateLimit) (hip : entry'.ipAddr = ipAddr) (kind : LimitKind)
    (other : UInt32) (t : Int) :
    RateLimiter.level kind other { limiter with entries := before ++ entry' :: behind } t =
      if other = ipAddr then (entry'.bucket kind).level kind.limit t
      else limiter.level kind other t := by
  unfold RateLimiter.level
  dsimp only
  split_ifs with hother
  · rw [hother, entryOf_self (fun e he => h.alone e (List.mem_append_left _ he)) hip]
  · rw [entryOf_other hother hip, h.others other hother]

end Replace

/-- The token that a check of this kind and address takes from a bucket. -/
def tokenOf (kind kind' : LimitKind) (ipAddr other : UInt32) (verdict : RateVerdict) :
    Nat :=
  if kind' = kind ∧ other = ipAddr ∧ verdict = .ok then 1 else 0

section Check

variable {now : Int} {entry : IpRateLimit}

/-- A check of an address that is not blacklisted refills the bucket and, when it says
yes, takes one token. -/
theorem IpRateLimit.check_cases (kind : LimitKind) (now : Int) (entry : IpRateLimit) :
    (now < entry.blacklistUntil ∧ entry.check kind now = (entry, .blacklisted)) ∨
    ∃ bucket violations blacklistUntil verdict,
      bucket.lastRefill = ((entry.bucket kind).refill kind.limit now).lastRefill ∧
      bucket.tokens + (if verdict = RateVerdict.ok then 1 else 0) =
        ((entry.bucket kind).refill kind.limit now).tokens ∧
      entry.check kind now =
        ({ entry with
          bucket := Function.update entry.bucket kind bucket
          violations := violations
          blacklistUntil := blacklistUntil }, verdict) := by
  unfold IpRateLimit.check
  split
  next hblacklisted => exact Or.inl ⟨hblacklisted, rfl⟩
  refine Or.inr ?_
  dsimp only
  split
  next hfull =>
    exact ⟨⟨((entry.bucket kind).refill kind.limit now).tokens - 1, _⟩, _, _, .ok, rfl,
      Nat.sub_add_cancel hfull, rfl⟩
  split
  · exact ⟨_, _, _, .blacklisted, rfl, rfl, rfl⟩
  · exact ⟨_, _, _, .exceeded, rfl, rfl, rfl⟩

theorem IpRateLimit.check_ipAddr (kind : LimitKind) (now : Int) (entry : IpRateLimit) :
    (entry.check kind now).1.ipAddr = entry.ipAddr := by
  rcases entry.check_cases kind now with ⟨_, hcheck⟩ | ⟨_, _, _, _, _, _, hcheck⟩
  · rw [hcheck]
  · rw [hcheck]

theorem IpRateLimit.check_sound (h : entry.Sound now) (hseen : entry.lastSeen = now)
    (kind : LimitKind) : (entry.check kind now).1.Sound now := by
  rcases entry.check_cases kind now with
    ⟨_, hcheck⟩ | ⟨bucket, violations, until', verdict, hrefill, htokens, hcheck⟩
  · rw [hcheck]
    exact h
  have hcapacity : bucket.tokens ≤ kind.limit.capacity := by
    have hfull := Bucket.refill_tokens_le now (h.tokens kind)
    omega
  have hlast : bucket.lastRefill ≤ entry.lastSeen := by
    rw [hrefill, hseen]
    exact Bucket.refill_lastRefill_le ((h.refill kind).trans h.seen)
  rw [hcheck]
  refine ⟨fun kind' => ?_, fun kind' => ?_, h.seen⟩
  · by_cases hkind : kind' = kind
    · subst hkind
      simpa using hcapacity
    · simpa [hkind] using h.tokens kind'
  · by_cases hkind : kind' = kind
    · subst hkind
      simpa using hlast
    · simpa [hkind] using h.refill kind'

/-- A check takes a token when it says yes and adds none. -/
theorem IpRateLimit.check_pays (h : entry.Sound now) (kind kind' : LimitKind) :
    ((entry.check kind now).1.bucket kind').level kind'.limit now +
        (if kind' = kind ∧ (entry.check kind now).2 = .ok then 1 else 0) ≤
      (entry.bucket kind').level kind'.limit now := by
  rcases entry.check_cases kind now with
    ⟨_, hcheck⟩ | ⟨bucket, violations, until', verdict, hrefill, htokens, hcheck⟩
  · rw [hcheck]
    simp
  rw [hcheck]
  dsimp only
  by_cases hkind : kind' = kind
  · subst hkind
    have hfull := Bucket.refill_tokens_le now (h.tokens kind')
    have hnow : now ≤ bucket.lastRefill := by
      rw [hrefill]
      exact Bucket.le_refill_lastRefill now
    rw [Function.update_self, Bucket.level_of_le hnow (by omega),
      ← Bucket.refill_tokens now (h.tokens kind'), ← htokens]
    simp
  · rw [Function.update_of_ne hkind, if_neg fun hboth => hkind hboth.1]
    exact le_refl _

/-- The verdict on an entry that is blacklisted. -/
theorem IpRateLimit.check_blacklisted (kind : LimitKind)
    (hblacklisted : now < entry.blacklistUntil) :
    entry.check kind now = (entry, .blacklisted) := by
  unfold IpRateLimit.check
  rw [if_pos hblacklisted]

end Check

/-- The address has an entry that is still blacklisted. -/
def RateLimiter.Blacklisted (limiter : RateLimiter) (now : Int) (ipAddr : UInt32) : Prop :=
  ∃ entry ∈ entryOf ipAddr limiter.entries, now < entry.blacklistUntil

instance (limiter : RateLimiter) (now : Int) (ipAddr : UInt32) :
    Decidable (limiter.Blacklisted now ipAddr) :=
  inferInstanceAs (Decidable (∃ _ ∈ _, _))

section Limiter

variable {clock now : Int} {limiter : RateLimiter}

theorem checkRateLimit_blacklisted {ipAddr : UInt32}
    (h : limiter.Blacklisted now ipAddr) (kind : LimitKind) :
    (checkRateLimit kind now ipAddr limiter).2 = .blacklisted := by
  obtain ⟨entry, hentry, huntil⟩ := h
  unfold checkRateLimit
  rcases findOrCreateIpEntry_cases now ipAddr limiter.entries with
    ⟨hnone, _⟩ | ⟨hnone, _⟩ | ⟨before, entry', behind, hsplit, hbefore, hip, hfound⟩
  · rw [hnone] at hentry
    cases hentry
  · rw [hnone] at hentry
    cases hentry
  · rw [hsplit, entryOf_self hbefore hip, Option.mem_some_iff] at hentry
    rw [hfound]
    dsimp only
    rw [IpRateLimit.check_blacklisted kind (by rw [hentry]; exact huntil)]

theorem checkRateLimit_sound (h : limiter.Sound clock) (hclock : clock ≤ now)
    (kind : LimitKind) (ipAddr : UInt32) :
    (checkRateLimit kind now ipAddr limiter).1.Sound now := by
  unfold checkRateLimit
  split
  · exact h.later hclock
  next before entry behind hfound =>
    have hopened := findOrCreateIpEntry_opened h hclock hfound
    exact hopened.replace_sound (h.later hclock) _
      ((entry.check_ipAddr kind now).trans hopened.address)
      (IpRateLimit.check_sound hopened.sound hopened.seen kind)

/-- What a check takes from the buckets of all addresses. -/
theorem checkRateLimit_pays (h : limiter.Sound clock) (hclock : clock ≤ now)
    (kind kind' : LimitKind) (ipAddr other : UInt32) :
    (checkRateLimit kind now ipAddr limiter).1.level kind' other now +
        tokenOf kind kind' ipAddr other (checkRateLimit kind now ipAddr limiter).2 ≤
      limiter.level kind' other now := by
  unfold checkRateLimit tokenOf
  split
  · simp
  next before entry behind hfound =>
    have hopened := findOrCreateIpEntry_opened h hclock hfound
    dsimp only
    rw [hopened.replace_level _ ((entry.check_ipAddr kind now).trans hopened.address)]
    by_cases hother : other = ipAddr
    · have hpays := IpRateLimit.check_pays hopened.sound kind kind'
      rw [if_pos hother, hother, ← hopened.level kind' now]
      simpa using hpays
    · rw [if_neg hother, if_neg fun hall => hother hall.2.1]
      exact le_refl _

theorem blacklistIp_sound (h : limiter.Sound clock) (hclock : clock ≤ now)
    (ipAddr : UInt32) : (blacklistIp now ipAddr limiter).Sound now := by
  unfold blacklistIp
  split
  · exact h.later hclock
  next before entry behind hfound =>
    have hopened := findOrCreateIpEntry_opened h hclock hfound
    exact hopened.replace_sound (h.later hclock)
      { entry with blacklistUntil := now + blacklistDurationSec } hopened.address
      ⟨hopened.sound.tokens, hopened.sound.refill, hopened.sound.seen⟩

theorem blacklistIp_level (h : limiter.Sound clock) (hclock : clock ≤ now)
    (ipAddr other : UInt32) (kind : LimitKind) (t : Int) :
    (blacklistIp now ipAddr limiter).level kind other t = limiter.level kind other t := by
  unfold blacklistIp
  split
  · rfl
  next before entry behind hfound =>
    have hopened := findOrCreateIpEntry_opened h hclock hfound
    rw [hopened.replace_level { entry with
      blacklistUntil := now + blacklistDurationSec } hopened.address]
    split_ifs with hother
    · rw [hother]
      exact hopened.level kind t
    · rfl

theorem rateLimiterCleanup_sound (h : limiter.Sound clock) (hclock : clock ≤ now) :
    (rateLimiterCleanup now limiter).Sound now := by
  unfold rateLimiterCleanup
  split
  · exact h.later hclock
  · refine ⟨fun entry hentry => ?_, ?_⟩
    · exact (h.entries entry (List.mem_of_mem_filter hentry)).later hclock
    · exact h.distinct.sublist (List.filter_sublist.map _)

/-- A bucket that nobody looked at for five minutes is full. -/
theorem IpRateLimit.Sound.level_of_idle {entry : IpRateLimit} (h : entry.Sound clock)
    (hidle : 300 ≤ now - entry.lastSeen) (kind : LimitKind) :
    (entry.bucket kind).level kind.limit now = kind.limit.capacity := by
  apply Bucket.level_eq_capacity
  have hrefill := h.refill kind
  have helapsed : 300 ≤ (now - (entry.bucket kind).lastRefill).toNat := by omega
  cases kind with
  | handshake =>
      have hrate := Nat.mul_le_mul_right LimitKind.handshake.limit.rate helapsed
      exact le_trans (by decide) hrate
  | packet =>
      have hrate := Nat.mul_le_mul_right LimitKind.packet.limit.rate helapsed
      exact le_trans (by decide) hrate

/-- An entry is dropped only when its buckets are full, so that the address gets nothing
from the entry that is made for it later. -/
theorem rateLimiterCleanup_level (h : limiter.Sound clock) (kind : LimitKind)
    (ipAddr : UInt32) :
    (rateLimiterCleanup now limiter).level kind ipAddr now =
      limiter.level kind ipAddr now := by
  unfold rateLimiterCleanup
  split
  · rfl
  unfold RateLimiter.level
  dsimp only
  rw [entryOf_filter _ _ h.distinct]
  cases hentry : entryOf ipAddr limiter.entries with
  | none => rfl
  | some entry =>
      rw [Option.filter_some]
      by_cases hkeep : (decide (now - entry.lastSeen < 300) ||
          decide (now < entry.blacklistUntil)) = true
      · rw [if_pos hkeep]
      · have hidle : 300 ≤ now - entry.lastSeen := by
          simp only [Bool.or_eq_true, decide_eq_true_eq, not_or] at hkeep
          omega
        have hsound := h.entries entry (List.mem_of_find?_eq_some hentry)
        rw [if_neg hkeep]
        exact (hsound.level_of_idle hidle kind).symm

end Limiter

end Chamlon.Server
