import Mathlib.Tactic
import Chamlon.Lib.Gate
import Chamlon.Lib.Machine
import Chamlon.ReplayWindow

/-!
The replay window over a whole sequence of authenticated datagrams: `check_replay`
and, when it accepts, `update_window`. The window is a bounded memory of the numbers
it accepted. It knows the largest of them, and each bit stands for one of them. So a
verdict is decided by the accepted numbers alone.
-/

namespace Chamlon.ReplayWindow

open Config Machine

variable {words : Nat}

/-- One datagram that decrypts: the window afterwards, and the number with the
verdict, `true` for accepted. -/
def windowStep (w : ReplayWindow words) (seq : BitVec 64) :
    ReplayWindow words × List (BitVec 64 × Bool) :=
  if w.checkReplay seq then (w, [(seq, false)])
  else (w.updateWindow seq, [(seq, true)])

/-- The window remembers exactly these numbers, as far as its bits reach. -/
structure Remembers (w : ReplayWindow words) (seen : Set (BitVec 64)) : Prop where
  nonzero : 0 ∉ seen
  le_max : ∀ x ∈ seen, x.toNat ≤ w.recvMax.toNat
  max_mem : w.recvMax = 0 ∨ w.recvMax ∈ seen
  bits : ∀ k < wordSize * words,
    bit w.bitmap k = true ↔ ∃ x ∈ seen, x.toNat + k = w.recvMax.toNat

/-- Everything the window shows stands for one of these numbers. -/
structure StandsFor (w : ReplayWindow words) (seen : Set (BitVec 64)) : Prop where
  max_mem : w.recvMax = 0 ∨ w.recvMax ∈ seen
  bits : ∀ k < wordSize * words,
    bit w.bitmap k = true → ∃ x ∈ seen, x.toNat + k = w.recvMax.toNat

theorem StandsFor.mono {w : ReplayWindow words} {seen more : Set (BitVec 64)}
    (h : StandsFor w seen) (hmore : seen ⊆ more) : StandsFor w more where
  max_mem := h.max_mem.imp_right fun hmem => hmore hmem
  bits k hk hset := by
    obtain ⟨x, hx, hsum⟩ := h.bits k hk hset
    exact ⟨x, hmore hx, hsum⟩

theorem standsFor_zero (seen : Set (BitVec 64)) :
    StandsFor (zero : ReplayWindow words) seen where
  max_mem := Or.inl rfl
  bits k _ hset := by simp [zero, bit, wordAt] at hset

theorem remembers_zero : Remembers (zero : ReplayWindow words) ∅ where
  nonzero := Set.notMem_empty 0
  le_max x hx := absurd hx (Set.notMem_empty x)
  max_mem := Or.inl rfl
  bits k _ := by simp [zero, bit, wordAt]

section Verdict

variable {w : ReplayWindow words} {seen : Set (BitVec 64)} {seq : BitVec 64}

/-- A number is accepted when it is not zero and lies beyond all accepted ones, or
inside the window and not accepted yet. The end of the window is taken modulo
`2 ^ 64`. -/
theorem Remembers.accepts_iff (h : Remembers w seen) (hwords : wordSize * words < 2 ^ 64) :
    w.checkReplay seq = false ↔ seq ≠ 0 ∧ (w.recvMax.toNat < seq.toNat ∨
      w.recvMax.toNat < (seq.toNat + wordSize * words) % 2 ^ 64 ∧ seq ∉ seen) := by
  rw [← Bool.not_eq_true, checkReplay_iff seq w hwords, not_or]
  refine and_congr_right fun _ => ?_
  rcases Nat.lt_or_ge w.recvMax.toNat seq.toNat with hnew | hold
  · exact ⟨fun _ => Or.inl hnew, fun _ hle => absurd hnew (Nat.not_lt.mpr hle.1)⟩
  rw [not_and, not_or, Nat.not_le, or_iff_right (Nat.not_lt.mpr hold)]
  have hbit : w.recvMax.toNat < (seq.toNat + wordSize * words) % 2 ^ 64 →
      (bit w.bitmap (w.recvMax.toNat - seq.toNat) = true ↔ seq ∈ seen) := by
    intro hage
    have hbehind := (behind_lt_window _ _ _ w.recvMax.isLt hwords hold
      (Nat.not_le.mpr hage)).1
    rw [h.bits _ hbehind]
    constructor
    · rintro ⟨x, hx, hsum⟩
      have hsame : x = seq := BitVec.eq_of_toNat_eq (by omega)
      rw [← hsame]
      exact hx
    · exact fun hseen => ⟨seq, hseen, by omega⟩
  constructor
  · intro haccept
    obtain ⟨hage, hunset⟩ := haccept hold
    exact ⟨hage, fun hseen => hunset ((hbit hage).mpr hseen)⟩
  · rintro ⟨hage, hunseen⟩ _
    exact ⟨hage, fun hset => hunseen ((hbit hage).mp hset)⟩

/-- Recording a number adds it to what the window stands for, whatever the window
showed when the number was checked. -/
theorem StandsFor.update (h : StandsFor w seen) (hwords : wordSize * words < 2 ^ 64)
    (hseq : seq ≠ 0) : StandsFor (w.updateWindow seq) (insert seq seen) where
  max_mem := by
    rw [updateWindow_recvMax seq w hseq]
    split
    · exact Or.inr (Set.mem_insert _ _)
    · exact h.max_mem.imp_right (Set.mem_insert_of_mem _)
  bits k hk := by
    rw [updateWindow_recvMax seq w hseq]
    by_cases hnew : w.recvMax < seq
    · have hnat : w.recvMax.toNat < seq.toNat := hnew
      rw [if_pos hnew, updateWindow_bit_of_new seq w hwords hnew k hk, Bool.or_eq_true,
        Bool.and_eq_true, decide_eq_true_eq, decide_eq_true_eq]
      rintro (⟨hfar, hset⟩ | hzero)
      · obtain ⟨x, hx, hsum⟩ := h.bits _ (by omega) hset
        exact ⟨x, Set.mem_insert_of_mem _ hx, by omega⟩
      · exact ⟨seq, Set.mem_insert _ _, by omega⟩
    · have hnat : seq.toNat ≤ w.recvMax.toNat := BitVec.not_lt.mp hnew
      rw [if_neg hnew, updateWindow_bit_of_old seq w hseq hnew k hk, Bool.or_eq_true,
        decide_eq_true_eq]
      rintro (hset | hthis)
      · obtain ⟨x, hx, hsum⟩ := h.bits k hk hset
        exact ⟨x, Set.mem_insert_of_mem _ hx, hsum⟩
      · exact ⟨seq, Set.mem_insert _ _, by omega⟩

theorem Remembers.standsFor (h : Remembers w seen) : StandsFor w seen :=
  ⟨h.max_mem, fun k hk => (h.bits k hk).mp⟩

/-- Recording a number adds it to what the window remembers. -/
theorem Remembers.update (h : Remembers w seen) (hwords : wordSize * words < 2 ^ 64)
    (hseq : seq ≠ 0) : Remembers (w.updateWindow seq) (insert seq seen) where
  nonzero := by
    rw [Set.mem_insert_iff, not_or]
    exact ⟨hseq.symm, h.nonzero⟩
  le_max x hx := by
    rw [updateWindow_recvMax seq w hseq]
    rcases Set.mem_insert_iff.mp hx with rfl | hx
    · split
      · exact le_refl _
      next hold => exact BitVec.not_lt.mp hold
    · have hle := h.le_max x hx
      split
      next hnew => exact hle.trans (BitVec.lt_def.mp hnew).le
      · exact hle
  max_mem := (h.standsFor.update hwords hseq).max_mem
  bits k hk := by
    refine ⟨(h.standsFor.update hwords hseq).bits k hk, ?_⟩
    rw [updateWindow_recvMax seq w hseq]
    rintro ⟨x, hx, hsum⟩
    by_cases hnew : w.recvMax < seq
    · have hnat : w.recvMax.toNat < seq.toNat := hnew
      rw [if_pos hnew] at hsum
      rw [updateWindow_bit_of_new seq w hwords hnew k hk, Bool.or_eq_true,
        Bool.and_eq_true, decide_eq_true_eq, decide_eq_true_eq]
      rcases Set.mem_insert_iff.mp hx with rfl | hx
      · exact Or.inr (by omega)
      · have hle := h.le_max x hx
        exact Or.inl ⟨by omega, (h.bits _ (by omega)).mpr ⟨x, hx, by omega⟩⟩
    · rw [if_neg hnew] at hsum
      rw [updateWindow_bit_of_old seq w hseq hnew k hk, Bool.or_eq_true, decide_eq_true_eq,
        h.bits k hk]
      rcases Set.mem_insert_iff.mp hx with rfl | hx
      · exact Or.inr (by omega)
      · exact Or.inl ⟨x, hx, hsum⟩

end Verdict

/-- The numbers that were accepted. -/
def accepted (events : List (BitVec 64 × Bool)) : Set (BitVec 64) :=
  { seq | (seq, true) ∈ events }

theorem windowStep_remembers {past : List (BitVec 64 × Bool)} {w : ReplayWindow words}
    (hwords : wordSize * words < 2 ^ 64) (h : Remembers w (accepted past))
    (seq : BitVec 64) :
    Remembers (windowStep w seq).1 (accepted (past ++ (windowStep w seq).2)) := by
  unfold windowStep
  split
  next hrejected =>
    have hsame : accepted (past ++ [(seq, false)]) = accepted past := by
      ext x
      simp [accepted]
    rw [hsame]
    exact h
  next haccepted =>
    have hmore : accepted (past ++ [(seq, true)]) = insert seq (accepted past) := by
      ext x
      simp [accepted, or_comm]
    have hverdict := (h.accepts_iff hwords).mp (Bool.not_eq_true _ ▸ haccepted)
    rw [hmore]
    exact h.update hwords hverdict.1

theorem windowRun_remembers (hwords : wordSize * words < 2 ^ 64) (seqs : List (BitVec 64)) :
    Remembers (run windowStep (zero : ReplayWindow words) seqs).1
      (accepted (run windowStep (zero : ReplayWindow words) seqs).2) := by
  have hnone : accepted [] = ∅ := by
    ext x
    simp [accepted]
  exact run_history windowStep (fun _ _ => True) (fun past w => Remembers w (accepted past))
    (fun _ _ seq h _ => windowStep_remembers hwords h seq) [] zero seqs
    (by rw [hnone]; exact remembers_zero)
    (Along.of_forall _ (fun _ => True) _ seqs fun _ _ => trivial)

/-- After every sequence of numbers, a number that was not accepted yet and lies beyond the
window or in it is accepted exactly when it is beyond or the end of the window that
starts at it, `seq + WINDOW_SIZE`, does not wrap around. -/
theorem unseen_accepted_iff (seqs : List (BitVec 64)) (seq : BitVec 64) (hseq : seq ≠ 0) :
    let final := run windowStep (zero : ReplayWindow bitmapWords) seqs
    (seq, true) ∉ final.2 →
    final.1.recvMax.toNat < seq.toNat ∨
      (final.1.recvMax.toNat : Int) - seq.toNat < windowSize →
    (final.1.checkReplay seq = false ↔
      final.1.recvMax.toNat < seq.toNat ∨ seq.toNat + windowSize < 2 ^ 64) := by
  intro final hnew hinside
  have hremembers : Remembers final.1 (accepted final.2) :=
    windowRun_remembers (by decide) seqs
  have hmax := final.1.recvMax.isLt
  have hlt := seq.isLt
  have hsize : wordSize * bitmapWords = windowSize := by decide
  rw [hremembers.accepts_iff (by decide), hsize]
  unfold windowSize at hinside ⊢
  constructor
  · rintro ⟨_, hbeyond | ⟨hage, _⟩⟩
    · exact Or.inl hbeyond
    · omega
  · rintro (hbeyond | hfits)
    · exact ⟨hseq, Or.inl hbeyond⟩
    · refine ⟨hseq, or_iff_not_imp_left.mpr fun hold => ⟨?_, hnew⟩⟩
      omega

theorem unseen_accepted_iff_below :
    let final := run windowStep (zero : ReplayWindow bitmapWords) [100, 98]
    final.1.checkReplay 99 = false ↔ final.1.recvMax.toNat < 99 ∨ 99 + windowSize < 2 ^ 64 :=
  unseen_accepted_iff [100, 98] 99 (by decide) (by decide +kernel) (by decide +kernel)

/-- After the largest number, the one before it is taken for too old. -/
theorem unseen_rejected :
    let final := run windowStep (zero : ReplayWindow bitmapWords)
      [BitVec.ofNat 64 (2 ^ 64 - 1)]
    let seq := BitVec.ofNat 64 (2 ^ 64 - 2)
    (seq, true) ∉ final.2 ∧
      (final.1.recvMax.toNat : Int) - seq.toNat < windowSize ∧
      final.1.checkReplay seq = true := by
  decide +kernel

/-- The window of this build as a gate that a number passes at most once. -/
def windowGate : Gate (ReplayWindow bitmapWords) (BitVec 64) where
  refuses w seq := w.checkReplay seq
  record w seq := w.updateWindow seq
  refuses_self w seq := checkReplay_updateWindow_self seq w (by decide) (by decide)
  refuses_record w seq other := checkReplay_updateWindow_of_rejected seq other w (by decide)

end Chamlon.ReplayWindow
