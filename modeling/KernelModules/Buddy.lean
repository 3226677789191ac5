import Mathlib.Algebra.Order.Ring.Nat
import Mathlib.Data.Finset.Card
import Mathlib.Data.Finset.Union
import Mathlib.Order.Interval.Finset.Nat
import Mathlib.Tactic.Ring

/-!
# The buddy system

Page frames are numbered, and block `i` of order `k` is the `2 ^ k` frames from `i * 2 ^ k` on.
Its halves are the blocks `2 * i` and `2 * i + 1` of the order below; what a buddy system joins is
such a block again.

* `frames` — the frames of a block; two blocks that meet are nested (`frames_subset`);
* `upperHalves` — the second halves of some blocks;
* `disjoint_upperHalves_iff` — **one half is enough to keep a block in pieces**: what can be joined
  without the second halves of some blocks has no frame of them, or is part of a first half.
-/

namespace KernelModules

namespace Buddy

/-- The frames of block `i` of order `k`. -/
def frames (k i : ℕ) : Finset ℕ := Finset.Ico (i * 2 ^ k) ((i + 1) * 2 ^ k)

variable {j k i i' n : ℕ}

theorem mem_frames : n ∈ frames k i ↔ n / 2 ^ k = i := by
  have hpos : 0 < 2 ^ k := Nat.two_pow_pos k
  rw [frames, Finset.mem_Ico, Nat.div_eq_iff hpos, Nat.succ_mul]
  omega

@[simp] theorem card_frames (k i : ℕ) : (frames k i).card = 2 ^ k := by
  rw [frames, Nat.card_Ico, ← Nat.sub_mul, Nat.add_sub_cancel_left, Nat.one_mul]

/-- Two blocks that meet are nested. -/
theorem frames_subset (hjk : j ≤ k) (hj : n ∈ frames j i) (hk : n ∈ frames k i') :
    frames j i ⊆ frames k i' := by
  intro m hm
  obtain ⟨d, rfl⟩ := Nat.exists_eq_add_of_le hjk
  rw [mem_frames] at hj hk hm ⊢
  rw [pow_add, ← Nat.div_div_eq_div_mul] at hk ⊢
  rw [hm, ← hj, hk]

/-- A block that starts at a multiple of its size. -/
theorem Ico_eq_frames (h : 2 ^ k ∣ n) : Finset.Ico n (n + 2 ^ k) = frames k (n / 2 ^ k) := by
  rw [frames, Nat.succ_mul, Nat.div_mul_cancel h]

/-- Its first half. -/
theorem Ico_eq_lower (h : 2 ^ (k + 1) ∣ n) :
    Finset.Ico n (n + 2 ^ k) = frames k (2 * (n / 2 ^ (k + 1))) := by
  have hdvd : 2 ^ k ∣ n := (Nat.pow_dvd_pow 2 (Nat.le_succ k)).trans h
  have hdiv : n / 2 ^ k = 2 * (n / 2 ^ (k + 1)) := by
    obtain ⟨c, rfl⟩ := h
    rw [Nat.mul_div_cancel_left c (Nat.two_pow_pos (k + 1)), pow_succ, mul_assoc,
      Nat.mul_div_cancel_left (2 * c) (Nat.two_pow_pos k)]
  rw [Ico_eq_frames hdvd, hdiv]

/-- A block is its two halves. -/
theorem mem_frames_succ :
    n ∈ frames (k + 1) i ↔ n ∈ frames k (2 * i) ∨ n ∈ frames k (2 * i + 1) := by
  rw [mem_frames, mem_frames, mem_frames, pow_succ, ← Nat.div_div_eq_div_mul]
  omega

theorem upper_subset (k i : ℕ) : frames k (2 * i + 1) ⊆ frames (k + 1) i :=
  fun _ hn => mem_frames_succ.mpr (.inr hn)

/-- The halves have no frame in common. -/
theorem disjoint_halves (k i : ℕ) : Disjoint (frames k (2 * i)) (frames k (2 * i + 1)) := by
  refine Finset.disjoint_left.mpr fun n hlower hupper => ?_
  rw [mem_frames] at hlower hupper
  omega

theorem upper_nonempty (k i : ℕ) : (2 * i + 1) * 2 ^ k ∈ frames k (2 * i + 1) :=
  mem_frames.mpr (Nat.mul_div_cancel _ (Nat.two_pow_pos k))

/-! ## Without the second halves -/

/-- The second halves of the blocks `T` of order `h + 1`. -/
def upperHalves (h : ℕ) (T : Finset ℕ) : Finset ℕ := T.biUnion fun t => frames h (2 * t + 1)

variable {h t : ℕ} {T : Finset ℕ}

theorem mem_upperHalves : n ∈ upperHalves h T ↔ ∃ t ∈ T, n ∈ frames h (2 * t + 1) := by
  rw [upperHalves, Finset.mem_biUnion]

/-- **One half is enough**: a larger block that meets the block contains both halves. -/
theorem disjoint_of_disjoint_upper (hk : h < k)
    (hupper : Disjoint (frames k j) (frames h (2 * t + 1))) :
    Disjoint (frames k j) (frames (h + 1) t) := by
  refine Finset.disjoint_right.mpr fun n hblock hn => ?_
  have hsubset := frames_subset hk hblock hn
  have hfirst := upper_nonempty h t
  exact Finset.disjoint_right.mp hupper hfirst (hsubset (upper_subset h t hfirst))

/-- A block that is no larger than the halves lies in one of them, or apart. -/
theorem disjoint_or_subset_lower (hk : k ≤ h)
    (hupper : Disjoint (frames k j) (frames h (2 * t + 1))) :
    Disjoint (frames k j) (frames (h + 1) t) ∨ frames k j ⊆ frames h (2 * t) := by
  refine or_iff_not_imp_left.mpr fun hmeet => ?_
  obtain ⟨n, hn, hblock⟩ := Finset.not_disjoint_iff.mp hmeet
  rcases mem_frames_succ.mp hblock with hlower | hhigh
  · exact frames_subset hk hn hlower
  · exact absurd hhigh (Finset.disjoint_left.mp hupper hn)

/-- **What can be joined without the second halves** of some blocks: a block with no frame of
theirs, or a part of a first half. -/
theorem disjoint_upperHalves_iff : Disjoint (frames k j) (upperHalves h T) ↔
    ∀ t ∈ T, Disjoint (frames k j) (frames (h + 1) t) ∨
      k < h + 1 ∧ frames k j ⊆ frames h (2 * t) := by
  rw [upperHalves, Finset.disjoint_biUnion_right]
  refine forall₂_congr fun t _ => ⟨fun hupper => ?_, ?_⟩
  · rcases lt_or_ge h k with hk | hk
    · exact .inl (disjoint_of_disjoint_upper hk hupper)
    · exact (disjoint_or_subset_lower hk hupper).imp_right (And.intro (Nat.lt_succ_of_le hk))
  · rintro (hapart | ⟨-, hlower⟩)
    · exact hapart.mono_right (upper_subset h t)
    · exact (disjoint_halves h t).mono_left hlower

end Buddy

end KernelModules
