import Mathlib.Algebra.Order.Ring.Nat

/-!
# A counter of ticks that wraps around

A clock that counts ticks in a fixed number of bits and starts anywhere. Two of its values are
compared by the sign of their difference, which is right as long as they are less than half a turn
apart (`timeAfter_counter`).
-/

namespace KernelModules

namespace Jiffies

variable {w : ℕ}

/-- What the counter shows `n` ticks after it has shown `boot`. -/
def counter (boot : BitVec w) (n : ℕ) : BitVec w := boot + BitVec.ofNat w n

/-- `time_after(a, b)`: `(long)((b) - (a)) < 0` -/
def timeAfter (a b : BitVec w) : Bool := (b - a).slt 0

theorem counter_add (boot : BitVec w) (n m : ℕ) :
    counter boot n + BitVec.ofNat w m = counter boot (n + m) := by
  rw [counter, counter, BitVec.add_assoc, BitVec.ofNat_add]

/-- **Half a turn**: whenever the counter wraps around, the comparison is that of the ticks that
have passed. -/
theorem timeAfter_counter (boot : BitVec w) {t d : ℕ} (ht : t ≤ d + 2 ^ (w - 1))
    (hd : d < t + 2 ^ (w - 1)) (hw : 0 < w) :
    timeAfter (counter boot t) (counter boot d) = true ↔ d < t := by
  obtain ⟨v, rfl⟩ : ∃ v, w = v + 1 := ⟨w - 1, by omega⟩
  rw [Nat.add_sub_cancel] at ht hd
  have hpow : 2 ^ (v + 1) = 2 ^ v + 2 ^ v := by rw [pow_succ, mul_two]
  have hpos : 0 < 2 ^ v := Nat.two_pow_pos v
  have hsign : ∀ x : BitVec (v + 1), x.slt 0 = true ↔ 2 ^ v ≤ x.toNat := by
    intro x
    rw [BitVec.ofNat_eq_ofNat, BitVec.slt_zero_eq_msb, BitVec.msb_eq_decide, decide_eq_true_eq,
      Nat.add_sub_cancel]
  rw [timeAfter, hsign]
  rcases Nat.lt_or_ge d t with hlt | hge
  · -- the difference is negative, at most half a turn
    obtain ⟨k, rfl⟩ := Nat.exists_eq_add_of_lt hlt
    have hneg : counter boot d - counter boot (d + k + 1) =
        -BitVec.ofNat (v + 1) (k + 1) := by
      rw [Nat.add_assoc, ← counter_add, BitVec.sub_eq_add_neg, BitVec.neg_add,
        BitVec.sub_eq_add_neg, ← BitVec.add_assoc, BitVec.add_right_neg, BitVec.zero_add]
    have hk : (k + 1) % 2 ^ (v + 1) = k + 1 := Nat.mod_eq_of_lt (by omega)
    rw [hneg, BitVec.toNat_neg, BitVec.toNat_ofNat, hk, Nat.mod_eq_of_lt (by omega)]
    omega
  · obtain ⟨k, rfl⟩ := Nat.exists_eq_add_of_le hge
    have hdiff : counter boot (t + k) - counter boot t = BitVec.ofNat (v + 1) k := by
      rw [← counter_add, BitVec.add_comm, BitVec.add_sub_cancel]
    rw [hdiff, BitVec.toNat_ofNat, Nat.mod_eq_of_lt (by omega)]
    omega

end Jiffies

end KernelModules
