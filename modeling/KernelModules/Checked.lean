import Mathlib.Algebra.Ring.Int.Defs
import Mathlib.Algebra.Ring.Nat

/-!
# Checked machine arithmetic

Machine words stand for numbers as long as no operation overflows. An operation is checked by
comparing its result with the exact one; a computation that gets through has used plain
operations only, and has computed exactly.

* `add32`, `sub32`, `add64`, `sub64`, `mul64`, `div64` — the checked operations;
* `Agrees` — what a checked computation returns is the plain result, if anything;
* `Yields` — it returns something, and that is the exact result;
* `Yields.foldlM` — a loop that adds up.
-/

namespace KernelModules

namespace Checked

universe u v w

/-! ## The operations -/

/-- `a + b` on `int` -/
def add32 (a b : Int32) : Option Int32 :=
  if (a + b).toInt = a.toInt + b.toInt then some (a + b) else none

/-- `a - b` on `int` -/
def sub32 (a b : Int32) : Option Int32 :=
  if (a - b).toInt = a.toInt - b.toInt then some (a - b) else none

/-- `a + b` on `u64` -/
def add64 (a b : UInt64) : Option UInt64 :=
  if (a + b).toNat = a.toNat + b.toNat then some (a + b) else none

/-- `a - b` on `u64` -/
def sub64 (a b : UInt64) : Option UInt64 :=
  if (a - b).toNat + b.toNat = a.toNat then some (a - b) else none

/-- `a * b` on `u64` -/
def mul64 (a b : UInt64) : Option UInt64 :=
  if (a * b).toNat = a.toNat * b.toNat then some (a * b) else none

/-- `a / b` on `u64` -/
def div64 (a b : UInt64) : Option UInt64 := if b = 0 then none else some (a / b)

/-! ## What is returned is the plain result -/

section Agrees

variable {α β : Type u}

/-- Whatever `m` returns is `x`. -/
def Agrees (m : Option α) (x : α) : Prop := ∀ y, m = some y → y = x

theorem Agrees.some (x : α) : Agrees (some x) x := fun _ h => (Option.some.inj h).symm

theorem Agrees.none (x : α) : Agrees none x := fun _ h => by cases h

theorem Agrees.ite {p : Prop} [Decidable p] (x : α) :
    Agrees (if p then Option.some x else Option.none) x := by
  split
  · exact .some x
  · exact .none x

theorem Agrees.bind {m : Option α} {x : α} {f : α → Option β} {z : β} (hm : Agrees m x)
    (hf : Agrees (f x) z) : Agrees (m >>= f) z := by
  intro y hy
  obtain ⟨x', hx', hz⟩ := Option.bind_eq_some_iff.mp hy
  obtain rfl := hm x' hx'
  exact hf y hz

/-- A loop of checked steps is the loop of the plain ones. -/
theorem Agrees.foldlM {ι : Type v} {f : α → ι → Option α} {g : α → ι → α}
    (hf : ∀ a i, Agrees (f a i) (g a i)) (is : List ι) (a : α) :
    Agrees (is.foldlM f a) (is.foldl g a) := by
  induction is generalizing a with
  | nil => exact .some a
  | cons i is ih =>
    rw [List.foldlM_cons, List.foldl_cons]
    exact (hf a i).bind (ih _)

end Agrees

theorem agrees_add32 (a b : Int32) : Agrees (add32 a b) (a + b) := .ite _

theorem agrees_sub32 (a b : Int32) : Agrees (sub32 a b) (a - b) := .ite _

theorem agrees_add64 (a b : UInt64) : Agrees (add64 a b) (a + b) := .ite _

theorem agrees_sub64 (a b : UInt64) : Agrees (sub64 a b) (a - b) := .ite _

theorem agrees_mul64 (a b : UInt64) : Agrees (mul64 a b) (a * b) := .ite _

theorem agrees_div64 (a b : UInt64) : Agrees (div64 a b) (a / b) := by
  rw [div64]
  split
  · exact .none _
  · exact .some _

/-! ## What is returned is the exact result -/

section Yields

variable {α β : Type u} {ν μ : Type w} {value : α → ν} {value' : β → μ}

/-- `m` returns something, and that stands for `n`. -/
def Yields (value : α → ν) (m : Option α) (n : ν) : Prop := ∃ x, m = some x ∧ value x = n

theorem Yields.some {x : α} {n : ν} (h : value x = n) : Yields value (some x) n := ⟨x, rfl, h⟩

theorem Yields.bind {m : Option α} {n : ν} {f : α → Option β} {k : μ} (hm : Yields value m n)
    (hf : ∀ x, value x = n → Yields value' (f x) k) : Yields value' (m >>= f) k := by
  obtain ⟨x, rfl, hx⟩ := hm
  exact hf x hx

/-- **A loop that adds up** does so exactly if each step does as long as the sum is within a
bound, and the whole sum is. -/
theorem Yields.foldlM {ι : Type v} {value : α → ℕ} {f : α → ι → Option α} {g : ι → ℕ}
    {bound : ℕ} {is : List ι}
    (hf : ∀ a, ∀ i ∈ is, value a + g i ≤ bound → Yields value (f a i) (value a + g i)) {a : α}
    (hsum : value a + (is.map g).sum ≤ bound) :
    Yields value (is.foldlM f a) (value a + (is.map g).sum) := by
  induction is generalizing a with
  | nil => exact .some rfl
  | cons i is ih =>
    rw [List.map_cons, List.sum_cons, ← Nat.add_assoc] at hsum ⊢
    rw [List.foldlM_cons]
    refine (hf a i List.mem_cons_self (Nat.le_of_add_right_le hsum)).bind fun x hx => ?_
    rw [← hx] at hsum ⊢
    exact ih (fun a j hj => hf a j (List.mem_cons_of_mem i hj)) hsum

end Yields

/-- A computation that agrees with `x` and yields `n` returns `x`, and `x` stands for `n`. -/
theorem Agrees.exact {α : Type u} {ν : Type w} {value : α → ν} {m : Option α} {x : α} {n : ν}
    (hx : Agrees m x) (hn : Yields value m n) : m = Option.some x ∧ value x = n := by
  obtain ⟨y, hy, hvalue⟩ := hn
  obtain rfl := hx y hy
  exact ⟨hy, hvalue⟩

theorem yields_add32 {a b : Int32} (hle : -2 ^ 31 ≤ a.toInt + b.toInt)
    (hlt : a.toInt + b.toInt < 2 ^ 31) :
    Yields Int32.toInt (add32 a b) (a.toInt + b.toInt) := by
  have hexact : (a + b).toInt = a.toInt + b.toInt := by
    rw [Int32.toInt_add]
    exact Int.bmod_eq_of_le (by omega) (by omega)
  rw [add32, if_pos hexact]
  exact .some hexact

theorem yields_sub32 {a b : Int32} (hle : -2 ^ 31 ≤ a.toInt - b.toInt)
    (hlt : a.toInt - b.toInt < 2 ^ 31) :
    Yields Int32.toInt (sub32 a b) (a.toInt - b.toInt) := by
  have hexact : (a - b).toInt = a.toInt - b.toInt := by
    rw [Int32.toInt_sub]
    exact Int.bmod_eq_of_le (by omega) (by omega)
  rw [sub32, if_pos hexact]
  exact .some hexact

theorem yields_add64 {a b : UInt64} (h : a.toNat + b.toNat < 2 ^ 64) :
    Yields UInt64.toNat (add64 a b) (a.toNat + b.toNat) := by
  have hexact : (a + b).toNat = a.toNat + b.toNat := by
    rw [UInt64.toNat_add, Nat.mod_eq_of_lt h]
  rw [add64, if_pos hexact]
  exact .some hexact

theorem yields_sub64 {a b : UInt64} (h : b.toNat ≤ a.toNat) :
    Yields UInt64.toNat (sub64 a b) (a.toNat - b.toNat) := by
  have hexact : (a - b).toNat = a.toNat - b.toNat :=
    UInt64.toNat_sub_of_le _ _ (UInt64.le_iff_toNat_le.mpr h)
  rw [sub64, if_pos (by rw [hexact, Nat.sub_add_cancel h])]
  exact .some hexact

theorem yields_mul64 {a b : UInt64} (h : a.toNat * b.toNat < 2 ^ 64) :
    Yields UInt64.toNat (mul64 a b) (a.toNat * b.toNat) := by
  have hexact : (a * b).toNat = a.toNat * b.toNat := by
    rw [UInt64.toNat_mul, Nat.mod_eq_of_lt h]
  rw [mul64, if_pos hexact]
  exact .some hexact

theorem yields_div64 {a b : UInt64} (h : 0 < b.toNat) :
    Yields UInt64.toNat (div64 a b) (a.toNat / b.toNat) := by
  have hb : b ≠ 0 := by
    rintro rfl
    exact absurd h (by decide)
  rw [div64, if_neg hb]
  exact .some (UInt64.toNat_div a b)

end Checked

end KernelModules
