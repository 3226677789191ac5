import KernelModules.Checked

/-!
# Checked computations compared

Two runs of one computation on different inputs, side by side. Where both get through, their
results are related as the inputs were: no overflow breaks the order of machine words.

* `Relates` — what two computations return is related, if both return something;
* `Relates.bind`, `Relates.foldlM` — through a sequence, and through a loop;
* `relates_sub32`, `relates_add64`, `relates_mul64`, `relates_div64` — the checked operations
  and the order.
-/

namespace KernelModules

namespace Checked

section Relates

universe u v w

variable {α α' : Type u} {β β' : Type v}

/-- Whatever `m` and `n` return is related by `r`. -/
def Relates (r : α → β → Prop) (m : Option α) (n : Option β) : Prop :=
  ∀ a b, m = some a → n = some b → r a b

variable {r : α → β → Prop} {r' : α' → β' → Prop}

theorem Relates.some {a : α} {b : β} (h : r a b) : Relates r (some a) (some b) := by
  rintro _ _ ⟨⟩ ⟨⟩
  exact h

theorem Relates.swap {m : Option α} {n : Option β} (h : Relates r m n) :
    Relates (fun b a => r a b) n m := fun b a hb ha => h a b ha hb

theorem Relates.bind {m : Option α} {n : Option β} {f : α → Option α'} {g : β → Option β'}
    (hm : Relates r m n) (hf : ∀ a b, r a b → Relates r' (f a) (g b)) :
    Relates r' (m >>= f) (n >>= g) := by
  intro a' b' ha' hb'
  obtain ⟨a, ha, hfa⟩ := Option.bind_eq_some_iff.mp ha'
  obtain ⟨b, hb, hgb⟩ := Option.bind_eq_some_iff.mp hb'
  exact hf a b (hm a b ha hb) a' b' hfa hgb

/-- Two loops over the same list whose steps keep the results related. -/
theorem Relates.foldlM {ι : Type w} {f : α → ι → Option α} {g : β → ι → Option β} {is : List ι}
    (hf : ∀ a b, r a b → ∀ i ∈ is, Relates r (f a i) (g b i)) {a : α} {b : β} (h : r a b) :
    Relates r (is.foldlM f a) (is.foldlM g b) := by
  induction is generalizing a b with
  | nil => exact .some h
  | cons i is ih =>
    rw [List.foldlM_cons, List.foldlM_cons]
    refine (hf a b h i List.mem_cons_self).bind fun a' b' h' => ?_
    exact ih (fun a b h j hj => hf a b h j (List.mem_cons_of_mem i hj)) h'

end Relates

/-! ## What a checked operation returns -/

theorem toInt_of_sub32 {a b d : Int32} (h : sub32 a b = some d) :
    d.toInt = a.toInt - b.toInt := by
  obtain ⟨hexact, hd⟩ := Option.ite_none_right_eq_some.mp h
  obtain rfl := Option.some.inj hd
  exact hexact

theorem toNat_of_add64 {a b d : UInt64} (h : add64 a b = some d) :
    d.toNat = a.toNat + b.toNat := by
  obtain ⟨hexact, hd⟩ := Option.ite_none_right_eq_some.mp h
  obtain rfl := Option.some.inj hd
  exact hexact

theorem toNat_of_sub64 {a b d : UInt64} (h : sub64 a b = some d) :
    d.toNat + b.toNat = a.toNat := by
  obtain ⟨hexact, hd⟩ := Option.ite_none_right_eq_some.mp h
  obtain rfl := Option.some.inj hd
  exact hexact

theorem toNat_of_mul64 {a b d : UInt64} (h : mul64 a b = some d) :
    d.toNat = a.toNat * b.toNat := by
  obtain ⟨hexact, hd⟩ := Option.ite_none_right_eq_some.mp h
  obtain rfl := Option.some.inj hd
  exact hexact

theorem toNat_of_div64 {a b d : UInt64} (h : div64 a b = some d) :
    b.toNat ≠ 0 ∧ d.toNat = a.toNat / b.toNat := by
  obtain ⟨hpos, hd⟩ := Option.ite_none_left_eq_some.mp h
  obtain rfl := Option.some.inj hd
  exact ⟨fun hzero => hpos (UInt64.toNat_inj.mp hzero), UInt64.toNat_div a b⟩

/-! ## The order of machine words -/

theorem relates_sub32 {a a' : Int32} (b : Int32) (h : a ≤ a') :
    Relates (· ≤ ·) (sub32 a b) (sub32 a' b) := by
  intro d d' hd hd'
  have hle := Int32.le_iff_toInt_le.mp h
  rw [Int32.le_iff_toInt_le, toInt_of_sub32 hd, toInt_of_sub32 hd']
  exact Int.sub_le_sub_right hle _

theorem relates_sub64 {a a' b b' : UInt64}
    (h : (a.toNat : ℤ) - b.toNat ≤ (a'.toNat : ℤ) - b'.toNat) :
    Relates (· ≤ ·) (sub64 a b) (sub64 a' b') := by
  intro d d' hd hd'
  have hexact := toNat_of_sub64 hd
  have hexact' := toNat_of_sub64 hd'
  rw [UInt64.le_iff_toNat_le]
  omega

theorem relates_add64 {a a' b b' : UInt64} (ha : a ≤ a') (hb : b ≤ b') :
    Relates (· ≤ ·) (add64 a b) (add64 a' b') := by
  intro d d' hd hd'
  rw [UInt64.le_iff_toNat_le] at ha hb ⊢
  rw [toNat_of_add64 hd, toNat_of_add64 hd']
  exact Nat.add_le_add ha hb

theorem relates_mul64 {a a' b b' : UInt64} (ha : a ≤ a') (hb : b ≤ b') :
    Relates (· ≤ ·) (mul64 a b) (mul64 a' b') := by
  intro d d' hd hd'
  rw [UInt64.le_iff_toNat_le] at ha hb ⊢
  rw [toNat_of_mul64 hd, toNat_of_mul64 hd']
  exact Nat.mul_le_mul ha hb

/-- A quotient grows with its dividend and shrinks as its divisor grows. -/
theorem relates_div64 {a a' b b' : UInt64} (ha : a ≤ a') (hb : b' ≤ b) :
    Relates (· ≤ ·) (div64 a b) (div64 a' b') := by
  intro d d' hd hd'
  obtain ⟨-, hexact⟩ := toNat_of_div64 hd
  obtain ⟨hpos, hexact'⟩ := toNat_of_div64 hd'
  rw [UInt64.le_iff_toNat_le] at ha hb ⊢
  rw [hexact, hexact']
  exact Nat.div_le_div ha hb hpos

end Checked

end KernelModules
