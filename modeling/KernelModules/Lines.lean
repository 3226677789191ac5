import Mathlib.Data.Nat.Digits.Lemmas
import Mathlib.Data.List.Forall2
import Mathlib.Data.List.Infix

/-!
# Texts that are made of fields

What a `printf` puts out is read again field by field: each one has a label before it and ends
with a byte that it does not contain itself.

* `ascii` — the bytes of a text;
* `decimal`, `readDecimal` — a number, with its sign, and back (`readDecimal_decimal`);
* `Slot`, `print`, `scan` — a format, and **what has been printed is scanned** (`scan_print`),
  whatever follows it;
* `scanAll` — one record after the other; **a log is read again** (`scanAll_filterMap`);
* `eq_of_append_eq` — the end of a text is known by the number of its line ends.
-/

namespace KernelModules

namespace Lines

/-- The bytes of a text. -/
def ascii (s : String) : List UInt8 := s.toList.map fun c => UInt8.ofNat c.toNat

/-! ## Numbers -/

/-- The byte of a digit. -/
def digit (d : ℕ) : UInt8 := UInt8.ofNat (48 + d)

/-- `"%u"` -/
def decimalNat (n : ℕ) : List UInt8 :=
  if n = 0 then [digit 0] else ((Nat.digits 10 n).map digit).reverse

/-- `"%d"` -/
def decimal : ℤ → List UInt8
  | .ofNat n => decimalNat n
  | .negSucc n => 45 :: decimalNat (n + 1)

/-- The number that some digits stand for. -/
def readNat (text : List UInt8) : ℕ := Nat.ofDigits 10 (text.reverse.map fun b => b.toNat - 48)

/-- The number, with its sign, that a text stands for. -/
def readDecimal : List UInt8 → ℤ
  | [] => 0
  | b :: text => if b = 45 then -readNat text else readNat (b :: text)

theorem toNat_digit {d : ℕ} (hd : d < 10) : (digit d).toNat = 48 + d := by
  rw [digit, UInt8.toNat_ofNat']
  omega

theorem readNat_decimalNat (n : ℕ) : readNat (decimalNat n) = n := by
  by_cases hn : n = 0
  · subst hn
    rfl
  · have hback : (Nat.digits 10 n).map (fun d => (digit d).toNat - 48) = Nat.digits 10 n := by
      conv_rhs => rw [← List.map_id (Nat.digits 10 n)]
      apply List.map_congr_left
      intro d hd
      rw [toNat_digit (Nat.digits_lt_base (by norm_num) hd)]
      exact Nat.add_sub_cancel_left ..
    rw [readNat, decimalNat, if_neg hn, List.reverse_reverse, List.map_map]
    exact (congrArg (Nat.ofDigits 10) hback).trans (Nat.ofDigits_digits 10 n)

/-- A number consists of digits. -/
theorem mem_decimalNat {n : ℕ} {b : UInt8} (h : b ∈ decimalNat n) :
    48 ≤ b.toNat ∧ b.toNat ≤ 57 := by
  by_cases hn : n = 0
  · rw [decimalNat, if_pos hn, List.mem_singleton] at h
    subst h
    decide
  · rw [decimalNat, if_neg hn, List.mem_reverse, List.mem_map] at h
    obtain ⟨d, hd, rfl⟩ := h
    have hlt := Nat.digits_lt_base (by norm_num) hd
    rw [toNat_digit hlt]
    omega

theorem decimalNat_ne_nil (n : ℕ) : decimalNat n ≠ [] := by
  by_cases hn : n = 0
  · simp [decimalNat, hn]
  · simp [decimalNat, hn, Nat.digits_ne_nil_iff_ne_zero]

/-- A number is read again as it was printed. -/
theorem readDecimal_decimal (z : ℤ) : readDecimal (decimal z) = z := by
  cases z with
  | ofNat n =>
    obtain ⟨b, text, htext⟩ := List.exists_cons_of_ne_nil (decimalNat_ne_nil n)
    have hb : b ≠ 45 := by
      rintro rfl
      have hmem := mem_decimalNat (n := n) (b := 45) (by rw [htext]; exact List.mem_cons_self)
      exact absurd hmem.1 (by decide)
    rw [decimal, htext, readDecimal, if_neg hb, ← htext, readNat_decimalNat]
    rfl
  | negSucc n =>
    rw [decimal, readDecimal, if_pos rfl, readNat_decimalNat]
    rfl

/-- A byte that is neither a digit nor a sign is not in a number. -/
theorem not_mem_decimal {z : ℤ} {b : UInt8} (h : b.toNat < 48 ∨ 57 < b.toNat) (hsign : b ≠ 45) :
    b ∉ decimal z := by
  intro hmem
  cases z with
  | ofNat n =>
    have := mem_decimalNat hmem
    omega
  | negSucc n =>
    obtain rfl | hmem := List.mem_cons.mp hmem
    · exact hsign rfl
    · have := mem_decimalNat hmem
      omega

theorem length_decimalNat_le {n k : ℕ} (hk : 0 < k) (hn : n < 10 ^ k) :
    (decimalNat n).length ≤ k := by
  by_cases hzero : n = 0
  · rw [decimalNat, if_pos hzero]
    exact hk
  · rw [decimalNat, if_neg hzero, List.length_reverse, List.length_map]
    exact (Nat.digits_length_le_iff (by norm_num) n).mpr hn

/-- How long a number can be. -/
theorem length_decimal_le {z : ℤ} {k : ℕ} (hk : 0 < k) (hz : |z| < 10 ^ k) :
    (decimal z).length ≤ k + 1 := by
  cases z with
  | ofNat n =>
    have hn : n < 10 ^ k := by
      have : (n : ℤ) < 10 ^ k := (le_abs_self _).trans_lt hz
      exact_mod_cast this
    exact (length_decimalNat_le hk hn).trans (Nat.le_succ k)
  | negSucc n =>
    have hn : n + 1 < 10 ^ k := by
      have : ((n + 1 : ℕ) : ℤ) < 10 ^ k := by
        rw [Int.negSucc_eq, abs_neg] at hz
        exact (le_abs_self _).trans_lt hz
      exact_mod_cast this
    exact Nat.succ_le_succ (length_decimalNat_le hk hn)

/-! ## Formats -/

/-- A field of a format: what stands before it, and the byte that ends it. -/
structure Slot where
  /-- what stands before it -/
  label : List UInt8
  /-- the byte that ends it -/
  stop : UInt8

/-- The fields in order, each with its label and its end. -/
def print : List Slot → List (List UInt8) → List UInt8
  | slot :: format, value :: values =>
    slot.label ++ (value ++ slot.stop :: print format values)
  | _, _ => []

/-- The fields of a text, and what is left of it. -/
def scan : List Slot → List UInt8 → Option (List (List UInt8) × List UInt8)
  | [], text => some ([], text)
  | slot :: format, text =>
    if slot.label <+: text then
      let text := text.drop slot.label.length
      match text.dropWhile (· != slot.stop) with
      | [] => none
      | _ :: rest => (scan format rest).map fun (values, rest) =>
        (text.takeWhile (· != slot.stop) :: values, rest)
    else none

/-- No field contains the byte that ends it. -/
def Fits (format : List Slot) (values : List (List UInt8)) : Prop :=
  List.Forall₂ (fun slot value => slot.stop ∉ value) format values

/-- What the byte ends is cut off before it. -/
theorem span_stop {stop : UInt8} {value : List UInt8} (h : stop ∉ value) (rest : List UInt8) :
    (value ++ stop :: rest).takeWhile (· != stop) = value ∧
      (value ++ stop :: rest).dropWhile (· != stop) = stop :: rest := by
  have hne : ∀ b ∈ value, (b != stop) = true := fun b hb => by
    rw [bne_iff_ne]
    rintro rfl
    exact h hb
  rw [List.takeWhile_append_of_pos hne, List.dropWhile_append_of_pos hne]
  simp

/-- **What has been printed is scanned**, and what follows is left. -/
theorem scan_print {format : List Slot} {values : List (List UInt8)} (h : Fits format values)
    (rest : List UInt8) : scan format (print format values ++ rest) = some (values, rest) := by
  induction h with
  | nil => rfl
  | @cons slot value format values hstop _ ih =>
    have htext : print (slot :: format) (value :: values) ++ rest =
        slot.label ++ (value ++ slot.stop :: (print format values ++ rest)) := by
      simp [print]
    obtain ⟨htake, hdrop⟩ := span_stop hstop (print format values ++ rest)
    rw [htext, scan, if_pos (List.prefix_append ..), List.drop_left]
    simp only [htake, hdrop, ih, Option.map_some]

/-! ## Records -/

variable {α : Type*}

/-- One record after the other, as many as there are in a text that is not too long. -/
def scanAll (record : List UInt8 → Option (α × List UInt8)) : ℕ → List UInt8 → Option (List α)
  | _, [] => some []
  | 0, _ => none
  | n + 1, text => match record text with
    | none => none
    | some (x, rest) => (scanAll record n rest).map (x :: ·)

theorem scanAll_succ {record : List UInt8 → Option (α × List UInt8)} {n : ℕ}
    {text rest : List UInt8} {x : α} (hne : text ≠ []) (hrecord : record text = some (x, rest)) :
    scanAll record (n + 1) text = (scanAll record n rest).map (x :: ·) := by
  obtain ⟨b, tail, rfl⟩ := List.exists_cons_of_ne_nil hne
  rw [scanAll, hrecord]
  exact List.cons_ne_nil _ _

/-- What can be scanned record by record can be scanned. -/
theorem scanAll_flatMap {record : List UInt8 → Option (α × List UInt8)} {put : α → List UInt8}
    {xs : List α} (hrecord : ∀ x ∈ xs, ∀ rest, record (put x ++ rest) = some (x, rest))
    (hne : ∀ x ∈ xs, put x ≠ []) {n : ℕ} (hn : xs.length ≤ n) :
    scanAll record n (xs.flatMap put) = some xs := by
  induction xs generalizing n with
  | nil => cases n <;> rfl
  | cons x xs ih =>
    cases n with
    | zero => cases hn
    | succ n =>
      have hx := hrecord x List.mem_cons_self (xs.flatMap put)
      have htext : put x ++ xs.flatMap put ≠ [] :=
        List.append_ne_nil_of_left_ne_nil (hne x List.mem_cons_self) _
      have hrest := ih (fun y hy => hrecord y (List.mem_cons_of_mem x hy))
        (fun y hy => hne y (List.mem_cons_of_mem x hy)) (Nat.le_of_succ_le_succ hn)
      rw [List.flatMap_cons, scanAll_succ htext hx, hrest]
      rfl

/-- **A log is read again**: events for which either nothing or one record is put out. -/
theorem scanAll_filterMap {ε : Type*} {record : List UInt8 → Option (α × List UInt8)}
    {put : α → List UInt8} {what : ε → Option α} {emit : ε → List UInt8}
    (hemit : ∀ e, emit e = (what e).toList.flatMap put)
    (hrecord : ∀ x rest, record (put x ++ rest) = some (x, rest)) (hne : ∀ x, put x ≠ [])
    (es : List ε) : scanAll record (es.flatMap emit).length (es.flatMap emit) =
      some (es.filterMap what) := by
  have hlog : es.flatMap emit = (es.filterMap what).flatMap put := by
    induction es with
    | nil => rfl
    | cons e es ih =>
      rw [List.flatMap_cons, ih, hemit, List.filterMap_cons]
      cases what e <;> simp
  have hlen : ∀ xs : List α, xs.length ≤ (xs.flatMap put).length := fun xs => by
    induction xs with
    | nil => exact le_rfl
    | cons x xs ih =>
      have hpos := List.length_pos_of_ne_nil (hne x)
      rw [List.flatMap_cons, List.length_append, List.length_cons]
      omega
  rw [hlog]
  exact scanAll_flatMap (fun x _ => hrecord x) (fun x _ => hne x) (hlen _)

/-! ## The end of a text -/

/-- Two ends of one text that start with the same byte and contain it as often are the same. -/
theorem eq_of_append_eq {s s' t t' : List UInt8} {b : UInt8}
    (h : s ++ b :: t = s' ++ b :: t') (hcount : t.count b = t'.count b) : s = s' ∧ t = t' := by
  obtain ⟨u, rfl, htail⟩ | ⟨u, rfl, htail⟩ := List.append_eq_append_iff.mp h
  · cases u with
    | nil => exact ⟨(List.append_nil s).symm, List.tail_eq_of_cons_eq htail⟩
    | cons c u =>
      have ht : t = u ++ b :: t' := List.tail_eq_of_cons_eq htail
      rw [ht, List.count_append, List.count_cons_self] at hcount
      omega
  · cases u with
    | nil => exact ⟨List.append_nil s', (List.tail_eq_of_cons_eq htail).symm⟩
    | cons c u =>
      have ht : t' = u ++ b :: t := List.tail_eq_of_cons_eq htail
      rw [ht, List.count_append, List.count_cons_self] at hcount
      omega

end Lines

end KernelModules
