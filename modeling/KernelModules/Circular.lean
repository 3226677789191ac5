import Mathlib.Data.Nat.ModEq
import Mathlib.Logic.Function.Basic

/-!
# Circular windows

What a ring buffer holds: the `n` cells in ring order from a start slot, in a
ring of `cap` slots. The ring is any function from slots to cells, so the same
lemmas serve a ring that keeps a length, one that keeps two cursors only, and
ghost rings laid over a real one.

* `window_concat` / `window_cons` — the window grows at its end and shrinks at
  its front by one cell;
* `window_push` — writing the slot just past the end appends the written cell
  and disturbs nothing (`slot_ne`: the slots of a window that does not fill
  the ring are distinct).
-/

namespace KernelModules

universe u

namespace Circular

variable {α : Type u}

/-- The `n` cells from slot `start` on, in ring order. -/
def window (cells : ℕ → α) (cap start n : ℕ) : List α :=
  (List.range n).map fun i => cells ((start + i) % cap)

@[simp] theorem length_window (cells : ℕ → α) (cap start n : ℕ) :
    (window cells cap start n).length = n := by
  simp [window]

/-- A window grows by the cell just past its end. -/
theorem window_concat (cells : ℕ → α) (cap start n : ℕ) :
    window cells cap start (n + 1) =
      window cells cap start n ++ [cells ((start + n) % cap)] := by
  simp [window, List.range_succ]

/-- A window is its first cell and the window from the next slot. -/
theorem window_cons {cap start : ℕ} (hs : start < cap) (cells : ℕ → α) (n : ℕ) :
    window cells cap start (n + 1) =
      cells start :: window cells cap ((start + 1) % cap) n := by
  simp only [window, List.range_succ_eq_map, List.map_cons, List.map_map, Nat.add_zero]
  rw [Nat.mod_eq_of_lt hs]
  congr 1
  apply List.map_congr_left
  intro i _
  have hshift : start + (i + 1) = start + 1 + i := by omega
  simp [Function.comp, hshift]

/-- Two rings that agree on the slots of a window show the same window. -/
theorem window_congr {cells cells' : ℕ → α} {cap start n : ℕ}
    (h : ∀ i < n, cells ((start + i) % cap) = cells' ((start + i) % cap)) :
    window cells cap start n = window cells' cap start n :=
  List.map_congr_left fun i hi => h i (List.mem_range.mp hi)

/-- Slots at different distances from the start, less than a lap apart, are
different slots. -/
theorem slot_ne {cap start i n : ℕ} (hi : i < n) (hn : n < cap) :
    (start + i) % cap ≠ (start + n) % cap := by
  intro h
  have hmod : i ≡ n [MOD cap] := Nat.ModEq.add_left_cancel' start h
  have heq : i = n := hmod.eq_of_lt_of_lt (hi.trans hn) hn
  omega

/-- **Push**: writing the slot just past the end of a window that does not
fill the ring appends the written cell. -/
theorem window_push {cap n : ℕ} (hn : n < cap) (cells : ℕ → α) (start : ℕ) (x : α) :
    window (Function.update cells ((start + n) % cap) x) cap start (n + 1) =
      window cells cap start n ++ [x] := by
  rw [window_concat, Function.update_self]
  congr 1
  apply window_congr
  intro i hi
  exact Function.update_of_ne (slot_ne hi hn) x cells

end Circular

end KernelModules
