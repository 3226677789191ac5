import KernelModules.UserMemory
import Mathlib.Data.Set.Finite.Lattice
import Mathlib.Order.WellFounded

/-!
# Reading a file until the end

A user reads an open file again and again, until a read returns 0. What a call does is a function
of the state and of what the user asks for; it returns the next state and what the user gets.

* `Session` — infinitely many calls in a row; a loop is the part of it up to the first 0;
* `Session.received`, `Session.EndsAt` — what the user has got so far, and where the loop ends;
* `Session.nonempty` — there is a session if every call has a result;
* `Session.invariant` — what every call preserves holds throughout;
* `Session.exists_endsAt` — the loop ends if every call that returns more than 0 makes a measure
  smaller and only finitely many calls fail.
-/

namespace KernelModules

variable {σ κ : Type*}

/-- The calls of a user who goes on reading. -/
structure Session (read : σ → κ → Option (σ × Ret)) (s₀ : σ) (calls : ℕ → κ) where
  /-- the state before each call -/
  state : ℕ → σ
  /-- what each call returns -/
  ret : ℕ → Ret
  /-- the first state -/
  start : state 0 = s₀
  /-- one call after the other -/
  step : ∀ n, read (state n) (calls n) = some (state (n + 1), ret n)

namespace Session

variable {read : σ → κ → Option (σ × Ret)} {s₀ : σ} {calls : ℕ → κ}

/-- What the first `n` calls have stored. -/
def received (S : Session read s₀ calls) : ℕ → List UInt8
  | 0 => []
  | n + 1 => S.received n ++ (S.ret n).out

/-- Call `n` is the first that returns 0. -/
def EndsAt (S : Session read s₀ calls) (n : ℕ) : Prop :=
  (S.ret n).code = 0 ∧ ∀ k < n, (S.ret k).code ≠ 0

theorem invariant (S : Session read s₀ calls) {I : σ → List UInt8 → Prop} (h₀ : I s₀ [])
    (hstep : ∀ n {s s' : σ} {r : Ret} {out : List UInt8}, I s out →
      read s (calls n) = some (s', r) → I s' (out ++ r.out)) (n : ℕ) :
    I (S.state n) (S.received n) := by
  induction n with
  | zero =>
    rw [S.start]
    exact h₀
  | succ n ih => exact hstep n ih (S.step n)

/-- A session, built call by call. -/
theorem nonempty (hread : ∀ n s, ∃ s' r, read s (calls n) = some (s', r)) :
    Nonempty (Session read s₀ calls) := by
  choose next result hread using hread
  let states : ℕ → σ := Nat.rec s₀ next
  exact ⟨states, fun n => result n (states n), rfl, fun n => hread n (states n)⟩

/-- Where there is a call that returns 0 there is a first one. -/
theorem endsAt_of_code_eq_zero (S : Session read s₀ calls) (h : ∃ n, (S.ret n).code = 0) :
    ∃ n, S.EndsAt n :=
  ⟨Nat.find h, Nat.find_spec h, fun _ hk => Nat.find_min h hk⟩

theorem exists_endsAt (S : Session read s₀ calls) (μ : σ → ℕ)
    (hprogress : ∀ n, 0 < (S.ret n).code → μ (S.state (n + 1)) < μ (S.state n))
    (hfin : {n | (S.ret n).code < 0}.Finite) : ∃ n, S.EndsAt n := by
  apply S.endsAt_of_code_eq_zero
  by_contra! hne
  -- after the last failure every call makes progress
  obtain ⟨N, hN⟩ := hfin.bddAbove
  have hlt : ∀ n, μ (S.state (N + 1 + (n + 1))) < μ (S.state (N + 1 + n)) := by
    intro n
    have hnonneg : ¬(S.ret (N + 1 + n)).code < 0 := by
      intro hneg
      have := hN hneg
      omega
    exact hprogress _ (lt_of_le_of_ne (not_lt.mp hnonneg) (hne _).symm)
  obtain ⟨n, hn⟩ := WellFounded.not_rel_apply_succ (r := (· < ·)) fun n => μ (S.state (N + 1 + n))
  exact hn (hlt n)

end Session

end KernelModules
