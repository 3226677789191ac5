import KernelModules.Transition
import Mathlib.Data.Int.Notation
import Mathlib.Logic.Function.Basic

/-!
# `kbdmon_keylogger.c`

A key press becomes a character in `logbuf`; every ten seconds a timer prints what has
accumulated and starts over. The callback and the timer share `logbuf` and `logpos` without
a lock, so each is a short sequence of steps here, and the whole function is its steps one
after the other.

* `kbdmonEvent` — `eventTest`, then `Log.store`;
* `exfiltrate` — the test of `logpos`, then `Log.terminate` and the print, then
  `Log.reset`.
-/

namespace KernelModules

namespace Keylogger

/-! ## Characters -/

/-- `KEY_A` -/
def keyA : ℕ := 30
/-- `KEY_Z` -/
def keyZ : ℕ := 44
/-- `KEY_SPACE` -/
def keySpace : ℕ := 57
/-- `EV_KEY` -/
def evKey : ℕ := 1

/-- `key_to_char` -/
def keyToChar (code : ℕ) : UInt8 :=
  if keyA ≤ code ∧ code ≤ keyZ then UInt8.ofNat (97 + (code - keyA))
  else if code = keySpace then 32
  else 63

/-- No key is logged as the end of a string. -/
theorem keyToChar_ne_zero (code : ℕ) : keyToChar code ≠ 0 := by
  rw [keyToChar]
  by_cases hletter : keyA ≤ code ∧ code ≤ keyZ
  · rw [if_pos hletter]
    intro h
    have hnat := congrArg UInt8.toNat h
    rw [UInt8.toNat_ofNat'] at hnat
    simp only [keyA, keyZ] at hletter hnat
    change _ % 256 = 0 at hnat
    omega
  · rw [if_neg hletter]
    split <;> decide

/-! ## The log -/

/-- `LOG_SIZE` -/
def logSize : ℕ := 256

/-- `logbuf` and `logpos`. The memory goes on behind the array, so that a store outside it
has somewhere to go. -/
structure Log where
  /-- the memory from `logbuf` on -/
  logbuf : ℕ → UInt8
  /-- `logpos` -/
  logpos : ℕ

/-- Static storage is zeroed. -/
def Log.static : Log := ⟨fun _ => 0, 0⟩

/-- `logbuf[logpos++] = c` -/
def Log.store (l : Log) (c : UInt8) : Log :=
  ⟨Function.update l.logbuf l.logpos c, l.logpos + 1⟩

/-- `logbuf[logpos] = 0` -/
def Log.terminate (l : Log) : Log := { l with logbuf := Function.update l.logbuf l.logpos 0 }

/-- `logpos = 0` -/
def Log.reset (l : Log) : Log := { l with logpos := 0 }

/-- What `%s` prints: `logbuf` up to the first zero. -/
def Log.text (l : Log) : List UInt8 :=
  ((List.range logSize).map l.logbuf).takeWhile (· ≠ 0)

/-- `logbuf[0..logpos)` -/
def Log.pending (l : Log) : List UInt8 := (List.range l.logpos).map l.logbuf

/-- `kbdmon_event` up to and including its test: the character it is going to store. -/
def eventTest (type code : ℕ) (value : ℤ) (l : Log) : Option UInt8 :=
  if type ≠ evKey ∨ value ≠ 1 then none
  else if l.logpos < logSize - 1 then some (keyToChar code)
  else none

/-- An event that passes the test found room for its character and the terminator. -/
theorem logpos_lt_of_eventTest {type code : ℕ} {value : ℤ} {l : Log}
    (h : eventTest type code value l ≠ none) : l.logpos < logSize - 1 := by
  rw [eventTest] at h
  by_contra hfull
  rw [if_neg hfull, ite_self] at h
  exact h rfl

/-- `kbdmon_event` -/
def kbdmonEvent (type code : ℕ) (value : ℤ) (l : Log) : Log :=
  match eventTest type code value l with
  | some c => l.store c
  | none => l

/-- `exfiltrate`, but for the timer it arms again: the log behind it and what it prints. -/
def exfiltrate (l : Log) : Log × List (List UInt8) :=
  if l.logpos > 0 then (l.terminate.reset, [l.terminate.text]) else (l, [])

/-- Where `exfiltrate` is. -/
inductive TimerPc where
  /-- the timer is armed -/
  | idle
  /-- `logpos > 0` was true -/
  | passed
  /-- the terminator is stored and the log printed -/
  | stored
  deriving DecidableEq

/-! ## What the steps do to the log -/

/-- A stored character joins the back. -/
theorem Log.pending_store (l : Log) (c : UInt8) : (l.store c).pending = l.pending ++ [c] := by
  have hfront : (List.range l.logpos).map (l.store c).logbuf = l.pending := by
    refine List.map_congr_left fun i hi => ?_
    exact Function.update_of_ne (Nat.ne_of_lt (List.mem_range.mp hi)) ..
  have hback : (l.store c).logbuf l.logpos = c := Function.update_self ..
  have hpos : (l.store c).logpos = l.logpos + 1 := rfl
  rw [pending, hpos, List.range_succ, List.map_append, hfront, List.map_singleton, hback]

/-- Terminating changes nothing in front of `logpos`. -/
@[simp] theorem Log.pending_terminate (l : Log) : l.terminate.pending = l.pending := by
  refine List.map_congr_left fun i hi => ?_
  exact Function.update_of_ne (Nat.ne_of_lt (List.mem_range.mp hi)) ..

/-- **What is printed** is what was pending, if no character is zero and the terminator is
inside the array. -/
theorem Log.text_terminate {l : Log} (hpos : l.logpos < logSize)
    (hchars : ∀ c ∈ l.pending, c ≠ 0) : l.terminate.text = l.pending := by
  obtain ⟨rest, hrest⟩ : ∃ rest, List.range logSize = List.range l.logpos ++ l.logpos :: rest := by
    refine ⟨List.range' (l.logpos + 1) (logSize - (l.logpos + 1)), ?_⟩
    have hlen : logSize = l.logpos + (logSize - (l.logpos + 1) + 1) := by omega
    rw [← List.range'_succ, List.range_eq_range', List.range_eq_range']
    conv_lhs => rw [hlen, ← List.range'_append_1, Nat.zero_add]
  have hzero : l.terminate.logbuf l.logpos = 0 := Function.update_self ..
  have hsplit : (List.range logSize).map l.terminate.logbuf =
      l.pending ++ 0 :: rest.map l.terminate.logbuf := by
    rw [hrest, List.map_append, List.map_cons, hzero, ← l.pending_terminate]
    rfl
  rw [text, hsplit, List.takeWhile_append_of_pos]
  · exact List.append_nil _
  · intro c hc
    exact decide_eq_true (hchars c hc)

end Keylogger

end KernelModules
