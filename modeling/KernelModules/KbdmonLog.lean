import KernelModules.KbdmonSequence
import KernelModules.KeyloggerText
import KernelModules.Lines

/-!
# The log of `kbdmon.c`

`kbdmon_event` prints a line for each key event it knows. The lines are all there is of the
events afterwards, so they have to say which events there were.

* `kbdmonEvent` — the callback, with the line it prints;
* `readRecord` — a line is read again;
* `readLog_log` — **the log says which keys have been pressed, held and released**, in order, and
  nothing else.
-/

namespace KernelModules

namespace KbdmonLog

open Lines
open Keylogger (keyNames keyName)
open KbdmonSequence (evKey KeyAction)

/-! ## The callback -/

/-- An event, as it gets to the callback. -/
structure InputEvent where
  /-- `type` -/
  type : ℕ
  /-- `code` -/
  code : ℕ
  /-- `value` -/
  value : ℤ

/-- What stands before the code. -/
def label : KeyAction → List UInt8
  | .release => ascii "[kbdmon] RELEASE  code="
  | .press => ascii "[kbdmon] PRESS    code="
  | .autorepeat => ascii "[kbdmon] REPEAT   code="

/-- `"..code=%u key=%s\n"` -/
def lineFormat (action : KeyAction) : List Slot := [⟨label action, 32⟩, ⟨ascii "key=", 10⟩]

/-- The line for an event that is known -/
def line (action : KeyAction) (code : ℕ) : List UInt8 :=
  print (lineFormat action) [decimalNat code, ascii (keyName code)]

/-- `kbdmon_event`: what it prints. -/
def kbdmonEvent (e : InputEvent) : List UInt8 :=
  if e.type ≠ evKey then []
  else if e.value = 0 then line .release e.code
  else if e.value = 1 then line .press e.code
  else if e.value = 2 then line .autorepeat e.code
  else []

/-- The log after some events -/
def log (events : List InputEvent) : List UInt8 := events.flatMap kbdmonEvent

/-! ## Reading it -/

/-- What a line says. -/
structure Record where
  /-- what the key does -/
  action : KeyAction
  /-- which key it is -/
  code : ℕ
  deriving DecidableEq

/-- A line, and what follows it. -/
def readRecord (text : List UInt8) : Option (Record × List UInt8) :=
  [KeyAction.release, .press, .autorepeat].findSome? fun action =>
    match scan (lineFormat action) text with
    | some ([code, _], rest) => some (⟨action, readNat code⟩, rest)
    | _ => none

/-- The records of a log; there are no more of them than bytes. -/
def readLog (text : List UInt8) : Option (List Record) := scanAll readRecord text.length text

/-- What there is to be said of an event: the key does what has this value. -/
def InputEvent.record (e : InputEvent) : Option Record :=
  if e.type = evKey then
    ([KeyAction.release, .press, .autorepeat].find? fun action => action.value == e.value).map
      (⟨·, e.code⟩)
  else none

/-! ## The lines are told apart -/

/-- No name contains a line end. -/
theorem newline_not_mem_keyName (code : ℕ) : (10 : UInt8) ∉ ascii (keyName code) := by
  have hnames : ∀ p ∈ keyNames, (10 : UInt8) ∉ ascii p.2 := by decide +kernel
  rw [keyName]
  cases hlookup : keyNames.lookup code with
  | none => decide
  | some name =>
    obtain ⟨l₁, l₂, heq, -⟩ := List.lookup_eq_some_iff.mp hlookup
    exact hnames (code, name) (by rw [heq]; simp)

theorem fits_line (action : KeyAction) (code : ℕ) :
    Fits (lineFormat action) [decimalNat code, ascii (keyName code)] := by
  refine .cons (fun h => ?_) (.cons (newline_not_mem_keyName code) .nil)
  exact absurd (mem_decimalNat h).1 (by decide : ¬ 48 ≤ (32 : UInt8).toNat)

theorem length_label (action : KeyAction) : (label action).length = 23 := by
  cases action <;> decide

theorem label_inj {a a' : KeyAction} (h : label a = label a') : a = a' := by
  cases a <;> cases a' <;> first | rfl | exact absurd h (by decide)

/-- A line of one kind is none of another. -/
theorem scan_line (action action' : KeyAction) (code : ℕ) (rest : List UInt8) :
    scan (lineFormat action') (line action code ++ rest) =
      if action' = action then some ([decimalNat code, ascii (keyName code)], rest) else none := by
  split
  · next h =>
    rw [h]
    exact scan_print (fits_line action code) rest
  · next h =>
    have hnot : ¬ label action' <+: line action code ++ rest := by
      intro hprefix
      have hown : label action <+: line action code ++ rest := by
        rw [line, lineFormat, print, List.append_assoc]
        exact List.prefix_append ..
      have heq := List.prefix_of_prefix_length_le hprefix hown
        (by rw [length_label, length_label])
      exact h (label_inj (heq.eq_of_length (by rw [length_label, length_label])))
    rw [lineFormat, scan, if_neg hnot]

/-- A line is read again as it was printed. -/
theorem readRecord_line (r : Record) (rest : List UInt8) :
    readRecord (line r.action r.code ++ rest) = some (r, rest) := by
  obtain ⟨action, code⟩ := r
  simp only [readRecord, List.findSome?_cons, scan_line]
  cases action <;> simp [readNat_decimalNat]

theorem line_ne_nil (action : KeyAction) (code : ℕ) : line action code ≠ [] := by
  refine List.ne_nil_of_length_pos ?_
  rw [line, lineFormat, print, List.length_append, length_label]
  omega

/-! ## The log -/

/-- What is printed for an event is the line that says what there is to be said. -/
theorem kbdmonEvent_eq (e : InputEvent) :
    kbdmonEvent e = e.record.toList.flatMap fun r => line r.action r.code := by
  obtain ⟨type, code, value⟩ := e
  by_cases htype : type = evKey
  · by_cases h₀ : value = 0
    · simp [kbdmonEvent, InputEvent.record, htype, h₀, KeyAction.value]
    · by_cases h₁ : value = 1
      · simp [kbdmonEvent, InputEvent.record, htype, h₁, KeyAction.value]
      · by_cases h₂ : value = 2
        · simp [kbdmonEvent, InputEvent.record, htype, h₂, KeyAction.value]
        · simp [kbdmonEvent, InputEvent.record, htype, h₀, h₁, h₂, KeyAction.value, Ne.symm h₀,
            Ne.symm h₁, Ne.symm h₂]
  · simp [kbdmonEvent, InputEvent.record, htype]

/-- **The log is read again**: from the text that the callback has printed for any events one gets
back which keys have been pressed, held and released, in order, with their codes. -/
theorem readLog_log (events : List InputEvent) :
    readLog (log events) = some (events.filterMap InputEvent.record) :=
  scanAll_filterMap kbdmonEvent_eq readRecord_line (fun r => line_ne_nil r.action r.code) events

/-- A key goes down and up, and something else happens in between. -/
example : readLog (log [⟨1, 30, 1⟩, ⟨0, 0, 0⟩, ⟨1, 30, 0⟩]) =
    some [⟨.press, 30⟩, ⟨.release, 30⟩] := by decide +kernel

end KbdmonLog

end KernelModules
