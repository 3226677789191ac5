import KernelModules.LcdWrites

/-!
# What the display shows and what a write returns

One write of `LKM_lcd.c` after the other, from loading on. A write returns how many bytes
`copy_from_user` has copied, and sends as many as it asked for: what the copy has left out is
zeroes in `lcd_buffer`, and is sent all the same.

* `moduleInit` — the pin traffic of `ModuleInit`; it leaves the display at rest;
* `driverWrites` — a run of writes, each with the buffer the one before it has left;
* `displayed` — what the display latches of each, with what each returns;
* `displayed_iff` — **each write displays what it returns** exactly when no copy of the run leaves
  a byte out.
-/

namespace KernelModules

namespace LcdDriver

open Strobe

/-! ## Loading -/

/-- The pin traffic of `ModuleInit`: each `gpio_direction_output(gpios[i], 0)`, and the screen is
set up, wiped and shows a `7`. -/
def moduleInit : List (Assign ℕ) :=
  (gpios.map fun gpio => gpioSetValue gpio 0) ++
    [LcdCall.instruction 0x30, .instruction 0xF, .instruction 0x1, .data 0x37].flatMap
      LcdCall.traffic

theorem atRest_calls (calls : List LcdCall) {v : ℕ → Bool} (hv : AtRest v) :
    AtRest (drive v (calls.flatMap LcdCall.traffic)) := by
  induction calls generalizing v with
  | nil => exact hv
  | cons c calls ih =>
    rw [List.flatMap_cons, drive_append, c.traffic_eq_frame]
    exact ih (c.atRest_frame hv)

/-- **Loading** leaves the display at rest, whatever was on the pins. -/
theorem atRest_moduleInit (v : ℕ → Bool) : AtRest (drive v moduleInit) := by
  rw [moduleInit, drive_append]
  refine atRest_calls _ ?_
  have hnodup : ((gpios.map fun gpio => gpioSetValue gpio 0).map Assign.wire).Nodup := by decide
  have hlow : ∀ p ∈ gpios, drive v (gpios.map fun gpio => gpioSetValue gpio 0) p = false :=
    fun p hp => drive_of_mem hnodup (List.mem_map.mpr ⟨p, hp, rfl⟩)
  exact ⟨hlow (gpio 2) (by decide), hlow (gpio 1) (by decide)⟩

/-! ## Runs of writes -/

/-- A run of writes. -/
def driverWrites : LcdBuffer → List WriteCall → List Written
  | _, [] => []
  | lcdBuffer, c :: cs =>
    let w := driverWrite c lcdBuffer
    w :: driverWrites w.lcdBuffer cs

/-- What is seen of a write from outside. -/
structure Seen where
  /-- what the display latches -/
  latched : List Latched
  /-- the value returned -/
  code : ℤ

/-- What the display latches of each write of a run, with what it returns. -/
def displayed : (ℕ → Bool) → List Written → List Seen
  | _, [] => []
  | v, w :: ws => ⟨lcdLatches v w.traffic, w.code⟩ :: displayed (drive v w.traffic) ws

/-- The display gets the instruction that clears it, and then the first `n` bytes of the user
buffer and nothing else, where `n` is what is returned. -/
def ShowsReturned (c : WriteCall) (x : Seen) : Prop :=
  ∃ n : ℕ, x.code = n ∧ x.latched = (LcdCall.instruction 0x1).sent ::
    (c.userBuffer.first n).map fun b => (LcdCall.data b).sent

/-- The calls on the display that a write makes -/
def WriteCall.lcdCalls (c : WriteCall) : List LcdCall :=
  .instruction 0x1 :: (List.range c.toCopy).map fun i => .data (c.byteAt i)

theorem driverWrite_traffic_calls (c : WriteCall) (lcdBuffer : LcdBuffer) :
    (driverWrite c lcdBuffer).traffic = c.lcdCalls.flatMap LcdCall.traffic := by
  rw [driverWrite_traffic, WriteCall.plan, WriteCall.dataFrom, WriteCall.lcdCalls,
    List.flatMap_cons, List.flatMap_map, Nat.sub_zero, List.range_eq_range']
  rfl

/-- What the display latches of one write: all the bytes that were asked for. -/
theorem lcdLatches_driverWrite {v : ℕ → Bool} (hv : AtRest v) (c : WriteCall)
    (lcdBuffer : LcdBuffer) :
    lcdLatches v (driverWrite c lcdBuffer).traffic = (LcdCall.instruction 0x1).sent ::
      (List.range c.toCopy).map fun i => (LcdCall.data (c.byteAt i)).sent := by
  rw [driverWrite_traffic_calls, (lcdLatches_calls hv _).1, WriteCall.lcdCalls, List.map_cons,
    List.map_map]
  rfl

/-- **One write** displays what it returns exactly when its copy leaves nothing out. -/
theorem showsReturned_iff {v : ℕ → Bool} (hv : AtRest v) (c : WriteCall) (lcdBuffer : LcdBuffer) :
    ShowsReturned c ⟨lcdLatches v (driverWrite c lcdBuffer).traffic,
      (driverWrite c lcdBuffer).code⟩ ↔ c.notCopied = 0 := by
  have hcode : (driverWrite c lcdBuffer).code = (c.toCopy : ℤ) - c.notCopied := rfl
  rw [ShowsReturned, lcdLatches_driverWrite hv, hcode]
  constructor
  · rintro ⟨n, hn, hshown⟩
    -- the display has got as many bytes as were asked for
    have hlength := congrArg List.length hshown
    simp only [List.length_cons, List.length_map, List.length_range,
      UserBlock.length_first] at hlength
    change (c.toCopy : ℤ) - c.notCopied = n at hn
    omega
  · intro hzero
    have hleft : c.userBuffer.left c.toCopy = 0 := hzero
    have hbyte : ∀ i ∈ List.range c.toCopy, (LcdCall.data (c.byteAt i)).sent =
        (LcdCall.data (c.userBuffer.byte i)).sent := by
      intro i hi
      rw [WriteCall.byteAt, UserBlock.fill, hleft, Nat.sub_zero, if_pos (List.mem_range.mp hi)]
    refine ⟨c.toCopy, by simp [hzero], ?_⟩
    rw [UserBlock.first, List.map_map]
    exact congrArg _ (List.map_congr_left hbyte)

/-- **A run of writes** from a display at rest -/
theorem forall₂_showsReturned_iff {v : ℕ → Bool} (hv : AtRest v) (lcdBuffer : LcdBuffer)
    (cs : List WriteCall) :
    List.Forall₂ ShowsReturned cs (displayed v (driverWrites lcdBuffer cs)) ↔
      ∀ c ∈ cs, c.notCopied = 0 := by
  induction cs generalizing v lcdBuffer with
  | nil => simp [driverWrites, displayed]
  | cons c cs ih =>
    have hrest : AtRest (drive v (driverWrite c lcdBuffer).traffic) := by
      rw [driverWrite_traffic_calls]
      exact atRest_calls _ hv
    rw [driverWrites, displayed, List.forall₂_cons, showsReturned_iff hv, ih hrest,
      List.forall_mem_cons]

/-- **An LCD write displays exactly what it returns**, for every write of a run after loading, if
and only if no copy of the run leaves a byte out: the loop sends the bytes that were asked for, and
the zeroes in the place of the others are among them. -/
theorem displayed_iff (v : ℕ → Bool) (lcdBuffer : LcdBuffer) (cs : List WriteCall) :
    List.Forall₂ ShowsReturned cs
        (displayed (drive v moduleInit) (driverWrites lcdBuffer cs)) ↔
      ∀ c ∈ cs, c.notCopied = 0 :=
  forall₂_showsReturned_iff (atRest_moduleInit v) lcdBuffer cs

/-- A buffer of three letters, the last of which cannot be copied -/
def faultingBuffer : UserBlock where
  byte i := [0x41, 0x42, 0x43].getD i 0
  left n := n - 2
  left_le _ := Nat.sub_le ..

/-- **A zero is displayed**: two bytes are reported as written, and three are sent. -/
theorem displays_zero :
    ∃ x, displayed (drive (fun _ => false) moduleInit)
        (driverWrites (Vector.replicate lcdBufferSize 0) [⟨faultingBuffer, 3⟩]) = [x] ∧
      x.code = 2 ∧
      x.latched = [LcdCall.instruction 0x1, .data 0x41, .data 0x42, .data 0].map LcdCall.sent ∧
      ¬ ShowsReturned ⟨faultingBuffer, 3⟩ x := by
  have hrest := atRest_moduleInit fun _ => false
  refine ⟨_, rfl, rfl, lcdLatches_driverWrite hrest .., fun hshows => ?_⟩
  exact absurd ((showsReturned_iff hrest ..).mp hshows) (by decide)

end LcdDriver

end KernelModules
