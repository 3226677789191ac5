import KernelModules.Strobe
import Mathlib.Data.Nat.Notation

/-!
# `LKM_lcd.c`

The pin traffic of the LCD driver. A function of the driver is the list of its
`gpio_set_value` calls, in order; the delays in between change no pin.

The display latches its inputs at the falling edge of `Enable`. What it latches over any
sequence of `lcd_instruction` and `lcd_data` calls is that sequence
(`lcd_traffic_decodes`): each call is one frame, which puts the mode and the eight bits on
pins of their own before it strobes.
-/

namespace KernelModules

namespace LcdDriver

open Strobe

/-- `gpios[]`: register select, R/W, enable, and D0 to D7. -/
def gpios : List ℕ := [27, 65, 47, 46, 23, 26, 45, 44, 69, 68, 66]

/-- `gpios[i]` -/
def gpio (i : ℕ) : ℕ := gpios.getD i 0

/-- `gpio_set_value(gpio, value)` -/
def gpioSetValue (gpio value : ℕ) : Assign ℕ := ⟨gpio, decide (value ≠ 0)⟩

/-- `lcd_enable` -/
def lcdEnable : List (Assign ℕ) := [gpioSetValue (gpio 2) 1, gpioSetValue (gpio 2) 0]

/-- The loop of `lcd_send_byte`: one bit of the byte to each data pin. -/
def lcdSetPins (data : UInt8) : List (Assign ℕ) :=
  (List.range 8).map fun i => gpioSetValue (gpio (3 + i)) ((data.toNat &&& (1 <<< i)) >>> i)

/-- `lcd_send_byte` -/
def lcdSendByte (data : UInt8) : List (Assign ℕ) := lcdSetPins data ++ lcdEnable

/-- `lcd_instruction` -/
def lcdInstruction (data : UInt8) : List (Assign ℕ) :=
  gpioSetValue (gpio 0) 0 :: lcdSendByte data

/-- `lcd_data` -/
def lcdData (data : UInt8) : List (Assign ℕ) := gpioSetValue (gpio 0) 1 :: lcdSendByte data

/-- A call of the driver on the display. -/
inductive LcdCall where
  /-- `lcd_instruction` -/
  | instruction (b : UInt8)
  /-- `lcd_data` -/
  | data (b : UInt8)

/-- The pin traffic of a call. -/
def LcdCall.traffic : LcdCall → List (Assign ℕ)
  | .instruction b => lcdInstruction b
  | .data b => lcdData b

/-! ## The display -/

/-- What the display latches. -/
structure Latched where
  /-- `RS`: low for an instruction, high for data -/
  rs : Bool
  /-- `R/W`: low for a write -/
  rw : Bool
  /-- D0 to D7 -/
  digits : Fin 8 → Bool

/-- The inputs of the display. -/
def display (v : ℕ → Bool) : Latched where
  rs := v (gpio 0)
  rw := v (gpio 1)
  digits i := v (gpio (3 + i))

/-- What the display latches over a pin traffic. -/
def lcdLatches (v : ℕ → Bool) (es : List (Assign ℕ)) : List Latched :=
  (latches (gpio 2) v es).map display

/-- The binary digits of a byte, the least significant first. -/
def digits (b : UInt8) (i : Fin 8) : Bool := b.toNat.testBit i

/-- What a call means to send. -/
def LcdCall.sent : LcdCall → Latched
  | .instruction b => ⟨false, false, digits b⟩
  | .data b => ⟨true, false, digits b⟩

/-! ## One call -/

/-- The mode bit of a call. -/
def LcdCall.mode : LcdCall → ℕ
  | .instruction _ => 0
  | .data _ => 1

/-- The byte of a call. -/
def LcdCall.byte : LcdCall → UInt8
  | .instruction b | .data b => b

/-- What a call puts on the pins before it strobes. -/
def LcdCall.pins (c : LcdCall) : List (Assign ℕ) :=
  gpioSetValue (gpio 0) c.mode :: lcdSetPins c.byte

/-- A call is one frame. -/
theorem LcdCall.traffic_eq_frame (c : LcdCall) : c.traffic = frame (gpio 2) c.pins := by
  cases c <;> rfl

/-- The pins a call sets, in order, whatever its byte. -/
theorem LcdCall.wires_pins (c : LcdCall) :
    c.pins.map Assign.wire = [27, 46, 23, 26, 45, 44, 69, 68, 66] := rfl

/-- The expression sent to data pin `i` is bit `i` of the byte. -/
theorem level_eq_testBit (data : UInt8) (i : ℕ) :
    decide ((data.toNat &&& (1 <<< i)) >>> i ≠ 0) = data.toNat.testBit i := by
  rw [Nat.shiftRight_and_distrib, Nat.shiftLeft_shiftRight, Nat.testBit, Nat.and_comm, bne,
    beq_eq_decide, decide_not]

theorem LcdCall.wire_ne_of_mem {c : LcdCall} {e : Assign ℕ} (he : e ∈ c.pins) :
    e.wire ≠ gpio 1 ∧ e.wire ≠ gpio 2 := by
  have hmem : e.wire ∈ c.pins.map Assign.wire := List.mem_map_of_mem he
  rw [c.wires_pins] at hmem
  constructor <;> (rintro heq; rw [heq] at hmem; revert hmem; decide)

/-- The levels a call puts on the pins. -/
theorem LcdCall.drive_pins (c : LcdCall) (v : ℕ → Bool) :
    drive v c.pins (gpio 0) = decide (c.mode ≠ 0) ∧ drive v c.pins (gpio 1) = v (gpio 1) ∧
      ∀ i < 8, drive v c.pins (gpio (3 + i)) = c.byte.toNat.testBit i := by
  have hnodup : (c.pins.map Assign.wire).Nodup := by
    rw [c.wires_pins]
    decide
  refine ⟨?_, ?_, fun i hi => ?_⟩
  · exact drive_of_mem hnodup (List.mem_cons_self ..)
  · exact drive_of_notMem fun e he => (wire_ne_of_mem he).1
  · rw [← level_eq_testBit]
    refine drive_of_mem hnodup (e := gpioSetValue (gpio (3 + i)) _) ?_
    exact List.mem_cons_of_mem _ (List.mem_map.mpr ⟨i, List.mem_range.mpr hi, rfl⟩)

/-- Setting `Enable` does not touch what the display reads. -/
theorem display_set_enable (v : ℕ → Bool) (b : Bool) :
    display (set v ⟨gpio 2, b⟩) = display v := by
  have hpins : ∀ i < 11, i ≠ 2 → gpio i ≠ gpio 2 := by decide
  have hkeep : ∀ i < 11, i ≠ 2 → set v ⟨gpio 2, b⟩ (gpio i) = v (gpio i) :=
    fun i hi hne => Function.update_of_ne (hpins i hi hne) ..
  rw [display, display, hkeep 0 (by decide) (by decide), hkeep 1 (by decide) (by decide)]
  congr 1
  funext i
  exact hkeep (3 + i) (by omega) (by omega)

/-- With `R/W` low the display reads what the call means to send. -/
theorem LcdCall.display_pins (c : LcdCall) {v : ℕ → Bool} (hrw : v (gpio 1) = false) :
    display (drive v c.pins) = c.sent := by
  obtain ⟨hrs, hrw', hbits⟩ := c.drive_pins v
  have hdigits : (fun i : Fin 8 => drive v c.pins (gpio (3 + i))) = digits c.byte := by
    funext i
    exact hbits i i.isLt
  rw [display, hrs, hrw', hrw, hdigits]
  cases c <;> rfl

/-- The digits of a byte determine it. -/
theorem digits_injective {a b : UInt8} (h : digits a = digits b) : a = b := by
  apply UInt8.toNat_inj.mp
  apply Nat.eq_of_testBit_eq
  intro i
  by_cases hi : i < 8
  · exact congrFun h ⟨i, hi⟩
  · have hpow : 2 ^ 8 ≤ 2 ^ i := Nat.pow_le_pow_right (by decide) (by omega)
    rw [Nat.testBit_lt_two_pow (Nat.lt_of_lt_of_le a.toNat_lt hpow),
      Nat.testBit_lt_two_pow (Nat.lt_of_lt_of_le b.toNat_lt hpow)]

/-- What is sent determines the call. -/
theorem LcdCall.sent_injective : Function.Injective LcdCall.sent := by
  intro a b h
  cases a <;> cases b <;> injection h with hrs _ hdigits
  · rw [digits_injective hdigits]
  · cases hrs
  · cases hrs
  · rw [digits_injective hdigits]

/-! ## Any sequence of calls -/

/-- `Enable` and `R/W` are low, as they are between two calls. -/
def AtRest (v : ℕ → Bool) : Prop := v (gpio 2) = false ∧ v (gpio 1) = false

theorem LcdCall.atRest_frame (c : LcdCall) {v : ℕ → Bool} (hv : AtRest v) :
    AtRest (drive v (frame (gpio 2) c.pins)) := by
  refine ⟨drive_frame_strobe .., ?_⟩
  rw [drive_frame_of_ne (by decide), (c.drive_pins v).2.1]
  exact hv.2

/-- A sequence of calls is a sequence of frames. -/
theorem flatMap_traffic (calls : List LcdCall) :
    calls.flatMap LcdCall.traffic = calls.flatMap fun c => frame (gpio 2) c.pins :=
  List.flatMap_congr fun c _ => c.traffic_eq_frame

/-- **Calls are latched** one after the other. -/
theorem lcdLatches_calls {v : ℕ → Bool} (hv : AtRest v) (calls : List LcdCall) :
    lcdLatches v (calls.flatMap LcdCall.traffic) = calls.map LcdCall.sent ∧
      Settled (gpio 2) v (calls.flatMap LcdCall.traffic) := by
  have hview : ∀ (c : LcdCall) {v : ℕ → Bool}, AtRest v →
      display (set (drive v c.pins) ⟨gpio 2, true⟩) = c.sent := by
    intro c v hv
    rw [display_set_enable]
    exact c.display_pins hv.2
  rw [lcdLatches, flatMap_traffic]
  exact latches_frames (fun hv => hv.1) LcdCall.atRest_frame
    (fun c e he => (LcdCall.wire_ne_of_mem he).2) hview hv calls

/-- **The traffic decodes to the calls**: with `Enable` and `R/W` low to begin with, and
whatever is on the other pins, the display latches exactly the calls, one latch each and
in order, no two calls are latched alike, and no other pin is set while `Enable` is
high. -/
theorem lcd_traffic_decodes (v : ℕ → Bool) (henable : v (gpio 2) = false)
    (hrw : v (gpio 1) = false) (calls : List LcdCall) :
    lcdLatches v (calls.flatMap LcdCall.traffic) = calls.map LcdCall.sent ∧
      Function.Injective LcdCall.sent ∧
      Settled (gpio 2) v (calls.flatMap LcdCall.traffic) := by
  obtain ⟨hlatches, hsettled⟩ := lcdLatches_calls ⟨henable, hrw⟩ calls
  exact ⟨hlatches, LcdCall.sent_injective, hsettled⟩

/-- Clearing the display and writing a `7`, with every data pin high to begin with. -/
theorem lcd_traffic_decodes_seven :
    lcdLatches (fun i => decide (i ≠ gpio 1 ∧ i ≠ gpio 2))
        ([LcdCall.instruction 0x1, .data 0x37].flatMap LcdCall.traffic) =
      [⟨false, false, digits 0x1⟩, ⟨true, false, digits 0x37⟩] :=
  (lcd_traffic_decodes (fun i => decide (i ≠ gpio 1 ∧ i ≠ gpio 2)) (by decide) (by decide)
    [.instruction 0x1, .data 0x37]).1

end LcdDriver

end KernelModules
