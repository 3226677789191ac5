import KernelModules.UserMemory
import KernelModules.ReadWrite

/-!
# What was on the stack

Three callbacks have a local that they do not initialise. The two `driver_read` of the i2c modules
print a temperature into `out_string[20]` and then copy as much of the array as was asked for;
`driver_write` of `LKM_gpio.c` looks at `value` whether or not a byte has arrived. Whether what was
on the stack before can be seen from outside is a question about two runs.

* `snprintf` — a formatted text in an array;
* `i2cRead`, `LkmGpio.driverWrite` — the callbacks, with what their local held before;
* `Call`, `observe` — a run of calls, and what is seen of it from outside;
* `Blind` — a function that does not look at some of its input;
* `observe_blind_iff` — **nothing of the stack is seen** exactly when no read gets further than the
  terminating zero, and no write is of no bytes.
-/

namespace KernelModules

namespace StackData

/-! ## The callbacks -/

/-- `snprintf(dst, sizeof(dst), ..)` of a text: as much of it as there is room for, a zero, and
what was there before. -/
def snprintf {cap : ℕ} (dst : Vector UInt8 cap) (text : List UInt8) : Vector UInt8 cap :=
  let n := min text.length (cap - 1)
  dst.mapIdx fun i old => if i < n then text.getD i 0 else if i = n then 0 else old

/-- `"%d\n"` of a `uint16_t` -/
def temperatureText (temperature : UInt16) : List UInt8 :=
  (Nat.toDigits 10 temperature.toNat).map (fun c => UInt8.ofNat c.toNat) ++ [10]

/-- What the two `driver_read` have in common: `out_string` has held `outString`. -/
def i2cRead (temperature : UInt16) (outString : Vector UInt8 20) (userBuffer : UserSink)
    (count : ℕ) : Ret :=
  let toCopy := min count 20
  let outString := snprintf outString (temperatureText temperature)
  let notCopied := userBuffer.left toCopy
  let delta := toCopy - notCopied
  ⟨delta, outString.toList.take delta⟩

namespace I2cMcp9801

/-- `read_temperature`, which does not use what it has read from the register -/
def readTemperature (_register : ℤ) : UInt16 := 25

/-- `driver_read` of `i2c_MCP9801.c` -/
def driverRead (register : ℤ) (outString : Vector UInt8 20) (userBuffer : UserSink)
    (count : ℕ) : Ret :=
  i2cRead (readTemperature register) outString userBuffer count

end I2cMcp9801

namespace I2c24LC256

/-- `read_temperature`, the same here -/
def readTemperature (_register : ℤ) : UInt16 := 25

/-- `driver_read` of `i2c_24LC256.c` -/
def driverRead (register : ℤ) (outString : Vector UInt8 20) (userBuffer : UserSink)
    (count : ℕ) : Ret :=
  i2cRead (readTemperature register) outString userBuffer count

end I2c24LC256

namespace LkmGpio

/-- The levels that `driver_write` drives on `GPIO_LED` for a `value`: `'0'` and `'1'` are 48 and
49. -/
def switchLevels (value : UInt8) : List ℕ :=
  if value = 48 then [0] else if value = 49 then [1] else []

/-- `driver_write` of `LKM_gpio.c`, where `value` has held `old`: what it returns, and the levels
it drives on `GPIO_LED` -/
def driverWrite (old : UInt8) (userBuffer : UserBlock) (count : ℕ) : ℤ × List ℕ :=
  let toCopy := min count 1
  let notCopied := userBuffer.left toCopy
  let value := userBuffer.fill toCopy 0 old
  let delta := toCopy - notCopied
  (delta, switchLevels value)

end LkmGpio

/-! ## Runs -/

/-- What is on the stack when a callback is entered. -/
structure Stack where
  /-- where `out_string` is going to be -/
  outString : Vector UInt8 20
  /-- where `value` is going to be -/
  value : UInt8

/-- A call of one of the callbacks. -/
inductive Call where
  /-- `driver_read` of `i2c_MCP9801.c` -/
  | readMcp9801 (register : ℤ) (userBuffer : UserSink) (count : ℕ)
  /-- `driver_read` of `i2c_24LC256.c` -/
  | read24LC256 (register : ℤ) (userBuffer : UserSink) (count : ℕ)
  /-- `driver_write` of `LKM_gpio.c` -/
  | writeGpio (userBuffer : UserBlock) (count : ℕ)

/-- What is seen of a call from outside. -/
structure Seen where
  /-- the value returned, and the bytes copied to user space -/
  ret : Ret
  /-- the levels driven on `GPIO_LED` -/
  levels : List ℕ
  deriving DecidableEq

/-- One call on a stack. -/
def Call.seen (stack : Stack) : Call → Seen
  | .readMcp9801 register userBuffer count =>
    ⟨I2cMcp9801.driverRead register stack.outString userBuffer count, []⟩
  | .read24LC256 register userBuffer count =>
    ⟨I2c24LC256.driverRead register stack.outString userBuffer count, []⟩
  | .writeGpio userBuffer count =>
    let (code, levels) := LkmGpio.driverWrite stack.value userBuffer count
    ⟨⟨code, []⟩, levels⟩

/-- What is seen of a run, in which the stack of call `i` is `garbage i`. -/
def observe (garbage : ℕ → Stack) (calls : List Call) : List Seen :=
  calls.mapIdx fun i c => c.seen (garbage i)

/-- The call looks at nothing that it has not initialised: a read leaves out all but the four bytes
`"25\n"` and the zero behind them, and a write is of at least one byte. -/
def Call.Initialised : Call → Prop
  | .readMcp9801 _ userBuffer count | .read24LC256 _ userBuffer count =>
    min count 20 ≤ userBuffer.left (min count 20) + 4
  | .writeGpio _ count => 0 < count

/-! ## Not looking -/

section Blind

universe u v w

variable {σ : Type u} {α : Type v} {β : Type w}

/-- A function that does not look at its argument. -/
def Blind (f : σ → β) : Prop := ∀ x y, f x = f y

/-- **Two runs** that differ only in what each call was given in secret look the same exactly if
no call looks at it. -/
theorem blind_mapIdx_iff {f : α → σ → β} {l : List α} :
    (Blind fun g : ℕ → σ => l.mapIdx fun i a => f a (g i)) ↔ ∀ a ∈ l, Blind (f a) := by
  constructor
  · intro h a ha x y
    have hxy := h (fun _ => x) (fun _ => y)
    simp only [List.mapIdx_eq_zipIdx_map] at hxy
    obtain ⟨i, hi, rfl⟩ := List.getElem_of_mem ha
    have hat := congrArg (·[i]?) hxy
    simpa [hi] using hat
  · intro h g g'
    refine List.ext_getElem (by simp) fun i hi _ => ?_
    simp only [List.getElem_mapIdx]
    exact h _ (List.getElem_mem _) (g i) (g' i)

end Blind

/-! ## One call -/

/-- A text that fits, the zero behind it, and what was behind that before. -/
theorem snprintf_toList {cap : ℕ} (dst : Vector UInt8 cap) {text : List UInt8}
    (h : text.length < cap) :
    (snprintf dst text).toList = text ++ [0] ++ dst.toList.drop (text.length + 1) := by
  have hmin : min text.length (cap - 1) = text.length := by omega
  apply List.ext_getElem
  · simp
    omega
  · intro i hi₁ hi₂
    simp only [snprintf, hmin, Vector.getElem_toList, Vector.getElem_mapIdx]
    by_cases hlt : i < text.length
    · rw [if_pos hlt, List.getElem_append_left (by simp; omega), List.getElem_append_left hlt]
      simp [hlt]
    · by_cases heq : i = text.length
      · simp [heq]
      · have hgt : text.length + 1 ≤ i := by omega
        have hshift : text.length + 1 + (i - (text.length + 1)) = i := by omega
        rw [if_neg hlt, if_neg heq, List.getElem_append_right (by simpa using hgt)]
        simp [hshift]

/-- A read that stops at the zero, if not before, copies only what has been printed. -/
theorem take_snprintf {dst : Vector UInt8 20} {text : List UInt8} (h : text.length < 20) {n : ℕ}
    (hn : n ≤ text.length + 1) : (snprintf dst text).toList.take n = (text ++ [0]).take n := by
  rw [snprintf_toList dst h, List.take_append_of_le_length]
  rw [List.length_append]
  exact hn

/-- One that goes on copies the byte behind the zero. -/
theorem getElem?_take_snprintf {b : UInt8} {text : List UInt8} {n : ℕ} (hn : n ≤ 20)
    (hlong : text.length + 1 < n) :
    ((snprintf (Vector.replicate 20 b) text).toList.take n)[text.length + 1]? = some b := by
  have hlen : (text ++ [0]).length = text.length + 1 := List.length_append
  rw [snprintf_toList _ (by omega), List.getElem?_take_of_lt hlong,
    List.getElem?_append_right hlen.le, hlen, Vector.toList_replicate, List.drop_replicate]
  exact List.getElem?_replicate_of_lt (by omega)

/-- **An i2c read** shows nothing of the stack exactly if it copies no more than was printed. -/
theorem i2cRead_blind_iff {temperature : UInt16}
    (h : (temperatureText temperature).length < 20) (userBuffer : UserSink) (count : ℕ) :
    (Blind fun outString => i2cRead temperature outString userBuffer count) ↔
      min count 20 ≤
        userBuffer.left (min count 20) + ((temperatureText temperature).length + 1) := by
  constructor
  · intro hblind
    by_contra hlong
    have hn : min count 20 - userBuffer.left (min count 20) ≤ 20 := by omega
    have hmore : (temperatureText temperature).length + 1 <
        min count 20 - userBuffer.left (min count 20) := by omega
    have hout := congrArg (fun r : Ret => r.out[(temperatureText temperature).length + 1]?)
      (hblind (Vector.replicate 20 48) (Vector.replicate 20 49))
    simp only [i2cRead, getElem?_take_snprintf hn hmore] at hout
    exact absurd hout (by decide)
  · intro hshort x y
    have hn : min count 20 - userBuffer.left (min count 20) ≤
        (temperatureText temperature).length + 1 := by omega
    simp only [i2cRead, take_snprintf h hn]

/-- **A write** to the LED shows nothing of the stack exactly if it is of some bytes: where the
copy fails it leaves a zero. -/
theorem driverWrite_blind_iff (userBuffer : UserBlock) (count : ℕ) :
    (Blind fun old => LkmGpio.driverWrite old userBuffer count) ↔ 0 < count := by
  constructor
  · intro hblind
    by_contra hzero
    obtain rfl := Nat.eq_zero_of_not_pos hzero
    have hold : ∀ old, userBuffer.fill (min 0 1) 0 old = old := by
      intro old
      simp [UserBlock.fill]
    have hlevels := congrArg Prod.snd (hblind 48 49)
    simp only [LkmGpio.driverWrite, hold] at hlevels
    exact absurd hlevels (by decide)
  · intro hpos x y
    have hfill : ∀ old,
        userBuffer.fill (min count 1) 0 old = userBuffer.fill (min count 1) 0 0 := by
      intro old
      simp [UserBlock.fill, hpos]
    simp only [LkmGpio.driverWrite, hfill]

/-- **One call** -/
theorem Call.seen_blind_iff (c : Call) : (Blind fun stack => c.seen stack) ↔ c.Initialised := by
  have htext : (temperatureText 25).length = 3 := by decide
  have hread : ∀ (userBuffer : UserSink) (count : ℕ),
      (Blind fun stack : Stack =>
        (⟨i2cRead 25 stack.outString userBuffer count, []⟩ : Seen)) ↔
      min count 20 ≤ userBuffer.left (min count 20) + 4 := by
    intro userBuffer count
    have hiff := i2cRead_blind_iff (by rw [htext]; decide) userBuffer count
    rw [htext] at hiff
    rw [← hiff]
    constructor
    · intro h x y
      exact congrArg Seen.ret (h ⟨x, 0⟩ ⟨y, 0⟩)
    · intro h x y
      exact congrArg (fun ret => (⟨ret, []⟩ : Seen)) (h x.outString y.outString)
  cases c with
  | readMcp9801 register userBuffer count => exact hread userBuffer count
  | read24LC256 register userBuffer count => exact hread userBuffer count
  | writeGpio userBuffer count =>
    refine Iff.trans ?_ (driverWrite_blind_iff userBuffer count)
    constructor
    · intro h x y
      have hseen := h ⟨Vector.replicate 20 0, x⟩ ⟨Vector.replicate 20 0, y⟩
      exact Prod.ext (congrArg (fun s => s.ret.code) hseen) (congrArg Seen.levels hseen)
    · intro h x y
      simp only [seen, h x.value y.value]

/-! ## Runs of calls -/

/-- **No uninitialised data reaches the outside** in a run exactly if no read goes on behind the
zero that ends `"25\n"`, and no write to the LED is of no bytes. -/
theorem observe_blind_iff (calls : List Call) :
    (∀ garbage garbage', observe garbage calls = observe garbage' calls) ↔
      ∀ c ∈ calls, c.Initialised := by
  refine (blind_mapIdx_iff (f := fun c stack => Call.seen stack c)).trans ?_
  exact forall₂_congr fun c _ => c.seen_blind_iff

/-- A buffer that can be written. -/
def openSink : UserSink := ⟨fun _ => 0, fun _ => Nat.zero_le _⟩

/-- **Twenty bytes of a temperature** are sixteen bytes of the stack, and a write of no bytes turns
the LED on or off as the stack has it. -/
theorem observe_stack :
    observe (fun _ => ⟨Vector.replicate 20 48, 48⟩)
        [.readMcp9801 0 openSink 20, .writeGpio (.ofList []) 0] ≠
      observe (fun _ => ⟨Vector.replicate 20 49, 49⟩)
        [.readMcp9801 0 openSink 20, .writeGpio (.ofList []) 0] := by
  decide +kernel

end StackData

end KernelModules
