import KernelModules.LeakyDevice
import KernelModules.Transition

/-!
# The memory of `buggy_leaky_device.c`

Every bound in the module is `buffer_size`, and `buffer_size` is a parameter that can be written
while the module is loaded; the size that was asked of `kmalloc` is stored nowhere. Besides,
`leaky_init` does not look at what `kmalloc` returns, `dev_write` asks again, and `dev_read` does
not.

* `kmalloc`, `LeakySys`, `leakyNext` — the module, its parameter and the open files;
* `InBounds` — what a step touches lies in the block that `buffer` points to;
* `Covered` — the parameter is not above what was allocated, and something was;
* `Steady` — a load allocates the block, and the parameter is not raised above its size;
* `in_bounds_iff` — what is covered is what is in bounds, in every run, and all of it is where
  every step is steady.
-/

namespace KernelModules

namespace LeakyDevice

/-! ## The module and its parameter -/

/-- A block of the size asked for, with whatever is in memory there; `none` for `NULL`. -/
def kmalloc (size : ℕ) (mem : Option (ℕ → UInt8)) : Option (List UInt8) :=
  mem.map fun byte => (List.range size).map byte

/-- The module, if it is loaded, and the offsets of the open files. No step reads
`allocated`. -/
structure LeakySys where
  /-- the module's variables -/
  dev : Option LeakyDev
  /-- `f_pos` of each file -/
  offset : ℕ → ℕ
  /-- the size the block was allocated with -/
  allocated : ℕ

/-- The module is not loaded. -/
def leakyStart : LeakySys := ⟨none, fun _ => 0, 0⟩

/-- The step taken next. -/
inductive LeakyAct where
  /-- the module is loaded, with a value of the parameter -/
  | load (bufferSize : ℕ) (mem : Option (ℕ → UInt8))
  /-- it is unloaded -/
  | unload
  /-- `buffer_size` is written -/
  | setSize (bufferSize : ℕ)
  /-- a file is opened -/
  | openFile (f : ℕ)
  /-- `dev_read` -/
  | read (f : ℕ) (userBuf : UserDst) (len : ℕ)
  /-- `dev_write`, with what `kmalloc` finds if it is called -/
  | write (mem : Option (ℕ → UInt8)) (userBuf : UserBlock) (len : ℕ)

/-- One step. There is none after an access outside the block. A load is one step, so calls that
come between `cdev_add` and `kmalloc`, which find no block yet, are left out. -/
def leakyNext (s : LeakySys) : LeakyAct → Option LeakySys
  | .load bufferSize mem =>
    match s.dev with
    | none => some ⟨some (leakyInit bufferSize (kmalloc bufferSize mem)), fun _ => 0, bufferSize⟩
    | some _ => none
  | .unload => s.dev.map fun _ => leakyStart
  | .setSize bufferSize => s.dev.map fun d => { s with dev := some { d with bufferSize } }
  | .openFile f => s.dev.map fun _ => { s with offset := Function.update s.offset f 0 }
  | .read f userBuf len => do
    let d ← s.dev
    let (_, offset) ← devRead userBuf len (s.offset f) d
    some { s with offset := Function.update s.offset f offset }
  | .write mem userBuf len => do
    let d ← s.dev
    let (d', _) ← devWrite (kmalloc d.bufferSize mem) userBuf len d
    some { s with
      dev := some d'
      allocated := if d.buffer.isNone then d.bufferSize else s.allocated }

/-- The module as a transition system. -/
abbrev leakyLts : Lts LeakySys LeakyAct := Lts.ofNext leakyStart leakyNext

/-- The steps of `leakyNext`. -/
inductive LeakyStep (s : LeakySys) : LeakyAct → LeakySys → Prop where
  /-- loaded -/
  | load {bufferSize : ℕ} {mem : Option (ℕ → UInt8)} : s.dev = none →
      LeakyStep s (.load bufferSize mem)
        ⟨some (leakyInit bufferSize (kmalloc bufferSize mem)), fun _ => 0, bufferSize⟩
  /-- unloaded -/
  | unload : LeakyStep s .unload leakyStart
  /-- the parameter -/
  | setSize {bufferSize : ℕ} {d : LeakyDev} : s.dev = some d →
      LeakyStep s (.setSize bufferSize) { s with dev := some { d with bufferSize } }
  /-- a file is opened -/
  | openFile {f : ℕ} :
      LeakyStep s (.openFile f) { s with offset := Function.update s.offset f 0 }
  /-- `dev_read` -/
  | read {f len offset : ℕ} {userBuf : UserDst} :
      LeakyStep s (.read f userBuf len) { s with offset := Function.update s.offset f offset }
  /-- `dev_write` -/
  | write {mem : Option (ℕ → UInt8)} {userBuf : UserBlock} {len : ℕ} {d d' : LeakyDev} {r : Ret} :
      s.dev = some d → devWrite (kmalloc d.bufferSize mem) userBuf len d = some (d', r) →
      LeakyStep s (.write mem userBuf len) { s with
        dev := some d'
        allocated := if d.buffer.isNone then d.bufferSize else s.allocated }

theorem leakyStep_of_next {s s' : LeakySys} {a : LeakyAct} (h : leakyNext s a = some s') :
    LeakyStep s a s' := by
  cases a with
  | load bufferSize mem =>
    rw [leakyNext] at h
    split at h
    · next hdev => cases h; exact .load hdev
    · cases h
  | unload =>
    obtain ⟨-, -, rfl⟩ := Option.map_eq_some_iff.mp h
    exact .unload
  | setSize bufferSize =>
    obtain ⟨d, hdev, rfl⟩ := Option.map_eq_some_iff.mp h
    exact .setSize hdev
  | openFile f =>
    obtain ⟨-, -, rfl⟩ := Option.map_eq_some_iff.mp h
    exact .openFile
  | read f userBuf len =>
    obtain ⟨d, -, h⟩ := Option.bind_eq_some_iff.mp h
    obtain ⟨⟨r, offset⟩, -, h⟩ := Option.bind_eq_some_iff.mp h
    cases h
    exact .read
  | write mem userBuf len =>
    obtain ⟨d, hdev, h⟩ := Option.bind_eq_some_iff.mp h
    obtain ⟨⟨d', r⟩, hwrite, h⟩ := Option.bind_eq_some_iff.mp h
    cases h
    exact .write hdev hwrite

/-! ## What a step touches -/

/-- `n` bytes from `start` on lie in the block that a pointer points to. -/
def Within (buffer : Option (List UInt8)) (start n : ℕ) : Prop :=
  ∃ block, buffer = some block ∧ start + n ≤ block.length

/-- What `print_hex_dump` and `copy_to_user` read and what `copy_from_user` writes. -/
def InBounds (s : LeakySys) : LeakyAct → Prop
  | .read f _ len => ∀ d, s.dev = some d → s.offset f < d.bufferSize →
      Within d.buffer 0 d.bufferSize ∧
        Within d.buffer (s.offset f) (min len (d.bufferSize - s.offset f))
  | .write mem _ len => ∀ d, s.dev = some d → d.buffer.or (kmalloc d.bufferSize mem) ≠ none →
      Within (d.buffer.or (kmalloc d.bufferSize mem)) 0 (min len d.bufferSize)
  | .load _ _ | .unload | .setSize _ | .openFile _ => True

/-- A read that is not at the end finds a block, and the parameter is not above the size of
that; nor is what a write wants to copy. -/
def Covered (s : LeakySys) : LeakyAct → Prop
  | .read f _ _ => ∀ d, s.dev = some d → s.offset f < d.bufferSize →
      d.buffer.isSome ∧ d.bufferSize ≤ s.allocated
  | .write _ _ len => ∀ d, s.dev = some d → d.buffer.isSome → min len d.bufferSize ≤ s.allocated
  | .load _ _ | .unload | .setSize _ | .openFile _ => True

/-! ## The size of the block -/

theorem length_kmalloc {size : ℕ} {mem : Option (ℕ → UInt8)} {block : List UInt8}
    (h : kmalloc size mem = some block) : block.length = size := by
  obtain ⟨byte, -, rfl⟩ := Option.map_eq_some_iff.mp h
  rw [List.length_map, List.length_range]

/-- The block is as long as it was allocated. -/
def BlockInv (s : LeakySys) : Prop :=
  ∀ d block, s.dev = some d → d.buffer = some block → block.length = s.allocated

/-- What a write leaves: the parameter as it was, and a block if there is one, with its length. -/
theorem devWrite_spec {fresh : Option (List UInt8)} {userBuf : UserBlock} {len : ℕ}
    {d d' : LeakyDev} {r : Ret} (h : devWrite fresh userBuf len d = some (d', r)) :
    d'.bufferSize = d.bufferSize ∧
      d'.buffer.map List.length = (d.buffer.or fresh).map List.length := by
  rw [devWrite] at h
  cases hblock : d.buffer.or fresh with
  | none =>
    rw [hblock] at h
    cases h
    rw [(Option.or_eq_none_iff.mp hblock).1]
    exact ⟨rfl, rfl⟩
  | some block =>
    rw [hblock] at h
    obtain ⟨-, h⟩ := Option.ite_none_left_eq_some.mp h
    split at h <;> cases h <;> exact ⟨rfl, by simp⟩

theorem BlockInv.step {s s' : LeakySys} {a : LeakyAct} (h : BlockInv s)
    (hs : LeakyStep s a s') : BlockInv s' := by
  intro d block hdev hblock
  cases hs with
  | load _ =>
    cases hdev
    exact length_kmalloc hblock
  | unload => cases hdev
  | setSize hd =>
    cases hdev
    exact h _ _ hd hblock
  | openFile | read => exact h d block hdev hblock
  | @write mem userBuf len d₀ d' r hd hwrite =>
    cases hdev
    obtain ⟨-, hlength⟩ := devWrite_spec hwrite
    rw [hblock] at hlength
    cases hbuffer : d₀.buffer with
    | none =>
      rw [hbuffer, Option.none_or] at hlength
      obtain ⟨block₀, hfresh, hlength⟩ := Option.map_eq_some_iff.mp hlength.symm
      exact hlength.symm.trans (length_kmalloc hfresh)
    | some block₀ =>
      rw [hbuffer, Option.some_or] at hlength
      exact (Option.some.inj hlength).trans (h _ _ hd hbuffer)

theorem blockInv_inductive : leakyLts.Inductive BlockInv where
  init hi := by
    cases hi
    intro d block hdev
    cases hdev
  step h hs := h.step (leakyStep_of_next hs)

/-! ## The parameter and the block -/

/-- What a call touches in a state of a run is in the block exactly if it is covered. -/
theorem inBounds_iff_covered {s : LeakySys} (hs : leakyLts.Reachable s) (a : LeakyAct) :
    InBounds s a ↔ Covered s a := by
  have hinv : BlockInv s := blockInv_inductive.reachable hs
  cases a with
  | read f userBuf len =>
    refine forall_congr' fun d => forall_congr' fun hdev => forall_congr' fun hlt => ?_
    cases hbuffer : d.buffer with
    | none => simp [Within]
    | some block =>
      have hlength := hinv d block hdev hbuffer
      simp only [Within, Option.some.injEq, exists_eq_left', Option.isSome_some, true_and]
      omega
  | write mem userBuf len =>
    refine forall_congr' fun d => forall_congr' fun hdev => ?_
    cases hbuffer : d.buffer with
    | none =>
      refine iff_of_true (fun hsome => ?_) (by simp)
      rw [Option.none_or] at hsome ⊢
      obtain ⟨block, hblock⟩ := Option.ne_none_iff_exists'.mp hsome
      refine ⟨block, hblock, ?_⟩
      rw [length_kmalloc hblock, Nat.zero_add]
      exact Nat.min_le_right _ _
    | some block =>
      have hlength := hinv d block hdev hbuffer
      simp [Within, hlength]
  | load _ _ | unload | setSize _ | openFile _ => exact Iff.rfl

/-- The block is allocated when the module is loaded, and the parameter is not raised above its
size. -/
def Steady (s : LeakySys) : LeakyAct → Prop
  | .load _ mem => mem.isSome
  | .setSize bufferSize => bufferSize ≤ s.allocated
  | .unload | .openFile _ | .read _ _ _ | .write _ _ _ => True

instance (s : LeakySys) : (a : LeakyAct) → Decidable (Steady s a)
  | .load _ mem => inferInstanceAs (Decidable (mem.isSome = true))
  | .setSize bufferSize => inferInstanceAs (Decidable (bufferSize ≤ s.allocated))
  | .unload | .openFile _ | .read _ _ _ | .write _ _ _ => inferInstanceAs (Decidable True)

/-- There is a block, and the parameter is not above its size. -/
def SteadyInv (s : LeakySys) : Prop :=
  ∀ d, s.dev = some d → d.buffer.isSome ∧ d.bufferSize ≤ s.allocated

theorem SteadyInv.step {s s' : LeakySys} {a : LeakyAct} (h : SteadyInv s) (ha : Steady s a)
    (hs : LeakyStep s a s') : SteadyInv s' := by
  intro d hdev
  cases hs with
  | load _ =>
    cases hdev
    obtain ⟨byte, rfl⟩ := Option.isSome_iff_exists.mp ha
    exact ⟨rfl, Nat.le_refl _⟩
  | unload => cases hdev
  | setSize hd =>
    cases hdev
    exact ⟨(h _ hd).1, ha⟩
  | openFile | read => exact h d hdev
  | write hd hwrite =>
    cases hdev
    obtain ⟨hbuffer, hle⟩ := h _ hd
    obtain ⟨hsize, hlength⟩ := devWrite_spec hwrite
    obtain ⟨block, hblock⟩ := Option.isSome_iff_exists.mp hbuffer
    rw [hblock, Option.some_or, Option.map_some] at hlength
    obtain ⟨block', hblock', -⟩ := Option.map_eq_some_iff.mp hlength
    rw [hblock, hsize]
    exact ⟨by rw [hblock']; rfl, hle⟩

/-- That is so in every run in which the block is allocated when the module is loaded and the
parameter is not raised above its size. -/
theorem covered_of_steady {s : LeakySys} (hs : (leakyLts.restrict Steady).Reachable s)
    (a : LeakyAct) : Covered s a := by
  have hinv : SteadyInv s := by
    refine Lts.Inductive.reachable ⟨fun hi => ?_, fun h hs => ?_⟩ hs
    · cases hi
      intro d hdev
      cases hdev
    · exact SteadyInv.step h hs.1 (leakyStep_of_next hs.2)
  cases a with
  | read f userBuf len => exact fun d hdev _ => hinv d hdev
  | write mem userBuf len =>
    exact fun d hdev _ => Nat.le_trans (Nat.min_le_right _ _) (hinv d hdev).2
  | load _ _ | unload | setSize _ | openFile _ => trivial

/-- **Where the module stays inside its block.** In every state of every run a call stays within
bounds if and only if the parameter is not above the size that the block was allocated with,
and for a read there is a block, except where a read is at the end or a write has to allocate the
block first. So it does throughout every run in which the block is allocated when the module is
loaded and the parameter is not raised above its size. -/
theorem in_bounds_iff (s : LeakySys) (a : LeakyAct) :
    (leakyLts.Reachable s → (InBounds s a ↔ Covered s a)) ∧
      ((leakyLts.restrict Steady).Reachable s → InBounds s a) :=
  ⟨fun hs => inBounds_iff_covered hs a, fun hs =>
    (inBounds_iff_covered hs.of_restrict a).mpr (covered_of_steady hs a)⟩

/-- The module is loaded, a message of four bytes written, and the file read to its end. -/
theorem in_bounds_iff_loaded : ∃ s : LeakySys, leakyLts.Reachable s ∧
    InBounds s (.read 0 (fun _ => true) 4) ∧ Covered s (.read 0 (fun _ => true) 4) := by
  have hs := Lts.reachable_restrict_of_foldlM (P := Steady) (.init rfl)
    (rfl : [.load 8 (some fun _ => 0), .write none (.ofList [1, 2, 3, 4]) 4].foldlM
      (Lts.guardNext leakyNext Steady) leakyStart = some _)
  obtain ⟨hiff, hsteady⟩ := in_bounds_iff _ (.read 0 (fun _ => true) 4)
  exact ⟨_, hs.of_restrict, hsteady hs, (hiff hs.of_restrict).mp (hsteady hs)⟩

/-- With the parameter doubled, the dump of the first read runs over the end of the block; and
without a block it starts at `NULL`. -/
theorem reads_out_of_bounds :
    (∃ s : LeakySys, leakyLts.Run leakyStart [.load 1024 (some fun _ => 0), .setSize 2048] s ∧
      ¬InBounds s (.read 0 (fun _ => true) 1)) ∧
    ∃ s : LeakySys, leakyLts.Run leakyStart [.load 1024 none] s ∧
      ¬InBounds s (.read 0 (fun _ => true) 1) := by
  refine ⟨⟨_, Lts.run_of_foldlM .nil rfl, fun h => ?_⟩,
    ⟨_, Lts.run_of_foldlM .nil rfl, fun h => ?_⟩⟩
  · obtain ⟨⟨block, hblock, hle⟩, -⟩ := h _ rfl (by decide)
    have hblock : kmalloc 1024 (some fun _ => 0) = some block := hblock
    have hlength := length_kmalloc hblock
    have hle : 0 + 2048 ≤ block.length := hle
    omega
  · obtain ⟨⟨block, hblock, -⟩, -⟩ := h _ rfl (by decide)
    cases hblock

end LeakyDevice

end KernelModules
