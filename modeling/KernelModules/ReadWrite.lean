import KernelModules.MutexDevice
import KernelModules.ReadLoop

/-!
# `read_write.c`

The dummy device without the mutex. Its `driver_read` is that of `read_write_mutex.c`, and its
`driver_write` differs in one line: `buffer_pointer` is how much was asked of `copy_from_user`,
not how much has been copied. So after a copy that falls short a read goes on behind what was
copied. Neither callback looks at `offs`.

* `driverRead`, `driverWrite` — the callbacks, here and in `read_write_mutex.c`;
* `Driver.results` — what a run of calls returns;
* `GetsSame`, `acknowledged_iff` — when a read returns what was acknowledged, and when a run
  returns the same on both devices;
* `readCall`, `read_loop_iff` — what a reader gets who goes on until a read returns 0.
-/

namespace KernelModules

/-- How much of `n` bytes is copied. -/
def UserSink.taken (sink : UserSink) (n : ℕ) : ℕ := n - sink.left n

/-! ## The callbacks -/

namespace MutexDevice

/-- `driver_read` in one go. -/
def driverRead (userBuffer : UserSink) (count : ℕ) (d : Dev) : Ret :=
  d.readCopy (d.readSize count) (userBuffer.left (d.readSize count))

/-- `driver_write` in one go. -/
def driverWrite (userBuffer : UserBlock) (count : ℕ) (d : Dev) : Dev × Ret :=
  let toCopy := writeSize count
  let notCopied := userBuffer.left toCopy
  let delta := toCopy - notCopied
  ((d.writeCopy userBuffer toCopy).writePointer toCopy notCopied, ⟨delta, []⟩)

end MutexDevice

namespace ReadWrite

/-- The module's variables: those of the other module. -/
abbrev Dev := MutexDevice.Dev

/-- `driver_read`, which leaves the variables and `offs` alone. -/
def driverRead (userBuffer : UserSink) (count : ℕ) (d : Dev) : Ret :=
  let toCopy := min count d.bufferPointer
  let notCopied := userBuffer.left toCopy
  let delta := toCopy - notCopied
  ⟨delta, d.buffer.toList.take delta⟩

/-- `driver_write`, which leaves `offs` alone. -/
def driverWrite (userBuffer : UserBlock) (count : ℕ) (d : Dev) : Dev × Ret :=
  let toCopy := min count 255
  let notCopied := userBuffer.left toCopy
  let delta := toCopy - notCopied
  (⟨copyFromUser d.buffer userBuffer toCopy, toCopy⟩, ⟨delta, []⟩)

/-! ## Runs -/

/-- A call on an open file. -/
inductive Call where
  /-- `read` -/
  | read (userBuffer : UserSink) (count : ℕ)
  /-- `write` -/
  | write (userBuffer : UserBlock) (count : ℕ)

/-- The callbacks of a module. -/
structure Driver where
  /-- `driver_read` -/
  read : UserSink → ℕ → Dev → Ret
  /-- `driver_write` -/
  write : UserBlock → ℕ → Dev → Dev × Ret

/-- `read_write.c` -/
def plain : Driver := ⟨driverRead, driverWrite⟩

/-- `read_write_mutex.c` -/
def mutex : Driver := ⟨MutexDevice.driverRead, MutexDevice.driverWrite⟩

/-- One call. -/
def Driver.call (D : Driver) (d : Dev) : Call → Dev × Ret
  | .read userBuffer count => (d, D.read userBuffer count d)
  | .write userBuffer count => D.write userBuffer count d

/-- The variables after some calls. -/
def Driver.after (D : Driver) (d : Dev) (calls : List Call) : Dev :=
  calls.foldl (fun d c => (D.call d c).1) d

/-- What some calls return. -/
def Driver.results (D : Driver) : Dev → List Call → List Ret
  | _, [] => []
  | d, c :: calls => (D.call d c).2 :: D.results (D.call d c).1 calls

theorem Driver.after_concat (D : Driver) (d : Dev) (calls : List Call) (c : Call) :
    D.after d (calls ++ [c]) = (D.call (D.after d calls) c).1 := by
  rw [after, after, List.foldl_concat]

theorem Driver.results_concat (D : Driver) (c : Call) : ∀ (d : Dev) (calls : List Call),
    D.results d (calls ++ [c]) = D.results d calls ++ [(D.call (D.after d calls) c).2]
  | _, [] => rfl
  | _, _ :: calls => congrArg _ (D.results_concat c _ calls)

/-- The write that a call is. -/
def Call.writeOf : Call → Option (UserBlock × ℕ)
  | .read _ _ => none
  | .write userBuffer count => some (userBuffer, count)

/-- The last write of some calls. -/
def lastWrite (calls : List Call) : Option (UserBlock × ℕ) :=
  (calls.filterMap Call.writeOf).getLast?

theorem lastWrite_concat (calls : List Call) (c : Call) :
    lastWrite (calls ++ [c]) = c.writeOf.or (lastWrite calls) := by
  cases c <;> simp [lastWrite, Call.writeOf]

/-! ## What is asked for and what is copied -/

/-- A read gets as much of what the last write asked for as of what that copied. -/
def Call.GetsSame (last : Option (UserBlock × ℕ)) : Call → Prop
  | .read userBuffer count => ∀ written n, last = some (written, n) →
      userBuffer.taken (min count (min n 255)) =
        userBuffer.taken (min count (min n 255 - written.left (min n 255)))
  | .write _ _ => True

/-- So do all the reads of a run. -/
def GetsSame (calls : List Call) : Prop :=
  ∀ pre c post, calls = pre ++ c :: post → c.GetsSame (lastWrite pre)

theorem getsSame_nil : GetsSame [] := by
  intro pre c post h
  cases pre <;> cases h

theorem getsSame_concat {calls : List Call} {c : Call} :
    GetsSame (calls ++ [c]) ↔ GetsSame calls ∧ c.GetsSame (lastWrite calls) := forall_split_concat

/-- The variables of the two modules: the buffers are the same, and the pointers are what the
last write asked for and what it copied. -/
structure Twins (last : Option (UserBlock × ℕ)) (d d' : Dev) : Prop where
  /-- the buffer -/
  buffer : d.buffer = d'.buffer
  /-- before the first write -/
  unwritten : last = none → d.bufferPointer = d'.bufferPointer
  /-- after a write -/
  written : ∀ written n, last = some (written, n) →
    d.bufferPointer = min n 255 ∧ d'.bufferPointer = min n 255 - written.left (min n 255)

variable {last : Option (UserBlock × ℕ)} {d d' : Dev}

theorem Twins.call (h : Twins last d d') (c : Call) :
    Twins (c.writeOf.or last) (plain.call d c).1 (mutex.call d' c).1 := by
  cases c with
  | read userBuffer count => exact h
  | write userBuffer count =>
    refine ⟨?_, fun hnone => ?_, fun written n hsome => ?_⟩
    · exact congrArg (fun buffer => copyFromUser buffer userBuffer (min count 255)) h.buffer
    · cases hnone
    · cases hsome
      exact ⟨rfl, rfl⟩

/-- A call returns the same on both exactly if it gets the same. -/
theorem Twins.result_eq_iff (h : Twins last d d') (c : Call) :
    (plain.call d c).2 = (mutex.call d' c).2 ↔ c.GetsSame last := by
  cases c with
  | write userBuffer count => exact iff_of_true rfl trivial
  | read userBuffer count =>
    have hresult : (plain.call d (.read userBuffer count)).2 =
        (mutex.call d' (.read userBuffer count)).2 ↔
          userBuffer.taken (min count d.bufferPointer) =
            userBuffer.taken (min count d'.bufferPointer) := by
      constructor
      · exact fun heq => Int.ofNat.inj (congrArg Ret.code heq)
      · intro heq
        have hret : (⟨(userBuffer.taken (min count d.bufferPointer) : ℕ),
            d.buffer.toList.take (userBuffer.taken (min count d.bufferPointer))⟩ : Ret) =
            ⟨(userBuffer.taken (min count d'.bufferPointer) : ℕ),
              d'.buffer.toList.take (userBuffer.taken (min count d'.bufferPointer))⟩ := by
          rw [heq, h.buffer]
        exact hret
    rw [hresult]
    rcases hlast : last with _ | ⟨written, n⟩
    · rw [h.unwritten hlast]
      exact iff_of_true rfl fun _ _ hsome => by cases hsome
    · obtain ⟨hasked, hcopied⟩ := h.written written n hlast
      rw [hasked, hcopied]
      refine ⟨fun heq _ _ hsome => ?_, fun hsame => hsame written n rfl⟩
      cases hsome
      exact heq

theorem twins_after (d : Dev) (calls : List Call) :
    Twins (lastWrite calls) (plain.after d calls) (mutex.after d calls) := by
  induction calls using List.reverseRecOn with
  | nil => exact ⟨rfl, fun _ => rfl, fun _ _ hsome => by cases hsome⟩
  | append_singleton calls c ih =>
    rw [lastWrite_concat, Driver.after_concat, Driver.after_concat]
    exact ih.call c

/-- A run returns the same on both exactly if its reads get the same. -/
theorem results_eq_iff (d : Dev) (calls : List Call) :
    plain.results d calls = mutex.results d calls ↔ GetsSame calls := by
  induction calls using List.reverseRecOn with
  | nil => exact iff_of_true rfl getsSame_nil
  | append_singleton calls c ih =>
    rw [Driver.results_concat, Driver.results_concat, getsSame_concat, ← ih,
      ← (twins_after d calls).result_eq_iff c]
    constructor
    · intro heq
      obtain ⟨hcalls, hc⟩ := List.append_inj' heq rfl
      exact ⟨hcalls, List.singleton_inj.mp hc⟩
    · rintro ⟨hcalls, hc⟩
      rw [hcalls, hc]

/-- What a read returns after a write. -/
theorem read_after_write_iff (d : Dev) (userBuffer : UserBlock) (count : ℕ) {sink : UserSink}
    {c : ℕ} (hsink : sink.left (min c (min count 255)) = 0) :
    driverRead sink c (driverWrite userBuffer count d).1 =
      ⟨(min c (min count 255 - userBuffer.left (min count 255)) : ℕ),
        userBuffer.first (min c (min count 255 - userBuffer.left (min count 255)))⟩ ↔
      userBuffer.left (min count 255) = 0 ∨
        c + userBuffer.left (min count 255) ≤ min count 255 := by
  have hleft := userBuffer.left_le (min count 255)
  have hread : driverRead sink c (driverWrite userBuffer count d).1 =
      ⟨(min c (min count 255) : ℕ),
        (copyFromUser d.buffer userBuffer (min count 255)).toList.take
          (min c (min count 255))⟩ := by
    simp only [driverRead, driverWrite, hsink, Nat.sub_zero]
  have hcopied := take_copied d.buffer userBuffer (Nat.min_le_right count 255)
  rw [hread]
  generalize min count 255 = m at *
  constructor
  · intro heq
    have hcode : min c m = min c (m - userBuffer.left m) := Int.ofNat.inj (congrArg Ret.code heq)
    omega
  · intro hle
    have hcode : min c m = min c (m - userBuffer.left m) := by omega
    rw [hcode, ← UserBlock.take_first, ← hcopied, List.take_take]

/-- **When the device returns what it has acknowledged.** A read of `c` bytes after a write that
returned `n` returns the first `min c n` bytes of the user if and only if the copy of the write was
complete or the read asks for no more than was copied; and a run of calls returns the same as on
`read_write_mutex.c` if and only if each read gets as much of what the last write asked for as of
what that copied. -/
theorem acknowledged_iff (d : Dev) :
    (∀ (userBuffer : UserBlock) (count : ℕ) {d' : Dev} {n : ℕ},
      driverWrite userBuffer count d = (d', ⟨n, []⟩) →
      ∀ (sink : UserSink) (c : ℕ), sink.left (min c d'.bufferPointer) = 0 →
        (driverRead sink c d' = ⟨(min c n : ℕ), userBuffer.first (min c n)⟩ ↔
          userBuffer.left (min count 255) = 0 ∨
            c + userBuffer.left (min count 255) ≤ min count 255)) ∧
      ∀ calls : List Call, plain.results d calls = mutex.results d calls ↔ GetsSame calls := by
  refine ⟨fun userBuffer count d' n hwrite sink c hsink => ?_, results_eq_iff d⟩
  obtain rfl : (driverWrite userBuffer count d).1 = d' := congrArg Prod.fst hwrite
  obtain rfl : min count 255 - userBuffer.left (min count 255) = n :=
    Int.ofNat.inj (congrArg (fun result => result.2.code) hwrite)
  exact read_after_write_iff d userBuffer count hsink

/-- A buffer that all of a read fits into. -/
def fullSink : UserSink := ⟨fun _ => 0, fun _ => Nat.zero_le _⟩

/-- A user's five bytes, of which the last two cannot be copied. -/
def partialBlock : UserBlock :=
  ⟨fun i => [104, 101, 108, 108, 111].getD i 0, fun n => n - 3, fun _ => Nat.sub_le _ _⟩

/-- Three bytes are acknowledged, and three are read. -/
theorem acknowledged_iff_short :
    driverRead fullSink 3 (driverWrite partialBlock 5 .static).1 = ⟨3, [104, 101, 108]⟩ :=
  ((acknowledged_iff .static).1 partialBlock 5 rfl fullSink 3 rfl).mpr (Or.inr (by decide))

/-- Three bytes are acknowledged, and five are read; on the other device three. -/
theorem reads_unacknowledged :
    (driverWrite partialBlock 5 .static).2 = ⟨3, []⟩ ∧
      driverRead fullSink 5 (driverWrite partialBlock 5 .static).1 =
        ⟨5, [104, 101, 108, 0, 0]⟩ ∧
      plain.results .static [.write partialBlock 5, .read fullSink 5] ≠
        mutex.results .static [.write partialBlock 5, .read fullSink 5] := by
  decide +kernel

/-! ## Reading until the end -/

/-- A read on an open file, with `*offs` as the state. -/
def readCall (d : Dev) (offs : ℕ) (call : UserSink × ℕ) : Option (ℕ × Ret) :=
  some (offs, driverRead call.1 call.2 d)

/-- The message in the buffer. -/
def stored (d : Dev) : List UInt8 := d.buffer.toList.take d.bufferPointer

theorem length_stored (hpointer : d.bufferPointer ≤ 255) :
    (stored d).length = d.bufferPointer := by
  rw [stored, List.length_take, Vector.length_toList, min_eq_left hpointer]

/-- A read that does not fault returns the front of the message. -/
theorem driverRead_eq (hpointer : d.bufferPointer ≤ 255) {sink : UserSink}
    (hsink : ∀ n, sink.left n = 0) (count : ℕ) :
    driverRead sink count d = ⟨(min count (stored d).length : ℕ), (stored d).take count⟩ := by
  simp only [driverRead, hsink, Nat.sub_zero]
  rw [length_stored hpointer, stored, List.take_take]

/-- **A read loop does not come to the end of a message.** Every read returns the front of what
is stored, whatever has been read before. So a loop that reads until a read returns 0 ends, within
as many reads as there are bytes and one, and has then got the message once, if and only if
nothing was to be written. -/
theorem read_loop_iff {userBuffer : UserBlock} {count : ℕ} {r : Ret}
    (hwrite : driverWrite userBuffer count d = (d', r)) (offs : ℕ) {calls : ℕ → UserSink × ℕ}
    (hpos : ∀ n, 0 < (calls n).2) (hfault : ∀ n k, (calls n).1.left k = 0) :
    Nonempty (Session (readCall d') offs calls) ∧ ∀ S : Session (readCall d') offs calls,
      (∀ n, S.ret n =
        ⟨(min (calls n).2 (stored d').length : ℕ), (stored d').take (calls n).2⟩) ∧
      ((∃ n ≤ (stored d').length, S.EndsAt n ∧ S.received (n + 1) = stored d') ↔ count = 0) := by
  have hpointer : d'.bufferPointer = min count 255 :=
    (congrArg (fun result => result.1.bufferPointer) hwrite).symm
  have hle : d'.bufferPointer ≤ 255 := hpointer ▸ Nat.min_le_right _ _
  have hlength : (stored d').length = min count 255 := (length_stored hle).trans hpointer
  refine ⟨Session.nonempty fun n offs => ⟨_, _, rfl⟩, fun S => ?_⟩
  have hret : ∀ n, S.ret n =
      ⟨(min (calls n).2 (stored d').length : ℕ), (stored d').take (calls n).2⟩ := by
    intro n
    have hstep : driverRead (calls n).1 (calls n).2 d' = S.ret n :=
      congrArg Prod.snd (Option.some.inj (S.step n))
    rw [← hstep]
    exact driverRead_eq hle (hfault n) _
  refine ⟨hret, ?_, ?_⟩
  · rintro ⟨n, -, hend, -⟩
    have hzero := hend.1
    rw [hret] at hzero
    have hzero : min (calls n).2 (stored d').length = 0 := Int.ofNat_eq_zero.mp hzero
    have hn := hpos n
    omega
  · intro hcount
    have hnil : stored d' = [] := List.eq_nil_of_length_eq_zero (by rw [hlength]; omega)
    refine ⟨0, Nat.zero_le _, ⟨?_, fun k hk => by cases hk⟩, ?_⟩
    · rw [hret, hnil, List.length_nil, Nat.min_zero]
      rfl
    · rw [Session.received, Session.received, hret, hnil, List.take_nil]
      rfl

/-- One byte is asked for at a time. -/
def byteByByte (_ : ℕ) : UserSink × ℕ := (fullSink, 1)

/-- Two bytes are written, and every read of one byte returns the first of them; nothing is
written, and the loop ends at once. -/
theorem read_loop_iff_both :
    (∃ S : Session (readCall (driverWrite (.ofList [97, 98]) 2 .static).1) 0 byteByByte,
      ∀ n, S.ret n = ⟨1, [97]⟩) ∧
    ∃ S : Session (readCall (driverWrite partialBlock 0 .static).1) 0 byteByByte,
      ∃ n ≤ 0, S.EndsAt n ∧ S.received (n + 1) = [] := by
  have hpos : ∀ n, 0 < (byteByByte n).2 := fun _ => Nat.one_pos
  constructor
  · have hwrite : driverWrite (.ofList [97, 98]) 2 .static = _ := rfl
    obtain ⟨⟨S⟩, hloop⟩ := read_loop_iff hwrite 0 hpos fun _ _ => rfl
    have hfront : (⟨(min 1 (stored (driverWrite (.ofList [97, 98]) 2 .static).1).length : ℕ),
        (stored (driverWrite (.ofList [97, 98]) 2 .static).1).take 1⟩ : Ret) = ⟨1, [97]⟩ := by
      decide +kernel
    exact ⟨S, fun n => ((hloop S).1 n).trans hfront⟩
  · have hwrite : driverWrite partialBlock 0 .static = _ := rfl
    obtain ⟨⟨S⟩, hloop⟩ := read_loop_iff hwrite 0 hpos fun _ _ => rfl
    exact ⟨S, (hloop S).2.mpr rfl⟩

/-- One byte is written; it is read again and again. -/
theorem read_loop_repeats :
    ∃ S : Session (readCall (driverWrite (.ofList [97]) 1 .static).1) 0 byteByByte,
      (∀ n, S.received n = List.replicate n 97) ∧ ¬∃ n, S.EndsAt n := by
  have hread : driverRead fullSink 1 (driverWrite (.ofList [97]) 1 .static).1 = ⟨1, [97]⟩ := by
    decide +kernel
  refine ⟨⟨fun _ => 0, fun _ => ⟨1, [97]⟩, rfl, fun _ => congrArg (fun r => some (0, r)) hread⟩,
    fun n => ?_, fun ⟨n, hend, _⟩ => by cases hend⟩
  induction n with
  | zero => rfl
  | succ n ih => rw [Session.received, ih, List.replicate_succ']

end ReadWrite

end KernelModules
