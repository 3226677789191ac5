import KernelModules.UserMemory
import Mathlib.Data.List.Basic

/-!
# `buggy_leaky_device.c`

The device that demonstrates the lack of memory zeroing: one block from `kmalloc`, never
cleared, of which a read hands out everything up to `buffer_size`, however much of it the
last write filled. A write that is shorter than the block leaves the bytes behind it as
they were: those of earlier writes, or of whoever had the memory before.

An access outside the block has no result (`none`); `kmalloc` may return any block, or
`NULL`.

`leaky_reads_depend_on_message_iff` is about two runs that end in the same write and the
same reads. What is read is the same, whatever came before, exactly when the reads stay
within the message or the message fills the block.
-/

namespace KernelModules

namespace LeakyDevice

/-- The module's variables. -/
structure LeakyDev where
  /-- `buffer_size` -/
  bufferSize : ℕ
  /-- the block `buffer` points to, `none` for `NULL` -/
  buffer : Option (List UInt8)

/-- `leaky_init`, once the device is registered; `block` is what `kmalloc` returns. -/
def leakyInit (bufferSize : ℕ) (block : Option (List UInt8)) : LeakyDev := ⟨bufferSize, block⟩

/-- `dev_read`, with the file offset before and after. Both the hex dump and the copy
read the block, the dump all of `buffer_size`. -/
def devRead (userBuf : UserDst) (len offset : ℕ) (d : LeakyDev) : Option (Ret × ℕ) :=
  if d.bufferSize ≤ offset then some (⟨0, []⟩, offset)
  else
    let toCopy := min len (d.bufferSize - offset)
    match d.buffer with
    | none => none
    | some block =>
      if block.length < d.bufferSize then none
      else if userBuf.accepts toCopy then
        some (⟨toCopy, (block.drop offset).take toCopy⟩, offset + toCopy)
      else some (.error efault, offset)

/-- `dev_write`; `fresh` is what `kmalloc` returns if it is asked for a block here. -/
def devWrite (fresh : Option (List UInt8)) (userBuf : UserBlock) (len : ℕ) (d : LeakyDev) :
    Option (LeakyDev × Ret) :=
  let toCopy := min len d.bufferSize
  match d.buffer.or fresh with
  | none => some (d, .error enomem)
  | some block =>
    if block.length < toCopy then none
    else
      let d := { d with buffer := some (copyToBlock block userBuf toCopy) }
      if userBuf.left toCopy = 0 then some (d, ⟨toCopy, []⟩) else some (d, .error efault)

/-! ## Runs without faults -/

/-- A write of a whole message. -/
def writeMessage (d : LeakyDev) (msg : List UInt8) : Option LeakyDev :=
  (devWrite none (.ofList msg) msg.length d).map Prod.fst

/-- What a sequence of reads on one open file returns, from a file offset on. -/
def readSeq (d : LeakyDev) : ℕ → List ℕ → Option (List (List UInt8))
  | _, [] => some []
  | offset, len :: lens => do
    let (r, offset) ← devRead (fun _ => true) len offset d
    let rest ← readSeq d offset lens
    some (r.out :: rest)

/-- A run: the module is loaded, some messages are written, then a last one, and then a
freshly opened file is read. -/
def session (init : List UInt8) (earlier : List (List UInt8)) (msg : List UInt8)
    (lens : List ℕ) : Option (List (List UInt8)) := do
  let d ← earlier.foldlM writeMessage (leakyInit init.length (some init))
  let d ← writeMessage d msg
  readSeq d 0 lens

/-- A list cut into pieces of the given lengths, as far as it goes. -/
def chunks : List ℕ → List UInt8 → List (List UInt8)
  | [], _ => []
  | n :: ns, xs => xs.take n :: chunks ns (xs.drop n)

theorem flatten_chunks : ∀ (ns : List ℕ) (xs : List UInt8),
    (chunks ns xs).flatten = xs.take ns.sum
  | [], xs => by simp [chunks]
  | n :: ns, xs => by
    rw [chunks, List.flatten_cons, flatten_chunks ns, List.sum_cons, List.take_add]

/-- The pieces depend on the bytes they are made of only. -/
theorem chunks_congr {ns : List ℕ} {xs ys : List UInt8}
    (h : xs.take ns.sum = ys.take ns.sum) : chunks ns xs = chunks ns ys := by
  induction ns generalizing xs ys with
  | nil => rfl
  | cons n ns ih =>
    rw [List.sum_cons, List.take_add, List.take_add] at h
    have hhead : xs.take n = ys.take n := by
      have hcut := congrArg (List.take n) h
      rwa [← List.take_add, ← List.take_add, List.take_take, List.take_take,
        min_eq_left (Nat.le_add_right ..)] at hcut
    rw [hhead, List.append_cancel_left_eq] at h
    rw [chunks, chunks, hhead, ih h]

/-- A write into the module's block puts the message in front of what was there. -/
theorem writeMessage_eq {block : List UInt8} (msg : List UInt8) :
    writeMessage ⟨block.length, some block⟩ msg =
      some ⟨block.length, some (msg.take block.length ++ block.drop msg.length)⟩ := by
  have hle : min msg.length block.length ≤ block.length := min_le_right ..
  have hcopy : copyToBlock block (.ofList msg) (min msg.length block.length) =
      msg.take block.length ++ block.drop msg.length := by
    rw [copyToBlock_eq hle rfl, UserBlock.first_ofList (min_le_left ..)]
    rcases Nat.le_total msg.length block.length with h | h
    · rw [min_eq_left h, List.take_length, List.take_of_length_le h]
    · rw [min_eq_right h, List.drop_length, List.drop_of_length_le h]
  simp [writeMessage, devWrite, UserBlock.ofList, Nat.not_lt.mpr hle]
  exact hcopy

/-- Writes keep the size of the block. -/
theorem foldlM_writeMessage (earlier : List (List UInt8)) : ∀ block : List UInt8,
    ∃ block', block'.length = block.length ∧
      earlier.foldlM writeMessage ⟨block.length, some block⟩ =
        some ⟨block'.length, some block'⟩ := by
  induction earlier with
  | nil => exact fun block => ⟨block, rfl, rfl⟩
  | cons msg earlier ih =>
    intro block
    have hlen : (msg.take block.length ++ block.drop msg.length).length = block.length := by
      rw [List.length_append, List.length_take, List.length_drop]
      omega
    obtain ⟨block', hlen', hfold⟩ := ih (msg.take block.length ++ block.drop msg.length)
    refine ⟨block', hlen'.trans hlen, ?_⟩
    rw [List.foldlM_cons, writeMessage_eq, ← hfold, hlen]
    rfl

/-- Reads hand out the block piece by piece. -/
theorem readSeq_eq (block : List UInt8) (lens : List ℕ) : ∀ offset,
    readSeq ⟨block.length, some block⟩ offset lens =
      some (chunks lens (block.drop offset)) := by
  induction lens with
  | nil => exact fun _ => rfl
  | cons len lens ih =>
    intro offset
    by_cases hend : block.length ≤ offset
    · have hread : devRead (fun _ => true) len offset ⟨block.length, some block⟩ =
          some (⟨0, []⟩, offset) := if_pos hend
      rw [readSeq, hread, List.drop_of_length_le hend]
      simp [chunks, ih, List.drop_of_length_le hend]
    · have hread : devRead (fun _ => true) len offset ⟨block.length, some block⟩ =
          some (⟨(min len (block.length - offset) : ℕ),
            (block.drop offset).take (min len (block.length - offset))⟩,
            offset + min len (block.length - offset)) := by
        simp [devRead, hend, UserDst.accepts]
      have htake : (block.drop offset).take (min len (block.length - offset)) =
          (block.drop offset).take len := by
        rcases Nat.le_total len (block.length - offset) with h | h
        · rw [min_eq_left h]
        · rw [min_eq_right h, List.take_of_length_le (by rw [List.length_drop]),
            List.take_of_length_le (by rw [List.length_drop]; exact h)]
      have hdrop : block.drop (offset + min len (block.length - offset)) =
          (block.drop offset).drop len := by
        rw [List.drop_drop]
        rcases Nat.le_total len (block.length - offset) with h | h
        · rw [min_eq_left h]
        · rw [min_eq_right h, List.drop_of_length_le (by omega),
            List.drop_of_length_le (by omega)]
      rw [readSeq, hread]
      simp [chunks, ih, htake, hdrop]

/-- A message written and read back: the message, and behind it the rest of the block. -/
theorem read_after_write (block : List UInt8) {msg : List UInt8}
    (hmsg : msg.length ≤ block.length) (lens : List ℕ) :
    ((writeMessage ⟨block.length, some block⟩ msg).bind fun d => readSeq d 0 lens) =
      some (chunks lens (msg ++ block.drop msg.length)) := by
  have hsize : (msg ++ block.drop msg.length).length = block.length := by
    rw [List.length_append, List.length_drop]
    omega
  have hread := readSeq_eq (msg ++ block.drop msg.length) lens 0
  rw [hsize, List.drop_zero] at hread
  rw [writeMessage_eq, Option.bind_some, List.take_of_length_le hmsg]
  exact hread

/-- A run reads the message and what everything before it has left behind. -/
theorem session_eq (init : List UInt8) (earlier : List (List UInt8)) {msg : List UInt8}
    (hmsg : msg.length ≤ init.length) (lens : List ℕ) :
    ∃ rest : List UInt8, rest.length = init.length - msg.length ∧
      session init earlier msg lens = some (chunks lens (msg ++ rest)) := by
  obtain ⟨block, hlen, hfold⟩ := foldlM_writeMessage earlier init
  refine ⟨block.drop msg.length, by rw [List.length_drop, hlen], ?_⟩
  rw [session, leakyInit, hfold]
  exact read_after_write block (hlen ▸ hmsg) lens

/-- The first byte behind the message, if the reads get that far. -/
theorem byte_behind {msg rest : List UInt8} {lens : List ℕ} (hsum : msg.length < lens.sum) :
    (chunks lens (msg ++ rest)).flatten[msg.length]? = rest.head? := by
  rw [flatten_chunks, List.getElem?_take_of_lt hsum, List.getElem?_append_right (le_refl _),
    Nat.sub_self, List.head?_eq_getElem?]

/-- **What a reader gets depends on the last message only, exactly when the reads stay
within it or it fills the block**: for every size, last message and sequence of reads,
all runs agree on what is read, whatever the block held at first and whatever was written
earlier, if and only if the smaller of the block and the bytes asked for is no longer
than the message. -/
theorem leaky_reads_depend_on_message_iff {size : ℕ} {msg : List UInt8}
    (hmsg : msg.length ≤ size) (lens : List ℕ) :
    (∀ (init₁ init₂ : List UInt8) (earlier₁ earlier₂ : List (List UInt8)),
      init₁.length = size → init₂.length = size →
      session init₁ earlier₁ msg lens = session init₂ earlier₂ msg lens) ↔
    min size lens.sum ≤ msg.length := by
  constructor
  · -- a block of zeroes and a block of ones differ right behind the message
    intro hsame
    by_contra hlt
    have hsum : msg.length < lens.sum := by omega
    have hrun : ∀ b : UInt8, session (List.replicate size b) [] msg lens =
        some (chunks lens (msg ++ List.replicate (size - msg.length) b)) := by
      intro b
      have hmsg' : msg.length ≤ (List.replicate size b).length := by
        rwa [List.length_replicate]
      have hread := read_after_write (List.replicate size b) hmsg' lens
      rwa [List.drop_replicate] at hread
    have heq := hsame (List.replicate size 0) (List.replicate size 1) [] []
      List.length_replicate List.length_replicate
    rw [hrun, hrun, Option.some_inj] at heq
    have hbyte := congrArg (fun out => out.flatten[msg.length]?) heq
    simp only [byte_behind hsum] at hbyte
    obtain ⟨n, hn⟩ : ∃ n, size - msg.length = n + 1 := ⟨size - msg.length - 1, by omega⟩
    rw [hn, List.replicate_succ, List.replicate_succ, List.head?_cons, List.head?_cons] at hbyte
    cases hbyte
  · rintro hle init₁ init₂ earlier₁ earlier₂ h₁ h₂
    obtain ⟨rest₁, hrest₁, hs₁⟩ := session_eq init₁ earlier₁ (h₁ ▸ hmsg) lens
    obtain ⟨rest₂, hrest₂, hs₂⟩ := session_eq init₂ earlier₂ (h₂ ▸ hmsg) lens
    rw [hs₁, hs₂, Option.some_inj]
    apply chunks_congr
    rcases Nat.le_total size lens.sum with hsum | hsum
    · -- the message fills the block: there is nothing behind it
      rw [min_eq_left hsum] at hle
      have hnil₁ : rest₁ = [] := List.length_eq_zero_iff.mp (by omega)
      have hnil₂ : rest₂ = [] := List.length_eq_zero_iff.mp (by omega)
      rw [hnil₁, hnil₂]
    · rw [min_eq_right hsum] at hle
      rw [List.take_append_of_le_length hle, List.take_append_of_le_length hle]

/-- Two bytes read out of a two-byte message: a secret written earlier does not show. -/
theorem leaky_reads_depend_on_message_iff_short :
    session [0, 0, 0, 0] [[83, 69, 67, 82]] [104, 105] [2] =
      session [7, 7, 7, 7] [] [104, 105] [2] := by
  have hmsg : ([104, 105] : List UInt8).length ≤ 4 := by decide
  exact (leaky_reads_depend_on_message_iff hmsg [2]).mpr (by decide) _ _ _ _ rfl rfl

/-- The same message in the same block, read four bytes at once: behind it stands the
secret written earlier. -/
theorem leaky_read_shows_secret :
    session [0, 0, 0, 0] [[83, 69, 67, 82]] [104, 105] [4] = some [[104, 105, 67, 82]] ∧
      session [0, 0, 0, 0] [] [104, 105] [4] = some [[104, 105, 0, 0]] ∧
      session [0, 0, 0, 0] [[83, 69, 67, 82]] [104, 105] [4] ≠
        session [0, 0, 0, 0] [] [104, 105] [4] :=
  ⟨by decide, by decide, by decide⟩

end LeakyDevice

end KernelModules
