import KernelModules.LeakyDevice
import KernelModules.ReadLoop

/-!
# Reading `buggy_leaky_device.c` in pieces

The file offset is the only thing that a read changes: it says how much of the block the reader
has got. It grows by what a read returns, a read that fails leaves it alone, and a read returns 0
where it has reached `buffer_size`. So the pieces are the block, however they are asked for.

* `leakyRead` — `dev_read` on an open file of a device that nobody writes to;
* `Delivered` — the offset is the length of what the reader has got, and that is the block so far;
* `reads_deliver` — every session of reads.
-/

namespace KernelModules

namespace LeakyDevice

/-- `dev_read` on an open file: a user buffer and a length, and the offset as the state. -/
def leakyRead (d : LeakyDev) (offset : ℕ) (call : UserDst × ℕ) : Option (ℕ × Ret) :=
  (devRead call.1 call.2 offset d).map Prod.swap

/-- What a read does where the block is allocated. -/
inductive PieceRead (d : LeakyDev) (block : List UInt8) (userBuf : UserDst) (offset len : ℕ) :
    ℕ → Ret → Prop where
  /-- nothing is left -/
  | done : d.bufferSize ≤ offset → PieceRead d block userBuf offset len offset ⟨0, []⟩
  /-- a piece is copied -/
  | piece : offset < d.bufferSize → userBuf.accepts (min len (d.bufferSize - offset)) = true →
      PieceRead d block userBuf offset len (offset + min len (d.bufferSize - offset))
        ⟨(min len (d.bufferSize - offset) : ℕ),
          (block.drop offset).take (min len (d.bufferSize - offset))⟩
  /-- the copy fails -/
  | fault : offset < d.bufferSize → userBuf.accepts (min len (d.bufferSize - offset)) = false →
      PieceRead d block userBuf offset len offset (.error efault)

variable {d : LeakyDev} {block : List UInt8} {userBuf : UserDst} {offset offset' len : ℕ}
  {out : List UInt8} {r : Ret}

/-- Every read has a result. -/
theorem exists_pieceRead (hbuffer : d.buffer = some block) (hsize : d.bufferSize ≤ block.length)
    (offset : ℕ) (call : UserDst × ℕ) :
    ∃ offset' r, leakyRead d offset call = some (offset', r) ∧
      PieceRead d block call.1 offset call.2 offset' r := by
  rw [leakyRead, devRead, hbuffer]
  split
  · next hend => exact ⟨_, _, rfl, .done hend⟩
  · next hlt =>
    rw [Nat.not_le] at hlt
    simp only [Nat.not_lt.mpr hsize, if_false]
    split
    · next haccepts => exact ⟨_, _, rfl, .piece hlt haccepts⟩
    · next hfault => exact ⟨_, _, rfl, .fault hlt (Bool.eq_false_of_not_eq_true hfault)⟩

theorem pieceRead_of_leakyRead (hbuffer : d.buffer = some block)
    (hsize : d.bufferSize ≤ block.length) {call : UserDst × ℕ}
    (h : leakyRead d offset call = some (offset', r)) :
    PieceRead d block call.1 offset call.2 offset' r := by
  obtain ⟨offset₁, r₁, hread, hpiece⟩ := exists_pieceRead hbuffer hsize offset call
  rw [h] at hread
  cases hread
  exact hpiece

/-- The reader has got the block as far as the offset. -/
def Delivered (d : LeakyDev) (block : List UInt8) (offset : ℕ) (out : List UInt8) : Prop :=
  offset ≤ d.bufferSize ∧ out = block.take offset

theorem Delivered.step (h : Delivered d block offset out)
    (hr : PieceRead d block userBuf offset len offset' r) :
    Delivered d block offset' (out ++ r.out) := by
  obtain ⟨hle, rfl⟩ := h
  cases hr with
  | done _ => exact ⟨hle, List.append_nil _⟩
  | piece _ _ =>
    refine ⟨by omega, ?_⟩
    rw [← List.take_add]
  | fault _ _ => exact ⟨hle, List.append_nil _⟩

/-- All of it has been delivered where the offset has reached the end. -/
theorem Delivered.eq_iff (hsize : d.bufferSize ≤ block.length)
    (h : Delivered d block offset out) : out = block.take d.bufferSize ↔ d.bufferSize ≤ offset := by
  obtain ⟨hle, rfl⟩ := h
  constructor
  · intro heq
    have hlength := congrArg List.length heq
    rw [List.length_take, List.length_take] at hlength
    omega
  · intro hge
    rw [Nat.le_antisymm hle hge]

/-- A read returns 0 at the end only, if it asks for something. -/
theorem PieceRead.code_eq_zero_iff (hr : PieceRead d block userBuf offset len offset' r)
    (hlen : 0 < len) : r.code = 0 ↔ d.bufferSize ≤ offset := by
  cases hr with
  | done hend => exact iff_of_true rfl hend
  | piece hlt _ =>
    refine iff_of_false (fun hcode => ?_) (Nat.not_le.mpr hlt)
    have hcode : min len (d.bufferSize - offset) = 0 := Int.ofNat_eq_zero.mp hcode
    omega
  | fault hlt _ => exact iff_of_false (by decide) (Nat.not_le.mpr hlt)

/-- A read that returns something brings the offset closer to the end. -/
theorem PieceRead.lt_of_code_pos (hr : PieceRead d block userBuf offset len offset' r)
    (hcode : 0 < r.code) : d.bufferSize - offset' < d.bufferSize - offset := by
  cases hr with
  | done _ => cases hcode
  | piece hlt _ =>
    have hcode : 0 < min len (d.bufferSize - offset) := Int.natCast_pos.mp hcode
    omega
  | fault _ _ => cases hcode

/-- A read that returns nothing, or fails, changes nothing. -/
theorem PieceRead.of_code_nonpos (hr : PieceRead d block userBuf offset len offset' r)
    (hcode : r.code ≤ 0) : offset' = offset ∧ r.out = [] := by
  cases hr with
  | done _ => exact ⟨rfl, rfl⟩
  | piece _ _ =>
    have hcode : min len (d.bufferSize - offset) = 0 :=
      Int.ofNat_eq_zero.mp (le_antisymm hcode (Int.natCast_nonneg _))
    simp [hcode]
  | fault _ _ => exact ⟨rfl, rfl⟩

/-- A read fails only if the copy does. -/
theorem PieceRead.fault_of_code_neg (hr : PieceRead d block userBuf offset len offset' r)
    (hcode : r.code < 0) : userBuf.accepts (min len (d.bufferSize - offset)) = false := by
  cases hr with
  | done _ => cases hcode
  | piece _ _ => exact absurd hcode (not_lt.mpr (Int.natCast_nonneg _))
  | fault _ hfault => exact hfault

/-- A read that does not fail returns how many bytes it hands out. -/
theorem PieceRead.code_eq_length (hr : PieceRead d block userBuf offset len offset' r)
    (hsize : d.bufferSize ≤ block.length) (hcode : 0 ≤ r.code) : r.code = r.out.length := by
  cases hr with
  | done _ => rfl
  | piece hlt _ =>
    have hlength : min len (d.bufferSize - offset) ≤ (block.drop offset).length := by
      rw [List.length_drop]
      omega
    rw [List.length_take_of_le hlength]
  | fault _ _ => exact absurd hcode (by decide)

/-- **Reads in pieces deliver the block.** Whatever lengths a reader asks for and whichever of
the reads fail, what has been delivered is a prefix of the block, a read returns the length of its
piece or fails, one that fails changes nothing, and a read returns 0 exactly where all of the block
has been delivered; a loop that reads until then comes to its end if finitely many reads fail. -/
theorem reads_deliver (hbuffer : d.buffer = some block) (hsize : d.bufferSize ≤ block.length)
    {calls : ℕ → UserDst × ℕ} (hpos : ∀ n, 0 < (calls n).2) :
    Nonempty (Session (leakyRead d) 0 calls) ∧
      ∀ S : Session (leakyRead d) 0 calls,
        (∀ n, S.received n <+: block.take d.bufferSize ∧
          ((S.ret n).code < 0 → S.state (n + 1) = S.state n ∧
            S.received (n + 1) = S.received n) ∧
          (0 ≤ (S.ret n).code → (S.ret n).code = (S.ret n).out.length) ∧
          ((S.ret n).code = 0 ↔ S.received n = block.take d.bufferSize)) ∧
        ({n | (S.ret n).code < 0}.Finite →
          ∃ n, S.EndsAt n ∧ S.received (n + 1) = block.take d.bufferSize) := by
  refine ⟨Session.nonempty fun n offset => ?_, fun S => ?_⟩
  · obtain ⟨offset', r, hread, -⟩ := exists_pieceRead hbuffer hsize offset (calls n)
    exact ⟨offset', r, hread⟩
  have hread : ∀ n, PieceRead d block (calls n).1 (S.state n) (calls n).2 (S.state (n + 1))
      (S.ret n) := fun n => pieceRead_of_leakyRead hbuffer hsize (S.step n)
  have hinv : ∀ n, Delivered d block (S.state n) (S.received n) :=
    S.invariant ⟨Nat.zero_le _, rfl⟩ fun n _ _ _ _ h hr =>
      h.step (pieceRead_of_leakyRead hbuffer hsize hr)
  have hzero : ∀ n, (S.ret n).code = 0 ↔ S.received n = block.take d.bufferSize := fun n =>
    ((hread n).code_eq_zero_iff (hpos n)).trans ((hinv n).eq_iff hsize).symm
  have hsame : ∀ n, (S.ret n).code ≤ 0 →
      S.state (n + 1) = S.state n ∧ S.received (n + 1) = S.received n := by
    intro n hcode
    obtain ⟨hstate, hout⟩ := (hread n).of_code_nonpos hcode
    refine ⟨hstate, ?_⟩
    rw [Session.received, hout, List.append_nil]
  refine ⟨fun n => ⟨?_, fun hneg => hsame n hneg.le, (hread n).code_eq_length hsize, hzero n⟩,
    fun hfin => ?_⟩
  · obtain ⟨hle, hout⟩ := hinv n
    rw [hout]
    exact List.take_prefix_take_left hle
  · obtain ⟨n, hend⟩ := S.exists_endsAt (fun offset => d.bufferSize - offset)
      (fun n hcode => (hread n).lt_of_code_pos hcode) hfin
    refine ⟨n, hend, ?_⟩
    rw [(hsame n hend.1.le).2]
    exact (hzero n).mp hend.1

/-- Two bytes are asked for at a time, and the second copy fails. -/
def twoAtATime (n : ℕ) : UserDst × ℕ := (fun _ => decide (n ≠ 1), 2)

/-- A block of five bytes, read so. -/
theorem reads_deliver_twoAtATime :
    ∃ S : Session (leakyRead ⟨5, some [104, 101, 108, 108, 111]⟩) 0 twoAtATime,
      ∃ n, S.EndsAt n ∧ S.received (n + 1) = [104, 101, 108, 108, 111] := by
  have hpos : ∀ n, 0 < (twoAtATime n).2 := fun _ => Nat.two_pos
  obtain ⟨⟨S⟩, hdeliver⟩ := reads_deliver (d := ⟨5, some [104, 101, 108, 108, 111]⟩) rfl
    (le_refl 5) hpos
  refine ⟨S, (hdeliver S).2 ((Set.finite_singleton 1).subset fun n hneg => ?_)⟩
  have hfault := (pieceRead_of_leakyRead rfl (le_refl 5) (S.step n)).fault_of_code_neg hneg
  simp only [twoAtATime, UserDst.accepts, List.all_eq_false, decide_eq_true_eq, not_not] at hfault
  obtain ⟨-, -, hn⟩ := hfault
  exact hn

end LeakyDevice

end KernelModules
