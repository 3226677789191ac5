import KernelModules.LeakyDevice
import KernelModules.Transition

/-!
# Writing to `buggy_leaky_device.c` in pieces

`dev_read` keeps a file offset and `dev_write` does not look at it: every write starts at the
beginning of the block. So the pieces of a message end up on top of each other, and at each
position stands what the last piece long enough has there.

* `ReadsBack` — a message is written in pieces, and as many bytes are read from a new file;
* `Coincides` — what the pieces leave at each position is the message all the same;
* `pieces_read_back_iff` — the one is the other; for every message of a length it is so only if
  there is no more than one piece.
-/

namespace KernelModules

namespace LeakyDevice

/-- A message is cut into pieces of the given lengths, the pieces are written, and a freshly
opened file is read: what is read is the message. -/
def ReadsBack (d : LeakyDev) (ns : List ℕ) (msg : List UInt8) : Prop :=
  (((chunks ns msg).foldlM writeMessage d).bind fun d => readSeq d 0 [msg.length]) = some [msg]

instance (d : LeakyDev) (ns : List ℕ) (msg : List UInt8) : Decidable (ReadsBack d ns msg) :=
  inferInstanceAs (Decidable (_ = _))

/-- The byte at a position: of the last piece that reaches it, or else of the block before. -/
def lastByte (block : List UInt8) (pieces : List (List UInt8)) (i : ℕ) : Option UInt8 :=
  ((latest (fun piece => decide (i < piece.length)) pieces).getD block)[i]?

/-- At each of its positions that is the byte of the message. -/
def Coincides (block : List UInt8) (pieces : List (List UInt8)) (msg : List UInt8) : Prop :=
  ∀ i < msg.length, lastByte block pieces i = msg[i]?

instance (block : List UInt8) (pieces : List (List UInt8)) (msg : List UInt8) :
    Decidable (Coincides block pieces msg) :=
  inferInstanceAs (Decidable (∀ i < msg.length, _))

variable {d : LeakyDev} {block : List UInt8}

/-- A write of a message that fits. -/
theorem writeMessage_of_le {msg : List UInt8} (hbuffer : d.buffer = some block)
    (hsize : d.bufferSize ≤ block.length) (hmsg : msg.length ≤ d.bufferSize) :
    writeMessage d msg = some { d with buffer := some (msg ++ block.drop msg.length) } := by
  have hcopy : copyToBlock block (.ofList msg) msg.length = msg ++ block.drop msg.length := by
    rw [copyToBlock_eq (hmsg.trans hsize) rfl, UserBlock.first_ofList (le_refl _),
      List.take_length]
  simp [writeMessage, devWrite, UserBlock.ofList, hbuffer, min_eq_left hmsg,
    Nat.not_lt.mpr (hmsg.trans hsize)]
  exact hcopy

theorem getElem?_append_drop (msg block : List UInt8) (i : ℕ) :
    (msg ++ block.drop msg.length)[i]? = if i < msg.length then msg[i]? else block[i]? := by
  split
  · next hi => exact List.getElem?_append_left hi
  · next hi =>
    rw [List.getElem?_append_right (Nat.not_lt.mp hi), List.getElem?_drop,
      Nat.add_sub_of_le (Nat.not_lt.mp hi)]

theorem lastByte_concat (block : List UInt8) (pieces : List (List UInt8)) (piece : List UInt8)
    (i : ℕ) : lastByte block (pieces ++ [piece]) i =
      if i < piece.length then piece[i]? else lastByte block pieces i := by
  rw [lastByte, latest_concat]
  by_cases hi : i < piece.length
  · rw [if_pos (decide_eq_true hi), if_pos hi]
    rfl
  · rw [if_neg (by simpa using hi), if_neg hi]
    rfl

/-- The block after the pieces. -/
theorem exists_foldlM_writeMessage (hbuffer : d.buffer = some block)
    (hsize : d.bufferSize ≤ block.length) (pieces : List (List UInt8))
    (hpieces : ∀ piece ∈ pieces, piece.length ≤ d.bufferSize) :
    ∃ block', pieces.foldlM writeMessage d = some { d with buffer := some block' } ∧
      block'.length = block.length ∧ ∀ i, block'[i]? = lastByte block pieces i := by
  induction pieces using List.reverseRecOn with
  | nil =>
    refine ⟨block, ?_, rfl, fun i => rfl⟩
    rw [← hbuffer]
    rfl
  | append_singleton pieces piece ih =>
    obtain ⟨block₁, hfold, hlength, hbyte⟩ := ih fun piece h =>
      hpieces piece (List.mem_append_left _ h)
    have hpiece : piece.length ≤ d.bufferSize := hpieces piece (by simp)
    refine ⟨piece ++ block₁.drop piece.length, ?_, ?_, fun i => ?_⟩
    · rw [List.foldlM_append, hfold]
      have hwrite := writeMessage_of_le (d := { d with buffer := some block₁ }) rfl
        (hlength ▸ hsize) hpiece
      simp [hwrite]
    · rw [List.length_append, List.length_drop]
      omega
    · rw [getElem?_append_drop, lastByte_concat, hbyte]

/-- A read from the start. -/
theorem readSeq_zero {n : ℕ} (hbuffer : d.buffer = some block)
    (hsize : d.bufferSize ≤ block.length) (hn : n ≤ d.bufferSize) :
    readSeq d 0 [n] = some [block.take n] := by
  rcases Nat.eq_zero_or_pos d.bufferSize with hzero | hpos
  · have hn : n = 0 := by omega
    simp [readSeq, devRead, hzero, hn]
  · simp [readSeq, devRead, hbuffer, Nat.not_le.mpr hpos, Nat.not_lt.mpr hsize, min_eq_left hn,
      UserDst.accepts]

theorem length_le_of_mem_chunks {piece : List UInt8} : ∀ {ns : List ℕ} {msg : List UInt8},
    piece ∈ chunks ns msg → piece.length ≤ msg.length
  | [], _, h => by cases h
  | n :: ns, msg, h => by
    rcases List.mem_cons.mp h with rfl | h
    · exact List.length_take_le' _ _
    · have hle := length_le_of_mem_chunks h
      rw [List.length_drop] at hle
      omega

/-- What is read is the message exactly if the pieces coincide with it. -/
theorem readsBack_iff (hbuffer : d.buffer = some block) (hsize : d.bufferSize ≤ block.length)
    (ns : List ℕ) {msg : List UInt8} (hmsg : msg.length ≤ d.bufferSize) :
    ReadsBack d ns msg ↔ Coincides block (chunks ns msg) msg := by
  obtain ⟨block', hfold, hlength, hbyte⟩ := exists_foldlM_writeMessage hbuffer hsize
    (chunks ns msg) fun _ hpiece => (length_le_of_mem_chunks hpiece).trans hmsg
  have hread : readSeq { d with buffer := some block' } 0 [msg.length] =
      some [block'.take msg.length] := readSeq_zero rfl (hlength ▸ hsize) hmsg
  rw [ReadsBack, hfold, Option.bind_some, hread, Option.some.injEq, List.cons.injEq,
    and_iff_left rfl]
  constructor
  · intro heq i hi
    rw [← hbyte, ← List.getElem?_take_of_lt hi, heq]
  · intro hcoincides
    apply List.ext_getElem?
    intro i
    by_cases hi : i < msg.length
    · rw [List.getElem?_take_of_lt hi, hbyte, hcoincides i hi]
    · rw [List.getElem?_eq_none (by rw [List.length_take]; omega),
        List.getElem?_eq_none (Nat.not_lt.mp hi)]

/-! ## More than one piece -/

theorem chunks_concat (ns : List ℕ) (n : ℕ) : ∀ xs : List UInt8,
    chunks (ns ++ [n]) xs = chunks ns xs ++ [(xs.drop ns.sum).take n] := by
  induction ns with
  | nil => exact fun xs => rfl
  | cons k ns ih =>
    intro xs
    rw [List.cons_append, chunks, ih, List.drop_drop, List.sum_cons]
    rfl

/-- The last piece begins where the message begins. -/
theorem Coincides.getElem_zero {ns : List ℕ} {n : ℕ} {msg : List UInt8} (hn : 0 < n)
    (hmsg : ns.sum < msg.length) (h : Coincides block (chunks (ns ++ [n]) msg) msg) :
    msg[ns.sum]? = msg[0]? := by
  have hzero := h 0 (by omega)
  have hpiece : 0 < ((msg.drop ns.sum).take n).length := by
    rw [List.length_take, List.length_drop]
    omega
  rw [chunks_concat, lastByte_concat, if_pos hpiece, List.getElem?_take_of_lt hn,
    List.getElem?_drop, Nat.add_zero] at hzero
  exact hzero

/-- One piece is the message. -/
theorem coincides_singleton (block msg : List UInt8) : Coincides block [msg] msg := by
  intro i hi
  have hconcat := lastByte_concat block [] msg i
  rw [if_pos hi] at hconcat
  exact hconcat

/-- **When a message written in pieces can be read back.** It can if and only if at each of its
positions the last piece that is long enough, or the block if there is none, has the byte of the
message; and every message that is cut in a given way can be read back if and only if it is
written in one piece. -/
theorem pieces_read_back_iff (hbuffer : d.buffer = some block)
    (hsize : d.bufferSize ≤ block.length) {ns : List ℕ} (hpos : ∀ n ∈ ns, 0 < n)
    (hsum : ns.sum ≤ d.bufferSize) :
    (∀ msg : List UInt8, msg.length = ns.sum →
      (ReadsBack d ns msg ↔ Coincides block (chunks ns msg) msg)) ∧
    ((∀ msg : List UInt8, msg.length = ns.sum → ReadsBack d ns msg) ↔ ns.length ≤ 1) := by
  have hiff : ∀ msg : List UInt8, msg.length = ns.sum →
      (ReadsBack d ns msg ↔ Coincides block (chunks ns msg) msg) := fun msg hmsg =>
    readsBack_iff hbuffer hsize ns (hmsg ▸ hsum)
  refine ⟨hiff, fun hall => ?_, fun hone msg hmsg => (hiff msg hmsg).mpr ?_⟩
  · rcases List.eq_nil_or_concat' ns with rfl | ⟨init, n, rfl⟩
    · exact Nat.zero_le _
    rcases init with _ | ⟨k, init⟩
    · exact le_refl _
    -- a one and then zeroes: the last piece has a zero where the message has the one
    exfalso
    have hk : 0 < k := hpos k (by simp)
    have hn : 0 < n := hpos n (by simp)
    have hsplit : (k :: init ++ [n]).sum = (k :: init).sum + n := by
      rw [List.sum_append, List.sum_singleton]
    obtain ⟨j, hj⟩ : ∃ j, (k :: init).sum = j + 1 :=
      ⟨(k :: init).sum - 1, by rw [List.sum_cons]; omega⟩
    have hmsg : (1 :: List.replicate (j + n) 0 : List UInt8).length = (k :: init ++ [n]).sum := by
      rw [List.length_cons, List.length_replicate, hsplit, hj]
      omega
    have hsame := Coincides.getElem_zero hn (by rw [hmsg, hsplit]; omega)
      ((hiff _ hmsg).mp (hall _ hmsg))
    rw [hj, List.getElem?_cons_succ, List.getElem?_replicate_of_lt (by omega)] at hsame
    cases hsame
  · match ns, hone with
    | [], _ =>
      intro i hi
      rw [hmsg] at hi
      cases hi
    | [n], _ =>
      have hchunks : chunks [n] msg = [msg] := by
        rw [chunks, chunks, List.take_of_length_le (by rw [hmsg, List.sum_singleton])]
      rw [hchunks]
      exact coincides_singleton block msg

/-- Three bytes written in one go. -/
theorem pieces_read_back_iff_whole : ReadsBack ⟨4, some [0, 0, 0, 0]⟩ [3] [97, 98, 99] :=
  ((pieces_read_back_iff (d := ⟨4, some [0, 0, 0, 0]⟩) rfl (le_refl 4) (by decide)
    (by decide)).2.mpr (le_refl 1)) _ rfl

/-- Two bytes written one by one: the second stands where the first should, and behind it what
was in the block. -/
theorem pieces_overwrite :
    ([[97], [98]].foldlM writeMessage ⟨4, some [0, 0, 0, 0]⟩).bind
      (fun d => readSeq d 0 [2]) = some [[98, 0]] ∧
      ¬ReadsBack ⟨4, some [0, 0, 0, 0]⟩ [1, 1] [97, 98] ∧
      ReadsBack ⟨4, some [0, 0, 0, 0]⟩ [2] [97, 98] := by decide

end LeakyDevice

end KernelModules
