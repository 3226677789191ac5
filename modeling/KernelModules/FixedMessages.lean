import KernelModules.FixedDevice

/-!
# Messages on `fixed_dev`

What a read returns is a prefix of the message of one write, and no message is read
twice (`fixed_delivers_message_prefixes`): a read empties the device whatever it took, so
between the write and the read that delivers it nothing but mode switches was served.

The comment after the wait in `my_read` says that `data_size > 0` there. In blocking mode
that was true when the wait looked; it is still true when no read, reset or empty write
runs between a wait and its lock (`fixed_read_finds_data`), and only then.
-/

namespace KernelModules

namespace FixedDevice

/-- A state of any number of tasks on the device. -/
abbrev FixedState (Tid : Type) : Type := Monitor.State FixedDev FixedQueue FixedCall Ret Tid

/-- A served critical section of the device. -/
abbrev FixedServed : Type := Monitor.Served FixedQueue FixedCall Ret

/-! ## The critical sections -/

/-- The three ways the section of `my_read` ends: `-EAGAIN`, a delivery that empties
the device, or `-EFAULT`. -/
theorem myReadLocked_cases (nonblocking : Bool) (userBuf : UserDst) (count : ℕ)
    (d : FixedDev) :
    let o := myReadLocked nonblocking userBuf count d
    let n := min count d.dataSize
    nonblocking = true ∧ d.dataSize = 0 ∧ o = ⟨d, .error eagain, none⟩ ∨
      (nonblocking = false ∨ d.dataSize ≠ 0) ∧ userBuf.accepts n = true ∧
        o = ⟨{ d with dataSize := 0 }, ⟨n, d.buffer.toList.take n⟩, none⟩ ∨
      (nonblocking = false ∨ d.dataSize ≠ 0) ∧ userBuf.accepts n = false ∧
        o = ⟨d, .error efault, none⟩ := by
  intro o n
  by_cases hagain : (nonblocking && d.dataSize == 0) = true
  · have ho : o = ⟨d, .error eagain, none⟩ := if_pos hagain
    simp only [Bool.and_eq_true, beq_iff_eq] at hagain
    exact .inl ⟨hagain.1, hagain.2, ho⟩
  · have hpast : nonblocking = false ∨ d.dataSize ≠ 0 := by
      simp only [Bool.and_eq_true, beq_iff_eq, not_and_or, Bool.not_eq_true] at hagain
      exact hagain
    right
    rcases hacc : userBuf.accepts n with _ | _
    · exact .inr ⟨hpast, rfl, (if_neg hagain).trans (if_neg (by rw [hacc]; exact nofun))⟩
    · exact .inl ⟨hpast, rfl, (if_neg hagain).trans (if_pos hacc)⟩

/-- The two ways the section of `my_write` ends. -/
theorem myWriteLocked_cases (userBuf : UserBlock) (count : ℕ) (d : FixedDev) :
    let o := myWriteLocked userBuf count d
    let n := min count bufSize
    let buffer := copyFromUser d.buffer userBuf n
    userBuf.left n = 0 ∧
        o = ⟨{ d with buffer := buffer, dataSize := n }, ⟨n, []⟩, some .readQueue⟩ ∨
      userBuf.left n ≠ 0 ∧ o = ⟨{ d with buffer := buffer }, .error efault, none⟩ := by
  intro o n buffer
  by_cases hleft : userBuf.left n = 0
  · exact .inl ⟨hleft, if_pos hleft⟩
  · exact .inr ⟨hleft, if_neg hleft⟩

/-! ## Messages and deliveries -/

/-- The served call is an `ioctl` other than `IOCTL_RESET`. -/
def IsSwitch (e : FixedServed) : Prop := ∃ cmd arg, e.call = .ioctl cmd arg ∧ cmd ≠ ioctlReset

/-- The served call is a read. -/
def IsRead (e : FixedServed) : Prop := ∃ userBuf count, e.call = .read userBuf count

theorem IsRead.not_switch {e : FixedServed} (h : IsRead e) : ¬ IsSwitch e := by
  obtain ⟨userBuf, count, hcall⟩ := h
  rintro ⟨cmd, arg, hcall', -⟩
  rw [hcall] at hcall'
  cases hcall'

/-- Section `k` of a history is a write of the first `len` bytes of `src`, and only mode
switches were served after it. -/
structure LastWrite (log : List FixedServed) (k : ℕ) (src : UserBlock) (len : ℕ) : Prop where
  /-- section `k` is the write -/
  write : ∃ e, log[k]? = some e ∧ e.call = .write src len
  /-- and nothing has touched the message since -/
  since : ∀ j e, k < j → log[j]? = some e → IsSwitch e

/-- An entry of an extended history is an old one or the new one. -/
theorem getElem?_concat_cases {α : Type} {log : List α} {e x : α} {i : ℕ}
    (h : (log ++ [e])[i]? = some x) : log[i]? = some x ∨ i = log.length ∧ e = x := by
  have hi := (List.getElem?_eq_some_iff.mp h).1
  rw [List.length_append, List.length_singleton] at hi
  rcases Nat.lt_or_ge i log.length with hlt | hge
  · rw [List.getElem?_append_left hlt] at h
    exact .inl h
  · obtain rfl : i = log.length := by omega
    rw [List.getElem?_concat_length] at h
    exact .inr ⟨rfl, Option.some.inj h⟩

theorem LastWrite.concat {log : List FixedServed} {k : ℕ} {src : UserBlock} {len : ℕ}
    (h : LastWrite log k src len) {e : FixedServed} (he : IsSwitch e) :
    LastWrite (log ++ [e]) k src len where
  write := by
    obtain ⟨w, hw, hcall⟩ := h.write
    exact ⟨w, (List.getElem?_append_left (List.getElem?_eq_some_iff.mp hw).1).trans hw, hcall⟩
  since := by
    intro j x hkj hx
    rcases getElem?_concat_cases hx with hx | ⟨-, rfl⟩
    · exact h.since j x hkj hx
    · exact he

/-- A write just served is the last write. -/
theorem lastWrite_concat (log : List FixedServed) {e : FixedServed} {src : UserBlock}
    {len : ℕ} (he : e.call = .write src len) :
    LastWrite (log ++ [e]) log.length src len where
  write := ⟨e, List.getElem?_concat_length, he⟩
  since := by
    intro j x hj hx
    have := (List.getElem?_eq_some_iff.mp hx).1
    rw [List.length_append, List.length_singleton] at this
    omega

/-- Section `i` is a read that returned the first `n = min(count, min(len, 128))` bytes
of section `k`, the most recent write before it; in between the two only mode switches
were served. -/
def Delivers (log : List FixedServed) (k i : ℕ) : Prop :=
  ∃ e userBuf count src len, log[i]? = some e ∧ e.call = .read userBuf count ∧
    LastWrite (log.take i) k src len ∧
    e.ret.code = (min count (min len bufSize) : ℕ) ∧
    e.ret.out = src.first (min count (min len bufSize))

/-- A message is delivered at most once: the second read would have the first between
itself and the write. -/
theorem Delivers.unique {log : List FixedServed} {k i j : ℕ} (hi : Delivers log k i)
    (hj : Delivers log k j) : i = j := by
  have hle : ∀ {i j : ℕ}, Delivers log k i → Delivers log k j → ¬ i < j := by
    intro i j hi hj hlt
    obtain ⟨e, userBuf, count, src, len, he, hcall, hlast, -⟩ := hi
    obtain ⟨_, _, _, _, _, -, -, hlast', -⟩ := hj
    obtain ⟨w, hw, -⟩ := hlast.write
    have hki : k < i := by
      have := (List.getElem?_eq_some_iff.mp hw).1
      rw [List.length_take] at this
      omega
    have hin : (log.take j)[i]? = some e := by
      rw [List.getElem?_take_of_lt hlt]
      exact he
    exact IsRead.not_switch ⟨userBuf, count, hcall⟩ (hlast'.since i e hki hin)
  have h₁ := hle hi hj
  have h₂ := hle hj hi
  omega

/-- What ties the buffer to the history of sections that did not fault: the device is
empty or holds the start of the last write, and every read that returned something
delivered one. -/
structure Traced (d : FixedDev) (log : List FixedServed) : Prop where
  /-- the message held is that of the last write -/
  held : d.dataSize = 0 ∨ ∃ k src len, LastWrite log k src len ∧
    d.dataSize = min len bufSize ∧ d.buffer.toList.take d.dataSize = src.first d.dataSize
  /-- reads that returned something delivered a write -/
  reads : ∀ i e, log[i]? = some e → IsRead e → 0 < e.ret.code → ∃ k, Delivers log k i

/-- Reads served before the last section were served by the history before it. -/
theorem Traced.reads_concat {d : FixedDev} {log : List FixedServed} {e : FixedServed}
    (h : Traced d log)
    (he : IsRead e → 0 < e.ret.code → ∃ k, Delivers (log ++ [e]) k log.length) :
    ∀ i x, (log ++ [e])[i]? = some x → IsRead x → 0 < x.ret.code →
      ∃ k, Delivers (log ++ [e]) k i := by
  intro i x hx hread hpos
  rcases getElem?_concat_cases hx with hx | ⟨rfl, rfl⟩
  · obtain ⟨k, e', userBuf, count, src, len, he', hcall, hlast, hret⟩ :=
      h.reads i x hx hread hpos
    have hlt : i < log.length := (List.getElem?_eq_some_iff.mp hx).1
    refine ⟨k, e', userBuf, count, src, len, ?_, hcall, ?_, hret⟩
    · rw [List.getElem?_append_left hlt]
      exact he'
    · rwa [List.take_append_of_le_length hlt.le]
  · exact he hread hpos

/-- Each section that does not fault keeps the buffer tied to the history. -/
theorem Traced.step {d : FixedDev} {log : List FixedServed} {c : FixedCall}
    {via : Option FixedQueue} (h : Traced d log)
    (hfault : (fixedBody c via d).ret.code ≠ -efault) :
    Traced (fixedBody c via d).next (log ++ [⟨c, via, (fixedBody c via d).ret⟩]) := by
  cases c with
  | read userBuf count =>
    change (myReadLocked via.isNone userBuf count d).ret.code ≠ -efault at hfault
    change Traced (myReadLocked via.isNone userBuf count d).next
      (log ++ [⟨_, via, (myReadLocked via.isNone userBuf count d).ret⟩])
    rcases myReadLocked_cases via.isNone userBuf count d with
      ⟨-, hzero, ho⟩ | ⟨-, -, ho⟩ | ⟨-, -, ho⟩
    · -- `-EAGAIN`: the device was empty and stays so
      rw [ho]
      refine ⟨.inl hzero, h.reads_concat fun _ hpos => ?_⟩
      exact absurd hpos (by change ¬ 0 < -eagain; decide)
    · -- a delivery: what was held is the start of the last write
      rw [ho]
      refine ⟨.inl rfl, h.reads_concat fun _ hpos => ?_⟩
      have hpos' : 0 < min count d.dataSize := Int.natCast_pos.mp hpos
      rcases h.held with hzero | ⟨k, src, len, hlast, hsize, hbytes⟩
      · omega
      · refine ⟨k, _, userBuf, count, src, len, List.getElem?_concat_length, rfl, ?_, ?_, ?_⟩
        · rw [List.take_left]
          exact hlast
        · rw [hsize]
        · change d.buffer.toList.take (min count d.dataSize) = _
          rw [← List.take_take, hbytes, UserBlock.take_first, hsize]
    · rw [ho] at hfault
      exact absurd rfl hfault
  | write userBuf count =>
    change (myWriteLocked userBuf count d).ret.code ≠ -efault at hfault
    change Traced (myWriteLocked userBuf count d).next
      (log ++ [⟨_, via, (myWriteLocked userBuf count d).ret⟩])
    rcases myWriteLocked_cases userBuf count d with ⟨hleft, ho⟩ | ⟨-, ho⟩
    · rw [ho]
      refine ⟨.inr ⟨log.length, userBuf, count, lastWrite_concat log rfl, rfl, ?_⟩, ?_⟩
      · exact take_copyFromUser d.buffer (min_le_right ..) hleft
      · exact h.reads_concat fun ⟨_, _, hcall⟩ => by cases hcall
    · rw [ho] at hfault
      exact absurd rfl hfault
  | ioctl cmd arg =>
    change Traced (myIoctlLocked cmd arg d).next
      (log ++ [⟨_, via, (myIoctlLocked cmd arg d).ret⟩])
    refine ⟨?_, h.reads_concat fun ⟨_, _, hcall⟩ => by cases hcall⟩
    by_cases hcmd : cmd = ioctlReset
    · rw [myIoctlLocked, if_pos hcmd]
      exact .inl rfl
    · rw [myIoctlLocked, if_neg hcmd]
      rcases h.held with hzero | ⟨k, src, len, hlast, hheld⟩
      · exact .inl hzero
      · exact .inr ⟨k, src, len, hlast.concat ⟨cmd, arg, rfl, hcmd⟩, hheld⟩

/-- No section makes the message longer than the buffer. -/
theorem dataSize_fixedBody {d : FixedDev} (h : d.dataSize ≤ bufSize) (c : FixedCall)
    (via : Option FixedQueue) : (fixedBody c via d).next.dataSize ≤ bufSize := by
  cases c with
  | read userBuf count =>
    change (myReadLocked via.isNone userBuf count d).next.dataSize ≤ _
    rcases myReadLocked_cases via.isNone userBuf count d with
      ⟨-, -, ho⟩ | ⟨-, -, ho⟩ | ⟨-, -, ho⟩ <;> rw [ho]
    · exact h
    · exact Nat.zero_le _
    · exact h
  | write userBuf count =>
    change (myWriteLocked userBuf count d).next.dataSize ≤ _
    rcases myWriteLocked_cases userBuf count d with ⟨-, ho⟩ | ⟨-, ho⟩ <;> rw [ho]
    · exact min_le_right ..
    · exact h
  | ioctl cmd arg =>
    change (myIoctlLocked cmd arg d).next.dataSize ≤ _
    rw [myIoctlLocked]
    split
    · exact Nat.zero_le _
    · exact h

/-- **Whole-message prefixes, at most once.** In every reachable state `data_size` is at
most 128. If no section has faulted so far, every read that returned more than 0 returned
the first `min(count, min(len, 128))` bytes of the most recent write before it, with no
read and no reset in between, and no two reads delivered the same write. -/
theorem fixed_delivers_message_prefixes {Tid : Type} [DecidableEq Tid] {s : FixedState Tid}
    (hs : (fixedMonitor.lts Tid fixedInit).Reachable s) :
    s.dev.dataSize ≤ 128 ∧
      ((∀ e ∈ s.log, e.ret.code ≠ -efault) →
        (∀ i e, s.log[i]? = some e → IsRead e → 0 < e.ret.code →
          ∃ k, Delivers s.log k i) ∧
        ∀ k i j, Delivers s.log k i → Delivers s.log k j → i = j) := by
  have hinv := Monitor.reachable_sections (m := fixedMonitor)
    (J := fun d log => d.dataSize ≤ bufSize ∧
      ((∀ e ∈ log, e.ret.code ≠ -efault) → Traced d log))
    ⟨by decide, fun _ => ⟨.inl rfl, fun i e he => by simp at he⟩⟩
    (fun {d log} c via ⟨hsize, htr⟩ => by
      refine ⟨dataSize_fixedBody hsize c via, fun hall => ?_⟩
      refine (htr fun e he => hall e (List.mem_append_left _ he)).step ?_
      exact hall _ (List.mem_append_right _ (List.mem_singleton.mpr rfl)))
    hs
  exact ⟨hinv.1, fun hall => ⟨(hinv.2 hall).reads, fun _ _ _ => Delivers.unique⟩⟩

/-! ### A writer and two readers -/

/-- A write of three bytes. -/
def writeThree : FixedCall := .write (.ofList [10, 20, 30]) 3

/-- A read of up to two bytes. -/
def readTwo : FixedCall := .read (fun _ => true) 2

/-- Three bytes are written, and a reader reads two of them. -/
def writeThenRead : List (Monitor.Act FixedCall Monitor.Duo) :=
  Monitor.Act.direct .one writeThree ++ Monitor.Act.through .two readTwo

/-- Three bytes are written and two of them read: the read delivers section 0, and it is
the only one that can. -/
theorem fixed_delivers_message_prefixes_two :
    ∃ s : FixedState Monitor.Duo, (fixedMonitor.lts Monitor.Duo fixedInit).Reachable s ∧
      s.log.map (fun e => e.ret) = [⟨3, []⟩, ⟨2, [10, 20]⟩] ∧
      ((∀ e ∈ s.log, e.ret.code ≠ -efault) →
        (∀ i e, s.log[i]? = some e → IsRead e → 0 < e.ret.code →
          ∃ k, Delivers s.log k i) ∧
        ∀ k i j, Delivers s.log k i → Delivers s.log k j → i = j) := by
  have hrun : ∃ s : FixedState Monitor.Duo,
      ((fixedMonitor.lts Monitor.Duo fixedInit).restrict fun _ _ => True).Reachable s ∧
      s.log.map (fun e => e.ret) = [⟨3, []⟩, ⟨2, [10, 20]⟩] :=
    Lts.exists_reachable_of_map writeThenRead _ (by decide +kernel)
  obtain ⟨s, hs, hlog⟩ := hrun
  exact ⟨s, hs.of_restrict, hlog, (fixed_delivers_message_prefixes hs.of_restrict).2⟩

/-! ## The comment after the wait -/

/-- The task is at the lock with a read that gets as far as the copy: it has waited, or
there is something to read. -/
def ReachesCopy {Tid : Type} (s : FixedState Tid) (t : Tid) : Prop :=
  ∃ userBuf count via, s.pc t = .locking (.read userBuf count) via ∧
    (via = none → s.dev.dataSize ≠ 0)

/-- Reads are the calls that wait. -/
def Reads : FixedCall → FixedQueue → Prop
  | .read _ _, _ => True
  | _, _ => False

instance (c : FixedCall) (q : FixedQueue) : Decidable (Reads c q) :=
  match c with
  | .read _ _ => isTrue trivial
  | .write _ _ | .ioctl _ _ => isFalse id

/-- The section leaves the device empty: a read that does not fault, a write of nothing,
or a reset. -/
def Empties (d : FixedDev) : FixedCall → FixedQueue → Prop
  | .read userBuf count, _ => userBuf.accepts (min count d.dataSize) = true
  | .write _ count, _ => count = 0
  | .ioctl cmd _, _ => cmd = ioctlReset

instance (d : FixedDev) (c : FixedCall) (q : FixedQueue) : Decidable (Empties d c q) :=
  match c with
  | .read userBuf count =>
    inferInstanceAs (Decidable (userBuf.accepts (min count d.dataSize) = true))
  | .write _ count => inferInstanceAs (Decidable (count = 0))
  | .ioctl cmd _ => inferInstanceAs (Decidable (cmd = ioctlReset))

/-- A reader's condition in terms of the message. -/
theorem fixedCond_iff {d : FixedDev} {q : FixedQueue} :
    fixedMonitor.cond q d = true ↔ 0 < d.dataSize := by
  cases q
  exact decide_eq_true_iff

/-- A section that empties the device leaves nothing to read. -/
theorem dataSize_of_empties {d : FixedDev} {c : FixedCall} {q : FixedQueue}
    (h : Empties d c q) (via : Option FixedQueue) :
    (fixedBody c via d).next.dataSize = 0 := by
  cases c with
  | read userBuf count =>
    change (myReadLocked via.isNone userBuf count d).next.dataSize = 0
    rcases myReadLocked_cases via.isNone userBuf count d with
      ⟨-, hzero, ho⟩ | ⟨-, -, ho⟩ | ⟨-, hacc, -⟩
    · rw [ho]
      exact hzero
    · rw [ho]
    · exact absurd (h.symm.trans hacc) nofun
  | write userBuf count =>
    obtain rfl : count = 0 := h
    have hleft : userBuf.left (min 0 bufSize) = 0 := by
      have := userBuf.left_le (min 0 bufSize)
      rw [Nat.zero_min] at this ⊢
      omega
    change (myWriteLocked userBuf 0 d).next.dataSize = 0
    rcases myWriteLocked_cases userBuf 0 d with ⟨-, ho⟩ | ⟨hne, -⟩
    · rw [ho]
      exact Nat.zero_min ..
    · exact absurd hleft hne
  | ioctl cmd arg =>
    obtain rfl : cmd = ioctlReset := h
    rfl

/-- Only such a section empties a device that held something. -/
theorem empties_of_cond {d : FixedDev} {c : FixedCall} {via : Option FixedQueue}
    {q : FixedQueue} (hbefore : fixedMonitor.cond q d = true)
    (hafter : fixedMonitor.cond q (fixedMonitor.body c via d).next = false) :
    Empties d c q := by
  rw [← Bool.not_eq_true, fixedCond_iff] at hafter
  rw [fixedCond_iff] at hbefore
  cases c with
  | read userBuf count =>
    change ¬ 0 < (myReadLocked via.isNone userBuf count d).next.dataSize at hafter
    rcases myReadLocked_cases via.isNone userBuf count d with
      ⟨-, hzero, -⟩ | ⟨-, hacc, -⟩ | ⟨-, -, ho⟩
    · omega
    · exact hacc
    · rw [ho] at hafter
      exact absurd hbefore hafter
  | write userBuf count =>
    change ¬ 0 < (myWriteLocked userBuf count d).next.dataSize at hafter
    rcases myWriteLocked_cases userBuf count d with ⟨-, ho⟩ | ⟨-, ho⟩
    · rw [ho] at hafter
      change ¬ 0 < min count bufSize at hafter
      have : 0 < bufSize := by decide
      change count = 0
      omega
    · rw [ho] at hafter
      exact absurd hbefore hafter
  | ioctl cmd arg =>
    by_contra hcmd
    change ¬ cmd = ioctlReset at hcmd
    change ¬ 0 < (myIoctlLocked cmd arg d).next.dataSize at hafter
    rw [myIoctlLocked, if_neg hcmd] at hafter
    exact hafter hbefore

/-- No section empties the device while another reader is between its wait and its
lock. -/
abbrev Considerate {Tid : Type} (s : FixedState Tid) : Monitor.Act FixedCall Tid → Prop :=
  fixedMonitor.Considerate Reads Empties s

/-- In every considerate run, the comment after the wait holds. -/
theorem dataSize_pos_of_reachesCopy {Tid : Type} [DecidableEq Tid] {s : FixedState Tid}
    (hs : ((fixedMonitor.lts Tid fixedInit).restrict Considerate).Reachable s) {t : Tid}
    (ht : ReachesCopy s t) : 0 < s.dev.dataSize := by
  have hfresh : fixedMonitor.Fresh Reads s :=
    Monitor.fresh_reachable (fun _ => empties_of_cond) hs
  obtain ⟨userBuf, count, via, hp, hnone⟩ := ht
  rcases via with _ | q
  · exact Nat.pos_of_ne_zero (hnone rfl)
  · have hpast : (s.pc t).PastWait Reads q := Monitor.Pc.pastWait_iff.mpr ⟨_, hp, trivial⟩
    exact fixedCond_iff.mp (hfresh t q hpast)

/-- The history holds no read of at least one byte that did not fail and returned 0. -/
def NoZeroRead (log : List FixedServed) : Prop :=
  ∀ e ∈ log, ∀ userBuf count, e.call = .read userBuf count → 0 < count →
    0 ≤ e.ret.code → e.ret.code ≠ 0

/-- In every considerate run the history stays that way. -/
theorem noZeroRead_reachable {Tid : Type} [DecidableEq Tid] {s : FixedState Tid}
    (hs : ((fixedMonitor.lts Tid fixedInit).restrict Considerate).Reachable s) :
    NoZeroRead s.log := by
  refine Monitor.served_reachable (fun {s t c via} hs hp userBuf count hcall hcount hcode => ?_) hs
  obtain rfl : c = .read userBuf count := hcall
  change 0 ≤ (myReadLocked via.isNone userBuf count s.dev).ret.code at hcode
  change (myReadLocked via.isNone userBuf count s.dev).ret.code ≠ 0
  rcases myReadLocked_cases via.isNone userBuf count s.dev with
    ⟨-, -, ho⟩ | ⟨hpast, -, ho⟩ | ⟨-, -, ho⟩ <;> rw [ho] at hcode ⊢
  · exact absurd hcode (by change ¬ 0 ≤ -eagain; decide)
  · have hpos : 0 < s.dev.dataSize := by
      refine dataSize_pos_of_reachesCopy hs ⟨userBuf, count, via, hp, ?_⟩
      rintro rfl
      exact hpast.resolve_left nofun
    change ((min count s.dev.dataSize : ℕ) : ℤ) ≠ 0
    omega
  · exact absurd hcode (by change ¬ 0 ≤ -efault; decide)

/-- **The comment after the wait**: in every run in which no section empties the device
while another reader is between its wait and its lock, a read that gets as far as the
copy finds `data_size > 0`, and no read of at least one byte returns 0. After a section
that does, the other reader gets there with `data_size = 0` and returns 0. -/
theorem fixed_read_finds_data {Tid : Type} [DecidableEq Tid] (s : FixedState Tid) :
    (((fixedMonitor.lts Tid fixedInit).restrict Considerate).Reachable s →
      (∀ t, ReachesCopy s t → 0 < s.dev.dataSize) ∧ NoZeroRead s.log) ∧
    ∀ t c via u q,
      s.pc t = .locking c via → Empties s.dev c q → u ≠ t → (s.pc u).PastWait Reads q →
        ∃ s₁ s₂ e, fixedMonitor.next s (.lock t) = some s₁ ∧
          ReachesCopy s₁ u ∧ s₁.dev.dataSize = 0 ∧
          fixedMonitor.next s₁ (.lock u) = some s₂ ∧ s₂.log = s₁.log ++ [e] ∧
          IsRead e ∧ e.ret.code = 0 := by
  refine ⟨fun hs =>
    ⟨fun t => dataSize_pos_of_reachesCopy hs, noZeroRead_reachable hs⟩, ?_⟩
  intro t c via u q hp hempties hut hpast
  have hzero : (fixedBody c via s.dev).next.dataSize = 0 := dataSize_of_empties hempties via
  have hafter : fixedMonitor.cond q (fixedMonitor.body c via s.dev).next = false := by
    rw [← Bool.not_eq_true, fixedCond_iff]
    change ¬ 0 < (fixedBody c via s.dev).next.dataSize
    omega
  obtain ⟨c', hu, hread, -, hnext⟩ :=
    Monitor.stale_of_pastWait (m := fixedMonitor) via hut hpast hafter
  cases c' with
  | read userBuf count =>
    refine ⟨_, _, _, Monitor.next_lock hp, ⟨userBuf, count, some q, ?_, nofun⟩, hzero, hnext,
      rfl, ⟨userBuf, count, rfl⟩, ?_⟩
    · rw [Monitor.State.serve_pc_ne s hut]
      exact hu
    · -- nothing to copy, so the copy cannot fault
      change (myReadLocked false userBuf count (fixedBody c via s.dev).next).ret.code = 0
      rcases myReadLocked_cases false userBuf count (fixedBody c via s.dev).next with
        ⟨hnb, -⟩ | ⟨-, -, ho⟩ | ⟨-, hacc, -⟩
      · cases hnb
      · rw [ho, hzero, Nat.min_zero]
        rfl
      · rw [hzero, Nat.min_zero, UserDst.accepts_zero] at hacc
        cases hacc
  | write userBuf count => exact hread.elim
  | ioctl cmd arg => exact hread.elim

/-- Three bytes are written, and then two readers pass their wait before either takes the
lock. -/
def readersPastWait : List (Monitor.Act FixedCall Monitor.Duo) :=
  Monitor.Act.direct .one writeThree ++
    (Monitor.Act.toLock .one readTwo ++ Monitor.Act.toLock .two readTwo)

/-- A lone reader finds the message; of two readers that pass their wait for one message,
the second gets to the copy with none left and returns 0. -/
theorem fixed_read_finds_data_readers :
    (∃ s, ((fixedMonitor.lts Monitor.Duo fixedInit).restrict Considerate).Reachable s ∧
      s.log.map (fun e => e.ret.code) = [3, 2] ∧ NoZeroRead s.log) ∧
    ∃ s s₁ s₂ e, (fixedMonitor.lts Monitor.Duo fixedInit).Reachable s ∧
      fixedMonitor.next s (.lock .one) = some s₁ ∧ ReachesCopy s₁ .two ∧ s₁.dev.dataSize = 0 ∧
      fixedMonitor.next s₁ (.lock .two) = some s₂ ∧ s₂.log = s₁.log ++ [e] ∧ IsRead e ∧
      e.ret.code = 0 := by
  constructor
  · have hrun : ∃ s : FixedState Monitor.Duo,
        ((fixedMonitor.lts Monitor.Duo fixedInit).restrict Considerate).Reachable s ∧
        s.log.map (fun e => e.ret.code) = [3, 2] :=
      Lts.exists_reachable_of_map writeThenRead _ (by decide +kernel)
    obtain ⟨s, hs, hlog⟩ := hrun
    exact ⟨s, hs, hlog, ((fixed_read_finds_data s).1 hs).2⟩
  · have hrun : ∃ s : FixedState Monitor.Duo, (fixedMonitor.lts Monitor.Duo fixedInit).Reachable s ∧
        s.pc .one = .locking readTwo (some .readQueue) ∧ Empties s.dev readTwo .readQueue ∧
        (s.pc .two).PastWait Reads .readQueue :=
      ⟨_, Lts.reachable_of_foldlM (.init rfl)
        (rfl : readersPastWait.foldlM fixedMonitor.next (Monitor.start fixedInit) = some _),
        rfl, by decide +kernel, by decide +kernel⟩
    obtain ⟨s, hs, hp, hempties, hpast⟩ := hrun
    obtain ⟨s₁, s₂, e, hrest⟩ := (fixed_read_finds_data s).2 .one readTwo (some .readQueue) .two
      .readQueue hp hempties (by decide) hpast
    exact ⟨s, s₁, s₂, e, hs, hrest⟩

/-- Of the two readers, the first reads. -/
def readerLeftBehind : List (Monitor.Act FixedCall Monitor.Duo) :=
  readersPastWait ++ [.lock .one]

/-- Three bytes are written, two readers pass their wait, and the first reads them: the
second then gets to the copy with `data_size = 0`, and its two-byte read returns 0. -/
theorem fixed_read_finds_nothing :
    ∃ s₁ s₂, (fixedMonitor.lts Monitor.Duo fixedInit).Reachable s₁ ∧ ReachesCopy s₁ .two ∧
      s₁.dev.dataSize = 0 ∧ fixedMonitor.next s₁ (.lock .two) = some s₂ ∧
      s₂.log.map (fun e => e.ret.code) = [3, 2, 0] := by
  have hs := Lts.reachable_of_foldlM (.init rfl)
    (rfl : readerLeftBehind.foldlM fixedMonitor.next (Monitor.start fixedInit) = some _)
  exact ⟨_, _, hs, ⟨_, _, some .readQueue, rfl, nofun⟩, rfl, rfl, by decide +kernel⟩

end FixedDevice

end KernelModules
