import KernelModules.FixedFailures

/-!
# What a read of `fixed_dev` leaves

`my_read` sets `data_size` to 0 whatever it took, so what the first read after a write did not
ask for is gone. A later read that has passed its wait returns 0.

* `counts`, `returned` — what successful reads asked for, and what they got;
* `Drained` — the device after a write and some reads;
* `drains_iff` — the reads get all they should if and only if the first one asks for the whole
  message.
-/

namespace KernelModules

namespace FixedDevice

/-- What a read asked for, if it succeeded. -/
def asked (e : FixedServed) : Option ℕ :=
  match e.call with
  | .read _ count => if 0 ≤ e.ret.code then some count else none
  | .write _ _ | .ioctl _ _ => none

/-- What the successful reads of a history asked for, in order. -/
def counts (log : List FixedServed) : List ℕ := log.filterMap asked

/-- What they got, put together. -/
def returned (log : List FixedServed) : List UInt8 := log.flatMap fun e => e.ret.out

/-- The device some time after `m` was written: nobody has read successfully, or the first one
who did has emptied it. -/
def Drained (m : List UInt8) (d : FixedDev) (log : List FixedServed) : Prop :=
  counts log = [] ∧ returned log = [] ∧ pending d = m ∨
    ∃ c cs, counts log = c :: cs ∧ returned log = m.take c ∧ d.dataSize = 0

theorem asked_read {userBuf : UserDst} {count : ℕ} {via : Option FixedQueue} {r : Ret}
    (h : 0 ≤ r.code) : asked ⟨.read userBuf count, via, r⟩ = some count := if_pos h

section Concat

variable (log : List FixedServed) (e : FixedServed)

theorem counts_concat : counts (log ++ [e]) = counts log ++ (asked e).toList := by
  rw [counts, List.filterMap_append, List.filterMap_cons]
  cases asked e <;> rfl

theorem returned_concat : returned (log ++ [e]) = returned log ++ e.ret.out := by
  simp [returned]

end Concat

variable {m : List UInt8} {d : FixedDev} {log : List FixedServed}

/-- A call that takes nothing and leaves the message. -/
theorem Drained.idle (h : Drained m d log) {d' : FixedDev} {e : FixedServed}
    (hasked : asked e = none) (hout : e.ret.out = []) (hsize : d'.dataSize = d.dataSize)
    (hbuffer : d'.buffer = d.buffer) : Drained m d' (log ++ [e]) := by
  have hpending : pending d' = pending d := by rw [pending, pending, hbuffer, hsize]
  rw [Drained, counts_concat, returned_concat, hasked, hout, Option.toList_none, List.append_nil,
    List.append_nil, hpending, hsize]
  exact h

/-- The first read that succeeds takes what it asks for; the others find nothing. -/
theorem Drained.take (h : Drained m d log) {e : FixedServed} {count : ℕ}
    (hasked : asked e = some count)
    (hout : e.ret.out = d.buffer.toList.take (min count d.dataSize)) :
    Drained m { d with dataSize := 0 } (log ++ [e]) := by
  right
  rw [counts_concat, returned_concat, hasked, hout]
  rcases h with ⟨hcounts, hreturned, hpending⟩ | ⟨c, cs, hcounts, hreturned, hsize⟩
  · refine ⟨count, [], by rw [hcounts]; rfl, ?_, rfl⟩
    rw [hreturned, List.nil_append, ← List.take_take]
    exact congrArg (List.take count) hpending
  · refine ⟨c, cs ++ [count], by rw [hcounts]; rfl, ?_, rfl⟩
    rw [hreturned, hsize, Nat.min_zero, List.take_zero, List.append_nil]

theorem Drained.read (h : Drained m d log) (userBuf : UserDst) (count : ℕ)
    (via : Option FixedQueue) :
    let o := myReadLocked via.isNone userBuf count d
    Drained m o.next (log ++ [⟨.read userBuf count, via, o.ret⟩]) := by
  intro o
  rcases myReadLocked_cases via.isNone userBuf count d with
    ⟨-, -, ho⟩ | ⟨-, -, ho⟩ | ⟨-, -, ho⟩
  · rw [show o = _ from ho]
    exact h.idle rfl rfl rfl rfl
  · rw [show o = _ from ho]
    exact h.take (asked_read (Int.natCast_nonneg _)) rfl
  · rw [show o = _ from ho]
    exact h.idle rfl rfl rfl rfl

theorem Drained.switch (h : Drained m d log) {cmd : ℕ} (hcmd : cmd ≠ ioctlReset)
    (arg : Option ℤ) (via : Option FixedQueue) :
    let o := myIoctlLocked cmd arg d
    Drained m o.next (log ++ [⟨.ioctl cmd arg, via, o.ret⟩]) := by
  intro o
  have ho : o = ⟨{ d with blockingMode := arg.getD d.blockingMode }, ⟨0, []⟩, none⟩ :=
    if_neg hcmd
  rw [ho]
  exact h.idle rfl rfl rfl rfl

/-- A write that succeeds puts its message there. -/
theorem drained_write {src : UserBlock} {len : ℕ}
    (hok : 0 ≤ (myWriteLocked src len d).ret.code) :
    Drained (src.first (min len bufSize)) (myWriteLocked src len d).next [] := by
  rcases myWriteLocked_cases src len d with ⟨hleft, ho⟩ | ⟨-, ho⟩
  · rw [ho]
    exact .inl ⟨rfl, rfl, take_copyFromUser d.buffer (Nat.min_le_right _ _) hleft⟩
  · rw [ho] at hok
    exact absurd hok (by decide : ¬0 ≤ (Ret.error efault).code)

/-- Whatever write of a history succeeded, reads and mode switches since then have left the
device as `Drained` says. -/
def DrainInv (d : FixedDev) (log : List FixedServed) : Prop :=
  ∀ pre w new src len, log = pre ++ w :: new → w.call = .write src len → 0 ≤ w.ret.code →
    (∀ e ∈ new, IsRead e ∨ IsSwitch e) → Drained (src.first (min len bufSize)) d new

theorem DrainInv.step (h : DrainInv d log) (c : FixedCall) (via : Option FixedQueue) :
    DrainInv (fixedBody c via d).next (log ++ [⟨c, via, (fixedBody c via d).ret⟩]) := by
  intro pre w new src len hlog hcall hok hquiet
  rcases split_concat_post hlog with ⟨new, hold, rfl⟩ | ⟨⟨rfl, rfl⟩, rfl⟩
  · have hdrained := h pre w new src len hold hcall hok
      fun e he => hquiet e (List.mem_append_left _ he)
    rcases hquiet _ (List.mem_append_right _ (List.mem_singleton_self _)) with hread | hswitch
    · obtain ⟨userBuf, count, rfl⟩ := hread
      exact hdrained.read userBuf count via
    · obtain ⟨cmd, arg, rfl, hcmd⟩ := hswitch
      exact hdrained.switch hcmd arg via
  · obtain rfl : c = .write src len := hcall
    exact drained_write hok

/-- What the reads got is all that was taken off the message, if the first one asked for all. -/
theorem Drained.iff (h : Drained m d log) :
    returned log = m.take (counts log).sum ∧ pending d = m.drop (counts log).sum ↔
      ∀ c ∈ (counts log).head?, m.length ≤ c := by
  rcases h with ⟨hcounts, hreturned, hpending⟩ | ⟨c, cs, hcounts, hreturned, hsize⟩
  · simp [hcounts, hreturned, hpending]
  · have hempty : pending d = [] := by rw [pending, hsize, List.take_zero]
    rw [hcounts, hreturned, hempty, List.sum_cons, List.head?_cons]
    simp only [Option.mem_some_iff, forall_eq']
    refine ⟨?_, fun hle => ?_⟩
    · rintro ⟨htake, hdrop⟩
      have hlength := congrArg List.length htake
      have hall := List.drop_eq_nil_iff.mp hdrop.symm
      rw [List.length_take, List.length_take, Nat.min_eq_right hall] at hlength
      omega
    · rw [List.take_of_length_le hle, List.take_of_length_le (by omega),
        List.drop_eq_nil_of_le (by omega)]
      exact ⟨rfl, rfl⟩

/-- **What a read takes is what it returns**, if and only if the first one after a write asks
for the whole message. That is about every interleaving: some write has succeeded, and since then
only reads and mode switches were served. The successful reads have got as much of the message
from its start as they asked for, and what they did not get is still there, exactly if there was
none of them or the first one asked for all. -/
theorem drains_iff {Tid : Type} [DecidableEq Tid] {s : FixedState Tid}
    (hs : (fixedMonitor.lts Tid fixedInit).Reachable s) {pre new : List FixedServed}
    {w : FixedServed} {src : UserBlock} {len : ℕ} (hlog : s.log = pre ++ w :: new)
    (hcall : w.call = .write src len) (hok : 0 ≤ w.ret.code)
    (hquiet : ∀ e ∈ new, IsRead e ∨ IsSwitch e) :
    let m := src.first (min len 128)
    returned new = m.take (counts new).sum ∧ pending s.dev = m.drop (counts new).sum ↔
      ∀ c ∈ (counts new).head?, m.length ≤ c := by
  have hinv : DrainInv s.dev s.log :=
    Monitor.reachable_sections (m := fixedMonitor) (J := DrainInv)
      (fun pre w new _ _ hnil => absurd hnil.symm (List.append_ne_nil_of_right_ne_nil _
        (List.cons_ne_nil _ _))) (fun c via h => h.step c via) hs
  exact (hinv pre w new src len hlog hcall hok hquiet).iff

/-- `ab` is written and read by one call. -/
def oneReader : List (Monitor.Act FixedCall Monitor.Duo) :=
  Monitor.Act.direct .one (.write (.ofList [97, 98]) 2) ++
    Monitor.Act.through .one (.read (fun _ => true) 2)

/-- One call that asks for all of it gets all of it. -/
theorem drains_iff_oneReader : ∃ (s : FixedState Monitor.Duo) (w : FixedServed)
    (new : List FixedServed), (fixedMonitor.lts Monitor.Duo fixedInit).Reachable s ∧
      s.log = w :: new ∧ (returned new = [97, 98].take (counts new).sum ∧
        pending s.dev = [97, 98].drop (counts new).sum) := by
  have hs := Lts.reachable_of_foldlM (.init rfl)
    (rfl : oneReader.foldlM fixedMonitor.next (Monitor.start fixedInit) = some _)
  refine ⟨_, _, _, hs, rfl, (drains_iff hs (rfl : _ = [] ++ _ :: _) rfl (by decide +kernel)
    ?_).mpr (by decide +kernel)⟩
  exact List.forall_mem_singleton.mpr (.inl ⟨_, _, rfl⟩)

/-- One task writes `ab` and starts to read one byte of it, and so does the other before the
first one has. -/
def twoReaders : List (Monitor.Act FixedCall Monitor.Duo) :=
  Monitor.Act.direct .one (.write (.ofList [97, 98]) 2) ++
    Monitor.Act.toLock .one (.read (fun _ => true) 1) ++
    Monitor.Act.toLock .two (.read (fun _ => true) 1) ++ [.lock .one, .lock .two]

/-- Both reads succeed, the second one gets nothing, and nothing is left. -/
theorem rest_is_lost : ∃ (s : FixedState Monitor.Duo) (w : FixedServed) (new : List FixedServed),
    (fixedMonitor.lts Monitor.Duo fixedInit).Reachable s ∧ s.log = w :: new ∧
      w.call = .write (.ofList [97, 98]) 2 ∧ w.ret.code = 2 ∧ (∀ e ∈ new, IsRead e) ∧
      counts new = [1, 1] ∧ returned new = [97] ∧ pending s.dev = [] := by
  have hs := Lts.reachable_of_foldlM (.init rfl)
    (rfl : twoReaders.foldlM fixedMonitor.next (Monitor.start fixedInit) = some _)
  exact ⟨_, _, _, hs, rfl, rfl, rfl, List.forall_mem_cons.mpr ⟨⟨_, _, rfl⟩,
    List.forall_mem_singleton.mpr ⟨_, _, rfl⟩⟩, by decide +kernel, by decide +kernel, rfl⟩

end FixedDevice

end KernelModules
