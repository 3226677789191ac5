import KernelModules.FixedMessages

/-!
# Wake-ups of `fixed_dev`

Only a write that stores its message makes `data_size > 0` true, and every such write
goes on to `wake_up_interruptible(&read_queue)`; a write that faults keeps the old
`data_size` and has nothing to announce. So a reader that sleeps while there is a message
has its wake-up still coming, in every run (`fixed_no_lost_wakeup`).
-/

namespace KernelModules

namespace FixedDevice

/-- A section that ends an empty device is a write that goes on to wake the readers. -/
theorem wakes_of_fills {d : FixedDev} {c : FixedCall} {via : Option FixedQueue}
    {q : FixedQueue} (hbefore : fixedMonitor.cond q d = false)
    (hafter : fixedMonitor.cond q (fixedMonitor.body c via d).next = true) :
    (fixedMonitor.body c via d).wakes = some q := by
  rw [← Bool.not_eq_true, fixedCond_iff] at hbefore
  rw [fixedCond_iff] at hafter
  cases q
  cases c with
  | read userBuf count =>
    -- a read leaves the message as it is, or takes it away
    change 0 < (myReadLocked via.isNone userBuf count d).next.dataSize at hafter
    rcases myReadLocked_cases via.isNone userBuf count d with
      ⟨-, -, ho⟩ | ⟨-, -, ho⟩ | ⟨-, -, ho⟩ <;> rw [ho] at hafter
    · exact absurd hafter hbefore
    · exact absurd hafter (lt_irrefl 0)
    · exact absurd hafter hbefore
  | write userBuf count =>
    change 0 < (myWriteLocked userBuf count d).next.dataSize at hafter
    change (myWriteLocked userBuf count d).wakes = some .readQueue
    rcases myWriteLocked_cases userBuf count d with ⟨-, ho⟩ | ⟨-, ho⟩ <;> rw [ho] at hafter ⊢
    exact absurd hafter hbefore
  | ioctl cmd arg =>
    change 0 < (myIoctlLocked cmd arg d).next.dataSize at hafter
    by_cases hcmd : cmd = ioctlReset
    · rw [myIoctlLocked, if_pos hcmd] at hafter
      exact absurd hafter (lt_irrefl 0)
    · rw [myIoctlLocked, if_neg hcmd] at hafter
      exact absurd hafter hbefore

/-- Only a write that has stored its message wakes the readers. -/
theorem write_of_wakes {d : FixedDev} {c : FixedCall} {via : Option FixedQueue}
    {q : FixedQueue} (h : (fixedMonitor.body c via d).wakes = some q) :
    ∃ userBuf count, c = .write userBuf count ∧ userBuf.left (min count bufSize) = 0 := by
  cases c with
  | read userBuf count =>
    change (myReadLocked via.isNone userBuf count d).wakes = some q at h
    rcases myReadLocked_cases via.isNone userBuf count d with
      ⟨-, -, ho⟩ | ⟨-, -, ho⟩ | ⟨-, -, ho⟩ <;> rw [ho] at h <;> cases h
  | write userBuf count =>
    change (myWriteLocked userBuf count d).wakes = some q at h
    rcases myWriteLocked_cases userBuf count d with ⟨hleft, -⟩ | ⟨-, ho⟩
    · exact ⟨userBuf, count, rfl, hleft⟩
    · rw [ho] at h
      cases h
  | ioctl cmd arg =>
    change (myIoctlLocked cmd arg d).wakes = some q at h
    rw [myIoctlLocked] at h
    split at h <;> cases h

/-- In every run, a sleeper whose condition holds has a waker. -/
theorem wakeDue_reachable {Tid : Type} [DecidableEq Tid] {s : FixedState Tid}
    (hs : (fixedMonitor.lts Tid fixedInit).Reachable s) : fixedMonitor.WakeDue s := by
  refine Monitor.wakeDue_inductive.reachable (hs.to_restrict fun s a => ?_)
  cases a with
  | lock t => exact fun c via q _ hbefore hafter => wakes_of_fills hbefore hafter
  | _ => trivial

/-- **No lost wake-up**: whatever the readers, writers and `ioctl` calls do, while there is
a message and a reader sleeps, some other task has stored its message with `my_write` and
has still to wake the readers. -/
theorem fixed_no_lost_wakeup {Tid : Type} [DecidableEq Tid]
    {as : List (Monitor.Act FixedCall Tid)} {s : FixedState Tid}
    (hrun : (fixedMonitor.lts Tid fixedInit).Run (Monitor.start fixedInit) as s)
    (hdata : 0 < s.dev.dataSize) {t : Tid}
    (hsleep : (s.pc t).sleepsOn = some .readQueue) :
    ∃ u userBuf count, u ≠ t ∧ Monitor.Act.lastCall u as = some (.write userBuf count) ∧
      userBuf.left (min count bufSize) = 0 ∧ (s.pc u).toWake = some .readQueue := by
  have hdue : fixedMonitor.WakeDue s := wakeDue_reachable (hrun.reachable rfl)
  obtain ⟨u, hut, hu⟩ := hdue.waker hsleep (fixedCond_iff.mpr hdata)
  -- which call the waker is in is in the labels of the run
  have hserves := Monitor.Pc.serves_of_run hrun u
  rw [Monitor.Pc.toWake_eq_some.mp hu] at hserves
  obtain ⟨c, via, d, hlast, hwakes⟩ := hserves
  obtain ⟨userBuf, count, rfl, hleft⟩ := write_of_wakes hwakes
  exact ⟨u, userBuf, count, hut, hlast, hleft, hu⟩

/-- A reader goes to sleep, and then a writer stores three bytes and stops before it wakes
anybody. -/
def sleeperThenWrite : List (Monitor.Act FixedCall Monitor.Duo) :=
  Monitor.Act.toSleep .one readTwo ++ [.call .two writeThree, .enter .two, .lock .two]

/-- The reader sleeps while there are three bytes to read, and the writer has still to
wake it. -/
theorem fixed_no_lost_wakeup_sleeper :
    ∃ s : FixedState Monitor.Duo,
      (fixedMonitor.lts Monitor.Duo fixedInit).Run (Monitor.start fixedInit) sleeperThenWrite s ∧
      s.dev.dataSize = 3 ∧ (s.pc .one).sleepsOn = some .readQueue ∧
      ∃ u userBuf count, u ≠ .one ∧
        Monitor.Act.lastCall u sleeperThenWrite = some (.write userBuf count) ∧
        userBuf.left (min count bufSize) = 0 ∧ (s.pc u).toWake = some .readQueue := by
  have hnil : (fixedMonitor.lts Monitor.Duo fixedInit).Run (Monitor.start fixedInit) []
      (Monitor.start fixedInit) := .nil
  have hrun := Lts.run_of_foldlM hnil
    (rfl : sleeperThenWrite.foldlM fixedMonitor.next (Monitor.start fixedInit) = some _)
  exact ⟨_, hrun, rfl, rfl, fixed_no_lost_wakeup hrun (by decide) rfl⟩

end FixedDevice

end KernelModules
