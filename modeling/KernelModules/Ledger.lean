import KernelModules.Transition
import Mathlib.Data.Finset.Basic
import Mathlib.Data.Finset.Dedup
import Mathlib.Data.Finset.Lattice.Lemmas
import Mathlib.Data.List.Count
import Mathlib.Data.List.Flatten
import Mathlib.Data.List.Induction
import Mathlib.Data.List.Nodup

/-!
# Ledgers of what is acquired and released

A program's dealings with its resources, whatever they are, as the list of its deeds:
it acquires a resource, uses it, releases it.

* `Owned` — acquired more often than released;
* `Lawful` — whatever is used or released is owned at that moment;
* `Settled` — whatever was acquired was released exactly once;
* `ReleasedAfter` — one resource is released only after another.

The first three look at one resource at a time: `history` is what a ledger says about one, and
`lawful_iff_history` lets a ledger written by many hands be checked resource by resource.
Who owns what depends on the `moves` only. `Keeps` says what is owned all in all, and is carried
through a ledger call by call.
-/

namespace KernelModules

namespace Ledger

universe u v

/-- Something done with a resource. -/
inductive Deed (ρ : Type u) where
  /-- it is acquired -/
  | acquire (r : ρ)
  /-- it is used -/
  | use (r : ρ)
  /-- it is released -/
  | release (r : ρ)
  deriving DecidableEq

/-- The resource a deed is about. -/
def Deed.res {ρ : Type u} : Deed ρ → ρ
  | .acquire r | .use r | .release r => r

variable {ρ : Type u} [DecidableEq ρ]

/-- Acquired more often than released. -/
def Owned (log : List (Deed ρ)) (r : ρ) : Prop :=
  log.count (.release r) < log.count (.acquire r)

/-- What a deed takes for granted after the deeds of a ledger. -/
def Deed.Allowed (log : List (Deed ρ)) : Deed ρ → Prop
  | .acquire _ => True
  | .use r | .release r => Owned log r

/-- Whatever is used or released is owned at that moment. -/
def Lawful (log : List (Deed ρ)) : Prop :=
  ∀ pre d post, log = pre ++ d :: post → d.Allowed pre

/-- Whatever was acquired was released exactly once. -/
def Settled (log : List (Deed ρ)) : Prop :=
  ∀ r, .acquire r ∈ log → log.count (.release r) = 1

/-! ## Growing ledgers -/

theorem lawful_nil : Lawful ([] : List (Deed ρ)) := by
  intro pre d post h
  cases pre <;> cases h

/-- A ledger stays lawful when an allowed deed is added. -/
theorem lawful_concat {log : List (Deed ρ)} {d : Deed ρ} :
    Lawful (log ++ [d]) ↔ Lawful log ∧ d.Allowed log := forall_split_concat

/-- A lawful ledger releases nothing more often than it acquires it. -/
theorem Lawful.count_le {log : List (Deed ρ)} (h : Lawful log) (r : ρ) :
    log.count (.release r) ≤ log.count (.acquire r) := by
  induction log using List.reverseRecOn with
  | nil => exact Nat.le_refl 0
  | append_singleton log d ih =>
    obtain ⟨hlog, hd⟩ := lawful_concat.mp h
    have hle := ih hlog
    simp only [List.count_append, List.count_singleton]
    by_cases hr : d = .release r
    · subst hr
      have howned : Owned log r := hd
      unfold Owned at howned
      simp only [beq_self_eq_true, if_true]
      omega
    · have hne : (d == .release r) = false := beq_false_of_ne hr
      simp only [hne, Bool.false_eq_true, if_false]
      omega

/-! ## One resource at a time -/

/-- What a ledger says about one resource. -/
def history (log : List (Deed ρ)) (r : ρ) : List (Deed ρ) :=
  log.filter fun d => d.res == r

theorem history_append (log log' : List (Deed ρ)) (r : ρ) :
    history (log ++ log') r = history log r ++ history log' r :=
  List.filter_append ..

theorem count_history (log : List (Deed ρ)) {d : Deed ρ} {r : ρ} (hd : d.res = r) :
    (history log r).count d = log.count d :=
  List.count_filter (by simpa using hd)

@[simp] theorem count_release_history (log : List (Deed ρ)) (r : ρ) :
    (history log r).count (.release r) = log.count (.release r) :=
  count_history log rfl

@[simp] theorem count_acquire_history (log : List (Deed ρ)) (r : ρ) :
    (history log r).count (.acquire r) = log.count (.acquire r) :=
  count_history log rfl

theorem owned_history {log : List (Deed ρ)} {r : ρ} : Owned (history log r) r ↔ Owned log r := by
  rw [Owned, Owned, count_release_history, count_acquire_history]

theorem allowed_history {log : List (Deed ρ)} {d : Deed ρ} :
    d.Allowed (history log d.res) ↔ d.Allowed log := by
  cases d with
  | acquire r => exact Iff.rfl
  | use r | release r => exact owned_history

/-- A ledger is lawful when what it says about each resource is. -/
theorem lawful_iff_history {log : List (Deed ρ)} :
    Lawful log ↔ ∀ r, Lawful (history log r) := by
  induction log using List.reverseRecOn with
  | nil => exact ⟨fun _ _ => lawful_nil, fun _ => lawful_nil⟩
  | append_singleton log d ih =>
    have hhist : ∀ r, history (log ++ [d]) r =
        if d.res = r then history log r ++ [d] else history log r := by
      intro r
      rw [history_append]
      by_cases hr : d.res = r <;> simp [history, hr]
    rw [lawful_concat, ih]
    constructor
    · rintro ⟨hlog, hd⟩ r
      rw [hhist]
      split
      · next hr =>
        subst hr
        exact lawful_concat.mpr ⟨hlog _, allowed_history.mpr hd⟩
      · exact hlog r
    · intro h
      have hd : Lawful (history log d.res ++ [d]) := by
        have := h d.res
        rwa [hhist, if_pos rfl] at this
      refine ⟨fun r => ?_, allowed_history.mp (lawful_concat.mp hd).2⟩
      have hr := h r
      rw [hhist] at hr
      split at hr
      · exact (lawful_concat.mp hr).1
      · exact hr

/-- So is it with being settled. -/
theorem settled_iff_history {log : List (Deed ρ)} :
    Settled log ↔ ∀ r, .acquire r ∈ history log r → (history log r).count (.release r) = 1 := by
  refine forall_congr' fun r => ?_
  rw [count_release_history, history, List.mem_filter]
  simp [Deed.res]

/-- What a ledger says about all resources but one. -/
def without (log : List (Deed ρ)) (r : ρ) : List (Deed ρ) := log.filter fun d => d.res ≠ r

theorem without_append (log log' : List (Deed ρ)) (r : ρ) :
    without (log ++ log') r = without log r ++ without log' r :=
  List.filter_append ..

theorem history_without (log : List (Deed ρ)) (r x : ρ) :
    history (without log r) x = if x = r then [] else history log x := by
  rw [history, without, List.filter_filter]
  split
  · next hx =>
    subst hx
    rw [List.filter_eq_nil_iff]
    intro d _
    simp
  · next hx =>
    refine List.filter_congr fun d _ => ?_
    by_cases hd : d.res = x
    · simp [hd, hx]
    · simp [hd]

/-- A ledger can be checked with one resource apart. -/
theorem lawful_iff_without {log : List (Deed ρ)} (r : ρ) :
    Lawful log ↔ Lawful (history log r) ∧ Lawful (without log r) := by
  constructor
  · intro h
    refine ⟨lawful_iff_history.mp h r, lawful_iff_history.mpr fun x => ?_⟩
    rw [history_without]
    split
    · exact lawful_nil
    · exact lawful_iff_history.mp h x
  · rintro ⟨hone, hothers⟩
    refine lawful_iff_history.mpr fun x => ?_
    by_cases hx : x = r
    · rwa [hx]
    · have hlawful := lawful_iff_history.mp hothers x
      rwa [history_without, if_neg hx] at hlawful

theorem settled_iff_without {log : List (Deed ρ)} (r : ρ) :
    Settled log ↔ Settled (history log r) ∧ Settled (without log r) := by
  have hhistory : Settled (history log r) ↔
      (.acquire r ∈ log → log.count (.release r) = 1) := by
    constructor
    · intro h hr
      have hcount := h r (List.mem_filter.mpr ⟨hr, by simp [Deed.res]⟩)
      rwa [count_release_history] at hcount
    · intro h x hx
      obtain ⟨hmem, hres⟩ := List.mem_filter.mp hx
      obtain rfl : x = r := by simpa [Deed.res] using hres
      rw [count_release_history]
      exact h hmem
  have hwithout : Settled (without log r) ↔
      ∀ x ≠ r, .acquire x ∈ log → log.count (.release x) = 1 := by
    refine forall_congr' fun x => ?_
    by_cases hx : x = r
    · simp [without, Deed.res, hx]
    · rw [without, List.mem_filter, List.count_filter (by simp [Deed.res, hx])]
      simp [Deed.res, hx]
  rw [hhistory, hwithout]
  constructor
  · exact fun h => ⟨h r, fun x _ => h x⟩
  · rintro ⟨hone, hothers⟩ x hmem
    by_cases hx : x = r
    · subst hx
      exact hone hmem
    · exact hothers x hx hmem

/-! ## Who owns what -/

/-- Whether a deed changes what is owned. -/
def Deed.isMove : Deed ρ → Bool
  | .acquire _ | .release _ => true
  | .use _ => false

/-- The deeds that change what is owned. -/
def moves (log : List (Deed ρ)) : List (Deed ρ) := log.filter Deed.isMove

omit [DecidableEq ρ] in
theorem moves_append (log log' : List (Deed ρ)) : moves (log ++ log') = moves log ++ moves log' :=
  List.filter_append ..

omit [DecidableEq ρ] in
theorem acquire_mem_moves {log : List (Deed ρ)} {r : ρ} :
    .acquire r ∈ moves log ↔ .acquire r ∈ log := by
  simp [moves, Deed.isMove]

theorem count_acquire_moves (log : List (Deed ρ)) (r : ρ) :
    (moves log).count (.acquire r) = log.count (.acquire r) := List.count_filter rfl

theorem count_release_moves (log : List (Deed ρ)) (r : ρ) :
    (moves log).count (.release r) = log.count (.release r) := List.count_filter rfl

theorem owned_moves {log : List (Deed ρ)} {r : ρ} : Owned (moves log) r ↔ Owned log r := by
  rw [Owned, Owned, count_release_moves, count_acquire_moves]

theorem settled_moves {log : List (Deed ρ)} : Settled (moves log) ↔ Settled log := by
  simp only [Settled, acquire_mem_moves, count_release_moves]

/-- What was never acquired is not used. -/
theorem Lawful.not_mem_use {log : List (Deed ρ)} (h : Lawful log) {r : ρ}
    (hr : .acquire r ∉ log) : .use r ∉ log := by
  intro hmem
  obtain ⟨pre, post, rfl⟩ := List.append_of_mem hmem
  have howned : Owned pre r := h pre (.use r) post rfl
  have hcount : pre.count (.acquire r) = 0 :=
    List.count_eq_zero.mpr fun hpre => hr (List.mem_append_left _ hpre)
  rw [Owned, hcount] at howned
  exact Nat.not_lt_zero _ howned

/-- One resource is released only after another. -/
def ReleasedAfter (log : List (Deed ρ)) (h r : ρ) : Prop :=
  ∀ pre post, log = pre ++ .release r :: post → .release h ∈ pre

omit [DecidableEq ρ] in
theorem ReleasedAfter.of_append {log log' : List (Deed ρ)} {h r : ρ}
    (hafter : ReleasedAfter (log ++ log') h r) : ReleasedAfter log h r := by
  intro pre post heq
  refine hafter pre (post ++ log') ?_
  rw [heq, List.append_assoc, List.cons_append]

omit [DecidableEq ρ] in
/-- Only the deeds that matter need to be looked at. -/
theorem ReleasedAfter.of_filter {log : List (Deed ρ)} {p : Deed ρ → Bool} {h r : ρ}
    (hafter : ReleasedAfter (log.filter p) h r) (hp : p (.release r) = true) :
    ReleasedAfter log h r := by
  rintro pre post rfl
  refine (List.mem_filter.mp (hafter (pre.filter p) (post.filter p) ?_)).1
  rw [List.filter_append, List.filter_cons_of_pos hp]

omit [DecidableEq ρ] in
theorem releasedAfter_nil (h r : ρ) : ReleasedAfter [] h r := by
  intro pre post heq
  cases pre <;> cases heq

omit [DecidableEq ρ] in
theorem releasedAfter_cons {log : List (Deed ρ)} {d : Deed ρ} {h r : ρ} (hne : h ≠ r) :
    ReleasedAfter (d :: log) h r ↔ d = .release h ∨ d ≠ .release r ∧ ReleasedAfter log h r := by
  constructor
  · intro hafter
    by_cases hd : d = .release h
    · exact .inl hd
    · refine .inr ⟨fun hr => ?_, fun pre post heq => ?_⟩
      · cases hafter [] log (by rw [hr, List.nil_append])
      · have hmem := hafter (d :: pre) post (by rw [heq, List.cons_append])
        exact (List.mem_cons.mp hmem).resolve_left fun heq => hd heq.symm
  · rintro hcase pre post heq
    cases pre with
    | nil =>
      obtain ⟨rfl, -⟩ := List.cons_eq_cons.mp heq
      rcases hcase with hd | ⟨hd, -⟩
      · exact (hne (Deed.release.inj hd).symm).elim
      · exact (hd rfl).elim
    | cons e pre =>
      obtain ⟨rfl, hlog⟩ := List.cons_eq_cons.mp heq
      rcases hcase with rfl | ⟨-, hafter⟩
      · exact List.mem_cons_self ..
      · exact List.mem_cons_of_mem _ (hafter pre post hlog)

/-! ## All that is owned -/

/-- The ledger is lawful, and what it owns, each resource once, is the set `S`. -/
structure Keeps (log : List (Deed ρ)) (S : Finset ρ) : Prop where
  /-- nothing is released that is not owned -/
  lawful : Lawful log
  /-- what has not been released is in the set -/
  count : ∀ r, log.count (.acquire r) = log.count (.release r) + if r ∈ S then 1 else 0

theorem keeps_nil : Keeps ([] : List (Deed ρ)) ∅ := ⟨lawful_nil, fun _ => rfl⟩

variable {log : List (Deed ρ)} {S : Finset ρ} {rs : List ρ}

theorem Keeps.owned_iff (h : Keeps log S) {r : ρ} : Owned log r ↔ r ∈ S := by
  rw [Owned, h.count]
  by_cases hr : r ∈ S <;> simp [hr]

/-- A resource is acquired that is not owned. -/
theorem Keeps.acquire (h : Keeps log S) {r : ρ} (hr : r ∉ S) :
    Keeps (log ++ [.acquire r]) (insert r S) := by
  refine ⟨lawful_concat.mpr ⟨h.lawful, trivial⟩, fun x => ?_⟩
  have hcount := h.count x
  simp only [List.count_append, List.count_singleton, Finset.mem_insert]
  by_cases hx : x = r
  · subst hx
    simp_all
  · simp [hx, Ne.symm hx, hcount]

/-- One that is owned is released. -/
theorem Keeps.release (h : Keeps log S) {r : ρ} (hr : r ∈ S) :
    Keeps (log ++ [.release r]) (S.erase r) := by
  refine ⟨lawful_concat.mpr ⟨h.lawful, h.owned_iff.mpr hr⟩, fun x => ?_⟩
  have hcount := h.count x
  simp only [List.count_append, List.count_singleton, Finset.mem_erase]
  by_cases hx : x = r
  · subst hx
    simp_all
  · simp [hx, Ne.symm hx, hcount]

/-- Resources are acquired, none of which is owned. -/
theorem Keeps.acquire_all (h : Keeps log S) (hrs : rs.Nodup) (hS : ∀ r ∈ rs, r ∉ S) :
    Keeps (log ++ rs.map .acquire) (S ∪ rs.toFinset) := by
  induction rs using List.reverseRecOn with
  | nil => simpa using h
  | append_singleton rs r ih =>
    rw [← List.concat_eq_append, List.nodup_concat] at hrs
    have hrest := ih hrs.2 fun x hx => hS x (List.mem_append_left _ hx)
    have hr : r ∉ S ∪ rs.toFinset := by
      rw [Finset.mem_union, List.mem_toFinset, not_or]
      exact ⟨hS r (List.mem_append_right _ (List.mem_singleton_self r)), hrs.1⟩
    have hmore := hrest.acquire hr
    rw [List.append_assoc] at hmore
    have hset : S ∪ (rs ++ [r]).toFinset = insert r (S ∪ rs.toFinset) := by
      ext x
      simp
    rw [hset, List.map_append]
    exact hmore

/-- Resources are released, all of which are owned. -/
theorem Keeps.release_all (h : Keeps log S) (hrs : rs.Nodup) (hS : ∀ r ∈ rs, r ∈ S) :
    Keeps (log ++ rs.map .release) (S \ rs.toFinset) := by
  induction rs using List.reverseRecOn with
  | nil => simpa using h
  | append_singleton rs r ih =>
    rw [← List.concat_eq_append, List.nodup_concat] at hrs
    have hrest := ih hrs.2 fun x hx => hS x (List.mem_append_left _ hx)
    have hr : r ∈ S \ rs.toFinset := by
      rw [Finset.mem_sdiff, List.mem_toFinset]
      exact ⟨hS r (List.mem_append_right _ (List.mem_singleton_self r)), hrs.1⟩
    have hless := hrest.release hr
    rw [List.append_assoc] at hless
    have hset : S \ (rs ++ [r]).toFinset = (S \ rs.toFinset).erase r := by
      ext x
      simp [and_left_comm]
    rw [hset, List.map_append]
    exact hless

/-- What is acquired and released again leaves the set as it was. -/
theorem Keeps.borrow (h : Keeps log S) (hrs : rs.Nodup) (hS : ∀ r ∈ rs, r ∉ S) :
    Keeps (log ++ (rs.map .acquire ++ rs.map .release)) S := by
  have hboth := (h.acquire_all hrs hS).release_all hrs fun r hr =>
    Finset.mem_union_right S (List.mem_toFinset.mpr hr)
  have hdisjoint : Disjoint S rs.toFinset :=
    Finset.disjoint_right.mpr fun r hr => hS r (List.mem_toFinset.mp hr)
  rwa [List.append_assoc, Finset.union_sdiff_cancel_right hdisjoint] at hboth

/-! ## Checking -/

instance (log : List (Deed ρ)) (r : ρ) : Decidable (Owned log r) :=
  inferInstanceAs (Decidable (_ < _))

instance (log : List (Deed ρ)) (d : Deed ρ) : Decidable (d.Allowed log) :=
  match d with
  | .acquire _ => isTrue trivial
  | .use r | .release r => inferInstanceAs (Decidable (Owned log r))

/-- Goes through a ledger after the deeds `past`. -/
def lawfulFrom (past : List (Deed ρ)) : List (Deed ρ) → Bool
  | [] => true
  | d :: log => decide (d.Allowed past) && lawfulFrom (past ++ [d]) log

theorem lawfulFrom_iff {past log : List (Deed ρ)} :
    lawfulFrom past log = true ↔
      ∀ pre d post, log = pre ++ d :: post → d.Allowed (past ++ pre) := by
  induction log generalizing past with
  | nil =>
    refine ⟨fun _ pre d post heq => ?_, fun _ => rfl⟩
    cases pre <;> cases heq
  | cons d log ih =>
    rw [lawfulFrom, Bool.and_eq_true, decide_eq_true_eq, ih]
    constructor
    · rintro ⟨hd, hlog⟩ pre e post heq
      cases pre with
      | nil =>
        obtain ⟨rfl, -⟩ := List.cons_eq_cons.mp heq
        rwa [List.append_nil]
      | cons e' pre =>
        obtain ⟨rfl, hlog'⟩ := List.cons_eq_cons.mp heq
        rw [List.append_cons]
        exact hlog pre e post hlog'
    · intro h
      refine ⟨?_, fun pre e post heq => ?_⟩
      · simpa using h [] d log rfl
      · rw [List.append_assoc]
        exact h (d :: pre) e post (by rw [heq, List.cons_append])

instance (log : List (Deed ρ)) : Decidable (Lawful log) :=
  decidable_of_iff (lawfulFrom [] log = true) lawfulFrom_iff

instance (log : List (Deed ρ)) : Decidable (Settled log) :=
  decidable_of_iff (∀ d ∈ log, d = .acquire d.res → log.count (.release d.res) = 1)
    ⟨fun h r hr => h (.acquire r) hr rfl, fun h d hd heq => h d.res (heq ▸ hd)⟩

/-! ## Undoing -/

theorem lawful_acquire_release (r : ρ) : Lawful [.acquire r, .release r] := by
  have hfirst : Lawful ([] ++ [Deed.acquire r]) := lawful_concat.mpr ⟨lawful_nil, trivial⟩
  have howned : (Deed.release r).Allowed [.acquire r] := by simp [Deed.Allowed, Owned]
  have hboth : Lawful ([.acquire r] ++ [.release r]) := lawful_concat.mpr ⟨hfirst, howned⟩
  exact hboth

/-- Resources acquired one after the other and released in reverse. -/
def undone (rs : List ρ) : List (Deed ρ) := rs.map .acquire ++ rs.reverse.map .release

/-- What such a ledger says about one resource. -/
theorem history_undone {rs : List ρ} (hrs : rs.Nodup) (r : ρ) :
    history (undone rs) r = if r ∈ rs then [.acquire r, .release r] else [] := by
  have hone : ∀ {l : List ρ}, l.Nodup → l.filter (· == r) = if r ∈ l then [r] else [] := by
    intro l hl
    rw [List.filter_beq, hl.count]
    split <;> rfl
  have hacquire : history (rs.map .acquire) r = (rs.filter (· == r)).map .acquire :=
    List.filter_map ..
  have hrelease : history (rs.reverse.map .release) r =
      (rs.reverse.filter (· == r)).map .release :=
    List.filter_map ..
  rw [undone, history_append, hacquire, hrelease, hone hrs,
    hone (List.nodup_reverse.mpr hrs)]
  simp only [List.mem_reverse]
  split <;> rfl

/-- Undoing is lawful and leaves nothing behind. -/
theorem lawful_undone {rs : List ρ} (hrs : rs.Nodup) : Lawful (undone rs) := by
  refine lawful_iff_history.mpr fun r => ?_
  rw [history_undone hrs]
  split
  · exact lawful_acquire_release r
  · exact lawful_nil

theorem settled_undone {rs : List ρ} (hrs : rs.Nodup) : Settled (undone rs) := by
  refine settled_iff_history.mpr fun r hr => ?_
  rw [history_undone hrs] at hr ⊢
  by_cases hmem : r ∈ rs
  · rw [if_pos hmem]
    simp
  · rw [if_neg hmem] at hr
    cases hr

end Ledger

end KernelModules
