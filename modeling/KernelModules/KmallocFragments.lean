import KernelModules.KmallocVsVmalloc
import KernelModules.Buddy
import Mathlib.Algebra.Order.Interval.Finset.SuccPred
import Mathlib.Data.Nat.SuccPred

/-!
# What `fragment_memory` keeps

`fragment_memory` obtains blocks of order `frag_order` and frees the first half of each, so that
"half allocated" keeps "blocks merging"; `run_test` then asks `kmalloc` for `2 ^ test_order`
adjacent pages and `vmalloc` for as many pages wherever they are. The page allocator is whatever it
is, as long as a block that it hands out starts at a multiple of its size, and nothing is handed out
twice; it may take pages from others, move them, and keep free ones wherever it likes.

* `fragment_keeps` — **what is kept**: the second half of every block obtained, so that nothing can
  be joined from the halves that were freed and what lies next to them;
* `test_keeps` — **the test** gives back what it gets, and gets no more of a block than its first
  half.
-/

namespace KernelModules

namespace KmallocVsVmalloc

open Buddy Ledger

/-- Blocks that start at a multiple of their size. -/
structure AlignedPages (order : ℕ) extends FreePages order where
  /-- where a block starts -/
  aligned : ∀ {i b : ℕ}, base i = some b → 2 ^ order ∣ b

/-- The pages of a block. -/
def pagesFrom (base order : ℕ) : List ℕ := (List.range (2 ^ order)).map (base + ·)

/-- The pages of the block a pointer points to, none for `NULL`. -/
def block (order : ℕ) (ptr : Option ℕ) : Finset ℕ :=
  ptr.elim ∅ fun base => Finset.Ico base (base + 2 ^ order)

/-- The blocks that the first `n` calls returned, by their numbers. -/
def obtained {order : ℕ} (pages : FreePages order) (n : ℕ) : Finset ℕ :=
  (Finset.range n).image fun i => (pages.base i).getD 0 / 2 ^ order

/-! ## The pages of a call -/

theorem nodup_pagesFrom (base order : ℕ) : (pagesFrom base order).Nodup :=
  List.nodup_range.map fun _ _ h => Nat.add_left_cancel h

@[simp] theorem mem_pagesFrom {base order p : ℕ} :
    p ∈ pagesFrom base order ↔ base ≤ p ∧ p < base + 2 ^ order := by
  rw [pagesFrom, List.mem_map]
  constructor
  · rintro ⟨k, hk, rfl⟩
    rw [List.mem_range] at hk
    omega
  · rintro ⟨hle, hlt⟩
    exact ⟨p - base, List.mem_range.mpr (by omega), by omega⟩

@[simp] theorem toFinset_pagesFrom (base order : ℕ) :
    (pagesFrom base order).toFinset = Finset.Ico base (base + 2 ^ order) := by
  ext p
  rw [List.mem_toFinset, mem_pagesFrom, Finset.mem_Ico]

theorem deeds_get (base order : ℕ) :
    (PageCall.get base order).deeds = (pagesFrom base order).map .acquire :=
  List.map_map.symm

theorem deeds_free (base order : ℕ) (isSet : Bool) :
    (PageCall.free base order isSet).deeds = (pagesFrom base order).map .release :=
  List.map_map.symm

theorem deeds_cons (c : PageCall) (calls : List PageCall) :
    deeds (c :: calls) = c.deeds ++ deeds calls := List.flatMap_cons ..

theorem deeds_singleton (c : PageCall) : deeds [c] = c.deeds := List.flatMap_singleton ..

variable {log : List (Deed ℕ)} {S : Finset ℕ}

/-- A block is obtained of which nothing is owned. -/
theorem keeps_get (h : Keeps log S) {base order : ℕ}
    (hS : Disjoint S (Finset.Ico base (base + 2 ^ order))) :
    Keeps (log ++ (PageCall.get base order).deeds) (S ∪ Finset.Ico base (base + 2 ^ order)) := by
  rw [deeds_get, ← toFinset_pagesFrom]
  refine h.acquire_all (nodup_pagesFrom base order) fun p hp => ?_
  rw [← toFinset_pagesFrom] at hS
  exact Finset.disjoint_right.mp hS (List.mem_toFinset.mpr hp)

/-- One is freed that is owned. -/
theorem keeps_free (h : Keeps log S) {base order : ℕ} (isSet : Bool)
    (hS : Finset.Ico base (base + 2 ^ order) ⊆ S) :
    Keeps (log ++ (PageCall.free base order isSet).deeds)
      (S \ Finset.Ico base (base + 2 ^ order)) := by
  rw [deeds_free, ← toFinset_pagesFrom]
  refine h.release_all (nodup_pagesFrom base order) fun p hp => ?_
  rw [← toFinset_pagesFrom] at hS
  exact hS (List.mem_toFinset.mpr hp)

/-! ## The loops -/

@[simp] theorem mem_block {order : ℕ} {ptr : Option ℕ} {p : ℕ} :
    p ∈ block order ptr ↔ ∃ b, ptr = some b ∧ b ≤ p ∧ p < b + 2 ^ order := by
  cases ptr <;> simp [block]

/-- No two blocks that are handed out share a page. -/
theorem disjoint_block {order : ℕ} (pages : FreePages order) {i j : ℕ} (hij : i < j) :
    Disjoint (block order (pages.base i)) (block order (pages.base j)) := by
  refine Finset.disjoint_left.mpr fun p hp hp' => ?_
  obtain ⟨b, hb, hle, hlt⟩ := mem_block.mp hp
  obtain ⟨c, hc, hle', hlt'⟩ := mem_block.mp hp'
  rcases pages.fresh hij hb hc with h | h <;> omega

/-- The first loop gets the blocks from `i` on. -/
theorem keeps_allocLoop {order : ℕ} (pages : FreePages order) (todo i : ℕ) (blocks : Blocks)
    (h : Keeps log S) (hS : ∀ j ≥ i, Disjoint S (block order (pages.base j))) :
    let e := allocLoop pages todo i blocks
    Keeps (log ++ deeds e.calls)
      (S ∪ (Finset.Ico i e.count).biUnion fun j => block order (pages.base j)) := by
  induction todo generalizing i blocks log S with
  | zero => simpa [allocLoop, deeds] using h
  | succ todo ih =>
    simp only [allocLoop]
    split
    · simpa [deeds] using h
    · next base hbase =>
      have hle := (allocLoop_spec pages todo (i + 1)
        (Function.update blocks i ⟨pages.base i, true⟩)).1
      obtain ⟨rest, hrest⟩ : ∃ rest, rest = allocLoop pages todo (i + 1)
          (Function.update blocks i ⟨pages.base i, true⟩) := ⟨_, rfl⟩
      have hi : i < rest.count := by
        rw [← hrest] at hle
        exact hle
      have hfirst : block order (pages.base i) = Finset.Ico base (base + 2 ^ order) := by
        rw [hbase]
        rfl
      have hunowned : Disjoint S (Finset.Ico base (base + 2 ^ order)) := by
        rw [← hfirst]
        exact hS i (le_refl i)
      have hget := keeps_get h hunowned
      have hih := ih (i + 1) (Function.update blocks i ⟨pages.base i, true⟩) hget fun j hj => ?_
      · rw [← hrest] at hih ⊢
        rw [deeds_cons, ← List.append_assoc, ← Finset.insert_Ico_add_one_left_eq_Ico hi,
          Finset.biUnion_insert, hfirst, ← Finset.union_assoc]
        exact hih
      · -- the block just obtained shares no page with those to come
        refine Finset.disjoint_union_left.mpr ⟨hS j (by omega), ?_⟩
        rw [← hfirst]
        exact disjoint_block pages (by omega)

/-- The loops that free give back what they find, if it is owned and no entry is found twice. -/
theorem keeps_freeLoop {blocks : Blocks} {order n : ℕ} (h : Keeps log S)
    (hS : ∀ i < n, block order (blocks i).ptr ⊆ S)
    (hapart : ∀ i j, i < j → j < n →
      Disjoint (block order (blocks i).ptr) (block order (blocks j).ptr)) :
    Keeps (log ++ deeds (freeLoop blocks order n))
      (S \ (Finset.range n).biUnion fun i => block order (blocks i).ptr) := by
  induction n with
  | zero => simpa [freeLoop, deeds] using h
  | succ n ih =>
    have hrest := ih (fun i hi => hS i (by omega)) fun i j hij hj => hapart i j hij (by omega)
    have hlast : block order (blocks n).ptr ⊆
        S \ (Finset.range n).biUnion fun i => block order (blocks i).ptr := by
      refine Finset.subset_sdiff.mpr ⟨hS n (Nat.lt_succ_self n), ?_⟩
      refine (Finset.disjoint_biUnion_right ..).mpr fun i hi => ?_
      exact (hapart i n (Finset.mem_range.mp hi) (Nat.lt_succ_self n)).symm
    have hset : S \ (block order (blocks n).ptr ∪
        (Finset.range n).biUnion fun i => block order (blocks i).ptr) =
        (S \ (Finset.range n).biUnion fun i => block order (blocks i).ptr) \
          block order (blocks n).ptr := by
      rw [Finset.union_comm]
      exact sdiff_sdiff_left.symm
    rw [freeLoop, List.range_succ, List.flatMap_append, ← freeLoop, deeds_append,
      ← List.append_assoc, Finset.range_add_one, Finset.biUnion_insert, List.flatMap_singleton,
      hset]
    cases hptr : (blocks n).ptr with
    | none => simpa [deeds, block] using hrest
    | some base =>
      rw [hptr] at hlast
      have hfree := keeps_free hrest (blocks n).isSet hlast
      rw [← deeds_singleton] at hfree
      exact hfree

/-! ## The halves -/

section Halves

variable {h : ℕ} (pages : AlignedPages (h + 1)) {e : AllocExit}

/-- What the first loop leaves: each of the first `count` calls returned a block, which is in the
array. -/
def Got (e : AllocExit) : Prop :=
  ∀ i < e.count, ∃ b, pages.base i = some b ∧ e.blocks i = ⟨some b, true⟩

variable {pages}

/-- The pages of the blocks obtained. -/
theorem mem_taken (hgot : Got pages e) {p : ℕ} :
    (p ∈ (Finset.range e.count).biUnion fun i => block (h + 1) (pages.base i)) ↔
      ∃ t ∈ obtained pages.toFreePages e.count, p ∈ frames (h + 1) t := by
  rw [Finset.mem_biUnion, obtained, Finset.exists_mem_image]
  refine exists_congr fun i => and_congr_right fun hi => ?_
  obtain ⟨b, hb, -⟩ := hgot i (Finset.mem_range.mp hi)
  rw [hb, Option.getD_some, ← Ico_eq_frames (pages.aligned hb)]
  exact Iff.rfl

/-- Those of the halves that are freed. -/
theorem mem_freed (hgot : Got pages e) {p : ℕ} :
    (p ∈ (Finset.range e.count).biUnion fun i => block h (e.blocks i).ptr) ↔
      ∃ t ∈ obtained pages.toFreePages e.count, p ∈ frames h (2 * t) := by
  rw [Finset.mem_biUnion, obtained, Finset.exists_mem_image]
  refine exists_congr fun i => and_congr_right fun hi => ?_
  obtain ⟨b, hb, hentry⟩ := hgot i (Finset.mem_range.mp hi)
  rw [hb, hentry, Option.getD_some, ← Ico_eq_lower (pages.aligned hb)]
  exact Iff.rfl

/-- A half that is freed lies in its block, -/
theorem freed_subset (hgot : Got pages e) {i : ℕ} (hi : i < e.count) :
    block h (e.blocks i).ptr ⊆ block (h + 1) (pages.base i) := by
  obtain ⟨b, hb, hentry⟩ := hgot i hi
  intro p hp
  rw [hentry, mem_block] at hp
  obtain ⟨c, hc, hle, hlt⟩ := hp
  obtain rfl := Option.some.inj hc
  refine mem_block.mpr ⟨b, hb, hle, ?_⟩
  rw [pow_succ]
  omega

/-- and two of them share no page. -/
theorem freed_apart (hgot : Got pages e) {i j : ℕ} (hij : i < j) (hj : j < e.count) :
    Disjoint (block h (e.blocks i).ptr) (block h (e.blocks j).ptr) :=
  (disjoint_block pages.toFreePages hij).mono (freed_subset hgot (hij.trans hj))
    (freed_subset hgot hj)

/-- The second halves are left. -/
theorem taken_sdiff_freed (hgot : Got pages e) :
    ((Finset.range e.count).biUnion fun i => block (h + 1) (pages.base i)) \
      ((Finset.range e.count).biUnion fun i => block h (e.blocks i).ptr) =
        upperHalves h (obtained pages.toFreePages e.count) := by
  ext p
  rw [Finset.mem_sdiff, mem_taken hgot, mem_freed hgot, mem_upperHalves]
  constructor
  · rintro ⟨⟨t, ht, hp⟩, hnot⟩
    refine ⟨t, ht, (mem_frames_succ.mp hp).resolve_left fun hlower => hnot ⟨t, ht, hlower⟩⟩
  · rintro ⟨t, ht, hupper⟩
    refine ⟨⟨t, ht, mem_frames_succ.mpr (.inr hupper)⟩, ?_⟩
    rintro ⟨t', -, hlower⟩
    -- an even block of order `h` is not an odd one
    rw [mem_frames] at hupper hlower
    omega

/-- **What `fragment_memory` keeps.** -/
theorem keeps_fragmentMemory (junk : ℕ → Option ℕ) (fragBlocks : ℕ) :
    let n := (allocLoop pages.toFreePages fragBlocks 0 (kmallocArray junk)).count
    Keeps (deeds (fragmentMemory (some junk) pages.toFreePages fragBlocks).calls)
      (upperHalves h (obtained pages.toFreePages n)) := by
  obtain ⟨e, he⟩ : ∃ e, e = allocLoop pages.toFreePages fragBlocks 0 (kmallocArray junk) := ⟨_, rfl⟩
  have hcalls : (fragmentMemory (some junk) pages.toFreePages fragBlocks).calls =
      e.calls ++ freeLoop e.blocks h e.count := by
    rw [he]
    rfl
  have hgot : Got pages e := by
    rw [he]
    exact fun i hi => (allocLoop_spec pages.toFreePages fragBlocks 0 _).2.1 i (Nat.zero_le i) hi
  have hfirst := keeps_allocLoop pages.toFreePages fragBlocks 0 (kmallocArray junk) keeps_nil
    fun j _ => Finset.disjoint_empty_left _
  rw [← he] at hfirst ⊢
  dsimp only at hfirst ⊢
  rw [List.nil_append, Finset.empty_union, ← Finset.range_eq_Ico] at hfirst
  rw [hcalls, deeds_append, ← taken_sdiff_freed hgot]
  refine keeps_freeLoop hfirst (fun i hi => ?_) fun i j hij hj => freed_apart hgot hij hj
  exact (freed_subset hgot hi).trans
    (Finset.subset_biUnion_of_mem (fun j => block (h + 1) (pages.base j)) (Finset.mem_range.mpr hi))

end Halves

/-- **"Half allocated".** However many blocks it obtains, `fragment_memory` frees only what it
owns, and owns exactly the second halves of these blocks in the end. So the pages that can be joined
into a block without it, of any order, are those of blocks of which it has obtained nothing, and
those within one of the first halves: no half merges with its buddy. -/
theorem fragment_keeps {fragOrder : ℕ} (horder : 1 ≤ fragOrder) (pages : AlignedPages fragOrder)
    (junk : ℕ → Option ℕ) (fragBlocks : ℕ) :
    let n := (allocLoop pages.toFreePages fragBlocks 0 (kmallocArray junk)).count
    let log := deeds (fragmentMemory (some junk) pages.toFreePages fragBlocks).calls
    Lawful log ∧
      (∀ p, Owned log p ↔
        ∃ t ∈ obtained pages.toFreePages n, p ∈ frames (fragOrder - 1) (2 * t + 1)) ∧
      ∀ k j, (∀ p ∈ frames k j, ¬ Owned log p) ↔ ∀ t ∈ obtained pages.toFreePages n,
        Disjoint (frames k j) (frames fragOrder t) ∨
          k < fragOrder ∧ frames k j ⊆ frames (fragOrder - 1) (2 * t) := by
  obtain ⟨h, rfl⟩ : ∃ h, fragOrder = h + 1 := ⟨fragOrder - 1, by omega⟩
  intro n log
  have hkeeps : Keeps log (upperHalves h (obtained pages.toFreePages n)) :=
    keeps_fragmentMemory junk fragBlocks
  refine ⟨hkeeps.lawful, fun p => hkeeps.owned_iff.trans mem_upperHalves, fun k j => ?_⟩
  simp only [hkeeps.owned_iff]
  exact Finset.disjoint_left.symm.trans disjoint_upperHalves_iff

/-- Two blocks of four pages each. -/
def twoBlocks : AlignedPages 2 where
  base i := if i < 2 then some (4 * i) else none
  fresh := by
    intro i j b c hij hi hj
    rw [Option.ite_none_right_eq_some] at hi hj
    obtain ⟨-, hi⟩ := hi
    obtain ⟨-, hj⟩ := hj
    cases hi
    cases hj
    omega
  aligned := by
    intro i b hb
    rw [Option.ite_none_right_eq_some] at hb
    obtain ⟨-, hb⟩ := hb
    cases hb
    exact Nat.dvd_mul_right 4 i

theorem obtained_twoBlocks : obtained twoBlocks.toFreePages (allocLoop twoBlocks.toFreePages 4000 0
    (kmallocArray fun _ => none)).count = {0, 1} := by decide +kernel

/-- Asked for 4000, the module gets both; pages 0 and 1 can be joined, but 2 and 3 are in the way
of more. -/
theorem fragment_keeps_two :
    let log := deeds (fragmentMemory (some fun _ => none) twoBlocks.toFreePages 4000).calls
    Owned log 3 ∧ (∀ p ∈ frames 1 0, ¬ Owned log p) ∧ ¬ ∀ p ∈ frames 2 0, ¬ Owned log p := by
  obtain ⟨-, howned, hjoined⟩ := fragment_keeps (by omega) twoBlocks (fun _ => none) 4000
  rw [obtained_twoBlocks] at howned hjoined
  exact ⟨(howned 3).mpr (by decide), (hjoined 1 0).mpr (by decide),
    fun h => absurd ((hjoined 2 0).mp h) (by decide)⟩

/-! ## The test -/

/-- What one iteration of `run_test` gets. -/
structure TestRun where
  /-- `kmalloc`: the first page of a block, `none` for `NULL` -/
  kptr : Option ℕ
  /-- `vmalloc`: pages, `none` for `NULL` -/
  vptr : Option (List ℕ)

/-- What is promised of memory that is handed out after some deeds: `kmalloc` aligns a block to its
size, and nothing is handed out that is in use. -/
structure TestRun.Fits (log : List (Deed ℕ)) (testOrder : ℕ) (r : TestRun) : Prop where
  /-- where a block starts -/
  aligned : ∀ {b : ℕ}, r.kptr = some b → 2 ^ testOrder ∣ b
  /-- `kmalloc` -/
  kmalloc : ∀ {b : ℕ}, r.kptr = some b → ∀ p ∈ pagesFrom b testOrder, ¬ Owned log p
  /-- `vmalloc` -/
  vmalloc : ∀ {ps : List ℕ}, r.vptr = some ps → ps.Nodup ∧ ∀ p ∈ ps, ¬ Owned log p

/-- The page traffic of an iteration: what is not `NULL` is freed again at once. -/
def TestRun.deeds (testOrder : ℕ) (r : TestRun) : List (Deed ℕ) :=
  let kpages := r.kptr.elim [] (pagesFrom · testOrder)
  let vpages := r.vptr.getD []
  (kpages.map .acquire ++ kpages.map .release) ++ (vpages.map .acquire ++ vpages.map .release)

/-- `run_test`, with `repeat` as `times` -/
def runTest (testOrder times : ℕ) (got : ℕ → TestRun) : List (Deed ℕ) :=
  (List.range times).flatMap fun i => (got i).deeds testOrder

/-- An iteration gives back what it gets. -/
theorem keeps_testRun (h : Keeps log S) {testOrder : ℕ} {r : TestRun}
    (hfits : ∀ log', Keeps log' S → r.Fits log' testOrder) :
    Keeps (log ++ r.deeds testOrder) S := by
  rw [TestRun.deeds, ← List.append_assoc]
  have hk : Keeps (log ++ ((r.kptr.elim [] (pagesFrom · testOrder)).map .acquire ++
      (r.kptr.elim [] (pagesFrom · testOrder)).map .release)) S := by
    cases hkptr : r.kptr with
    | none => exact h.borrow List.nodup_nil fun p hp => absurd hp List.not_mem_nil
    | some b =>
      refine h.borrow (nodup_pagesFrom b testOrder) fun p hp => ?_
      rw [← h.owned_iff]
      exact (hfits _ h).kmalloc hkptr p hp
  refine hk.borrow ?_ fun p hp => ?_
  · cases hvptr : r.vptr with
    | none => exact List.nodup_nil
    | some ps => exact ((hfits _ hk).vmalloc hvptr).1
  · cases hvptr : r.vptr with
    | none =>
      rw [hvptr] at hp
      exact absurd hp List.not_mem_nil
    | some ps =>
      rw [hvptr] at hp
      rw [← hk.owned_iff]
      exact ((hfits _ hk).vmalloc hvptr).2 p hp

/-- So does the test. -/
theorem keeps_runTest (h : Keeps log S) {testOrder : ℕ} {got : ℕ → TestRun}
    {times : ℕ}
    (hfits : ∀ i < times, ∀ log', Keeps log' S → (got i).Fits log' testOrder) :
    Keeps (log ++ runTest testOrder times got) S := by
  induction times with
  | zero => simpa [runTest] using h
  | succ n ih =>
    have hrest := ih fun i hi => hfits i (hi.trans (Nat.lt_succ_self n))
    rw [runTest, List.range_succ, List.flatMap_append, ← runTest, List.flatMap_singleton,
      ← List.append_assoc]
    exact keeps_testRun hrest (hfits n (Nat.lt_succ_self n))

/-- What fits one ledger fits any other that keeps the same. -/
theorem TestRun.Fits.congr {r : TestRun} {testOrder : ℕ} (hr : r.Fits log testOrder)
    (h : Keeps log S) {log' : List (Deed ℕ)} (h' : Keeps log' S) : r.Fits log' testOrder := by
  have howned : ∀ p, Owned log' p ↔ Owned log p := fun p => h'.owned_iff.trans h.owned_iff.symm
  refine ⟨hr.aligned, fun hk p hp => ?_, fun hv => ⟨(hr.vmalloc hv).1, fun p hp => ?_⟩⟩
  · rw [howned]
    exact hr.kmalloc hk p hp
  · rw [howned]
    exact (hr.vmalloc hv).2 p hp

/-- **The test.** Whatever `kmalloc` and `vmalloc` return, as long as it is not in use already,
`run_test` gives all of it back, and `demo_init` ends with the second halves of the blocks it has
obtained. Meanwhile `kmalloc` of at least `frag_order` gets nothing of these blocks, and one of less
nothing but a part of a first half; `vmalloc` gets at most half of each block. -/
theorem test_keeps {fragOrder : ℕ} (horder : 1 ≤ fragOrder) (pages : AlignedPages fragOrder)
    (junk : ℕ → Option ℕ) (fragBlocks testOrder times : ℕ) (got : ℕ → TestRun)
    (hfits : ∀ i < times, (got i).Fits
      (deeds (demoInit (some junk) pages.toFreePages fragBlocks).calls) testOrder) :
    let n := (allocLoop pages.toFreePages fragBlocks 0 (kmallocArray junk)).count
    let log := deeds (demoInit (some junk) pages.toFreePages fragBlocks).calls ++
      runTest testOrder times got
    (Lawful log ∧ ∀ p, Owned log p ↔
      ∃ t ∈ obtained pages.toFreePages n, p ∈ frames (fragOrder - 1) (2 * t + 1)) ∧
    ∀ i < times, ∀ t ∈ obtained pages.toFreePages n,
      (∀ b, (got i).kptr = some b →
        Disjoint (Finset.Ico b (b + 2 ^ testOrder)) (frames fragOrder t) ∨
          testOrder < fragOrder ∧
            Finset.Ico b (b + 2 ^ testOrder) ⊆ frames (fragOrder - 1) (2 * t)) ∧
      ∀ ps, (got i).vptr = some ps →
        (ps.filter (· ∈ frames fragOrder t)).length ≤ 2 ^ (fragOrder - 1) := by
  obtain ⟨h, rfl⟩ : ∃ h, fragOrder = h + 1 := ⟨fragOrder - 1, by omega⟩
  intro n log
  have hkeeps : Keeps (deeds (demoInit (some junk) pages.toFreePages fragBlocks).calls)
      (upperHalves h (obtained pages.toFreePages n)) := keeps_fragmentMemory junk fragBlocks
  have hlog : Keeps log (upperHalves h (obtained pages.toFreePages n)) :=
    keeps_runTest hkeeps fun i hi _ h' => (hfits i hi).congr hkeeps h'
  refine ⟨⟨hlog.lawful, fun p => hlog.owned_iff.trans mem_upperHalves⟩, fun i hi t ht => ⟨?_, ?_⟩⟩
  · intro b hb
    rw [Ico_eq_frames ((hfits i hi).aligned hb)]
    refine disjoint_upperHalves_iff.mp (Finset.disjoint_left.mpr fun p hp => ?_) t ht
    rw [← Ico_eq_frames ((hfits i hi).aligned hb), ← toFinset_pagesFrom, List.mem_toFinset] at hp
    rw [← hkeeps.owned_iff]
    exact (hfits i hi).kmalloc hb p hp
  · intro ps hps
    obtain ⟨hnodup, hfree⟩ := (hfits i hi).vmalloc hps
    rw [← List.toFinset_card_of_nodup (hnodup.filter _), Nat.add_sub_cancel,
      ← card_frames h (2 * t)]
    refine Finset.card_le_card fun p hp => ?_
    rw [List.mem_toFinset, List.mem_filter, decide_eq_true_eq] at hp
    refine (mem_frames_succ.mp hp.2).resolve_right fun hupper => ?_
    exact hfree p hp.1 (hkeeps.owned_iff.mpr (mem_upperHalves.mpr ⟨t, ht, hupper⟩))

/-- `kmalloc` finds four pages elsewhere, `vmalloc` takes the halves that were freed. -/
def elsewhere : TestRun := ⟨some 8, some [0, 1, 4, 5]⟩

theorem fits_elsewhere : elsewhere.Fits
    (deeds (demoInit (some fun _ => none) twoBlocks.toFreePages 4000).calls) 2 where
  aligned := by
    rintro b ⟨⟩
    decide
  kmalloc := by
    rintro b ⟨⟩
    decide +kernel
  vmalloc := by
    rintro ps ⟨⟩
    decide +kernel

/-- Three times over, `vmalloc` gets two pages of each block, which is all there is. -/
theorem test_keeps_two :
    let log := deeds (demoInit (some fun _ => none) twoBlocks.toFreePages 4000).calls ++
      runTest 2 3 fun _ => elsewhere
    Lawful log ∧ Owned log 3 ∧ ¬ Owned log 4 ∧
      ([0, 1, 4, 5].filter (· ∈ frames 2 1)).length ≤ 2 := by
  obtain ⟨⟨hlawful, howned⟩, hgot⟩ := test_keeps (by omega) twoBlocks (fun _ => none) 4000 2 3
    (fun _ => elsewhere) fun _ _ => fits_elsewhere
  rw [obtained_twoBlocks] at howned hgot
  exact ⟨hlawful, (howned 3).mpr (by decide), fun h => absurd ((howned 4).mp h) (by decide),
    (hgot 0 (by omega) 1 (by decide)).2 _ rfl⟩

end KmallocVsVmalloc

end KernelModules
