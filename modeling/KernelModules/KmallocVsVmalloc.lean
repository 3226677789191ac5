import KernelModules.Ledger
import KernelModules.UserMemory
import Mathlib.Logic.Function.Basic

/-!
# `kmalloc_vs_vmalloc.c`

The page traffic of the module: `fragment_memory` takes blocks of `2 ^ frag_order` pages
until it has `frag_blocks` of them or the allocator gives up, and frees the first half of
each again; `demo_exit` frees what it finds in `blocks`. The allocator, the memory that
`kmalloc_array` returns and the parameters at unload time are whatever they are.

The halves freed at first are freed again at the end, and an exit that frees less than
was obtained leaks the rest: the module returns every page exactly once when it got none,
and only then (`demo_frees_each_page_once_iff`).
-/

namespace KernelModules

namespace KmallocVsVmalloc

open Ledger

/-- An entry of `blocks`. -/
structure Entry where
  /-- the first page of the block, `none` for `NULL` -/
  ptr : Option ℕ
  /-- whether `fragment_memory` has assigned the entry -/
  isSet : Bool

/-- The array `blocks`, and the memory behind it. -/
abbrev Blocks := ℕ → Entry

/-- `kmalloc_array`: the entries hold what the memory held before. -/
def kmallocArray (junk : ℕ → Option ℕ) : Blocks := fun i => ⟨junk i, false⟩

/-- A call of the page allocator that does something. -/
inductive PageCall where
  /-- `__get_free_pages`, with the block it returned -/
  | get (base order : ℕ)
  /-- `free_pages`, and whether the entry it was read from was set -/
  | free (base order : ℕ) (isSet : Bool)

/-- The pages of a call, one by one. -/
def PageCall.deeds : PageCall → List (Deed ℕ)
  | .get base order => (List.range (2 ^ order)).map fun k => .acquire (base + k)
  | .free base order _ => (List.range (2 ^ order)).map fun k => .release (base + k)

/-- The pages of all calls. -/
def deeds (calls : List PageCall) : List (Deed ℕ) := calls.flatMap PageCall.deeds

/-- What `__get_free_pages` returns, call by call: `NULL`, or a block of its own. -/
structure FreePages (order : ℕ) where
  /-- the first page of the block of each call -/
  base : ℕ → Option ℕ
  /-- no two blocks share a page -/
  fresh : ∀ {i j b c : ℕ}, i < j → base i = some b → base j = some c →
    b + 2 ^ order ≤ c ∨ c + 2 ^ order ≤ b

/-! ## The functions of the module -/

/-- Where the first loop of `fragment_memory` ends. -/
structure AllocExit where
  /-- `i` -/
  count : ℕ
  /-- the array -/
  blocks : Blocks
  /-- the blocks obtained -/
  calls : List PageCall

/-- The first loop of `fragment_memory`, with `todo = frag_blocks - i` iterations left. -/
def allocLoop {order : ℕ} (pages : FreePages order) : ℕ → ℕ → Blocks → AllocExit
  | 0, i, blocks => ⟨i, blocks, []⟩
  | todo + 1, i, blocks =>
    let blocks := Function.update blocks i ⟨pages.base i, true⟩
    match pages.base i with
    | none => ⟨i, blocks, []⟩
    | some base =>
      let rest := allocLoop pages todo (i + 1) blocks
      ⟨rest.count, rest.blocks, .get base order :: rest.calls⟩

/-- The loops that free: every non-null entry below `n`, with the given order. -/
def freeLoop (blocks : Blocks) (order n : ℕ) : List PageCall :=
  (List.range n).flatMap fun i =>
    match (blocks i).ptr with
    | none => []
    | some base => [.free base order (blocks i).isSet]

/-- What `demo_init` leaves behind. -/
structure Loaded where
  /-- its return value -/
  ret : ℤ
  /-- `blocks`, `none` for `NULL` -/
  blocks : Option Blocks
  /-- its page calls -/
  calls : List PageCall

/-- `fragment_memory`. The array is what `kmalloc_array` finds in memory, `none` when it
returns `NULL`. -/
def fragmentMemory (array : Option (ℕ → Option ℕ)) {fragOrder : ℕ}
    (pages : FreePages fragOrder) (fragBlocks : ℕ) : Loaded :=
  match array with
  | none => ⟨-enomem, none, []⟩
  | some junk =>
    let e := allocLoop pages fragBlocks 0 (kmallocArray junk)
    -- the second loop frees the first half of every block again
    ⟨0, some e.blocks, e.calls ++ freeLoop e.blocks (fragOrder - 1) e.count⟩

/-- `demo_init`; the test in between frees what it allocates. -/
def demoInit (array : Option (ℕ → Option ℕ)) {fragOrder : ℕ} (pages : FreePages fragOrder)
    (fragBlocks : ℕ) : Loaded :=
  let f := fragmentMemory array pages fragBlocks
  if f.ret ≠ 0 then { f with ret := -enomem } else f

/-- An `int` passed as an `unsigned int`. -/
def unsignedInt (n : ℤ) : ℕ := (n % 2 ^ 32).toNat

/-- `demo_exit`, with the parameters as they are by then. -/
def demoExit (blocks : Option Blocks) (fragBlocks fragOrder : ℤ) : List PageCall :=
  match blocks with
  | none => []
  | some blocks => freeLoop blocks (unsignedInt fragOrder) fragBlocks.toNat

/-- `demo_init`, and `demo_exit` if the module got loaded. -/
def demoRun (array : Option (ℕ → Option ℕ)) {fragOrder : ℕ} (pages : FreePages fragOrder)
    (fragBlocks : ℕ) (exitBlocks exitOrder : ℤ) : List PageCall :=
  let l := demoInit array pages fragBlocks
  if l.ret = 0 then l.calls ++ demoExit l.blocks exitBlocks exitOrder else l.calls

/-- Every page obtained is freed exactly once, no page is freed that is not owned, and no
call reads an entry that was never set. -/
def Clean (calls : List PageCall) : Prop :=
  Settled (deeds calls) ∧ Lawful (deeds calls) ∧
    ∀ base order, .free base order false ∉ calls

/-! ## The loops -/

theorem mem_freeLoop {blocks : Blocks} {order n : ℕ} {c : PageCall} :
    c ∈ freeLoop blocks order n ↔
      ∃ i < n, ∃ base, (blocks i).ptr = some base ∧ c = .free base order (blocks i).isSet := by
  rw [freeLoop, List.mem_flatMap]
  constructor
  · rintro ⟨i, hi, hc⟩
    refine ⟨i, List.mem_range.mp hi, ?_⟩
    split at hc
    · cases hc
    · next base hptr => exact ⟨base, hptr, List.mem_singleton.mp hc⟩
  · rintro ⟨i, hi, base, hptr, rfl⟩
    refine ⟨i, List.mem_range.mpr hi, ?_⟩
    rw [hptr]
    exact List.mem_singleton_self ..

/-- What the first loop leaves in the array: the blocks it obtained, in order, and what
was there before it started. -/
theorem allocLoop_spec {order : ℕ} (pages : FreePages order) :
    ∀ (todo i : ℕ) (blocks : Blocks),
      let e := allocLoop pages todo i blocks
      i ≤ e.count ∧
        (∀ k, i ≤ k → k < e.count → ∃ b, pages.base k = some b ∧ e.blocks k = ⟨some b, true⟩) ∧
        (∀ k < i, e.blocks k = blocks k) ∧
        ∀ c ∈ e.calls, ∃ base, c = .get base order := by
  intro todo
  induction todo with
  | zero =>
    intro i blocks
    exact ⟨le_refl i, fun k hi hk => absurd hk (by change ¬ k < i; omega), fun _ _ => rfl,
      fun _ hc => absurd hc List.not_mem_nil⟩
  | succ todo ih =>
    intro i blocks
    have hbelow : ∀ k < i, Function.update blocks i ⟨pages.base i, true⟩ k = blocks k :=
      fun k hk => Function.update_of_ne (by omega) ..
    simp only [allocLoop]
    split
    · exact ⟨le_refl i, fun k hi hk => absurd hk (by change ¬ k < i; omega), hbelow,
        fun _ hc => absurd hc List.not_mem_nil⟩
    · next base hbase =>
      obtain ⟨hle, hblocks, hkeep, hcalls⟩ :=
        ih (i + 1) (Function.update blocks i ⟨pages.base i, true⟩)
      refine ⟨by dsimp only; omega, fun k hi hk => ?_, fun k hk => ?_, fun c hc => ?_⟩
      · rcases eq_or_lt_of_le hi with rfl | hlt
        · -- the block just obtained stays where it was put
          refine ⟨base, hbase, ?_⟩
          rw [hkeep i (by omega), Function.update_self, hbase]
        · exact hblocks k hlt hk
      · rw [hkeep k (by omega), hbelow k hk]
      · rcases List.mem_cons.mp hc with rfl | hc
        · exact ⟨base, rfl⟩
        · exact hcalls c hc

/-! ## Pages -/

theorem deeds_append (calls calls' : List PageCall) :
    deeds (calls ++ calls') = deeds calls ++ deeds calls' :=
  List.flatMap_append ..

theorem acquire_mem_deeds {calls : List PageCall} {base order k : ℕ}
    (hcall : .get base order ∈ calls) (hk : k < 2 ^ order) :
    .acquire (base + k) ∈ deeds calls :=
  List.mem_flatMap.mpr ⟨_, hcall, List.mem_map.mpr ⟨k, List.mem_range.mpr hk, rfl⟩⟩

/-- A page is released by the calls whose block it is in. -/
theorem release_mem_deeds {calls : List PageCall} {p : ℕ} :
    .release p ∈ deeds calls ↔
      ∃ base order s, .free base order s ∈ calls ∧ base ≤ p ∧ p < base + 2 ^ order := by
  rw [deeds, List.mem_flatMap]
  constructor
  · rintro ⟨c, hc, hp⟩
    cases c with
    | get base order =>
      obtain ⟨k, -, hk⟩ := List.mem_map.mp hp
      cases hk
    | free base order s =>
      obtain ⟨k, hk, heq⟩ := List.mem_map.mp hp
      cases heq
      have hlt : k < 2 ^ order := List.mem_range.mp hk
      exact ⟨base, order, s, hc, by omega, by omega⟩
  · rintro ⟨base, order, s, hc, hle, hlt⟩
    refine ⟨_, hc, List.mem_map.mpr ⟨p - base, List.mem_range.mpr (by omega), ?_⟩⟩
    congr 1
    omega

/-- The loops that free read the first entry whenever they run at all. -/
theorem release_mem_freeLoop {blocks : Blocks} {base : ℕ} (h : (blocks 0).ptr = some base)
    (order : ℕ) {n : ℕ} (hn : 0 < n) : .release base ∈ deeds (freeLoop blocks order n) :=
  release_mem_deeds.mpr ⟨base, order, _, mem_freeLoop.mpr ⟨0, hn, base, h, rfl⟩, le_refl base,
    Nat.lt_add_of_pos_right (Nat.two_pow_pos order)⟩

/-! ## Loading and unloading -/

/-- With the first block obtained, no exit puts things right: it frees the first page of
that block a second time, or it frees nothing and the second half of the block is lost. -/
theorem not_settled_of_block (junk : ℕ → Option ℕ) {fragOrder : ℕ} (horder : 1 ≤ fragOrder)
    (pages : FreePages fragOrder) {fragBlocks base : ℕ} (hblocks : 0 < fragBlocks)
    (hbase : pages.base 0 = some base) (exitBlocks exitOrder : ℤ) :
    ¬ Settled (deeds (demoRun (some junk) pages fragBlocks exitBlocks exitOrder)) := by
  obtain ⟨n, rfl⟩ : ∃ n, fragBlocks = n + 1 := ⟨fragBlocks - 1, by omega⟩
  obtain ⟨o, rfl⟩ : ∃ o, fragOrder = o + 1 := ⟨fragOrder - 1, by omega⟩
  have hpow : 2 ^ (o + 1) = 2 ^ o + 2 ^ o := by rw [pow_succ, mul_two]
  have hpos : 0 < 2 ^ o := Nat.two_pow_pos o
  obtain ⟨e, he⟩ : ∃ e, e = allocLoop pages (n + 1) 0 (kmallocArray junk) := ⟨_, rfl⟩
  -- the first iteration obtains the block and goes on
  obtain ⟨rest, hrest⟩ : ∃ rest : AllocExit, rest =
      allocLoop pages n 1 (Function.update (kmallocArray junk) 0 ⟨some base, true⟩) := ⟨_, rfl⟩
  have hstep : e = ⟨rest.count, rest.blocks, .get base (o + 1) :: rest.calls⟩ := by
    rw [he, hrest]
    simp only [allocLoop, hbase]
  obtain ⟨-, hentries, -, hgets⟩ := allocLoop_spec pages (n + 1) 0 (kmallocArray junk)
  rw [← he] at hentries hgets
  have hcount : 0 < e.count := by
    have hle := (allocLoop_spec pages n 1
      (Function.update (kmallocArray junk) 0 ⟨some base, true⟩)).1
    rw [← hrest] at hle
    rw [hstep]
    exact hle
  have hfirst : (e.blocks 0).ptr = some base := by
    obtain ⟨b, hb, hentry⟩ := hentries 0 (le_refl 0) hcount
    rw [hentry, ← hb, hbase]
  have hrun : demoRun (some junk) pages (n + 1) exitBlocks exitOrder =
      e.calls ++ freeLoop e.blocks o e.count ++
        freeLoop e.blocks (unsignedInt exitOrder) exitBlocks.toNat := by
    rw [he]
    rfl
  rw [hrun]
  intro hsettled
  have hget : PageCall.get base (o + 1) ∈ e.calls ++ freeLoop e.blocks o e.count ++
      freeLoop e.blocks (unsignedInt exitOrder) exitBlocks.toNat := by
    rw [hstep]
    simp
  rcases Nat.eq_zero_or_pos exitBlocks.toNat with hexit | hexit
  · -- nothing is freed at the end: look at the first page of the second half
    have hone := hsettled _ (acquire_mem_deeds hget (k := 2 ^ o) (by omega))
    have hmem := List.count_pos_iff.mp (by rw [hone]; exact Nat.one_pos)
    obtain ⟨b, order, s, hfree, hle, hlt⟩ := release_mem_deeds.mp hmem
    rw [hexit, List.append_assoc, List.mem_append, List.mem_append] at hfree
    rcases hfree with hfree | hfree | hfree
    · obtain ⟨b', hget⟩ := hgets _ hfree
      cases hget
    · obtain ⟨i, hi, b', hptr, heq⟩ := mem_freeLoop.mp hfree
      cases heq
      obtain ⟨b'', hb, hentry⟩ := hentries i (Nat.zero_le i) hi
      obtain rfl : b'' = b := by
        rw [hentry] at hptr
        exact Option.some.inj hptr
      rcases Nat.eq_zero_or_pos i with rfl | hi
      · obtain rfl : base = b'' := Option.some.inj (hbase.symm.trans hb)
        omega
      · rcases pages.fresh hi hbase hb with h | h <;> omega
    · obtain ⟨i, hi, -⟩ := mem_freeLoop.mp hfree
      omega
  · -- the first page is freed by both loops
    have hone := hsettled _ (acquire_mem_deeds hget (k := 0) (by omega))
    have hhalf := List.count_pos_iff.mpr (release_mem_freeLoop hfirst o hcount)
    have hagain := List.count_pos_iff.mpr
      (release_mem_freeLoop hfirst (unsignedInt exitOrder) hexit)
    rw [Nat.add_zero, deeds_append, deeds_append, List.count_append, List.count_append] at hone
    omega

/-- With no block obtained, what the exit frees is what it finds in entries nobody set. -/
theorem demoRun_of_no_block (junk : ℕ → Option ℕ) {fragOrder : ℕ}
    (pages : FreePages fragOrder) {fragBlocks : ℕ}
    (hnone : fragBlocks = 0 ∨ pages.base 0 = none) (exitBlocks exitOrder : ℤ) :
    ∃ blocks : Blocks,
      demoRun (some junk) pages fragBlocks exitBlocks exitOrder =
        freeLoop blocks (unsignedInt exitOrder) exitBlocks.toNat ∧
      ∀ i, blocks i = if fragBlocks = 0 ∨ 0 < i then ⟨junk i, false⟩ else ⟨none, true⟩ := by
  cases fragBlocks with
  | zero => exact ⟨_, rfl, fun i => rfl⟩
  | succ n =>
    have hbase : pages.base 0 = none := hnone.resolve_left (Nat.succ_ne_zero n)
    refine ⟨Function.update (kmallocArray junk) 0 ⟨none, true⟩, ?_, fun i => ?_⟩
    · simp only [demoRun, demoInit, fragmentMemory, allocLoop, hbase]
      rfl
    · cases i with
      | zero => rfl
      | succ i => rw [if_pos (.inr (Nat.succ_pos i))]; rfl

/-- **Every page freed exactly once**: whatever the allocator does and whatever the
parameters are by the time of the exit, the module is clean exactly when it obtained no
array, or no block, and the exit finds `NULL` in every entry that was never set. -/
theorem demo_frees_each_page_once_iff (array : Option (ℕ → Option ℕ)) {fragOrder : ℕ}
    (horder : 1 ≤ fragOrder) (pages : FreePages fragOrder) (fragBlocks : ℕ)
    (exitBlocks exitOrder : ℤ) :
    Clean (demoRun array pages fragBlocks exitBlocks exitOrder) ↔
      ∀ junk, array = some junk →
        (fragBlocks = 0 ∨ pages.base 0 = none) ∧
          ∀ i < exitBlocks.toNat, fragBlocks = 0 ∨ 0 < i → junk i = none := by
  rcases array with _ | junk
  · exact ⟨fun _ _ => nofun, fun _ => ⟨fun _ => nofun, lawful_nil, fun _ _ => nofun⟩⟩
  by_cases hnone : fragBlocks = 0 ∨ pages.base 0 = none
  · obtain ⟨blocks, hrun, hentry⟩ :=
      demoRun_of_no_block junk pages hnone exitBlocks exitOrder
    rw [hrun]
    constructor
    · rintro ⟨-, -, hset⟩ junk' hjunk
      cases hjunk
      refine ⟨hnone, fun i hi hunset => ?_⟩
      rcases hptr : junk i with _ | base
      · rfl
      · -- the entry would be freed although nobody set it
        have he : blocks i = ⟨some base, false⟩ := by rw [hentry i, if_pos hunset, hptr]
        have hfree : .free base (unsignedInt exitOrder) false ∈
            freeLoop blocks (unsignedInt exitOrder) exitBlocks.toNat :=
          mem_freeLoop.mpr ⟨i, hi, base, by rw [he], by rw [he]⟩
        exact absurd hfree (hset base (unsignedInt exitOrder))
    · intro h
      have hnull : ∀ i < exitBlocks.toNat, (blocks i).ptr = none := by
        intro i hi
        rw [hentry i]
        split
        · next hunset => exact (h junk rfl).2 i hi hunset
        · rfl
      have hnil : freeLoop blocks (unsignedInt exitOrder) exitBlocks.toNat = [] := by
        rw [List.eq_nil_iff_forall_not_mem]
        intro c hc
        obtain ⟨i, hi, base, hptr, -⟩ := mem_freeLoop.mp hc
        rw [hnull i hi] at hptr
        cases hptr
      rw [hnil]
      exact ⟨fun _ => nofun, lawful_nil, fun _ _ => nofun⟩
  · rw [not_or] at hnone
    obtain ⟨base, hbase⟩ := Option.ne_none_iff_exists'.mp hnone.2
    refine ⟨fun hclean => ?_, fun h => absurd (h junk rfl).1 (not_or.mpr hnone)⟩
    exact absurd hclean.1 (not_settled_of_block junk horder pages
      (Nat.pos_of_ne_zero hnone.1) hbase exitBlocks exitOrder)

/-- An allocator that hands out one block of two pages and then gives up. -/
def oneBlock : FreePages 1 where
  base i := if i = 0 then some 64 else none
  fresh := by
    intro i j b c hij _ hj
    rw [if_neg (by omega)] at hj
    cases hj

/-- Nothing is wrong when the array is full of `NULL` and no block is asked for, and
something is when one is. -/
theorem demo_frees_each_page_once_iff_blocks :
    Clean (demoRun (some fun _ => none) oneBlock 0 4000 1) ∧
      ¬ Clean (demoRun (some fun _ => none) oneBlock 1 1 1) := by
  have horder : 1 ≤ 1 := le_refl 1
  constructor
  · refine (demo_frees_each_page_once_iff (some fun _ => none) horder oneBlock 0 4000 1).mpr ?_
    rintro junk ⟨⟩
    exact ⟨.inl rfl, fun _ _ _ => rfl⟩
  · intro hclean
    have h := (demo_frees_each_page_once_iff (some fun _ => none) horder oneBlock 1 1 1).mp
      hclean _ rfl
    rcases h.1 with h | h <;> cases h

/-- One block of two pages is obtained; its first page is freed when the module is loaded
and again when it is unloaded with the same parameters. -/
theorem demo_frees_page_twice :
    let log := deeds (demoRun (some fun _ => none) oneBlock 1 1 1)
    log.count (.acquire 64) = 1 ∧ log.count (.release 64) = 2 ∧
      ¬ Clean (demoRun (some fun _ => none) oneBlock 1 1 1) := by
  refine ⟨by decide, by decide, fun hclean => ?_⟩
  have htwice : (deeds (demoRun (some fun _ => none) oneBlock 1 1 1)).count (.release 64) = 2 := by
    decide
  have hle := hclean.2.1.count_le 64
  rw [htwice] at hle
  revert hle
  decide

end KmallocVsVmalloc

end KernelModules
