import Xv6Duo.Buddy.Calls
import Mathlib.Order.CompletePartialOrder

/-!
# Runs of the buddy allocator

The callers of the allocator are described by a ledger: which pages head a live block, of which
order, and how many `page_refcnt_inc` calls on the block are still outstanding. The ledger is
bookkeeping only and never steers the allocator. The main result says that memory and ledger agree
after every run from `buddy_init`, as long as no reference counter is counted past its 32 bits.
-/

namespace Xv6Duo
namespace Buddy

open DyadicPartition PointerChain GuardedRun

/-- A block that was allocated and not given back. -/
structure LiveBlock where
  /-- Order of the block. -/
  order : Nat
  /-- Calls of `page_refcnt_inc` that no `buddy_free` has answered. -/
  outstanding : Nat
  deriving DecidableEq, Repr

/-- The allocator beside the ledger of its callers. -/
structure World where
  /-- Allocator memory. -/
  state : State
  /-- Live blocks by first page. -/
  live : Nat → Option LiveBlock

/-- A call on the allocator. -/
inductive Call
  /-- `buddy_alloc(size)`. -/
  | alloc (size : Nat)
  /-- `page_refcnt_inc` on a page. -/
  | inc (i : Nat)
  /-- `buddy_free` on a page. -/
  | free (i : Nat)
  deriving DecidableEq, Repr

namespace World

/-- The world after `buddy_init`. -/
def initial : World := ⟨buddyInit, fun _ => none⟩

/-- One more outstanding reference. -/
def count (block : LiveBlock) : LiveBlock :=
  { block with outstanding := block.outstanding + 1 }

/-- One `buddy_free` answers an outstanding reference, the last one ends the block. -/
def answer (block : LiveBlock) : Option LiveBlock :=
  if block.outstanding = 0 then none
  else some { block with outstanding := block.outstanding - 1 }

/-- Carry out one call and note it in the ledger. -/
def step (w : World) : Call → Except Fault World
  | .alloc size => do
      let (i, s) ← buddyAlloc w.state size
      return ⟨s, Function.update w.live i (some ⟨sizeOrder size, 0⟩)⟩
  | .inc i => .ok ⟨pageRefcntInc w.state i, Function.update w.live i ((w.live i).map count)⟩
  | .free i => do
      let s ← buddyFree w.state i
      return ⟨s, Function.update w.live i ((w.live i).bind answer)⟩

/-- The calls under consideration: requests of at most 4 MB, and references and releases of live
blocks. -/
def Admitted (w : World) : Call → Prop
  | .alloc size => size ≤ 4 * 1024 * 1024
  | .inc i => (w.live i).isSome
  | .free i => (w.live i).isSome

/-- No reference is taken that the 32-bit counter cannot hold. -/
def CounterFits (w : World) : Call → Prop
  | .inc i => ∀ block, w.live i = some block → block.outstanding + 2 < 2 ^ 32
  | _ => True

/-- The live blocks of the ledger. -/
def liveBlocks (w : World) : Set (Nat × Nat) :=
  {block | (w.live block.1).map LiveBlock.order = some block.2}

/-- Memory and ledger agree: live and free blocks partition the pages, every free list is a finite
chain without repetition that holds exactly the heads of the free blocks of its order, and the
free flag marks exactly these heads. -/
structure Sound (w : World) (lists : Nat → List Nat) : Prop where
  /-- Live and free blocks partition the page indices into aligned ranges. -/
  partition : IsPartition pageNum (w.liveBlocks ∪ freeBlocks lists)
  /-- No block is both live and free. -/
  apart : Disjoint w.liveBlocks (freeBlocks lists)
  /-- Every list head leads through its list and ends. -/
  chain : ∀ order ≤ pageMaxOrder,
    IsChain (fun i => (w.state.pages i).next) (w.state.freeLists order) (lists order)
  /-- No list repeats a page. -/
  nodup : ∀ order ≤ pageMaxOrder, (lists order).Nodup
  /-- `PF_FREE_LIST` marks exactly the heads of free blocks. -/
  free_flag : ∀ i, (w.state.pages i).flags.freeList = true ↔
    ∃ order, (i, order) ∈ freeBlocks lists

/-! ## The invariant of a run -/

/-- The representation invariant together with what the heads of live blocks record. -/
structure Holds (w : World) (lists : Nat → List Nat) : Prop where
  /-- Lists and live blocks are represented. -/
  memory : Inv w.state lists w.liveBlocks
  /-- Heads of live blocks record their order. -/
  ordered : Ordered w.state w.liveBlocks
  /-- The counter is one more than the outstanding references. -/
  counted : ∀ i block, w.live i = some block →
    (w.state.pages i).refcnt.toNat = block.outstanding + 1
  /-- Other pages have nothing to count down. -/
  quiet : Quiet w.state w.liveBlocks

theorem mem_liveBlocks {w : World} {i order : Nat} :
    (i, order) ∈ w.liveBlocks ↔ ∃ block, w.live i = some block ∧ block.order = order := by
  simp [liveBlocks]

theorem sound_of_memory {w : World} {lists : Nat → List Nat}
    (memory : Inv w.state lists w.liveBlocks) : w.Sound lists where
  partition := memory.partition
  apart := Set.disjoint_left.mpr fun block mem => memory.apart block mem
  chain := memory.chain
  nodup := memory.nodup
  free_flag i := by
    rw [memory.free_flag i]
    simp [Listed, freeBlocks]

theorem Holds.sound {w : World} {lists : Nat → List Nat} (holds : w.Holds lists) :
    w.Sound lists := sound_of_memory holds.memory

/-! ## The initial state -/

/-- The free lists after `buddy_init`: every largest block, in order. -/
def initialLists (order : Nat) : List Nat :=
  if order = pageMaxOrder then (List.range (pageNum / 1024)).map (· * 1024) else []

theorem mem_initialLists {i order : Nat} :
    i ∈ initialLists order ↔ order = pageMaxOrder ∧ 1024 ∣ i ∧ i < pageNum := by
  have pages : pageNum = 62 * 1024 := by decide
  unfold initialLists
  split
  · next same =>
      simp only [List.mem_map, List.mem_range, same, true_and, pages]
      constructor
      · rintro ⟨k, k_lt, rfl⟩
        omega
      · rintro ⟨⟨k, rfl⟩, k_lt⟩
        exact ⟨k, by omega, by omega⟩
  · next differs => simp [differs]

/-- A listed page heads one of the largest blocks. -/
theorem initialPage_eq (i : Nat) :
    initialPage i = if 1024 ∣ i ∧ i < pageNum then
      { index := i
        flags := { freeList := true, firstPage := false }
        order := pageMaxOrder
        refcnt := 0
        next := if i + 1024 < pageNum then some (i + 1024) else none }
    else
      { index := i
        flags := { freeList := false, firstPage := false }
        order := 0
        refcnt := 0
        next := none } := by
  have pages : pageNum = 62 * 1024 := by decide
  have head_iff : (i % 2 ^ pageMaxOrder = 0 ∧ i / 2 ^ pageMaxOrder < pageNum / 2 ^ pageMaxOrder) ↔
      (1024 ∣ i ∧ i < pageNum) := by
    simp only [pageMaxOrder, pages]
    omega
  have next_iff : (1024 ∣ i ∧ i < pageNum) →
      (i / 2 ^ pageMaxOrder < pageNum / 2 ^ pageMaxOrder - 1 ↔ i + 1024 < pageNum) := by
    simp only [pageMaxOrder, pages]
    omega
  simp only [initialPage]
  by_cases head : 1024 ∣ i ∧ i < pageNum
  · rw [if_pos (head_iff.mpr head), if_pos head]
    simp only [next_iff head]
    rfl
  · rw [if_neg (head_iff.not.mpr head), if_neg head]

/-- The links of `buddy_init` lead through the largest blocks that are left. -/
theorem initial_chain (count start : Nat) (total : (start + count) * 1024 = pageNum) :
    IsChain (fun i => (initialPage i).next)
      (if start * 1024 < pageNum then some (start * 1024) else none)
      ((List.range' start count).map (· * 1024)) := by
  induction count generalizing start with
  | zero => simp [← total]
  | succ count ih =>
      rw [List.range'_succ, List.map_cons]
      have start_lt : start * 1024 < pageNum := by omega
      have follow := ih (start + 1) (by rw [← total]; ring)
      refine ⟨by rw [if_pos start_lt], ?_⟩
      have next_eq : (initialPage (start * 1024)).next =
          if (start + 1) * 1024 < pageNum then some ((start + 1) * 1024) else none := by
        rw [initialPage_eq, if_pos ⟨Dvd.intro_left _ rfl, start_lt⟩, Nat.add_mul, Nat.one_mul]
      simpa only [next_eq] using follow

theorem initial_holds : initial.Holds initialLists where
  memory := by
    have no_live : initial.liveBlocks = ∅ := by
      ext block
      simp [liveBlocks, initial]
    have pages : pageNum = 62 * 1024 := by decide
    have free_iff : ∀ block, block ∈ freeBlocks initialLists ↔
        block.2 = 10 ∧ 1024 ∣ block.1 ∧ block.1 < pageNum := by
      intro block
      simp only [freeBlocks, Set.mem_ofPred_eq, mem_initialLists, pageMaxOrder]
      omega
    have listed_iff : ∀ i, Listed initialLists i ↔ 1024 ∣ i ∧ i < pageNum := by
      intro i
      simp [Listed, mem_initialLists]
    rw [no_live]
    refine ⟨?_, by simp, by simp, ?_, ?_, ?_, ?_, ?_, ?_⟩
    · rw [Set.empty_union]
      refine ⟨?_, ?_, ?_, ?_⟩
      · rintro ⟨start, order⟩ mem
        obtain ⟨rfl, aligned, -⟩ := (free_iff _).mp mem
        exact aligned
      · rintro ⟨start, order⟩ mem
        obtain ⟨rfl, aligned, upper⟩ := (free_iff _).mp mem
        simp only at aligned upper ⊢
        omega
      · intro point point_lt
        refine ⟨(point / 1024 * 1024, 10), (free_iff _).mpr ⟨rfl, ?_, ?_⟩, ?_⟩
        · exact Dvd.intro_left _ rfl
        · simp only
          omega
        · simp only [Covers]
          omega
      · rintro ⟨left, left_order⟩ left_mem ⟨right, right_order⟩ right_mem point left_in right_in
        obtain ⟨rfl, left_aligned, -⟩ := (free_iff _).mp left_mem
        obtain ⟨rfl, right_aligned, -⟩ := (free_iff _).mp right_mem
        simp only [Covers] at *
        simp only [Prod.mk.injEq, and_true]
        omega
    · intro order order_le
      by_cases same : order = pageMaxOrder
      · have chain := initial_chain 62 0 (by decide)
        rw [← List.range_eq_range'] at chain
        simpa [initialLists, same, initial, buddyInit, pages] using chain
      · simp [initialLists, same, initial, buddyInit]
    · intro order _
      unfold initialLists
      split
      · exact List.nodup_range.map (mul_left_injective₀ (by norm_num))
      · exact List.nodup_nil
    · intro i
      simp only [initial, buddyInit, initialPage_eq]
      split <;> rfl
    · intro i
      rw [listed_iff]
      simp only [initial, buddyInit, initialPage_eq]
      split <;> simp_all
    · intro order _ i member
      obtain ⟨rfl, head⟩ := mem_initialLists.mp member
      simp [initial, buddyInit, initialPage_eq, head]
    · intro i unlisted
      rw [listed_iff] at unlisted
      simp only [initial, buddyInit, initialPage_eq, if_neg unlisted]
  ordered := by
    rintro ⟨i, order⟩ mem
    simp [liveBlocks, initial] at mem
  counted := by simp [initial]
  quiet i _ := by
    simp only [initial, buddyInit, initialPage_eq]
    split <;> simp

/-! ## One call -/

variable {w : World} {lists : Nat → List Nat}

/-- Entering a block at a page that heads none adds it to the live blocks. -/
theorem liveBlocks_insert {s : State} {i : Nat} {block : LiveBlock} (none_live : w.live i = none) :
    (World.mk s (Function.update w.live i (some block))).liveBlocks =
      insert (i, block.order) w.liveBlocks := by
  ext ⟨j, order⟩
  by_cases same : j = i
  · subst same
    simp [liveBlocks, none_live, eq_comm]
  · simp [liveBlocks, same]

/-- Changing the outstanding references of a block keeps the live blocks. -/
theorem liveBlocks_same {s : State} {i : Nat} {block a : LiveBlock}
    (live : w.live i = some block) (order_eq : a.order = block.order) :
    (World.mk s (Function.update w.live i (some a))).liveBlocks = w.liveBlocks := by
  ext ⟨j, order⟩
  by_cases same : j = i
  · subst same
    simp [liveBlocks, live, order_eq]
  · simp [liveBlocks, same]

/-- Striking a block removes it from the live blocks. -/
theorem liveBlocks_erase {s : State} {i : Nat} {block : LiveBlock} (live : w.live i = some block) :
    (World.mk s (Function.update w.live i none)).liveBlocks =
      w.liveBlocks \ {(i, block.order)} := by
  ext ⟨j, order⟩
  by_cases same : j = i
  · subst same
    simp [liveBlocks, live, eq_comm]
  · simp [liveBlocks, same]

theorem mem_of_live {i : Nat} {block : LiveBlock} (live : w.live i = some block) :
    (i, block.order) ∈ w.liveBlocks :=
  mem_liveBlocks.mpr ⟨block, live, rfl⟩

/-- An allocation runs out of memory or keeps the invariant. -/
theorem step_alloc (holds : w.Holds lists) {size : Nat} (fits : size ≤ 4 * 1024 * 1024) :
    w.step (.alloc size) = .error .outOfMemory ∨
      ∃ next after, w.step (.alloc size) = .ok next ∧ next.Holds after := by
  obtain full | ⟨start, t, after, served, allocated⟩ :=
    buddyAlloc_spec holds.memory (by simpa [pageMaxOrder, pageSize] using fits)
  · left
    simp [step, full]
  · right
    have none_live : w.live start = none := by
      by_contra live
      obtain ⟨block, live⟩ := Option.ne_none_iff_exists'.mp live
      exact allocated.fresh _ (mem_of_live live)
    refine ⟨⟨t, Function.update w.live start (some ⟨sizeOrder size, 0⟩)⟩, after,
      by simp [step, served], ?_, ?_, ?_, ?_⟩
    · rw [liveBlocks_insert none_live]
      exact allocated.inv
    · rw [liveBlocks_insert none_live]
      rintro block (rfl | mem)
      · exact allocated.order_eq
      · rw [allocated.frame block mem]
        exact holds.ordered block mem
    · intro i block live
      by_cases same : i = start
      · subst same
        simp only [Function.update_self, Option.some.injEq] at live
        subst live
        simp [allocated.refcnt_eq]
      · simp only [Function.update_of_ne same] at live
        have untouched := allocated.frame _ (mem_of_live live)
        simp only at untouched ⊢
        rw [untouched]
        exact holds.counted i block live
    · rw [liveBlocks_insert none_live]
      intro i outside
      have differs : i ≠ start := by
        rintro rfl
        exact outside _ (Set.mem_insert _ _)
      obtain ⟨refcnt_eq, first_eq⟩ := allocated.marks i differs
      rw [refcnt_eq, first_eq]
      exact holds.quiet i fun order mem => outside order (Set.mem_insert_of_mem _ mem)

/-- Replacing the counter of a live head, and the outstanding references with it, keeps the
invariant. -/
theorem Holds.recount (holds : w.Holds lists) {i count : Nat} {block : LiveBlock}
    {refcnt : UInt32} (live : w.live i = some block) (refcnt_eq : refcnt.toNat = count + 1) :
    (World.mk (w.state.setPage i { w.state.pages i with refcnt := refcnt })
      (Function.update w.live i (some { block with outstanding := count }))).Holds lists := by
  have blocks_eq := liveBlocks_same
    (s := w.state.setPage i { w.state.pages i with refcnt := refcnt })
    (a := { block with outstanding := count }) live rfl
  refine ⟨?_, ?_, ?_, ?_⟩
  · rw [blocks_eq]
    exact holds.memory.setPage rfl rfl rfl fun _ => rfl
  · rw [blocks_eq]
    rintro ⟨j, order⟩ mem
    have recorded := holds.ordered _ mem
    by_cases same : j = i
    · subst same
      simpa using recorded
    · simpa [Function.update_of_ne same] using recorded
  · intro j other other_live
    by_cases same : j = i
    · subst same
      simp only [Function.update_self, Option.some.injEq] at other_live
      subst other_live
      simpa using refcnt_eq
    · simp only [Function.update_of_ne same] at other_live
      simpa [Function.update_of_ne same] using holds.counted j other other_live
  · rw [blocks_eq]
    intro j outside
    have differs : j ≠ i := by
      rintro rfl
      exact outside _ (mem_of_live live)
    simpa [Function.update_of_ne differs] using holds.quiet j outside

/-- A counted reference keeps the invariant. -/
theorem step_inc (holds : w.Holds lists) {i : Nat} {block : LiveBlock}
    (live : w.live i = some block) (fits : block.outstanding + 2 < 2 ^ 32) :
    ∃ next, w.step (.inc i) = .ok next ∧ next.Holds lists := by
  refine ⟨_, rfl, ?_⟩
  have counted := holds.counted i block live
  have next_count : ((w.state.pages i).refcnt + 1).toNat = block.outstanding + 1 + 1 := by
    rw [UInt32.toNat_add, counted, UInt32.toNat_one, Nat.mod_eq_of_lt fits]
  rw [live]
  exact holds.recount live next_count

/-- A release with references outstanding only counts down. -/
theorem step_free_counted (holds : w.Holds lists) {i : Nat} {block : LiveBlock}
    (live : w.live i = some block) (more : block.outstanding ≠ 0) :
    ∃ next, w.step (.free i) = .ok next ∧ next.Holds lists ∧
      next.live = Function.update w.live i
        (some { block with outstanding := block.outstanding - 1 }) := by
  have counted := holds.counted i block live
  have shared : 1 < (w.state.pages i).refcnt := by
    rw [UInt32.lt_iff_toNat_lt, counted, UInt32.toNat_one]
    omega
  have freed : buddyFree w.state i = .ok (w.state.setPage i
      { w.state.pages i with refcnt := (w.state.pages i).refcnt - 1 }) := by
    simp [buddyFree, pageMaxDepth, freeLoop, buddyFreePass, shared]
  have answered : (w.live i).bind answer =
      some { block with outstanding := block.outstanding - 1 } := by
    simp [live, answer, more]
  refine ⟨_, by rw [step, freed, answered]; rfl, ?_, rfl⟩
  refine holds.recount live ?_
  have one_le : (1 : UInt32) ≤ (w.state.pages i).refcnt := by
    rw [UInt32.le_iff_toNat_le, counted, UInt32.toNat_one]
    omega
  rw [UInt32.toNat_sub_of_le _ _ one_le, counted, UInt32.toNat_one]
  omega

/-- The release that answers the allocation itself ends the block. -/
theorem step_free_last (holds : w.Holds lists) {i : Nat} {block : LiveBlock}
    (live : w.live i = some block) (last : block.outstanding = 0) :
    ∃ next after, w.step (.free i) = .ok next ∧ next.Holds after ∧
      next.live = Function.update w.live i none := by
  have counted := holds.counted i block live
  have single : ¬1 < (w.state.pages i).refcnt := by
    rw [UInt32.lt_iff_toNat_lt, counted, UInt32.toNat_one]
    omega
  have order_eq := holds.ordered _ (mem_of_live live)
  obtain ⟨t, after, loop, released⟩ := freeLoop_spec pageMaxDepth holds.memory holds.quiet
    (mem_of_live live) order_eq single (by simp only [pageMaxDepth]; omega)
  have answered : (w.live i).bind answer = none := by
    simp [live, answer, last]
  refine ⟨⟨t, Function.update w.live i none⟩, after,
    by simp only [step, buddyFree, loop, answered]; rfl, ⟨?_, ?_, ?_, ?_⟩, rfl⟩
  · rw [liveBlocks_erase live]
    exact released.inv
  · rw [liveBlocks_erase live]
    rintro other ⟨mem, differs⟩
    rw [released.orders other mem differs]
    exact holds.ordered other mem
  · intro j other other_live
    have differs : j ≠ i := by
      rintro rfl
      simp at other_live
    simp only [Function.update_of_ne differs] at other_live
    simp only [released.refcnt j]
    exact holds.counted j other other_live
  · rw [liveBlocks_erase live]
    intro j outside
    rw [released.refcnt j]
    by_cases same : j = i
    · subst same
      exact ⟨single, released.first_self⟩
    · rw [released.first j same]
      refine holds.quiet j fun order mem => outside order ⟨mem, ?_⟩
      exact fun eq => same (congrArg Prod.fst eq)

/-- An admitted call whose counter fits keeps the invariant, unless it is an allocation that runs
out of memory. -/
theorem step_holds (holds : w.Holds lists) {call : Call} (admitted : w.Admitted call)
    (fits : w.CounterFits call) :
    (∃ size, call = .alloc size ∧ w.step call = .error .outOfMemory) ∨
      ∃ next after, w.step call = .ok next ∧ next.Holds after := by
  cases call with
  | alloc size =>
      obtain full | served := step_alloc holds admitted
      · exact Or.inl ⟨size, rfl, full⟩
      · exact Or.inr served
  | inc i =>
      obtain ⟨block, live⟩ := Option.isSome_iff_exists.mp admitted
      obtain ⟨next, step_eq, next_holds⟩ := step_inc holds live (fits block live)
      exact Or.inr ⟨next, lists, step_eq, next_holds⟩
  | free i =>
      obtain ⟨block, live⟩ := Option.isSome_iff_exists.mp admitted
      by_cases last : block.outstanding = 0
      · obtain ⟨next, after, step_eq, next_holds, -⟩ := step_free_last holds live last
        exact Or.inr ⟨next, after, step_eq, next_holds⟩
      · obtain ⟨next, step_eq, next_holds, -⟩ := step_free_counted holds live last
        exact Or.inr ⟨next, lists, step_eq, next_holds⟩

/-- The worlds that admitted calls reach while every reference counter fits its word. -/
def Reached (w : World) : Prop :=
  Reaches (fun v call => Admitted v call ∧ CounterFits v call) step initial w

/-- A call that succeeds keeps the invariant. -/
theorem Holds.next (holds : w.Holds lists) {call : Call} {next : World}
    (admitted : w.Admitted call) (fits : w.CounterFits call) (succeeds : w.step call = .ok next) :
    ∃ after, next.Holds after := by
  obtain ⟨size, rfl, full⟩ | ⟨other, after, other_eq, other_holds⟩ :=
    step_holds holds admitted fits
  · simp [full] at succeeds
  · obtain rfl : other = next := by simpa [other_eq] using succeeds
    exact ⟨after, other_holds⟩

/-- The invariant holds in every reached world. -/
theorem Reached.holds (reached : w.Reached) : ∃ lists, w.Holds lists := by
  refine reached.invariant (fun v => ∃ lists, v.Holds lists) ⟨_, initial_holds⟩ ?_
  rintro v next call ⟨lists, v_holds⟩ ⟨admitted, fits⟩ step_eq
  exact v_holds.next admitted fits step_eq

/-- In every reached world memory and ledger agree, no page lies in two live blocks, an admitted
call can only fail by running out of memory, and a release ends a block exactly when no reference
is outstanding. -/
theorem reached_sound (w : World) (reached : w.Reached) :
    (∃ lists, w.Sound lists) ∧
    (∀ left ∈ w.liveBlocks, ∀ right ∈ w.liveBlocks, ∀ page,
      Covers left page → Covers right page → left = right) ∧
    (∀ call, w.Admitted call → w.CounterFits call →
      (∃ next, w.step call = .ok next) ∨
        ∃ size, call = .alloc size ∧ w.step call = .error .outOfMemory) ∧
    (∀ i block, w.live i = some block →
      ∃ next, w.step (.free i) = .ok next ∧ (∃ lists, next.Sound lists) ∧
        next.liveBlocks =
          if block.outstanding = 0 then w.liveBlocks \ {(i, block.order)} else w.liveBlocks) := by
  obtain ⟨lists, holds⟩ := reached.holds
  refine ⟨⟨lists, holds.sound⟩, ?_, ?_, ?_⟩
  · intro left left_mem right right_mem page
    exact holds.memory.partition.unique left (Or.inl left_mem) right (Or.inl right_mem) page
  · intro call admitted fits
    obtain full | ⟨next, after, step_eq, -⟩ := step_holds holds admitted fits
    · exact Or.inr full
    · exact Or.inl ⟨next, step_eq⟩
  · intro i block live
    by_cases last : block.outstanding = 0
    · obtain ⟨next, after, step_eq, next_holds, next_live⟩ := step_free_last holds live last
      refine ⟨next, step_eq, ⟨after, next_holds.sound⟩, ?_⟩
      rw [if_pos last, ← liveBlocks_erase (s := next.state) live, ← next_live]
    · obtain ⟨next, step_eq, next_holds, next_live⟩ := step_free_counted holds live last
      refine ⟨next, step_eq, ⟨lists, next_holds.sound⟩, ?_⟩
      rw [if_neg last, ← liveBlocks_same (s := next.state)
        (a := { block with outstanding := block.outstanding - 1 }) live rfl, ← next_live]

/-- The world in which one page has been allocated. -/
def onePage : World :=
  match initial.step (.alloc 4096) with
  | .ok w => w
  | .error _ => initial

theorem onePage_step : initial.step (.alloc 4096) = .ok onePage := rfl

theorem onePage_live : onePage.live 1023 = some ⟨0, 0⟩ := rfl

theorem onePage_reached : onePage.Reached := by
  refine .tail .refl ?_ onePage_step
  exact ⟨by simp [Admitted], trivial⟩

/-- After one allocation the page is live and its first release ends it. -/
theorem onePage_sound :
    (∃ lists, onePage.Sound lists) ∧ onePage.live 1023 = some ⟨0, 0⟩ ∧
      ∃ next, onePage.step (.free 1023) = .ok next ∧
        next.liveBlocks = onePage.liveBlocks \ {(1023, 0)} := by
  obtain ⟨sound, -, -, release⟩ := reached_sound onePage onePage_reached
  obtain ⟨next, step_eq, -, live_eq⟩ := release 1023 ⟨0, 0⟩ onePage_live
  exact ⟨sound, onePage_live, next, step_eq, by simpa using live_eq⟩

/-! ## The width of the counter -/

/-- The world after a number of further references to one live block. -/
def referenced (w : World) (i : Nat) (block : LiveBlock) (count : Nat) : World :=
  ⟨w.state.setPage i
      { w.state.pages i with refcnt := (w.state.pages i).refcnt + UInt32.ofNat count },
    Function.update w.live i (some { block with outstanding := block.outstanding + count })⟩

theorem referenced_succ {i : Nat} {block : LiveBlock} (count : Nat) :
    (w.referenced i block count).step (.inc i) = .ok (w.referenced i block (count + 1)) := by
  simp [step, referenced, pageRefcntInc, State.setPage, World.count, UInt32.ofNat_add,
    UInt32.add_assoc, Nat.add_assoc]

/-- Taking references reaches the world that counts them. -/
theorem reaches_referenced {i : Nat} {block : LiveBlock} (live : w.live i = some block)
    (reaches : Reaches Admitted step initial w) (count : Nat) :
    Reaches Admitted step initial (w.referenced i block count) ∧
      (List.replicate count (.inc i)).foldlM step w = .ok (w.referenced i block count) := by
  induction count with
  | zero =>
      have same : w.referenced i block 0 = w := by
        simp [referenced, State.setPage, ← live]
      rw [same]
      exact ⟨reaches, rfl⟩
  | succ count ih =>
      obtain ⟨reaches_count, run_count⟩ := ih
      constructor
      · refine .tail reaches_count ?_ (referenced_succ count)
        simp [Admitted, referenced]
      · rw [List.replicate_succ', List.foldlM_append, run_count]
        simp [referenced_succ]

/-- When the counter of a live block has wrapped to zero, its next release frees the block
although the ledger still has it. -/
theorem release_wrapped (holds : w.Holds lists) {i count : Nat} {block : LiveBlock}
    (live : w.live i = some block) (fresh : block.outstanding = 0) (wraps : count + 1 = 2 ^ 32) :
    ∃ next, (w.referenced i block count).step (.free i) = .ok next ∧
      ∀ lists, ¬next.Sound lists := by
  have blocks_eq : (w.referenced i block count).liveBlocks = w.liveBlocks :=
    liveBlocks_same live rfl
  have mem := mem_of_live live
  have wrapped : (w.state.pages i).refcnt + UInt32.ofNat count = 0 := by
    apply UInt32.toNat_inj.mp
    rw [UInt32.toNat_add, holds.counted i block live, fresh, UInt32.toNat_ofNat', UInt32.toNat_zero]
    omega
  set s := (w.referenced i block count).state with s_eq
  have inv : Inv s lists w.liveBlocks := holds.memory.setPage rfl rfl rfl fun _ => rfl
  have single : ¬1 < (s.pages i).refcnt := by
    simp [s_eq, referenced, wrapped]
  have quiet : Quiet s w.liveBlocks := by
    intro j outside
    have differs : j ≠ i := by
      rintro rfl
      exact outside _ mem
    simpa [s_eq, referenced, Function.update_of_ne differs] using holds.quiet j outside
  have order_eq : (s.pages i).order = block.order := by
    simpa [s_eq, referenced] using holds.ordered _ mem
  obtain ⟨t, after, loop, released⟩ := freeLoop_spec pageMaxDepth inv quiet mem order_eq single
    (by simp only [pageMaxDepth]; omega)
  have more : ¬(block.outstanding = 0 ∧ count = 0) := by omega
  refine ⟨⟨t, Function.update (w.referenced i block count).live i
    (some ⟨block.order, block.outstanding + count - 1⟩)⟩, ?_, ?_⟩
  · simp only [step, buddyFree, ← s_eq, loop]
    simp [referenced, answer, more]
  · intro other sound
    -- The lists are determined by memory, so the page is covered by a free block.
    have lists_eq : freeBlocks other = freeBlocks after := by
      ext ⟨j, order⟩
      refine and_congr_right fun order_le => ?_
      rw [(sound.chain order order_le).unique (released.inv.chain order order_le)]
    obtain ⟨cover, cover_mem, covers⟩ :=
      released.inv.partition.covered i (holds.memory.partition.start_lt (Or.inl mem))
    have still_live : (i, block.order) ∈ (World.mk t (Function.update
        (w.referenced i block count).live i
          (some ⟨block.order, block.outstanding + count - 1⟩))).liveBlocks := by
      simp [liveBlocks]
    obtain ⟨cover_live, differs⟩ | cover_free := cover_mem
    · exact differs (holds.memory.partition.unique _ (Or.inl cover_live) _ (Or.inl mem) i covers
        (covers_start (i, block.order)))
    · rw [← lists_eq] at cover_free
      have same := sound.partition.unique _ (Or.inr cover_free) _ (Or.inl still_live) i covers
        (covers_start (i, block.order))
      exact Set.disjoint_left.mp sound.apart still_live (same ▸ cover_free)

/-- A page with `2 ^ 32 - 1` outstanding references is freed by its first release: the live and the
free blocks then overlap. -/
theorem counter_wraps :
    ∃ w, Reaches Admitted step initial w ∧
      ([Call.alloc 4096] ++ List.replicate (2 ^ 32 - 1) (Call.inc 1023) ++
        [Call.free 1023]).foldlM step initial = .ok w ∧
      ∀ lists, ¬w.Sound lists := by
  obtain ⟨lists, holds⟩ := onePage_reached.holds
  have reaches : Reaches Admitted step initial onePage := by
    refine .tail .refl ?_ onePage_step
    simp [Admitted]
  obtain ⟨count, wraps⟩ : ∃ count, count = 2 ^ 32 - 1 := ⟨_, rfl⟩
  rw [← wraps]
  obtain ⟨reaches_count, run_count⟩ := reaches_referenced onePage_live reaches count
  obtain ⟨next, step_eq, unsound⟩ :=
    release_wrapped holds onePage_live rfl (show count + 1 = 2 ^ 32 by omega)
  refine ⟨next, .tail reaches_count ?_ step_eq, ?_, unsound⟩
  · simp [Admitted, referenced]
  · rw [List.foldlM_append, List.foldlM_append]
    simp [onePage_step, run_count, step_eq]

end World
end Buddy
end Xv6Duo
