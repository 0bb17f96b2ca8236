import Mathlib.Data.Nat.Log
import Xv6Duo.Buddy.Invariant

/-!
# Effect of the allocator calls

Each call of the allocator is described by what it does to the free lists and to the owned blocks:
`buddy_alloc` adds one owned block of the least sufficient order, or finds every list from that
order on empty; `buddy_free` on a block with at most one reference gives the block up.
-/

namespace Xv6Duo
namespace Buddy

open DyadicPartition PointerChain

/-- The least order whose blocks hold `size` bytes. -/
def sizeOrder (size : Nat) : Nat :=
  Nat.clog 2 ((size + pageSize - 1) / pageSize)

theorem size_le_iff (size order : Nat) :
    size ≤ 2 ^ order * pageSize ↔ sizeOrder size ≤ order := by
  rw [sizeOrder, Nat.clog_le_iff_le_pow (by norm_num)]
  simp only [pageSize]
  omega

theorem sizeOrder_le {size : Nat} (fits : size ≤ 2 ^ pageMaxOrder * pageSize) :
    sizeOrder size ≤ pageMaxOrder :=
  (size_le_iff size pageMaxOrder).mp fits

/-! ## Splitting -/

/-- The free lists after a block has been cut down `count` times to the order `start`: one lower
half remains on each list in between. -/
def splitLists (start : Nat) : Nat → Nat → (Nat → List Nat) → Nat → List Nat
  | 0, _, lists => lists
  | count + 1, i, lists =>
      splitLists start count (i + 2 ^ (start + count))
        (Function.update lists (start + count) [i])

/-- The block that is left when a block has been cut down `count` times to the order `start`. -/
def upperEnd (start count i : Nat) : Nat := i + (2 ^ (start + count) - 2 ^ start)

theorem upperEnd_succ (start count i : Nat) :
    upperEnd start (count + 1) i = upperEnd start count (i + 2 ^ (start + count)) := by
  have double : 2 ^ (start + (count + 1)) = 2 ^ (start + count) + 2 ^ (start + count) := by
    rw [← Nat.add_assoc, pow_succ]
    ring
  have lower : 2 ^ start ≤ 2 ^ (start + count) := Nat.pow_le_pow_right (by decide) (by omega)
  rw [upperEnd, upperEnd, double, Nat.add_assoc, Nat.add_sub_assoc lower]

variable {s : State} {lists : Nat → List Nat} {owned : Set (Nat × Nat)}

/-- The second loop of `buddy_pull_block` cuts an owned block down to the order it starts from. -/
theorem splitLoop_spec (start count i : Nat) (inv : Inv s lists owned)
    (mem : (i, start + count) ∈ owned)
    (empty : ∀ order, start ≤ order → order < start + count → lists order = []) :
    ∃ split, splitLoop start count i s = (upperEnd start count i, split) ∧
      Inv split (splitLists start count i lists)
        (insert (upperEnd start count i, start) (owned \ {(i, start + count)})) ∧
      SameMarks s split ∧ Covers (i, start + count) (upperEnd start count i) ∧
      ∀ j, ¬Covers (i, start + count) j → split.pages j = s.pages j := by
  induction count generalizing i s lists owned with
  | zero =>
      have here : upperEnd start 0 i = i := by simp [upperEnd]
      rw [here]
      refine ⟨s, rfl, ?_, SameMarks.refl s, covers_start _, fun _ _ => rfl⟩
      have restored : insert (i, start) (owned \ {(i, start + 0)}) = owned := by
        rw [Nat.add_zero] at mem ⊢
        rw [Set.insert_sdiff_singleton, Set.insert_eq_of_mem mem]
      rw [restored]
      exact inv
  | succ count ih =>
      have double : 2 ^ (start + (count + 1)) = 2 ^ (start + count) + 2 ^ (start + count) := by
        rw [← Nat.add_assoc, pow_succ]
        ring
      rw [← Nat.add_assoc start count 1] at mem
      have inv_cut := inv.cut mem (empty (start + count) (by omega) (by omega))
      rw [Nat.add_assoc start count 1] at mem inv_cut
      have marks_cut : SameMarks s ((s.setHead (start + count) (some i)).setPage i
          { (s.pages i).markFree with order := start + count }) := by
        refine SameMarks.trans (SameMarks.refl s) ?_
        exact sameMarks_setPage (by simp [Page.markFree]) (by simp [Page.markFree])
      rw [upperEnd_succ]
      obtain ⟨split, split_eq, inv_split, marks, covers, frame⟩ :=
        ih (i + 2 ^ (start + count)) inv_cut (Set.mem_insert _ _) (by
          intro order start_le order_lt
          rw [Function.update_of_ne (by omega)]
          exact empty order start_le (by omega))
      refine ⟨split, split_eq, ?_, marks_cut.trans marks, ?_, ?_⟩
      · have fresh : (i + 2 ^ (start + count), start + count) ∉
            owned \ {(i, start + (count + 1))} := by
          rintro ⟨upper_mem, -⟩
          have same := inv.partition.eq_of_covers_start (Or.inl mem) (Or.inl upper_mem)
            ⟨by simp, by
              simp only [double]
              have := Nat.two_pow_pos (start + count)
              omega⟩
          have := congrArg Prod.snd same
          simp only at this
          omega
        rwa [Set.insert_sdiff_of_mem _ (Set.mem_singleton _),
          Set.sdiff_singleton_eq_self fresh] at inv_split
      · simp only [Covers, double] at covers ⊢
        omega
      · intro j outside
        rw [frame j fun inside => outside ?_]
        · have differs : j ≠ i := by
            rintro rfl
            exact outside (covers_start _)
          simp [Function.update_of_ne differs]
        · simp only [Covers, double] at inside ⊢
          omega

/-! ## Allocation -/

/-- What `buddy_alloc` takes under `buddy_lock`: an owned block of the wanted order that was owned
by nobody, and every owned block left alone. -/
structure Pulled (s t : State) (owned : Set (Nat × Nat)) (order start : Nat)
    (lists : Nat → List Nat) : Prop where
  /-- The block is added to the owned ones. -/
  inv : Inv t lists (insert (start, order) owned)
  /-- Its first page headed no owned block. -/
  fresh : ∀ level, (start, level) ∉ owned
  /-- The records of owned blocks are untouched. -/
  frame : ∀ block ∈ owned, t.pages block.1 = s.pages block.1
  /-- The head records the order. -/
  order_eq : (t.pages start).order = order
  /-- Counters and first-page flags are untouched. -/
  marks : SameMarks s t

/-- What `buddy_alloc` hands out: an owned block of the wanted order that was owned by nobody,
with one reference and the first-page flag, and every owned block left alone. -/
structure Allocated (s t : State) (owned : Set (Nat × Nat)) (order start : Nat)
    (lists : Nat → List Nat) : Prop where
  /-- The block is added to the owned ones. -/
  inv : Inv t lists (insert (start, order) owned)
  /-- Its first page headed no owned block. -/
  fresh : ∀ level, (start, level) ∉ owned
  /-- The records of owned blocks are untouched. -/
  frame : ∀ block ∈ owned, t.pages block.1 = s.pages block.1
  /-- The head records the order. -/
  order_eq : (t.pages start).order = order
  /-- The head has one reference. -/
  refcnt_eq : (t.pages start).refcnt = 1
  /-- The head carries the first-page flag. -/
  first_eq : (t.pages start).flags.firstPage = true
  /-- No other page changes its counter or its first-page flag. -/
  marks : ∀ j, j ≠ start → (t.pages j).refcnt = (s.pages j).refcnt ∧
    (t.pages j).flags.firstPage = (s.pages j).flags.firstPage

/-- Taking the free block `(i, order)` and ending with the owned block `(start, level)` inside it
leaves the owned heads untouched. -/
private theorem frame_of_source (inv : Inv s lists owned) {t : State} {i order start : Nat}
    (order_le : order ≤ pageMaxOrder) (member : i ∈ lists order)
    (inside : Covers (i, order) start)
    (outside : ∀ j, ¬Covers (i, order) j → t.pages j = s.pages j) :
    (∀ level, (start, level) ∉ owned) ∧ ∀ block ∈ owned, t.pages block.1 = s.pages block.1 := by
  have source : (i, order) ∈ owned ∪ freeBlocks lists := Or.inr ⟨order_le, member⟩
  have avoids : ∀ block ∈ owned, ¬Covers (i, order) block.1 := by
    intro block block_mem covers
    have same := inv.partition.eq_of_covers_start source (Or.inl block_mem) covers
    exact inv.apart block block_mem (same ▸ ⟨order_le, member⟩)
  exact ⟨fun level mem => avoids _ mem inside, fun block mem => outside _ (avoids block mem)⟩

/-- The stores of `buddy_alloc` behind `buddy_lock`. -/
def markAllocated (s : State) (i : Nat) : State :=
  s.setPage i { (s.pages i).markFirst with refcnt := 1 }

/-- The last stores of `buddy_alloc` complete a block of the wanted order. -/
theorem Pulled.allocated {t : State} {order start : Nat} {after : Nat → List Nat}
    (pulled : Pulled s t owned order start after) :
    Allocated s (markAllocated t start) owned order start after where
  inv := pulled.inv.setPage rfl rfl rfl fun _ => rfl
  fresh := pulled.fresh
  frame block mem := by
    have differs : block.1 ≠ start := by
      rintro rfl
      exact pulled.fresh block.2 mem
    rw [markAllocated, State.setPage_pages, Function.update_of_ne differs]
    exact pulled.frame block mem
  order_eq := by simp [markAllocated, Page.markFirst, pulled.order_eq]
  refcnt_eq := by simp [markAllocated]
  first_eq := by simp [markAllocated, Page.markFirst]
  marks j differs := by
    rw [markAllocated, State.setPage_pages, Function.update_of_ne differs]
    exact pulled.marks j

/-- The first loop of `buddy_pull_block` fails when all lists from `order` on are empty. -/
theorem pullLoop_none (inv : Inv s lists owned) (order fuel : Nat)
    (depth : order + fuel = pageMaxDepth)
    (empty : ∀ level, order ≤ level → level ≤ pageMaxOrder → lists level = []) :
    pullLoop s order fuel = .error .outOfMemory := by
  induction fuel generalizing order with
  | zero => rfl
  | succ fuel ih =>
      have order_le : order ≤ pageMaxOrder := by simp only [pageMaxDepth] at depth; omega
      rw [pullLoop, inv.pop_nil order_le (empty order le_rfl order_le)]
      exact ih (order + 1) (by omega) fun level lower upper => empty level (by omega) upper

/-- The first loop of `buddy_pull_block` pops from the first non-empty list. -/
theorem pullLoop_some (inv : Inv s lists owned) (order fuel : Nat) {level i : Nat}
    {rest : List Nat} (depth : order + fuel = pageMaxDepth) (order_le : order ≤ level)
    (level_le : level ≤ pageMaxOrder) (cons : lists level = i :: rest)
    (empty : ∀ lower, order ≤ lower → lower < level → lists lower = []) :
    pullLoop s order fuel = .ok (level, i, (buddyListPop s level).2) := by
  induction fuel generalizing order with
  | zero => simp only [pageMaxDepth] at depth; omega
  | succ fuel ih =>
      by_cases same : order = level
      · subst same
        obtain ⟨popped, pop_eq, -⟩ := inv.pop_cons level_le cons
        simp [pullLoop, pop_eq]
      · rw [pullLoop, inv.pop_nil (by omega) (empty order le_rfl (by omega))]
        exact ih (order + 1) (by omega) (by omega)
          fun lower at_least below => empty lower (by omega) below

/-- The order search of `buddy_alloc` stops at the least sufficient order. -/
theorem allocLoop_eq (size order fuel : Nat) (depth : order + fuel = pageMaxDepth)
    (order_le : order ≤ sizeOrder size) (fits : sizeOrder size ≤ pageMaxOrder) :
    allocLoop s size order fuel =
      match buddyListPop s (sizeOrder size) with
      | (some i, popped) => .ok (i, popped)
      | (none, _) => buddyPullBlock s (sizeOrder size) := by
  induction fuel generalizing order with
  | zero => simp only [pageMaxDepth] at depth; omega
  | succ fuel ih =>
      by_cases same : order = sizeOrder size
      · subst same
        unfold allocLoop
        exact if_pos ((size_le_iff size _).mpr le_rfl)
      · rw [allocLoop, if_neg fun enough => same (order_le.antisymm ((size_le_iff _ _).mp enough))]
        exact ih (order + 1) (by omega) (by omega)

/-- The request is served from the list of its own order when that list is not empty. -/
theorem allocLoop_of_cons (inv : Inv s lists owned) {size i : Nat} {rest : List Nat}
    (fits : size ≤ 2 ^ pageMaxOrder * pageSize) (cons : lists (sizeOrder size) = i :: rest) :
    ∃ t, allocLoop s size 0 pageMaxDepth = .ok (i, t) ∧
      Pulled s t owned (sizeOrder size) i (Function.update lists (sizeOrder size) rest) ∧
      ∀ j, ¬Covers (i, sizeOrder size) j → t.pages j = s.pages j := by
  have order_le := sizeOrder_le fits
  have member : i ∈ lists (sizeOrder size) := by rw [cons]; exact List.mem_cons_self
  obtain ⟨popped, pop_eq, inv_popped, marks, orders⟩ := inv.pop_cons order_le cons
  have loop := allocLoop_eq (s := s) size 0 pageMaxDepth (by simp) (by omega) order_le
  rw [pop_eq] at loop
  refine ⟨popped, loop, ?_⟩
  have outside : ∀ j, ¬Covers (i, sizeOrder size) j → popped.pages j = s.pages j := by
    intro j not_covers
    have differs : j ≠ i := by
      rintro rfl
      exact not_covers (covers_start _)
    have head_eq := (inv.head_eq_some order_le cons).1
    simp only [buddyListPop, head_eq, Prod.mk.injEq, true_and] at pop_eq
    rw [← pop_eq]
    simp [Function.update_of_ne differs]
  obtain ⟨fresh, frame⟩ :=
    frame_of_source inv order_le member (covers_start (i, sizeOrder size)) outside
  refine ⟨⟨inv_popped, fresh, frame, ?_, marks⟩, outside⟩
  rw [orders i]
  exact inv.order_free _ order_le i member

/-- Otherwise the first larger free block is cut down. -/
theorem allocLoop_of_split (inv : Inv s lists owned) {size level i : Nat} {rest : List Nat}
    (fits : size ≤ 2 ^ pageMaxOrder * pageSize) (larger : sizeOrder size < level)
    (level_le : level ≤ pageMaxOrder) (cons : lists level = i :: rest)
    (empty : ∀ order, sizeOrder size ≤ order → order < level → lists order = []) :
    ∃ t, allocLoop s size 0 pageMaxDepth =
        .ok (upperEnd (sizeOrder size) (level - sizeOrder size) i, t) ∧
      Pulled s t owned (sizeOrder size) (upperEnd (sizeOrder size) (level - sizeOrder size) i)
        (splitLists (sizeOrder size) (level - sizeOrder size) i
          (Function.update lists level rest)) ∧
      ∀ j, ¬Covers (i, level) j → t.pages j = s.pages j := by
  have order_le := sizeOrder_le fits
  have member : i ∈ lists level := by rw [cons]; exact List.mem_cons_self
  have level_eq : sizeOrder size + (level - sizeOrder size) = level := by omega
  obtain ⟨popped, pop_eq, inv_popped, marks_popped, -⟩ := inv.pop_cons level_le cons
  have pulled := pullLoop_some inv (sizeOrder size + 1) (pageMaxDepth - (sizeOrder size + 1))
    (by simp only [pageMaxDepth]; omega) (by omega) level_le cons
    fun lower at_least below => empty lower (by omega) below
  rw [pop_eq] at pulled
  obtain ⟨split, split_eq, inv_split, marks_split, covers, frame_split⟩ :=
    splitLoop_spec (sizeOrder size) (level - sizeOrder size) i inv_popped
      (by rw [level_eq]; exact Set.mem_insert _ _) (by
        intro order at_least below
        rw [Function.update_of_ne (by omega)]
        exact empty order at_least (by omega))
  set start := upperEnd (sizeOrder size) (level - sizeOrder size) i
  rw [level_eq] at inv_split covers frame_split
  have not_owned : (i, level) ∉ owned := fun mem => inv.apart _ mem ⟨level_le, member⟩
  rw [Set.insert_sdiff_of_mem _ (Set.mem_singleton _),
    Set.sdiff_singleton_eq_self not_owned] at inv_split
  have loop := allocLoop_eq (s := s) size 0 pageMaxDepth (by simp) (by omega) order_le
  rw [inv.pop_nil order_le (empty _ le_rfl larger)] at loop
  set cut := split.setPage start { split.pages start with order := sizeOrder size } with cut_eq
  have pull_eq : buddyPullBlock s (sizeOrder size) = .ok (start, cut) := by
    rw [buddyPullBlock, pulled]
    simp [split_eq, cut_eq]
  refine ⟨cut, loop.trans pull_eq, ?_⟩
  have start_unlisted := inv_split.unlisted (Set.mem_insert _ _)
  have inv_cut : Inv cut _ (insert (start, sizeOrder size) owned) :=
    inv_split.setPage
      rfl rfl rfl fun listed => (start_unlisted listed).elim
  have outside : ∀ j, ¬Covers (i, level) j → cut.pages j = s.pages j := by
    intro j not_covers
    have apart_start : j ≠ start := fun same => not_covers (same ▸ covers)
    have apart_i : j ≠ i := by
      rintro rfl
      exact not_covers (covers_start _)
    rw [cut_eq, State.setPage_pages, Function.update_of_ne apart_start, frame_split j not_covers]
    have head_eq := (inv.head_eq_some level_le cons).1
    simp only [buddyListPop, head_eq, Prod.mk.injEq, true_and] at pop_eq
    rw [← pop_eq]
    simp [Function.update_of_ne apart_i]
  obtain ⟨fresh, frame⟩ := frame_of_source inv level_le member covers outside
  refine ⟨⟨inv_cut, fresh, frame, by simp [cut_eq], ?_⟩, outside⟩
  exact (marks_popped.trans marks_split).trans (sameMarks_setPage rfl rfl)

/-- The allocation runs out of memory exactly when no list from its order on has a block. -/
theorem allocLoop_of_empty (inv : Inv s lists owned) {size : Nat}
    (fits : size ≤ 2 ^ pageMaxOrder * pageSize)
    (empty : ∀ order, sizeOrder size ≤ order → order ≤ pageMaxOrder → lists order = []) :
    allocLoop s size 0 pageMaxDepth = .error .outOfMemory := by
  have order_le := sizeOrder_le fits
  have loop := allocLoop_eq (s := s) size 0 pageMaxDepth (by simp) (by omega) order_le
  rw [inv.pop_nil order_le (empty _ le_rfl order_le)] at loop
  have pulled := pullLoop_none inv (sizeOrder size + 1) (pageMaxDepth - (sizeOrder size + 1))
    (by simp only [pageMaxDepth]; omega) fun level lower upper => empty level (by omega) upper
  rw [loop]
  simp [buddyPullBlock, pulled]

/-- No list below the largest order holds two buddies. -/
def Coalesced (lists : Nat → List Nat) : Prop :=
  ∀ order < pageMaxOrder, ∀ i ∈ lists order, buddy i order ∉ lists order

/-- Blocks that are taken off the lists leave no buddies. -/
theorem Coalesced.subset {after : Nat → List Nat} (coalesced : Coalesced lists)
    (fewer : ∀ order, after order ⊆ lists order) : Coalesced after := by
  intro order order_lt i member other
  exact coalesced order order_lt i (fewer order member) (fewer order other)

/-- A list that is left when one is changed. -/
theorem update_subset {order : Nat} {rest : List Nat} (fewer : rest ⊆ lists order) (level : Nat) :
    Function.update lists order rest level ⊆ lists level := by
  by_cases same : level = order
  · subst same
    rw [Function.update_self]
    exact fewer
  · rw [Function.update_of_ne same]
    exact List.Subset.refl _

/-- Cutting a block down puts one block on each list. -/
theorem splitLists_cases (start count i : Nat) (lists : Nat → List Nat) (order : Nat) :
    splitLists start count i lists order = lists order ∨
      ∃ j, splitLists start count i lists order = [j] := by
  induction count generalizing i lists with
  | zero => exact Or.inl rfl
  | succ count ih =>
      rw [splitLists]
      rcases ih (i + 2 ^ (start + count)) (Function.update lists (start + count) [i]) with
        same | single
      · rw [same]
        by_cases here : order = start + count
        · exact Or.inr ⟨i, by rw [here, Function.update_self]⟩
        · exact Or.inl (by rw [Function.update_of_ne here])
      · exact Or.inr single

theorem Coalesced.splitLists (coalesced : Coalesced lists) (start count i : Nat) :
    Coalesced (splitLists start count i lists) := by
  intro order order_lt j member
  rcases splitLists_cases start count i lists order with same | ⟨only, single⟩
  · rw [same] at member ⊢
    exact coalesced order order_lt j member
  · rw [single, List.mem_singleton] at member ⊢
    rw [member]
    exact buddy_ne only order

/-- A request of at most the largest block is served or runs out of memory. -/
theorem allocLoop_spec (inv : Inv s lists owned) {size : Nat}
    (fits : size ≤ 2 ^ pageMaxOrder * pageSize) :
    allocLoop s size 0 pageMaxDepth = .error .outOfMemory ∨
      ∃ start t after, allocLoop s size 0 pageMaxDepth = .ok (start, t) ∧
        Pulled s t owned (sizeOrder size) start after ∧ (Coalesced lists → Coalesced after) := by
  by_cases some_block : ∃ order, sizeOrder size ≤ order ∧ order ≤ pageMaxOrder ∧ lists order ≠ []
  · right
    classical
    obtain ⟨at_least, level_le, nonempty⟩ := Nat.find_spec some_block
    have below := fun order => Nat.find_min (H := some_block) (m := order)
    set level := Nat.find some_block
    obtain ⟨i, rest, cons⟩ := List.exists_cons_of_ne_nil nonempty
    have rest_subset : rest ⊆ lists level := by
      rw [cons]
      exact List.subset_cons_self i rest
    have empty : ∀ order, sizeOrder size ≤ order → order < level → lists order = [] := by
      intro order lower upper
      by_contra nonempty_order
      exact below order upper ⟨lower, (Nat.le_of_lt upper).trans level_le, nonempty_order⟩
    obtain same | larger := at_least.eq_or_lt
    · rw [← same] at cons rest_subset
      obtain ⟨t, loop, pulled, -⟩ := allocLoop_of_cons inv fits cons
      exact ⟨i, t, _, loop, pulled, fun coalesced => coalesced.subset (update_subset rest_subset)⟩
    · obtain ⟨t, loop, pulled, -⟩ := allocLoop_of_split inv fits larger level_le cons empty
      refine ⟨_, t, _, loop, pulled, ?_⟩
      intro coalesced
      exact (coalesced.subset (update_subset rest_subset)).splitLists _ _ _
  · left
    push Not at some_block
    exact allocLoop_of_empty inv fits some_block

/-- `buddy_alloc` serves a request of at most the largest block or runs out of memory. -/
theorem buddyAlloc_spec (inv : Inv s lists owned) {size : Nat}
    (fits : size ≤ 2 ^ pageMaxOrder * pageSize) :
    buddyAlloc s size = .error .outOfMemory ∨
      ∃ start t after, buddyAlloc s size = .ok (start, t) ∧
        Allocated s t owned (sizeOrder size) start after := by
  rcases allocLoop_spec inv fits with full | ⟨start, t, after, loop, pulled, _⟩
  · left
    rw [buddyAlloc, full]
    rfl
  · right
    refine ⟨start, markAllocated t start, after, ?_, pulled.allocated⟩
    rw [buddyAlloc, loop]
    rfl

/-! ## Release -/

/-- Pages that head no owned block have at most one reference and no first-page flag. -/
def Quiet (s : State) (owned : Set (Nat × Nat)) : Prop :=
  ∀ i, (∀ order, (i, order) ∉ owned) →
    ¬1 < (s.pages i).refcnt ∧ (s.pages i).flags.firstPage = false

/-- What a release leaves behind: the block is no longer owned, its flag is gone, and all other
counters, first-page flags and recorded orders of owned blocks are as before. -/
structure Released (s t : State) (owned : Set (Nat × Nat)) (order i : Nat)
    (lists : Nat → List Nat) : Prop where
  /-- The block is taken out of the owned ones. -/
  inv : Inv t lists (owned \ {(i, order)})
  /-- Reference counters are untouched. -/
  refcnt : ∀ j, (t.pages j).refcnt = (s.pages j).refcnt
  /-- The first-page flag of the head is cleared. -/
  first_self : (t.pages i).flags.firstPage = false
  /-- The other first-page flags are untouched. -/
  first : ∀ j, j ≠ i → (t.pages j).flags.firstPage = (s.pages j).flags.firstPage
  /-- The other owned blocks keep their recorded order. -/
  orders : ∀ block ∈ owned, block ≠ (i, order) → (t.pages block.1).order = (s.pages block.1).order

theorem buddyFindBuddyIndex_eq (page : Page) :
    buddyFindBuddyIndex page = buddy page.index page.order := by
  rw [buddyFindBuddyIndex, buddy, Nat.shiftRight_eq_div_pow]

/-- The pages of the board are a whole number of blocks of any order. -/
theorem two_pow_dvd_pageNum {order : Nat} (order_le : order ≤ pageMaxOrder) :
    2 ^ order ∣ pageNum :=
  (pow_dvd_pow 2 order_le).trans (by decide)

/-- A block whose buddy is not free goes to its list. -/
theorem buddyFreePass_done (inv : Inv s lists owned) {order i : Nat} (mem : (i, order) ∈ owned)
    (order_eq : (s.pages i).order = order) (single : ¬1 < (s.pages i).refcnt)
    (alone : order = pageMaxOrder ∨
      ¬buddyIsFreeBuddy (s.pages i) (s.pages (buddy i order))) :
    ∃ t, buddyFreePass s i = .ok (.done t) ∧
      Released s t owned order i (Function.update lists order (i :: lists order)) := by
  have index_eq := inv.index_eq i
  set cleared := s.setPage i (s.pages i).clearFirst with cleared_eq
  have inv_cleared : Inv cleared lists owned := inv.setPage rfl rfl rfl fun _ => rfl
  have order_cleared : (cleared.pages i).order = order := by
    simp [cleared_eq, Page.clearFirst, order_eq]
  refine ⟨buddyListPush cleared order i, ?_, inv_cleared.push mem order_cleared, ?_, ?_, ?_, ?_⟩
  · simp only [buddyFreePass, if_neg single, buddyFindBuddyIndex_eq, index_eq, order_eq]
    rw [if_pos alone]
  · intro j
    by_cases same : j = i
    · subst same
      simp [buddyListPush, cleared_eq, Page.markFree, Page.clearFirst]
    · simp [buddyListPush, cleared_eq, Function.update_of_ne same]
  · simp [buddyListPush, cleared_eq, Page.markFree, Page.clearFirst]
  · intro j differs
    simp [buddyListPush, cleared_eq, Function.update_of_ne differs]
  · rintro ⟨j, level⟩ block_mem block_ne
    have differs : j ≠ i := by
      rintro rfl
      exact block_ne (by rw [inv.order_unique (Or.inl block_mem) (Or.inl mem)])
    simp [buddyListPush, cleared_eq, Function.update_of_ne differs]

/-- A free buddy of the same order is on the list of that order. -/
theorem buddy_listed (inv : Inv s lists owned) {order i j : Nat}
    (order_eq : (s.pages i).order = order)
    (free : buddyIsFreeBuddy (s.pages i) (s.pages j) = true) : j ∈ lists order := by
  simp only [buddyIsFreeBuddy, Bool.and_eq_true, beq_iff_eq] at free
  obtain ⟨level, level_le, member⟩ := (inv.free_flag j).mp free.1
  have := inv.order_free level level_le j member
  rw [free.2, order_eq] at this
  exact this ▸ member

/-- The stores of `buddy_free` that join two halves: the upper head forgets its order, the lower
one grows by one. -/
def joinOrders (s : State) (low high : Nat) : State :=
  let t := s.setPage high { s.pages high with order := 0 }
  t.setPage low { t.pages low with order := (t.pages low).order + 1 }

theorem joinOrders_pages (s : State) {low high : Nat} (differ : low ≠ high) (k : Nat) :
    (joinOrders s low high).pages k =
      { s.pages k with
        order := if k = low then (s.pages low).order + 1
          else if k = high then 0 else (s.pages k).order } := by
  by_cases same : k = low
  · subst same
    simp [joinOrders, Function.update_of_ne differ]
  · by_cases same_high : k = high
    · subst same_high
      simp [joinOrders, same]
    · simp [joinOrders, same, same_high]

/-- What a joining pass of `buddy_free` leaves behind: the freed block is replaced by a block of
the next order, headed by a page with no references to count down. -/
structure Merged (s t : State) (owned : Set (Nat × Nat)) (order i j : Nat)
    (lists : Nat → List Nat) : Prop where
  /-- The joined block replaces the freed one. -/
  inv : Inv t lists (insert (j, order + 1) (owned \ {(i, order)}))
  /-- The joined block was owned by nobody. -/
  fresh : (j, order + 1) ∉ owned \ {(i, order)}
  /-- Its head records the order. -/
  order_eq : (t.pages j).order = order + 1
  /-- Its head has at most one reference. -/
  single : ¬1 < (t.pages j).refcnt
  /-- Its head has no first-page flag. -/
  first_head : (t.pages j).flags.firstPage = false
  /-- Reference counters are untouched. -/
  refcnt : ∀ k, (t.pages k).refcnt = (s.pages k).refcnt
  /-- The first-page flag of the freed head is cleared. -/
  first_self : (t.pages i).flags.firstPage = false
  /-- The other first-page flags are untouched. -/
  first : ∀ k, k ≠ i → (t.pages k).flags.firstPage = (s.pages k).flags.firstPage
  /-- The other owned blocks keep their recorded order. -/
  orders : ∀ block ∈ owned, block ≠ (i, order) → (t.pages block.1).order = (s.pages block.1).order

/-- The memory of `buddy_free` before it looks for the buddy: the freed head has no flags and no
link. -/
def detach (s : State) (i : Nat) : State :=
  let cleared := s.setPage i (s.pages i).clearFirst
  cleared.setPage i { (cleared.pages i).clearFree with next := none }

theorem detach_pages (s : State) (i k : Nat) :
    (detach s i).pages k =
      if k = i then { s.pages i with flags := ⟨false, false⟩, next := none } else s.pages k := by
  by_cases same : k = i
  · subst same
    simp [detach, Page.clearFirst, Page.clearFree]
  · simp [detach, same]

/-- Detaching the head of an owned block changes nothing that the lists depend on. -/
theorem Inv.detach (inv : Inv s lists owned) {order i : Nat} (mem : (i, order) ∈ owned) :
    Inv (detach s i) lists owned := by
  have unlisted := inv.unlisted mem
  have flag_false : (s.pages i).flags.freeList = false := by
    simpa using (inv.free_flag i).not.mpr unlisted
  refine inv.of_agree rfl ?_ ?_ ?_ ?_ <;> intro k
  all_goals
    by_cases same : k = i
    · subst same
      simp [detach_pages, inv.next_none k unlisted, flag_false]
    · simp [detach_pages, same]

/-- One joining pass, with the lower and the upper half named. -/
theorem buddyFreePass_join (inv : Inv s lists owned) {order i : Nat} (mem : (i, order) ∈ owned)
    (order_eq : (s.pages i).order = order) (single : ¬1 < (s.pages i).refcnt)
    (order_lt : order < pageMaxOrder)
    (free : buddyIsFreeBuddy (s.pages i) (s.pages (buddy i order)) = true) {removed : State}
    (remove_eq : buddyListRemove (detach s i) order (buddy i order) =
      .ok (some (buddy i order), removed)) :
    ∃ low high, ((low = i ∧ high = buddy i order) ∨ (low = buddy i order ∧ high = i)) ∧
      high = low + 2 ^ order ∧ 2 ^ (order + 1) ∣ low ∧
      buddyFreePass s i = .ok (.merged low (joinOrders removed low high)) := by
  have aligned : 2 ^ order ∣ i := inv.partition.aligned _ (Or.inl mem)
  have index_eq := inv.index_eq i
  have together : ¬(order = pageMaxOrder ∨
      ¬buddyIsFreeBuddy (s.pages i) (s.pages (buddy i order)) = true) :=
    fun either => either.elim (Nat.ne_of_lt order_lt) fun not_free => not_free free
  have pass : buddyFreePass s i =
      if (buddy i order >>> order) % 2 = 1 then
        .ok (.merged i (joinOrders removed i (buddy i order)))
      else
        .ok (.merged (buddy i order) (joinOrders removed (buddy i order) i)) := by
    simp only [buddyFreePass, if_neg single, buddyFindBuddyIndex_eq, index_eq, order_eq]
    rw [if_neg together]
    rw [detach] at remove_eq
    simp only [remove_eq, Except.ok_bind]
    rfl
  obtain ⟨even, buddy_eq, low_dvd⟩ | ⟨odd, i_eq, low_dvd⟩ := buddy_cases aligned
  · refine ⟨i, buddy i order, Or.inl ⟨rfl, rfl⟩, buddy_eq, low_dvd, ?_⟩
    rw [pass, if_pos]
    rw [Nat.shiftRight_eq_div_pow, buddy_eq, Nat.add_div_right _ (Nat.two_pow_pos order)]
    omega
  · refine ⟨buddy i order, i, Or.inr ⟨rfl, rfl⟩, i_eq, low_dvd, ?_⟩
    rw [pass, if_neg]
    rw [i_eq, Nat.add_div_right _ (Nat.two_pow_pos order)] at odd
    rw [Nat.shiftRight_eq_div_pow]
    omega

/-- A block whose buddy is free is joined with it, and the call goes on with the joined block. -/
theorem buddyFreePass_merged (inv : Inv s lists owned) (quiet : Quiet s owned) {order i : Nat}
    (mem : (i, order) ∈ owned) (order_eq : (s.pages i).order = order)
    (single : ¬1 < (s.pages i).refcnt) (order_lt : order < pageMaxOrder)
    (free : buddyIsFreeBuddy (s.pages i) (s.pages (buddy i order)) = true) :
    ∃ j t after, buddyFreePass s i = .ok (.merged j t) ∧ Merged s t owned order i j after ∧
      ∀ level, after level ⊆ lists level := by
  have order_le : order ≤ pageMaxOrder := order_lt.le
  have member : buddy i order ∈ lists order := buddy_listed inv order_eq free
  have buddy_fresh : ∀ level, (buddy i order, level) ∉ owned := fun level level_mem =>
    inv.unlisted level_mem ⟨order, order_le, member⟩
  obtain ⟨removed, rest, remove_eq, inv_removed, marks, orders, rest_subset⟩ :=
    (inv.detach mem).remove_mem order_le member
  obtain ⟨low, high, halves, high_eq, low_dvd, pass⟩ :=
    buddyFreePass_join inv mem order_eq single order_lt free remove_eq
  have differ : low ≠ high := by
    have := Nat.two_pow_pos order
    omega
  -- Both halves are owned after the removal, so the joined block can take their place.
  have half_mem : ∀ half, half = i ∨ half = buddy i order →
      (half, order) ∈ insert (buddy i order, order) owned := by
    rintro half (rfl | rfl)
    · exact Set.mem_insert_of_mem _ mem
    · exact Set.mem_insert _ _
  have low_half : low = i ∨ low = buddy i order := by tauto
  have high_half : high = i ∨ high = buddy i order := by tauto
  have joined := inv_removed.join order_lt (half_mem low low_half)
    (high_eq ▸ half_mem high high_half) low_dvd
  have remaining : insert (buddy i order, order) owned \ {(low, order), (low + 2 ^ order, order)} =
      owned \ {(i, order)} := by
    rw [← high_eq]
    ext block
    simp only [Set.mem_sdiff, Set.mem_insert_iff, Set.mem_singleton_iff, not_or]
    have outside : block ∈ owned → block ≠ (buddy i order, order) :=
      fun inside same => buddy_fresh order (same ▸ inside)
    obtain ⟨rfl, rfl⟩ | ⟨rfl, rfl⟩ := halves <;> tauto
  rw [remaining] at joined
  have unlisted : ∀ k, k = low ∨ k = high → ¬Listed (Function.update lists order rest) k := by
    rintro k (rfl | rfl)
    · exact inv_removed.unlisted (half_mem _ low_half)
    · exact inv_removed.unlisted (half_mem _ high_half)
  have order_low : (removed.pages low).order = order := by
    rw [orders, detach_pages]
    obtain rfl | rfl := low_half
    · simp [order_eq]
    · split
      · simp [order_eq]
      · exact inv.order_free order order_le _ member
  have refcnt : ∀ k, ((joinOrders removed low high).pages k).refcnt = (s.pages k).refcnt := by
    intro k
    rw [joinOrders_pages removed differ]
    simp only [(marks k).1, detach_pages]
    split <;> simp_all
  have first : ∀ k, ((joinOrders removed low high).pages k).flags.firstPage =
      if k = i then false else (s.pages k).flags.firstPage := by
    intro k
    rw [joinOrders_pages removed differ]
    simp only [(marks k).2, detach_pages]
    split <;> simp_all
  refine ⟨low, joinOrders removed low high, Function.update lists order rest, pass,
    ⟨?_, ?_, ?_, ?_, ?_, refcnt, ?_, ?_, ?_⟩, update_subset rest_subset⟩
  · refine joined.of_agree rfl ?_ ?_ ?_ ?_ <;> intro k
    · rw [joinOrders_pages removed differ]
    · rw [joinOrders_pages removed differ]
    · rw [joinOrders_pages removed differ]
    · intro listed
      have ne_low : k ≠ low := fun same => unlisted k (Or.inl same) listed
      have ne_high : k ≠ high := fun same => unlisted k (Or.inr same) listed
      simp [joinOrders_pages removed differ, ne_low, ne_high]
  · rintro ⟨joined_mem, -⟩
    obtain rfl | rfl := low_half
    · have := inv.order_unique (Or.inl joined_mem) (Or.inl mem)
      omega
    · exact buddy_fresh _ joined_mem
  · simp [joinOrders_pages removed differ, order_low]
  · rw [refcnt]
    obtain rfl | rfl := low_half
    · exact single
    · exact (quiet _ buddy_fresh).1
  · rw [first]
    obtain rfl | rfl := low_half
    · simp
    · simp [(quiet _ buddy_fresh).2]
  · simp [first]
  · intro k differs
    simp [first, differs]
  · rintro ⟨k, level⟩ block_mem block_ne
    have ne_i : k ≠ i := by
      rintro rfl
      exact block_ne (by rw [inv.order_unique (Or.inl block_mem) (Or.inl mem)])
    have ne_buddy : k ≠ buddy i order := by
      rintro rfl
      exact buddy_fresh level block_mem
    have ne_low : k ≠ low := by obtain rfl | rfl := low_half <;> assumption
    have ne_high : k ≠ high := by obtain rfl | rfl := high_half <;> assumption
    simp [joinOrders_pages removed differ, ne_low, ne_high, orders, detach_pages, ne_i]

/-- `buddy_free` on an owned block with at most one reference gives the block up. -/
theorem freeLoop_spec (fuel : Nat) (inv : Inv s lists owned) (quiet : Quiet s owned)
    {order i : Nat} (mem : (i, order) ∈ owned) (order_eq : (s.pages i).order = order)
    (single : ¬1 < (s.pages i).refcnt) (enough : pageMaxOrder < order + fuel) :
    ∃ t after, freeLoop fuel s i = .ok t ∧ Released s t owned order i after := by
  induction fuel generalizing s lists owned order i with
  | zero =>
      have := inv.owned_le _ mem
      simp only at this
      omega
  | succ fuel ih =>
      by_cases alone : order = pageMaxOrder ∨
          ¬buddyIsFreeBuddy (s.pages i) (s.pages (buddy i order))
      · obtain ⟨t, pass, released⟩ := buddyFreePass_done inv mem order_eq single alone
        exact ⟨t, _, by simp [freeLoop, pass], released⟩
      · rw [not_or, not_not] at alone
        have order_lt : order < pageMaxOrder :=
          lt_of_le_of_ne (inv.owned_le _ mem) alone.1
        obtain ⟨j, t, after, pass, merged, _⟩ :=
          buddyFreePass_merged inv quiet mem order_eq single order_lt alone.2
        have quiet_t : Quiet t (insert (j, order + 1) (owned \ {(i, order)})) := by
          intro k outside
          rw [merged.refcnt k]
          by_cases same : k = i
          · subst same
            exact ⟨single, merged.first_self⟩
          · rw [merged.first k same]
            refine quiet k fun level level_mem => outside level (Or.inr ⟨level_mem, ?_⟩)
            exact fun eq => same (congrArg Prod.fst eq)
        obtain ⟨u, last, loop, released⟩ :=
          ih merged.inv quiet_t (Set.mem_insert _ _) merged.order_eq merged.single (by omega)
        have owned_eq : insert (j, order + 1) (owned \ {(i, order)}) \ {(j, order + 1)} =
            owned \ {(i, order)} := by
          rw [Set.insert_sdiff_of_mem _ (Set.mem_singleton _),
            Set.sdiff_singleton_eq_self merged.fresh]
        refine ⟨u, last, by simp [freeLoop, pass, loop], ?_, ?_, ?_, ?_, ?_⟩
        · rw [← owned_eq]
          exact released.inv
        · exact fun k => (released.refcnt k).trans (merged.refcnt k)
        · by_cases same : i = j
          · rw [same]
            exact released.first_self
          · rw [released.first i same, merged.first_self]
        · intro k differs
          by_cases same : k = j
          · subst same
            rw [released.first_self, ← merged.first k differs, merged.first_head]
          · rw [released.first k same, merged.first k differs]
        · intro block block_mem block_ne
          rw [released.orders block (Or.inr ⟨block_mem, block_ne⟩),
            merged.orders block block_mem block_ne]
          rintro rfl
          exact merged.fresh ⟨block_mem, block_ne⟩

end Buddy
end Xv6Duo
