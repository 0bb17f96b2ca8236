import Xv6Duo.Buddy.Model
import Xv6Duo.Library.DyadicPartition
import Xv6Duo.Library.GuardedRun
import Xv6Duo.Library.PointerChain

/-!
# Representation invariant of the buddy allocator

The page records and the eleven list heads represent a partition of all pages. A block is either
on the free list of its order or owned by somebody: a live block, or the block that a running call
holds between two list operations. `Inv` says this for the links, the free flags and the orders of
listed heads; nothing is said about the stale fields of pages inside a block, except that they
carry no free flag and no link. The lemmas give the effect of every list primitive and of cutting
and joining blocks on the partition.
-/

namespace Xv6Duo
namespace Buddy

open DyadicPartition PointerChain

/-- The blocks on the free lists. -/
def freeBlocks (lists : Nat → List Nat) : Set (Nat × Nat) :=
  {block | block.2 ≤ pageMaxOrder ∧ block.1 ∈ lists block.2}

/-- The page heads some listed block. -/
def Listed (lists : Nat → List Nat) (i : Nat) : Prop :=
  ∃ order ≤ pageMaxOrder, i ∈ lists order

/-- The allocator memory represents the free lists `lists` beside the blocks `owned`. -/
structure Inv (s : State) (lists : Nat → List Nat) (owned : Set (Nat × Nat)) : Prop where
  /-- Owned and free blocks partition the pages. -/
  partition : IsPartition pageNum (owned ∪ freeBlocks lists)
  /-- No owned block is on a list. -/
  apart : ∀ block ∈ owned, block ∉ freeBlocks lists
  /-- Owned blocks have an order of the allocator. -/
  owned_le : ∀ block ∈ owned, block.2 ≤ pageMaxOrder
  /-- Every list head leads through its list. -/
  chain : ∀ order ≤ pageMaxOrder,
    IsChain (fun i => (s.pages i).next) (s.freeLists order) (lists order)
  /-- No list repeats a page. -/
  nodup : ∀ order ≤ pageMaxOrder, (lists order).Nodup
  /-- Every page record knows its index. -/
  index_eq : ∀ i, (s.pages i).index = i
  /-- The free flag marks exactly the listed pages. -/
  free_flag : ∀ i, (s.pages i).flags.freeList = true ↔ Listed lists i
  /-- A listed page has the order of its list. -/
  order_free : ∀ order ≤ pageMaxOrder, ∀ i ∈ lists order, (s.pages i).order = order
  /-- Pages on no list have no link. -/
  next_none : ∀ i, ¬Listed lists i → (s.pages i).next = none

/-- The head of every owned block records its order. -/
def Ordered (s : State) (owned : Set (Nat × Nat)) : Prop :=
  ∀ block ∈ owned, (s.pages block.1).order = block.2

/-- Two states agree on the reference counters and the first-page flags. -/
def SameMarks (s t : State) : Prop :=
  ∀ i, (t.pages i).refcnt = (s.pages i).refcnt ∧
    (t.pages i).flags.firstPage = (s.pages i).flags.firstPage

theorem SameMarks.refl (s : State) : SameMarks s s := fun _ => ⟨rfl, rfl⟩

theorem SameMarks.trans {s t u : State} (first : SameMarks s t) (second : SameMarks t u) :
    SameMarks s u := fun i =>
  ⟨(second i).1.trans (first i).1, (second i).2.trans (first i).2⟩

/-- Storing a page record with the same counter and first-page flag keeps the marks. -/
theorem sameMarks_setPage {s : State} {i : Nat} {page : Page}
    (refcnt : page.refcnt = (s.pages i).refcnt)
    (first : page.flags.firstPage = (s.pages i).flags.firstPage) :
    SameMarks s (s.setPage i page) := by
  intro j
  by_cases same : j = i
  · subst same
    simp [refcnt, first]
  · simp [Function.update_of_ne same]

namespace Inv

variable {s t : State} {lists : Nat → List Nat} {owned : Set (Nat × Nat)}

/-- The invariant reads only heads, links, indices, free flags and the orders of listed pages. -/
theorem of_agree (inv : Inv s lists owned) (heads : t.freeLists = s.freeLists)
    (next : ∀ i, (t.pages i).next = (s.pages i).next)
    (index : ∀ i, (t.pages i).index = (s.pages i).index)
    (flag : ∀ i, (t.pages i).flags.freeList = (s.pages i).flags.freeList)
    (order : ∀ i, Listed lists i → (t.pages i).order = (s.pages i).order) :
    Inv t lists owned where
  partition := inv.partition
  apart := inv.apart
  owned_le := inv.owned_le
  chain level level_le := by
    rw [heads]
    exact (inv.chain level level_le).congr fun i _ => next i
  nodup := inv.nodup
  index_eq i := (index i).trans (inv.index_eq i)
  free_flag i := by rw [flag i, inv.free_flag i]
  order_free level level_le i member := by
    rw [order i ⟨level, level_le, member⟩]
    exact inv.order_free level level_le i member
  next_none i unlisted := (next i).trans (inv.next_none i unlisted)

/-- The invariant ignores the owned-block data of one page. -/
theorem setPage (inv : Inv s lists owned) {i : Nat} {page : Page}
    (next : page.next = (s.pages i).next) (index : page.index = (s.pages i).index)
    (flag : page.flags.freeList = (s.pages i).flags.freeList)
    (order : Listed lists i → page.order = (s.pages i).order) :
    Inv (s.setPage i page) lists owned := by
  refine inv.of_agree rfl ?_ ?_ ?_ ?_ <;> intro j
  all_goals
    by_cases same : j = i
    · subst same
      simp [next, index, flag]
      try exact order
    · simp [Function.update_of_ne same]

/-- A page heads at most one block. -/
theorem order_unique (inv : Inv s lists owned) {i left right : Nat}
    (left_mem : (i, left) ∈ owned ∪ freeBlocks lists)
    (right_mem : (i, right) ∈ owned ∪ freeBlocks lists) : left = right :=
  inv.partition.order_eq left_mem right_mem

/-- The head of an owned block is on no list. -/
theorem unlisted (inv : Inv s lists owned) {i order : Nat} (mem : (i, order) ∈ owned) :
    ¬Listed lists i := by
  rintro ⟨level, level_le, member⟩
  have same : order = level :=
    inv.order_unique (Or.inl mem) (Or.inr ⟨level_le, member⟩)
  subst same
  exact inv.apart _ mem ⟨level_le, member⟩

theorem lt_pageNum (inv : Inv s lists owned) {order i : Nat} (order_le : order ≤ pageMaxOrder)
    (member : i ∈ lists order) : i < pageNum :=
  @IsPartition.start_lt _ _ inv.partition (i, order) (Or.inr ⟨order_le, member⟩)

/-- A page is on one list only. -/
theorem list_unique (inv : Inv s lists owned) {i left right : Nat}
    (left_le : left ≤ pageMaxOrder) (right_le : right ≤ pageMaxOrder)
    (left_mem : i ∈ lists left) (right_mem : i ∈ lists right) : left = right :=
  inv.order_unique (Or.inr ⟨left_le, left_mem⟩) (Or.inr ⟨right_le, right_mem⟩)

/-- The length of a list is at most the number of pages. -/
theorem length_le (inv : Inv s lists owned) {order : Nat} (order_le : order ≤ pageMaxOrder) :
    (lists order).length ≤ pageNum := by
  have subset : (lists order).toFinset ⊆ Finset.range pageNum := by
    intro i member
    rw [List.mem_toFinset] at member
    exact Finset.mem_range.mpr (inv.lt_pageNum order_le member)
  calc
    (lists order).length = (lists order).toFinset.card :=
      (List.toFinset_card_of_nodup (inv.nodup order order_le)).symm
    _ ≤ (Finset.range pageNum).card := Finset.card_le_card subset
    _ = pageNum := Finset.card_range pageNum

end Inv

/-! ## Taking a block off its list -/

/-- Membership in the lists after one list has been replaced. -/
theorem listed_update {lists : Nat → List Nat} {order : Nat} {nodes : List Nat} {i : Nat}
    (order_le : order ≤ pageMaxOrder) :
    Listed (Function.update lists order nodes) i ↔
      i ∈ nodes ∨ ∃ level ≤ pageMaxOrder, level ≠ order ∧ i ∈ lists level := by
  constructor
  · rintro ⟨level, level_le, member⟩
    by_cases same : level = order
    · subst same
      exact Or.inl (by simpa using member)
    · exact Or.inr ⟨level, level_le, same, by simpa [Function.update_of_ne same] using member⟩
  · rintro (member | ⟨level, level_le, differs, member⟩)
    · exact ⟨order, order_le, by simpa using member⟩
    · exact ⟨level, level_le, by simpa [Function.update_of_ne differs] using member⟩

/-- The free blocks after one list has been replaced. -/
theorem mem_freeBlocks_update {lists : Nat → List Nat} {order : Nat} {nodes : List Nat}
    {block : Nat × Nat} (order_le : order ≤ pageMaxOrder) :
    block ∈ freeBlocks (Function.update lists order nodes) ↔
      (block.2 = order ∧ block.1 ∈ nodes) ∨ (block.2 ≠ order ∧ block ∈ freeBlocks lists) := by
  obtain ⟨i, level⟩ := block
  by_cases same : level = order
  · subst same
    simp [freeBlocks, order_le]
  · simp [freeBlocks, same]

namespace Inv

variable {s t : State} {lists : Nat → List Nat} {owned : Set (Nat × Nat)}

/-- Moving one listed block to the owned ones does not change the partition. -/
private theorem take_blocks {order i : Nat} {rest : List Nat} (order_le : order ≤ pageMaxOrder)
    (exact_rest : ∀ j, j ∈ lists order ↔ j = i ∨ j ∈ rest) :
    insert (i, order) owned ∪ freeBlocks (Function.update lists order rest) =
      owned ∪ freeBlocks lists := by
  ext ⟨j, level⟩
  simp only [Set.mem_union, Set.mem_insert_iff, mem_freeBlocks_update order_le]
  by_cases same : level = order
  · subst same
    simp only [freeBlocks, Set.mem_ofPred_eq, exact_rest, Prod.mk.injEq, and_true, order_le,
      true_and, ne_eq, not_true_eq_false, false_and, or_false]
    tauto
  · simp [freeBlocks, same]

/-- The invariant after a block has been unlinked, whatever its position on the list. -/
theorem take (inv : Inv s lists owned) {order i : Nat} {rest : List Nat}
    (order_le : order ≤ pageMaxOrder) (exact_rest : ∀ j, j ∈ lists order ↔ j = i ∨ j ∈ rest)
    (distinct : (i :: rest).Nodup)
    (heads : ∀ level, level ≠ order → t.freeLists level = s.freeLists level)
    (next_self : (t.pages i).next = none)
    (next_other : ∀ level ≤ pageMaxOrder, level ≠ order → ∀ j ∈ lists level,
      (t.pages j).next = (s.pages j).next)
    (next_unlisted : ∀ j, ¬Listed lists j → (t.pages j).next = (s.pages j).next)
    (chain : IsChain (fun j => (t.pages j).next) (t.freeLists order) rest)
    (index : ∀ j, (t.pages j).index = (s.pages j).index)
    (flag_self : (t.pages i).flags.freeList = false)
    (flag : ∀ j, j ≠ i → (t.pages j).flags.freeList = (s.pages j).flags.freeList)
    (orders : ∀ j, (t.pages j).order = (s.pages j).order) :
    Inv t (Function.update lists order rest) (insert (i, order) owned) := by
  have fresh : i ∉ rest := (List.nodup_cons.mp distinct).1
  have member : i ∈ lists order := (exact_rest i).mpr (Or.inl rfl)
  have elsewhere : ∀ level ≤ pageMaxOrder, level ≠ order → i ∉ lists level := by
    intro level level_le differs inside
    exact differs (inv.list_unique level_le order_le inside member)
  have listed_iff : ∀ j, Listed (Function.update lists order rest) j ↔ Listed lists j ∧ j ≠ i := by
    intro j
    rw [listed_update order_le]
    constructor
    · rintro (inside | ⟨level, level_le, differs, inside⟩)
      · exact ⟨⟨order, order_le, (exact_rest j).mpr (Or.inr inside)⟩,
          fun same => fresh (same ▸ inside)⟩
      · exact ⟨⟨level, level_le, inside⟩,
          fun same => elsewhere level level_le differs (same ▸ inside)⟩
    · rintro ⟨⟨level, level_le, inside⟩, differs⟩
      by_cases same : level = order
      · subst same
        exact Or.inl (((exact_rest j).mp inside).resolve_left differs)
      · exact Or.inr ⟨level, level_le, same, inside⟩
  refine ⟨?_, ?_, ?_, ?_, ?_, ?_, ?_, ?_, ?_⟩
  · rw [take_blocks order_le exact_rest]
    exact inv.partition
  · rintro block (rfl | block_mem) inside
    · rw [mem_freeBlocks_update order_le] at inside
      simp [fresh] at inside
    · rw [mem_freeBlocks_update order_le] at inside
      obtain ⟨level_eq, inside⟩ | ⟨-, inside⟩ := inside
      · apply inv.apart block block_mem
        refine ⟨level_eq ▸ order_le, ?_⟩
        rw [level_eq]
        exact (exact_rest _).mpr (Or.inr inside)
      · exact inv.apart block block_mem inside
  · rintro block (rfl | block_mem)
    · exact order_le
    · exact inv.owned_le block block_mem
  · intro level level_le
    by_cases same : level = order
    · subst same
      simpa using chain
    · rw [Function.update_of_ne same, heads level same]
      exact (inv.chain level level_le).congr fun j inside => next_other level level_le same j inside
  · intro level level_le
    by_cases same : level = order
    · subst same
      simpa using (List.nodup_cons.mp distinct).2
    · rw [Function.update_of_ne same]
      exact inv.nodup level level_le
  · intro j
    exact (index j).trans (inv.index_eq j)
  · intro j
    rw [listed_iff]
    by_cases same : j = i
    · subst same
      simp [flag_self]
    · rw [flag j same, inv.free_flag j]
      simp [same]
  · intro level level_le j inside
    rw [orders j]
    by_cases same : level = order
    · subst same
      rw [Function.update_self] at inside
      exact inv.order_free level level_le j ((exact_rest j).mpr (Or.inr inside))
    · rw [Function.update_of_ne same] at inside
      exact inv.order_free level level_le j inside
  · intro j unlisted
    by_cases same : j = i
    · subst same
      exact next_self
    · have outside : ¬Listed lists j := fun inside => unlisted ((listed_iff j).mpr ⟨inside, same⟩)
      exact (next_unlisted j outside).trans (inv.next_none j outside)

/-- An empty list has a null head. -/
theorem head_eq_none (inv : Inv s lists owned) {order : Nat} (order_le : order ≤ pageMaxOrder)
    (empty : lists order = []) : s.freeLists order = none := by
  have chain := inv.chain order order_le
  rw [empty] at chain
  exact chain

/-- A non-empty list starts at its head. -/
theorem head_eq_some (inv : Inv s lists owned) {order i : Nat} {rest : List Nat}
    (order_le : order ≤ pageMaxOrder) (cons : lists order = i :: rest) :
    s.freeLists order = some i ∧
      IsChain (fun j => (s.pages j).next) (s.pages i).next rest := by
  have chain := inv.chain order order_le
  rw [cons] at chain
  exact chain

/-- `buddy_list_pop` on an empty list changes nothing. -/
theorem pop_nil (inv : Inv s lists owned) {order : Nat} (order_le : order ≤ pageMaxOrder)
    (empty : lists order = []) : buddyListPop s order = (none, s) := by
  rw [buddyListPop, inv.head_eq_none order_le empty]

/-- `buddy_list_pop` takes the first block of a non-empty list. -/
theorem pop_cons (inv : Inv s lists owned) {order i : Nat} {rest : List Nat}
    (order_le : order ≤ pageMaxOrder) (cons : lists order = i :: rest) :
    ∃ popped, buddyListPop s order = (some i, popped) ∧
      Inv popped (Function.update lists order rest) (insert (i, order) owned) ∧
      SameMarks s popped ∧ ∀ j, (popped.pages j).order = (s.pages j).order := by
  obtain ⟨head_eq, rest_chain⟩ := inv.head_eq_some order_le cons
  have distinct : (i :: rest).Nodup := cons ▸ inv.nodup order order_le
  have fresh : i ∉ rest := (List.nodup_cons.mp distinct).1
  have member : i ∈ lists order := by rw [cons]; exact List.mem_cons_self
  have other : ∀ j, j ≠ i → ((buddyListPop s order).2.pages j) = s.pages j := by
    intro j differs
    simp [buddyListPop, head_eq, Function.update_of_ne differs]
  have self : (buddyListPop s order).2.pages i =
      { (s.pages i).clearFree with next := none } := by
    simp [buddyListPop, head_eq]
  refine ⟨(buddyListPop s order).2, by simp [buddyListPop, head_eq], ?_, ?_, ?_⟩
  · apply inv.take order_le (fun j => by rw [cons, List.mem_cons]) distinct
    · intro level differs
      simp [buddyListPop, head_eq, Function.update_of_ne differs]
    · simp [self]
    · intro level level_le differs j inside
      rw [other j]
      rintro rfl
      exact differs (inv.list_unique level_le order_le inside member)
    · intro j unlisted
      rw [other j]
      rintro rfl
      exact unlisted ⟨order, order_le, member⟩
    · have head_after : (buddyListPop s order).2.freeLists order = (s.pages i).next := by
        simp [buddyListPop, head_eq]
      rw [head_after]
      refine rest_chain.congr fun j inside => ?_
      rw [other j]
      rintro rfl
      exact fresh inside
    · intro j
      by_cases same : j = i
      · subst same
        simp [self, Page.clearFree]
      · rw [other j same]
    · simp [self, Page.clearFree]
    · intro j differs
      rw [other j differs]
    · intro j
      by_cases same : j = i
      · subst same
        simp [self, Page.clearFree]
      · rw [other j same]
  · intro j
    by_cases same : j = i
    · subst same
      simp [self, Page.clearFree]
    · simp [other j same]
  · intro j
    by_cases same : j = i
    · subst same
      simp [self, Page.clearFree]
    · rw [other j same]

/-- The search of `buddy_list_remove` stops at the node it looks for, with the cursor behind it. -/
theorem removeLoop_eq (index : ∀ j, (s.pages j).index = j) {order i : Nat}
    (middle back seen : List Nat) (cursor : Option Nat) (fuel : Nat)
    (chain : IsChain (fun j => (s.pages j).next) cursor (middle ++ i :: back))
    (fresh : i ∉ middle) (enough : middle.length < fuel) :
    removeLoop s order i fuel seen.getLast? cursor =
      .ok (some i,
        (storeLink s order (seen ++ middle).getLast? (s.pages i).next).setPage i
          { ((storeLink s order (seen ++ middle).getLast? (s.pages i).next).pages i).clearFree
            with next := none }) := by
  induction middle generalizing seen cursor fuel with
  | nil =>
      obtain ⟨fuel, rfl⟩ := Nat.exists_eq_succ_of_ne_zero (Nat.ne_of_gt enough)
      obtain ⟨rfl, -⟩ := chain
      simp [removeLoop, index]
  | cons first middle ih =>
      obtain ⟨fuel, rfl⟩ := Nat.exists_eq_succ_of_ne_zero
        (Nat.ne_of_gt (Nat.zero_lt_of_lt enough))
      obtain ⟨rfl, rest_chain⟩ := chain
      rw [List.mem_cons, not_or] at fresh
      have continued := ih (seen ++ [first]) (s.pages first).next fuel rest_chain fresh.2
        (by simpa using enough)
      simp only [removeLoop, index, if_neg (Ne.symm fresh.1)]
      simpa using continued

/-- `buddy_list_remove` takes a listed block off its list. -/
theorem remove_mem (inv : Inv s lists owned) {order i : Nat} (order_le : order ≤ pageMaxOrder)
    (member : i ∈ lists order) :
    ∃ removed rest, buddyListRemove s order i = .ok (some i, removed) ∧
      Inv removed (Function.update lists order rest) (insert (i, order) owned) ∧
      SameMarks s removed ∧ (∀ j, (removed.pages j).order = (s.pages j).order) ∧
      rest ⊆ lists order := by
  obtain ⟨front, back, lists_eq⟩ := List.append_of_mem member
  have distinct : (front ++ i :: back).Nodup := lists_eq ▸ inv.nodup order order_le
  have front_fresh : i ∉ front := fun inside =>
    (List.nodup_append.mp distinct).2.2 i inside i List.mem_cons_self rfl
  have back_fresh : i ∉ back := (List.nodup_cons.mp (List.nodup_append.mp distinct).2.1).1
  have chain := inv.chain order order_le
  rw [lists_eq] at chain
  have short : front.length < pageNum + 1 := by
    have := inv.length_le order_le
    rw [lists_eq, List.length_append, List.length_cons] at this
    omega
  have found := @removeLoop_eq s inv.index_eq order i front back [] (s.freeLists order)
    (pageNum + 1) chain front_fresh short
  simp only [List.nil_append] at found
  set linked := storeLink s order front.getLast? (s.pages i).next with linked_eq
  have distinct_rest : (i :: (front ++ back)).Nodup := by
    rw [List.nodup_cons, List.mem_append]
    refine ⟨fun inside => inside.elim front_fresh back_fresh, ?_⟩
    exact distinct.sublist (List.Sublist.append_left (List.sublist_cons_self i back) front)
  -- The cursor is either the list head or the `next` field of a node of the same list.
  have before_mem : ∀ j, front.getLast? = some j → j ∈ lists order ∧ j ≠ i := by
    intro j last
    have inside : j ∈ front := List.mem_of_getLast? last
    rw [lists_eq]
    exact ⟨List.mem_append_left _ inside, fun same => front_fresh (same ▸ inside)⟩
  have fields : ∀ j, (linked.pages j).refcnt = (s.pages j).refcnt ∧
      (linked.pages j).flags = (s.pages j).flags ∧ (linked.pages j).order = (s.pages j).order ∧
      (linked.pages j).index = (s.pages j).index ∧
      ((∀ k, front.getLast? = some k → j ≠ k) → (linked.pages j).next = (s.pages j).next) := by
    intro j
    rw [linked_eq]
    cases front.getLast? with
    | none => simp [storeLink]
    | some k =>
        by_cases same : j = k
        · subst same
          simp [storeLink]
        · simp [storeLink, Function.update_of_ne same]
  have rest_subset : front ++ back ⊆ lists order := by
    rw [lists_eq]
    exact (List.Sublist.append_left (List.sublist_cons_self i back) front).subset
  refine ⟨_, front ++ back, found, ?_, ?_, ?_, rest_subset⟩
  · apply inv.take order_le ?_ distinct_rest
    · intro level differs
      rw [linked_eq]
      cases front.getLast? with
      | none => simp [storeLink, Function.update_of_ne differs]
      | some k => simp [storeLink]
    · simp
    · intro level level_le differs j inside
      have apart_i : j ≠ i := by
        rintro rfl
        exact differs (inv.list_unique level_le order_le inside member)
      simp only [State.setPage_pages, Function.update_of_ne apart_i]
      refine (fields j).2.2.2.2 fun k last => ?_
      rintro rfl
      exact differs (inv.list_unique level_le order_le inside (before_mem j last).1)
    · intro j unlisted
      have apart_i : j ≠ i := by
        rintro rfl
        exact unlisted ⟨order, order_le, member⟩
      simp only [State.setPage_pages, Function.update_of_ne apart_i]
      refine (fields j).2.2.2.2 fun k last => ?_
      rintro rfl
      exact unlisted ⟨order, order_le, (before_mem j last).1⟩
    · have rest_fresh : i ∉ front ++ back := (List.nodup_cons.mp distinct_rest).1
      have unlinked : IsChain (fun j => (linked.pages j).next) (linked.freeLists order)
          (front ++ back) := by
        obtain rfl | ⟨before_front, before, rfl⟩ := List.eq_nil_or_concat' front
        · simpa [linked_eq, storeLink] using chain.2
        · have shape : before_front ++ [before] ++ i :: back =
              before_front ++ before :: i :: back := by simp
          rw [shape] at chain distinct
          have updated := chain.unlink distinct
          have next_eq : (fun j => (linked.pages j).next) =
              Function.update (fun j => (s.pages j).next) before (s.pages i).next := by
            funext j
            by_cases same : j = before
            · subst same
              simp [linked_eq, storeLink]
            · simp [linked_eq, storeLink, Function.update_of_ne same]
          have head_eq : linked.freeLists order = s.freeLists order := by
            simp [linked_eq, storeLink]
          rw [next_eq, head_eq]
          simpa using updated
      refine unlinked.congr fun j inside => ?_
      have apart_i : j ≠ i := fun same => rest_fresh (same ▸ inside)
      simp [Function.update_of_ne apart_i]
    · intro j
      by_cases same : j = i
      · subst same
        simp [Page.clearFree, fields]
      · simp [Function.update_of_ne same, fields]
    · simp [Page.clearFree]
    · intro j differs
      simp [Function.update_of_ne differs, fields]
    · intro j
      by_cases same : j = i
      · subst same
        simp [Page.clearFree, fields]
      · simp [Function.update_of_ne same, fields]
    · intro j
      rw [lists_eq]
      simp only [List.mem_append, List.mem_cons]
      tauto
  · intro j
    by_cases same : j = i
    · subst same
      simp [Page.clearFree, fields]
    · simp [Function.update_of_ne same, fields]
  · intro j
    by_cases same : j = i
    · subst same
      simp [Page.clearFree, fields]
    · simp [Function.update_of_ne same, fields]

/-! ## Putting a block on its list -/

/-- The invariant after an owned block has become the first of a list, whose other nodes are
kept. `before` is the set of blocks that the owner held in exchange for the pushed block and
what is owned afterwards. -/
theorem put (inv : Inv s lists owned) {order i : Nat} {after : Set (Nat × Nat)}
    (order_le : order ≤ pageMaxOrder) (unlisted : ¬Listed lists i)
    (partition : IsPartition pageNum
      (after ∪ freeBlocks (Function.update lists order (i :: lists order))))
    (apart : ∀ block ∈ after,
      block ∉ freeBlocks (Function.update lists order (i :: lists order)))
    (after_le : ∀ block ∈ after, block.2 ≤ pageMaxOrder)
    (heads : t.freeLists = Function.update s.freeLists order (some i))
    (next_self : (t.pages i).next = s.freeLists order) (flag_self : (t.pages i).flags.freeList)
    (index_self : (t.pages i).index = i) (order_self : (t.pages i).order = order)
    (other : ∀ j, j ≠ i → t.pages j = s.pages j) :
    Inv t (Function.update lists order (i :: lists order)) after := by
  have fresh : ∀ level ≤ pageMaxOrder, i ∉ lists level := fun level level_le inside =>
    unlisted ⟨level, level_le, inside⟩
  have listed_iff : ∀ j, Listed (Function.update lists order (i :: lists order)) j ↔
      j = i ∨ Listed lists j := by
    intro j
    rw [listed_update order_le, List.mem_cons]
    constructor
    · rintro ((same | inside) | ⟨level, level_le, -, inside⟩)
      · exact Or.inl same
      · exact Or.inr ⟨order, order_le, inside⟩
      · exact Or.inr ⟨level, level_le, inside⟩
    · rintro (same | ⟨level, level_le, inside⟩)
      · exact Or.inl (Or.inl same)
      · by_cases level_eq : level = order
        · exact Or.inl (Or.inr (level_eq ▸ inside))
        · exact Or.inr ⟨level, level_le, level_eq, inside⟩
  refine ⟨partition, apart, after_le, ?_, ?_, ?_, ?_, ?_, ?_⟩
  · intro level level_le
    have keeps : IsChain (fun j => (t.pages j).next) (s.freeLists level) (lists level) := by
      refine (inv.chain level level_le).congr fun j inside => ?_
      rw [other j fun same => fresh level level_le (same ▸ inside)]
    rw [heads]
    by_cases same : level = order
    · subst same
      rw [Function.update_self, Function.update_self, isChain_cons, next_self]
      exact ⟨rfl, keeps⟩
    · rw [Function.update_of_ne same, Function.update_of_ne same]
      exact keeps
  · intro level level_le
    by_cases same : level = order
    · subst same
      rw [Function.update_self, List.nodup_cons]
      exact ⟨fresh level level_le, inv.nodup level level_le⟩
    · rw [Function.update_of_ne same]
      exact inv.nodup level level_le
  · intro j
    by_cases same : j = i
    · rw [same, index_self]
    · rw [other j same, inv.index_eq j]
  · intro j
    rw [listed_iff]
    by_cases same : j = i
    · subst same
      simp [flag_self]
    · rw [other j same, inv.free_flag j]
      simp [same]
  · intro level level_le j inside
    by_cases same : j = i
    · subst same
      by_cases level_eq : level = order
      · rw [order_self, level_eq]
      · rw [Function.update_of_ne level_eq] at inside
        exact (fresh level level_le inside).elim
    · rw [other j same]
      by_cases level_eq : level = order
      · subst level_eq
        rw [Function.update_self, List.mem_cons] at inside
        exact inv.order_free level level_le j (inside.resolve_left same)
      · rw [Function.update_of_ne level_eq] at inside
        exact inv.order_free level level_le j inside
  · intro j outside
    rw [listed_iff, not_or] at outside
    rw [other j outside.1]
    exact inv.next_none j outside.2

/-- `buddy_list_push` returns an owned block to the list of its order. -/
theorem push (inv : Inv s lists owned) {order i : Nat} (mem : (i, order) ∈ owned)
    (order_eq : (s.pages i).order = order) :
    Inv (buddyListPush s order i) (Function.update lists order (i :: lists order))
      (owned \ {(i, order)}) := by
  have order_le := inv.owned_le _ mem
  have exchanged : owned \ {(i, order)} ∪
      freeBlocks (Function.update lists order (i :: lists order)) =
        owned ∪ freeBlocks lists := by
    ext ⟨j, level⟩
    simp only [Set.mem_union, Set.mem_sdiff, Set.mem_singleton_iff,
      mem_freeBlocks_update order_le, List.mem_cons]
    by_cases same : level = order
    · subst same
      by_cases same_page : j = i
      · subst same_page
        simp [mem]
      · simp [same_page, freeBlocks, order_le]
    · simp [same]
  apply inv.put order_le (inv.unlisted mem)
  · rw [exchanged]
    exact inv.partition
  · rintro ⟨j, level⟩ ⟨block_mem, block_ne⟩ inside
    rw [mem_freeBlocks_update order_le] at inside
    obtain ⟨level_eq, inside⟩ | ⟨-, inside⟩ := inside
    · simp only at level_eq inside
      subst level_eq
      obtain rfl | inside := List.mem_cons.mp inside
      · exact block_ne rfl
      · exact inv.apart _ block_mem ⟨order_le, inside⟩
    · exact inv.apart _ block_mem inside
  · exact fun block block_mem => inv.owned_le block block_mem.1
  · simp [buddyListPush]
  · simp [buddyListPush]
  · simp [buddyListPush, Page.markFree]
  · simp [buddyListPush, Page.markFree, inv.index_eq]
  · simp [buddyListPush, Page.markFree, order_eq]
  · intro j differs
    simp [buddyListPush, Function.update_of_ne differs]

/-! ## Cutting and joining owned blocks -/

/-- Keep the lower half of an owned block on an empty list and own the upper half. -/
theorem cut (inv : Inv s lists owned) {order i : Nat} (mem : (i, order + 1) ∈ owned)
    (empty : lists order = []) :
    Inv ((s.setHead order (some i)).setPage i { (s.pages i).markFree with order := order })
      (Function.update lists order [i])
      (insert (i + 2 ^ order, order) (owned \ {(i, order + 1)})) := by
  have order_le : order ≤ pageMaxOrder := Nat.le_of_succ_le (inv.owned_le _ mem)
  have unlisted := inv.unlisted mem
  have not_free : (i, order + 1) ∉ freeBlocks lists := inv.apart _ mem
  have no_free : ∀ j, (j, order) ∉ freeBlocks lists := fun j inside => by
    simp [freeBlocks, empty] at inside
  have halves : insert (i + 2 ^ order, order) (owned \ {(i, order + 1)}) ∪
      freeBlocks (Function.update lists order [i]) =
        insert (i, order) (insert (i + 2 ^ order, order)
          ((owned ∪ freeBlocks lists) \ {(i, order + 1)})) := by
    ext ⟨j, level⟩
    simp only [Set.mem_union, Set.mem_insert_iff, Set.mem_sdiff, Set.mem_singleton_iff,
      mem_freeBlocks_update order_le, List.mem_singleton]
    by_cases same : level = order
    · subst same
      have := no_free j
      simp only [Prod.mk.injEq, and_true]
      tauto
    · by_cases whole : j = i ∧ level = order + 1
      · obtain ⟨rfl, rfl⟩ := whole
        simp [not_free]
      · simp only [Prod.mk.injEq, same, whole]
        tauto
  have partition := inv.partition.split (Or.inl mem)
  rw [← halves] at partition
  have pushed : Function.update lists order [i] =
      Function.update lists order (i :: lists order) := by rw [empty]
  rw [pushed] at partition ⊢
  apply inv.put order_le unlisted partition
  · rintro block (rfl | ⟨block_mem, block_ne⟩) inside
    · have := Nat.two_pow_pos order
      rw [mem_freeBlocks_update order_le, empty] at inside
      simp at inside
    · rw [mem_freeBlocks_update order_le, empty] at inside
      obtain ⟨level_eq, inside⟩ | ⟨-, inside⟩ := inside
      · obtain ⟨j, level⟩ := block
        simp only [List.mem_singleton] at level_eq inside
        subst level_eq inside
        have := inv.order_unique (Or.inl mem) (Or.inl block_mem)
        omega
      · exact inv.apart block block_mem inside
  · rintro block (rfl | ⟨block_mem, -⟩)
    · exact order_le
    · exact inv.owned_le block block_mem
  · simp
  · simp [inv.head_eq_none order_le empty, Page.markFree, inv.next_none i unlisted]
  · simp [Page.markFree]
  · simp [Page.markFree, inv.index_eq]
  · simp
  · intro j differs
    simp [Function.update_of_ne differs]

/-- Own the two halves of one block as that block. -/
theorem join (inv : Inv s lists owned) {order i : Nat} (order_lt : order < pageMaxOrder)
    (left_mem : (i, order) ∈ owned) (right_mem : (i + 2 ^ order, order) ∈ owned)
    (aligned : 2 ^ (order + 1) ∣ i) :
    Inv s lists (insert (i, order + 1) (owned \ {(i, order), (i + 2 ^ order, order)})) := by
  have partition := inv.partition.merge (Or.inl left_mem) (Or.inl right_mem) aligned
  have left_not_free := inv.apart _ left_mem
  have right_not_free := inv.apart _ right_mem
  have joined : insert (i, order + 1)
        ((owned ∪ freeBlocks lists) \ {(i, order), (i + 2 ^ order, order)}) =
      insert (i, order + 1) (owned \ {(i, order), (i + 2 ^ order, order)}) ∪
        freeBlocks lists := by
    ext block
    simp only [Set.mem_union, Set.mem_insert_iff, Set.mem_sdiff, Set.mem_singleton_iff]
    constructor
    · tauto
    · rintro ((same | inside) | inside)
      · exact Or.inl same
      · exact Or.inr ⟨Or.inl inside.1, inside.2⟩
      · refine Or.inr ⟨Or.inr inside, ?_⟩
        rintro (rfl | rfl)
        · exact left_not_free inside
        · exact right_not_free inside
  rw [joined] at partition
  refine { inv with partition := partition, apart := ?_, owned_le := ?_ }
  · rintro block (rfl | ⟨block_mem, -⟩) inside
    · exact inv.unlisted left_mem ⟨order + 1, inside.1, inside.2⟩
    · exact inv.apart block block_mem inside
  · rintro block (rfl | ⟨block_mem, -⟩)
    · exact order_lt
    · exact inv.owned_le block block_mem

end Inv

end Buddy
end Xv6Duo
