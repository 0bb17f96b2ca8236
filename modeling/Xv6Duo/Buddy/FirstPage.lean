import Xv6Duo.Buddy.Runs

/-!
# Finding the head of a block

`page_address`, `page_find_by_address` and `page_find_head` of `kernel/page.c`. In every reached
state the first-page flag marks exactly the heads of live blocks, so the search back from a page of
a live block meets no other mark before the head of its block.
-/

namespace Xv6Duo
namespace Buddy

open DyadicPartition

/-- `PAGE_START`. -/
def pageStart : Nat := 0x80600000

/-- `page_address`. -/
def pageAddress (page : Page) : Nat := pageStart + pageSize * page.index

/-- `page_find_by_address`: the difference of the pointers is signed, and the quotient becomes a
`uint64_t`. -/
def pageFindByAddress (address : Nat) : Option Nat :=
  let index := ((((address : Int) - pageStart).tdiv pageSize) % 2 ^ 64).toNat
  if index < pageNum then some index else none

/-- The loop of `page_find_head` from an index below `PAGE_NUM`; below page 0 the unsigned index
wraps and ends it. -/
def headLoop (s : State) : Nat → Option Nat
  | 0 => if (s.pages 0).flags.firstPage then some 0 else none
  | index + 1 =>
      if (s.pages (index + 1)).flags.firstPage then some (index + 1) else headLoop s index

/-- `page_find_head`. -/
def pageFindHead (s : State) (page : Page) : Option Nat :=
  if page.index < pageNum then headLoop s page.index else none

/-- The search stops at the nearest mark. -/
theorem headLoop_eq {s : State} {head index : Nat} (head_le : head ≤ index)
    (marked : (s.pages head).flags.firstPage = true)
    (unmarked : ∀ j, head < j → j ≤ index → (s.pages j).flags.firstPage = false) :
    headLoop s index = some head := by
  induction index with
  | zero =>
      obtain rfl : head = 0 := Nat.le_zero.mp head_le
      rw [headLoop, if_pos marked]
  | succ index ih =>
      rw [headLoop]
      obtain here | below := head_le.eq_or_lt
      · subst here
        rw [if_pos marked]
      · have clear := unmarked (index + 1) below le_rfl
        rw [if_neg (by rw [clear]; decide)]
        exact ih (Nat.le_of_lt_succ below) fun j above j_le => unmarked j above (by omega)

/-- An address inside a page belongs to the page. -/
theorem pageFindByAddress_eq {index offset : Nat} (index_lt : index < pageNum)
    (offset_lt : offset < pageSize) :
    pageFindByAddress (pageStart + pageSize * index + offset) = some index := by
  have positive : 0 < pageSize := by decide
  have quotient : (((pageStart + pageSize * index + offset : Nat) : Int) - pageStart).tdiv
      pageSize = index := by
    have difference : ((pageStart + pageSize * index + offset : Nat) : Int) - pageStart =
        ((pageSize * index + offset : Nat) : Int) := by
      push_cast
      ring
    rw [difference, ← Int.ofNat_tdiv, Nat.mul_add_div positive, Nat.div_eq_of_lt offset_lt,
      Nat.add_zero]
  have small : index < 2 ^ 64 := index_lt.trans (by decide)
  have word : ((index : Int) % 2 ^ 64).toNat = index := by omega
  rw [pageFindByAddress, quotient, word, if_pos index_lt]

namespace World

variable {w : World} {lists : Nat → List Nat}

/-- The head of every live block carries the first-page flag. -/
def Flagged (w : World) : Prop :=
  ∀ i block, w.live i = some block → (w.state.pages i).flags.firstPage = true

/-- A release clears no flag but that of a block it ends. -/
theorem buddyFree_first (holds : w.Holds lists) {i : Nat} {block : LiveBlock}
    (live : w.live i = some block) :
    ∃ t, buddyFree w.state i = .ok t ∧ ∀ j, (j = i → block.outstanding ≠ 0) →
      (t.pages j).flags.firstPage = (w.state.pages j).flags.firstPage := by
  have counted := holds.counted i block live
  cases last : block.outstanding with
  | zero =>
      have single : ¬1 < (w.state.pages i).refcnt := by
        rw [UInt32.lt_iff_toNat_lt, counted, UInt32.toNat_one]
        omega
      obtain ⟨t, after, loop, released⟩ := freeLoop_spec pageMaxDepth holds.memory holds.quiet
        (mem_of_live live) (holds.ordered _ (mem_of_live live)) single
        (by simp only [pageMaxDepth]; omega)
      exact ⟨t, loop, fun j other => released.first j fun same => other same rfl⟩
  | succ count =>
      have shared : 1 < (w.state.pages i).refcnt := by
        rw [UInt32.lt_iff_toNat_lt, counted, UInt32.toNat_one]
        omega
      refine ⟨w.state.setPage i { w.state.pages i with refcnt := (w.state.pages i).refcnt - 1 },
        ?_, ?_⟩
      · simp [buddyFree, pageMaxDepth, freeLoop, buddyFreePass, shared]
      · intro j _
        by_cases same : j = i
        · subst same
          simp
        · simp [Function.update_of_ne same]

/-- Every call keeps the flags of the heads. -/
theorem step_flagged (holds : w.Holds lists) (flagged : w.Flagged) {call : Call} {next : World}
    (admitted : w.Admitted call) (succeeds : w.step call = .ok next) : next.Flagged := by
  cases call with
  | alloc size =>
      have fits : size ≤ 2 ^ pageMaxOrder * pageSize := by
        simpa [Admitted, pageMaxOrder, pageSize] using admitted
      obtain full | ⟨start, t, after, served, allocated⟩ := buddyAlloc_spec holds.memory fits
      · simp [step, full] at succeeds
      · rw [step, served] at succeeds
        cases succeeds
        intro i block live
        by_cases same : i = start
        · subst same
          exact allocated.first_eq
        · dsimp only at live ⊢
          rw [Function.update_of_ne same] at live
          rw [allocated.frame _ (mem_of_live live)]
          exact flagged i block live
  | inc page =>
      cases succeeds
      intro i block live
      by_cases same : i = page
      · subst same
        obtain ⟨old, old_live⟩ := Option.isSome_iff_exists.mp admitted
        simpa [pageRefcntInc] using flagged i old old_live
      · dsimp only at live
        rw [Function.update_of_ne same] at live
        simpa [pageRefcntInc, Function.update_of_ne same] using flagged i block live
  | free page =>
      obtain ⟨old, old_live⟩ := Option.isSome_iff_exists.mp admitted
      obtain ⟨t, freed, first⟩ := buddyFree_first holds old_live
      rw [step, freed] at succeeds
      cases succeeds
      intro i block live
      dsimp only at live ⊢
      by_cases same : i = page
      · subst same
        rw [Function.update_self, old_live, Option.bind_some, answer] at live
        split at live
        · cases live
        · next more =>
            rw [first i fun _ => more]
            exact flagged i old old_live
      · rw [Function.update_of_ne same] at live
        rw [first i fun eq => absurd eq same]
        exact flagged i block live

theorem Reached.flagged (reached : w.Reached) : (∃ lists, w.Holds lists) ∧ w.Flagged := by
  refine reached.invariant (fun v => (∃ lists, v.Holds lists) ∧ v.Flagged)
    ⟨⟨_, initial_holds⟩, by simp [Flagged, initial]⟩ ?_
  rintro v next call ⟨⟨lists, v_holds⟩, v_flagged⟩ ⟨admitted, fits⟩ step_eq
  exact ⟨v_holds.next admitted fits step_eq, step_flagged v_holds v_flagged admitted step_eq⟩

/-- The first-page flag marks exactly the heads of live blocks. -/
theorem Reached.first_iff (reached : w.Reached) (i : Nat) :
    (w.state.pages i).flags.firstPage = true ↔ ∃ order, (i, order) ∈ w.liveBlocks := by
  obtain ⟨⟨lists, holds⟩, flagged⟩ := reached.flagged
  constructor
  · intro marked
    by_contra none_live
    push Not at none_live
    rw [(holds.quiet i none_live).2] at marked
    cases marked
  · rintro ⟨order, mem⟩
    obtain ⟨block, live, -⟩ := mem_liveBlocks.mp mem
    exact flagged i block live

/-- From every page of a live block the search finds the head of the block. -/
theorem Reached.pageFindHead_eq (reached : w.Reached) {i order page : Nat}
    (mem : (i, order) ∈ w.liveBlocks) (inside : Covers (i, order) page) :
    page < pageNum ∧ pageFindHead w.state (w.state.pages page) = some i := by
  obtain ⟨lists, holds⟩ := reached.holds
  have partition := holds.memory.partition
  have bounded := partition.bounded _ (Or.inl mem)
  have page_lt : page < pageNum := inside.2.trans_le bounded
  refine ⟨page_lt, ?_⟩
  rw [pageFindHead, holds.memory.index_eq, if_pos page_lt]
  apply headLoop_eq inside.1
  · exact (reached.first_iff i).mpr ⟨order, mem⟩
  · intro j above j_le
    rw [← Bool.not_eq_true, reached.first_iff j]
    rintro ⟨other, other_mem⟩
    -- A head inside the block would be the head of the block.
    have same := partition.eq_of_covers_start (Or.inl mem) (Or.inl other_mem)
      ⟨above.le, j_le.trans_lt inside.2⟩
    have := congrArg Prod.fst same
    dsimp only at this
    omega

end World
end Buddy
end Xv6Duo
