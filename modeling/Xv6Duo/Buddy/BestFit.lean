import Xv6Duo.Buddy.Runs

/-!
# Best fit

In every reached state `buddy_alloc` takes a block of the smallest order that is large enough and
has a free block, and cuts it down to the wanted order. Its upper end is handed out, and one lower
half is left on each list in between. The search fails only when all these lists are empty.
-/

namespace Xv6Duo
namespace Buddy

open DyadicPartition PointerChain

/-- The lists after cutting a block down: one lower half on each list below its order. -/
theorem splitLists_eq (start count i : Nat) (lists : Nat → List Nat) (order : Nat) :
    splitLists start count i lists order =
      if start ≤ order ∧ order < start + count then
        [i + (2 ^ (start + count) - 2 ^ (order + 1))]
      else lists order := by
  induction count generalizing i lists with
  | zero => simp [splitLists]
  | succ count ih =>
      have double : 2 ^ (start + (count + 1)) = 2 ^ (start + count) + 2 ^ (start + count) := by
        rw [← Nat.add_assoc, pow_succ]
        ring
      rw [splitLists, ih]
      by_cases inner : start ≤ order ∧ order < start + count
      · have smaller : 2 ^ (order + 1) ≤ 2 ^ (start + count) :=
          Nat.pow_le_pow_right (by decide) (by omega)
        rw [if_pos inner, if_pos (by omega), double, Nat.add_sub_assoc smaller, Nat.add_assoc]
      · rw [if_neg inner]
        by_cases top : order = start + count
        · subst top
          rw [Function.update_self, if_pos (by omega), ← Nat.add_assoc, Nat.sub_self, Nat.add_zero]
        · rw [Function.update_of_ne top, if_neg (by omega)]

namespace World

/-- What one `buddy_alloc` does when it takes a free block of order `level` to serve a request of
the given order. -/
structure BestFit (w next : World) (lists after : Nat → List Nat) (order level source : Nat) :
    Prop where
  /-- The block is large enough, and there are no larger orders than `PAGE_MAX_ORDER`. -/
  order_le : order ≤ level
  level_le : level ≤ pageMaxOrder
  /-- No smaller order that would do has a free block. -/
  least : ∀ lower, order ≤ lower → lower < level → lists lower = []
  /-- The first block of its list is taken. -/
  taken : lists level = source :: after level
  /-- One lower half is left for each order in between. -/
  halves : ∀ lower, order ≤ lower → lower < level →
    after lower = [source + (2 ^ level - 2 ^ (lower + 1))]
  /-- The other lists are as before. -/
  others : ∀ other, other < order ∨ level < other → after other = lists other
  /-- The block that is handed out, the upper end of the one that was taken, was not live. -/
  fresh : w.live (source + (2 ^ level - 2 ^ order)) = none
  live : next.live =
    Function.update w.live (source + (2 ^ level - 2 ^ order)) (some ⟨order, 0⟩)
  /-- Its head records the order, one reference and `PF_FIRST_PAGE`. -/
  order_eq : (next.state.pages (source + (2 ^ level - 2 ^ order))).order = order
  refcnt_eq : (next.state.pages (source + (2 ^ level - 2 ^ order))).refcnt = 1
  first_eq : (next.state.pages (source + (2 ^ level - 2 ^ order))).flags.firstPage = true
  /-- No page outside the block that was taken changes. -/
  frame : ∀ j, ¬Covers (source, level) j → next.state.pages j = w.state.pages j

variable {w : World} {lists : Nat → List Nat}

/-- Completing an allocation in the ledger. -/
theorem step_pulled {size start : Nat} {t : State} {after : Nat → List Nat}
    (loop : allocLoop w.state size 0 pageMaxDepth = .ok (start, t))
    (pulled : Pulled w.state t w.liveBlocks (sizeOrder size) start after) :
    w.step (.alloc size) = .ok
        ⟨markAllocated t start, Function.update w.live start (some ⟨sizeOrder size, 0⟩)⟩ ∧
      w.live start = none := by
  constructor
  · rw [step, buddyAlloc, loop]
    rfl
  · cases live : w.live start with
    | none => rfl
    | some block => exact absurd (mem_of_live live) (pulled.fresh block.order)

/-- Memory and ledger agree after the allocation. -/
theorem step_pulled_sound {order start : Nat} {t : State} {after : Nat → List Nat}
    (fresh : w.live start = none)
    (allocated : Allocated w.state t w.liveBlocks order start after) :
    (World.mk t (Function.update w.live start (some ⟨order, 0⟩))).Sound after := by
  apply sound_of_memory
  rw [liveBlocks_insert fresh]
  exact allocated.inv

/-- The page that is handed out is marked, the others keep their records. -/
theorem markAllocated_frame {s t : State} {start : Nat} {block : Nat × Nat}
    (inside : Covers block start) (frame : ∀ j, ¬Covers block j → t.pages j = s.pages j) (j : Nat)
    (outside : ¬Covers block j) : (markAllocated t start).pages j = s.pages j := by
  have differs : j ≠ start := fun same => outside (same ▸ inside)
  rw [markAllocated, State.setPage_pages, Function.update_of_ne differs]
  exact frame j outside

/-- A request is served from the least order that has a free block. -/
theorem step_bestFit (holds : w.Holds lists) {size level source : Nat} {rest : List Nat}
    (fits : size ≤ 2 ^ pageMaxOrder * pageSize) (order_le : sizeOrder size ≤ level)
    (level_le : level ≤ pageMaxOrder) (cons : lists level = source :: rest)
    (least : ∀ lower, sizeOrder size ≤ lower → lower < level → lists lower = []) :
    ∃ next after, w.step (.alloc size) = .ok next ∧ next.Sound after ∧
      BestFit w next lists after (sizeOrder size) level source := by
  obtain same | larger := order_le.eq_or_lt
  · subst same
    obtain ⟨t, loop, pulled, frame⟩ := allocLoop_of_cons holds.memory fits cons
    obtain ⟨served, fresh⟩ := step_pulled loop pulled
    have head : source + (2 ^ sizeOrder size - 2 ^ sizeOrder size) = source := by simp
    have allocated := pulled.allocated
    refine ⟨_, _, served, step_pulled_sound fresh allocated, ?_⟩
    constructor
    · exact le_rfl
    · exact level_le
    · exact least
    · rw [Function.update_self]
      exact cons
    · intro lower at_least below
      omega
    · intro other differs
      rw [Function.update_of_ne (by omega)]
    · rw [head]
      exact fresh
    · rw [head]
    · rw [head]
      exact allocated.order_eq
    · rw [head]
      exact allocated.refcnt_eq
    · rw [head]
      exact allocated.first_eq
    · exact markAllocated_frame (covers_start (source, _)) frame
  · obtain ⟨t, loop, pulled, frame⟩ :=
      allocLoop_of_split holds.memory fits larger level_le cons least
    obtain ⟨served, fresh⟩ := step_pulled loop pulled
    have level_eq : sizeOrder size + (level - sizeOrder size) = level := by omega
    have head : upperEnd (sizeOrder size) (level - sizeOrder size) source =
        source + (2 ^ level - 2 ^ sizeOrder size) := by
      rw [upperEnd, level_eq]
    have inside : Covers (source, level) (source + (2 ^ level - 2 ^ sizeOrder size)) := by
      have positive := Nat.two_pow_pos (sizeOrder size)
      have smaller : 2 ^ sizeOrder size ≤ 2 ^ level := Nat.pow_le_pow_right (by decide) order_le
      constructor
      · exact Nat.le_add_right _ _
      · simp only
        omega
    have allocated := pulled.allocated
    rw [head] at served fresh allocated
    refine ⟨_, _, served, step_pulled_sound fresh allocated, ?_⟩
    constructor
    · exact order_le
    · exact level_le
    · exact least
    · rw [splitLists_eq, if_neg (by omega), Function.update_self]
      exact cons
    · intro lower at_least below
      rw [splitLists_eq, if_pos (by omega), level_eq]
    · intro other differs
      rw [splitLists_eq, if_neg (by omega), Function.update_of_ne (by omega)]
    · exact fresh
    · rfl
    · exact allocated.order_eq
    · exact allocated.refcnt_eq
    · exact allocated.first_eq
    · exact markAllocated_frame inside frame

/-- A sound world has one representation only, so the lists are the ones of its invariant. -/
theorem Sound.holds {other : Nat → List Nat} (sound : w.Sound lists) (holds : w.Holds other) :
    w.Holds lists := by
  have same : ∀ order ≤ pageMaxOrder, lists order = other order := fun order order_le =>
    (sound.chain order order_le).unique (holds.memory.chain order order_le)
  have listed : ∀ i, Listed lists i ↔ Listed other i := by
    intro i
    constructor
    · rintro ⟨order, order_le, member⟩
      exact ⟨order, order_le, same order order_le ▸ member⟩
    · rintro ⟨order, order_le, member⟩
      exact ⟨order, order_le, (same order order_le).symm ▸ member⟩
  refine ⟨?_, holds.ordered, holds.counted, holds.quiet⟩
  constructor
  · exact sound.partition
  · exact fun _ mem => Set.disjoint_left.mp sound.apart mem
  · exact holds.memory.owned_le
  · exact sound.chain
  · exact sound.nodup
  · exact holds.memory.index_eq
  · intro i
    rw [listed i]
    exact holds.memory.free_flag i
  · intro order order_le i member
    rw [same order order_le] at member
    exact holds.memory.order_free order order_le i member
  · intro i unlisted
    rw [listed i] at unlisted
    exact holds.memory.next_none i unlisted

/-- A free block is large enough for a request. -/
def SomeFree (lists : Nat → List Nat) (order : Nat) : Prop :=
  ∃ level, order ≤ level ∧ level ≤ pageMaxOrder ∧ lists level ≠ []

/-- In every reached world a request of at most 4 MB is served from the smallest sufficient order
that has a free block, and panics exactly when there is none. -/
theorem alloc_best_fit {w : World} (reached : w.Reached) {lists : Nat → List Nat}
    (sound : w.Sound lists) {size : Nat} (fits : size ≤ 4 * 1024 * 1024) :
    (∀ order, size ≤ 2 ^ order * pageSize ↔ sizeOrder size ≤ order) ∧
    (SomeFree lists (sizeOrder size) → ∃ next after level source,
      w.step (.alloc size) = .ok next ∧ next.Sound after ∧
        BestFit w next lists after (sizeOrder size) level source) ∧
    ((∃ fault, w.step (.alloc size) = .error fault) ↔ ¬SomeFree lists (sizeOrder size)) := by
  obtain ⟨other, other_holds⟩ := reached.holds
  have holds := sound.holds other_holds
  have fits_order : size ≤ 2 ^ pageMaxOrder * pageSize := by
    simpa [pageMaxOrder, pageSize] using fits
  have served : SomeFree lists (sizeOrder size) → ∃ next after level source,
      w.step (.alloc size) = .ok next ∧ next.Sound after ∧
        BestFit w next lists after (sizeOrder size) level source := by
    intro some_free
    classical
    rw [SomeFree] at some_free
    obtain ⟨at_least, level_le, nonempty⟩ := Nat.find_spec some_free
    have below := fun order => Nat.find_min (H := some_free) (m := order)
    set level := Nat.find some_free
    obtain ⟨source, rest, cons⟩ := List.exists_cons_of_ne_nil nonempty
    have least : ∀ lower, sizeOrder size ≤ lower → lower < level → lists lower = [] := by
      intro lower lower_le lower_lt
      by_contra some_block
      exact below lower lower_lt ⟨lower_le, lower_lt.le.trans level_le, some_block⟩
    obtain ⟨next, after, step_eq, next_sound, best⟩ :=
      step_bestFit holds fits_order at_least level_le cons least
    exact ⟨next, after, level, source, step_eq, next_sound, best⟩
  refine ⟨size_le_iff size, served, ?_⟩
  constructor
  · rintro ⟨fault, failed⟩ some_free
    obtain ⟨next, after, level, source, step_eq, -⟩ := served some_free
    rw [step_eq] at failed
    cases failed
  · intro none_free
    have empty : ∀ order, sizeOrder size ≤ order → order ≤ pageMaxOrder → lists order = [] := by
      intro order at_least order_le
      by_contra some_block
      exact none_free ⟨order, at_least, order_le, some_block⟩
    refine ⟨.outOfMemory, ?_⟩
    rw [step, buddyAlloc, allocLoop_of_empty holds.memory fits_order empty]
    rfl

/-- After the first page, a request for two pages takes the pair that its split left. -/
theorem alloc_best_fit_two_pages :
    ∃ lists, onePage.Sound lists ∧
      ∃ next, onePage.step (.alloc 8192) = .ok next ∧ next.live 1020 = some ⟨1, 0⟩ := by
  obtain ⟨lists, holds⟩ := onePage_reached.holds
  obtain ⟨-, served, panics⟩ := alloc_best_fit onePage_reached holds.sound
    (show 8192 ≤ 4 * 1024 * 1024 by decide)
  refine ⟨lists, holds.sound, ?_⟩
  have some_free : SomeFree lists (sizeOrder 8192) := by
    by_contra none_free
    obtain ⟨fault, failed⟩ := panics.mpr none_free
    cases failed
  obtain ⟨next, after, level, source, step_eq, -⟩ := served some_free
  refine ⟨next, step_eq, ?_⟩
  cases step_eq
  rfl

end World
end Buddy
end Xv6Duo
