import Xv6Duo.Buddy.FirstPage
import Xv6Duo.Slab.Runs

/-!
# A slab cache on the page allocator

A cache whose slabs come from `buddy_alloc`, beside all other users of the page allocator. Every
slab is a live block, so a new slab is fresh as the runs of the cache require, and the block head
that `page.c` finds from an address inside a slab is the header of the slab.
-/

namespace Xv6Duo
namespace Slab

open DyadicPartition GuardedRun

/-- The page allocator and a cache. -/
structure Machine where
  /-- Pages. -/
  pages : Buddy.World
  /-- The cache. -/
  cache : World

/-- Calls on the two. -/
inductive Event
  /-- `slab_cache_alloc`. -/
  | alloc
  /-- `slab_cache_free`. -/
  | free (obj : Nat)
  /-- A call of another user of the page allocator. -/
  | other (call : Buddy.Call)

/-- The header that `slab_cache_free` takes an object to have: `page_address` of `page_find_head` of
`page_find_by_address`. -/
def headerOf (s : Buddy.State) (obj : Nat) : Option Nat :=
  (Buddy.pageFindByAddress obj).bind fun index =>
    (Buddy.pageFindHead s (s.pages index)).map fun head => Buddy.pageAddress (s.pages head)

namespace Machine

/-- One call. Only without a partial slab `slab_new` asks `buddy_alloc` for `slab_size` bytes. -/
def step (m : Machine) : Event → Except Fault Machine
  | .alloc =>
      match m.cache.state.slabsPartial with
      | some _ => do
          let cache ← m.cache.step (.alloc 0)
          return { m with cache := cache }
      | none => do
          let size := m.cache.state.shape.slabSize.toNat
          let (i, s) ← Buddy.buddyAlloc m.pages.state size
          let cache ← m.cache.step (.alloc (Buddy.pageAddress (s.pages i)))
          return ⟨⟨s, Function.update m.pages.live i (some ⟨Buddy.sizeOrder size, 0⟩)⟩, cache⟩
  | .free obj => do
      let cache ← m.cache.step (.free obj)
      return { m with cache := cache }
  | .other call => do
      let pages ← m.pages.step call
      return { m with pages := pages }

/-- Live objects are released, and the other users keep to their own blocks. -/
def Permits (m : Machine) : Event → Prop
  | .alloc => True
  | .free obj => obj ∈ m.cache.live
  | .other call => m.pages.Admitted call ∧ m.pages.CounterFits call ∧
      ∀ i, call = .free i → Buddy.pageAddress (m.pages.state.pages i) ∉ m.cache.state.slabs

end Machine

/-! ## Slabs in the calls of the cache -/

theorem takeObject_slabs (s : State) (slab : Nat) : (takeObject s slab).2.slabs = s.slabs := by
  rw [takeObject]
  dsimp only
  split <;> rfl

/-- The search for a full slab changes lists only. -/
theorem moveLoop_slabs {s t : State} {slab fuel : Nat} {before head : Option Nat}
    (moved : moveLoop s slab fuel before head = .ok t) :
    t.slabs = s.slabs ∧ t.shape = s.shape := by
  induction fuel generalizing before head with
  | zero => cases moved
  | succ fuel ih =>
      cases head with
      | none => cases moved
      | some h =>
          rw [moveLoop] at moved
          split at moved
          · cases moved
            cases before <;> exact ⟨rfl, rfl⟩
          · exact ih moved

theorem slabCacheAlloc_slabs (s : State) (fresh : Nat) :
    (slabCacheAlloc s fresh).2.slabs =
      if s.slabsPartial.isSome then s.slabs else fresh :: s.slabs := by
  rw [slabCacheAlloc]
  cases s.slabsPartial with
  | none => exact takeObject_slabs _ _
  | some slab => exact takeObject_slabs _ _

theorem slabCacheFree_slabs {s t : State} {obj : Nat} {exit : Exit}
    (freed : slabCacheFree s obj = .ok (exit, t)) : t.slabs = s.slabs ∧ t.shape = s.shape := by
  rw [slabCacheFree] at freed
  split at freed
  · cases freed
  · dsimp only at freed
    split at freed
    · rw [Except.bind_eq_ok] at freed
      obtain ⟨moved, loop, result⟩ := freed
      cases result
      have kept := moveLoop_slabs loop
      exact kept
    · cases freed
      exact ⟨rfl, rfl⟩

/-! ## Slabs are live blocks -/

/-- The slabs of the cache are blocks that `buddy_alloc` gave for them and that are still live. -/
def Backed (m : Machine) : Prop :=
  ∀ slab ∈ m.cache.state.slabs, ∃ i block, m.pages.live i = some block ∧
    block.order = Buddy.sizeOrder m.cache.state.shape.slabSize.toNat ∧
    slab = Buddy.pageStart + Buddy.pageSize * i

/-- The slab sizes are those of blocks. -/
def Whole (shape : Shape) : Prop := ∃ i ≤ 10, shape.slabSize.toNat = 4096 * 2 ^ i

theorem Whole.size_eq {shape : Shape} (whole : Whole shape) :
    shape.slabSize.toNat = Buddy.pageSize * 2 ^ Buddy.sizeOrder shape.slabSize.toNat ∧
      shape.slabSize.toNat ≤ 4 * 1024 * 1024 := by
  obtain ⟨i, i_le, size_eq⟩ := whole
  have pages : Buddy.pageSize = 4096 := rfl
  have order_eq : Buddy.sizeOrder shape.slabSize.toNat = i := by
    apply Nat.le_antisymm
    · rw [← Buddy.size_le_iff, size_eq, pages, Nat.mul_comm]
    · have enough := (Buddy.size_le_iff shape.slabSize.toNat _).mpr le_rfl
      generalize Buddy.sizeOrder shape.slabSize.toNat = order at enough ⊢
      rw [size_eq, pages, Nat.mul_comm] at enough
      rw [← Nat.pow_le_pow_iff_right (show 1 < 2 by decide)]
      exact Nat.le_of_mul_le_mul_right enough (by decide)
  have largest := Nat.pow_le_pow_right (show 0 < 2 by decide) i_le
  rw [order_eq]
  exact ⟨size_eq, by omega⟩

/-- The block that `buddy_alloc` gives for a slab. -/
theorem alloc_block {w : Buddy.World} (reached : w.Reached) {size i : Nat} {s : Buddy.State}
    (fits : size ≤ 4 * 1024 * 1024) (served : Buddy.buddyAlloc w.state size = .ok (i, s)) :
    Buddy.World.Reached ⟨s, Function.update w.live i (some ⟨Buddy.sizeOrder size, 0⟩)⟩ ∧
      w.live i = none ∧
      Buddy.pageAddress (s.pages i) = Buddy.pageStart + Buddy.pageSize * i := by
  obtain ⟨lists, holds⟩ := reached.holds
  have step_eq : w.step (.alloc size) =
      .ok ⟨s, Function.update w.live i (some ⟨Buddy.sizeOrder size, 0⟩)⟩ := by
    rw [Buddy.World.step, served]
    rfl
  have next_reached := Reaches.tail reached
    (show w.Admitted (.alloc size) ∧ w.CounterFits (.alloc size) from ⟨fits, trivial⟩) step_eq
  obtain ⟨after, next_holds⟩ := Buddy.World.Reached.holds next_reached
  refine ⟨next_reached, ?_, ?_⟩
  · have small : size ≤ 2 ^ Buddy.pageMaxOrder * Buddy.pageSize := by
      simpa [Buddy.pageMaxOrder, Buddy.pageSize] using fits
    obtain full | ⟨start, t, after, other, allocated⟩ := Buddy.buddyAlloc_spec holds.memory small
    · rw [served] at full
      cases full
    · rw [served] at other
      cases other
      cases live : w.live i with
      | none => rfl
      | some block => exact absurd (Buddy.World.mem_of_live live) (allocated.fresh block.order)
  · have index_eq := next_holds.memory.index_eq i
    dsimp only at index_eq
    rw [Buddy.pageAddress, index_eq]

/-- A block stays live, of its order, in every call that does not release it. -/
theorem live_kept {w next : Buddy.World} (reached : w.Reached) {call : Buddy.Call} {i : Nat}
    {block : Buddy.LiveBlock} (admitted : w.Admitted call) (succeeds : w.step call = .ok next)
    (live : w.live i = some block) (kept : call ≠ .free i) :
    ∃ other, next.live i = some other ∧ other.order = block.order := by
  cases call with
  | alloc size =>
      rw [Buddy.World.step, Except.bind_eq_ok] at succeeds
      obtain ⟨⟨start, s⟩, served, result⟩ := succeeds
      cases result
      have none_live := (alloc_block reached admitted served).2.1
      have differs : i ≠ start := by
        rintro rfl
        rw [none_live] at live
        cases live
      exact ⟨block, (Function.update_of_ne differs _ _).trans live, rfl⟩
  | inc page =>
      cases succeeds
      by_cases same : i = page
      · subst same
        refine ⟨Buddy.World.count block, (Function.update_self _ _ _).trans ?_, rfl⟩
        rw [live]
        rfl
      · exact ⟨block, (Function.update_of_ne same _ _).trans live, rfl⟩
  | free page =>
      rw [Buddy.World.step, Except.bind_eq_ok] at succeeds
      obtain ⟨s, freed, result⟩ := succeeds
      cases result
      have differs : i ≠ page := fun same => kept (congrArg Buddy.Call.free same.symm)
      exact ⟨block, (Function.update_of_ne differs _ _).trans live, rfl⟩

/-- Two live blocks lie apart. -/
theorem blocks_apart {w : Buddy.World} (reached : w.Reached) {i j : Nat}
    {first second : Buddy.LiveBlock} (first_live : w.live i = some first)
    (second_live : w.live j = some second) (differs : i ≠ j) :
    i + 2 ^ first.order ≤ j ∨ j + 2 ^ second.order ≤ i := by
  obtain ⟨lists, holds⟩ := reached.holds
  have partition := holds.memory.partition
  have first_mem := Or.inl (b := (i, first.order) ∈ Buddy.freeBlocks lists)
    (Buddy.World.mem_of_live first_live)
  have second_mem := Or.inl (b := (j, second.order) ∈ Buddy.freeBlocks lists)
    (Buddy.World.mem_of_live second_live)
  by_contra overlap
  rw [not_or, not_le, not_le] at overlap
  rcases Nat.le_total i j with before | after
  · have same := partition.eq_of_covers_start first_mem second_mem ⟨before, overlap.1⟩
    exact differs (congrArg Prod.fst same)
  · have same := partition.eq_of_covers_start second_mem first_mem ⟨after, overlap.2⟩
    exact differs (congrArg Prod.fst same).symm

/-- A live block lies inside the pages. -/
theorem block_bounded {w : Buddy.World} (reached : w.Reached) {i : Nat} {block : Buddy.LiveBlock}
    (live : w.live i = some block) : i + 2 ^ block.order ≤ Buddy.pageNum := by
  obtain ⟨lists, holds⟩ := reached.holds
  exact holds.memory.partition.bounded _ (Or.inl (Buddy.World.mem_of_live live))

/-- What a run keeps. -/
structure Joined (s : State) (m : Machine) : Prop where
  /-- The page allocator sees one of its own runs. -/
  pages : m.pages.Reached
  /-- The cache sees one of its own runs. -/
  cache : Reaches World.Permits World.step ⟨s, []⟩ m.cache
  /-- The sizes stay. -/
  shape : m.cache.state.shape = s.shape
  /-- Slabs are live blocks. -/
  backed : Backed m

namespace Joined

variable {s : State} {m next : Machine}

/-- A slab that is fresh for the page allocator is fresh for the cache. -/
theorem fresh (joined : Joined s m) (whole : Whole s.shape) {i : Nat} {t : Buddy.State}
    (served : Buddy.buddyAlloc m.pages.state m.cache.state.shape.slabSize.toNat = .ok (i, t)) :
    Fresh m.cache.state (Buddy.pageAddress (t.pages i)) := by
  rw [← joined.shape] at whole
  obtain ⟨size_eq, fits⟩ := whole.size_eq
  obtain ⟨next_reached, none_live, address_eq⟩ := alloc_block joined.pages fits served
  have own := Function.update_self i
    (some ⟨Buddy.sizeOrder m.cache.state.shape.slabSize.toNat, 0⟩) m.pages.live
  have bounded := block_bounded next_reached own
  have page_eq : Buddy.pageSize = 4096 := rfl
  have start_eq : Buddy.pageStart = 4096 * 0x80600 := rfl
  have pages_eq : Buddy.pageNum = 63488 := rfl
  rw [address_eq, Fresh]
  rw [page_eq] at size_eq ⊢
  rw [pages_eq] at bounded
  dsimp only at bounded
  refine ⟨?_, by omega, ?_⟩
  · change 4096 ∣ _
    rw [start_eq, ← Nat.mul_add]
    exact Nat.dvd_mul_right _ _
  · intro slab member
    obtain ⟨j, block, live, order_eq, rfl⟩ := joined.backed slab member
    have differs : j ≠ i := by
      rintro rfl
      rw [none_live] at live
      cases live
    have other := (Function.update_of_ne differs
      (some ⟨Buddy.sizeOrder m.cache.state.shape.slabSize.toNat, 0⟩) m.pages.live).trans live
    have apart := blocks_apart next_reached own other (Ne.symm differs)
    rw [order_eq] at apart
    dsimp only at apart
    rw [page_eq]
    omega

/-- While a slab has a free object, no block is asked for, and page 0 stands for it. -/
theorem fresh_zero (joined : Joined s m) (whole : Whole s.shape) : Fresh m.cache.state 0 := by
  rw [← joined.shape] at whole
  have fits := whole.size_eq.2
  refine ⟨Nat.dvd_zero _, by omega, ?_⟩
  intro slab member
  obtain ⟨i, block, -, -, rfl⟩ := joined.backed slab member
  left
  have start_eq : Buddy.pageStart = 0x80600000 := rfl
  omega

/-- Slabs stay backed when the slabs and their blocks stay. -/
theorem backed_of (joined : Joined s m) (shape : next.cache.state.shape = m.cache.state.shape)
    (slabs : ∀ slab ∈ next.cache.state.slabs, slab ∈ m.cache.state.slabs)
    (live : ∀ i block, m.pages.live i = some block →
      Buddy.pageStart + Buddy.pageSize * i ∈ m.cache.state.slabs →
      ∃ other, next.pages.live i = some other ∧ other.order = block.order) :
    Backed next := by
  intro slab member
  obtain ⟨i, block, block_live, order_eq, rfl⟩ := joined.backed slab (slabs slab member)
  obtain ⟨other, other_live, same⟩ := live i block block_live (slabs _ member)
  exact ⟨i, other, other_live, by rw [shape, same, order_eq], rfl⟩

/-- Every permitted call that succeeds keeps the two together. -/
theorem step (joined : Joined s m) (whole : Whole s.shape) {event : Event}
    (permitted : m.Permits event) (succeeds : m.step event = .ok next) : Joined s next := by
  cases event with
  | alloc =>
      rw [Machine.step] at succeeds
      split at succeeds
      · next slab partial_eq =>
          cases succeeds
          have shape := Sound.slabCacheAlloc_shape m.cache.state 0
          have slabs := slabCacheAlloc_slabs m.cache.state 0
          rw [partial_eq, Option.isSome_some, if_pos rfl] at slabs
          have permits : m.cache.Permits (.alloc 0) := joined.fresh_zero whole
          constructor
          · exact joined.pages
          · exact joined.cache.tail permits rfl
          · exact shape.trans joined.shape
          · refine joined.backed_of shape ?_ fun i block live _ => ⟨block, live, rfl⟩
            intro b member
            change b ∈ (slabCacheAlloc m.cache.state 0).2.slabs at member
            rwa [slabs] at member
      · next partial_eq =>
          rw [Except.bind_eq_ok] at succeeds
          obtain ⟨⟨i, t⟩, served, result⟩ := succeeds
          cases result
          have is_fresh := joined.fresh whole served
          have fits := (joined.shape ▸ whole : Whole m.cache.state.shape).size_eq.2
          obtain ⟨reached, none_live, address_eq⟩ := alloc_block joined.pages fits served
          have shape := Sound.slabCacheAlloc_shape m.cache.state (Buddy.pageAddress (t.pages i))
          have slabs := slabCacheAlloc_slabs m.cache.state (Buddy.pageAddress (t.pages i))
          rw [partial_eq, Option.isSome_none, if_neg (by decide)] at slabs
          have permits : m.cache.Permits (.alloc (Buddy.pageAddress (t.pages i))) := is_fresh
          constructor
          · exact reached
          · exact joined.cache.tail permits rfl
          · exact shape.trans joined.shape
          · intro b member
            change b ∈ (slabCacheAlloc m.cache.state _).2.slabs at member
            rw [slabs] at member
            rcases List.mem_cons.mp member with rfl | old
            · refine ⟨i, _, Function.update_self _ _ _, ?_, address_eq⟩
              exact congrArg (fun shape : Shape => Buddy.sizeOrder shape.slabSize.toNat) shape.symm
            · obtain ⟨j, block, live, order_eq, rfl⟩ := joined.backed b old
              have differs : j ≠ i := by
                rintro rfl
                rw [none_live] at live
                cases live
              refine ⟨j, block, (Function.update_of_ne differs _ _).trans live, ?_, rfl⟩
              exact order_eq.trans
                (congrArg (fun shape : Shape => Buddy.sizeOrder shape.slabSize.toNat) shape.symm)
  | free obj =>
      rw [Machine.step, Except.bind_eq_ok] at succeeds
      obtain ⟨cache, freed, result⟩ := succeeds
      cases result
      have is_live : m.cache.Permits (.free obj) := permitted
      have cache_next := joined.cache.tail is_live freed
      rw [World.step, Except.bind_eq_ok] at freed
      obtain ⟨⟨exit, t⟩, freed, result⟩ := freed
      cases result
      obtain ⟨slabs, shape⟩ := slabCacheFree_slabs freed
      constructor
      · exact joined.pages
      · exact cache_next
      · exact shape.trans joined.shape
      · refine joined.backed_of shape ?_ fun i block live _ => ⟨block, live, rfl⟩
        intro b member
        change b ∈ t.slabs at member
        rwa [slabs] at member
  | other call =>
      rw [Machine.step, Except.bind_eq_ok] at succeeds
      obtain ⟨pages, called, result⟩ := succeeds
      cases result
      obtain ⟨admitted, fits, keeps⟩ := permitted
      obtain ⟨lists, holds⟩ := joined.pages.holds
      constructor
      · exact joined.pages.tail ⟨admitted, fits⟩ called
      · exact joined.cache
      · exact joined.shape
      · refine joined.backed_of rfl (fun _ member => member) ?_
        intro i block live member
        apply live_kept joined.pages admitted called live
        intro released
        apply keeps i released
        rw [Buddy.pageAddress, holds.memory.index_eq]
        exact member

end Joined

/-- The caches that `slab_cache_create` makes have whole blocks as slabs, and none yet. -/
theorem slabCacheCreate_whole {length : Nat} {size alignment : UInt32} {s : State}
    (created : slabCacheCreate length size alignment = some s) : Whole s.shape ∧ s.slabs = [] := by
  rw [slabCacheCreate] at created
  split at created
  · cases created
  · split at created
    · cases created
    · rw [Option.map_eq_some_iff] at created
      obtain ⟨slabSize, found, rfl⟩ := created
      obtain ⟨i, i_le, pages, -⟩ := findSlabSize_spec found
      exact ⟨⟨i, i_le, pages⟩, rfl⟩

/-- The runs of a cache beside the other users of the pages. -/
def Machine.ReachedFrom (s : State) (m : Machine) : Prop :=
  Reaches Machine.Permits Machine.step ⟨Buddy.World.initial, ⟨s, []⟩⟩ m

theorem Machine.ReachedFrom.joined {length : Nat} {size alignment : UInt32} {s : State}
    {m : Machine} (created : slabCacheCreate length size alignment = some s)
    (reached : m.ReachedFrom s) : Joined s m := by
  obtain ⟨whole, no_slabs⟩ := slabCacheCreate_whole created
  refine reached.invariant (Joined s) ?_ fun joined => joined.step whole
  constructor
  · exact .refl
  · exact .refl
  · rfl
  · simp [Backed, no_slabs]

/-- From an address inside a slab the header of the slab is found. -/
theorem Joined.headerOf_eq {s : State} {m : Machine} (joined : Joined s m) (whole : Whole s.shape)
    {slab obj : Nat} (member : slab ∈ m.cache.state.slabs) (lower : slab ≤ obj)
    (upper : obj < slab + m.cache.state.shape.slabSize.toNat) :
    headerOf m.pages.state obj = some slab := by
  rw [← joined.shape] at whole
  have size_eq := whole.size_eq.1
  obtain ⟨lists, holds⟩ := joined.pages.holds
  obtain ⟨i, block, live, order_eq, rfl⟩ := joined.backed slab member
  rw [← order_eq] at size_eq
  -- The page and the offset of the address in it.
  have positive : 0 < Buddy.pageSize := by decide
  obtain ⟨distance, rfl⟩ := Nat.exists_eq_add_of_le lower
  have distance_lt : distance / Buddy.pageSize < 2 ^ block.order := by
    rw [Nat.div_lt_iff_lt_mul positive, Nat.mul_comm, ← size_eq]
    omega
  have split_eq : Buddy.pageStart + Buddy.pageSize * i + distance =
      Buddy.pageStart + Buddy.pageSize * (i + distance / Buddy.pageSize) +
        distance % Buddy.pageSize := by
    rw [Nat.mul_add, Nat.add_assoc, Nat.add_assoc, Nat.add_assoc, Nat.div_add_mod]
  have inside : Covers (i, block.order) (i + distance / Buddy.pageSize) :=
    ⟨Nat.le_add_right _ _, Nat.add_lt_add_left distance_lt i⟩
  obtain ⟨page_lt, found⟩ := joined.pages.pageFindHead_eq (Buddy.World.mem_of_live live) inside
  rw [headerOf, split_eq, Buddy.pageFindByAddress_eq page_lt (Nat.mod_lt _ positive),
    Option.bind_some, found, Option.map_some, Buddy.pageAddress, holds.memory.index_eq]

/-- With a size that does not wrap, the objects of the cache lie in its slabs. -/
theorem Joined.live_inside {length : Nat} {size alignment : UInt32} {s : State} {m : Machine}
    (joined : Joined s m) (sized : Sized size alignment)
    (created : slabCacheCreate length size alignment = some s) {obj : Nat}
    (live : obj ∈ m.cache.live) :
    ∃ slab ∈ m.cache.state.slabs, slab ≤ obj ∧ obj < slab + m.cache.state.shape.slabSize.toNat ∧
      pageFindHead m.cache.state obj = some slab := by
  have valid := slabCacheCreate_valid sized created
  have run := joined.cache.invariant
    (fun w : World => ∃ fulls partials free, Sound w fulls partials free)
    ⟨_, _, _, Sound.initial created valid.roomy⟩
    (by
      rintro w next call ⟨fulls, partials, free, sound⟩ permitted succeeds
      exact (sound.step permitted succeeds).2)
  obtain ⟨fulls, partials, free, sound⟩ := run
  rw [← joined.shape] at valid
  have positive := valid.positive
  obtain ⟨-, slab, member, numbers, lower, upper, ends⟩ := sound.live_inside valid live
  have before : slab ≤ obj := by omega
  have inside : obj < slab + m.cache.state.shape.slabSize.toNat := by omega
  exact ⟨slab, member, before, inside, sound.pageFindHead_eq member before inside⟩

/-- In every reached state of the page allocator `page_find_head` of a page inside a live block is
the head of the block. So for every address inside a slab of a cache `slab_cache_free` finds the
header of the slab, and the objects of the cache are such addresses. -/
theorem find_head_exact {w : Buddy.World} (reached : w.Reached) :
    (∀ i order, (i, order) ∈ w.liveBlocks → ∀ page, Covers (i, order) page →
      Buddy.pageFindHead w.state (w.state.pages page) = some i) ∧
    ∀ length size alignment s, slabCacheCreate length size alignment = some s →
      ∀ cache, Machine.ReachedFrom s ⟨w, cache⟩ →
        (∀ slab ∈ cache.state.slabs, ∀ obj, slab ≤ obj →
          obj < slab + cache.state.shape.slabSize.toNat → headerOf w.state obj = some slab) ∧
        (Sized size alignment → ∀ obj ∈ cache.live, ∃ slab ∈ cache.state.slabs,
          slab ≤ obj ∧ obj < slab + cache.state.shape.slabSize.toNat ∧
            headerOf w.state obj = some slab ∧ pageFindHead cache.state obj = some slab) := by
  constructor
  · intro i order mem page inside
    exact (reached.pageFindHead_eq mem inside).2
  · intro length size alignment s created cache run
    have joined := run.joined created
    have whole := (slabCacheCreate_whole created).1
    constructor
    · intro slab member obj lower upper
      exact joined.headerOf_eq whole member lower upper
    · intro sized obj live
      obtain ⟨slab, member, lower, upper, search⟩ := joined.live_inside sized created live
      exact ⟨slab, member, lower, upper, joined.headerOf_eq whole member lower upper, search⟩

/-- A new cache of 88-byte objects. -/
def objects88 : State :=
  ⟨⟨4096, 88, 0⟩, none, none, fun _ => ⟨none, 0, 0⟩, fun _ _ => 0, []⟩

/-- The cache with its first object, in the last page of the first block. -/
def firstObject : World :=
  let (obj, s) := slabCacheAlloc objects88 0x809FF000
  ⟨s, [obj]⟩

/-- The header of the first object is found. -/
theorem find_head_exact_first_object :
    slabCacheCreate 11 88 0 = some objects88 ∧
      Machine.ReachedFrom objects88 ⟨Buddy.World.onePage, firstObject⟩ ∧
      firstObject.live = [0x809FF0CC] ∧
      headerOf Buddy.World.onePage.state 0x809FF0CC = some 0x809FF000 := by
  have created : slabCacheCreate 11 88 0 = some objects88 := rfl
  have run : Machine.ReachedFrom objects88 ⟨Buddy.World.onePage, firstObject⟩ := by
    have permits : Machine.Permits ⟨Buddy.World.initial, ⟨objects88, []⟩⟩ .alloc := trivial
    exact Reaches.tail .refl permits rfl
  have found := ((find_head_exact Buddy.World.onePage_reached).2 11 88 0 _ created _ run).1
  exact ⟨created, run, rfl, found 0x809FF000 List.mem_cons_self _ (by decide) (by decide)⟩

end Slab
end Xv6Duo
