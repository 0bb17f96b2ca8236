import Xv6Duo.Buddy.Runs

/-!
# Interleaved calls of the buddy allocator

`buddy_alloc` and `buddy_free` as they interleave. A step is a section under `buddy_lock` or under
`pages_ref.lock`; the store of `PF_FIRST_PAGE` between the two sections of `buddy_alloc` belongs to
the second one. Between two sections a call may hold a block that is on no list. `buddy_free` gives
up `buddy_lock` after each merge and starts over with the merged block.
-/

namespace Xv6Duo
namespace Buddy

open DyadicPartition PointerChain GuardedRun

/-- What a call holds between two sections. -/
inductive InFlight
  /-- No call. -/
  | idle
  /-- `buddy_alloc` behind `buddy_lock`. -/
  | marking (i order : Nat)
  /-- `buddy_free` of a merged block, before `pages_ref.lock`. -/
  | entering (i order : Nat)
  /-- `buddy_free` behind `pages_ref.lock`. -/
  | freeing (i order : Nat)
  deriving DecidableEq

/-- The block of a call. -/
def InFlight.block : InFlight → Option (Nat × Nat)
  | .idle => none
  | .marking i order => some (i, order)
  | .entering i order => some (i, order)
  | .freeing i order => some (i, order)

/-- The allocator with its ledger and the calls in flight. -/
structure Crowd (ι : Type) where
  /-- Memory and ledger. -/
  world : World
  /-- Calls. -/
  call : ι → InFlight

/-- The sections. -/
inductive Section (ι : Type)
  /-- `buddy_alloc` under `buddy_lock`. -/
  | alloc (t : ι) (size : Nat)
  /-- `buddy_alloc` under `pages_ref.lock`. -/
  | mark (t : ι)
  /-- `page_refcnt_inc`. -/
  | inc (i : Nat)
  /-- `buddy_free` of a live block under `pages_ref.lock`. -/
  | free (t : ι) (i : Nat)
  /-- `buddy_free` of a merged block under `pages_ref.lock`. -/
  | enter (t : ι)
  /-- `buddy_free` under `buddy_lock`. -/
  | merge (t : ι)

/-- The section of `buddy_free` under `buddy_lock`. -/
def buddyFreeLocked (s : State) (i : Nat) : Except Fault Pass :=
  let page := s.pages i
  let bi := buddyFindBuddyIndex page
  let bp := s.pages bi
  let cleared := s.setPage i page.clearFirst
  if page.order = pageMaxOrder ∨ ¬buddyIsFreeBuddy page bp then
    .ok (.done (buddyListPush cleared page.order i))
  else do
    let detached := cleared.setPage i { (cleared.pages i).clearFree with next := none }
    let (removed, s) ← buddyListRemove detached page.order bi
    match removed with
    | none => .error .brokenPage
    | some p =>
        if (bi >>> page.order) % 2 = 1 then
          let s := s.setPage p { s.pages p with order := 0 }
          .ok (.merged i (s.setPage i { s.pages i with order := (s.pages i).order + 1 }))
        else
          let s := s.setPage i { s.pages i with order := 0 }
          .ok (.merged p (s.setPage p { s.pages p with order := (s.pages p).order + 1 }))

/-- The section of `buddy_free` under `pages_ref.lock`: the memory when the call returns. -/
def buddyFreeCounted (s : State) (i : Nat) : Option State :=
  let page := s.pages i
  if 1 < page.refcnt then some (s.setPage i { page with refcnt := page.refcnt - 1 }) else none

/-- The two sections follow each other when a call runs alone. -/
theorem buddyFreePass_sections (s : State) (i : Nat) :
    buddyFreePass s i =
      match buddyFreeCounted s i with
      | some s => .ok (.done s)
      | none => buddyFreeLocked s i := by
  rw [buddyFreePass, buddyFreeCounted]
  split
  · rfl
  · rfl

variable {ι : Type} [DecidableEq ι]

namespace Crowd

/-- The crowd after `buddy_init`. -/
def initial (ι : Type) : Crowd ι := ⟨World.initial, fun _ => .idle⟩

/-- One section, noted in the ledger. -/
def perform (w : Crowd ι) : Section ι → Except Fault (Crowd ι)
  | .alloc t size => do
      let (i, s) ← allocLoop w.world.state size 0 pageMaxDepth
      return ⟨⟨s, w.world.live⟩, Function.update w.call t (.marking i (sizeOrder size))⟩
  | .mark t =>
      match w.call t with
      | .marking i order =>
          .ok ⟨⟨markAllocated w.world.state i,
            Function.update w.world.live i (some ⟨order, 0⟩)⟩, Function.update w.call t .idle⟩
      | _ => .error .sleeps
  | .inc i =>
      .ok ⟨⟨pageRefcntInc w.world.state i,
        Function.update w.world.live i ((w.world.live i).map World.count)⟩, w.call⟩
  | .free t i =>
      match buddyFreeCounted w.world.state i with
      | some s =>
          .ok ⟨⟨s, Function.update w.world.live i ((w.world.live i).bind World.answer)⟩, w.call⟩
      | none =>
          .ok ⟨⟨w.world.state, Function.update w.world.live i none⟩,
            Function.update w.call t (.freeing i (w.world.state.pages i).order)⟩
  | .enter t =>
      match w.call t with
      | .entering i order =>
          match buddyFreeCounted w.world.state i with
          | some s => .ok ⟨⟨s, w.world.live⟩, Function.update w.call t .idle⟩
          | none => .ok ⟨w.world, Function.update w.call t (.freeing i order)⟩
      | _ => .error .sleeps
  | .merge t =>
      match w.call t with
      | .freeing i order => do
          match ← buddyFreeLocked w.world.state i with
          | .done s => return ⟨⟨s, w.world.live⟩, Function.update w.call t .idle⟩
          | .merged j s =>
              return ⟨⟨s, w.world.live⟩, Function.update w.call t (.entering j (order + 1))⟩
      | _ => .error .sleeps

/-- A call starts in a thread that is in none, and frees and references are of live blocks; no
reference is taken that the 32-bit counter cannot hold. -/
def Permits (w : Crowd ι) : Section ι → Prop
  | .alloc t _ => w.call t = .idle
  | .free t i => w.call t = .idle ∧ (w.world.live i).isSome
  | .inc i => (w.world.live i).isSome ∧ w.world.CounterFits (.inc i)
  | _ => True

instance (w : Crowd ι) : ∀ label : Section ι, Decidable (w.Permits label)
  | .alloc t _ => inferInstanceAs (Decidable (w.call t = .idle))
  | .free t i => inferInstanceAs (Decidable (w.call t = .idle ∧ (w.world.live i).isSome))
  | .inc i =>
      decidable_of_iff ((w.world.live i).isSome ∧
          (w.world.live i).all (·.outstanding + 2 < 2 ^ 32) = true) <| by
        simp [Permits, World.CounterFits, Option.all_eq_true]
  | .mark _ => inferInstanceAs (Decidable True)
  | .enter _ => inferInstanceAs (Decidable True)
  | .merge _ => inferInstanceAs (Decidable True)

/-- The blocks that calls hold. -/
def flight (w : Crowd ι) : Set (Nat × Nat) := {block | ∃ t, (w.call t).block = some block}

/-- The blocks that are not free. -/
def owned (w : Crowd ι) : Set (Nat × Nat) := w.world.liveBlocks ∪ w.flight

/-- Memory, ledger and calls agree. -/
structure Holds (w : Crowd ι) (lists : Nat → List Nat) : Prop where
  /-- Lists, live blocks and blocks of calls are represented. -/
  memory : Inv w.world.state lists w.owned
  /-- The heads of these blocks record their order. -/
  ordered : Ordered w.world.state w.owned
  /-- No two buddies are free. -/
  coalesced : Coalesced lists
  /-- The counter is one more than the outstanding references. -/
  counted : ∀ i block, w.world.live i = some block →
    (w.world.state.pages i).refcnt.toNat = block.outstanding + 1
  /-- A block that is being freed has nothing to count down. -/
  single : ∀ t i order, w.call t = .entering i order ∨ w.call t = .freeing i order →
    ¬1 < (w.world.state.pages i).refcnt
  /-- Other pages have nothing to count down. -/
  quiet : Quiet w.world.state w.owned
  /-- A block belongs to one call. -/
  exclusive : ∀ t u block, (w.call t).block = some block → (w.call u).block = some block → t = u
  /-- A block that a call holds is not live. -/
  held : ∀ t block, (w.call t).block = some block → w.world.live block.1 = none

variable {w : Crowd ι} {lists : Nat → List Nat}

/-! ## Who holds which block -/

/-- One call has moved on. -/
theorem mem_flight_update {world : World} {t : ι} {call : InFlight} {block : Nat × Nat}
    (exclusive : ∀ t u block, (w.call t).block = some block → (w.call u).block = some block →
      t = u) :
    block ∈ (Crowd.mk world (Function.update w.call t call)).flight ↔
      call.block = some block ∨ block ∈ w.flight ∧ (w.call t).block ≠ some block := by
  constructor
  · rintro ⟨u, holds⟩
    dsimp only at holds
    by_cases same : u = t
    · rw [same, Function.update_self] at holds
      exact Or.inl holds
    · rw [Function.update_of_ne same] at holds
      refine Or.inr ⟨⟨u, holds⟩, ?_⟩
      intro too
      exact same (exclusive u t block holds too)
  · rintro (holds | ⟨⟨u, holds⟩, other⟩)
    · refine ⟨t, ?_⟩
      dsimp only
      rw [Function.update_self]
      exact holds
    · refine ⟨u, ?_⟩
      have differs : u ≠ t := by
        rintro rfl
        exact other holds
      dsimp only
      rw [Function.update_of_ne differs]
      exact holds

omit [DecidableEq ι] in
/-- A block that a call holds is not live. -/
theorem Holds.not_live (holds : w.Holds lists) {t : ι} {block : Nat × Nat}
    (has : (w.call t).block = some block) : block ∉ w.world.liveBlocks := by
  intro live
  obtain ⟨entry, live, _⟩ := World.mem_liveBlocks.mp live
  rw [holds.held t block has] at live
  cases live

omit [DecidableEq ι] in
/-- A live block is held by no call. -/
theorem Holds.not_held (holds : w.Holds lists) {i : Nat} {entry : LiveBlock}
    (live : w.world.live i = some entry) (t : ι) (order : Nat) :
    (w.call t).block ≠ some (i, order) := by
  intro has
  have none_live := holds.held t (i, order) has
  dsimp only at none_live
  rw [live] at none_live
  cases none_live

/-- A call takes a block. -/
theorem Holds.owned_take (holds : w.Holds lists) {s : State} {t : ι} {call : InFlight}
    {block : Nat × Nat} (idle : w.call t = .idle) (takes : call.block = some block) :
    (Crowd.mk ⟨s, w.world.live⟩ (Function.update w.call t call)).owned = insert block w.owned := by
  ext other
  rw [owned, Set.mem_union, mem_flight_update holds.exclusive, takes, idle, Option.some.injEq,
    Set.mem_insert_iff, owned, Set.mem_union, eq_comm]
  have live_eq : (World.mk s w.world.live).liveBlocks = w.world.liveBlocks := rfl
  rw [live_eq, InFlight.block]
  tauto

/-- A call gives its block up. -/
theorem Holds.owned_drop (holds : w.Holds lists) {s : State} {t : ι} {block : Nat × Nat}
    (has : (w.call t).block = some block) :
    (Crowd.mk ⟨s, w.world.live⟩ (Function.update w.call t .idle)).owned = w.owned \ {block} := by
  ext other
  have apart := holds.not_live has
  rw [owned, Set.mem_union, mem_flight_update holds.exclusive, has, Ne, Option.some.injEq,
    Set.mem_sdiff, Set.mem_singleton_iff, owned, Set.mem_union]
  have live_eq : (World.mk s w.world.live).liveBlocks = w.world.liveBlocks := rfl
  have differs : other ∈ w.world.liveBlocks → ¬other = block := by
    rintro member rfl
    exact apart member
  rw [live_eq, InFlight.block, eq_comm]
  tauto

/-- A call goes on with another block. -/
theorem Holds.owned_swap (holds : w.Holds lists) {s : State} {t : ι} {call : InFlight}
    {before block : Nat × Nat} (has : (w.call t).block = some before)
    (takes : call.block = some block) :
    (Crowd.mk ⟨s, w.world.live⟩ (Function.update w.call t call)).owned =
      insert block (w.owned \ {before}) := by
  ext other
  have apart := holds.not_live has
  rw [owned, Set.mem_union, mem_flight_update holds.exclusive, has, takes, Ne, Option.some.injEq,
    Option.some.injEq, Set.mem_insert_iff, Set.mem_sdiff, Set.mem_singleton_iff, owned,
    Set.mem_union, eq_comm, @eq_comm _ before other]
  have live_eq : (World.mk s w.world.live).liveBlocks = w.world.liveBlocks := rfl
  have differs : other ∈ w.world.liveBlocks → ¬other = before := by
    rintro member rfl
    exact apart member
  rw [live_eq]
  tauto

/-- The block of a call becomes live. -/
theorem Holds.owned_mark (holds : w.Holds lists) {s : State} {t : ι} {entry : LiveBlock} {i : Nat}
    (has : (w.call t).block = some (i, entry.order)) :
    (Crowd.mk ⟨s, Function.update w.world.live i (some entry)⟩
      (Function.update w.call t .idle)).owned = w.owned := by
  ext other
  rw [owned, Set.mem_union, mem_flight_update holds.exclusive, has, Ne, Option.some.injEq,
    World.liveBlocks_insert (holds.held t _ has), Set.mem_insert_iff, owned, Set.mem_union,
    @eq_comm _ (i, entry.order) other]
  have member : other = (i, entry.order) → other ∈ w.flight := by
    rintro rfl
    exact ⟨t, has⟩
  rw [InFlight.block]
  tauto

/-- A live block is passed to a call. -/
theorem Holds.owned_free (holds : w.Holds lists) {s : State} {t : ι} {entry : LiveBlock} {i : Nat}
    {call : InFlight} (idle : w.call t = .idle) (live : w.world.live i = some entry)
    (takes : call.block = some (i, entry.order)) :
    (Crowd.mk ⟨s, Function.update w.world.live i none⟩
      (Function.update w.call t call)).owned = w.owned := by
  ext other
  rw [owned, Set.mem_union, mem_flight_update holds.exclusive, takes, idle,
    World.liveBlocks_erase live, Set.mem_sdiff, Set.mem_singleton_iff, Option.some.injEq, owned,
    Set.mem_union, @eq_comm _ (i, entry.order) other]
  have member : other = (i, entry.order) → other ∈ w.world.liveBlocks := by
    rintro rfl
    exact World.mem_of_live live
  rw [InFlight.block]
  tauto

/-- The fields about calls, when one call has moved on to a block that no other call holds. -/
theorem exclusive_update {t : ι} {call : InFlight}
    (exclusive : ∀ t u block, (w.call t).block = some block → (w.call u).block = some block →
      t = u)
    (fresh : ∀ block, call.block = some block → ∀ u, u ≠ t → (w.call u).block ≠ some block)
    {u v : ι} {block : Nat × Nat} (first : (Function.update w.call t call u).block = some block)
    (second : (Function.update w.call t call v).block = some block) : u = v := by
  by_cases here : u = t
  · by_cases there : v = t
    · rw [here, there]
    · rw [here, Function.update_self] at first
      rw [Function.update_of_ne there] at second
      exact absurd second (fresh block first v there)
  · rw [Function.update_of_ne here] at first
    by_cases there : v = t
    · rw [there, Function.update_self] at second
      exact absurd first (fresh block second u here)
    · rw [Function.update_of_ne there] at second
      exact exclusive u v block first second

omit [DecidableEq ι] in
theorem mem_owned_of_held {t : ι} {block : Nat × Nat} (has : (w.call t).block = some block) :
    block ∈ w.owned := Or.inr ⟨t, has⟩

omit [DecidableEq ι] in
theorem mem_owned_of_live {i : Nat} {entry : LiveBlock} (live : w.world.live i = some entry) :
    (i, entry.order) ∈ w.owned := Or.inl (World.mem_of_live live)

omit [DecidableEq ι] in
/-- The blocks of two calls have different heads. -/
theorem Holds.heads_ne (holds : w.Holds lists) {t u : ι} (differ : t ≠ u) {i j p q : Nat}
    (first : (w.call t).block = some (i, p)) (second : (w.call u).block = some (j, q)) :
    i ≠ j := by
  rintro rfl
  have same : p = q := holds.memory.order_unique (Or.inl (mem_owned_of_held first))
    (Or.inl (mem_owned_of_held second))
  rw [same] at first
  exact differ (holds.exclusive t u _ first second)

/-- What a call does with the block that it frees. -/
theorem block_of_frees {call : InFlight} {i order : Nat}
    (frees : call = .entering i order ∨ call = .freeing i order) :
    call.block = some (i, order) := by
  rcases frees with rfl | rfl <;> rfl

/-- One call has moved on; the others free what they freed. -/
theorem frees_update {t u : ι} {call : InFlight} {i order : Nat}
    (frees : Function.update w.call t call u = .entering i order ∨
      Function.update w.call t call u = .freeing i order) :
    (u = t ∧ (call = .entering i order ∨ call = .freeing i order)) ∨
      (u ≠ t ∧ (w.call u = .entering i order ∨ w.call u = .freeing i order)) := by
  by_cases same : u = t
  · rw [same, Function.update_self] at frees
    exact Or.inl ⟨same, frees⟩
  · rw [Function.update_of_ne same] at frees
    exact Or.inr ⟨same, frees⟩

/-- One call has moved on; the others hold what they held. -/
theorem block_update {t u : ι} {call : InFlight} {block : Nat × Nat}
    (has : (Function.update w.call t call u).block = some block) :
    (u = t ∧ call.block = some block) ∨ (u ≠ t ∧ (w.call u).block = some block) := by
  by_cases same : u = t
  · rw [same, Function.update_self] at has
    exact Or.inl ⟨same, has⟩
  · rw [Function.update_of_ne same] at has
    exact Or.inr ⟨same, has⟩

/-! ## One section -/

/-- A request that no list can serve. -/
theorem allocLoop_large {s : State} {size : Nat} (large : 2 ^ pageMaxOrder * pageSize < size)
    (order fuel : Nat) (depth : order + fuel = pageMaxDepth) :
    allocLoop s size order fuel = .error .noMemory := by
  induction fuel generalizing order with
  | zero => rfl
  | succ fuel ih =>
      have order_le : order ≤ pageMaxOrder := by
        simp only [pageMaxDepth] at depth
        omega
      have power := Nat.pow_le_pow_right (show 0 < 2 by decide) order_le
      have small := Nat.mul_le_mul_right pageSize power
      rw [allocLoop, if_neg (by omega)]
      exact ih (order + 1) (by omega)

/-- `buddy_alloc` under `buddy_lock` fails or takes a block. -/
theorem Holds.alloc (holds : w.Holds lists) {t : ι} (size : Nat) (idle : w.call t = .idle) :
    (∃ fault, w.perform (.alloc t size) = .error fault) ∨
      ∃ next after, w.perform (.alloc t size) = .ok next ∧ next.Holds after := by
  by_cases fits : size ≤ 2 ^ pageMaxOrder * pageSize
  · rcases allocLoop_spec holds.memory fits with full | ⟨start, s, after, loop, pulled, coalesced⟩
    · left
      refine ⟨.outOfMemory, ?_⟩
      rw [perform, full]
      rfl
    · right
      have owned_eq := holds.owned_take (s := s) idle
        (show (InFlight.marking start (sizeOrder size)).block = some _ from rfl)
      have none_live : w.world.live start = none := by
        by_contra live
        obtain ⟨entry, live⟩ := Option.ne_none_iff_exists'.mp live
        exact pulled.fresh _ (mem_owned_of_live live)
      refine ⟨_, after, by rw [perform, loop]; rfl, ?_⟩
      constructor
      case memory =>
        rw [owned_eq]
        exact pulled.inv
      case ordered =>
        rw [owned_eq]
        rintro block (rfl | member)
        · exact pulled.order_eq
        · have untouched := pulled.frame block member
          dsimp only at untouched ⊢
          rw [untouched]
          exact holds.ordered block member
      case coalesced => exact coalesced holds.coalesced
      case counted =>
        intro i entry live
        have untouched := pulled.frame _ (mem_owned_of_live live)
        dsimp only at untouched ⊢
        rw [untouched]
        exact holds.counted i entry live
      case single =>
        intro u i order frees
        rcases frees_update frees with ⟨_, frees⟩ | ⟨_, frees⟩
        · rcases frees with frees | frees <;> cases frees
        · have untouched := pulled.frame _ (mem_owned_of_held (block_of_frees frees))
          dsimp only at untouched ⊢
          rw [untouched]
          exact holds.single u i order frees
      case quiet =>
        rw [owned_eq]
        intro i outside
        obtain ⟨refcnt_eq, first_eq⟩ := pulled.marks i
        dsimp only
        rw [refcnt_eq, first_eq]
        exact holds.quiet i fun order member => outside order (Set.mem_insert_of_mem _ member)
      case exclusive =>
        intro u v block first second
        refine exclusive_update holds.exclusive ?_ first second
        rintro _ same x _ has
        cases same
        exact pulled.fresh _ (mem_owned_of_held has)
      case held =>
        intro u block has
        rcases block_update has with ⟨_, has⟩ | ⟨_, has⟩
        · cases has
          exact none_live
        · exact holds.held u block has
  · left
    refine ⟨.noMemory, ?_⟩
    rw [perform, allocLoop_large (Nat.lt_of_not_le fits) 0 pageMaxDepth (Nat.zero_add _)]
    rfl

/-- `buddy_alloc` under `pages_ref.lock` makes its block live. -/
theorem Holds.mark (holds : w.Holds lists) {t : ι} {i order : Nat}
    (marking : w.call t = .marking i order) :
    Holds ⟨⟨markAllocated w.world.state i, Function.update w.world.live i (some ⟨order, 0⟩)⟩,
      Function.update w.call t .idle⟩ lists := by
  have has : (w.call t).block = some (i, order) := by
    rw [marking]
    rfl
  have owned_eq : owned ⟨⟨markAllocated w.world.state i,
      Function.update w.world.live i (some ⟨order, 0⟩)⟩, Function.update w.call t .idle⟩ =
      w.owned := holds.owned_mark has
  constructor
  case memory =>
    rw [owned_eq]
    exact holds.memory.setPage rfl rfl rfl fun _ => rfl
  case ordered =>
    rw [owned_eq]
    intro block member
    have recorded := holds.ordered block member
    by_cases same : block.1 = i
    · simpa [markAllocated, Page.markFirst, same] using recorded
    · simpa [markAllocated, Function.update_of_ne same] using recorded
  case coalesced => exact holds.coalesced
  case counted =>
    intro j entry live
    dsimp only at live ⊢
    by_cases same : j = i
    · subst same
      rw [Function.update_self] at live
      cases live
      simp [markAllocated]
    · rw [Function.update_of_ne same] at live
      rw [markAllocated, State.setPage_pages, Function.update_of_ne same]
      exact holds.counted j entry live
  case single =>
    intro u j level frees
    rcases frees_update frees with ⟨_, frees⟩ | ⟨differs, frees⟩
    · rcases frees with frees | frees <;> cases frees
    · have apart : j ≠ i := holds.heads_ne differs (block_of_frees frees) has
      dsimp only
      rw [markAllocated, State.setPage_pages, Function.update_of_ne apart]
      exact holds.single u j level frees
  case quiet =>
    rw [owned_eq]
    intro j outside
    have differs : j ≠ i := by
      rintro rfl
      exact outside order (mem_owned_of_held has)
    dsimp only
    rw [markAllocated, State.setPage_pages, Function.update_of_ne differs]
    exact holds.quiet j outside
  case exclusive =>
    intro u v block first second
    refine exclusive_update holds.exclusive ?_ first second
    intro _ none_held
    cases none_held
  case held =>
    intro u block other
    rcases block_update other with ⟨_, none_held⟩ | ⟨differs, other⟩
    · cases none_held
    · have apart : block.1 ≠ i := holds.heads_ne (j := i) differs other has
      dsimp only
      rw [Function.update_of_ne apart]
      exact holds.held u block other

omit [DecidableEq ι] in
/-- Replacing the counter of a live head, and the outstanding references with it. -/
theorem Holds.recount (holds : w.Holds lists) {i count : Nat} {entry : LiveBlock}
    {refcnt : UInt32} (live : w.world.live i = some entry) (refcnt_eq : refcnt.toNat = count + 1) :
    Holds ⟨⟨w.world.state.setPage i { w.world.state.pages i with refcnt := refcnt },
      Function.update w.world.live i (some { entry with outstanding := count })⟩, w.call⟩
      lists := by
  have live_eq := World.liveBlocks_same
    (s := w.world.state.setPage i { w.world.state.pages i with refcnt := refcnt })
    (a := { entry with outstanding := count }) live rfl
  have owned_eq : owned ⟨⟨w.world.state.setPage i { w.world.state.pages i with refcnt := refcnt },
      Function.update w.world.live i (some { entry with outstanding := count })⟩, w.call⟩ =
      w.owned := by
    rw [owned, live_eq]
    rfl
  constructor
  case memory =>
    rw [owned_eq]
    exact holds.memory.setPage rfl rfl rfl fun _ => rfl
  case ordered =>
    rw [owned_eq]
    intro block member
    have recorded := holds.ordered block member
    by_cases same : block.1 = i
    · simpa [same] using recorded
    · simpa [Function.update_of_ne same] using recorded
  case coalesced => exact holds.coalesced
  case counted =>
    intro j other other_live
    dsimp only at other_live ⊢
    by_cases same : j = i
    · subst same
      rw [Function.update_self] at other_live
      cases other_live
      simpa using refcnt_eq
    · rw [Function.update_of_ne same] at other_live
      rw [State.setPage_pages, Function.update_of_ne same]
      exact holds.counted j other other_live
  case single =>
    intro u j order frees
    have differs : j ≠ i := by
      rintro rfl
      exact holds.not_held live u order (block_of_frees frees)
    dsimp only
    rw [State.setPage_pages, Function.update_of_ne differs]
    exact holds.single u j order frees
  case quiet =>
    rw [owned_eq]
    intro j outside
    have differs : j ≠ i := by
      rintro rfl
      exact outside _ (mem_owned_of_live live)
    dsimp only
    rw [State.setPage_pages, Function.update_of_ne differs]
    exact holds.quiet j outside
  case exclusive => exact holds.exclusive
  case held =>
    intro u block has
    have differs : block.1 ≠ i := by
      rintro rfl
      exact holds.not_held live u block.2 has
    dsimp only
    rw [Function.update_of_ne differs]
    exact holds.held u block has

/-- `page_refcnt_inc` counts a reference. -/
theorem Holds.inc (holds : w.Holds lists) {i : Nat} {entry : LiveBlock}
    (live : w.world.live i = some entry) (fits : entry.outstanding + 2 < 2 ^ 32) :
    ∃ next, w.perform (.inc i) = .ok next ∧ next.Holds lists := by
  refine ⟨_, rfl, ?_⟩
  have counted := holds.counted i entry live
  have next_count : ((w.world.state.pages i).refcnt + 1).toNat = entry.outstanding + 1 + 1 := by
    rw [UInt32.toNat_add, counted, UInt32.toNat_one, Nat.mod_eq_of_lt fits]
  rw [live]
  exact holds.recount live next_count

/-- `buddy_free` under `pages_ref.lock` counts a reference down or takes the block over. -/
theorem Holds.free (holds : w.Holds lists) {t : ι} {i : Nat} {entry : LiveBlock}
    (idle : w.call t = .idle) (live : w.world.live i = some entry) :
    ∃ next, w.perform (.free t i) = .ok next ∧ next.Holds lists := by
  have counted := holds.counted i entry live
  by_cases last : entry.outstanding = 0
  · have alone : ¬1 < (w.world.state.pages i).refcnt := by
      rw [UInt32.lt_iff_toNat_lt, counted, UInt32.toNat_one]
      omega
    have goes : buddyFreeCounted w.world.state i = none := if_neg alone
    have recorded : (w.world.state.pages i).order = entry.order :=
      holds.ordered _ (mem_owned_of_live live)
    have owned_eq := holds.owned_free (s := w.world.state) idle live
      (show (InFlight.freeing i entry.order).block = some _ from rfl)
    refine ⟨_, by rw [perform, goes], ?_⟩
    rw [recorded]
    constructor
    case memory =>
      rw [owned_eq]
      exact holds.memory
    case ordered =>
      rw [owned_eq]
      exact holds.ordered
    case coalesced => exact holds.coalesced
    case counted =>
      intro j other other_live
      have differs : j ≠ i := by
        rintro rfl
        simp at other_live
      dsimp only at other_live
      rw [Function.update_of_ne differs] at other_live
      exact holds.counted j other other_live
    case single =>
      intro u j order frees
      rcases frees_update frees with ⟨_, frees⟩ | ⟨_, frees⟩
      · rcases frees with frees | frees
        · cases frees
        · cases frees
          exact alone
      · exact holds.single u j order frees
    case quiet =>
      rw [owned_eq]
      exact holds.quiet
    case exclusive =>
      intro u v block first second
      refine exclusive_update holds.exclusive ?_ first second
      intro other same x _
      cases same
      exact holds.not_held live x entry.order
    case held =>
      intro u block has
      dsimp only
      rcases block_update has with ⟨_, same⟩ | ⟨_, other⟩
      · cases same
        rw [Function.update_self]
      · have differs : block.1 ≠ i := by
          rintro rfl
          exact holds.not_held live u block.2 other
        rw [Function.update_of_ne differs]
        exact holds.held u block other
  · have shared : 1 < (w.world.state.pages i).refcnt := by
      rw [UInt32.lt_iff_toNat_lt, counted, UInt32.toNat_one]
      omega
    have down : buddyFreeCounted w.world.state i = some (w.world.state.setPage i
        { w.world.state.pages i with refcnt := (w.world.state.pages i).refcnt - 1 }) :=
      if_pos shared
    have answered : (w.world.live i).bind World.answer =
        some { entry with outstanding := entry.outstanding - 1 } := by
      simp [live, World.answer, last]
    refine ⟨_, by rw [perform, down, answered], ?_⟩
    apply holds.recount live
    have one_le : (1 : UInt32) ≤ (w.world.state.pages i).refcnt := by
      rw [UInt32.le_iff_toNat_le, counted, UInt32.toNat_one]
      omega
    rw [UInt32.toNat_sub_of_le _ _ one_le, counted, UInt32.toNat_one]
    omega

/-- `buddy_free` goes on with a merged block. -/
theorem Holds.enter (holds : w.Holds lists) {t : ι} {i order : Nat}
    (entering : w.call t = .entering i order) :
    ∃ next, w.perform (.enter t) = .ok next ∧ next.Holds lists := by
  have alone := holds.single t i order (Or.inl entering)
  have goes : buddyFreeCounted w.world.state i = none := if_neg alone
  have has : (w.call t).block = some (i, order) := by
    rw [entering]
    rfl
  have owned_eq : owned ⟨w.world, Function.update w.call t (.freeing i order)⟩ = w.owned := by
    have swapped := holds.owned_swap (s := w.world.state) has
      (show (InFlight.freeing i order).block = some _ from rfl)
    rw [Set.insert_sdiff_singleton, Set.insert_eq_of_mem (mem_owned_of_held has)] at swapped
    exact swapped
  refine ⟨⟨w.world, Function.update w.call t (.freeing i order)⟩,
    by simp only [perform, entering, goes], ?_⟩
  constructor
  case memory =>
    rw [owned_eq]
    exact holds.memory
  case ordered =>
    rw [owned_eq]
    exact holds.ordered
  case coalesced => exact holds.coalesced
  case counted => exact holds.counted
  case single =>
    intro u j level frees
    rcases frees_update frees with ⟨_, frees⟩ | ⟨_, frees⟩
    · rcases frees with frees | frees
      · cases frees
      · cases frees
        exact alone
    · exact holds.single u j level frees
  case quiet =>
    rw [owned_eq]
    exact holds.quiet
  case exclusive =>
    intro u v block first second
    refine exclusive_update holds.exclusive ?_ first second
    intro other same x differs too
    cases same
    exact differs (holds.exclusive x t _ too has)
  case held =>
    intro u block other
    rcases block_update other with ⟨_, same⟩ | ⟨_, other⟩
    · cases same
      exact holds.held t (i, order) has
    · exact holds.held u block other

omit [DecidableEq ι] in
/-- A block that is pushed leaves no two buddies on its list. -/
theorem Holds.coalesced_push (holds : w.Holds lists) {i order : Nat} (member : (i, order) ∈ w.owned)
    (alone : order = pageMaxOrder ∨
      ¬buddyIsFreeBuddy (w.world.state.pages i) (w.world.state.pages (buddy i order))) :
    Coalesced (Function.update lists order (i :: lists order)) := by
  intro level level_lt j listed other
  by_cases same : level = order
  · subst same
    have recorded : (w.world.state.pages i).order = level := holds.ordered _ member
    -- The buddy of the block would have been found free.
    have none_free : buddy i level ∉ lists level := by
      intro free
      rcases alone with top | busy
      · omega
      · apply busy
        have flag := (holds.memory.free_flag _).mpr ⟨level, level_lt.le, free⟩
        have order_eq := holds.memory.order_free level level_lt.le _ free
        simp [buddyIsFreeBuddy, flag, order_eq, recorded]
    rw [Function.update_self] at listed other
    rcases List.mem_cons.mp listed with rfl | listed
    · rcases List.mem_cons.mp other with same | other
      · exact buddy_ne j level same
      · exact none_free other
    · rcases List.mem_cons.mp other with same | other
      · have aligned : 2 ^ level ∣ j :=
          holds.memory.partition.aligned (j, level) (Or.inr ⟨level_lt.le, listed⟩)
        rw [← same, buddy_buddy aligned] at none_free
        exact none_free listed
      · exact holds.coalesced level level_lt j listed other
  · rw [Function.update_of_ne same] at listed other
    exact holds.coalesced level level_lt j listed other

/-- `buddy_free` under `buddy_lock` puts its block on a list or merges it. -/
theorem Holds.merge (holds : w.Holds lists) {t : ι} {i order : Nat}
    (freeing : w.call t = .freeing i order) :
    ∃ next after, w.perform (.merge t) = .ok next ∧ next.Holds after := by
  have alone := holds.single t i order (Or.inr freeing)
  have has : (w.call t).block = some (i, order) := by
    rw [freeing]
    rfl
  have member := mem_owned_of_held has
  have recorded : (w.world.state.pages i).order = order := holds.ordered _ member
  have locked : buddyFreeLocked w.world.state i = buddyFreePass w.world.state i := by
    rw [buddyFreePass_sections, show buddyFreeCounted w.world.state i = none from if_neg alone]
  by_cases stays : order = pageMaxOrder ∨
      ¬buddyIsFreeBuddy (w.world.state.pages i) (w.world.state.pages (buddy i order))
  · obtain ⟨s, pass, released⟩ := buddyFreePass_done holds.memory member recorded alone stays
    have owned_eq := holds.owned_drop (s := s) has
    refine ⟨⟨⟨s, w.world.live⟩, Function.update w.call t .idle⟩,
      Function.update lists order (i :: lists order),
      by simp only [perform, freeing, locked, pass]; rfl, ?_⟩
    constructor
    case memory =>
      rw [owned_eq]
      exact released.inv
    case ordered =>
      rw [owned_eq]
      rintro block ⟨inside, differs⟩
      rw [released.orders block inside differs]
      exact holds.ordered block inside
    case coalesced => exact holds.coalesced_push member stays
    case counted =>
      intro j entry live
      dsimp only
      rw [released.refcnt j]
      exact holds.counted j entry live
    case single =>
      intro u j level frees
      dsimp only
      rw [released.refcnt j]
      rcases frees_update frees with ⟨_, frees⟩ | ⟨_, frees⟩
      · rcases frees with frees | frees <;> cases frees
      · exact holds.single u j level frees
    case quiet =>
      rw [owned_eq]
      intro j outside
      dsimp only
      rw [released.refcnt j]
      by_cases same : j = i
      · subst same
        exact ⟨alone, released.first_self⟩
      · rw [released.first j same]
        refine holds.quiet j fun level inside => outside level ⟨inside, ?_⟩
        exact fun equal => same (congrArg Prod.fst equal)
    case exclusive =>
      intro u v block first second
      refine exclusive_update holds.exclusive ?_ first second
      intro _ none_held
      cases none_held
    case held =>
      intro u block other
      rcases block_update other with ⟨_, none_held⟩ | ⟨_, other⟩
      · cases none_held
      · exact holds.held u block other
  · rw [not_or, not_not] at stays
    have order_lt : order < pageMaxOrder := lt_of_le_of_ne (holds.memory.owned_le _ member) stays.1
    obtain ⟨j, s, after, pass, merged, fewer⟩ :=
      buddyFreePass_merged holds.memory holds.quiet member recorded alone order_lt stays.2
    have owned_eq := holds.owned_swap (s := s) has
      (show (InFlight.entering j (order + 1)).block = some _ from rfl)
    have not_owned : ∀ level, (j, level) ∈ w.owned → (j, level) = (i, order) := by
      intro level inside
      by_contra differs
      have same : level = order + 1 :=
        merged.inv.order_unique (Or.inl (Or.inr ⟨inside, differs⟩)) (Or.inl (Or.inl rfl))
      subst same
      exact merged.fresh ⟨inside, differs⟩
    refine ⟨⟨⟨s, w.world.live⟩, Function.update w.call t (.entering j (order + 1))⟩, after,
      by simp only [perform, freeing, locked, pass]; rfl, ?_⟩
    constructor
    case memory =>
      rw [owned_eq]
      exact merged.inv
    case ordered =>
      rw [owned_eq]
      rintro block (rfl | ⟨inside, differs⟩)
      · exact merged.order_eq
      · rw [merged.orders block inside differs]
        exact holds.ordered block inside
    case coalesced => exact holds.coalesced.subset fewer
    case counted =>
      intro k entry live
      dsimp only
      rw [merged.refcnt k]
      exact holds.counted k entry live
    case single =>
      intro u k level frees
      dsimp only
      rcases frees_update frees with ⟨_, frees⟩ | ⟨_, frees⟩
      · rcases frees with frees | frees
        · cases frees
          exact merged.single
        · cases frees
      · rw [merged.refcnt k]
        exact holds.single u k level frees
    case quiet =>
      rw [owned_eq]
      intro k outside
      dsimp only
      rw [merged.refcnt k]
      by_cases same : k = i
      · subst same
        exact ⟨alone, merged.first_self⟩
      · rw [merged.first k same]
        refine holds.quiet k fun level inside => outside level (Or.inr ⟨inside, ?_⟩)
        exact fun equal => same (congrArg Prod.fst equal)
    case exclusive =>
      intro u v block first second
      refine exclusive_update holds.exclusive ?_ first second
      intro _ same x differs other
      cases same
      have equal := not_owned (order + 1) (mem_owned_of_held other)
      exact holds.heads_ne differs other has (congrArg Prod.fst equal)
    case held =>
      intro u block other
      rcases block_update other with ⟨_, same⟩ | ⟨_, other⟩
      · cases same
        dsimp only
        by_contra live
        obtain ⟨entry, live⟩ := Option.ne_none_iff_exists'.mp live
        have head_eq : j = i := congrArg Prod.fst (not_owned entry.order (mem_owned_of_live live))
        rw [head_eq] at live
        exact holds.not_held live t order has
      · exact holds.held u block other

/-! ## Runs -/

omit [DecidableEq ι] in
theorem initial_holds : (initial ι).Holds World.initialLists := by
  have started := World.initial_holds
  have owned_eq : (initial ι).owned = World.initial.liveBlocks := by
    ext block
    simp [owned, flight, initial, InFlight.block]
  constructor
  case memory =>
    rw [owned_eq]
    exact started.memory
  case ordered =>
    rw [owned_eq]
    exact started.ordered
  case coalesced =>
    intro order order_lt i member
    rw [World.mem_initialLists] at member
    omega
  case counted => exact started.counted
  case single =>
    intro t i order frees
    rcases frees with frees | frees <;> cases frees
  case quiet =>
    rw [owned_eq]
    exact started.quiet
  case exclusive =>
    intro t u block has
    cases has
  case held =>
    intro t block has
    cases has

/-- A section keeps the invariant. -/
theorem Holds.perform (holds : w.Holds lists) {label : Section ι} {next : Crowd ι}
    (permitted : w.Permits label) (succeeds : w.perform label = .ok next) :
    ∃ after, next.Holds after := by
  have of_eq : ∀ {other after}, w.perform label = .ok other → other.Holds after →
      ∃ after, next.Holds after := by
    intro other after same other_holds
    rw [succeeds] at same
    cases same
    exact ⟨after, other_holds⟩
  cases label with
  | alloc t size =>
      rcases holds.alloc size permitted with ⟨fault, fails⟩ | ⟨other, after, same, kept⟩
      · rw [succeeds] at fails
        cases fails
      · exact of_eq same kept
  | mark t =>
      cases call : w.call t with
      | marking i order =>
          refine of_eq ?_ (holds.mark call)
          simp only [Crowd.perform, call]
      | _ => simp [Crowd.perform, call] at succeeds
  | inc i =>
      obtain ⟨entry, live⟩ := Option.isSome_iff_exists.mp permitted.1
      obtain ⟨other, same, kept⟩ := holds.inc live (permitted.2 entry live)
      exact of_eq same kept
  | free t i =>
      obtain ⟨entry, live⟩ := Option.isSome_iff_exists.mp permitted.2
      obtain ⟨other, same, kept⟩ := holds.free permitted.1 live
      exact of_eq same kept
  | enter t =>
      cases call : w.call t with
      | entering i order =>
          obtain ⟨other, same, kept⟩ := holds.enter call
          exact of_eq same kept
      | _ => simp [Crowd.perform, call] at succeeds
  | merge t =>
      cases call : w.call t with
      | freeing i order =>
          obtain ⟨other, after, same, kept⟩ := holds.merge call
          exact of_eq same kept
      | _ => simp [Crowd.perform, call] at succeeds

omit [DecidableEq ι] in
/-- When everything is given back, the lists hold what they held after `buddy_init`. -/
theorem Holds.all_free (holds : w.Holds lists) (none_live : ∀ i, w.world.live i = none)
    (none_called : ∀ t, w.call t = .idle) :
    (∀ order < pageMaxOrder, lists order = []) ∧
      (lists pageMaxOrder).Perm (World.initialLists pageMaxOrder) := by
  have nothing : w.owned = ∅ := by
    ext block
    simp [owned, flight, World.liveBlocks, none_live, none_called, InFlight.block]
  have partition : IsPartition pageNum (freeBlocks lists) := by
    have whole := holds.memory.partition
    rwa [nothing, Set.empty_union] at whole
  have top : ∀ block ∈ freeBlocks lists, block.2 = pageMaxOrder := by
    intro block member
    refine partition.order_eq_top (two_pow_dvd_pageNum le_rfl) (fun _ free => free.1) ?_ member
    intro start order order_lt free other
    exact holds.coalesced order order_lt start free.2 other.2
  constructor
  · intro order order_lt
    rw [List.eq_nil_iff_forall_not_mem]
    intro i member
    have equal : order = pageMaxOrder := top (i, order) ⟨order_lt.le, member⟩
    omega
  · have initial_nodup := World.initial_holds.memory.nodup pageMaxOrder le_rfl
    rw [List.perm_ext_iff_of_nodup (holds.memory.nodup _ le_rfl) initial_nodup]
    intro i
    rw [World.mem_initialLists]
    constructor
    · intro member
      have free : (i, pageMaxOrder) ∈ freeBlocks lists := ⟨le_rfl, member⟩
      exact ⟨rfl, partition.aligned _ free, partition.start_lt free⟩
    · rintro ⟨_, aligned, inside⟩
      obtain ⟨block, free, covers⟩ := partition.covered i inside
      have order_eq := top block free
      have block_aligned : 1024 ∣ block.1 := by
        have := partition.aligned block free
        rwa [order_eq] at this
      obtain ⟨lower, upper⟩ := covers
      rw [order_eq, pageMaxOrder] at upper
      have start_eq : block.1 = i := by omega
      have member := free.2
      rwa [order_eq, start_eq] at member

/-- However `buddy_alloc` and `buddy_free` interleave, every block is live, on one free list or held
by one call, no two buddies are free, the sections of a call in flight succeed, and the lists hold
the largest blocks again once everything is given back. -/
theorem interleaved_sound (reached : Reaches Permits perform (initial ι) w) :
    ∃ lists,
      (∀ order ≤ pageMaxOrder, (lists order).Nodup ∧
        IsChain (fun i => (w.world.state.pages i).next) (w.world.state.freeLists order)
          (lists order)) ∧
      IsPartition pageNum (w.world.liveBlocks ∪ w.flight ∪ freeBlocks lists) ∧
      (Disjoint w.world.liveBlocks w.flight ∧
        Disjoint (w.world.liveBlocks ∪ w.flight) (freeBlocks lists)) ∧
      (∀ t u block, (w.call t).block = some block → (w.call u).block = some block → t = u) ∧
      (∀ order < pageMaxOrder, ∀ i ∈ lists order, buddy i order ∉ lists order) ∧
      (∀ t i order, (w.call t = .entering i order → ∃ next, w.perform (.enter t) = .ok next) ∧
        (w.call t = .freeing i order → ∃ next, w.perform (.merge t) = .ok next)) ∧
      ((∀ i, w.world.live i = none) → (∀ t, w.call t = .idle) →
        (∀ order < pageMaxOrder, lists order = []) ∧
          (lists pageMaxOrder).Perm ((List.range (pageNum / 1024)).map (· * 1024))) := by
  have invariant : ∃ lists, w.Holds lists := by
    refine reached.invariant (fun w => ∃ lists, w.Holds lists) ⟨_, initial_holds⟩ ?_
    rintro state next label ⟨lists, holds⟩ permitted succeeds
    exact holds.perform permitted succeeds
  obtain ⟨lists, holds⟩ := invariant
  refine ⟨lists, ?_, holds.memory.partition, ⟨?_, ?_⟩, holds.exclusive, holds.coalesced, ?_,
    holds.all_free⟩
  · intro order order_le
    exact ⟨holds.memory.nodup order order_le, holds.memory.chain order order_le⟩
  · rw [Set.disjoint_left]
    rintro block live ⟨t, has⟩
    exact holds.not_live has live
  · rw [Set.disjoint_left]
    exact holds.memory.apart
  · intro t i order
    constructor
    · intro entering
      obtain ⟨next, succeeds, _⟩ := holds.enter entering
      exact ⟨next, succeeds⟩
    · intro freeing
      obtain ⟨next, after, succeeds, _⟩ := holds.merge freeing
      exact ⟨next, succeeds⟩

/-- Two calls take the two halves of a block and give them back at the same time; the halves merge
up to the largest block. -/
theorem interleaved_sound_two_pages : ∃ w : Crowd Bool,
    Reaches Permits perform (initial Bool) w ∧
      w.world.live 1022 = none ∧ w.world.state.freeLists 0 = none ∧
      ∃ lists, IsPartition pageNum (w.world.liveBlocks ∪ w.flight ∪ freeBlocks lists) := by
  obtain ⟨w, reached, passes⟩ :=
    GuardedRun.exists_reaches_of_replay Permits perform (initial Bool)
      ([.alloc false 4096, .alloc true 4096, .mark true, .mark false, .free false 1023,
        .free true 1022, .merge false, .merge true] ++
        (List.replicate 10 [.enter true, .merge true]).flatten)
      (fun w => w.world.live 1022 = none ∧ w.world.state.freeLists 0 = none) (by decide +kernel)
  obtain ⟨freed, empty⟩ := of_decide_eq_true passes
  obtain ⟨lists, _, partition, _⟩ := interleaved_sound reached
  exact ⟨w, reached, freed, empty, lists, partition⟩

end Crowd
end Buddy
end Xv6Duo
