import Mathlib.Tactic
import Xv6Duo.Library.Ensures
import Xv6Duo.Vm.CopyModel
import Xv6Duo.Vm.Runs

/-!
# What `uvmcopy` copies

The loops of `uvmcopy` pass the pages that the parent maps below `USERTOP` in the order of their
addresses. Each pass maps one page of the child, either to the page of the parent or to a new page
with the same words, and writes no page that the parent uses.
-/

namespace Xv6Duo
namespace Vm

open RadixTree Except

/-! ## Addresses -/

theorem vaOf_eq (i j k : Fin 512) :
    vaOf i j k = i.val * 2 ^ 30 + j.val * 2 ^ 21 + k.val * 2 ^ 12 := by
  have k_low : k.val <<< 12 < 2 ^ 21 := by
    rw [Nat.shiftLeft_eq]
    omega
  have j_low : j.val <<< 21 < 2 ^ 30 := by
    rw [Nat.shiftLeft_eq]
    omega
  have upper : i.val <<< 30 ||| j.val <<< 21 = (i.val * 2 ^ 9 + j.val) <<< 21 := by
    rw [← Nat.shiftLeft_add_eq_or_of_lt j_low]
    simp only [Nat.shiftLeft_eq]
    omega
  rw [vaOf, upper, ← Nat.shiftLeft_add_eq_or_of_lt k_low]
  simp only [Nat.shiftLeft_eq]
  omega

theorem px_vaOf (i j k : Fin 512) :
    px 2 (vaOf i j k) = i ∧ px 1 (vaOf i j k) = j ∧ px 0 (vaOf i j k) = k := by
  refine ⟨Fin.ext ?_, Fin.ext ?_, Fin.ext ?_⟩
  all_goals
    rw [px_val, pxshift, vaOf_eq]
    omega

theorem dvd_vaOf (i j k : Fin 512) : pgsize ∣ vaOf i j k := by
  rw [vaOf_eq, pgsize]
  omega

theorem vaOf_px {va : Nat} (va_page : pgsize ∣ va) (low : va < maxva) :
    vaOf (px 2 va) (px 1 va) (px 0 va) = va ∧ (px 2 va).val < 256 := by
  have bound : maxva = 2 ^ 38 := by decide
  rw [vaOf_eq]
  simp only [px_val, pxshift]
  rw [pgsize] at va_page
  omega

/-- The three pages of the inner test are those from `USERTOP` on. -/
theorem vaOf_lt_usertop {i j k : Fin 512} (low : i.val < 256) :
    vaOf i j k < usertop ↔ ¬ (i.val = 255 ∧ j.val = 511 ∧ 509 ≤ k.val) := by
  have bound : usertop = 2 ^ 38 - 3 * 2 ^ 12 := by decide
  rw [vaOf_eq, bound]
  omega

theorem usertop_le : usertop ≤ maxva := by decide

/-! ## Regions -/

/-- An address lies in a region of shared memory. -/
def SharedAt (regions : List Region) (va : Nat) : Prop :=
  ∃ region ∈ regions, region.Contains va ∧ region.flags &&& mapShared ≠ 0

/-- No address lies in two regions. -/
def DisjointRegions (regions : List Region) : Prop :=
  regions.Pairwise fun a b => ∀ va, a.Contains va → ¬ b.Contains va

/-- The region that `uvmcopy` finds decides about sharing. -/
theorem isShared_iff {regions : List Region} (disjoint : DisjointRegions regions) (va : Nat) :
    isShared regions va = true ↔ SharedAt regions va := by
  induction regions with
  | nil =>
      constructor
      · intro shared
        cases shared
      · rintro ⟨region, member, _⟩
        cases member
  | cons first regions ih =>
      obtain ⟨apart, disjoint⟩ := List.pairwise_cons.mp disjoint
      by_cases inside : first.Contains va
      · have found : findMmapRegion (first :: regions) va = some first := by
          simp [findMmapRegion, inside]
        rw [isShared, found]
        dsimp only
        rw [decide_eq_true_iff]
        constructor
        · intro shared
          exact ⟨first, List.mem_cons_self, inside, shared⟩
        · rintro ⟨region, member, contains, shared⟩
          rcases List.mem_cons.mp member with rfl | later
          · exact shared
          · exact absurd contains (apart region later va inside)
      · have skip : isShared (first :: regions) va = isShared regions va := by
          simp [isShared, findMmapRegion, inside]
        rw [skip, ih disjoint]
        constructor
        · rintro ⟨region, member, rest⟩
          exact ⟨region, List.mem_cons_of_mem first member, rest⟩
        · rintro ⟨region, member, contains, shared⟩
          rcases List.mem_cons.mp member with rfl | later
          · exact absurd contains inside
          · exact ⟨region, later, contains, shared⟩

/-! ## A page of the child -/

/-- A call of `mappages` for one page that succeeds. -/
theorem Tree.mappages_page {memory after : Memory} {root va pa perm : Nat}
    {tables pages left : List Nat} (tree : Tree memory root tables)
    (supplied : Supplied tables pages) (va_page : pgsize ∣ va) (low : va < maxva)
    (returns : Vm.mappages memory root va pgsize pa perm pages = .ok (0, after, left)) :
    Mapped memory after root va (mapEntry pa perm) tables pages left := by
  have bound : maxva = 2 ^ 38 := by decide
  have size : pgsize = 4096 := rfl
  have first : pgrounddown va = va := by
    rw [pgrounddown_eq (by omega), Nat.div_mul_cancel va_page]
  have last : pgrounddown ((va + pgsize - 1) % 2 ^ 64) = va := by
    rw [Nat.mod_eq_of_lt (by omega), pgrounddown_eq (by omega)]
    rw [size] at va_page ⊢
    omega
  rw [Vm.mappages, if_neg (by decide), first, last, manyPages] at returns
  rcases mapLoop_round perm (2 ^ 26) pa va tree supplied va_page low with
    ⟨_, _, fails⟩ | ⟨_, panics⟩ | ⟨middle, rest, mapped, continues⟩
  · rw [fails] at returns
    cases returns
  · rw [panics] at returns
    cases returns
  · rw [continues, if_pos rfl] at returns
    cases returns
    exact mapped

/-- The memory of a parent and of a child that was just made. -/
structure Fork where
  /-- Memory. -/
  memory : Memory
  /-- Reference counters. -/
  refcnt : Nat → UInt32
  /-- `old->regions`. -/
  regions : List Region
  /-- `old->pagetable`. -/
  old : Nat
  /-- `new->pagetable`. -/
  new : Nat
  /-- Tables of the parent. -/
  tables : List Nat
  /-- Tables of the child. -/
  newTables : List Nat
  /-- What `kalloc` hands out. -/
  pages : List Nat
  /-- The page table of the parent. -/
  parent : Tree memory old tables
  /-- The page table of the child. -/
  child : Tree memory new newTables
  /-- The child maps nothing below `USERTOP`. -/
  empty : ∀ va, pgsize ∣ va → va < usertop → lookup memory new va = none
  /-- The tables of the child are not in use by the parent. -/
  apart : ∀ table ∈ newTables, table ∉ tables ∧ ¬ IsMapped memory old table
  /-- `kalloc` hands out pages once. -/
  distinct : pages.Nodup
  /-- They are not in use. -/
  fresh : ∀ page ∈ pages, IsPage page ∧ page ≠ 0 ∧ page ∉ tables ∧ page ∉ newTables ∧
    ¬ IsMapped memory old page
  /-- The regions are disjoint. -/
  disjoint : DisjointRegions regions

/-- The page of the child: that of the parent in shared memory, else one that `kalloc` gave. -/
def Target (regions : List Region) (used tabs : List Nat) (va pa pa' : Nat) : Prop :=
  (isShared regions va = true ∧ pa' = pa) ∨
    (isShared regions va = false ∧ pa' ∈ used ∧ pa' ∉ tabs)

theorem Target.mono {regions : List Region} {used tabs used' tabs' : List Nat} {va pa pa' : Nat}
    (target : Target regions used tabs va pa pa') (more : used ⊆ used') (not_table : pa' ∉ tabs') :
    Target regions used' tabs' va pa pa' := by
  rcases target with shared | ⟨unshared, taken, _⟩
  · exact Or.inl shared
  · exact Or.inr ⟨unshared, more taken, not_table⟩

/-- The pages `done` were copied; the pages `used` came from `kalloc`, and the child has the tables
`tabs` now. -/
structure Progress (f : Fork) (done used tabs : List Nat) (memory : Memory) (pages : List Nat) :
    Prop where
  /-- What `kalloc` has left. -/
  split : f.pages = used ++ pages
  /-- The page table of the child. -/
  tree : Tree memory f.new tabs
  /-- Its tables are old ones or came from `kalloc`. -/
  tabs_from : ∀ table ∈ tabs, table ∈ f.newTables ∨ table ∈ used
  /-- No page was written that was in use before, but tables of the child. -/
  frame : ∀ page, page ∉ used → page ∉ f.newTables → memory page = f.memory page
  /-- The pages were mapped by the parent, and copied once. -/
  done_mapped : done.Nodup ∧ ∀ va ∈ done, pgsize ∣ va ∧ va < usertop
  /-- Other addresses are mapped as before. -/
  others : ∀ va, pgsize ∣ va → va < maxva → va ∉ done →
    lookup memory f.new va = lookup f.memory f.new va
  /-- The child maps the page of the parent, or a copy. -/
  copied : ∀ va ∈ done, ∃ pa flags pa', lookup f.memory f.old va = some (pa, flags) ∧
    lookup memory f.new va = some (pa', flags ||| pteV ||| pteA ||| pteD) ∧
    memory pa' = f.memory pa ∧ Target f.regions used tabs va pa pa'
  /-- No two addresses have one copy. -/
  copies : ∀ va ∈ done, ∀ other ∈ done, isShared f.regions va = false →
    (lookup memory f.new va).map Prod.fst = (lookup memory f.new other).map Prod.fst → va = other

variable {f : Fork} {done used tabs pages : List Nat} {memory : Memory}

theorem Fork.start (f : Fork) : Progress f [] [] f.newTables f.memory f.pages := by
  refine ⟨rfl, f.child, fun _ member => Or.inl member, fun _ _ _ => rfl, ⟨List.nodup_nil, nofun⟩,
    fun _ _ _ _ => rfl, nofun, nofun⟩

/-- The pages of the parent are not written. -/
theorem Progress.of_mapped (progress : Progress f done used tabs memory pages) {page : Nat}
    (mapped : IsMapped f.memory f.old page) :
    page ∉ used ∧ page ∉ tabs ∧ memory page = f.memory page := by
  have not_used : page ∉ used := by
    intro member
    have in_pages : page ∈ f.pages := by
      rw [progress.split]
      exact List.mem_append_left _ member
    exact (f.fresh page in_pages).2.2.2.2 mapped
  have not_new : page ∉ f.newTables := fun member => (f.apart page member).2 mapped
  refine ⟨not_used, ?_, progress.frame page not_used not_new⟩
  intro member
  rcases progress.tabs_from page member with old | taken
  · exact not_new old
  · exact not_used taken

/-- The tables of the parent are not written. -/
theorem Progress.of_table (progress : Progress f done used tabs memory pages) {table : Nat}
    (member : table ∈ f.tables) : memory table = f.memory table := by
  refine progress.frame table ?_ ?_
  · intro taken
    have in_pages : table ∈ f.pages := by
      rw [progress.split]
      exact List.mem_append_left _ taken
    exact (f.fresh table in_pages).2.2.1 member
  · exact fun new => (f.apart table new).1 member

/-- The pages that `kalloc` has left are in no use. -/
theorem Progress.supplied (progress : Progress f done used tabs memory pages) :
    Supplied tabs pages ∧ ∀ page ∈ pages, page ∉ used := by
  have distinct := f.distinct
  rw [progress.split] at distinct
  obtain ⟨_, rest, cross⟩ := List.nodup_append.mp distinct
  have not_used : ∀ page ∈ pages, page ∉ used :=
    fun page member taken => cross page taken page member rfl
  refine ⟨⟨rest, ?_⟩, not_used⟩
  intro page member
  have in_pages : page ∈ f.pages := by
    rw [progress.split]
    exact List.mem_append_right _ member
  obtain ⟨is_page, nonzero, _, not_new, _⟩ := f.fresh page in_pages
  refine ⟨is_page, nonzero, ?_⟩
  intro table
  rcases progress.tabs_from page table with old | taken
  · exact not_new old
  · exact not_used page member taken

/-- A page that the copies so far refer to. -/
def Holds (f : Fork) (used tabs : List Nat) (page : Nat) : Prop :=
  IsMapped f.memory f.old page ∨ page ∈ used ∧ page ∉ tabs

theorem Holds.of_copied {va pa pa' flags : Nat} (va_page : pgsize ∣ va) (low : va < usertop)
    (mapped : lookup f.memory f.old va = some (pa, flags))
    (target : Target f.regions used tabs va pa pa') : Holds f used tabs pa' := by
  rcases target with ⟨_, rfl⟩ | ⟨_, taken, not_table⟩
  · exact Or.inl ⟨va, flags, va_page, low.trans_le usertop_le, mapped⟩
  · exact Or.inr ⟨taken, not_table⟩

/-- A page that the copies refer to is not handed out again. -/
theorem Progress.not_left (progress : Progress f done used tabs memory pages) {page : Nat}
    (holds : Holds f used tabs page) : page ∉ pages ∧ page ∉ tabs := by
  rcases holds with mapped | ⟨taken, not_table⟩
  · refine ⟨?_, (progress.of_mapped mapped).2.1⟩
    intro left
    have in_pages : page ∈ f.pages := by
      rw [progress.split]
      exact List.mem_append_right _ left
    exact (f.fresh page in_pages).2.2.2.2 mapped
  · exact ⟨fun left => progress.supplied.2 page left taken, not_table⟩

/-- A page of `kalloc` is not a table of the child. -/
theorem Progress.agree_store {mem : Nat} (words : Fin 512 → Nat)
    (progress : Progress f done used tabs memory (mem :: pages)) :
    ∀ table ∈ tabs, Function.update memory mem words table = memory table := by
  intro table member
  rw [Function.update_of_ne]
  rintro rfl
  exact (progress.supplied.1.2 table List.mem_cons_self).2.2 member

theorem Progress.lookup_store {mem : Nat} (words : Fin 512 → Nat)
    (progress : Progress f done used tabs memory (mem :: pages)) (va : Nat) :
    lookup (Function.update memory mem words) f.new va = lookup memory f.new va :=
  progress.tree.leafAt_congr (progress.agree_store words) (route_length va 2).le

/-- A page of `kalloc` is filled. -/
theorem Progress.store {mem : Nat} (words : Fin 512 → Nat)
    (progress : Progress f done used tabs memory (mem :: pages)) :
    Progress f done (used ++ [mem]) tabs (Function.update memory mem words) pages := by
  have same := progress.lookup_store words
  refine ⟨?_, progress.tree.congr (progress.agree_store words), ?_, ?_,
    progress.done_mapped, ?_, ?_, ?_⟩
  · rw [progress.split, List.append_assoc, List.singleton_append]
  · intro table member
    rcases progress.tabs_from table member with old | taken
    · exact Or.inl old
    · exact Or.inr (List.mem_append_left _ taken)
  · intro page not_used not_new
    rw [List.mem_append, List.mem_singleton, not_or] at not_used
    rw [Function.update_of_ne not_used.2, progress.frame page not_used.1 not_new]
  · intro va va_page low not_done
    rw [same, progress.others va va_page low not_done]
  · intro va member
    obtain ⟨va_page, low⟩ := progress.done_mapped.2 va member
    obtain ⟨pa, flags, pa', mapped, copy, content, target⟩ := progress.copied va member
    have holds := Holds.of_copied va_page low mapped target
    refine ⟨pa, flags, pa', mapped, (same va).trans copy, ?_,
      target.mono (List.subset_append_left used [mem]) (progress.not_left holds).2⟩
    rw [Function.update_of_ne]
    · exact content
    · rintro rfl
      exact (progress.not_left holds).1 List.mem_cons_self
  · intro va member other other_member copied together
    rw [same, same] at together
    exact progress.copies va member other other_member copied together

/-- One page of the child is mapped. -/
theorem Progress.map {va pa flags mem : Nat} {after : Memory} {left : List Nat}
    (progress : Progress f done used tabs memory pages) (va_page : pgsize ∣ va)
    (low : va < usertop) (mapped : lookup f.memory f.old va = some (pa, flags))
    (is_frame : IsFrame mem) (is_flags : IsFlags flags) (content : memory mem = f.memory pa)
    (target : Target f.regions used tabs va pa mem)
    (single : isShared f.regions va = false → ∀ other ∈ done,
      (lookup memory f.new other).map Prod.fst ≠ some mem)
    (returns : mappages memory f.new va pgsize mem flags pages = .ok (0, after, left)) :
    ∃ used' tabs', Progress f (done ++ [va]) used' tabs' after left := by
  have below := low.trans_le usertop_le
  obtain ⟨⟨more, split, tree, _, frame⟩, unmapped, map⟩ :=
    progress.tree.mappages_page progress.supplied.1 va_page below returns
  rw [decode_mapEntry is_frame is_flags] at map
  have not_done : va ∉ done := by
    intro member
    obtain ⟨_, _, _, _, copy, _⟩ := progress.copied va member
    rw [unmapped] at copy
    cases copy
  have ne_of_done : ∀ other ∈ done, other ≠ va := by
    rintro other member rfl
    exact not_done member
  have map_done : ∀ other ∈ done, lookup after f.new other = lookup memory f.new other := by
    intro other member
    obtain ⟨other_page, other_low⟩ := progress.done_mapped.2 other member
    rw [map other other_page (other_low.trans_le usertop_le), if_neg (ne_of_done other member)]
  have at_va : lookup after f.new va = some (mem, flags ||| pteV ||| pteA ||| pteD) := by
    rw [map va va_page below, if_pos rfl]
  have kept : ∀ page, Holds f used tabs page →
      after page = memory page ∧ page ∉ more.reverse ++ tabs := by
    intro page holds
    obtain ⟨not_left, not_table⟩ := progress.not_left holds
    have not_new : page ∉ more.reverse ++ tabs := by
      rw [List.mem_append, List.mem_reverse, not_or]
      exact ⟨fun member => not_left (split ▸ List.mem_append_left _ member), not_table⟩
    exact ⟨frame page not_new, not_new⟩
  have holds_mem : Holds f used tabs mem := Holds.of_copied va_page low mapped target
  refine ⟨used ++ more, more.reverse ++ tabs, ?_, tree, ?_, ?_, ⟨?_, ?_⟩, ?_, ?_, ?_⟩
  · rw [progress.split, split, List.append_assoc]
  · intro table member
    rcases List.mem_append.mp member with new | old
    · exact Or.inr (List.mem_append_right _ (List.mem_reverse.mp new))
    · rcases progress.tabs_from table old with first | taken
      · exact Or.inl first
      · exact Or.inr (List.mem_append_left _ taken)
  · intro page not_used not_new
    rw [List.mem_append, not_or] at not_used
    rw [frame page, progress.frame page not_used.1 not_new]
    rw [List.mem_append, List.mem_reverse, not_or]
    refine ⟨not_used.2, ?_⟩
    intro table
    rcases progress.tabs_from page table with old | taken
    · exact not_new old
    · exact not_used.1 taken
  · rw [List.nodup_append]
    refine ⟨progress.done_mapped.1, List.nodup_singleton va, ?_⟩
    intro other member last last_member
    rw [List.mem_singleton.mp last_member]
    exact ne_of_done other member
  · intro other member
    rcases List.mem_append.mp member with old | last
    · exact progress.done_mapped.2 other old
    · rw [List.mem_singleton.mp last]
      exact ⟨va_page, low⟩
  · intro other other_page other_low fresh
    rw [List.mem_append, List.mem_singleton, not_or] at fresh
    rw [map other other_page other_low, if_neg fresh.2,
      progress.others other other_page other_low fresh.1]
  · intro other member
    rcases List.mem_append.mp member with old | last
    · obtain ⟨other_page, other_low⟩ := progress.done_mapped.2 other old
      obtain ⟨pa2, flags2, pa', mapped2, copy, content2, target2⟩ := progress.copied other old
      have holds := Holds.of_copied other_page other_low mapped2 target2
      obtain ⟨same, not_table⟩ := kept pa' holds
      exact ⟨pa2, flags2, pa', mapped2, (map_done other old).trans copy, same.trans content2,
        target2.mono (List.subset_append_left used more) not_table⟩
    · rw [List.mem_singleton.mp last]
      obtain ⟨same, not_table⟩ := kept mem holds_mem
      exact ⟨pa, flags, mem, mapped, at_va, same.trans content,
        target.mono (List.subset_append_left used more) not_table⟩
  · intro first first_member second second_member unshared together
    rcases List.mem_append.mp first_member with first_old | first_last
    · rw [map_done first first_old] at together
      rcases List.mem_append.mp second_member with second_old | second_last
      · rw [map_done second second_old] at together
        exact progress.copies first first_old second second_old unshared together
      · rw [List.mem_singleton.mp second_last, at_va] at together
        rcases target with ⟨_, rfl⟩ | ⟨va_unshared, _⟩
        · -- A copy is not a page of the parent.
          obtain ⟨_, _, pa', _, copy, _, first_target⟩ := progress.copied first first_old
          rcases first_target with ⟨first_shared, _⟩ | ⟨_, taken, _⟩
          · rw [unshared] at first_shared
            cases first_shared
          · rw [copy] at together
            have same : pa' = mem := Option.some.inj together
            have is_mapped : IsMapped f.memory f.old mem := ⟨va, flags, va_page, below, mapped⟩
            exact absurd (same ▸ taken) (progress.of_mapped is_mapped).1
        · exact absurd together (single va_unshared first first_old)
    · rw [List.mem_singleton.mp first_last] at unshared together ⊢
      rcases List.mem_append.mp second_member with second_old | second_last
      · rw [map_done second second_old, at_va] at together
        exact absurd together.symm (single unshared second second_old)
      · exact (List.mem_singleton.mp second_last).symm

/-! ## The loops -/

/-- A mapping of the parent that shares a page. -/
def SharesPage (f : Fork) (page va : Nat) : Prop :=
  isShared f.regions va = true ∧ (lookup f.memory f.old va).map Prod.fst = some page

instance (f : Fork) (page va : Nat) : Decidable (SharesPage f page va) :=
  inferInstanceAs (Decidable (_ ∧ _))

/-- The state of the loops after the pages `done`. -/
def Passed (f : Fork) (done : List Nat) (s : Copy) : Prop :=
  (∃ used tabs, Progress f done used tabs s.memory s.pages) ∧
    ∀ page, s.refcnt page = f.refcnt page + UInt32.ofNat
      (done.countP fun va => SharesPage f page va)

/-- An address that `uvmcopy` copies. -/
def Wanted (f : Fork) (va : Nat) : Prop := va < usertop ∧ (lookup f.memory f.old va).isSome = true

instance (f : Fork) (va : Nat) : Decidable (Wanted f va) := inferInstanceAs (Decidable (_ ∧ _))

/-- The pages that a pass copies. -/
def passPages (f : Fork) (i j k : Fin 512) : List Nat :=
  [vaOf i j k].filter fun va => Wanted f va

theorem mapCopy_ok {new va mem flags : Nat} {s s' : Copy}
    (returns : mapCopy new va mem flags s = .ok s') :
    mappages s.memory new va pgsize mem flags s.pages = .ok (0, s'.memory, s'.pages) ∧
      s'.refcnt = s.refcnt := by
  rw [mapCopy] at returns
  split at returns
  · cases returns
  · next code memory pages maps =>
      split at returns
      · cases returns
      · next zero =>
          cases returns
          rw [not_not] at zero
          rw [maps, zero]
          exact ⟨rfl, rfl⟩

/-- The counters after one more page. -/
theorem countP_append_singleton {page va : Nat} (done : List Nat) :
    UInt32.ofNat ((done ++ [va]).countP fun va => SharesPage f page va) =
      UInt32.ofNat (done.countP fun va => SharesPage f page va) +
        if SharesPage f page va then 1 else 0 := by
  rw [List.countP_append, UInt32.ofNat_add]
  congr 1
  by_cases shares : SharesPage f page va
  · rw [if_pos shares, List.countP_singleton, decide_eq_true shares]
    rfl
  · rw [if_neg shares, List.countP_singleton, decide_eq_false shares]
    rfl

/-- The table that a pass reads is the one that maps its address. -/
theorem lookup_vaOf {i j k : Fin 512} {pg0 : Nat}
    (leads : tableAt child f.memory f.old [i, j] = some pg0) :
    lookup f.memory f.old (vaOf i j k) = decode (f.memory pg0 k) := by
  obtain ⟨at2, at1, at0⟩ := px_vaOf i j k
  rw [lookup_eq, route, route, route, at2, at1, at0, leads, Option.bind_some]

/-- A pass that copies a shared page. -/
theorem Passed.shared {va pa flags : Nat} {s s' : Copy} (passed : Passed f done s)
    (va_page : pgsize ∣ va) (low : va < usertop)
    (mapped : lookup f.memory f.old va = some (pa, flags)) (is_frame : IsFrame pa)
    (is_flags : IsFlags flags) (shared : isShared f.regions va = true)
    (returns : mapCopy f.new va pa flags
      { s with refcnt := Function.update s.refcnt pa (s.refcnt pa + 1) } = .ok s') :
    Passed f (done ++ [va]) s' := by
  obtain ⟨⟨used, tabs, progress⟩, counted⟩ := passed
  obtain ⟨maps, counters⟩ := mapCopy_ok returns
  have is_mapped : IsMapped f.memory f.old pa :=
    ⟨va, flags, va_page, low.trans_le usertop_le, mapped⟩
  refine ⟨progress.map va_page low mapped is_frame is_flags (progress.of_mapped is_mapped).2.2
    (Or.inl ⟨shared, rfl⟩) ?_ maps, ?_⟩
  · intro unshared
    rw [shared] at unshared
    cases unshared
  · intro page
    have shares : SharesPage f page va ↔ page = pa := by
      rw [SharesPage, mapped]
      simp [shared, eq_comm]
    rw [counters, countP_append_singleton, ← add_assoc, ← counted]
    simp only [shares]
    by_cases same : page = pa
    · rw [same, Function.update_self, if_pos rfl]
    · rw [Function.update_of_ne same, if_neg same, add_zero]

/-- A pass that copies a page to a new one. -/
theorem Passed.copy {va pa flags mem : Nat} {pages : List Nat} {s s' : Copy}
    (passed : Passed f done s) (va_page : pgsize ∣ va) (low : va < usertop)
    (mapped : lookup f.memory f.old va = some (pa, flags)) (is_flags : IsFlags flags)
    (unshared : isShared f.regions va = false) (left : s.pages = mem :: pages)
    (returns : mapCopy f.new va mem flags
      { s with memory := Function.update s.memory mem (s.memory pa), pages := pages } = .ok s') :
    Passed f (done ++ [va]) s' := by
  obtain ⟨⟨used, tabs, progress⟩, counted⟩ := passed
  rw [left] at progress
  obtain ⟨maps, counters⟩ := mapCopy_ok returns
  have is_mapped : IsMapped f.memory f.old pa :=
    ⟨va, flags, va_page, low.trans_le usertop_le, mapped⟩
  obtain ⟨is_page, _, not_table⟩ := progress.supplied.1.2 mem List.mem_cons_self
  refine ⟨(progress.store (s.memory pa)).map va_page low mapped is_page.isFrame is_flags ?_
    (Or.inr ⟨unshared, List.mem_append_right _ (List.mem_singleton_self mem), not_table⟩) ?_ maps,
      ?_⟩
  · rw [Function.update_self]
    exact (progress.of_mapped is_mapped).2.2
  · intro _ other member together
    obtain ⟨other_page, other_low⟩ := progress.done_mapped.2 other member
    obtain ⟨_, _, pa', other_mapped, copy, _, target⟩ := progress.copied other member
    rw [progress.lookup_store, copy] at together
    have same : pa' = mem := Option.some.inj together
    have holds := Holds.of_copied other_page other_low other_mapped target
    exact (progress.not_left holds).1 (same ▸ List.mem_cons_self)
  · intro page
    have not_shares : ¬ SharesPage f page va := by
      rintro ⟨shared, _⟩
      rw [unshared] at shared
      cases shared
    rw [counters, countP_append_singleton, if_neg not_shares, add_zero]
    exact counted page

/-- One pass of the inner loop. -/
theorem Passed.entry {i j k : Fin 512} {pg0 : Nat} {s : Copy} (low : i.val < 256)
    (leads : tableAt child f.memory f.old [i, j] = some pg0) (passed : Passed f done s) :
    (copyEntry f.regions f.new i j pg0 s k).Ensures (Passed f (done ++ passPages f i j k)) where
  of_ok := by
    intro s' returns
    have entry : s.memory pg0 k = f.memory pg0 k := by
      obtain ⟨used, tabs, progress⟩ := passed.1
      rw [progress.of_table (f.parent.tables [i, j] pg0 (Nat.le_refl 2) leads)]
    have mapped := lookup_vaOf (f := f) (k := k) leads
    rw [copyEntry] at returns
    split at returns
    · next excluded =>
        have unwanted : ¬ Wanted f (vaOf i j k) :=
          fun wanted => (vaOf_lt_usertop low).mp wanted.1 excluded
        cases returns
        rw [passPages, List.filter_singleton, decide_eq_false unwanted, cond_false, List.append_nil]
        exact passed
    · next inside =>
        rw [entry] at returns
        dsimp only at returns
        split at returns
        · next valid =>
            rw [decode_of_valid valid] at mapped
            have user := (vaOf_lt_usertop low).mpr inside
            have wanted : Wanted f (vaOf i j k) := ⟨user, by rw [mapped]; rfl⟩
            rw [passPages, List.filter_singleton, decide_eq_true wanted, cond_true]
            split at returns
            · next shared =>
                exact passed.shared (dvd_vaOf i j k) user mapped (isFrame_pte2pa _)
                  (isFlags_pteFlags _) shared returns
            · next unshared =>
                cases left : s.pages with
                | nil =>
                    rw [left] at returns
                    cases returns
                | cons mem pages =>
                    rw [left] at returns
                    exact passed.copy (dvd_vaOf i j k) user mapped (isFlags_pteFlags _)
                      (Bool.eq_false_iff.mpr unshared) left returns
        · next invalid =>
            rw [decode_of_invalid (not_not.mp invalid)] at mapped
            have unwanted : ¬ Wanted f (vaOf i j k) := by
              rintro ⟨_, some_page⟩
              rw [mapped] at some_page
              cases some_page
            cases returns
            rw [passPages, List.filter_singleton, decide_eq_false unwanted, cond_false,
              List.append_nil]
            exact passed

/-- The pages that a pass over a table copies. -/
def tablePages (f : Fork) (i j : Fin 512) : List Nat :=
  (List.finRange 512).flatMap fun k => passPages f i j k

/-- The pages that a pass over a table of level 1 copies. -/
def directoryPages (f : Fork) (i : Fin 512) : List Nat :=
  (List.finRange 512).flatMap fun j => tablePages f i j

/-- The pages that `uvmcopy` copies. -/
def allPages (f : Fork) : List Nat :=
  ((List.finRange 512).take 256).flatMap fun i => directoryPages f i

theorem mem_passPages {i j k : Fin 512} {va : Nat} :
    va ∈ passPages f i j k ↔ va = vaOf i j k ∧ Wanted f va := by
  rw [passPages, List.mem_filter, List.mem_singleton, decide_eq_true_iff]

theorem tablePages_nil {i j : Fin 512} (nowhere : tableAt child f.memory f.old [i, j] = none) :
    tablePages f i j = [] := by
  rw [tablePages, List.flatMap_eq_nil_iff]
  intro k _
  rw [List.eq_nil_iff_forall_not_mem]
  intro va member
  obtain ⟨rfl, _, some_page⟩ := mem_passPages.mp member
  obtain ⟨at2, at1, at0⟩ := px_vaOf i j k
  rw [lookup_eq, route, route, route, at2, at1, nowhere, Option.bind_none] at some_page
  cases some_page

/-- The parent's entries are read as they were. -/
theorem Passed.entry_eq {table : Nat} {s : Copy} (passed : Passed f done s)
    (member : table ∈ f.tables) : s.memory table = f.memory table := by
  obtain ⟨used, tabs, progress⟩ := passed.1
  exact progress.of_table member

/-- One pass of the middle loop. -/
theorem Passed.table {i j : Fin 512} {pg1 : Nat} {s : Copy} (low : i.val < 256)
    (leads : tableAt child f.memory f.old [i] = some pg1) (passed : Passed f done s) :
    (copyTable f.regions f.new i pg1 s j).Ensures (Passed f (done ++ tablePages f i j)) := by
  have next : tableAt child f.memory f.old [i, j] = child (f.memory pg1 j) := by
    have concat : tableAt child f.memory f.old ([i] ++ [j]) =
        (tableAt child f.memory f.old [i]).bind fun page => child (f.memory page j) :=
      tableAt_concat [i] j
    rw [leads] at concat
    exact concat
  have same := passed.entry_eq (f.parent.tables [i] pg1 (Nat.le_succ 1) leads)
  rw [copyTable, same]
  split
  · next valid =>
      rw [child_of_valid valid] at next
      exact Ensures.foldlM_done _ (fun done s k _ passed => passed.entry low next) passed
  · next invalid =>
      rw [child_of_invalid invalid] at next
      rw [tablePages_nil next, List.append_nil]
      exact ensures_ok passed

/-- One pass of the outer loop. -/
theorem Passed.directory {i : Fin 512} {s : Copy} (low : i.val < 256) (passed : Passed f done s) :
    (copyDirectory f.regions f.old f.new s i).Ensures (Passed f (done ++ directoryPages f i)) := by
  have next : tableAt child f.memory f.old [i] = child (f.memory f.old i) := by
    have concat : tableAt child f.memory f.old ([] ++ [i]) =
        (tableAt child f.memory f.old []).bind fun page => child (f.memory page i) :=
      tableAt_concat [] i
    exact concat
  have same := passed.entry_eq (f.parent.tables [] f.old (Nat.zero_le 2) rfl)
  rw [copyDirectory, same]
  split
  · next valid =>
      rw [child_of_valid valid] at next
      exact Ensures.foldlM_done _ (fun done s j _ passed => passed.table low next) passed
  · next invalid =>
      rw [child_of_invalid invalid] at next
      have nothing : directoryPages f i = [] := by
        rw [directoryPages, List.flatMap_eq_nil_iff]
        intro j _
        apply tablePages_nil
        have concat : tableAt child f.memory f.old ([i] ++ [j]) =
            (tableAt child f.memory f.old [i]).bind fun page => child (f.memory page j) :=
          tableAt_concat [i] j
        rw [next] at concat
        exact concat
      rw [nothing, List.append_nil]
      exact ensures_ok passed

theorem mem_take_finRange (i : Fin 512) : i ∈ (List.finRange 512).take 256 ↔ i.val < 256 := by
  rw [List.mem_take_iff_getElem]
  constructor
  · rintro ⟨j, j_lt, rfl⟩
    rw [List.getElem_finRange]
    exact j_lt.trans_le (Nat.min_le_left _ _)
  · intro low
    have bound : i.val < min 256 (List.finRange 512).length := by
      rw [List.length_finRange]
      exact lt_min low i.isLt
    exact ⟨i, bound, List.getElem_finRange _⟩

/-- The pages that `uvmcopy` copies are the pages below `USERTOP` that the parent maps. -/
theorem mem_allPages {va : Nat} : va ∈ allPages f ↔ pgsize ∣ va ∧ Wanted f va := by
  simp only [allPages, directoryPages, tablePages, List.mem_flatMap, mem_passPages]
  constructor
  · rintro ⟨i, _, j, _, k, _, rfl, wanted⟩
    exact ⟨dvd_vaOf i j k, wanted⟩
  · rintro ⟨va_page, wanted⟩
    obtain ⟨same, low⟩ := vaOf_px va_page (wanted.1.trans_le usertop_le)
    exact ⟨px 2 va, (mem_take_finRange _).mpr low, px 1 va, List.mem_finRange _, px 0 va,
      List.mem_finRange _, same.symm, wanted⟩

/-- The state at the end of the loops. -/
theorem passed_of_uvmcopy {s : Copy}
    (returns : uvmcopy f.regions f.old f.new ⟨f.memory, f.refcnt, f.pages⟩ = .ok (0, s)) :
    Passed f (allPages f) s := by
  have start : Passed f [] ⟨f.memory, f.refcnt, f.pages⟩ := by
    refine ⟨⟨[], f.newTables, f.start⟩, ?_⟩
    intro page
    rw [List.countP_nil]
    exact (add_zero _).symm
  have loops : (((List.finRange 512).take 256).foldlM (copyDirectory f.regions f.old f.new)
      ⟨f.memory, f.refcnt, f.pages⟩).Ensures (Passed f ([] ++ allPages f)) :=
    Ensures.foldlM_done _
      (fun done s i member passed => passed.directory ((mem_take_finRange i).mp member)) start
  rw [List.nil_append] at loops
  unfold uvmcopy at returns
  split at returns
  · next ends =>
      cases returns
      exact loops.of_ok ends
  · cases returns
  · obtain ⟨_, _, returns⟩ := bind_eq_ok.mp returns
    cases returns

/-! ## The copy -/

theorem flags_of_lookup {memory : Memory} {root va pa flags : Nat}
    (mapped : lookup memory root va = some (pa, flags)) :
    flags ||| pteV ||| pteA ||| pteD = flags ||| pteA ||| pteD := by
  rw [lookup_eq, Option.bind_eq_some_iff] at mapped
  obtain ⟨table, _, decoded⟩ := mapped
  rw [decode] at decoded
  split at decoded
  · next valid =>
      cases decoded
      rw [pteFlags_or_pteV valid]
  · cases decoded

instance (regions : List Region) (va : Nat) : Decidable (SharedAt regions va) :=
  inferInstanceAs (Decidable (∃ region ∈ regions, _ ∧ _))

/-- The pages below `USERTOP` in shared memory at which the parent maps a physical page. -/
def sharedMappings (f : Fork) (page : Nat) : Finset Nat :=
  (Finset.range usertop).filter fun va => pgsize ∣ va ∧ SharedAt f.regions va ∧
    (lookup f.memory f.old va).map Prod.fst = some page

/-- The passes that count a page are its shared mappings. -/
theorem countP_allPages {used tabs pages : List Nat} {memory : Memory}
    (progress : Progress f (allPages f) used tabs memory pages) (page : Nat) :
    (allPages f).countP (fun va => SharesPage f page va) = (sharedMappings f page).card := by
  have same : ((allPages f).filter fun va => SharesPage f page va).toFinset =
      sharedMappings f page := by
    ext va
    rw [List.mem_toFinset, List.mem_filter, mem_allPages, sharedMappings, Finset.mem_filter,
      Finset.mem_range, decide_eq_true_iff, SharesPage, isShared_iff f.disjoint, Wanted]
    constructor
    · rintro ⟨⟨va_page, low, _⟩, shared, maps⟩
      exact ⟨low, va_page, shared, maps⟩
    · rintro ⟨low, va_page, shared, maps⟩
      refine ⟨⟨va_page, low, ?_⟩, shared, maps⟩
      cases mapped : lookup f.memory f.old va with
      | none =>
          rw [mapped] at maps
          cases maps
      | some pair => rfl
  have nodup := progress.done_mapped.1.filter fun va => decide (SharesPage f page va)
  exact List.countP_eq_length_filter.trans
    ((List.toFinset_card_of_nodup nodup).symm.trans (congrArg Finset.card same))

/-- What `uvmcopy` makes when it returns 0: below `USERTOP` the child maps what the parent maps, to
the same page in shared memory and to a new copy elsewhere, and a reference is counted for each
shared mapping. -/
theorem uvmcopy_copies {s : Copy}
    (returns : uvmcopy f.regions f.old f.new ⟨f.memory, f.refcnt, f.pages⟩ = .ok (0, s)) :
    (∀ va, pgsize ∣ va → va < usertop →
      (lookup s.memory f.new va = none ↔ lookup f.memory f.old va = none)) ∧
    (∀ va pa flags, pgsize ∣ va → va < usertop → lookup f.memory f.old va = some (pa, flags) →
      ∃ pa', lookup s.memory f.new va = some (pa', flags ||| pteA ||| pteD) ∧
        s.memory pa' = f.memory pa ∧ (SharedAt f.regions va → pa' = pa) ∧
        (¬ SharedAt f.regions va → pa' ∈ f.pages ∧ ¬ IsMapped f.memory f.old pa' ∧
          ∀ other flags', pgsize ∣ other → other < usertop → other ≠ va →
            lookup s.memory f.new other ≠ some (pa', flags'))) ∧
    (∀ page, s.refcnt page = f.refcnt page + UInt32.ofNat (sharedMappings f page).card) ∧
    (∀ va, pgsize ∣ va → va < maxva → usertop ≤ va →
      lookup s.memory f.new va = lookup f.memory f.new va) ∧
    (∀ va, lookup s.memory f.old va = lookup f.memory f.old va) ∧
    (∀ page, IsMapped f.memory f.old page → s.memory page = f.memory page) ∧
    ∀ va other pa pa' flags flags', pgsize ∣ va → va < usertop → pgsize ∣ other →
      other < usertop → lookup f.memory f.old va = some (pa, flags) →
      lookup s.memory f.new other = some (pa', flags') →
      (pa' = pa ↔ SharedAt f.regions other ∧
        (lookup f.memory f.old other).map Prod.fst = some pa) := by
  obtain ⟨⟨used, tabs, progress⟩, counted⟩ := passed_of_uvmcopy returns
  have copied : ∀ va pa flags, pgsize ∣ va → va < usertop →
      lookup f.memory f.old va = some (pa, flags) →
      ∃ pa', lookup s.memory f.new va = some (pa', flags ||| pteA ||| pteD) ∧
        s.memory pa' = f.memory pa ∧ Target f.regions used tabs va pa pa' := by
    intro va pa flags va_page low mapped
    have member : va ∈ allPages f :=
      mem_allPages.mpr ⟨va_page, low, by rw [mapped]; rfl⟩
    obtain ⟨pa2, flags2, pa', mapped2, copy, content, target⟩ := progress.copied va member
    rw [mapped] at mapped2
    cases mapped2
    rw [flags_of_lookup mapped] at copy
    exact ⟨pa', copy, content, target⟩
  have unmapped : ∀ va, pgsize ∣ va → va < usertop → lookup f.memory f.old va = none →
      lookup s.memory f.new va = none := by
    intro va va_page low nothing
    have not_done : va ∉ allPages f := by
      intro member
      have some_page := (mem_allPages.mp member).2.2
      rw [nothing] at some_page
      cases some_page
    rw [progress.others va va_page (low.trans_le usertop_le) not_done, f.empty va va_page low]
  have not_mapped : ∀ page ∈ used, page ∈ f.pages ∧ ¬ IsMapped f.memory f.old page := by
    intro page taken
    have in_pages : page ∈ f.pages := by
      rw [progress.split]
      exact List.mem_append_left _ taken
    exact ⟨in_pages, (f.fresh page in_pages).2.2.2.2⟩
  refine ⟨?_, ?_, ?_, ?_, ?_, ?_, ?_⟩
  · intro va va_page low
    refine ⟨?_, unmapped va va_page low⟩
    intro nothing
    cases mapped : lookup f.memory f.old va with
    | none => rfl
    | some pair =>
        obtain ⟨pa', copy, _⟩ := copied va pair.1 pair.2 va_page low mapped
        rw [nothing] at copy
        cases copy
  · intro va pa flags va_page low mapped
    obtain ⟨pa', copy, content, target⟩ := copied va pa flags va_page low mapped
    refine ⟨pa', copy, content, ?_, ?_⟩
    · intro shared
      rcases target with ⟨_, same⟩ | ⟨unshared, _⟩
      · exact same
      · rw [(isShared_iff f.disjoint va).mpr shared] at unshared
        cases unshared
    · intro not_shared
      rcases target with ⟨shared, _⟩ | ⟨unshared, taken, _⟩
      · exact absurd ((isShared_iff f.disjoint va).mp shared) not_shared
      · refine ⟨(not_mapped pa' taken).1, (not_mapped pa' taken).2, ?_⟩
        intro other flags' other_page other_low differs other_copy
        have member : va ∈ allPages f := mem_allPages.mpr ⟨va_page, low, by rw [mapped]; rfl⟩
        have other_member : other ∈ allPages f := by
          rw [mem_allPages]
          refine ⟨other_page, other_low, ?_⟩
          cases other_mapped : lookup f.memory f.old other with
          | none =>
              rw [unmapped other other_page other_low other_mapped] at other_copy
              cases other_copy
          | some pair => rfl
        refine differs (progress.copies va member other other_member unshared ?_).symm
        rw [copy, other_copy]
        rfl
  · intro page
    rw [counted, countP_allPages progress]
  · intro va va_page low high
    refine progress.others va va_page low ?_
    intro member
    have below := (mem_allPages.mp member).2.1
    omega
  · intro va
    exact f.parent.leafAt_congr (fun table member => progress.of_table member)
      (route_length va 2).le
  · exact fun page mapped => (progress.of_mapped mapped).2.2
  · intro va other pa pa' flags flags' va_page low other_page other_low mapped copy
    have is_mapped : IsMapped f.memory f.old pa :=
      ⟨va, flags, va_page, low.trans_le usertop_le, mapped⟩
    cases other_mapped : lookup f.memory f.old other with
    | none =>
        rw [unmapped other other_page other_low other_mapped] at copy
        cases copy
    | some pair =>
        obtain ⟨page, other_copy, _, target⟩ :=
          copied other pair.1 pair.2 other_page other_low other_mapped
        rw [copy] at other_copy
        cases other_copy
        rw [Option.map_some, Option.some.injEq]
        rcases target with ⟨shared, rfl⟩ | ⟨unshared, taken, _⟩
        · exact ⟨fun same => ⟨(isShared_iff f.disjoint other).mp shared, same⟩, fun both => both.2⟩
        · constructor
          · rintro rfl
            exact absurd is_mapped (not_mapped _ taken).2
          · rintro ⟨shared, _⟩
            rw [(isShared_iff f.disjoint other).mpr shared] at unshared
            cases unshared

/-! ## A parent that shares a page twice -/

/-- A user page is mapped, with all the pages that `kalloc` has. -/
def mapPage (root va pa : Nat) (pages : List Nat) (memory : Memory) : Except Fault Memory := do
  let (code, memory, left) ← mappages memory root va pgsize pa 0x16 pages
  if code = 0 ∧ left = [] then return memory else .error .loops

theorem Tree.mapPage {memory after : Memory} {root va pa : Nat} {tables pages : List Nat}
    (tree : Tree memory root tables) (supplied : Supplied tables pages) (va_page : pgsize ∣ va)
    (low : va < maxva) (is_page : IsPage pa)
    (returns : Vm.mapPage root va pa pages memory = .ok after) :
    Tree after root (pages.reverse ++ tables) ∧
      ∀ other, pgsize ∣ other → other < maxva → lookup after root other =
        if other = va then some (pa, 0xD7) else lookup memory root other := by
  obtain ⟨⟨code, middle, left⟩, maps, returns⟩ := bind_eq_ok.mp returns
  dsimp only at returns
  split at returns
  · next succeeds =>
      obtain ⟨rfl, rfl⟩ := succeeds
      cases returns
      obtain ⟨⟨used, split, after_tree, _, _⟩, _, map⟩ :=
        tree.mappages_page supplied va_page low maps
      rw [List.append_nil] at split
      subst split
      rw [decode_mapEntry is_page.isFrame (by decide)] at map
      exact ⟨after_tree, map⟩
  · cases returns

/-- A parent with three pages, of which the first two are one physical page, and a new child. -/
def sharedTwice : Except Fault Memory := do
  let memory ← mapPage 0x80000000 0 0x80100000 [0x80001000, 0x80002000]
    (clear (fun _ _ => 0) 0x80000000 0)
  let memory ← mapPage 0x80000000 0x1000 0x80100000 [] memory
  let memory ← mapPage 0x80000000 0x2000 0x80200000 [] memory
  return clear memory 0x80010000 0

/-- The first two pages are shared memory. -/
theorem exists_sharedTwice :
    ∃ f : Fork, sharedTwice = .ok f.memory ∧ f.regions = [⟨0, 0x2000, 1⟩] ∧
      f.old = 0x80000000 ∧ f.new = 0x80010000 ∧ (f.refcnt = fun _ => 1) ∧
      f.pages = [0x80011000, 0x80012000, 0x80013000] ∧
      ∀ va, pgsize ∣ va → va < maxva → lookup f.memory f.old va =
        if va = 0x2000 then some (0x80200000, 0xD7)
        else if va = 0x1000 then some (0x80100000, 0xD7)
        else if va = 0 then some (0x80100000, 0xD7) else none := by
  have created : uvmcreate (fun _ _ => 0) [0x80000000] =
      some (0x80000000, clear (fun _ _ => 0) 0x80000000 0, []) := rfl
  obtain ⟨sound, nothing⟩ := sound_of_uvmcreate created
  have succeeds : sharedTwice.toOption.any (fun _ => true) = true := by decide +kernel
  obtain ⟨memory, returns, _⟩ := exists_of_any succeeds
  obtain ⟨memory1, returns1, rest⟩ := bind_eq_ok.mp returns
  obtain ⟨memory2, returns2, rest⟩ := bind_eq_ok.mp rest
  obtain ⟨memory3, returns3, last⟩ := bind_eq_ok.mp rest
  obtain ⟨tree1, map1⟩ :=
    sound.tree.mapPage (by decide) (by decide) (by decide) (by decide) returns1
  obtain ⟨tree2, map2⟩ := tree1.mapPage (by decide) (by decide) (by decide) (by decide) returns2
  obtain ⟨tree3, map3⟩ := tree2.mapPage (by decide) (by decide) (by decide) (by decide) returns3
  cases last
  have child_created : uvmcreate memory3 [0x80010000] =
      some (0x80010000, clear memory3 0x80010000 0, []) := rfl
  obtain ⟨child_sound, child_nothing⟩ := sound_of_uvmcreate child_created
  have agree : ∀ table ∈ [0x80002000, 0x80001000, 0x80000000],
      clear memory3 0x80010000 0 table = memory3 table := by
    intro table member
    rw [clear, Function.update_of_ne]
    rintro rfl
    revert member
    decide
  have map : ∀ va, pgsize ∣ va → va < maxva →
      lookup (clear memory3 0x80010000 0) 0x80000000 va =
        if va = 0x2000 then some (0x80200000, 0xD7)
        else if va = 0x1000 then some (0x80100000, 0xD7)
        else if va = 0 then some (0x80100000, 0xD7) else none := by
    intro va va_page low
    have same : lookup (clear memory3 0x80010000 0) 0x80000000 va = lookup memory3 0x80000000 va :=
      tree3.leafAt_congr agree (route_length va 2).le
    rw [same, map3 va va_page low, map2 va va_page low, map1 va va_page low, nothing]
  have mapped : ∀ page, IsMapped (clear memory3 0x80010000 0) 0x80000000 page →
      page ∈ [0x80100000, 0x80200000] := by
    rintro page ⟨va, flags, va_page, low, found⟩
    rw [map va va_page low] at found
    split at found
    · cases found
      decide
    · split at found
      · cases found
        decide
      · split at found
        · cases found
          decide
        · cases found
  have not_mapped : ∀ page, page ∉ [0x80100000, 0x80200000] →
      ¬ IsMapped (clear memory3 0x80010000 0) 0x80000000 page :=
    fun page outside is_mapped => outside (mapped page is_mapped)
  refine ⟨⟨clear memory3 0x80010000 0, fun _ => 1, [⟨0, 0x2000, 1⟩], 0x80000000, 0x80010000,
    [0x80002000, 0x80001000, 0x80000000], [0x80010000],
    [0x80011000, 0x80012000, 0x80013000], tree3.congr agree, child_sound.tree,
    fun va _ _ => child_nothing va, ?_, by decide, ?_, List.pairwise_singleton _ _⟩,
    returns, rfl, rfl, rfl, rfl, rfl, map⟩
  · intro table member
    rw [List.mem_singleton.mp member]
    exact ⟨by decide, not_mapped _ (by decide)⟩
  · intro page member
    have outside : IsPage page ∧ page ≠ 0 ∧ page ∉ [0x80002000, 0x80001000, 0x80000000] ∧
        page ∉ [0x80010000] ∧ page ∉ [0x80100000, 0x80200000] := by
      revert page
      decide
    obtain ⟨is_page, nonzero, not_table, not_new, not_page⟩ := outside
    exact ⟨is_page, nonzero, not_table, not_new, not_mapped page not_page⟩

/-- The copy of that parent. -/
theorem exists_copy_sharedTwice :
    ∃ (f : Fork) (s : Copy),
      uvmcopy f.regions f.old f.new ⟨f.memory, f.refcnt, f.pages⟩ = .ok (0, s) ∧
      f.regions = [⟨0, 0x2000, 1⟩] ∧ (f.refcnt = fun _ => 1) ∧ s.refcnt 0x80100000 = 3 ∧
      lookup f.memory f.old 0 = some (0x80100000, 0xD7) ∧
      lookup f.memory f.old 0x2000 = some (0x80200000, 0xD7) := by
  obtain ⟨f, made, regions, old, new, refcnt, pages, map⟩ := exists_sharedTwice
  have copies : (sharedTwice >>= fun memory => uvmcopy [⟨0, 0x2000, 1⟩] 0x80000000 0x80010000
      ⟨memory, fun _ => 1, [0x80011000, 0x80012000, 0x80013000]⟩).toOption.any
        (fun result => decide (result.1 = 0 ∧ result.2.refcnt 0x80100000 = 3)) = true := by
    decide +kernel
  rw [made, ok_bind] at copies
  obtain ⟨⟨code, s⟩, returns, test⟩ := exists_of_any copies
  obtain ⟨rfl, counted⟩ : code = 0 ∧ s.refcnt 0x80100000 = 3 := of_decide_eq_true test
  refine ⟨f, s, ?_, regions, refcnt, counted, ?_, ?_⟩
  · rw [regions, old, new, refcnt, pages]
    exact returns
  · rw [map 0 (by decide) (by decide)]
    rfl
  · rw [map 0x2000 (by decide) (by decide)]
    rfl

/-- Both shared mappings are counted, so the counter of the page grows by two. -/
theorem shared_twice_counts_two :
    ∃ (f : Fork) (s : Copy),
      uvmcopy f.regions f.old f.new ⟨f.memory, f.refcnt, f.pages⟩ = .ok (0, s) ∧
      SharedAt f.regions 0 ∧ lookup f.memory f.old 0 = some (0x80100000, 0xD7) ∧
      s.refcnt 0x80100000 ≠ f.refcnt 0x80100000 + 1 := by
  obtain ⟨f, s, returns, regions, refcnt, counted, mapped, _⟩ := exists_copy_sharedTwice
  refine ⟨f, s, returns, ?_, mapped, ?_⟩
  · rw [regions]
    decide
  · rw [counted, refcnt]
    decide

/-- The shared page of that copy, and its private one. -/
theorem uvmcopy_copies_sharedTwice :
    ∃ (f : Fork) (s : Copy), lookup s.memory f.new 0 = some (0x80100000, 0xD7) ∧
      ∃ pa', lookup s.memory f.new 0x2000 = some (pa', 0xD7) ∧ pa' ∈ f.pages ∧
        s.memory pa' = f.memory 0x80200000 := by
  obtain ⟨f, s, returns, regions, _, _, shared, single⟩ := exists_copy_sharedTwice
  obtain ⟨_, copied, _⟩ := uvmcopy_copies returns
  obtain ⟨pa, shared_copy, _, same, _⟩ := copied 0 _ _ (by decide) (by decide) shared
  obtain ⟨pa', single_copy, content, _, fresh⟩ := copied 0x2000 _ _ (by decide) (by decide) single
  refine ⟨f, s, ?_, pa', single_copy, (fresh ?_).1, content⟩
  · rw [same (by rw [regions]; decide)] at shared_copy
    exact shared_copy
  · rw [regions]
    decide

end Vm
end Xv6Duo
