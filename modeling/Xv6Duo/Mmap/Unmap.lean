import Xv6Duo.Mmap.Select
import Xv6Duo.Vm.Runs

/-!
# What `munmap` removes

A part of a region is taken out of the page table page by page, and that is right wherever the part
lies. The list of regions is right if the part reaches to the start or to the end of its region: a
region is made shorter at one of its ends, and is never split in two.
-/

namespace Xv6Duo
namespace Mmap

open Vm IntervalMap RadixTree

/-- A page of a region: its place in the file, protection, flags and file. -/
def MmapRegion.label (region : MmapRegion) (va : Nat) : Nat × Nat × Nat × Option File :=
  ((region.offset + (va - region.addr)) % 2 ^ 64, region.prot, region.flags, region.f)

/-- What the regions say about an address. -/
def view (regions : List MmapRegion) (va : Nat) : Option (Nat × Nat × Nat × Option File) :=
  (covering (fun r : MmapRegion => r.addr) MmapRegion.stop regions va).map fun r => r.label va

variable {region region' : MmapRegion} {regions before after : List MmapRegion}
  {addr size va : Nat}

/-- An address in a region. -/
def MmapRegion.Holds (region : MmapRegion) (va : Nat) : Prop :=
  Covers (fun r : MmapRegion => r.addr) MmapRegion.stop region va

instance (region : MmapRegion) (va : Nat) : Decidable (region.Holds va) :=
  inferInstanceAs (Decidable (Covers _ _ _ _))

theorem holds_iff : region.Holds va ↔ region.addr ≤ va ∧ va < region.addr + region.length := Iff.rfl

theorem contains_iff (sound : Sound regions) (mem : region ∈ regions) :
    region.Contains va ↔ region.Holds va := by
  have finish := sound.finish_eq mem
  rw [MmapRegion.finish] at finish
  rw [Region.Contains, finish]
  exact Iff.rfl

/-! ## The list of regions -/

theorem view_middle (sound : Sound (before ++ region :: after)) :
    view (before ++ region :: after) va =
      if region.Holds va then some (region.label va) else view (before ++ after) va := by
  rw [view, covering_middle sound.ordered]
  split_ifs with covers not_holds holds
  · rfl
  · exact absurd covers not_holds
  · exact absurd holds covers
  · rfl

theorem view_others (sound : Sound (before ++ region :: after)) (holds : region.Holds va) :
    view (before ++ after) va = none := by
  rw [view, covering_others sound.ordered holds]
  rfl

/-- The regions without one of them. -/
theorem view_remove (sound : Sound (before ++ region :: after)) :
    view (before ++ after) va =
      if region.Holds va then none else view (before ++ region :: after) va := by
  split_ifs with holds
  · exact view_others sound holds
  · rw [view_middle sound, if_neg holds]

/-- The regions with a part of one of them. -/
theorem view_shrink (sound : Sound (before ++ region :: after))
    (sound' : Sound (before ++ region' :: after))
    (inside : ∀ va, region'.Holds va → region.Holds va ∧ region'.label va = region.label va) :
    view (before ++ region' :: after) va =
      if region.Holds va ∧ ¬region'.Holds va then none
        else view (before ++ region :: after) va := by
  rw [view_middle sound', view_middle sound]
  cases Decidable.em (region'.Holds va) with
  | inl holds' =>
      obtain ⟨holds, same⟩ := inside va holds'
      rw [if_pos holds', if_neg fun both => both.2 holds', if_pos holds, same]
  | inr beside =>
      cases Decidable.em (region.Holds va) with
      | inl holds => rw [if_neg beside, if_pos ⟨holds, beside⟩, view_others sound holds]
      | inr out => rw [if_neg beside, if_neg fun both => out both.1, if_neg out]

/-- A region that is replaced by a part of it. -/
theorem Sound.shrink (sound : Sound (before ++ region :: after)) (left : region.addr ≤ region'.addr)
    (right : region'.stop ≤ region.stop) (page : pgsize ∣ region'.addr)
    (pages : pgsize ∣ region'.length) (positive : 0 < region'.length) :
    Sound (before ++ region' :: after) := by
  have each {P : MmapRegion → Prop} (old : ∀ r ∈ before ++ region :: after, P r)
      (new : P region') : ∀ r ∈ before ++ region' :: after, P r := by
    intro r mem
    rcases List.mem_append.mp mem with earlier | later
    · exact old r (List.mem_append_left _ earlier)
    · rcases List.mem_cons.mp later with rfl | last
      · exact new
      · exact old r (List.mem_append_right _ (List.mem_cons_of_mem _ last))
  have here : region ∈ before ++ region :: after :=
    List.mem_append_right _ List.mem_cons_self
  exact ⟨sound.ordered.shrink left right, each sound.addr_page page,
    each sound.length_page pages, each sound.nonempty positive,
    each sound.below (right.trans (sound.below region here))⟩

theorem Sound.remove (sound : Sound (before ++ region :: after)) : Sound (before ++ after) := by
  have sub : (before ++ after).Sublist (before ++ region :: after) :=
    List.Sublist.append_left (List.sublist_cons_self region after) before
  exact ⟨sound.ordered.remove, fun r mem => sound.addr_page r (sub.subset mem),
    fun r mem => sound.length_page r (sub.subset mem),
    fun r mem => sound.nonempty r (sub.subset mem), fun r mem => sound.below r (sub.subset mem)⟩

/-- The regions before one end before it begins. -/
theorem Sound.before_stop (sound : Sound (before ++ region :: after)) {r : MmapRegion}
    (mem : r ∈ before) : r.stop ≤ region.addr :=
  (ordered_append.mp sound.ordered).2.2 r mem region List.mem_cons_self

/-- `find_mmap_region` returns the region that holds an address. -/
theorem findIdx_eq (sound : Sound (before ++ region :: after)) (holds : region.Holds va) :
    (before ++ region :: after).findIdx? (fun r => r.Contains va) = some before.length := by
  have here : region ∈ before ++ region :: after :=
    List.mem_append_right _ List.mem_cons_self
  have earlier : before.findIdx? (fun r => decide (r.Contains va)) = none := by
    rw [List.findIdx?_eq_none_iff]
    intro r mem
    apply decide_eq_false
    rw [contains_iff sound (List.mem_append_left _ mem)]
    intro inside
    have ends := sound.before_stop mem
    have low : va < r.stop := inside.2
    have high : region.addr ≤ va := holds.1
    omega
  have found : decide (region.Contains va) = true :=
    decide_eq_true ((contains_iff sound here).mpr holds)
  rw [List.findIdx?_append, earlier, List.findIdx?_cons, found]
  simp

/-- `delete_mmap_node` takes the region out of the list. -/
theorem eraseP_eq (sound : Sound (before ++ region :: after)) :
    (before ++ region :: after).eraseP (fun r => region.addr = r.addr) = before ++ after := by
  have others : ∀ r ∈ before, ¬decide (region.addr = r.addr) = true := by
    intro r mem same
    have ends := sound.before_stop mem
    have some_bytes := sound.nonempty r (List.mem_append_left _ mem)
    have equal := of_decide_eq_true same
    rw [MmapRegion.stop] at ends
    omega
  rw [List.eraseP_append_right _ others, List.eraseP_cons_of_pos]
  exact decide_eq_true rfl

/-! ## The whole call -/

theorem and_pgsize (page : pgsize ∣ addr) : addr &&& (pgsize - 1) = 0 := by
  have power : pgsize = 2 ^ 12 := rfl
  rw [power, Nat.and_two_pow_sub_one_eq_mod, ← power]
  exact Nat.mod_eq_zero_of_dvd page

/-- A call of `munmap` for a range that is not longer than the region of its first page. -/
theorem munmap_eq {writeback : Nat → Nat → Int} {memory : Memory} {pagetable length : Nat}
    (sound : Sound (before ++ region :: after)) (page : pgsize ∣ addr) (holds : region.Holds addr)
    (fits : pgroundup length ≤ region.length) :
    munmap writeback ⟨memory, pagetable, before ++ region :: after⟩ addr length = do
      let code ← writebackRegion writeback ⟨memory, pagetable, before ++ region :: after⟩ region
        addr (pgroundup length)
      if code < 0 then return (code, ⟨memory, pagetable, before ++ region :: after⟩, [])
      else if region.length = pgroundup length then
        let (memory, freed) ← uvmunmap memory pagetable region.addr
          ((region.length + pgsize - 1) % 2 ^ 64 / pgsize) true
        return (0, ⟨memory, pagetable, before ++ after⟩, freed)
      else
        let (memory, freed) ← uvmunmap memory pagetable addr (pgroundup length / pgsize) true
        return (0, ⟨memory, pagetable, before ++ region.part addr (pgroundup length) :: after⟩,
          freed) := by
  have here : (before ++ region :: after)[before.length]? = some region := by simp
  have set_eq (r : MmapRegion) :
      (before ++ region :: after).set before.length r = before ++ r :: after := by simp
  rw [munmap, if_neg (not_not.mpr (and_pgsize page)), findIdx_eq sound holds]
  simp only [here, min_eq_left fits, set_eq, deleteMmapNode, eraseP_eq sound, bind_assoc]
  cases writebackRegion writeback ⟨memory, pagetable, before ++ region :: after⟩ region addr
      (pgroundup length) with
  | error fault => rfl
  | ok code =>
      cases uvmunmap memory pagetable region.addr
          ((region.length + pgsize - 1) % 2 ^ 64 / pgsize) true with
      | error fault => rfl
      | ok result => rfl

/-- A call of `munmap` for a range inside a region, where it does not fail. -/
theorem munmap_returns {writeback : Nat → Nat → Int} {memory : Memory} {pagetable length : Nat}
    {s' : Space} {freed : List Nat} (sound : Sound (before ++ region :: after))
    (page : pgsize ∣ addr) (holds : region.Holds addr) (fits : pgroundup length ≤ region.length)
    (call : munmap writeback ⟨memory, pagetable, before ++ region :: after⟩ addr length =
      .ok (0, s', freed)) :
    ∃ memory' regions', s' = ⟨memory', pagetable, regions'⟩ ∧
      ((region.length = pgroundup length ∧ regions' = before ++ after ∧
          uvmunmap memory pagetable region.addr ((region.length + pgsize - 1) % 2 ^ 64 / pgsize)
            true = .ok (memory', freed)) ∨
        (region.length ≠ pgroundup length ∧
          regions' = before ++ region.part addr (pgroundup length) :: after ∧
          uvmunmap memory pagetable addr (pgroundup length / pgsize) true =
            .ok (memory', freed))) := by
  rw [munmap_eq sound page holds fits] at call
  cases written : writebackRegion writeback ⟨memory, pagetable, before ++ region :: after⟩ region
      addr (pgroundup length) with
  | error fault =>
      rw [written] at call
      cases call
  | ok code =>
      rw [written] at call
      change (if code < 0 then _ else _) = _ at call
      split_ifs at call with fails whole
      · cases call
        exact absurd fails (by decide)
      · cases unmapped : uvmunmap memory pagetable region.addr
            ((region.length + pgsize - 1) % 2 ^ 64 / pgsize) true with
        | error fault =>
            rw [unmapped] at call
            cases call
        | ok result =>
            rw [unmapped] at call
            cases call
            exact ⟨result.1, _, rfl, Or.inl ⟨whole, rfl, rfl⟩⟩
      · cases unmapped : uvmunmap memory pagetable addr (pgroundup length / pgsize) true with
        | error fault =>
            rw [unmapped] at call
            cases call
        | ok result =>
            rw [unmapped] at call
            cases call
            exact ⟨result.1, _, rfl, Or.inr ⟨whole, rfl, rfl⟩⟩

/-- What `munmap` is for: the range is neither mapped nor part of a region, and the rest is as
before; if the range lies inside of its region, there is a region on each side. -/
structure Removed (s : Space) (region : MmapRegion) (addr size : Nat) (s' : Space)
    (freed : List Nat) : Prop where
  /-- No page of the range is mapped. -/
  unmapped : ∀ va, pgsize ∣ va → addr ≤ va → va < addr + size →
    lookup s'.memory s'.pagetable va = none
  /-- The other pages are mapped as before. -/
  kept : ∀ va, pgsize ∣ va → va < maxva → ¬(addr ≤ va ∧ va < addr + size) →
    lookup s'.memory s'.pagetable va = lookup s.memory s.pagetable va
  /-- What is still mapped has its content. -/
  content : ∀ page, IsMapped s'.memory s'.pagetable page → s'.memory page = s.memory page
  /-- Only pages of the range are freed. -/
  freed : ∀ pa ∈ freed, ∃ va flags, addr ≤ va ∧ va < addr + size ∧
    lookup s.memory s.pagetable va = some (pa, flags)
  /-- The regions cover the range no more, and the rest as before. -/
  regions : ∀ va, view s'.regions va =
    if addr ≤ va ∧ va < addr + size then none else view s.regions va
  /-- The list of regions is sorted, and the regions are disjoint. -/
  sound : Sound s'.regions
  /-- A range strictly inside splits the region. -/
  split : region.addr < addr → addr + size < region.stop →
    ∃ before after, s.regions = before ++ region :: after ∧
      s'.regions = before ++ { region with length := addr - region.addr } ::
        { region with
          addr := addr + size
          length := region.stop - (addr + size)
          offset := (region.offset + (addr + size - region.addr)) % 2 ^ 64 } :: after

/-- The map after `uvmunmap`. -/
theorem uvmunmap_returns {memory memory' : Memory} {pagetable npages : Nat}
    {tables freed : List Nat} (mapped : Vm.Sound memory pagetable tables) (page : pgsize ∣ addr)
    (below : addr + npages * pgsize ≤ maxva)
    (unmaps : uvmunmap memory pagetable addr npages true = .ok (memory', freed)) :
    (∀ va, pgsize ∣ va → va < maxva → lookup memory' pagetable va =
      if addr ≤ va ∧ va < addr + npages * pgsize then none else lookup memory pagetable va) ∧
    (∀ page, page ∉ tables → memory' page = memory page) ∧
    ∀ pa ∈ freed, ∃ va flags, addr ≤ va ∧ va < addr + npages * pgsize ∧
      lookup memory pagetable va = some (pa, flags) := by
  obtain ⟨after, returns, maps⟩ := mapped.uvmunmap true page below
  have frame : ∀ page, page ∉ tables → memory' page = memory page := by
    rw [uvmunmap, if_neg (not_not.mpr (Nat.mod_eq_zero_of_dvd page))] at unmaps
    exact (unmapLoop_kept mapped unmaps).2
  rw [returns] at unmaps
  cases unmaps
  refine ⟨maps, frame, ?_⟩
  intro pa mem
  obtain ⟨va, from_range, found⟩ := List.mem_filterMap.mp mem
  obtain ⟨-, low, high⟩ := mem_pagesFrom page from_range
  obtain ⟨⟨pa', flags⟩, mapped_va, rfl⟩ := Option.map_eq_some_iff.mp found
  exact ⟨va, flags, low, high, mapped_va⟩

/-- A range that reaches to an end of its region. -/
theorem Removed.of_end {memory memory' : Memory} {pagetable npages : Nat} {tables freed : List Nat}
    {regions' : List MmapRegion} (mapped : Vm.Sound memory pagetable tables)
    (apart : ∀ page, IsMapped memory pagetable page → page ∉ tables) (page : pgsize ∣ addr)
    (whole : npages * pgsize = size) (below : addr + size ≤ maxva)
    (unmaps : uvmunmap memory pagetable addr npages true = .ok (memory', freed))
    (sound : Sound regions')
    (covered : ∀ va, view regions' va =
      if addr ≤ va ∧ va < addr + size then none else view regions va)
    (at_end : ¬(region.addr < addr ∧ addr + size < region.stop)) :
    Removed ⟨memory, pagetable, regions⟩ region addr size ⟨memory', pagetable, regions'⟩ freed := by
  subst whole
  obtain ⟨maps, frame, freed_pages⟩ := uvmunmap_returns mapped page below unmaps
  constructor
  · intro va va_page low high
    rw [maps va va_page (by omega), if_pos ⟨low, high⟩]
  · intro va va_page low outside
    rw [maps va va_page low, if_neg outside]
  · rintro pa ⟨va, flags, va_page, low, leads⟩
    rw [maps va va_page low] at leads
    split at leads
    · cases leads
    · exact frame pa (apart pa ⟨va, flags, va_page, low, leads⟩)
  · exact freed_pages
  · exact covered
  · exact sound
  · intro left right
    exact absurd ⟨left, right⟩ at_end

/-- The rest of a region whose first pages are removed. -/
theorem view_part_start (sound : Sound (before ++ region :: after)) (pages : pgsize ∣ size)
    (smaller : size < region.length) :
    Sound (before ++ region.part region.addr size :: after) ∧
      ∀ va, view (before ++ region.part region.addr size :: after) va =
        if region.addr ≤ va ∧ va < region.addr + size then none
        else view (before ++ region :: after) va := by
  have here : region ∈ before ++ region :: after :=
    List.mem_append_right _ List.mem_cons_self
  have below := sound.below region here
  have top := usertop_eq
  rw [MmapRegion.stop] at below
  have start : (region.addr + size) % 2 ^ 64 = region.addr + size := Nat.mod_eq_of_lt (by omega)
  have part_eq : region.part region.addr size =
      { region with
        addr := region.addr + size
        offset := (region.offset + size) % 2 ^ 64
        length := region.length - size } := by
    rw [MmapRegion.part, if_pos rfl, start]
  rw [part_eq]
  have sound' : Sound (before ++ { region with
      addr := region.addr + size
      offset := (region.offset + size) % 2 ^ 64
      length := region.length - size } :: after) := sound.shrink (Nat.le_add_right _ _)
    (by simp only [MmapRegion.stop]; omega)
    ((Nat.dvd_add_right (sound.addr_page region here)).mpr pages)
    (Nat.dvd_sub (sound.length_page region here) pages) (Nat.sub_pos_of_lt smaller)
  refine ⟨sound', fun va => ?_⟩
  rw [view_shrink sound sound']
  · apply if_congr _ rfl rfl
    simp only [holds_iff]
    omega
  · intro va holds'
    obtain ⟨low, high⟩ := holds_iff.mp holds'
    simp only at low high
    refine ⟨holds_iff.mpr (by omega), ?_⟩
    simp only [MmapRegion.label, Prod.mk.injEq, and_true]
    rw [Nat.mod_add_mod]
    congr 1
    omega

/-- The rest of a region whose last pages are removed. -/
theorem view_part_later (sound : Sound (before ++ region :: after)) (pages : pgsize ∣ size)
    (smaller : size < region.length) (later : region.addr ≠ addr) :
    Sound (before ++ region.part addr size :: after) ∧
      ∀ va, view (before ++ region.part addr size :: after) va =
        if region.stop - size ≤ va ∧ va < region.stop then none
        else view (before ++ region :: after) va := by
  have here : region ∈ before ++ region :: after :=
    List.mem_append_right _ List.mem_cons_self
  have part_eq : region.part addr size = { region with length := region.length - size } := by
    rw [MmapRegion.part, if_neg later]
  rw [part_eq]
  have sound' : Sound (before ++ { region with length := region.length - size } :: after) :=
    sound.shrink le_rfl (by simp only [MmapRegion.stop]; omega) (sound.addr_page region here)
    (Nat.dvd_sub (sound.length_page region here) pages) (Nat.sub_pos_of_lt smaller)
  refine ⟨sound', fun va => ?_⟩
  rw [view_shrink sound sound']
  · apply if_congr _ rfl rfl
    simp only [holds_iff, MmapRegion.stop]
    omega
  · intro va holds'
    obtain ⟨low, high⟩ := holds_iff.mp holds'
    simp only at low high
    exact ⟨holds_iff.mpr (by omega), rfl⟩

/-- A call of `munmap` that returns 0 for a range inside a region removes the range and leaves the
rest, mappings and content, if and only if the range begins or ends with its region. Strictly
inside, the region loses its last pages instead of the range. -/
theorem munmap_removes_iff {writeback : Nat → Nat → Int} {s s' : Space} {tables freed : List Nat}
    {length : Nat} (mapped : Vm.Sound s.memory s.pagetable tables)
    (apart : ∀ page, IsMapped s.memory s.pagetable page → page ∉ tables) (sound : Sound s.regions)
    (mem : region ∈ s.regions) (page : pgsize ∣ addr) (positive : 0 < length)
    (starts : region.addr ≤ addr) (ends : addr + extent length ≤ region.stop)
    (call : munmap writeback s addr length = .ok (0, s', freed)) :
    Removed s region addr (extent length) s' freed ↔
      addr = region.addr ∨ addr + extent length = region.stop := by
  obtain ⟨memory, pagetable, regions⟩ := s
  obtain ⟨before, after, rfl⟩ := List.append_of_mem mem
  have page_size : pgsize = 4096 := rfl
  have top := usertop_eq
  have user : usertop ≤ maxva := by decide
  have below := sound.below region mem
  have stop : region.stop = region.addr + region.length := rfl
  have long : length ≤ extent length := by
    rw [extent, page_size]
    omega
  have size_eq : pgroundup length = extent length := pgroundup_eq (by omega)
  have pages : pgsize ∣ extent length := Nat.dvd_mul_left pgsize _
  have whole_pages : extent length / pgsize * pgsize = extent length := Nat.div_mul_cancel pages
  have holds : region.Holds addr := holds_iff.mpr (by omega)
  obtain ⟨memory', regions', rfl, done⟩ :=
    munmap_returns sound page holds (by omega) call
  rw [size_eq] at done
  constructor
  · intro removed
    by_contra inside
    rw [not_or] at inside
    rcases done with ⟨whole, -, -⟩ | ⟨-, rfl, -⟩
    · omega
    · -- the region still holds the first page of the range
      obtain ⟨sound', -⟩ := view_part_later sound pages (by omega) (Ne.symm inside.1)
      have gone := removed.regions addr
      have part_eq : region.part addr (extent length) =
          { region with length := region.length - extent length } := by
        rw [MmapRegion.part, if_neg (Ne.symm inside.1)]
      have still : (region.part addr (extent length)).Holds addr := by
        rw [part_eq]
        exact holds_iff.mpr (by simp only; omega)
      rw [if_pos (by omega), view_middle sound', if_pos still] at gone
      cases gone
  · intro at_end
    rcases done with ⟨whole, rfl, unmaps⟩ | ⟨less, rfl, unmaps⟩
    · have start : addr = region.addr := by omega
      have count : (region.length + pgsize - 1) % 2 ^ 64 / pgsize = extent length / pgsize := by
        rw [Nat.mod_eq_of_lt (by omega), whole, page_size]
        rw [page_size] at whole_pages
        omega
      rw [count, ← start] at unmaps
      apply Removed.of_end mapped apart page whole_pages (by omega) unmaps sound.remove
      · intro va
        rw [view_remove sound]
        apply if_congr _ rfl rfl
        rw [holds_iff]
        omega
      · omega
    · cases Decidable.em (addr = region.addr) with
      | inl start =>
          subst start
          obtain ⟨sound', covered⟩ := view_part_start sound pages (by omega)
          apply Removed.of_end mapped apart page whole_pages (by omega) unmaps sound' covered
          omega
      | inr later =>
          obtain ⟨sound', covered⟩ := view_part_later sound pages (by omega) (Ne.symm later)
          apply Removed.of_end mapped apart page whole_pages (by omega) unmaps sound'
          · intro va
            rw [covered va]
            apply if_congr _ rfl rfl
            omega
          · omega

/-- A region of three pages. -/
def threePages : MmapRegion := ⟨⟨0x2000000000, 0x3000, mapPrivate ||| mapAnonymous⟩, 0, none, 3⟩

theorem threePages_sound : Sound [threePages] := by
  constructor
  · exact List.pairwise_singleton _ _
  all_goals decide

/-- Three pages that are mapped. -/
theorem exists_threePages : ∃ memory tables, Vm.Sound memory 0x80000000 tables ∧
    (∀ page, IsMapped memory 0x80000000 page → page ∉ tables) ∧
    lookup memory 0x80000000 0x2000000000 = some (0x80100000, 0xD7) ∧
    lookup memory 0x80000000 0x2000001000 = some (0x80101000, 0xD7) ∧
    lookup memory 0x80000000 0x2000002000 = some (0x80102000, 0xD7) := by
  let start : World := ⟨clear (fun _ _ => 7) 0x80000000 0, 0x80000000, [0x80000000]⟩
  have created : uvmcreate (fun _ _ => 7) [0x80000000] = some (start.root, start.memory, []) := rfl
  obtain ⟨sound, nothing⟩ := sound_of_uvmcreate created
  have maps : (mappages start.memory start.root 0x2000000000 0x3000 0x80100000 0x16
      [0x80001000, 0x80002000]).toOption.any (fun r => r.1 = 0 ∧ r.2.2 = []) = true := by
    decide +kernel
  obtain ⟨⟨code, memory, left⟩, run, test⟩ := Except.exists_of_any maps
  obtain ⟨rfl, rfl⟩ : code = 0 ∧ left = [] := of_decide_eq_true test
  have supplied : Supplied start.tables [0x80001000, 0x80002000] := by decide
  obtain ⟨code, after, left, run', -, map⟩ := @Tree.mappages _ _ 0x2000000000 _ _ 0x3000 0x80100000
    0x16 sound.tree supplied (by decide) (by decide) (by decide) (by decide) (by decide)
    fun a _ _ _ => nothing a
  cases run.symm.trans run'
  replace map := map rfl
  have sound' : (start.take memory [0x80001000, 0x80002000] []).Sound := by
    have stepped : start.step (.mappages 0x2000000000 0x3000 0x80100000 0x16
        [0x80001000, 0x80002000]) = .ok (start.take memory [0x80001000, 0x80002000] []) := by
      rw [World.step, run]
      rfl
    have permits : start.Permits (.mappages 0x2000000000 0x3000 0x80100000 0x16
        [0x80001000, 0x80002000]) := supplied
    exact World.Sound.step sound permits stepped
  refine ⟨memory, [0x80002000, 0x80001000, 0x80000000], sound', ?_, ?_, ?_, ?_⟩
  · rintro page ⟨va, flags, va_page, low, leads⟩ table
    rw [map va va_page low, nothing] at leads
    split at leads
    · next inside =>
        obtain ⟨rfl, -⟩ := Prod.mk.inj (Option.some.inj leads)
        simp only [List.mem_cons, List.not_mem_nil, or_false] at table
        omega
    · cases leads
  · rw [map _ (by decide) (by decide)]
    rfl
  · rw [map _ (by decide) (by decide)]
    rfl
  · rw [map _ (by decide) (by decide)]
    rfl

/-- One page of three is taken out of the page table. -/
theorem munmap_threePages {memory after : Memory} {addr length : Nat} {freed : List Nat}
    (page : pgsize ∣ addr) (holds : threePages.Holds addr) (one : pgroundup length = 4096)
    (returns : uvmunmap memory 0x80000000 addr 1 true = .ok (after, freed)) :
    munmap (fun _ _ => 0) ⟨memory, 0x80000000, [threePages]⟩ addr length =
      .ok (0, ⟨after, 0x80000000, [threePages.part addr 4096]⟩, freed) := by
  have sound : Sound ([] ++ threePages :: []) := threePages_sound
  have fits : pgroundup length ≤ threePages.length := by
    rw [one]
    decide
  have call : munmap (fun _ _ => 0) ⟨memory, 0x80000000, [] ++ threePages :: []⟩ addr length = _ :=
    munmap_eq sound page holds fits
  have anonymous : writebackRegion (fun _ _ => 0) ⟨memory, 0x80000000, [threePages]⟩ threePages addr
      4096 = .ok 0 := rfl
  have more : threePages.length ≠ 4096 := by decide
  have count : 4096 / pgsize = 1 := rfl
  simp only [List.nil_append, one, anonymous, count, returns, more] at call
  exact call

/-- The first of three pages is removed. -/
theorem munmap_removes_first : ∃ memory s' freed,
    lookup memory 0x80000000 0x2000000000 = some (0x80100000, 0xD7) ∧
    munmap (fun _ _ => 0) ⟨memory, 0x80000000, [threePages]⟩ 0x2000000000 5 = .ok (0, s', freed) ∧
    Removed ⟨memory, 0x80000000, [threePages]⟩ threePages 0x2000000000 (extent 5) s' freed := by
  obtain ⟨memory, tables, mapped, apart, first, -⟩ := exists_threePages
  have page : pgsize ∣ 0x2000000000 := by decide
  have below : 0x2000000000 + 1 * pgsize ≤ maxva := by decide
  have one : pgroundup 5 = 4096 := by decide
  obtain ⟨after, returns, -⟩ := mapped.uvmunmap true page below
  have call := munmap_threePages page (by decide) one returns
  refine ⟨memory, _, _, first, call, ?_⟩
  exact (munmap_removes_iff mapped apart threePages_sound List.mem_cons_self page (by decide)
    (by decide) (by decide) call).mpr (Or.inl rfl)

/-- The second of three pages is removed from the page table, but the third from the region. -/
theorem munmap_shortens : ∃ memory tables s' freed, Vm.Sound memory 0x80000000 tables ∧
    (∀ page, IsMapped memory 0x80000000 page → page ∉ tables) ∧
    lookup memory 0x80000000 0x2000001000 = some (0x80101000, 0xD7) ∧ Sound [threePages] ∧
    munmap (fun _ _ => 0) ⟨memory, 0x80000000, [threePages]⟩ 0x2000001000 4096 =
      .ok (0, s', freed) ∧
    s'.regions = [{ threePages with length := 0x2000 }] ∧
    ¬Removed ⟨memory, 0x80000000, [threePages]⟩ threePages 0x2000001000 (extent 4096) s' freed := by
  obtain ⟨memory, tables, mapped, apart, -, second, -⟩ := exists_threePages
  have page : pgsize ∣ 0x2000001000 := by decide
  have below : 0x2000001000 + 1 * pgsize ≤ maxva := by decide
  have one : pgroundup 4096 = 4096 := by decide
  obtain ⟨after, returns, -⟩ := mapped.uvmunmap true page below
  have call := munmap_threePages page (by decide) one returns
  refine ⟨memory, tables, _, _, mapped, apart, second, threePages_sound, call, rfl, ?_⟩
  intro removed
  have gone := removed.regions 0x2000001000
  have still : view [{ threePages with length := 0x2000 }] 0x2000001000 ≠
      if 0x2000001000 ≤ 0x2000001000 ∧ 0x2000001000 < 0x2000001000 + extent 4096 then none
      else view [threePages] 0x2000001000 := by decide
  exact still gone

end Mmap
end Xv6Duo
