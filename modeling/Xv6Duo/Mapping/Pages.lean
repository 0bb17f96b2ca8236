import Xv6Duo.Mapping.Files
import Xv6Duo.Vm.Map

/-!
# Pages of mapped memory

A page that `kalloc` hands out is filled and put into the page table. What has been loaded before it
stays as it is, because `kalloc` does not hand out a page that is mapped.
-/

namespace Xv6Duo
namespace Mapping

open Vm Mmap

variable {sb : Fs.Superblock} {k k' l : Kernel} {root va size pa perm : Nat}
  {tables tables' : List Nat}

/-- A page table, and pages of `kalloc` that it does not use. -/
structure Sound (k : Kernel) (root : Nat) (tables : List Nat) : Prop where
  /-- The page table. -/
  table : Vm.Sound k.memory root tables
  /-- `kalloc` hands out other pages than its tables. -/
  supplied : Supplied tables k.pages
  /-- `kalloc` hands out other pages than the mapped ones. -/
  fresh : ∀ va pa flags, pgsize ∣ va → va < maxva → lookup k.memory root va = some (pa, flags) →
    pa ∉ k.pages

theorem Sound.congr (sound : Sound k root tables) (memory : k'.memory = k.memory)
    (pages : k'.pages = k.pages) : Sound k' root tables := by
  obtain ⟨table, supplied, fresh⟩ := sound
  refine ⟨memory ▸ table, pages ▸ supplied, ?_⟩
  rw [memory, pages]
  exact fresh

/-- Fewer pages to hand out. -/
theorem Supplied.suffix {pages left : List Nat} (supplied : Supplied tables pages)
    (suffix : left <:+ pages) : Supplied tables left :=
  ⟨supplied.1.sublist suffix.sublist, fun page mem => supplied.2 page (suffix.subset mem)⟩

theorem lookup_isFrame {memory : Vm.Memory} {flags : Nat}
    (mapped : lookup memory root va = some (pa, flags)) : IsFrame pa ∧ IsFlags flags := by
  rw [lookup_eq] at mapped
  obtain ⟨table, -, decoded⟩ := Option.bind_eq_some_iff.mp mapped
  unfold decode at decoded
  split at decoded
  · cases decoded
    exact ⟨isFrame_pte2pa _, isFlags_pteFlags _⟩
  · cases decoded

/-- The bytes of two pages are apart. -/
theorem page_apart {other j : Nat} (pa_page : pgsize ∣ pa) (other_page : pgsize ∣ other)
    (differ : pa ≠ other) (inside : j < pgsize) : ¬(other ≤ pa + j ∧ pa + j < other + pgsize) := by
  obtain ⟨m, rfl⟩ := pa_page
  obtain ⟨n, rfl⟩ := other_page
  rw [show pgsize = 4096 from rfl] at *
  omega

/-- The flags of a page that `mappages` maps. -/
def mappedFlags (perm : Nat) : Nat := perm ||| pteV ||| pteA ||| pteD

/-- A page was put into the page table. -/
structure PageMapped (k k' : Kernel) (root va : Nat) (tables' : List Nat) (flags : Nat)
    (content : Nat → UInt8) : Prop where
  /-- The page table, with more tables. -/
  sound : Sound k' root tables'
  /-- Pages were taken. -/
  suffix : k'.pages <:+ k.pages
  /-- One of them is for the page. -/
  shorter : k'.pages.length < k.pages.length
  /-- The page was not mapped. -/
  unmapped : lookup k.memory root va = none
  /-- The page is mapped and has its content. -/
  mapped : ∃ pa ∈ k.pages, lookup k'.memory root va = some (pa, flags) ∧
    ∀ j < pgsize, k'.bytes (pa + j) = content j
  /-- The other pages are mapped as before. -/
  others : ∀ other, pgsize ∣ other → other < maxva → other ≠ va →
    lookup k'.memory root other = lookup k.memory root other
  /-- Only pages of `kalloc` are written. -/
  frame : ∀ a, (∀ pa ∈ k.pages, ¬(pa ≤ a ∧ a < pa + pgsize)) → k'.bytes a = k.bytes a

/-- The number of tables that `walk` has to make for an address. -/
def missingTables (memory : Vm.Memory) (root va : Nat) : Nat :=
  match child (memory root (px 2 va)) with
  | none => 2
  | some table =>
      match child (memory table (px 1 va)) with
      | none => 1
      | some _ => 0

/-- `walk` runs out of memory when there are fewer pages than missing tables. -/
theorem walkLevels_none_iff {memory : Vm.Memory} {pages : List Nat}
    (supplied : Supplied tables pages) (root_table : root ∈ tables) :
    (walkLevels va true 2 memory root pages).1 = none ↔
      pages.length < missingTables memory root va := by
  unfold missingTables
  rw [walkLevels.eq_def]
  dsimp only
  split
  · next valid =>
      rw [child_of_valid valid, walkLevels.eq_def]
      dsimp only
      split
      · next inner =>
          rw [child_of_valid inner, walkLevels]
          simp
      · next inner =>
          rw [child_of_invalid inner]
          cases pages with
          | nil => simp
          | cons page pages => simp [walkLevels]
  · next invalid =>
      rw [child_of_invalid invalid]
      cases pages with
      | nil => simp
      | cons page pages =>
          have differ : page ≠ root := by
            rintro rfl
            exact (supplied.2 page List.mem_cons_self).2.2 root_table
          have zero : RadixTree.write (RadixTree.clear memory page 0) root (px 2 va)
              (pa2pte page ||| pteV) page (px 1 va) = 0 := by
            rw [RadixTree.write, Function.update_of_ne differ, RadixTree.clear,
              Function.update_self]
          simp only [if_true]
          rw [walkLevels.eq_def]
          dsimp only
          rw [zero]
          cases pages with
          | nil => simp
          | cons next pages => simp [walkLevels]

theorem exists_leads {memory : Vm.Memory} {flags : Nat}
    (mapped : lookup memory root va = some (pa, flags)) :
    ∃ table, Leads memory root va table ∧ memory table (px 0 va) &&& pteV ≠ 0 ∧
      pa = pte2pa (memory table (px 0 va)) ∧ flags = pteFlags (memory table (px 0 va)) := by
  rw [lookup_eq] at mapped
  obtain ⟨table, leads, decoded⟩ := Option.bind_eq_some_iff.mp mapped
  unfold decode at decoded
  split at decoded
  · next valid =>
      cases decoded
      exact ⟨table, leads, valid, rfl, rfl⟩
  · cases decoded

/-- The call of `mappages` for a page below `MAXVA`. -/
theorem mappages_cases (table : Vm.Sound k.memory root tables) (supplied : Supplied tables k.pages)
    (va_page : pgsize ∣ va) (low : va < maxva) (positive : 0 < size) (small : size ≤ pgsize)
    (pa perm : Nat) :
    (k.pages.length < missingTables k.memory root va ∧
      k.mappages root va size pa perm = .error .outOfMemory) ∨
    (lookup k.memory root va ≠ none ∧
      k.mappages root va size pa perm = .error .mappagesRemap) ∨
    ∃ after left tables', k.mappages root va size pa perm =
        .ok { k with memory := after, pages := left } ∧
      missingTables k.memory root va ≤ k.pages.length ∧ left <:+ k.pages ∧
      Vm.Sound after root tables' ∧ Supplied tables' left ∧
      lookup k.memory root va = none ∧ ∀ other, pgsize ∣ other → other < maxva →
        lookup after root other =
          if other = va then decode (mapEntry pa perm) else lookup k.memory root other := by
  have bound : maxva = 2 ^ 38 := by decide
  have page : pgsize = 4096 := rfl
  have first : pgrounddown va = va := by
    rw [pgrounddown_eq (by omega), Nat.div_mul_cancel va_page]
  have last : pgrounddown ((va + size - 1) % 2 ^ 64) = va := by
    rw [Nat.mod_eq_of_lt (by omega), pgrounddown_eq (by omega)]
    rw [page] at va_page small ⊢
    omega
  obtain ⟨result, after, used, left, walk_eq, split, extended, supplied', found⟩ :=
    table.tree.walk_alloc supplied low
  have suffix : left <:+ k.pages := ⟨used, split.symm⟩
  have sound' := table.extends extended
  have root_table : root ∈ tables := table.tree.tables [] root (by decide) rfl
  have short : (walkLevels va true 2 k.memory root k.pages).1 = none ↔
      k.pages.length < missingTables k.memory root va := walkLevels_none_iff supplied root_table
  have levels : (walkLevels va true 2 k.memory root k.pages).1 = result := by
    rw [walk, if_neg (by omega)] at walk_eq
    rw [Except.ok.inj walk_eq]
  rw [levels] at short
  have maps (va : Nat) : lookup after root va = lookup k.memory root va := extended.lookup_eq
  unfold Kernel.mappages Vm.mappages
  rw [if_neg positive.ne', first, last, manyPages, mapLoop, walk_eq, Except.ok_bind]
  rcases found with rfl | ⟨t, rfl, leads⟩
  · exact Or.inl ⟨short.mp rfl, rfl⟩
  · have at_va := lookup_of_leads leads
    rw [maps] at at_va
    dsimp only
    by_cases valid : after t (px 0 va) &&& pteV ≠ 0
    · rw [if_pos valid]
      rw [decode_of_valid valid] at at_va
      refine Or.inr (Or.inl ⟨?_, rfl⟩)
      rw [at_va]
      exact Option.some_ne_none _
    · rw [if_neg valid, if_pos rfl]
      rw [decode_of_invalid (not_not.mp valid)] at at_va
      have enough : missingTables k.memory root va ≤ k.pages.length :=
        Nat.le_of_not_lt fun fewer => by cases short.mpr fewer
      refine Or.inr (Or.inr ⟨_, left, _, rfl, enough, suffix,
        sound'.write leads (Or.inr (mapEntry_used pa perm)), supplied', at_va, ?_⟩)
      intro other other_page other_low
      rw [sound'.tree.lookup_write leads _ va_page low other_page other_low, maps]
      rfl

/-- A page is put on a frame that `kalloc` does not hand out. -/
theorem map_frame {frame : Nat} (sound : Sound k root tables) (va_page : pgsize ∣ va)
    (low : va < maxva) (is_frame : IsFrame frame) (is_perm : IsFlags perm) (apart : frame ∉ k.pages)
    (run : k.mappages root va pgsize frame perm = .ok k') :
    ∃ tables', Sound k' root tables' ∧ k'.pages <:+ k.pages ∧
      ∀ other, pgsize ∣ other → other < maxva → lookup k'.memory root other =
        if other = va then some (frame, mappedFlags perm) else lookup k.memory root other := by
  rcases mappages_cases sound.table sound.supplied va_page low (by decide)
    (Nat.le_refl pgsize) frame
    perm with ⟨-, fails⟩ | ⟨-, fails⟩ | ⟨after, left, tables', runs, -, suffix, table,
      supplied, -, maps⟩
  · cases run.symm.trans fails
  · cases run.symm.trans fails
  · cases run.symm.trans runs
    have mapped (other : Nat) (other_page : pgsize ∣ other) (other_low : other < maxva) :
        lookup after root other =
          if other = va then some (frame, mappedFlags perm) else lookup k.memory root other := by
      rw [maps other other_page other_low, decode_mapEntry is_frame is_perm, mappedFlags]
    refine ⟨tables', ⟨table, supplied, ?_⟩, suffix, mapped⟩
    intro other pa flags other_page other_low found member
    rw [mapped other other_page other_low] at found
    split at found
    · cases found
      exact apart (suffix.subset member)
    · exact sound.fresh other pa flags other_page other_low found (suffix.subset member)

/-- `mappages` past the end of the address space. -/
theorem mappages_high (va_page : pgsize ∣ va) (word : va < 2 ^ 64) (high : maxva ≤ va)
    (some_bytes : size ≠ 0) : k.mappages root va size pa perm = .error .walk := by
  have first : pgrounddown va = va := by
    rw [pgrounddown_eq word, Nat.div_mul_cancel va_page]
  rw [Kernel.mappages, Vm.mappages, if_neg some_bytes, first, manyPages, mapLoop, walk, if_pos high]
  rfl

/-- A fresh page that has been filled is put into the page table. -/
theorem map_fresh {pages : List Nat} {content : Nat → UInt8} (sound : Sound k root tables)
    (taken : k.pages = pa :: pages) (memory : l.memory = k.memory) (rest : l.pages = pages)
    (filled : ∀ j < pgsize, l.bytes (pa + j) = content j)
    (frame : ∀ a, ¬(pa ≤ a ∧ a < pa + pgsize) → l.bytes a = k.bytes a) (va_page : pgsize ∣ va)
    (low : va < maxva) (positive : 0 < size) (small : size ≤ pgsize) (is_perm : IsFlags perm) :
    (k.pages.length ≤ missingTables k.memory root va ∧
      l.mappages root va size pa perm = .error .outOfMemory) ∨
    (lookup k.memory root va ≠ none ∧
      l.mappages root va size pa perm = .error .mappagesRemap) ∨
    ∃ after left tables', l.mappages root va size pa perm =
        .ok { l with memory := after, pages := left } ∧
      missingTables k.memory root va < k.pages.length ∧
      PageMapped k { l with memory := after, pages := left } root va tables' (mappedFlags perm)
        content := by
  have suffix_rest : l.pages <:+ k.pages := ⟨[pa], by rw [taken, rest]; rfl⟩
  have more : k.pages.length = l.pages.length + 1 := by rw [taken, rest, List.length_cons]
  have pa_mem : pa ∈ k.pages := by
    rw [taken]
    exact List.mem_cons_self
  obtain ⟨is_page, -, -⟩ := sound.supplied.2 pa pa_mem
  have pa_gone : pa ∉ l.pages := by
    have distinct := sound.supplied.1
    rw [taken] at distinct
    rw [rest]
    exact (List.nodup_cons.mp distinct).1
  have table : Vm.Sound l.memory root tables := memory ▸ sound.table
  rcases mappages_cases table (Supplied.suffix sound.supplied suffix_rest) va_page low
    positive small
    pa perm with ⟨short, run⟩ | remap | ⟨after, left, tables', run, enough, suffix, table, supplied,
      unmapped, maps⟩
  · rw [memory] at short
    exact Or.inl ⟨by omega, run⟩
  · rw [memory] at remap
    exact Or.inr (Or.inl remap)
  · rw [memory] at enough unmapped
    simp only [memory] at maps
    have at_va : lookup after root va = some (pa, mappedFlags perm) := by
      rw [maps va va_page low, if_pos rfl, decode_mapEntry is_page.isFrame is_perm, mappedFlags]
    refine Or.inr (Or.inr ⟨after, left, tables', run, by omega, ⟨?_, ?_, ?_⟩, ?_, ?_, unmapped,
      ⟨pa, pa_mem, at_va, filled⟩, ?_, ?_⟩)
    · exact table
    · exact supplied
    · intro other pa' flags other_page other_low mapped member
      by_cases same : other = va
      · rw [same, at_va] at mapped
        cases mapped
        exact pa_gone (suffix.subset member)
      · rw [maps other other_page other_low, if_neg same] at mapped
        exact sound.fresh other pa' flags other_page other_low mapped
          (suffix_rest.subset (suffix.subset member))
    · exact suffix.trans suffix_rest
    · rw [more]
      exact Nat.lt_succ_of_le suffix.length_le
    · intro other other_page other_low differ
      rw [maps other other_page other_low, if_neg differ]
    · intro a outside
      exact frame a (outside pa pa_mem)

/-! ## What a loader leaves as it is -/

/-- The map of pages outside of a range, the files, and the memory of other pages are as before. -/
structure Loads (sb : Fs.Superblock) (k k' : Kernel) : Prop where
  /-- Files have their bytes. -/
  volume : SameFiles sb k.volume k'.volume
  /-- Only positions of open files move. -/
  files : ∀ g, k'.files g = { k.files g with off := (k'.files g).off }
  /-- Pages were taken. -/
  suffix : k'.pages <:+ k.pages
  /-- Only pages of `kalloc` are written. -/
  frame : ∀ a, (∀ pa ∈ k.pages, ¬(pa ≤ a ∧ a < pa + pgsize)) → k'.bytes a = k.bytes a

theorem Loads.refl (mounted : Mounted sb k.volume) : Loads sb k k :=
  ⟨SameFiles.refl mounted.wellFormed mounted.idle, fun _ => rfl, List.suffix_refl _, fun _ _ => rfl⟩

theorem Loads.trans (first : Loads sb k k') (second : Loads sb k' l) : Loads sb k l where
  volume := first.volume.trans second.volume
  files g := by
    rw [second.files g, first.files g]
  suffix := second.suffix.trans first.suffix
  frame a outside := by
    rw [second.frame a fun pa mem => outside pa (first.suffix.subset mem), first.frame a outside]

/-- The bytes of a page that was mapped before. -/
theorem Loads.kept (loads : Loads sb k k') (sound : Sound k root tables) {flags j : Nat}
    (va_page : pgsize ∣ va) (low : va < maxva)
    (mapped : lookup k.memory root va = some (pa, flags)) (inside : j < pgsize) :
    k'.bytes (pa + j) = k.bytes (pa + j) := by
  apply loads.frame
  intro page mem
  have pa_page := (lookup_isFrame mapped).1.1
  have page_page := (sound.supplied.2 page mem).1.1
  apply page_apart pa_page page_page _ inside
  rintro rfl
  exact sound.fresh va pa flags va_page low mapped mem

theorem Regular.loads {f : Nat} {inum : UInt32} (regular : Regular sb k f inum)
    (loads : Loads sb k k') : Regular sb k' f inum where
  type := by
    rw [loads.files f]
    exact regular.type
  ip := by
    rw [loads.files f]
    exact regular.ip
  live := (loads.volume.live inum).mpr regular.live

/-! ## `uvmunmap` -/

/-- Pages that are taken out of the page table. -/
theorem unmap_spec {npages : Nat} (sound : Sound k root tables) (va_page : pgsize ∣ va)
    (below : va + npages * pgsize ≤ maxva) :
    ∃ k', k.unmap root va npages = .ok k' ∧ Sound k' root tables ∧
      (∀ a, pgsize ∣ a → a < maxva → lookup k'.memory root a =
        if va ≤ a ∧ a < va + npages * pgsize then none else lookup k.memory root a) ∧
      k'.bytes = k.bytes ∧ k'.volume = k.volume ∧ k'.files = k.files ∧ k'.pages = k.pages ∧
      k'.nodes = k.nodes ∧ k'.clock = k.clock := by
  obtain ⟨after, run, maps⟩ := sound.table.uvmunmap true va_page below
  have kept : Vm.Sound after root tables := by
    have loop := run
    rw [uvmunmap] at loop
    split at loop
    · cases loop
    · exact (unmapLoop_kept sound.table loop).1
  have unmaps : k.unmap root va npages = .ok { k with
      memory := after
      refcnt := (freedPages k.memory root va npages true).foldl Vm.kfree k.refcnt } := by
    rw [Kernel.unmap, run]
    rfl
  refine ⟨_, unmaps, ⟨kept, sound.supplied, ?_⟩, maps, rfl, rfl, rfl, rfl, rfl, rfl⟩
  intro a pa flags a_page low mapped
  dsimp only at mapped
  rw [maps a a_page low] at mapped
  split at mapped
  · cases mapped
  · exact sound.fresh a pa flags a_page low mapped

/-! ## `get_perm` -/

theorem getPerm_isFlags (prot flags : Nat) : IsFlags (getPerm prot flags) := by
  unfold getPerm
  have none : prot &&& protNone = 0 := Nat.and_zero prot
  rw [if_neg (not_not.mpr none)]
  have base : IsFlags (if flags &&& mapAnonymous ≠ 0 then theadNormalNc ||| pteU
      else theadNormal ||| pteU) := by
    split <;> decide
  have more {perm bit : Nat} (before : IsFlags perm) (is_bit : IsFlags bit) (condition : Prop)
      [Decidable condition] : IsFlags (if condition then perm ||| bit else perm) := by
    split
    · exact before.or is_bit
    · exact before
  exact more (more (more base (by decide) _) (by decide) _) (by decide) _

end Mapping
end Xv6Duo
