import Xv6Duo.Mapping.Outcome
import Xv6Duo.Mapping.Regions

/-!
# Mapping at a fixed address

With `MAP_FIXED` the pages of a region go where the caller says. If `is_usable` is right about the
range, no page of another region is in the way, whatever file is behind the new region.
-/

namespace Xv6Duo
namespace Mapping

open Vm Mmap IntervalMap Except

variable {sb : Fs.Superblock} {device : OpenFile → Nat → Int} {k k' : Kernel} {p p' : Proc}
  {root addr length perm prot flags offset size f mem n : Nat} {file : Option Mmap.File}
  {inum : UInt32} {tables : List Nat} {regions : List MmapRegion} {region : MmapRegion}

/-! ## Pages that are not mapped -/

theorem deref_ne_remap {α : Type} (p : Option α) : deref p ≠ .error .mappagesRemap := by
  cases p with
  | none => exact error_ne_error (by decide)
  | some value => exact ok_ne_error value _

theorem kalloc_ne_remap (k : Kernel) : k.kalloc ≠ .error .mappagesRemap := by
  unfold Kernel.kalloc
  split
  · exact error_ne_error (by decide)
  · exact ok_ne_error _ _

theorem walk_ne_remap (memory : Vm.Memory) (root va : Nat) (alloc : Bool) (pages : List Nat) :
    walk memory root va alloc pages ≠ .error .mappagesRemap := by
  unfold walk
  split
  · exact error_ne_error (by decide)
  · exact ok_ne_error _ _

theorem unmapLoop_ne_remap (root finish fuel : Nat) (memory : Vm.Memory) (a : Nat)
    (freed : List Nat) :
    unmapLoop root true finish fuel memory a freed ≠ .error .mappagesRemap := by
  induction fuel generalizing memory a freed with
  | zero => exact error_ne_error (by decide)
  | succ fuel ih =>
      unfold unmapLoop
      split
      · refine bind_ne_error (walk_ne_remap _ _ _ _ _) ?_
        rintro ⟨pte, memory', pages⟩ -
        dsimp only
        split
        · exact ih _ _ _
        · split
          · exact ih _ _ _
          · split
            · exact error_ne_error (by decide)
            · exact ih _ _ _
      · exact ok_ne_error _ _

theorem unload_ne_remap (k : Kernel) (root addr cur : Nat) :
    unload k root addr cur ≠ .error .mappagesRemap := by
  unfold unload
  split
  · refine bind_ne_error ?_ fun _ _ => ok_ne_error _ _
    unfold uvmunmap
    split
    · exact error_ne_error (by decide)
    · exact unmapLoop_ne_remap _ _ _ _ _ _
  · exact ok_ne_error _ _

/-- If the file is one of the file system, it has an inode that is allocated. -/
def HasInode (sb : Fs.Superblock) (k : Kernel) (f : Nat) : Prop :=
  (k.files f).type = .inode → ∃ inum, Regular sb k f inum

theorem HasInode.congr (has_inode : HasInode sb k f) (files : k'.files = k.files)
    (volume : k'.volume = k.volume) : HasInode sb k' f := by
  intro is_inode
  rw [files] at is_inode
  obtain ⟨inum, regular⟩ := has_inode is_inode
  exact ⟨inum, by rw [files]; exact regular.type, by rw [files]; exact regular.ip,
    by rw [volume]; exact regular.live⟩

/-- The read of a round of `map_file_pages` leaves page tables and pages alone. -/
theorem fileread_keeps (device : OpenFile → Nat → Int) (mounted : Mounted sb k.volume)
    (has_inode : HasInode sb k f) (ip : (k.files f).ip = some inum) (mem : Fs.Memory)
    (addr : Nat) :
    fileread sb device k f false mem addr
        (roundLength (k.volume.inodes inum).size (k.files f).off) ≠ .error .mappagesRemap ∧
      ∀ r after k', fileread sb device k f false mem addr
          (roundLength (k.volume.inodes inum).size (k.files f).off) = .ok (r, after, k') →
        k'.memory = k.memory ∧ k'.pages = k.pages ∧ Mounted sb k'.volume ∧ HasInode sb k' f := by
  by_cases reads_inode : (k.files f).type = .inode ∧ (k.files f).readable = true
  · obtain ⟨inum', regular⟩ := has_inode reads_inode.1
    obtain rfl : inum' = inum := Option.some.inj (regular.ip.symm.trans ip)
    obtain ⟨l, run, advanced⟩ := fileread_round device mounted regular reads_inode.2 rfl mem addr
    rw [run]
    refine ⟨ok_ne_error _ _, ?_⟩
    rintro r after k' ⟨⟩
    refine ⟨advanced.memory, advanced.pages, advanced.volume.mounted, fun _ => ⟨inum', ?_, ?_, ?_⟩⟩
    · rw [advanced.files, setOff_file]
      exact regular.type
    · rw [advanced.files, setOff_file]
      exact regular.ip
    · exact (advanced.volume.live inum').mpr regular.live
  · have same (r : Int) : (.ok (r, mem, k) : Except Fault (Int × Fs.Memory × Kernel)) ≠
        .error .mappagesRemap ∧ ∀ r' after k',
          (.ok (r, mem, k) : Except Fault (Int × Fs.Memory × Kernel)) = .ok (r', after, k') →
            k'.memory = k.memory ∧ k'.pages = k.pages ∧ Mounted sb k'.volume ∧
              HasInode sb k' f := by
      refine ⟨ok_ne_error _ _, ?_⟩
      rintro r' after k' ⟨⟩
      exact ⟨rfl, rfl, mounted, has_inode⟩
    unfold fileread
    dsimp only
    split
    · exact same _
    · next readable =>
        split
        · refine ⟨error_ne_error (by decide), ?_⟩
          rintro r after k' ⟨⟩
        · exact same _
        · exact same _
        · next is_inode =>
            exact absurd ⟨is_inode, Bool.eq_true_of_not_eq_false readable⟩ reads_inode

/-- The loop of `map_file_pages` does not come to a page that is mapped if there is none in the rest
of the range. -/
theorem filePagesLoop_ne_remap (addr_page : pgsize ∣ addr) (below : addr + extent length ≤ maxva)
    (fuel : Nat) (mounted : Mounted sb k.volume) (table : Vm.Sound k.memory root tables)
    (supplied : Supplied tables k.pages) (has_inode : HasInode sb k f)
    (clear : ∀ i, n ≤ i → i < pageCount length →
      lookup k.memory root (addr + i * pgsize) = none) :
    filePagesLoop sb device root addr length perm f fuel k (n * pgsize) offset ≠
      .error .mappagesRemap := by
  have page : pgsize = 4096 := rfl
  have bound : maxva = 2 ^ 38 := by decide
  have extent_eq : pageCount length * pgsize = extent length := rfl
  induction fuel generalizing k n tables offset with
  | zero => exact error_ne_error (by decide)
  | succ fuel ih =>
      unfold filePagesLoop
      split
      · next inside =>
          have n_lt := inside_iff.mp inside
          have low (i : Nat) (i_lt : i < pageCount length) : addr + i * pgsize < maxva := by
            rw [page] at extent_eq ⊢
            omega
          have here_low := low n n_lt
          have no_wrap : (addr + n * pgsize) % 2 ^ 64 = addr + n * pgsize :=
            Nat.mod_eq_of_lt (by omega)
          have next : (n * pgsize + pgsize) % 2 ^ 64 = (n + 1) * pgsize := by
            rw [Nat.mod_eq_of_lt (by rw [page] at here_low ⊢; omega), Nat.succ_mul]
          refine bind_ne_error (deref_ne_remap _) fun inum found => ?_
          have ip : (k.files f).ip = some inum := by
            rw [setOff_file] at found
            exact deref_eq_ok.mp found
          have len_unfolded (size o : UInt32) : (if pgsize < (size - o).toNat then pgsize
              else (size - o).toNat) = roundLength size o := rfl
          dsimp only
          simp only [len_unfolded]
          split
          · exact ok_ne_error _ _
          · next positive =>
              refine bind_ne_error (kalloc_ne_remap _) ?_
              rintro ⟨mem, k₁⟩ taken
              obtain ⟨rest, pages_eq, rfl⟩ := kalloc_eq_ok taken
              have pages_eq : k.pages = mem :: rest := pages_eq
              dsimp only
              set k₂ : Kernel := Kernel.clearPage { k.setOff f (UInt32.ofNat offset) with
                pages := rest
                refcnt := Function.update k.refcnt mem 1 } mem with k₂_eq
              have file₂ : k₂.files f = { k.files f with off := UInt32.ofNat offset } :=
                setOff_file k f _
              have has_inode₂ : HasInode sb k₂ f := by
                intro is_inode
                rw [file₂] at is_inode
                obtain ⟨inum, regular⟩ := has_inode is_inode
                exact ⟨inum, by rw [file₂]; exact regular.type, by rw [file₂]; exact regular.ip,
                  regular.live⟩
              have reads := fileread_keeps (k := k₂) device mounted has_inode₂
                (by rw [file₂]; exact ip) ⟨k₂.bytes, fun _ => true, fun _ => true⟩ mem
              refine bind_ne_error ?_ ?_
              · exact reads.1
              · rintro ⟨r, after, k₃⟩ read
                obtain ⟨memory, pages, mounted₃, has_inode₃⟩ := reads.2 r after k₃ read
                dsimp only
                split
                · exact bind_ne_error (unload_ne_remap _ _ _ _) fun _ _ => ok_ne_error _ _
                · next whole =>
                    have suffix_rest : k₃.pages <:+ k.pages := by
                      rw [pages]
                      exact ⟨[mem], by rw [pages_eq]; rfl⟩
                    have table₃ : Vm.Sound k₃.memory root tables := by
                      rw [memory]
                      exact table
                    rw [no_wrap]
                    rcases mappages_cases (k := { k₃ with bytes := after.bytes }) table₃
                      (Supplied.suffix supplied suffix_rest) (dvd_page addr_page n) here_low
                      (Nat.pos_of_ne_zero positive) (roundLength_le _ _) mem perm with
                      ⟨-, run⟩ | ⟨present, -⟩ |
                        ⟨memory', left, tables', run, -, -, table', supplied', -, maps⟩
                    · rw [run]
                      exact error_ne_error (by decide)
                    · refine absurd ?_ present
                      change lookup k₃.memory root _ = none
                      rw [memory]
                      exact clear n le_rfl n_lt
                    · rw [run, Except.ok_bind, next]
                      refine ih mounted₃ table' supplied' (has_inode₃.congr rfl rfl) ?_
                      intro i later i_lt
                      have other : addr + i * pgsize ≠ addr + n * pgsize := by
                        rw [page]
                        omega
                      change lookup memory' root _ = none
                      rw [maps _ (dvd_page addr_page i) (low i i_lt), if_neg other]
                      change lookup k₃.memory root _ = none
                      rw [memory]
                      exact clear i (by omega) i_lt
      · exact ok_ne_error _ _

/-- The file behind a mapping has its inode, if it is one of the file system. -/
def Behind (sb : Fs.Superblock) (k : Kernel) (flags : Nat) (file : Option Mmap.File) : Prop :=
  flags &&& mapAnonymous = 0 → ∀ f, file = some f → HasInode sb k f.address

theorem Behind.congr (behind : Behind sb k flags file) (files : k'.files = k.files)
    (volume : k'.volume = k.volume) : Behind sb k' flags file :=
  fun backed f same => (behind backed f same).congr files volume

/-- `mmap_load_pages` for a range without a mapped page. -/
theorem mmapLoadPages_ne_remap (mounted : Mounted sb k.volume) (sound : Sound k root tables)
    (behind : Behind sb k flags file) (addr_page : pgsize ∣ addr)
    (below : addr + extent length ≤ maxva)
    (clear : ∀ i < pageCount length, lookup k.memory root (addr + i * pgsize) = none) :
    mmapLoadPages sb device k root addr length prot flags file offset ≠ .error .mappagesRemap := by
  unfold mmapLoadPages
  split
  · next anonymous =>
      have outcome :=
        mapAnonPages_outcome mounted sound (getPerm_isFlags prot flags) addr_page below
      generalize mapAnonPages k root addr length (getPerm prot flags) = result at outcome
      cases outcome with
      | done k' tables' loaded files => exact ok_ne_error _ _
      | exhausted => exact error_ne_error (by decide)
      | remap n inside k₁ tables₁ loaded some_page mapped =>
          exact absurd (clear n (inside_iff.mp inside)) mapped
  · next backed =>
      unfold mapFilePages
      split
      · exact ok_ne_error _ _
      · refine bind_ne_error (deref_ne_remap _) fun f found => ?_
        have has_inode := behind (not_not.mp backed) f (deref_eq_ok.mp found)
        have run : filePagesLoop sb device root addr length (getPerm prot flags) f.address
            (k.pages.length + 1) k (0 * pgsize) offset ≠ .error .mappagesRemap :=
          filePagesLoop_ne_remap addr_page below (k.pages.length + 1) mounted sound.table
            sound.supplied has_inode fun i _ i_lt => clear i i_lt
        rw [Nat.zero_mul] at run
        exact run

/-! ## `mmap` -/

/-- `is_usable` is right about a range, so a call with `MAP_FIXED` neither panics at a page of a
region nor makes regions overlap. -/
structure Exact (sb : Fs.Superblock) (regions : List MmapRegion) (addr length : Nat) : Prop where
  /-- The range is usable if nothing covers it. -/
  usable : isUsable regions addr length = true ↔ Unused regions addr (extent length)
  /-- A call where only regions have mapped pages in the range. -/
  fixed : ∀ (device : OpenFile → Nat → Int) (k : Kernel) (p : Proc) (tables : List Nat)
    (prot flags : Nat) (f : Option Mmap.File) (offset : Nat), p.regions = regions →
    flags &&& mapFixed ≠ 0 → Mounted sb k.volume → Sound k p.pagetable tables →
      Behind sb k flags f →
    (∀ va, addr ≤ va → va < addr + extent length → lookup k.memory p.pagetable va ≠ none →
      ∃ region ∈ regions, region.addr ≤ va ∧ va < region.stop) →
    mmap sb device k p addr length prot flags f offset ≠ .error .mappagesRemap ∧
      ∀ value k' p', mmap sb device k p addr length prot flags f offset = .ok (value, k', p') →
        Ordered (fun r : MmapRegion => r.addr) MmapRegion.stop p'.regions

theorem denyLoop_ne_remap (root count a : Nat) (k : Kernel) :
    denyLoop root count k a ≠ .error .mappagesRemap := by
  induction count generalizing k a with
  | zero => exact ok_ne_error _ _
  | succ count ih =>
      rw [denyLoop, Kernel.walk, walk]
      split
      · exact error_ne_error (by decide)
      · rw [Except.ok_bind]
        dsimp only
        split
        · exact error_ne_error (by decide)
        · exact ih _ _

/-- The part of `mmap` behind the choice of an address, for a range without a mapped page. -/
theorem mapRegion_ne_remap (mounted : Mounted sb k.volume) (sound : Sound k p.pagetable tables)
    (behind : Behind sb k flags file) (page : pgsize ∣ addr) (fits : addr + extent length ≤ usertop)
    (clear : ∀ va, addr ≤ va → va < addr + extent length →
      lookup k.memory p.pagetable va = none) :
    mapRegion sb device k p addr length prot flags file offset ≠ .error .mappagesRemap := by
  have top := usertop_eq
  have bound : maxva = 2 ^ 38 := by decide
  have pages (i : Nat) (i_lt : i < pageCount length) :
      lookup k.memory p.pagetable (addr + i * pgsize) = none := by
    have last : (i + 1) * pgsize ≤ extent length := Nat.mul_le_mul_right pgsize i_lt
    have positive_page : 0 < pgsize := by decide
    rw [Nat.succ_mul] at last
    exact clear _ (Nat.le_add_right _ _) (by omega)
  unfold mapRegion
  split_ifs
  · exact ok_ne_error _ _
  · exact ok_ne_error _ _
  · exact ok_ne_error _ _
  · refine bind_ne_error (mmapLoadPages_ne_remap mounted (sound.congr rfl rfl)
      (behind.congr rfl rfl) page (by omega) pages) ?_
    rintro ⟨code, k'⟩ -
    dsimp only
    split
    · exact ok_ne_error _ _
    · exact ok_ne_error _ _

/-- `is_usable` is right about a range, unless it takes it by mistake. -/
theorem isUsable_exact_iff (sorted : Sorted regions) (page : pgsize ∣ addr)
    (low : elfEtDynBase ≤ addr) (positive : 0 < length) (fits : addr + extent length ≤ usertop) :
    Exact sb regions addr length ↔ ¬Straddles regions addr length := by
  constructor
  · intro exact_check
    exact (isUsable_unused_iff sorted low fits positive).mp exact_check.usable
  · intro clear
    have usable := (isUsable_unused_iff sorted low fits positive).mpr clear
    refine ⟨usable, ?_⟩
    rintro device k p tables prot flags f offset rfl fixed mounted sound behind covered
    have some_addr : addr ≠ 0 := by
      have base : 0 < elfEtDynBase := by decide
      omega
    have apart (usable_range : isUsable p.regions addr length = true) :
        ∀ r ∈ p.regions, ¬Meets r addr (extent length) := by
      have unused := usable.mp usable_range
      rwa [sorted.unused_iff, or_iff_right (extent_pos positive).ne'] at unused
    constructor
    · unfold mmap
      rw [if_pos some_addr]
      split_ifs with high unaligned none usable_range
      · exact ok_ne_error _ _
      · exact ok_ne_error _ _
      · exact bind_ne_error (denyLoop_ne_remap _ _ _ _) fun _ _ => ok_ne_error _ _
      · apply mapRegion_ne_remap mounted sound behind page fits
        intro va above below
        by_contra mapped
        obtain ⟨region, mem, starts, ends⟩ := covered va above below mapped
        exact apart usable_range region mem ⟨by omega, by omega⟩
      · exact ok_ne_error _ _
    · intro value k' p' run
      -- the list of regions is that of the model without the memory
      obtain ⟨env, call⟩ := mmap_regions run
      exact mmap_fixed_ordered sorted apart some_addr fixed positive fits call

/-- A range over a region, in front of another one. -/
def overTwo : List MmapRegion :=
  [⟨⟨0x2000001000, 0x1000, mapPrivate⟩, 0, none, 1⟩,
    ⟨⟨0x2000004000, 0x1000, mapPrivate⟩, 0, none, 1⟩]

theorem overTwo_sorted : Sorted overTwo := by
  constructor
  · exact List.pairwise_pair.mpr (by decide)
  · decide
  · decide

/-- `is_usable` takes a range over a region because another region begins behind it. -/
theorem overTwo_straddles :
    isUsable overTwo 0x2000000000 0x3000 = true ∧
      ¬Exact Fs.mkfsSuper overTwo 0x2000000000 0x3000 := by
  refine ⟨by decide, ?_⟩
  intro exact_check
  have clear := (isUsable_unused_iff overTwo_sorted (by decide) (by decide) (by decide)).mp
    exact_check.usable
  exact clear (by decide)

/-- It refuses the same range when the first region begins there. -/
theorem overTwo_exact : Exact Fs.mkfsSuper overTwo 0x2000002000 0x2000 :=
  (isUsable_exact_iff overTwo_sorted (by decide) (by decide) (by decide) (by decide)).mpr
    (by decide)

end Mapping
end Xv6Duo
