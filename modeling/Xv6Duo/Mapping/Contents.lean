import Xv6Duo.Mapping.PageFault

/-!
# What a mapped file shows

A page of a mapped file holds the bytes of the file from the offset of the page on, and zeros behind
the end of the file. `mmap` maps the pages that begin inside of the file, and `alloc_mmap_page` maps
one of them.
-/

namespace Xv6Duo
namespace Mapping

open Vm Mmap

variable {sb : Fs.Superblock} {device : OpenFile → Nat → Int} {k k' : Kernel} {p p' : Proc}
  {root addr length perm prot flags offset n : Nat} {inum : UInt32} {file : Mmap.File}
  {tables : List Nat}

/-! ## Offsets -/

/-- A round takes a whole page, or the rest of the file. -/
theorem roundLength_page {size : UInt32} (offset_page : pgsize ∣ offset) (fits : offset < 2 ^ 32)
    (before_end : UInt32.ofNat offset ≠ size) :
    roundLength size (UInt32.ofNat offset) = pgsize ∨
      offset + roundLength size (UInt32.ofNat offset) = size.toNat ∧
        size.toNat < offset + pgsize := by
  have page : pgsize = 4096 := rfl
  have off_eq : (UInt32.ofNat offset).toNat = offset := by
    rw [UInt32.toNat_ofNat', Nat.mod_eq_of_lt fits]
  have differ : offset ≠ size.toNat := by
    intro same
    exact before_end (UInt32.toNat_inj.mp (off_eq.trans same))
  rcases Nat.lt_or_ge size.toNat offset with behind | before
  · left
    have wraps : (size - UInt32.ofNat offset).toNat = 2 ^ 32 + size.toNat - offset := by
      have limit := size.toNat_lt
      rw [UInt32.toNat_sub, off_eq]
      omega
    have enough : pgsize ≤ 2 ^ 32 + size.toNat - offset := by
      obtain ⟨m, rfl⟩ := offset_page
      rw [page] at fits ⊢
      omega
    rw [roundLength, wraps]
    split <;> omega
  · have inside : roundLength size (UInt32.ofNat offset) =
        min pgsize (size.toNat - (UInt32.ofNat offset).toNat) :=
      roundLength_inside (by rwa [off_eq])
    rw [inside, off_eq]
    omega

/-- The rounds take one page after the other, up to the page that the file does not fill. -/
theorem offsetAt_begins {size : UInt32} (offset_page : pgsize ∣ offset)
    (fits : ∀ i < n, offset + i * pgsize < 2 ^ 32) (begun : BeginsInside size offset n) :
    offsetAt size offset n = offset + n * pgsize ∨
      offsetAt size offset n = size.toNat ∧ size.toNat < offset + n * pgsize := by
  induction n with
  | zero =>
      left
      rw [offsetAt, Nat.zero_mul, Nat.add_zero]
  | succ n ih =>
      have begins := begun n (Nat.lt_succ_self n)
      have earlier := ih (fun i i_lt => fits i (Nat.lt_succ_of_lt i_lt))
        fun i i_lt => begun i (Nat.lt_succ_of_lt i_lt)
      have here : offsetAt size offset n = offset + n * pgsize := by
        rcases earlier with whole | ⟨at_end, -⟩
        · exact whole
        · rw [at_end, UInt32.ofNat_toNat] at begins
          exact absurd rfl begins
      have low := fits n (Nat.lt_succ_self n)
      have limit := size.toNat_lt
      rw [here] at begins
      rw [offsetAt, here, Nat.succ_mul]
      have page : pgsize = 4096 := rfl
      rcases roundLength_page (dvd_page offset_page n) low begins with whole | ⟨rest, short⟩
      · left
        rw [whole, Nat.mod_eq_of_lt (by omega), Nat.add_assoc]
      · right
        rw [rest]
        omega

/-- The offset of a round that takes bytes. -/
theorem offsetAt_before {size : UInt32} (offset_page : pgsize ∣ offset)
    (fits : ∀ i < n, offset + i * pgsize < 2 ^ 32) (begun : BeginsInside size offset n) {i : Nat}
    (i_lt : i < n) : offsetAt size offset i = offset + i * pgsize ∧
      offset + i * pgsize ≠ size.toNat := by
  have begins := begun i i_lt
  have at_i := offsetAt_begins offset_page (fun j j_lt => fits j (j_lt.trans i_lt))
    fun j j_lt => begun j (j_lt.trans i_lt)
  rcases at_i with whole | ⟨at_end, -⟩
  · refine ⟨whole, ?_⟩
    intro same
    rw [whole, same, UInt32.ofNat_toNat] at begins
    exact begins rfl
  · rw [at_end, UInt32.ofNat_toNat] at begins
    exact absurd rfl begins

/-- The rounds stay inside of the file when the first one begins there. -/
theorem inside_of_begins {size : UInt32} (offset_page : pgsize ∣ offset)
    (fits : ∀ i < n, offset + i * pgsize < 2 ^ 32) (begun : BeginsInside size offset n)
    (start : offset ≤ size.toNat) {i : Nat} (i_lt : i < n) : offset + i * pgsize < size.toNat := by
  induction i with
  | zero =>
      have differ := (offsetAt_before offset_page fits begun i_lt).2
      omega
  | succ i ih =>
      have earlier := ih (Nat.lt_of_succ_lt i_lt)
      obtain ⟨here, -⟩ := offsetAt_before offset_page fits begun (Nat.lt_of_succ_lt i_lt)
      obtain ⟨next, differ⟩ := offsetAt_before offset_page fits begun i_lt
      have begins := begun i (Nat.lt_of_succ_lt i_lt)
      have limit := size.toNat_lt
      rw [here] at begins
      rw [offsetAt, here] at next
      rw [Nat.succ_mul] at next differ ⊢
      have page : pgsize = 4096 := rfl
      rcases roundLength_page (dvd_page offset_page i) (fits i (Nat.lt_of_succ_lt i_lt)) begins with
        whole | ⟨rest, short⟩
      · rw [whole] at next
        rcases Nat.lt_or_ge (offset + (i * pgsize + pgsize)) size.toNat with inside | beyond
        · exact inside
        · have off_eq : (UInt32.ofNat (offset + i * pgsize)).toNat = offset + i * pgsize := by
            rw [UInt32.toNat_ofNat', Nat.mod_eq_of_lt (by omega)]
          have taken : roundLength size (UInt32.ofNat (offset + i * pgsize)) =
              min pgsize (size.toNat - (offset + i * pgsize)) := by
            rw [roundLength_inside (by omega), off_eq]
          rw [whole] at taken
          omega
      · rw [rest] at next
        omega

/-! ## `mmap_load_pages` -/

/-- The pages of a range that a call maps hold the bytes of a file from an offset on. -/
structure Shows (sb : Fs.Superblock) (k k' : Kernel) (root start length : Nat) (inum : UInt32)
    (offset : Nat) : Prop where
  /-- Files have their bytes. -/
  volume : SameFiles sb k.volume k'.volume
  /-- The pages that were not mapped before. -/
  content : ∀ i < pageCount length, ∀ pa flags, lookup k.memory root (start + i * pgsize) = none →
    lookup k'.memory root (start + i * pgsize) = some (pa, flags) →
      ∀ j < pgsize, k'.bytes (pa + j) = fileByte sb k.volume inum (offset + (i * pgsize + j))
  /-- The pages outside of the range. -/
  others : ∀ va, pgsize ∣ va → va < maxva → ¬(start ≤ va ∧ va < start + extent length) →
    lookup k'.memory root va = lookup k.memory root va

/-- A call maps the pages of a range that begin inside of the file. -/
def MapsInside (k k' : Kernel) (root start length size offset : Nat) : Prop :=
  ∀ i < pageCount length, lookup k.memory root (start + i * pgsize) = none ∧
    lookup k'.memory root (start + i * pgsize) ≠ none ↔ offset + i * pgsize < size

/-- What the first pages hold. -/
theorem fileContent_begins (offset_page : pgsize ∣ offset)
    (fits : ∀ i < n, offset + i * pgsize < 2 ^ 32)
    (begun : BeginsInside (k.volume.inodes inum).size offset n) {i : Nat} (i_lt : i < n) (j : Nat) :
    fileContent sb k.volume inum offset i j =
      fileByte sb k.volume inum (offset + (i * pgsize + j)) := by
  have low := fits i i_lt
  rw [fileContent, (offsetAt_before offset_page fits begun i_lt).1, UInt32.toNat_ofNat',
    Nat.mod_eq_of_lt low, Nat.add_assoc]

theorem Loaded.shows {tables' : List Nat} {flags : Nat} (n_le : n ≤ pageCount length)
    (addr_page : pgsize ∣ addr) (below : addr + extent length ≤ maxva)
    (offset_page : pgsize ∣ offset) (fits : ∀ i < n, offset + i * pgsize < 2 ^ 32)
    (begun : BeginsInside (k.volume.inodes inum).size offset n)
    (loaded : Loaded sb k k' root addr n tables' flags (fileContent sb k.volume inum offset)) :
    Shows sb k k' root addr length inum offset ∧
      ∀ i < pageCount length, lookup k.memory root (addr + i * pgsize) = none ∧
        lookup k'.memory root (addr + i * pgsize) ≠ none ↔ i < n := by
  have whole : pageCount length * pgsize = extent length := rfl
  have page : pgsize = 4096 := rfl
  have later (i : Nat) (i_lt : i < pageCount length) (n_le_i : n ≤ i) :
      lookup k'.memory root (addr + i * pgsize) = lookup k.memory root (addr + i * pgsize) := by
    apply loaded.others _ (dvd_page addr_page i)
    · rw [page] at whole ⊢
      omega
    · rw [page]
      omega
  refine ⟨⟨loaded.loads.volume, ?_, ?_⟩, ?_⟩
  · intro i i_lt pa flags unmapped mapped j inside
    rcases Nat.lt_or_ge i n with earlier | n_le_i
    · obtain ⟨page, present, filled⟩ := loaded.mapped i earlier
      cases present.symm.trans mapped
      rw [filled j inside, fileContent_begins offset_page fits begun earlier]
    · rw [later i i_lt n_le_i, unmapped] at mapped
      cases mapped
  · intro va va_page low outside
    apply loaded.others va va_page low
    rw [page] at whole ⊢
    omega
  · intro i i_lt
    constructor
    · rintro ⟨unmapped, mapped⟩
      by_contra n_le_i
      rw [later i i_lt (Nat.le_of_not_lt n_le_i)] at mapped
      exact mapped unmapped
    · intro earlier
      refine ⟨loaded.unmapped i earlier, ?_⟩
      obtain ⟨page, present, -⟩ := loaded.mapped i earlier
      rw [present]
      exact Option.some_ne_none _

/-- `map_file_pages` that returns. -/
theorem FileOutcome.shows {flags f : Nat} {code : Int}
    (outcome : FileOutcome sb k root addr length flags f inum offset (.ok (code, k')))
    (addr_page : pgsize ∣ addr) (below : addr + extent length ≤ maxva)
    (offset_page : pgsize ∣ offset)
    (fits : ∀ i, i * pgsize < length → offset + i * pgsize < 2 ^ 32) :
    Shows sb k k' root addr length inum offset ∧
      (0 ≤ code → offset ≤ (k.volume.inodes inum).size.toNat →
        MapsInside k k' root addr length (k.volume.inodes inum).size.toNat offset) := by
  have earlier (n : Nat) (inside : n * pgsize < length) (i : Nat) (i_lt : i < n) :
      offset + i * pgsize < 2 ^ 32 :=
    fits i ((Nat.mul_le_mul_right pgsize i_lt.le).trans_lt inside)
  cases outcome with
  | done begun _ tables' loaded moved =>
      have all (i : Nat) (i_lt : i < pageCount length) : offset + i * pgsize < 2 ^ 32 :=
        fits i (inside_iff.mpr i_lt)
      obtain ⟨shows_file, mapped⟩ :=
        loaded.shows (Nat.le_refl _) addr_page below offset_page all begun
      refine ⟨shows_file, ?_⟩
      intro _ start i i_lt
      rw [mapped i i_lt]
      exact iff_of_true i_lt (inside_of_begins offset_page all begun start i_lt)
  | eof n inside begun at_end _ tables' loaded moved =>
      have n_lt := inside_iff.mp inside
      obtain ⟨shows_file, mapped⟩ :=
        loaded.shows n_lt.le addr_page below offset_page (earlier n inside) begun
      refine ⟨shows_file, ?_⟩
      intro _ start i i_lt
      rw [mapped i i_lt]
      constructor
      · exact inside_of_begins offset_page (earlier n inside) begun start
      · intro before_end
        by_contra n_le
        have ends : (k.volume.inodes inum).size.toNat ≤ offset + n * pgsize := by
          have low := fits n inside
          rcases offsetAt_begins offset_page (earlier n inside) begun with whole | ⟨-, short⟩
          · rw [whole] at at_end
            rw [← at_end, UInt32.toNat_ofNat', Nat.mod_eq_of_lt low]
          · exact short.le
        rw [show pgsize = 4096 from rfl] at ends before_end
        omega

/-- `map_file_pages` at addresses that `walk` refuses comes back only before the first page. -/
theorem mapFilePages_high {code : Int} (mounted : Mounted sb k.volume)
    (regular : Regular sb k file.address inum) (readable : (k.files file.address).readable = true)
    (addr_page : pgsize ∣ addr) (high : maxva ≤ addr) (word : addr < 2 ^ 64) (positive : 0 < length)
    (small : offset < 2 ^ 32)
    (run : mapFilePages sb device k root addr length perm (some file) offset = .ok (code, k')) :
    k'.memory = k.memory ∧ SameFiles sb k.volume k'.volume ∧
      (0 ≤ code → offset = (k.volume.inodes inum).size.toNat) := by
  have same := SameFiles.refl mounted.wellFormed mounted.idle
  have moved := setOff_file k file.address (UInt32.ofNat offset)
  set o := UInt32.ofNat offset with o_eq
  set len := roundLength (k.volume.inodes inum).size o with len_eq
  have len_unfolded : (if pgsize < ((k.volume.inodes inum).size - o).toNat then pgsize else
    ((k.volume.inodes inum).size - o).toNat) = len := rfl
  rw [mapFilePages, if_neg positive.ne', deref, Except.ok_bind, filePagesLoop,
    if_pos positive] at run
  simp only [← o_eq, moved, regular.ip, deref, Except.ok_bind,
    show (k.setOff file.address o).volume = k.volume from rfl, len_unfolded] at run
  split at run
  · next at_end =>
      cases run
      refine ⟨rfl, same, fun _ => ?_⟩
      rw [← roundLength_eq_zero.mp at_end, o_eq, UInt32.toNat_ofNat', Nat.mod_eq_of_lt small]
  · next before_end =>
      cases pages_eq : k.pages with
      | nil =>
          have empty : (k.setOff file.address o).kalloc = .error .outOfMemory := by
            simp only [Kernel.kalloc, Kernel.setOff, pages_eq]
          rw [empty] at run
          cases run
      | cons mem rest =>
          have taken : (k.setOff file.address o).kalloc = .ok (mem, { k.setOff file.address o with
              pages := rest
              refcnt := Function.update k.refcnt mem 1 }) := by
            simp only [Kernel.kalloc, Kernel.setOff, pages_eq]
          rw [taken, Except.ok_bind] at run
          simp only [] at run
          set l : Kernel := Kernel.clearPage { k.setOff file.address o with
            pages := rest
            refcnt := Function.update k.refcnt mem 1 } mem with l_eq
          have file_eq : l.files file.address = { k.files file.address with off := o } := moved
          have regular' : Regular sb l file.address inum := by
            refine ⟨?_, ?_, regular.live⟩
            · rw [file_eq]
              exact regular.type
            · rw [file_eq]
              exact regular.ip
          have readable' : (l.files file.address).readable = true := by
            rw [file_eq]
            exact readable
          have mounted' : Mounted sb l.volume := mounted
          have off_eq : (l.files file.address).off = o := by rw [file_eq]
          obtain ⟨l', read, -⟩ := fileread_round device mounted' regular' readable' off_eq
            ⟨l.bytes, fun _ => true, fun _ => true⟩ mem
          have volume_eq : l.volume = k.volume := rfl
          rw [volume_eq, ← len_eq] at read
          have word_addr : (addr + 0) % 2 ^ 64 = addr := by rw [Nat.add_zero, Nat.mod_eq_of_lt word]
          rw [read, Except.ok_bind] at run
          dsimp only at run
          rw [if_neg (by omega), word_addr, mappages_high addr_page word high before_end] at run
          cases run

/-! ## `mmap` -/

/-- What `mmap` shows of a file at the address that it chooses. -/
def ShowsAt (sb : Fs.Superblock) (k k' : Kernel) (root start length : Nat) (inum : UInt32)
    (offset : Nat) (ret : Int) : Prop :=
  Shows sb k k' root start length inum offset ∧
    (0 ≤ ret → ret = start ∧ (offset ≤ (k.volume.inodes inum).size.toNat →
      MapsInside k k' root start length (k.volume.inodes inum).size.toNat offset))

theorem ShowsAt.of_refused {ret : Int} (mounted : Mounted sb k.volume) (negative : ret < 0)
    (start : Nat) : ShowsAt sb k k root start length inum offset ret := by
  refine ⟨⟨SameFiles.refl mounted.wellFormed mounted.idle, ?_, fun _ _ _ _ => rfl⟩, ?_⟩
  · intro i i_lt pa flags unmapped mapped
    rw [unmapped] at mapped
    cases mapped
  · intro impossible
    omega

/-- `map_file_pages` at any address. -/
theorem mapFilePages_shows {code : Int} (mounted : Mounted sb k.volume)
    (sound : Sound k root tables) (regular : Regular sb k file.address inum)
    (readable : (k.files file.address).readable = true) (is_perm : IsFlags perm)
    (addr_page : pgsize ∣ addr) (word : addr < 2 ^ 64)
    (placed : addr + extent length ≤ usertop ∨ maxva ≤ addr) (offset_page : pgsize ∣ offset)
    (fits : ∀ i, i * pgsize < length → offset + i * pgsize < 2 ^ 32)
    (run : mapFilePages sb device k root addr length perm (some file) offset = .ok (code, k')) :
    Shows sb k k' root addr length inum offset ∧
      (0 ≤ code → offset ≤ (k.volume.inodes inum).size.toNat →
        MapsInside k k' root addr length (k.volume.inodes inum).size.toNat offset) := by
  have same := SameFiles.refl mounted.wellFormed mounted.idle
  rcases Nat.eq_zero_or_pos length with rfl | positive
  · rw [mapFilePages, if_pos rfl] at run
    cases run
    have none (i : Nat) (impossible : i < pageCount 0) : False := Nat.not_lt_zero i impossible
    exact ⟨⟨same, fun i i_lt => (none i i_lt).elim, fun _ _ _ _ => rfl⟩,
      fun _ _ i i_lt => (none i i_lt).elim⟩
  · rcases placed with low | high
    · have below : addr + extent length ≤ maxva := low.trans (by decide)
      have outcome : FileOutcome sb k root addr length (mappedFlags perm) file.address inum offset
          (mapFilePages sb device k root addr length perm (some file) offset) :=
        mapFilePages_outcome mounted sound regular readable is_perm addr_page below positive
      rw [run] at outcome
      exact outcome.shows addr_page below offset_page fits
    · obtain ⟨memory, volume, at_end⟩ := mapFilePages_high mounted regular readable addr_page high
        word positive (by simpa using fits 0 (by omega)) run
      refine ⟨⟨volume, ?_, ?_⟩, ?_⟩
      · intro i i_lt pa flags unmapped mapped
        rw [memory, unmapped] at mapped
        cases mapped
      · intro va va_page va_low outside
        rw [memory]
      · intro returns start i i_lt
        have ends := at_end returns
        constructor
        · rintro ⟨unmapped, mapped⟩
          rw [memory] at mapped
          exact absurd unmapped mapped
        · intro inside
          omega

/-- The part of `mmap` behind the choice of an address. -/
theorem mapRegion_shows {ret : Int} (mounted : Mounted sb k.volume)
    (sound : Sound k p.pagetable tables) (regular : Regular sb k file.address inum)
    (readable : (k.files file.address).readable = true) (addr_page : pgsize ∣ addr)
    (word : addr < 2 ^ 64) (offset_page : pgsize ∣ offset) (small : offset + length < 2 ^ 32)
    (run : mapRegion sb device k p addr length prot flags (some file) offset = .ok (ret, k', p')) :
    ShowsAt sb k k' p.pagetable addr length inum offset ret := by
  have rounded : pgroundup length = extent length := by
    apply pgroundup_eq
    rw [show pgsize = 4096 from rfl]
    omega
  unfold mapRegion at run
  split_ifs at run with high node both
  · cases run
    exact ShowsAt.of_refused mounted (by decide) addr
  · cases run
    exact ShowsAt.of_refused mounted (by decide) addr
  · cases run
    exact ShowsAt.of_refused mounted (by decide) addr
  · have not_anonymous : ¬flags &&& mapAnonymous ≠ 0 := fun anonymous => both ⟨rfl, anonymous⟩
    have placed : addr + extent length ≤ usertop ∨ maxva ≤ addr := by
      have top := usertop_eq
      have bound : maxva = 2 ^ 38 := by decide
      have short : extent length < length + pgsize := extent_le
      rw [rounded] at high
      rw [show pgsize = 4096 from rfl] at short
      omega
    simp only [mmapLoadPages, if_neg not_anonymous] at run
    cases loads : mapFilePages sb device { k with nodes := k.nodes - 1 } p.pagetable addr length
        (getPerm prot flags) (some file) offset with
    | error fault =>
        rw [loads] at run
        cases run
    | ok result =>
        obtain ⟨code, l⟩ := result
        rw [loads, Except.ok_bind] at run
        have mounted' : Mounted sb { k with nodes := k.nodes - 1 }.volume := mounted
        obtain ⟨⟨volume, content, others⟩, inside⟩ := mapFilePages_shows mounted'
          (sound.congr rfl rfl) ⟨regular.type, regular.ip, regular.live⟩ readable
          (getPerm_isFlags prot flags) addr_page word placed offset_page (fun i inside => by omega)
          loads
        dsimp only at run
        split_ifs at run with negative
        · cases run
          exact ⟨⟨volume, content, others⟩, fun impossible => absurd impossible (by omega)⟩
        · cases run
          exact ⟨⟨volume, content, others⟩, fun _ => ⟨rfl, inside (by omega)⟩⟩

theorem selectAddr_page {regions : List MmapRegion} {size : Nat}
    (finish : ∀ region ∈ regions, pgsize ∣ region.finish ∧ region.finish < 2 ^ 64)
    (addr_page : pgsize ∣ addr) (word : addr < 2 ^ 64) :
    pgsize ∣ selectAddr size regions addr ∧ selectAddr size regions addr < 2 ^ 64 := by
  induction regions generalizing addr with
  | nil => exact ⟨addr_page, word⟩
  | cons node rest ih =>
      have rest_finish := fun region mem => finish region (List.mem_cons_of_mem node mem)
      obtain ⟨node_page, node_word⟩ := finish node List.mem_cons_self
      rw [selectAddr]
      split_ifs with before between behind
      · exact ⟨addr_page, word⟩
      · exact ⟨addr_page, word⟩
      · exact ih rest_finish node_page node_word
      · exact ih rest_finish addr_page word

theorem page_of_and (aligned : addr &&& (pgsize - 1) = 0) : pgsize ∣ addr := by
  have low : addr &&& (2 ^ 12 - 1) = addr % 2 ^ 12 := Nat.and_two_pow_sub_one_eq_mod addr 12
  rw [show pgsize - 1 = 2 ^ 12 - 1 from rfl, low] at aligned
  exact Nat.dvd_of_mod_eq_zero aligned

/-- A call with `MAP_FIXED` and `PROT_NONE`, which maps nothing. -/
def Denies (addr prot flags : Nat) : Prop := addr ≠ 0 ∧ flags &&& mapFixed ≠ 0 ∧ prot = protNone

theorem mmap_shows {ret : Int} (mounted : Mounted sb k.volume)
    (sound : Sound k p.pagetable tables) (regions : Mmap.Sound p.regions)
    (regular : Regular sb k file.address inum) (readable : (k.files file.address).readable = true)
    (word : addr < 2 ^ 64) (offset_page : pgsize ∣ offset) (small : offset + length < 2 ^ 32)
    (maps : ¬Denies addr prot flags)
    (run : mmap sb device k p addr length prot flags (some file) offset = .ok (ret, k', p')) :
    ∃ start, ShowsAt sb k k' p.pagetable start length inum offset ret := by
  have finish (region : MmapRegion) (mem : region ∈ p.regions) :
      pgsize ∣ region.finish ∧ region.finish < 2 ^ 64 := by
    rw [regions.finish_eq mem]
    have below := regions.below region mem
    have top := usertop_eq
    exact ⟨regions.stop_page mem, by omega⟩
  have chosen (first : Nat) (first_page : pgsize ∣ first) (first_word : first < 2 ^ 64)
      (run : mapRegion sb device k p (selectAddr (pgroundup length) p.regions first) length
        prot flags (some file) offset = .ok (ret, k', p')) :
      ∃ start, ShowsAt sb k k' p.pagetable start length inum offset ret := by
    obtain ⟨page, word⟩ := selectAddr_page finish first_page first_word
    exact ⟨_, mapRegion_shows mounted sound regular readable page word offset_page small run⟩
  unfold mmap at run
  split_ifs at run with some_addr high fixed unaligned none usable
  · cases run
    exact ⟨addr, ShowsAt.of_refused mounted (by decide) addr⟩
  · cases run
    exact ⟨addr, ShowsAt.of_refused mounted (by decide) addr⟩
  · exact absurd ⟨some_addr, fixed, none⟩ maps
  · have addr_page : pgsize ∣ addr := page_of_and (not_not.mp unaligned)
    exact ⟨addr, mapRegion_shows mounted sound regular readable addr_page word offset_page
      small run⟩
  · cases run
    exact ⟨addr, ShowsAt.of_refused mounted (by decide) addr⟩
  · exact chosen _ (pgrounddown_page word) (Nat.and_lt_two_pow _ (by decide)) run
  · cases regions_eq : p.regions with
    | nil =>
        simp only [regions_eq] at run chosen
        exact chosen mmapbase (by decide) (by decide) run
    | cons region rest =>
        have mem : region ∈ p.regions := by
          rw [regions_eq]
          exact List.mem_cons_self
        have below := regions.below region mem
        have top := usertop_eq
        have stop : region.stop = region.addr + region.length := rfl
        simp only [regions_eq] at run chosen
        exact chosen region.addr (regions.addr_page region mem) (by omega) run

/-! ## `alloc_mmap_page` -/

/-- `alloc_mmap_page` shows a page of the file behind a region. -/
theorem allocMmapPage_shows {ret : Int} {region : MmapRegion} {access : Access}
    (mounted : Mounted sb k.volume) (sound : Sound k p.pagetable tables)
    (regions : Mmap.Sound p.regions) (regular : Regular sb k file.address inum)
    (readable : (k.files file.address).readable = true) (word : addr < 2 ^ 64)
    (found : p.region (pgrounddown addr) = some region) (backed : region.f = some file)
    (not_anonymous : region.flags &&& mapAnonymous = 0) (offset_page : pgsize ∣ region.offset)
    (small : region.offset + region.length ≤ 2 ^ 32)
    (run : allocMmapPage sb device k p addr access = .ok (ret, k')) :
    Shows sb k k' p.pagetable (pgrounddown addr) pgsize inum
      (region.offset + (pgrounddown addr - region.addr)) := by
  have va_page := pgrounddown_page word
  set va := pgrounddown addr with va_eq
  obtain ⟨mem, above, below⟩ := Proc.region_spec regions found va_page
  have page : pgsize = 4096 := rfl
  have inside : va < region.addr + region.length := by
    have contains := List.find?_some found
    simp only [decide_eq_true_eq] at contains
    have finish := regions.finish_eq mem
    have stop : region.stop = region.addr + region.length := rfl
    rw [← stop, ← finish]
    exact contains.2
  have distance_page : pgsize ∣ va - region.addr :=
    Nat.dvd_sub va_page (regions.addr_page region mem)
  have short : region.offset + (va - region.addr) < 2 ^ 32 := by omega
  have offset_eq : MmapRegion.offsetOf region va = region.offset + (va - region.addr) := by
    rw [MmapRegion.offsetOf, backed, if_pos (Option.isSome_some), Nat.div_mul_cancel distance_page,
      Nat.mod_eq_of_lt (by omega)]
  rw [allocMmapPage_eq found, ← va_eq, offset_eq] at run
  split_ifs at run with refused
  · cases run
    exact (ShowsAt.of_refused mounted (show (-1 : Int) < 0 by decide) va).1
  · rw [mmapLoadPages, if_neg (by simp [not_anonymous]), backed] at run
    cases loads : mapFilePages sb device k p.pagetable va pgsize (getPerm region.prot region.flags)
        (some file) (region.offset + (va - region.addr)) with
    | error fault =>
        rw [loads] at run
        cases run
    | ok result =>
        obtain ⟨code, l⟩ := result
        rw [loads] at run
        cases run
        have whole_page : va + extent pgsize ≤ usertop := below
        refine (mapFilePages_shows mounted sound regular readable (getPerm_isFlags _ _) va_page
          (by have top := usertop_eq; omega) (Or.inl whole_page) (offset_page.add distance_page)
            ?_ loads).1
        intro i inside
        rw [page] at inside ⊢
        omega

/-! ## `read` -/

/-- What `fileread` delivers is what the pages of the mapping hold at the same offsets. -/
def Agrees (sb : Fs.Superblock) (device : OpenFile → Nat → Int) (k k' : Kernel)
    (root start length : Nat) (inum : UInt32) (offset : Nat) : Prop :=
  ∀ (g : Nat) (user : Bool) (mem mem' : Fs.Memory) (dst n : Nat) (r : Int) (k'' : Kernel),
    Regular sb k' g inum → n < 2 ^ 31 → (user = true → Fs.PagesIn mem.writable dst n) →
    fileread sb device k' g user mem dst n = .ok (r, mem', k'') →
    ∀ t : Nat, (t : Int) < r → ∀ i < pageCount length, ∀ j < pgsize, ∀ pa flags,
      (k'.files g).off.toNat + t = offset + (i * pgsize + j) →
      lookup k.memory root (start + i * pgsize) = none →
      lookup k'.memory root (start + i * pgsize) = some (pa, flags) →
        mem'.bytes (dst + t) = k'.bytes (pa + j)

/-- `fileread` of any part of a regular file. -/
theorem fileread_delivers {g dst n : Nat} {user : Bool} {mem mem' : Fs.Memory} {r : Int}
    (mounted : Mounted sb k.volume) (regular : Regular sb k g inum) (small : n < 2 ^ 31)
    (writable : user = true → Fs.PagesIn mem.writable dst n)
    (run : fileread sb device k g user mem dst n = .ok (r, mem', k')) {t : Nat}
    (t_lt : (t : Int) < r) :
    mem'.bytes (dst + t) = fileByte sb k.volume inum ((k.files g).off.toNat + t) := by
  cases readable : (k.files g).readable with
  | false =>
      rw [fileread, if_pos readable] at run
      cases run
      omega
  | true =>
      have n_eq : (UInt32.ofNat n).toNat = n := by
        rw [UInt32.toNat_ofNat', Nat.mod_eq_of_lt (by omega)]
      by_cases fits : (k.volume.inodes inum).size < (k.files g).off ∨
          (k.files g).off.toNat + n < 2 ^ 32
      · have enough : user = true → Fs.PagesIn mem.writable dst
            (k.volume.readable inum (k.files g).off (UInt32.ofNat n)) := by
          intro from_user a above below
          have count_le : k.volume.readable inum (k.files g).off (UInt32.ofNat n) ≤ n := by
            rw [Fs.Volume.readable, n_eq]
            exact min_le_left _ _
          exact writable from_user a above (by omega)
        obtain ⟨l, read, -⟩ := fileread_spec device mounted regular readable small fits enough
        rw [read] at run
        cases run
        set count := k.volume.readable inum (k.files g).off (UInt32.ofNat n) with count_eq
        have inside : (k.files g).off.toNat + t < (k.volume.inodes inum).size.toNat := by
          rw [Fs.Volume.readable] at count_eq
          omega
        have stored : dst ≤ dst + t ∧ dst + t < dst + count := ⟨Nat.le_add_right dst t, by omega⟩
        have store : (mem.deliver dst (fun i => k.volume.byte sb inum ((k.files g).off.toNat + i))
            count).bytes (dst + t) = k.volume.byte sb inum
              ((k.files g).off.toNat + (0 + (dst + t - dst))) :=
          if_pos stored
        rw [fileByte_inside inside, store, Nat.zero_add, Nat.add_sub_cancel_left]
      · have wraps : (k.files g).off + UInt32.ofNat n < (k.files g).off := by
          have limit := (k.files g).off.toNat_lt
          rw [UInt32.lt_iff_toNat_lt, UInt32.toNat_add, n_eq]
          omega
        simp only [fileread, readable, Bool.true_eq_false, if_false, regular.type,
          regular.ip, deref, Except.ok_bind, Fs.readi, if_pos (Or.inr wraps : (k.files g).off >
            (k.volume.inodes inum).size ∨
              (k.files g).off + UInt32.ofNat n < (k.files g).off)] at run
        cases run
        omega

theorem Shows.agrees {start : Nat} (shows_file : Shows sb k k' root start length inum offset) :
    Agrees sb device k k' root start length inum offset := by
  intro g user mem mem' dst n r k'' regular small writable run t t_lt i i_lt j inside pa flags same
    unmapped mapped
  have delivered := fileread_delivers shows_file.volume.mounted regular small writable run t_lt
  rw [delivered, same, shows_file.volume.fileByte]
  exact (shows_file.content i i_lt pa flags unmapped mapped j inside).symm

/-- The pages of a file that `mmap` or `alloc_mmap_page` maps hold its bytes and agree with
`read`. -/
theorem mapping_shows_file (mounted : Mounted sb k.volume) (sound : Sound k p.pagetable tables)
    (regions : Mmap.Sound p.regions) (regular : Regular sb k file.address inum)
    (readable : (k.files file.address).readable = true) (offset_page : pgsize ∣ offset) :
    (∀ (addr length prot flags : Nat) (ret : Int) (k' : Kernel) (p' : Proc), addr < 2 ^ 64 →
      offset + length < 2 ^ 32 → ¬Denies addr prot flags →
      mmap sb device k p addr length prot flags (some file) offset = .ok (ret, k', p') →
        ∃ start, ShowsAt sb k k' p.pagetable start length inum offset ret ∧
          Agrees sb device k k' p.pagetable start length inum offset) ∧
    ∀ (region : MmapRegion) (addr : Nat) (access : Access) (ret : Int) (k' : Kernel),
      addr < 2 ^ 64 → p.region (pgrounddown addr) = some region → region.f = some file →
      region.flags &&& mapAnonymous = 0 → region.offset = offset →
      offset + region.length ≤ 2 ^ 32 →
      allocMmapPage sb device k p addr access = .ok (ret, k') →
        Shows sb k k' p.pagetable (pgrounddown addr) pgsize inum
          (offset + (pgrounddown addr - region.addr)) ∧
        Agrees sb device k k' p.pagetable (pgrounddown addr) pgsize inum
          (offset + (pgrounddown addr - region.addr)) := by
  constructor
  · intro addr length prot flags ret k' p' word small maps run
    obtain ⟨start, shows_file, inside⟩ := mmap_shows mounted sound regions regular readable word
      offset_page small maps run
    exact ⟨start, ⟨shows_file, inside⟩, shows_file.agrees⟩
  · rintro region addr access ret k' word found backed not_anonymous rfl small run
    have shows_file := allocMmapPage_shows mounted sound regions regular readable word found backed
      not_anonymous offset_page small run
    exact ⟨shows_file, shows_file.agrees⟩

/-- A file of five bytes, open for reading and writing. -/
def fiveBytes : OpenFile := ⟨.inode, some 2, 0, true, true⟩

/-- A kernel with an empty page table and that file. -/
def fileKernel : Kernel :=
  blank [0x80001000, 0x80002000, 0x80003000, 0x80004000] (volumeOf 1 5) fiveBytes

/-- A process without memory. -/
def noMemory : Proc := ⟨0x80000000, [], 0⟩

theorem fileKernel_mounted : Mounted Fs.mkfsSuper fileKernel.volume :=
  volumeOf_mounted (by decide) (by decide)

theorem fileKernel_sound : Sound fileKernel 0x80000000 [0x80000000] :=
  (blank_sound (by decide)).1

theorem fileKernel_regular : Regular Fs.mkfsSuper fileKernel 0 2 :=
  ⟨rfl, rfl, (volumeOf_live_iff 2).mpr rfl⟩

theorem noMemory_regions : Mmap.Sound noMemory.regions :=
  ⟨List.Pairwise.nil, by decide, by decide, by decide, by decide⟩

theorem fileKernel_size : (fileKernel.volume.inodes 2).size = 5 := by
  change ((volumeOf 1 5).inodes 2).size = 5
  rw [volumeOf_inode]
  rfl

/-- `mmap` shows the five bytes. -/
theorem fileKernel_shows : ∃ ret k' p' start,
    mmap Fs.mkfsSuper (fun _ _ => 0) fileKernel noMemory 0 5 protRead mapPrivate
      (some (fileKernel.file 0)) 0 = .ok (ret, k', p') ∧ 0 ≤ ret ∧
    ShowsAt Fs.mkfsSuper fileKernel k' noMemory.pagetable start 5 2 0 ret := by
  have succeeds : (mmap Fs.mkfsSuper (fun _ _ => 0) fileKernel noMemory 0 5 protRead mapPrivate
      (some (fileKernel.file 0)) 0).toOption.any (fun result => decide (0 ≤ result.1)) = true := by
    decide +kernel
  obtain ⟨⟨ret, k', p'⟩, run, test⟩ := Except.exists_of_any succeeds
  obtain ⟨start, shows_file, -⟩ := (mapping_shows_file fileKernel_mounted fileKernel_sound
    noMemory_regions fileKernel_regular rfl (Nat.dvd_zero pgsize)).1 0 5 protRead mapPrivate
      ret k' p'
    (by decide) (by decide) (by unfold Denies; decide) run
  exact ⟨ret, k', p', start, run, of_decide_eq_true test, shows_file⟩

/-- With `PROT_NONE` and `MAP_FIXED` no page of the file is mapped. -/
theorem mmap_none_fixed : ∃ k' p',
    mmap Fs.mkfsSuper (fun _ _ => 0) fileKernel noMemory mmapbase 5 protNone
      (mapPrivate ||| mapFixed) (some (fileKernel.file 0)) 0 = .ok (mmapbase, k', p') ∧
    Regular Fs.mkfsSuper fileKernel 0 2 ∧ 0 < (fileKernel.volume.inodes 2).size.toNat ∧
    ¬MapsInside fileKernel k' noMemory.pagetable mmapbase 5
      (fileKernel.volume.inodes 2).size.toNat 0 := by
  have succeeds : (mmap Fs.mkfsSuper (fun _ _ => 0) fileKernel noMemory mmapbase 5 protNone
      (mapPrivate ||| mapFixed) (some (fileKernel.file 0)) 0).toOption.any (fun result =>
        decide (result.1 = (mmapbase : Int) ∧
          lookup result.2.1.memory noMemory.pagetable (mmapbase + 0 * pgsize) = none)) = true := by
    decide +kernel
  obtain ⟨⟨ret, k', p'⟩, run, test⟩ := Except.exists_of_any succeeds
  obtain ⟨rfl, unmapped⟩ := of_decide_eq_true test
  have size : 0 < (fileKernel.volume.inodes 2).size.toNat := by
    rw [fileKernel_size]
    decide
  refine ⟨k', p', run, fileKernel_regular, size, ?_⟩
  intro inside
  exact ((inside 0 (by decide)).mpr (by simpa using size)).2 unmapped

end Mapping
end Xv6Duo
