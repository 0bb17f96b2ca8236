import Xv6Duo.Mapping.Load
import Xv6Duo.Mmap.Fixed
import Xv6Duo.Vm.Runs

/-!
# What the loaders do

The loops of `map_file_pages` and `map_anon_pages` map the pages of a range one after another. They
end behind the range, at the end of the file, when there is no memory, or at a page that is mapped.
-/

namespace Xv6Duo
namespace Mapping

open Vm Mmap

variable {sb : Fs.Superblock} {device : OpenFile → Nat → Int} {k k' k₁ l : Kernel} {f : Nat}
  {inum : UInt32} {root va addr length perm flags offset count n : Nat}
  {tables tables' tables₁ : List Nat} {content : Nat → Nat → UInt8}

/-- The number of pages of a range. -/
def pageCount (length : Nat) : Nat := (length + pgsize - 1) / pgsize

/-- A page inside of a range of pages. -/
theorem page_in_range (addr_page : pgsize ∣ addr) (va_page : pgsize ∣ va) (lower : addr ≤ va)
    (upper : va < addr + count * pgsize) : ∃ i < count, va = addr + i * pgsize := by
  obtain ⟨m, rfl⟩ := addr_page
  obtain ⟨n, rfl⟩ := va_page
  rw [show pgsize = 4096 from rfl] at *
  exact ⟨n - m, by omega, by omega⟩

theorem dvd_page (addr_page : pgsize ∣ addr) (i : Nat) : pgsize ∣ addr + i * pgsize :=
  addr_page.add (Nat.dvd_mul_left pgsize i)

/-- The first pages of a range are loaded. -/
structure Loaded (sb : Fs.Superblock) (k k' : Kernel) (root addr count : Nat) (tables' : List Nat)
    (flags : Nat) (content : Nat → Nat → UInt8) : Prop where
  /-- The page table, with more tables. -/
  sound : Sound k' root tables'
  /-- What loading leaves as it is. -/
  loads : Loads sb k k'
  /-- The pages were not mapped. -/
  unmapped : ∀ i < count, lookup k.memory root (addr + i * pgsize) = none
  /-- The pages are mapped and have their content. -/
  mapped : ∀ i < count, ∃ pa, lookup k'.memory root (addr + i * pgsize) = some (pa, flags) ∧
    ∀ j < pgsize, k'.bytes (pa + j) = content i j
  /-- The other pages are mapped as before. -/
  others : ∀ va, pgsize ∣ va → va < maxva → ¬(addr ≤ va ∧ va < addr + count * pgsize) →
    lookup k'.memory root va = lookup k.memory root va
  /-- Each page was taken from `kalloc`. -/
  room : k'.pages.length + count ≤ k.pages.length

theorem Loaded.start (mounted : Mounted sb k.volume) (sound : Sound k root tables) :
    Loaded sb k k root addr 0 tables flags content where
  sound := sound
  loads := Loads.refl mounted
  unmapped _ impossible := absurd impossible (Nat.not_lt_zero _)
  mapped _ impossible := absurd impossible (Nat.not_lt_zero _)
  others _ _ _ _ := rfl
  room := Nat.le_refl _

/-- One more page. -/
theorem Loaded.step (loaded : Loaded sb k k₁ root addr n tables₁ flags content)
    (addr_page : pgsize ∣ addr) (below : addr + (n + 1) * pgsize ≤ maxva)
    (page : PageMapped k₁ l root (addr + n * pgsize) tables' flags (content n))
    (loads : Loads sb k₁ l) : Loaded sb k l root addr (n + 1) tables' flags content := by
  have low (i : Nat) (i_le : i ≤ n) : addr + i * pgsize < maxva := by
    rw [show pgsize = 4096 from rfl] at below ⊢
    omega
  have apart (i : Nat) (i_lt : i < n) : addr + i * pgsize ≠ addr + n * pgsize := by
    rw [show pgsize = 4096 from rfl]
    omega
  refine ⟨page.sound, loaded.loads.trans loads, ?_, ?_, ?_, ?_⟩
  · intro i i_lt
    rcases Nat.lt_succ_iff_lt_or_eq.mp i_lt with earlier | rfl
    · exact loaded.unmapped i earlier
    · rw [← loaded.others _ (dvd_page addr_page i) (low i le_rfl) (by omega)]
      exact page.unmapped
  · intro i i_lt
    rcases Nat.lt_succ_iff_lt_or_eq.mp i_lt with earlier | rfl
    · obtain ⟨pa, mapped, filled⟩ := loaded.mapped i earlier
      refine ⟨pa, ?_, ?_⟩
      · rw [page.others _ (dvd_page addr_page i) (low i earlier.le) (apart i earlier)]
        exact mapped
      · intro j inside
        rw [loads.kept loaded.sound (dvd_page addr_page i) (low i earlier.le) mapped inside,
          filled j inside]
    · obtain ⟨pa, -, mapped, filled⟩ := page.mapped
      exact ⟨pa, mapped, filled⟩
  · intro va va_page va_low outside
    have next : addr + (n + 1) * pgsize = addr + n * pgsize + pgsize := by
      rw [Nat.succ_mul, Nat.add_assoc]
    have differ : va ≠ addr + n * pgsize := by
      rintro rfl
      have positive : 0 < pgsize := by decide
      omega
    rw [page.others va va_page va_low differ, loaded.others va va_page va_low (by omega)]
  · have taken := page.shorter
    have before := loaded.room
    omega

/-- A kernel with an empty page table. -/
def blank (pages : List Nat) (volume : Fs.Volume) (file : OpenFile) : Kernel where
  memory := RadixTree.clear (fun _ _ => 0) 0x80000000 0
  bytes := ByteBlock.zeros
  refcnt := fun _ => 1
  pages := pages
  nodes := 8
  volume := volume
  files := fun _ => file
  clock := fun _ => ⟨0, 0⟩

theorem blank_sound {pages : List Nat} {volume : Fs.Volume} {file : OpenFile}
    (supplied : Supplied [0x80000000] pages) :
    Sound (blank pages volume file) 0x80000000 [0x80000000] ∧
      ∀ va, lookup (blank pages volume file).memory 0x80000000 va = none := by
  have created : uvmcreate (fun _ _ => 0) [0x80000000] =
      some (0x80000000, RadixTree.clear (fun _ _ => 0) 0x80000000 0, []) := rfl
  obtain ⟨table, nothing⟩ := sound_of_uvmcreate created
  refine ⟨⟨table, supplied, ?_⟩, nothing⟩
  intro va pa flags _ _ mapped
  rw [show lookup (blank pages volume file).memory 0x80000000 va = none from nothing va] at mapped
  cases mapped

/-! ## `map_file_pages` -/

/-- The offset of a round. -/
def offsetAt (size : UInt32) (offset : Nat) : Nat → Nat
  | 0 => offset
  | i + 1 =>
      (offsetAt size offset i + roundLength size (UInt32.ofNat (offsetAt size offset i))) % 2 ^ 64

/-- The position behind what a round reads. -/
def posAfter (size off : UInt32) : UInt32 :=
  off + UInt32.ofNat (min (roundLength size off) (size.toNat - off.toNat))

/-- The position of the file after some rounds. -/
def posAt (size start : UInt32) (offset : Nat) : Nat → UInt32
  | 0 => start
  | n + 1 => posAfter size (UInt32.ofNat (offsetAt size offset n))

/-- The rounds so far did not start where the file ends. -/
def BeginsInside (size : UInt32) (offset n : Nat) : Prop :=
  ∀ i < n, UInt32.ofNat (offsetAt size offset i) ≠ size

/-- What the pages of a mapped file hold: the bytes from the offset of each round on. -/
def fileContent (sb : Fs.Superblock) (v : Fs.Volume) (inum : UInt32) (offset i j : Nat) : UInt8 :=
  fileByte sb v inum ((UInt32.ofNat (offsetAt (v.inodes inum).size offset i)).toNat + j)

/-- What `map_file_pages` does with a regular file, by the way it ends. -/
inductive FileOutcome (sb : Fs.Superblock) (k : Kernel) (root addr length flags f : Nat)
    (inum : UInt32) (offset : Nat) : Except Fault (Int × Kernel) → Prop
  /-- All pages are mapped. -/
  | done (begun : BeginsInside (k.volume.inodes inum).size offset (pageCount length)) (k' : Kernel)
      (tables' : List Nat)
      (loaded : Loaded sb k k' root addr (pageCount length) tables' flags
        (fileContent sb k.volume inum offset))
      (moved : k'.files = (k.setOff f (posAt (k.volume.inodes inum).size (k.files f).off offset
        (pageCount length))).files) :
      FileOutcome sb k root addr length flags f inum offset (.ok (0, k'))
  /-- The pages up to the end of the file are mapped. -/
  | eof (n : Nat) (inside : n * pgsize < length)
      (begun : BeginsInside (k.volume.inodes inum).size offset n)
      (at_end : UInt32.ofNat (offsetAt (k.volume.inodes inum).size offset n) =
        (k.volume.inodes inum).size) (k' : Kernel) (tables' : List Nat)
      (loaded : Loaded sb k k' root addr n tables' flags (fileContent sb k.volume inum offset))
      (moved : k'.files = (k.setOff f (k.volume.inodes inum).size).files) :
      FileOutcome sb k root addr length flags f inum offset (.ok (0, k'))
  /-- `kalloc` has no page. -/
  | exhausted : FileOutcome sb k root addr length flags f inum offset (.error .outOfMemory)
  /-- A page is mapped already. -/
  | remap (n : Nat) (inside : n * pgsize < length)
      (before_end : UInt32.ofNat (offsetAt (k.volume.inodes inum).size offset n) ≠
        (k.volume.inodes inum).size) (k₁ : Kernel) (tables₁ : List Nat)
      (loaded : Loaded sb k k₁ root addr n tables₁ flags (fileContent sb k.volume inum offset))
      (some_page : k₁.pages ≠ []) (mapped : lookup k.memory root (addr + n * pgsize) ≠ none) :
      FileOutcome sb k root addr length flags f inum offset (.error .mappagesRemap)

theorem readable_round (v : Fs.Volume) (inum off : UInt32) :
    off + UInt32.ofNat (v.readable inum off (UInt32.ofNat (roundLength (v.inodes inum).size off))) =
      posAfter (v.inodes inum).size off := by
  have page : pgsize = 4096 := rfl
  have short := roundLength_le (v.inodes inum).size off
  rw [posAfter, Fs.Volume.readable, UInt32.toNat_ofNat', Nat.mod_eq_of_lt (by omega)]

theorem inside_iff : n * pgsize < length ↔ n < pageCount length := by
  rw [pageCount, show pgsize = 4096 from rfl]
  omega

/-- The loop of `map_file_pages` from a round on. -/
theorem filePagesLoop_outcome (regular : Regular sb k f inum)
    (readable : (k.files f).readable = true) (is_perm : IsFlags perm) (addr_page : pgsize ∣ addr)
    (below : addr + extent length ≤ maxva) (fuel : Nat)
    (loaded : Loaded sb k k₁ root addr n tables₁ (mappedFlags perm)
      (fileContent sb k.volume inum offset))
    (moved : k₁.files =
      (k.setOff f (posAt (k.volume.inodes inum).size (k.files f).off offset n)).files)
    (begun : BeginsInside (k.volume.inodes inum).size offset n)
    (enough : k₁.pages.length < fuel) (n_le : n ≤ pageCount length) :
    FileOutcome sb k root addr length (mappedFlags perm) f inum offset
      (filePagesLoop sb device root addr length perm f fuel k₁ (n * pgsize)
        (offsetAt (k.volume.inodes inum).size offset n)) := by
  have page : pgsize = 4096 := rfl
  have bound : maxva = 2 ^ 38 := by decide
  have extent_eq : pageCount length * pgsize = extent length := rfl
  induction fuel generalizing k₁ n tables₁ with
  | zero => exact absurd enough (Nat.not_lt_zero _)
  | succ fuel ih =>
      have size_eq : (k₁.volume.inodes inum).size = (k.volume.inodes inum).size :=
        loaded.loads.volume.size inum
      by_cases inside : n * pgsize < length
      · have n_lt := inside_iff.mp inside
        have next_below : addr + (n + 1) * pgsize ≤ maxva := by
          rw [page] at extent_eq ⊢
          omega
        have here_below : addr + n * pgsize < maxva := by
          rw [page] at next_below ⊢
          omega
        have short : n * pgsize + pgsize < 2 ^ 64 := by
          rw [page] at next_below ⊢
          omega
        have moved_from (pos : UInt32) : (k₁.setOff f pos).files = (k.setOff f pos).files := by
          have same : (k₁.setOff f pos).files =
              (Kernel.setOff { k with files := k₁.files } f pos).files := rfl
          rw [same, moved]
          exact setOff_setOff k f _ pos
        have round : FileRound sb device root addr length perm f fuel k₁ inum (n * pgsize)
            (offsetAt (k.volume.inodes inum).size offset n)
            (filePagesLoop sb device root addr length perm f (fuel + 1) k₁ (n * pgsize)
              (offsetAt (k.volume.inodes inum).size offset n)) :=
          filePagesLoop_round loaded.loads.volume.mounted loaded.sound
            (regular.loads loaded.loads) (by rw [loaded.loads.files f]; exact readable) is_perm
            (dvd_page addr_page n) here_below inside fuel
        generalize filePagesLoop sb device root addr length perm f (fuel + 1) k₁ (n * pgsize)
          (offsetAt (k.volume.inodes inum).size offset n) = result at round
        cases round with
        | eof at_end =>
            rw [size_eq] at at_end
            have started := setOff_loads loaded.loads.volume.mounted f
              (UInt32.ofNat (offsetAt (k.volume.inodes inum).size offset n))
            refine FileOutcome.eof n inside begun at_end _ tables₁ ?_
              (by rw [at_end]; exact moved_from _)
            exact ⟨loaded.sound.congr rfl rfl, loaded.loads.trans started, loaded.unmapped,
              loaded.mapped, loaded.others, loaded.room⟩
        | exhausted before_end short => exact FileOutcome.exhausted
        | remap before_end some_page mapped =>
            rw [size_eq] at before_end
            refine FileOutcome.remap n inside before_end k₁ tables₁ loaded some_page ?_
            rw [← loaded.others _ (dvd_page addr_page n) here_below (by omega)]
            exact mapped
        | mapped before_end _ k' tables' mapped loads moved' =>
            rw [size_eq] at before_end moved' ⊢
            have readable_eq := readable_round k₁.volume inum
              (UInt32.ofNat (offsetAt (k.volume.inodes inum).size offset n))
            rw [size_eq] at readable_eq
            rw [readable_eq, moved_from] at moved'
            have content_eq : (fun j => fileByte sb k₁.volume inum ((UInt32.ofNat
                (offsetAt (k.volume.inodes inum).size offset n)).toNat + j)) =
                fileContent sb k.volume inum offset n := by
              funext j
              rw [loaded.loads.volume.fileByte]
              rfl
            rw [content_eq] at mapped
            have shorter := mapped.shorter
            have next : (n * pgsize + pgsize) % 2 ^ 64 = (n + 1) * pgsize := by
              rw [Nat.mod_eq_of_lt short, Nat.succ_mul]
            rw [next]
            have begun' : BeginsInside (k.volume.inodes inum).size offset (n + 1) := by
              intro i i_lt
              rcases Nat.lt_succ_iff_lt_or_eq.mp i_lt with earlier | rfl
              · exact begun i earlier
              · exact before_end
            exact ih (loaded.step addr_page next_below mapped loads) moved' begun' (by omega)
              (by omega)
      · have all : n = pageCount length := by
          rw [inside_iff] at inside
          omega
        subst all
        rw [filePagesLoop, if_neg inside]
        exact FileOutcome.done begun k₁ tables₁ loaded moved

/-- `map_file_pages` on a regular file. -/
theorem mapFilePages_outcome {file : Mmap.File} (mounted : Mounted sb k.volume)
    (sound : Sound k root tables) (regular : Regular sb k file.address inum)
    (readable : (k.files file.address).readable = true) (is_perm : IsFlags perm)
    (addr_page : pgsize ∣ addr) (below : addr + extent length ≤ maxva) (positive : 0 < length) :
    FileOutcome sb k root addr length (mappedFlags perm) file.address inum offset
      (mapFilePages sb device k root addr length perm (some file) offset) := by
  rw [mapFilePages, if_neg positive.ne', deref, Except.ok_bind]
  have run : FileOutcome sb k root addr length (mappedFlags perm) file.address inum offset
      (filePagesLoop sb device root addr length perm file.address (k.pages.length + 1) k
        (0 * pgsize) (offsetAt (k.volume.inodes inum).size offset 0)) :=
    filePagesLoop_outcome regular readable is_perm addr_page below (k.pages.length + 1)
      (Loaded.start mounted sound) setOff_files_self.symm
      (fun _ impossible => absurd impossible (Nat.not_lt_zero _)) (Nat.lt_succ_self _)
      (Nat.zero_le _)
  rw [Nat.zero_mul] at run
  exact run

/-! ## `map_anon_pages` -/

/-- What `map_anon_pages` does, by the way it ends. -/
inductive AnonOutcome (sb : Fs.Superblock) (k : Kernel) (root addr length flags : Nat) :
    Except Fault (Int × Kernel) → Prop
  /-- All pages are mapped. -/
  | done (k' : Kernel) (tables' : List Nat)
      (loaded : Loaded sb k k' root addr (pageCount length) tables' flags fun _ _ => 0)
      (files : k'.files = k.files) :
      AnonOutcome sb k root addr length flags (.ok (0, k'))
  /-- `kalloc` has no page. -/
  | exhausted : AnonOutcome sb k root addr length flags (.error .outOfMemory)
  /-- A page is mapped already. -/
  | remap (n : Nat) (inside : n * pgsize < length) (k₁ : Kernel) (tables₁ : List Nat)
      (loaded : Loaded sb k k₁ root addr n tables₁ flags fun _ _ => 0) (some_page : k₁.pages ≠ [])
      (mapped : lookup k.memory root (addr + n * pgsize) ≠ none) :
      AnonOutcome sb k root addr length flags (.error .mappagesRemap)

/-- The loop of `map_anon_pages` from a round on. -/
theorem anonPagesLoop_outcome (is_perm : IsFlags perm) (addr_page : pgsize ∣ addr)
    (below : addr + extent length ≤ maxva) (fuel : Nat)
    (loaded : Loaded sb k k₁ root addr n tables₁ (mappedFlags perm) fun _ _ => 0)
    (files : k₁.files = k.files) (enough : k₁.pages.length < fuel) (n_le : n ≤ pageCount length) :
    AnonOutcome sb k root addr length (mappedFlags perm)
      (anonPagesLoop root addr length perm fuel k₁ (n * pgsize)) := by
  have page : pgsize = 4096 := rfl
  have bound : maxva = 2 ^ 38 := by decide
  have extent_eq : pageCount length * pgsize = extent length := rfl
  induction fuel generalizing k₁ n tables₁ with
  | zero => exact absurd enough (Nat.not_lt_zero _)
  | succ fuel ih =>
      by_cases inside : n * pgsize < length
      · have n_lt := inside_iff.mp inside
        have next_below : addr + (n + 1) * pgsize ≤ maxva := by
          rw [page] at extent_eq ⊢
          omega
        have here_below : addr + n * pgsize < maxva := by
          rw [page] at next_below ⊢
          omega
        have short : n * pgsize + pgsize < 2 ^ 64 := by
          rw [page] at next_below ⊢
          omega
        have round : AnonRound sb root addr length perm fuel k₁ (n * pgsize)
            (anonPagesLoop root addr length perm (fuel + 1) k₁ (n * pgsize)) :=
          anonPagesLoop_round loaded.loads.volume.mounted loaded.sound is_perm
            (dvd_page addr_page n) here_below inside fuel
        generalize anonPagesLoop root addr length perm (fuel + 1) k₁ (n * pgsize) = result at round
        cases round with
        | exhausted short => exact AnonOutcome.exhausted
        | remap some_page mapped =>
            refine AnonOutcome.remap n inside k₁ tables₁ loaded some_page ?_
            rw [← loaded.others _ (dvd_page addr_page n) here_below (by omega)]
            exact mapped
        | mapped _ k' tables' mapped loads moved =>
            have shorter := mapped.shorter
            have next : (n * pgsize + pgsize) % 2 ^ 64 = (n + 1) * pgsize := by
              rw [Nat.mod_eq_of_lt short, Nat.succ_mul]
            rw [next]
            exact ih (loaded.step addr_page next_below mapped loads) (moved.trans files) (by omega)
              (by omega)
      · have all : n = pageCount length := by
          rw [inside_iff] at inside
          omega
        subst all
        rw [anonPagesLoop, if_neg inside]
        exact AnonOutcome.done k₁ tables₁ loaded files

/-- `map_anon_pages`. -/
theorem mapAnonPages_outcome (mounted : Mounted sb k.volume) (sound : Sound k root tables)
    (is_perm : IsFlags perm) (addr_page : pgsize ∣ addr) (below : addr + extent length ≤ maxva) :
    AnonOutcome sb k root addr length (mappedFlags perm)
      (mapAnonPages k root addr length perm) := by
  have run := anonPagesLoop_outcome (n := 0) is_perm addr_page below (k.pages.length + 1)
    (Loaded.start mounted sound) rfl (Nat.lt_succ_self _) (Nat.zero_le _)
  rw [Nat.zero_mul] at run
  exact run

end Mapping
end Xv6Duo
