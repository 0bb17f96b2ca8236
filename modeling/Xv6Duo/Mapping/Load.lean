import Xv6Duo.Mapping.Pages

/-!
# The loaders

One round of `map_file_pages` and of `map_anon_pages`: it ends the loop, or it maps a page that has
the bytes of the file, or zeros. The loops map the pages of a range from its start on.
-/

namespace Xv6Duo
namespace Mapping

open Vm Mmap

variable {sb : Fs.Superblock} {device : OpenFile → Nat → Int} {k k' l : Kernel} {f : Nat}
  {inum : UInt32} {root va addr length perm cur offset : Nat} {tables tables' : List Nat}

theorem setOff_file (k : Kernel) (f : Nat) (off : UInt32) :
    (k.setOff f off).files f = { k.files f with off := off } :=
  Function.update_self ..

theorem setOff_setOff (k : Kernel) (f : Nat) (first second : UInt32) :
    ((k.setOff f first).setOff f second).files = (k.setOff f second).files := by
  funext g
  by_cases same : g = f
  · rw [same, setOff_file, setOff_file, setOff_file]
  · simp only [Kernel.setOff, Function.update_of_ne same]

theorem setOff_other (k : Kernel) {f g : Nat} (off : UInt32) (other : g ≠ f) :
    (k.setOff f off).files g = k.files g :=
  Function.update_of_ne other _ _

theorem setOff_loads (mounted : Mounted sb k.volume) (f : Nat) (off : UInt32) :
    Loads sb k (k.setOff f off) where
  volume := SameFiles.refl mounted.wellFormed mounted.idle
  files g := by
    by_cases same : g = f
    · rw [same, setOff_file]
    · rw [setOff_other k off same]
  suffix := List.suffix_refl _
  frame _ _ := rfl

/-- `len` of `map_file_pages`. -/
def roundLength (size off : UInt32) : Nat :=
  if pgsize < (size - off).toNat then pgsize else (size - off).toNat

theorem roundLength_le (size off : UInt32) : roundLength size off ≤ pgsize := by
  unfold roundLength
  split <;> omega

theorem sub_toNat {size off : UInt32} (le : off ≤ size) :
    (size - off).toNat = size.toNat - off.toNat :=
  UInt32.toNat_sub_of_le _ _ le

/-- Inside the file a round takes what is left of it, up to a page. -/
theorem roundLength_inside {size off : UInt32} (le : off.toNat ≤ size.toNat) :
    roundLength size off = min pgsize (size.toNat - off.toNat) := by
  rw [roundLength, sub_toNat (UInt32.le_iff_toNat_le.mpr le)]
  split <;> omega

/-- A round takes nothing exactly at the end of the file. -/
theorem roundLength_eq_zero {size off : UInt32} : roundLength size off = 0 ↔ off = size := by
  constructor
  · intro none
    have zero : (size - off).toNat = 0 := by
      unfold roundLength at none
      split at none
      · exact absurd none (by decide)
      · exact none
    have same : size - off = 0 := UInt32.toNat_inj.mp zero
    exact (sub_eq_zero.mp same).symm
  · rintro rfl
    rw [roundLength, UInt32.sub_self]
    rfl

/-- What `fileread` puts into a page: the bytes of the file and zeros behind its end. -/
theorem page_filled {v : Fs.Volume} {bytes : ByteBlock.Bytes} {off : UInt32} {mem j : Nat}
    (inside : j < pgsize) :
    ByteBlock.copyRange (ByteBlock.copyRange bytes mem ByteBlock.zeros 0 pgsize) mem
        (fun i => v.byte sb inum (off.toNat + i)) 0
        (v.readable inum off (UInt32.ofNat (roundLength (v.inodes inum).size off))) (mem + j) =
      fileByte sb v inum (off.toNat + j) := by
  have page : pgsize = 4096 := rfl
  have short := roundLength_le (v.inodes inum).size off
  have asked : (UInt32.ofNat (roundLength (v.inodes inum).size off)).toNat =
      roundLength (v.inodes inum).size off := by
    rw [UInt32.toNat_ofNat', Nat.mod_eq_of_lt (by omega)]
  rw [Fs.Volume.readable, asked, ByteBlock.copyRange]
  split
  · next read =>
      rw [fileByte_inside (by omega), Nat.zero_add, Nat.add_sub_cancel_left]
  · next unread =>
      have beyond : (v.inodes inum).size.toNat ≤ off.toNat + j := by
        rcases Nat.lt_or_ge (v.inodes inum).size.toNat off.toNat with behind | before
        · omega
        · rw [roundLength_inside before] at unread
          omega
      rw [fileByte_outside beyond, ByteBlock.copyRange, if_pos (by omega)]
      rfl

/-- The read of a round of `map_file_pages`. -/
theorem fileread_round (device : OpenFile → Nat → Int) (mounted : Mounted sb k.volume)
    (regular : Regular sb k f inum) (readable : (k.files f).readable = true) {off : UInt32}
    (off_eq : (k.files f).off = off) (mem : Fs.Memory) (addr : Nat) :
    ∃ k', fileread sb device k f false mem addr (roundLength (k.volume.inodes inum).size off) =
        .ok (k.volume.readable inum off
          (UInt32.ofNat (roundLength (k.volume.inodes inum).size off)),
          mem.deliver addr (fun i => k.volume.byte sb inum (off.toNat + i))
            (k.volume.readable inum off
              (UInt32.ofNat (roundLength (k.volume.inodes inum).size off))), k') ∧
      Advanced sb k k' f (off + UInt32.ofNat (k.volume.readable inum off
        (UInt32.ofNat (roundLength (k.volume.inodes inum).size off)))) := by
  subst off_eq
  have page : pgsize = 4096 := rfl
  have short := roundLength_le (k.volume.inodes inum).size (k.files f).off
  refine fileread_spec device mounted regular readable (by omega) ?_
    fun impossible => absurd impossible Bool.false_ne_true
  rcases Nat.lt_or_ge (k.volume.inodes inum).size.toNat (k.files f).off.toNat with behind | before
  · exact Or.inl (UInt32.lt_iff_toNat_lt.mpr behind)
  · have limit := (k.volume.inodes inum).size.toNat_lt
    have inner := roundLength_inside before
    exact Or.inr (by omega)

/-- A round of `map_file_pages`, by the way it ends. -/
inductive FileRound (sb : Fs.Superblock) (device : OpenFile → Nat → Int)
    (root addr length perm f fuel : Nat) (k : Kernel) (inum : UInt32) (cur offset : Nat) :
    Except Fault (Int × Kernel) → Prop
  /-- The end of the file. -/
  | eof (at_end : UInt32.ofNat offset = (k.volume.inodes inum).size) :
      FileRound sb device root addr length perm f fuel k inum cur offset
        (.ok (0, k.setOff f (UInt32.ofNat offset)))
  /-- `kalloc` has no page, for the page or for a table. -/
  | exhausted (before_end : UInt32.ofNat offset ≠ (k.volume.inodes inum).size)
      (short : k.pages.length ≤ missingTables k.memory root (addr + cur)) :
      FileRound sb device root addr length perm f fuel k inum cur offset (.error .outOfMemory)
  /-- The page is mapped. -/
  | remap (before_end : UInt32.ofNat offset ≠ (k.volume.inodes inum).size)
      (some_page : k.pages ≠ []) (mapped : lookup k.memory root (addr + cur) ≠ none) :
      FileRound sb device root addr length perm f fuel k inum cur offset (.error .mappagesRemap)
  /-- A page is mapped, and the loop goes on. -/
  | mapped (before_end : UInt32.ofNat offset ≠ (k.volume.inodes inum).size)
      (enough : missingTables k.memory root (addr + cur) < k.pages.length) (k' : Kernel)
      (tables' : List Nat)
      (page : PageMapped k k' root (addr + cur) tables' (mappedFlags perm)
        fun j => fileByte sb k.volume inum ((UInt32.ofNat offset).toNat + j))
      (loads : Loads sb k k')
      (moved : k'.files = (k.setOff f (UInt32.ofNat offset + UInt32.ofNat (k.volume.readable inum
        (UInt32.ofNat offset) (UInt32.ofNat
          (roundLength (k.volume.inodes inum).size (UInt32.ofNat offset)))))).files) :
      FileRound sb device root addr length perm f fuel k inum cur offset
        (filePagesLoop sb device root addr length perm f fuel k' ((cur + pgsize) % 2 ^ 64)
          ((offset + roundLength (k.volume.inodes inum).size (UInt32.ofNat offset)) % 2 ^ 64))

/-- Each round of `map_file_pages` ends in one of these ways. -/
theorem filePagesLoop_round (mounted : Mounted sb k.volume) (sound : Sound k root tables)
    (regular : Regular sb k f inum) (readable : (k.files f).readable = true)
    (is_perm : IsFlags perm) (va_page : pgsize ∣ addr + cur) (low : addr + cur < maxva)
    (inside : cur < length) (fuel : Nat) :
    FileRound sb device root addr length perm f fuel k inum cur offset
      (filePagesLoop sb device root addr length perm f (fuel + 1) k cur offset) := by
  have page : pgsize = 4096 := rfl
  have bound : maxva = 2 ^ 38 := by decide
  set o := UInt32.ofNat offset with o_eq
  set size := (k.volume.inodes inum).size with size_eq
  set len := roundLength size o with len_eq
  have short : len ≤ pgsize := roundLength_le size o
  have moved_file := setOff_file k f o
  have len_unfolded : (if pgsize < (size - o).toNat then pgsize else (size - o).toNat) = len := rfl
  unfold filePagesLoop
  simp only [if_pos inside, ← o_eq, moved_file, regular.ip, deref, Except.ok_bind,
    show (k.setOff f o).volume = k.volume from rfl, ← size_eq, len_unfolded]
  by_cases at_end : o = size
  · rw [if_pos (roundLength_eq_zero.mpr at_end)]
    exact FileRound.eof at_end
  · have positive : len ≠ 0 := fun none => at_end (roundLength_eq_zero.mp none)
    rw [if_neg positive]
    cases pages_eq : k.pages with
    | nil =>
        have empty : (k.setOff f o).kalloc = .error .outOfMemory := by
          simp only [Kernel.kalloc, Kernel.setOff, pages_eq]
        rw [empty]
        refine FileRound.exhausted at_end ?_
        rw [pages_eq]
        exact Nat.zero_le _
    | cons mem rest =>
        have taken : (k.setOff f o).kalloc = .ok (mem, { k.setOff f o with
            pages := rest
            refcnt := Function.update k.refcnt mem 1 }) := by
          simp only [Kernel.kalloc, Kernel.setOff, pages_eq]
        rw [taken, Except.ok_bind]
        simp only []
        set k₂ : Kernel := Kernel.clearPage { k.setOff f o with
          pages := rest
          refcnt := Function.update k.refcnt mem 1 } mem with k₂_eq
        have file₂ : k₂.files f = { k.files f with off := o } := moved_file
        have regular₂ : Regular sb k₂ f inum := by
          refine ⟨?_, ?_, regular.live⟩
          · rw [file₂]
            exact regular.type
          · rw [file₂]
            exact regular.ip
        have mounted₂ : Mounted sb k₂.volume := mounted
        have readable₂ : (k₂.files f).readable = true := by
          rw [file₂]
          exact readable
        set count := k.volume.readable inum o (UInt32.ofNat len) with count_eq
        obtain ⟨k₃, read, advanced⟩ : ∃ k₃, fileread sb device k₂ f false
            ⟨k₂.bytes, fun _ => true, fun _ => true⟩ mem len =
              .ok (count, Fs.Memory.deliver ⟨k₂.bytes, fun _ => true, fun _ => true⟩ mem
                (fun i => k.volume.byte sb inum (o.toNat + i)) count, k₃) ∧
            Advanced sb k₂ k₃ f (o + UInt32.ofNat count) :=
          fileread_round device mounted₂ regular₂ readable₂ (by rw [file₂]) _ mem
        rw [read]
        simp only [Except.ok_bind]
        have not_negative : ¬((count : Int) < 0) := by omega
        have no_wrap : (addr + cur) % 2 ^ 64 = addr + cur := Nat.mod_eq_of_lt (by omega)
        rw [if_neg not_negative, no_wrap]
        set bytes := (Fs.Memory.deliver ⟨k₂.bytes, fun _ => true, fun _ => true⟩ mem
          (fun i => k.volume.byte sb inum (o.toNat + i)) count).bytes with bytes_eq
        have filled : ∀ j < pgsize, bytes (mem + j) = fileByte sb k.volume inum (o.toNat + j) :=
          fun j j_lt => page_filled j_lt
        have frame : ∀ a, ¬(mem ≤ a ∧ a < mem + pgsize) → bytes a = k.bytes a := by
          intro a outside
          have count_le : count ≤ len := by
            have asked : (UInt32.ofNat len).toNat = len := by
              rw [UInt32.toNat_ofNat', Nat.mod_eq_of_lt (by omega)]
            rw [count_eq, Fs.Volume.readable, asked]
            exact min_le_left _ _
          rw [bytes_eq, Fs.Volume.deliver_outside _ _ (by omega)]
          change ByteBlock.copyRange k.bytes mem ByteBlock.zeros 0 pgsize a = k.bytes a
          rw [ByteBlock.copyRange, if_neg outside]
        have memory₃ : k₃.memory = k.memory := advanced.memory
        have pages₃ : k₃.pages = rest := advanced.pages
        have mem_page : mem ∈ k.pages := by
          rw [pages_eq]
          exact List.mem_cons_self
        have files₃ : k₃.files = (k.setOff f (o + UInt32.ofNat count)).files := by
          rw [advanced.files]
          exact setOff_setOff k f o _
        have loads (l : Kernel) (volume : l.volume = k₃.volume) (files : l.files = k₃.files)
            (suffix : l.pages <:+ k.pages) (same : l.bytes = bytes) : Loads sb k l := by
          refine ⟨?_, ?_, suffix, ?_⟩
          · rw [volume]
            exact advanced.volume
          · intro g
            rw [files, files₃]
            exact (setOff_loads mounted f (o + UInt32.ofNat count)).files g
          · intro a outside
            rw [same, frame a (outside mem mem_page)]
        rcases map_fresh (l := { k₃ with bytes := bytes }) sound pages_eq memory₃ pages₃
          filled frame va_page low (Nat.pos_of_ne_zero positive) short
            is_perm with ⟨short, run⟩ | ⟨mapped, run⟩ |
            ⟨after, left, tables', run, enough, page⟩
        · rw [run]
          exact FileRound.exhausted at_end short
        · rw [run]
          exact FileRound.remap at_end (by rw [pages_eq]; exact List.cons_ne_nil mem rest) mapped
        · rw [run]
          exact FileRound.mapped at_end enough _ tables' page
            (loads _ rfl rfl page.suffix rfl) files₃

/-- A round of `map_anon_pages`, by the way it ends. -/
inductive AnonRound (sb : Fs.Superblock) (root addr length perm fuel : Nat) (k : Kernel)
    (cur : Nat) :
    Except Fault (Int × Kernel) → Prop
  /-- `kalloc` has no page, for the page or for a table. -/
  | exhausted (short : k.pages.length ≤ missingTables k.memory root (addr + cur)) :
      AnonRound sb root addr length perm fuel k cur (.error .outOfMemory)
  /-- The page is mapped. -/
  | remap (some_page : k.pages ≠ []) (mapped : lookup k.memory root (addr + cur) ≠ none) :
      AnonRound sb root addr length perm fuel k cur (.error .mappagesRemap)
  /-- A page is mapped, and the loop goes on. -/
  | mapped (enough : missingTables k.memory root (addr + cur) < k.pages.length) (k' : Kernel)
      (tables' : List Nat)
      (page : PageMapped k k' root (addr + cur) tables' (mappedFlags perm) fun _ => 0)
      (loads : Loads sb k k') (files : k'.files = k.files) :
      AnonRound sb root addr length perm fuel k cur
        (anonPagesLoop root addr length perm fuel k' ((cur + pgsize) % 2 ^ 64))

/-- Each round of `map_anon_pages` ends in one of these ways. -/
theorem anonPagesLoop_round (mounted : Mounted sb k.volume) (sound : Sound k root tables)
    (is_perm : IsFlags perm) (va_page : pgsize ∣ addr + cur) (low : addr + cur < maxva)
    (inside : cur < length) (fuel : Nat) :
    AnonRound sb root addr length perm fuel k cur
      (anonPagesLoop root addr length perm (fuel + 1) k cur) := by
  have bound : maxva = 2 ^ 38 := by decide
  have no_wrap : (addr + cur) % 2 ^ 64 = addr + cur := Nat.mod_eq_of_lt (by omega)
  unfold anonPagesLoop
  rw [if_pos inside, no_wrap]
  cases pages_eq : k.pages with
  | nil =>
      have empty : k.kalloc = .error .outOfMemory := by simp only [Kernel.kalloc, pages_eq]
      rw [empty]
      refine AnonRound.exhausted ?_
      rw [pages_eq]
      exact Nat.zero_le _
  | cons mem rest =>
      have taken : k.kalloc = .ok (mem, { k with
          pages := rest
          refcnt := Function.update k.refcnt mem 1 }) := by
        simp only [Kernel.kalloc, pages_eq]
      rw [taken, Except.ok_bind]
      simp only [Kernel.clearPage]
      set bytes := ByteBlock.copyRange k.bytes mem ByteBlock.zeros 0 pgsize with bytes_eq
      have filled : ∀ j < pgsize, bytes (mem + j) = 0 := by
        intro j j_lt
        rw [bytes_eq, ByteBlock.copyRange, if_pos (by omega)]
        rfl
      have frame : ∀ a, ¬(mem ≤ a ∧ a < mem + pgsize) → bytes a = k.bytes a := by
        intro a outside
        rw [bytes_eq, ByteBlock.copyRange, if_neg outside]
      have mem_page : mem ∈ k.pages := by
        rw [pages_eq]
        exact List.mem_cons_self
      have loads (l : Kernel) (volume : l.volume = k.volume) (files : l.files = k.files)
          (suffix : l.pages <:+ k.pages) (same : l.bytes = bytes) : Loads sb k l := by
        refine ⟨?_, ?_, suffix, ?_⟩
        · rw [volume]
          exact SameFiles.refl mounted.wellFormed mounted.idle
        · intro g
          rw [files]
        · intro a outside
          rw [same, frame a (outside mem mem_page)]
      rcases map_fresh (l := { k with
        pages := rest
        refcnt := Function.update k.refcnt mem 1
        bytes := bytes }) sound pages_eq rfl rfl filled frame va_page low (by decide)
        (Nat.le_refl pgsize) is_perm with ⟨short, run⟩ | ⟨mapped, run⟩ |
          ⟨after, left, tables', run, enough, page⟩
      · rw [run]
        exact AnonRound.exhausted short
      · rw [run]
        exact AnonRound.remap (by rw [pages_eq]; exact List.cons_ne_nil mem rest) mapped
      · rw [run]
        exact AnonRound.mapped enough _ tables' page (loads _ rfl rfl page.suffix rfl) rfl

end Mapping
end Xv6Duo
