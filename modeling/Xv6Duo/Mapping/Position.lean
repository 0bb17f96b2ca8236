import Xv6Duo.Library.GuardedRun
import Xv6Duo.Mapping.Contents

/-!
# Positions of mapped files

`map_file_pages` sets the position of the open file to the place of each page that it reads, so that
a call that loads pages of a file moves its position. The other calls leave all positions alone, and
in a run of such calls reads, writes and seeks find the positions that they would find without them.
-/

namespace Xv6Duo
namespace Mapping

open Vm Mmap Except

variable {sb : Fs.Superblock} {device : OpenFile → Nat → Int} {k k' : Kernel} {p p' : Proc}
  {root addr length perm prot flags offset : Nat} {code : Int}

/-! ## Calls that load no file -/

theorem unmap_files {va npages : Nat} (run : k.unmap root va npages = .ok k') :
    k'.files = k.files := by
  obtain ⟨⟨memory, freed⟩, -, returns⟩ := bind_eq_ok.mp run
  cases returns
  rfl

theorem kalloc_files {mem : Nat} (taken : k.kalloc = .ok (mem, k')) : k'.files = k.files := by
  obtain ⟨rest, -, rfl⟩ := kalloc_eq_ok taken
  rfl

theorem mappages_files {va size pa : Nat} (run : k.mappages root va size pa perm = .ok k') :
    k'.files = k.files := by
  obtain ⟨⟨mapped, memory, pages⟩, -, rest⟩ := bind_eq_ok.mp run
  dsimp only at rest
  split at rest
  · cases rest
  · cases rest
    rfl

theorem anonPagesLoop_files {fuel cur : Nat}
    (run : anonPagesLoop root addr length perm fuel k cur = .ok (code, k')) :
    k'.files = k.files := by
  induction fuel generalizing k cur with
  | zero => cases run
  | succ fuel ih =>
      unfold anonPagesLoop at run
      split at run
      · obtain ⟨⟨mem, l⟩, taken, rest⟩ := bind_eq_ok.mp run
        obtain ⟨l', maps, rest⟩ := bind_eq_ok.mp rest
        have same : l.files = k.files := kalloc_files taken
        exact (ih rest).trans ((mappages_files maps).trans same)
      · cases run
        rfl

/-- `mmap_load_pages` for anonymous memory, or for no bytes. -/
theorem mmapLoadPages_files {f : Option Mmap.File}
    (rests : flags &&& mapAnonymous ≠ 0 ∨ f = none ∨ length = 0)
    (run : mmapLoadPages sb device k root addr length prot flags f offset = .ok (code, k')) :
    k'.files = k.files := by
  unfold mmapLoadPages at run
  split at run
  · exact anonPagesLoop_files run
  · next backed =>
      unfold mapFilePages at run
      split at run
      · cases run
        rfl
      · next some_bytes =>
          rcases rests with anonymous | rfl | none
          · exact absurd anonymous backed
          · cases run
          · exact absurd none some_bytes

theorem mapRegion_files {f : Option Mmap.File}
    (rests : flags &&& mapAnonymous ≠ 0 ∨ f = none ∨ length = 0 ∨ k.nodes = 0 ∨
      usertop < (addr + pgroundup length) % 2 ^ 64)
    (run : mapRegion sb device k p addr length prot flags f offset = .ok (code, k', p')) :
    k'.files = k.files := by
  unfold mapRegion at run
  split_ifs at run with high node both
  · cases run
    rfl
  · cases run
    rfl
  · cases run
    rfl
  · obtain ⟨⟨error, l⟩, loads, returns⟩ := bind_eq_ok.mp run
    have same : l.files = Kernel.files { k with nodes := k.nodes - 1 } := by
      refine mmapLoadPages_files ?_ loads
      rcases rests with anonymous | none | empty | impossible | impossible
      · exact Or.inl anonymous
      · exact Or.inr (Or.inl none)
      · exact Or.inr (Or.inr empty)
      · exact absurd impossible node
      · exact absurd impossible high
    dsimp only at returns
    split at returns
    · cases returns
      exact same
    · cases returns
      exact same

theorem denyLoop_files {count a : Nat} (run : denyLoop root count k a = .ok k') :
    k'.files = k.files := by
  induction count generalizing k a with
  | zero =>
      cases run
      rfl
  | succ count ih =>
      obtain ⟨⟨entry, l⟩, walks, rest⟩ := bind_eq_ok.mp run
      obtain ⟨⟨pte, memory, pages⟩, -, found⟩ := bind_eq_ok.mp walks
      dsimp only at found
      split at found
      · cases found
      · cases found
        exact (ih rest).trans rfl

/-- The address that `mmap` goes on with, unless it refuses the call or only takes pages away. -/
def chosenAddr (regions : List MmapRegion) (addr length prot flags : Nat) : Option Nat :=
  if addr ≠ 0 then
    if usertop < pgroundup ((pgroundup addr + length) % 2 ^ 64) then none
    else if flags &&& mapFixed ≠ 0 then
      if addr &&& (pgsize - 1) ≠ 0 then none
      else if prot = protNone then none
      else if ¬isUsable regions addr length then none
      else some addr
    else some (selectAddr (pgroundup length) regions (pgrounddown addr))
  else
    some (selectAddr (pgroundup length) regions (match regions with
      | [] => mmapbase
      | region :: _ => region.addr))

/-- `mmap` comes to `map_file_pages` with some bytes. -/
def MapsFile (k : Kernel) (p : Proc) (addr length prot flags : Nat) (f : Option Mmap.File) : Prop :=
  flags &&& mapAnonymous = 0 ∧ f ≠ none ∧ length ≠ 0 ∧ k.nodes ≠ 0 ∧
    ∃ a ∈ chosenAddr p.regions addr length prot flags, (a + pgroundup length) % 2 ^ 64 ≤ usertop

theorem mmap_files {f : Option Mmap.File} (rests : ¬MapsFile k p addr length prot flags f)
    (run : mmap sb device k p addr length prot flags f offset = .ok (code, k', p')) :
    k'.files = k.files := by
  have rests_at (a : Nat) (chosen : chosenAddr p.regions addr length prot flags = some a) :
      flags &&& mapAnonymous ≠ 0 ∨ f = none ∨ length = 0 ∨ k.nodes = 0 ∨
        usertop < (a + pgroundup length) % 2 ^ 64 := by
    by_contra all
    simp only [not_or, ne_eq, not_not, Nat.not_lt] at all
    exact rests ⟨all.1, all.2.1, all.2.2.1, all.2.2.2.1, a, chosen, all.2.2.2.2⟩
  unfold chosenAddr at rests_at
  unfold mmap at run
  split_ifs at run rests_at with some_addr high fixed unaligned none usable
  · cases run
    rfl
  · cases run
    rfl
  · obtain ⟨l, denies, returns⟩ := bind_eq_ok.mp run
    cases returns
    exact denyLoop_files denies
  · exact mapRegion_files (rests_at _ rfl) run
  · cases run
    rfl
  · exact mapRegion_files (rests_at _ rfl) run
  · exact mapRegion_files (rests_at _ rfl) run

/-! ## Page faults -/

theorem allocMmapPage_files {access : Access}
    (rests : ∀ region, p.region (pgrounddown addr) = some region →
      (access = .store → region.prot &&& protWrite ≠ 0) → region.flags &&& mapAnonymous ≠ 0)
    (run : allocMmapPage sb device k p addr access = .ok (code, k')) : k'.files = k.files := by
  cases found : p.region (pgrounddown addr) with
  | none =>
      simp only [allocMmapPage, found] at run
      cases run
      rfl
  | some region =>
      rw [allocMmapPage_eq found] at run
      split_ifs at run with refused
      · cases run
        rfl
      · obtain ⟨⟨error, l⟩, loads, returns⟩ := bind_eq_ok.mp run
        cases returns
        exact mmapLoadPages_files
          (Or.inl (rests region found fun store none => refused ⟨store, none⟩)) loads

theorem allocCowPage_files {va : Nat} (run : allocCowPage k root va = .ok (code, k')) :
    k'.files = k.files := by
  unfold allocCowPage at run
  split_ifs at run
  · cases run
    rfl
  · split at run
    · cases run
      rfl
    · next table i found =>
        dsimp only at run
        split_ifs at run
        · cases run
          rfl
        · cases run
          rfl
        · cases run
          rfl
        · obtain ⟨⟨mem, l⟩, taken, rest⟩ := bind_eq_ok.mp run
          obtain ⟨l', unmaps, rest⟩ := bind_eq_ok.mp rest
          obtain ⟨l'', maps, returns⟩ := bind_eq_ok.mp rest
          cases returns
          have same : l.files = k.files := kalloc_files taken
          exact (mappages_files maps).trans ((unmap_files unmaps).trans same)
        · cases run
          rfl
        · cases run
          rfl

/-- `alloc_cow_page` leaves a store to `alloc_mmap_page`: there is no entry for the user, or the
entry can be written. -/
def PassesCow (k : Kernel) (root va : Nat) : Prop :=
  va < maxva ∧ ∀ table i, (walkLevels va false 2 k.memory root []).1 = some (table, i) →
    k.memory table i &&& pteV = 0 ∨ k.memory table i &&& pteU = 0 ∨ k.memory table i &&& pteW ≠ 0

theorem passesCow_of_one {va : Nat} (run : allocCowPage k root va = .ok (1, k')) :
    PassesCow k root va := by
  have low : ¬maxva ≤ va := by
    intro high
    rw [allocCowPage, if_pos high] at run
    cases run
  refine ⟨Nat.lt_of_not_le low, ?_⟩
  intro table i found
  rw [allocCowPage, if_neg low, found] at run
  dsimp only at run
  split_ifs at run with outside own writable
  · exact outside.elim Or.inl fun user => Or.inr (Or.inl user)
  · cases run
  · refine Or.inr (Or.inr ?_)
    rcases writable with some_write | shared
    · exact some_write
    · exact fun none => own ⟨shared, none⟩
  · obtain ⟨l, -, rest⟩ := bind_eq_ok.mp run
    obtain ⟨l, -, rest⟩ := bind_eq_ok.mp rest
    obtain ⟨l, -, returns⟩ := bind_eq_ok.mp rest
    cases returns
  · cases run
  · cases run

/-- A page fault comes to `map_file_pages`. -/
def FaultsFile (k : Kernel) (p : Proc) (access : Access) (stval : Nat) : Prop :=
  ∃ region, p.region (pgrounddown stval) = some region ∧ region.flags &&& mapAnonymous = 0 ∧
    (access = .store → region.prot &&& protWrite ≠ 0 ∧ PassesCow k p.pagetable stval)

theorem usertrap_files {access : Access} {stval : Nat} {killed : Bool}
    (rests : ¬FaultsFile k p access stval)
    (run : usertrap sb device k p access stval = .ok (killed, k')) : k'.files = k.files := by
  cases access with
  | load =>
      obtain ⟨⟨ret, l⟩, loads, returns⟩ := bind_eq_ok.mp run
      cases returns
      refine allocMmapPage_files ?_ loads
      intro region found _ none
      exact rests ⟨region, found, none, fun impossible => by cases impossible⟩
  | store =>
      obtain ⟨⟨ret, l⟩, copies, rest⟩ := bind_eq_ok.mp run
      have same := allocCowPage_files copies
      dsimp only at rest
      split_ifs at rest with negative one
      · cases rest
        exact same
      · obtain ⟨⟨ret', l'⟩, loads, returns⟩ := bind_eq_ok.mp rest
        cases returns
        refine (allocMmapPage_files ?_ loads).trans same
        intro region found writes none
        subst one
        exact rests ⟨region, found, none, fun _ => ⟨writes rfl, passesCow_of_one copies⟩⟩
      · cases rest
        exact same

/-! ## `munmap` and `msync` -/

theorem writeback_files {f : Option Mmap.File} {off : Nat}
    (run : writeback sb k root f off addr = .ok (code, k')) : k'.files = k.files := by
  unfold writeback at run
  split at run
  · cases run
    rfl
  · dsimp only at run
    split at run
    · cases run
      rfl
    · obtain ⟨inum, -, rest⟩ := bind_eq_ok.mp run
      obtain ⟨⟨r, ip, state⟩, -, returns⟩ := bind_eq_ok.mp rest
      exact (congrArg (fun result : Int × Kernel => result.2.files) (Except.ok.inj returns)).symm

/-- The part of a round that writes a page back. -/
def writeDirty (sb : Fs.Superblock) (k : Kernel) (p : Proc) (region : MmapRegion)
    (pte offset ra : Nat) :
    Except Fault (Int × Kernel) :=
  if pteFlags pte &&& pteD ≠ 0 then writeback sb k p.pagetable region.f offset ra else .ok (0, k)

theorem writebackLoop_succ {region : MmapRegion} {finish fuel ra : Nat} :
    writebackLoop sb p region finish (fuel + 1) k ra =
      if ra < finish then do
        let (pte, _, _) ← walk k.memory p.pagetable ra false []
        match pte with
        | none => .error .munmapNoPte
        | some (table, i) => do
            let offset := (region.offset + ra + 2 ^ 64 - region.addr) % 2 ^ 64
            let (code, k) ← writeDirty sb k p region (k.memory table i) offset ra
            if code < 0 then return (-eacces, k)
            let f ← deref region.f
            let inum ← deref (k.files f.address).ip
            if (k.volume.inodes inum).size.toNat ≤ (offset + pgsize) % 2 ^ 64 then return (0, k)
            writebackLoop sb p region finish fuel k ((ra + pgsize) % 2 ^ 64)
      else return (0, k) := by
  rw [writebackLoop]
  congr 1
  unfold writeDirty
  apply congrArg
  funext found
  obtain ⟨pte, memory, pages⟩ := found
  cases pte with
  | none => rfl
  | some entry =>
      dsimp only
      split <;> rfl

theorem writebackLoop_files {region : MmapRegion} {finish fuel ra : Nat}
    (run : writebackLoop sb p region finish fuel k ra = .ok (code, k')) : k'.files = k.files := by
  induction fuel generalizing k ra with
  | zero => cases run
  | succ fuel ih =>
      rw [writebackLoop_succ] at run
      split at run
      · obtain ⟨⟨pte, memory, pages⟩, -, rest⟩ := bind_eq_ok.mp run
        dsimp only at rest
        split at rest
        · cases rest
        · next table i =>
            obtain ⟨⟨ret, l⟩, writes, rest⟩ := bind_eq_ok.mp rest
            have same : l.files = k.files := by
              unfold writeDirty at writes
              split at writes
              · exact writeback_files writes
              · cases writes
                rfl
            dsimp only at rest
            split at rest
            · cases rest
              exact same
            · obtain ⟨f, -, rest⟩ := bind_eq_ok.mp rest
              obtain ⟨inum, -, rest⟩ := bind_eq_ok.mp rest
              split at rest
              · cases rest
                exact same
              · exact (ih rest).trans same
      · cases run
        rfl

theorem writebackRegion_files {region : MmapRegion}
    (run : writebackRegion sb k p region addr length = .ok (code, k')) : k'.files = k.files := by
  unfold writebackRegion at run
  split at run
  · exact writebackLoop_files run
  · cases run
    rfl

theorem munmap_files (run : munmap sb k p addr length = .ok (code, k', p')) :
    k'.files = k.files := by
  unfold munmap at run
  split at run
  · cases run
    rfl
  · split at run
    · cases run
      rfl
    · next i found =>
        obtain ⟨region, -, rest⟩ := bind_eq_ok.mp run
        obtain ⟨⟨ret, l⟩, writes, rest⟩ := bind_eq_ok.mp rest
        have same := writebackRegion_files writes
        dsimp only at rest
        split_ifs at rest
        · cases rest
          exact same
        · obtain ⟨⟨l', q⟩, deletes, returns⟩ := bind_eq_ok.mp rest
          obtain ⟨l'', unmaps, deletes⟩ := bind_eq_ok.mp deletes
          cases deletes
          cases returns
          exact (unmap_files unmaps).trans same
        · obtain ⟨l', unmaps, returns⟩ := bind_eq_ok.mp rest
          cases returns
          exact (unmap_files unmaps).trans same

theorem msync_files (run : msync sb k p addr length flags = .ok (code, k')) :
    k'.files = k.files := by
  unfold msync at run
  dsimp only at run
  generalize (if flags &&& msAsync = 0 ∧ flags &&& msSync = 0 then flags ||| msAsync else flags) =
    flags at run
  split_ifs at run
  · cases run
    rfl
  · cases run
    rfl
  · split at run
    · cases run
      rfl
    · exact writebackRegion_files run

/-! ## `mprotect` -/

theorem protectLoop_files {finish fuel a : Nat}
    (run : protectLoop root finish prot fuel k a = .ok (code, k')) : k'.files = k.files := by
  induction fuel generalizing k a with
  | zero => cases run
  | succ fuel ih =>
      unfold protectLoop at run
      split at run
      · obtain ⟨⟨pte, memory, pages⟩, -, rest⟩ := bind_eq_ok.mp run
        dsimp only at rest
        split at rest
        · cases rest
          rfl
        · split at rest
          · cases rest
            rfl
          · exact (ih rest).trans rfl
      · cases run
        rfl

/-- The ranges that `mprotect` maps again, each with its length and protection. -/
def splitPieces (region : MmapRegion) (addr length prot : Nat) : List (Nat × Nat × Nat) :=
  if region.addr = addr then
    [(addr, length, prot), ((addr + length) % 2 ^ 64, region.length - length, region.prot)]
  else if (addr + length) % 2 ^ 64 = region.finish then
    [(region.addr, region.length - length, region.prot), (addr, length, prot)]
  else
    [(region.addr, addr - region.addr, region.prot), (addr, length, prot),
      ((addr + length) % 2 ^ 64, region.length - (addr - region.addr) - length, region.prot)]

/-- `mprotect` comes to `map_file_pages` for a part of a region. -/
def SplitsFile (p : Proc) (addr length prot : Nat) : Prop :=
  p.sz < addr ∧ p.isMmapRegion addr (pgroundup length) = true ∧
    ∃ region, p.region addr = some region ∧ region.flags &&& mapAnonymous = 0 ∧ region.f ≠ none ∧
      ¬(region.prot &&& (protRead ||| protWrite) = protRead ∧ prot &&& protWrite ≠ 0) ∧
      ¬(region.addr = addr ∧ region.length = pgroundup length) ∧
      ∃ piece ∈ splitPieces region addr (pgroundup length) prot,
        piece.2.1 ≠ 0 ∧ ¬Denies piece.1 piece.2.2 (region.flags ||| mapFixed)

/-- A range that is mapped again. -/
theorem mmap_piece_files {region : MmapRegion} {piece : Nat × Nat × Nat}
    (rests : region.flags &&& mapAnonymous ≠ 0 ∨ region.f = none ∨ piece.2.1 = 0 ∨
      Denies piece.1 piece.2.2 (region.flags ||| mapFixed))
    (run : mmap sb device k p piece.1 piece.2.1 piece.2.2 (region.flags ||| mapFixed)
      region.f offset = .ok (code, k', p')) : k'.files = k.files := by
  refine mmap_files ?_ run
  rintro ⟨not_anonymous, some_file, some_bytes, -, a, chosen, -⟩
  rcases rests with anonymous | none | empty | ⟨some_addr, fixed, none⟩
  · rw [Nat.and_or_distrib_right, Nat.or_eq_zero_iff] at not_anonymous
    exact anonymous not_anonymous.1
  · exact some_file none
  · exact some_bytes empty
  · unfold chosenAddr at chosen
    split_ifs at chosen with high unaligned <;> cases chosen

theorem splitRegion_files {region : MmapRegion}
    (rests : ∀ piece ∈ splitPieces region addr length prot, region.flags &&& mapAnonymous ≠ 0 ∨
      region.f = none ∨ piece.2.1 = 0 ∨ Denies piece.1 piece.2.2 (region.flags ||| mapFixed))
    (run : splitRegion sb device k p region addr length prot = .ok (code, k', p')) :
    k'.files = k.files := by
  obtain ⟨⟨error, l, q⟩, unmaps, rest⟩ := bind_eq_ok.mp run
  have same := munmap_files unmaps
  unfold splitPieces at rests
  dsimp only at rest
  split at rest
  · cases rest
    exact same
  · by_cases first : region.addr = addr
    · rw [if_pos first] at rest rests
      obtain ⟨⟨c₁, l₁, q₁⟩, map₁, rest⟩ := bind_eq_ok.mp rest
      obtain ⟨⟨c₂, l₂, q₂⟩, map₂, returns⟩ := bind_eq_ok.mp rest
      cases returns
      have same₁ := mmap_piece_files (rests _ List.mem_cons_self) map₁
      have same₂ := mmap_piece_files (rests _ (List.mem_cons_of_mem _ List.mem_cons_self)) map₂
      exact same₂.trans (same₁.trans same)
    · rw [if_neg first] at rest rests
      by_cases last : (addr + length) % 2 ^ 64 = region.finish
      · rw [if_pos last] at rest rests
        obtain ⟨⟨c₁, l₁, q₁⟩, map₁, rest⟩ := bind_eq_ok.mp rest
        obtain ⟨⟨c₂, l₂, q₂⟩, map₂, returns⟩ := bind_eq_ok.mp rest
        cases returns
        have same₁ := mmap_piece_files (rests _ List.mem_cons_self) map₁
        have same₂ := mmap_piece_files (rests _ (List.mem_cons_of_mem _ List.mem_cons_self)) map₂
        exact same₂.trans (same₁.trans same)
      · rw [if_neg last] at rest rests
        obtain ⟨⟨c₁, l₁, q₁⟩, map₁, rest⟩ := bind_eq_ok.mp rest
        obtain ⟨⟨c₂, l₂, q₂⟩, map₂, rest⟩ := bind_eq_ok.mp rest
        obtain ⟨⟨c₃, l₃, q₃⟩, map₃, returns⟩ := bind_eq_ok.mp rest
        cases returns
        have same₁ := mmap_piece_files (rests _ List.mem_cons_self) map₁
        have same₂ := mmap_piece_files (rests _ (List.mem_cons_of_mem _ List.mem_cons_self)) map₂
        have same₃ := mmap_piece_files (rests _ (List.mem_cons_of_mem _
          (List.mem_cons_of_mem _ List.mem_cons_self))) map₃
        exact same₃.trans (same₂.trans (same₁.trans same))

theorem mprotect_files (rests : ¬SplitsFile p addr length prot)
    (run : mprotect sb device k p addr length prot = .ok (code, k', p')) : k'.files = k.files := by
  unfold mprotect at run
  split_ifs at run with program inside
  · obtain ⟨⟨ret, l⟩, protects, returns⟩ := bind_eq_ok.mp run
    cases returns
    exact protectLoop_files protects
  · cases found : p.regions.findIdx? fun region => decide (region.Contains addr) with
    | none =>
        rw [found] at run
        cases run
    | some i =>
        rw [found] at run
        obtain ⟨region, at_i, rest⟩ := bind_eq_ok.mp run
        have here : p.region addr = some region := by
          rw [Proc.region, List.find?_eq_bind_findIdx?_getElem?, found]
          exact deref_eq_ok.mp at_i
        dsimp only at rest
        split_ifs at rest with refused whole
        · cases rest
          rfl
        · cases rest
          rfl
        · refine splitRegion_files ?_ rest
          intro piece mem
          by_contra loads
          simp only [not_or, ne_eq, not_not] at loads
          exact rests ⟨Nat.lt_of_not_le program, inside, region, here, loads.1, loads.2.1,
            refused, whole, piece, mem, loads.2.2.1, loads.2.2.2⟩
  · cases run
    rfl

/-! ## Runs -/

/-- A call that works on mapped memory. -/
inductive Call
  /-- `mmap`. -/
  | mmap (addr length prot flags : Nat) (f : Option Mmap.File) (offset : Nat)
  /-- A page fault. -/
  | fault (access : Access) (stval : Nat)
  /-- `mprotect`. -/
  | mprotect (addr length prot : Nat)
  /-- `munmap`. -/
  | munmap (addr length : Nat)
  /-- `msync`. -/
  | msync (addr length flags : Nat)

/-- The kernel and its processes. -/
structure System where
  /-- The kernel. -/
  kernel : Kernel
  /-- Processes. -/
  procs : Nat → Proc

/-- A step of a system: a call of a process, or a call that moves the position of an open file and
may change anything but the open files. -/
inductive Step
  /-- A call that works on mapped memory. -/
  | call (pid : Nat) (made : Call)
  /-- `read`, `write` or `lseek`. -/
  | io (f : Nat) (move : UInt32 → UInt32) (effect : Kernel → Kernel)

/-- The effect of a call. -/
def Call.perform (sb : Fs.Superblock) (device : OpenFile → Nat → Int) (k : Kernel) (p : Proc) :
    Call → Except Fault (Kernel × Proc)
  | .mmap addr length prot flags f offset => do
      let (_, k, p) ← Mapping.mmap sb device k p addr length prot flags f offset
      return (k, p)
  | .fault access stval => do
      let (_, k) ← usertrap sb device k p access stval
      return (k, p)
  | .mprotect addr length prot => do
      let (_, k, p) ← Mapping.mprotect sb device k p addr length prot
      return (k, p)
  | .munmap addr length => do
      let (_, k, p) ← Mapping.munmap sb k p addr length
      return (k, p)
  | .msync addr length flags => do
      let (_, k) ← Mapping.msync sb k p addr length flags
      return (k, p)

/-- The call loads pages of a file. -/
def Call.Loads (k : Kernel) (p : Proc) : Call → Prop
  | .mmap addr length prot flags f _ => MapsFile k p addr length prot flags f
  | .fault access stval => FaultsFile k p access stval
  | .mprotect addr length prot => SplitsFile p addr length prot
  | .munmap _ _ => False
  | .msync _ _ _ => False

/-- What a step does to the open files when the calls on mapped memory are left out. -/
def Step.files (files : Nat → OpenFile) : Step → Nat → OpenFile
  | .call _ _ => files
  | .io f move _ => Function.update files f { files f with off := move (files f).off }

/-- A step. -/
def Step.perform (sb : Fs.Superblock) (device : OpenFile → Nat → Int) (s : System) :
    Step → Except Fault System
  | .call pid made => do
      let (k, p) ← made.perform sb device s.kernel (s.procs pid)
      return ⟨k, Function.update s.procs pid p⟩
  | .io f move effect =>
      .ok ⟨{ effect s.kernel with files := (Step.io f move effect).files s.kernel.files }, s.procs⟩

/-- The step is not a call that loads pages of a file. -/
def Step.Rests (s : System) : Step → Prop
  | .call pid made => ¬made.Loads s.kernel (s.procs pid)
  | .io _ _ _ => True

/-- The steps of a run load no pages of files. -/
def AllRest (sb : Fs.Superblock) (device : OpenFile → Nat → Int) : System → List Step → Prop
  | _, [] => True
  | s, step :: steps =>
      step.Rests s ∧ ∀ s', step.perform sb device s = .ok s' → AllRest sb device s' steps

theorem call_files {call : Call} (rests : ¬call.Loads k p)
    (run : call.perform sb device k p = .ok (k', p')) : k'.files = k.files := by
  cases call with
  | mmap addr length prot flags f offset =>
      obtain ⟨⟨code, l, q⟩, maps, returns⟩ := bind_eq_ok.mp run
      cases returns
      exact mmap_files rests maps
  | fault access stval =>
      obtain ⟨⟨killed, l⟩, traps, returns⟩ := bind_eq_ok.mp run
      cases returns
      exact usertrap_files rests traps
  | mprotect addr length prot =>
      obtain ⟨⟨code, l, q⟩, protects, returns⟩ := bind_eq_ok.mp run
      cases returns
      exact mprotect_files rests protects
  | munmap addr length =>
      obtain ⟨⟨code, l, q⟩, unmaps, returns⟩ := bind_eq_ok.mp run
      cases returns
      exact munmap_files unmaps
  | msync addr length flags =>
      obtain ⟨⟨code, l⟩, syncs, returns⟩ := bind_eq_ok.mp run
      cases returns
      exact msync_files syncs

theorem step_files {s s' : System} {step : Step} (rests : step.Rests s)
    (run : step.perform sb device s = .ok s') : s'.kernel.files = step.files s.kernel.files := by
  cases step with
  | call pid made =>
      obtain ⟨⟨k, p⟩, performs, returns⟩ := bind_eq_ok.mp run
      cases returns
      exact call_files rests performs
  | io f move effect =>
      cases run
      rfl

/-- In a run that loads no pages of files, each call on mapped memory leaves every position as it
is, and reads, writes and seeks find the positions that they find without those calls. -/
theorem positions_kept {s s₁ s₂ : System} {steps passed later : List Step} {step : Step}
    (rest : AllRest sb device s steps) (split : steps = passed ++ step :: later)
    (run : passed.foldlM (fun s step => step.perform sb device s) s = .ok s₁)
    (next : step.perform sb device s₁ = .ok s₂) :
    s₁.kernel.files = passed.foldl Step.files s.kernel.files ∧
      s₂.kernel.files = step.files s₁.kernel.files := by
  induction passed generalizing s steps with
  | nil =>
      cases run
      subst split
      exact ⟨rfl, step_files rest.1 next⟩
  | cons first passed ih =>
      subst split
      obtain ⟨middle, performs, run⟩ := bind_eq_ok.mp run
      obtain ⟨before, after⟩ := ih (rest.2 middle performs) rfl run
      rw [List.foldl_cons, ← step_files rest.1 performs]
      exact ⟨before, after⟩

/-- `mmap` of a file of five bytes leaves the position behind them. -/
theorem mmap_moves : ∃ ret k' p',
    mmap Fs.mkfsSuper (fun _ _ => 0) fileKernel noMemory 0 5 protRead mapPrivate
      (some (fileKernel.file 0)) 0 = .ok (ret, k', p') ∧ 0 ≤ ret ∧
    (fileKernel.files 0).off = 0 ∧ (k'.files 0).off = 5 := by
  have moves : (mmap Fs.mkfsSuper (fun _ _ => 0) fileKernel noMemory 0 5 protRead mapPrivate
      (some (fileKernel.file 0)) 0).toOption.any (fun result =>
        decide (0 ≤ result.1 ∧ (result.2.1.files 0).off = 5)) = true := by
    decide +kernel
  obtain ⟨⟨ret, k', p'⟩, run, test⟩ := exists_of_any moves
  obtain ⟨returns, moved⟩ := of_decide_eq_true test
  exact ⟨ret, k', p', run, returns, rfl, moved⟩

/-- A page of anonymous memory is mapped, three bytes of the file are read, and the page is
unmapped. -/
def anonymousSteps : List Step :=
  [.call 0 (.mmap 0 5 protRead (mapPrivate ||| mapAnonymous) none 0), .io 0 (· + 3) id]

/-- The position stays behind the three bytes. -/
theorem anonymous_keeps_position : ∃ s₁ s₂,
    anonymousSteps.foldlM (fun s step => Step.perform Fs.mkfsSuper (fun _ _ => 0) s step)
      ⟨fileKernel, fun _ => noMemory⟩ = .ok s₁ ∧
    Step.perform Fs.mkfsSuper (fun _ _ => 0) s₁ (.call 0 (.munmap mmapbase 4096)) = .ok s₂ ∧
    (s₁.kernel.files 0).off = 3 ∧ s₂.kernel.files = s₁.kernel.files := by
  have succeeds : (do
      let s₁ ← anonymousSteps.foldlM (fun s step => Step.perform Fs.mkfsSuper (fun _ _ => 0) s step)
        ⟨fileKernel, fun _ => noMemory⟩
      Step.perform Fs.mkfsSuper (fun _ _ => 0) s₁ (.call 0 (.munmap mmapbase 4096))).toOption.any
        (fun _ => true) = true := by
    decide +kernel
  obtain ⟨s₂, run, -⟩ := exists_of_any succeeds
  obtain ⟨s₁, run, next⟩ := bind_eq_ok.mp run
  have rest : AllRest Fs.mkfsSuper (fun _ _ => 0) ⟨fileKernel, fun _ => noMemory⟩
      (anonymousSteps ++ .call 0 (.munmap mmapbase 4096) :: []) :=
    ⟨fun loads => loads.2.1 rfl, fun _ _ => ⟨trivial, fun _ _ => ⟨id, fun _ _ => trivial⟩⟩⟩
  obtain ⟨before, after⟩ := positions_kept rest rfl run next
  refine ⟨s₁, s₂, run, next, ?_, after⟩
  rw [before]
  rfl

end Mapping
end Xv6Duo
