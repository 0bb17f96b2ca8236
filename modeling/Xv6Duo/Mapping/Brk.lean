import Xv6Duo.Mapping.Outcome

/-!
# The size of a process

`sys_brk` with `growproc` of `kernel/proc.c` and `uvmalloc` and `uvmdealloc` of `kernel/vm.c`. The
difference of the sizes passes through an `int`, which keeps its low 32 bits.
-/

namespace Xv6Duo
namespace Mapping

open Vm Mmap

/-! ## Integer types -/

/-- A conversion to `int`. -/
def toInt (value : Int) : Int := value.bmod (2 ^ 32)

/-- A conversion to `long`. -/
def toLong (value : Int) : Int := value.bmod (2 ^ 64)

/-- A conversion to `uint64_t`. -/
def toWord (value : Int) : Nat := (value % 2 ^ 64).toNat

/-! ## The code -/

/-- `uvmdealloc`. -/
def uvmdealloc (k : Kernel) (pagetable oldsz newsz : Nat) : Except Fault (Nat × Kernel) :=
  if oldsz ≤ newsz then .ok (oldsz, k)
  else if pgroundup newsz < pgroundup oldsz then do
    let npages := toInt ((pgroundup oldsz - pgroundup newsz) / pgsize : Nat)
    let k ← k.unmap pagetable (pgroundup newsz) (toWord npages)
    return (newsz, k)
  else .ok (newsz, k)

/-- The loop of `uvmalloc`, with fuel. -/
def uvmallocLoop (pagetable oldsz newsz xperm : Nat) :
    Nat → Kernel → Nat → Except Fault (Nat × Kernel)
  | 0, _, _ => .error .loops
  | fuel + 1, k, a =>
      if a < newsz then do
        let (mem, k) ← k.kalloc
        let k := k.clearPage mem
        let k ← k.mappages pagetable a pgsize mem (pteRo ||| pteU ||| xperm)
        uvmallocLoop pagetable oldsz newsz xperm fuel k ((a + pgsize) % 2 ^ 64)
      else .ok (newsz, k)

/-- `uvmalloc`. Each round takes a page. -/
def uvmalloc (k : Kernel) (pagetable oldsz newsz xperm : Nat) : Except Fault (Nat × Kernel) :=
  if newsz < oldsz then .ok (oldsz, k)
  else
    uvmallocLoop pagetable (pgroundup oldsz) newsz xperm (k.pages.length + 1) k (pgroundup oldsz)

/-- `growproc`. -/
def growproc (k : Kernel) (p : Proc) (n : Int) : Except Fault (Int × Kernel × Proc) :=
  if 0 < n then do
    let (sz, k) ← uvmalloc k p.pagetable p.sz (toWord (p.sz + n)) pteW
    if sz = 0 then return (-1, k, p) else return (0, k, { p with sz })
  else if n < 0 then do
    let (sz, k) ← uvmdealloc k p.pagetable p.sz (toWord (p.sz + n))
    return (0, k, { p with sz })
  else .ok (0, k, p)

/-- `sys_brk`. -/
def sysBrk (k : Kernel) (p : Proc) (newsz : UInt64) : Except Fault (Int × Kernel × Proc) :=
  let newsz := toLong newsz.toNat
  let oldsz := toLong p.sz
  if newsz < 0 then .ok (oldsz, k, p)
  else if newsz = 0 then .ok (oldsz, k, p)
  else do
    let (r, k, p) ← growproc k p (toInt (newsz - oldsz))
    if r < 0 then return (oldsz, k, p) else return (toLong p.sz, k, p)

/-! ## Pages that are taken away -/

variable {k k₁ k' : Kernel} {root base n count newsz oldsz : Nat} {tables tables₁ : List Nat}

theorem toWord_natCast {value : Nat} (fits : value < 2 ^ 64) : toWord value = value := by
  rw [toWord]
  omega

theorem toInt_natCast {value : Nat} (fits : value < 2 ^ 31) : toInt value = value := by
  rw [toInt, Int.bmod_def]
  omega

theorem pgroundup_eq_extent (low : oldsz ≤ maxva) : pgroundup oldsz = extent oldsz := by
  have bound : maxva = 2 ^ 38 := by decide
  have page : pgsize = 4096 := rfl
  exact pgroundup_eq (by omega)

/-- `uvmdealloc` to a smaller size. -/
theorem uvmdealloc_spec (sound : Sound k root tables) (smaller : newsz < oldsz)
    (low : oldsz ≤ maxva) :
    ∃ k', uvmdealloc k root oldsz newsz = .ok (newsz, k') ∧ Sound k' root tables ∧
      (∀ a, pgsize ∣ a → a < maxva → lookup k'.memory root a =
        if extent newsz ≤ a ∧ a < extent oldsz then none else lookup k.memory root a) ∧
      k'.bytes = k.bytes ∧ k'.pages = k.pages := by
  have bound : maxva = 2 ^ 38 := by decide
  have page : pgsize = 4096 := rfl
  rw [uvmdealloc, if_neg (Nat.not_le.mpr smaller), pgroundup_eq_extent low,
    pgroundup_eq_extent (smaller.le.trans low)]
  split
  · next fewer =>
      have npages : toWord (toInt ((extent oldsz - extent newsz) / pgsize : Nat)) =
          (extent oldsz - extent newsz) / pgsize := by
        have upper : (extent oldsz - extent newsz) / pgsize < 2 ^ 31 := by
          rw [extent, extent, page]
          omega
        rw [toInt_natCast upper, toWord_natCast (by omega)]
      have whole : extent newsz + (extent oldsz - extent newsz) / pgsize * pgsize =
          extent oldsz := by
        rw [extent, extent, page] at *
        omega
      have within : extent oldsz ≤ maxva := by
        rw [extent, page]
        omega
      have is_page : pgsize ∣ extent newsz := Nat.dvd_mul_left pgsize _
      have low_end : extent newsz + (extent oldsz - extent newsz) / pgsize * pgsize ≤ maxva := by
        rwa [whole]
      obtain ⟨k', run, sound', maps, bytes, -, -, pages, -, -⟩ := unmap_spec sound is_page low_end
      rw [whole] at maps
      simp only [npages, run, Except.ok_bind]
      exact ⟨k', rfl, sound', maps, bytes, pages⟩
  · next same =>
      refine ⟨k, rfl, sound, fun a _ _ => ?_, rfl, rfl⟩
      rw [if_neg (by omega)]

/-! ## Pages that are added -/

/-- The flags of a page of the heap. -/
def heapPerm : Nat := pteRo ||| pteU ||| pteW

theorem heapPerm_isFlags : IsFlags heapPerm := by decide

/-- `walk` takes at most one page for each level. -/
theorem walkLevels_left (va : Nat) (alloc : Bool) (level : Nat) (memory : Vm.Memory) (table : Nat)
    (pages : List Nat) :
    pages.length ≤ (walkLevels va alloc level memory table pages).2.2.length + level := by
  induction level generalizing memory table pages with
  | zero => exact Nat.le_refl _
  | succ level ih =>
      rw [walkLevels.eq_def]
      dsimp only
      split
      · exact (ih ..).trans (Nat.le_succ _)
      · split
        · cases pages with
          | nil => exact Nat.zero_le _
          | cons page pages =>
              rw [List.length_cons]
              exact Nat.succ_le_succ (ih ..)
        · exact Nat.le_add_right _ _

/-- `mappages` of one page takes at most two pages for tables. -/
theorem mappages_left {va pa perm : Nat} (va_page : pgsize ∣ va) (low : va < maxva)
    (run : k.mappages root va pgsize pa perm = .ok k') : k.pages.length ≤ k'.pages.length + 2 := by
  have bound : maxva = 2 ^ 38 := by decide
  have page : pgsize = 4096 := rfl
  have first : pgrounddown va = va := by
    rw [pgrounddown_eq (by omega), Nat.div_mul_cancel va_page]
  have last : pgrounddown ((va + pgsize - 1) % 2 ^ 64) = va := by
    rw [Nat.mod_eq_of_lt (by omega), pgrounddown_eq (by omega)]
    rw [page] at va_page ⊢
    omega
  have levels := walkLevels_left va true 2 k.memory root k.pages
  rw [Kernel.mappages, Vm.mappages, if_neg (by decide), first, last, manyPages, mapLoop, walk,
    if_neg (Nat.not_le.mpr low)] at run
  generalize walkLevels va true 2 k.memory root k.pages = found at run levels
  obtain ⟨pte, middle, rest⟩ := found
  simp only [Except.ok_bind] at run
  cases pte with
  | none => cases run
  | some entry =>
      simp only at run
      split at run
      · cases run
      · cases run
        exact levels

theorem missingTables_le (memory : Vm.Memory) (root va : Nat) :
    missingTables memory root va ≤ 2 := by
  unfold missingTables
  split
  · exact Nat.le_refl 2
  · split
    · exact Nat.le_succ 1
    · exact Nat.zero_le 2

/-- `n` pages of zeros have been mapped from `base` on. -/
structure Extended (k k₁ : Kernel) (root base n : Nat) (tables₁ : List Nat) : Prop where
  /-- The pages are user addresses. -/
  below : base + n * pgsize ≤ maxva
  /-- They were not mapped. -/
  clear : ∀ a, pgsize ∣ a → base ≤ a → a < base + n * pgsize → lookup k.memory root a = none
  /-- The page table, with more tables. -/
  sound : Sound k₁ root tables₁
  /-- Pages were taken. -/
  suffix : k₁.pages <:+ k.pages
  /-- There are no more than three for each page. -/
  taken : k.pages.length ≤ k₁.pages.length + 3 * n
  /-- Only pages of `kalloc` are written. -/
  frame : ∀ a, (∀ pa ∈ k.pages, ¬(pa ≤ a ∧ a < pa + pgsize)) → k₁.bytes a = k.bytes a
  /-- The new pages were taken and are zero. -/
  mapped : ∀ i < n, ∃ pa ∈ k.pages,
    lookup k₁.memory root (base + i * pgsize) = some (pa, mappedFlags heapPerm) ∧
      ∀ j < pgsize, k₁.bytes (pa + j) = 0
  /-- The other pages are mapped as before. -/
  others : ∀ a, pgsize ∣ a → a < maxva → ¬(base ≤ a ∧ a < base + n * pgsize) →
    lookup k₁.memory root a = lookup k.memory root a

theorem Extended.refl (sound : Sound k root tables) (low : base ≤ maxva) :
    Extended k k root base 0 tables where
  below := by rwa [Nat.zero_mul, Nat.add_zero]
  clear a _ lower upper := by
    rw [Nat.zero_mul, Nat.add_zero] at upper
    exact absurd upper (Nat.not_lt.mpr lower)
  sound := sound
  suffix := List.suffix_refl _
  taken := Nat.le_refl _
  frame _ _ := rfl
  mapped i i_lt := absurd i_lt (Nat.not_lt_zero i)
  others _ _ _ _ := rfl

/-- The bytes of a page that was mapped before. -/
theorem bytes_kept (sound : Sound k root tables) {va pa flags j : Nat}
    (frame : ∀ a, (∀ pa ∈ k.pages, ¬(pa ≤ a ∧ a < pa + pgsize)) → k'.bytes a = k.bytes a)
    (va_page : pgsize ∣ va) (low : va < maxva)
    (mapped : lookup k.memory root va = some (pa, flags)) (inside : j < pgsize) :
    k'.bytes (pa + j) = k.bytes (pa + j) := by
  apply frame
  intro page mem
  have pa_page := (lookup_isFrame mapped).1.1
  have page_page := (sound.supplied.2 page mem).1.1
  apply page_apart pa_page page_page _ inside
  rintro rfl
  exact sound.fresh va pa flags va_page low mapped mem

/-- One more page. -/
theorem Extended.step (extended : Extended k k₁ root base n tables₁) (base_page : pgsize ∣ base)
    (below : base + (n + 1) * pgsize ≤ maxva) {tables' : List Nat}
    (page : PageMapped k₁ k' root (base + n * pgsize) tables' (mappedFlags heapPerm) fun _ => 0)
    (taken : k₁.pages.length ≤ k'.pages.length + 3) :
    Extended k k' root base (n + 1) tables' := by
  have low (i : Nat) (i_le : i ≤ n) : base + i * pgsize < maxva := by
    rw [show pgsize = 4096 from rfl] at below ⊢
    omega
  have next : base + (n + 1) * pgsize = base + n * pgsize + pgsize := by
    rw [Nat.succ_mul, Nat.add_assoc]
  constructor
  · exact below
  · intro a a_page lower upper
    rcases Nat.lt_or_ge a (base + n * pgsize) with earlier | last
    · exact extended.clear a a_page lower earlier
    · have a_eq : a = base + n * pgsize := by
        have apart := Nat.dvd_sub a_page (dvd_page base_page n)
        have none_left := Nat.eq_zero_of_dvd_of_lt apart (by omega)
        omega
      rw [a_eq, ← extended.others _ (dvd_page base_page n) (low n (Nat.le_refl n)) (by omega)]
      exact page.unmapped
  · exact page.sound
  · exact page.suffix.trans extended.suffix
  · have before := extended.taken
    omega
  · intro a outside
    rw [page.frame a fun pa mem => outside pa (extended.suffix.subset mem),
      extended.frame a outside]
  · intro i i_lt
    cases Nat.lt_succ_iff_lt_or_eq.mp i_lt with
    | inl earlier =>
        obtain ⟨pa, taken_page, mapped, zero⟩ := extended.mapped i earlier
        have apart : base + i * pgsize ≠ base + n * pgsize := by
          rw [show pgsize = 4096 from rfl]
          omega
        refine ⟨pa, taken_page, ?_, fun j inside => ?_⟩
        · rw [page.others _ (dvd_page base_page i) (low i earlier.le) apart, mapped]
        · rw [bytes_kept extended.sound page.frame (dvd_page base_page i) (low i earlier.le) mapped
            inside, zero j inside]
    | inr last =>
        obtain ⟨pa, taken_page, mapped, zero⟩ := page.mapped
        rw [last]
        exact ⟨pa, extended.suffix.subset taken_page, mapped, zero⟩
  · intro a a_page a_low outside
    have differ : a ≠ base + n * pgsize := by
      rintro rfl
      have positive : 0 < pgsize := by decide
      omega
    rw [page.others a a_page a_low differ, extended.others a a_page a_low (by omega)]

/-- What the loop of `uvmalloc` answers. -/
inductive Allocated (k : Kernel) (root base count newsz : Nat) : Except Fault (Nat × Kernel) → Prop
  /-- All pages are there. -/
  | done (k' : Kernel) (tables' : List Nat) (extended : Extended k k' root base count tables') :
      Allocated k root base count newsz (.ok (newsz, k'))
  /-- The memory is exhausted. -/
  | exhausted (short : k.pages.length < 3 * count) :
      Allocated k root base count newsz (.error .outOfMemory)
  /-- A page is mapped already, or is no user address. -/
  | overlaps (fault : Fault) (supplied : fault ≠ .outOfMemory) (i : Nat) (i_lt : i < count)
      (used : maxva ≤ base + i * pgsize ∨ lookup k.memory root (base + i * pgsize) ≠ none) :
      Allocated k root base count newsz (.error fault)

/-- The loop of `uvmalloc`. -/
theorem uvmallocLoop_spec (base_page : pgsize ∣ base)
    (last : ∀ i, base + i * pgsize < newsz ↔ i < count) (fuel : Nat) (k₁ : Kernel)
    (tables₁ : List Nat) (n : Nat) (n_le : n ≤ count) (extended : Extended k k₁ root base n tables₁)
    (enough : k₁.pages.length < fuel) :
    Allocated k root base count newsz
      (uvmallocLoop root base newsz pteW fuel k₁ (base + n * pgsize)) := by
  have page : pgsize = 4096 := rfl
  have bound : maxva = 2 ^ 38 := by decide
  induction fuel generalizing k₁ tables₁ n with
  | zero => exact absurd enough (Nat.not_lt_zero _)
  | succ fuel ih =>
      unfold uvmallocLoop
      split
      · next more =>
          have n_lt : n < count := (last n).mp more
          have short_of (few : k₁.pages.length ≤ 2) : k.pages.length < 3 * count := by
            have taken := extended.taken
            omega
          have below := extended.below
          have va_page := dvd_page base_page n
          cases pages_eq : k₁.pages with
          | nil =>
              have empty : k₁.kalloc = .error .outOfMemory := by simp only [Kernel.kalloc, pages_eq]
              rw [empty]
              exact Allocated.exhausted (short_of (by simp [pages_eq]))
          | cons mem rest =>
              have taken : k₁.kalloc = .ok (mem, { k₁ with
                  pages := rest
                  refcnt := Function.update k₁.refcnt mem 1 }) := by
                simp only [Kernel.kalloc, pages_eq]
              rw [taken, Except.ok_bind]
              simp only [Kernel.clearPage]
              set bytes := ByteBlock.copyRange k₁.bytes mem ByteBlock.zeros 0 pgsize with bytes_eq
              have filled : ∀ j < pgsize, bytes (mem + j) = 0 := by
                intro j j_lt
                rw [bytes_eq, ByteBlock.copyRange, if_pos (by omega)]
                rfl
              have frame : ∀ a, ¬(mem ≤ a ∧ a < mem + pgsize) → bytes a = k₁.bytes a := by
                intro a outside
                rw [bytes_eq, ByteBlock.copyRange, if_neg outside]
              have mem_page : mem ∈ k₁.pages := by
                rw [pages_eq]
                exact List.mem_cons_self
              have perm : pteRo ||| pteU ||| pteW = heapPerm := rfl
              rcases Nat.lt_or_ge (base + n * pgsize) maxva with low | over_end
              swap
              · rw [mappages_high va_page (by omega) over_end (by decide)]
                exact Allocated.overlaps Fault.walk (by decide) n n_lt (Or.inl over_end)
              rw [perm]
              rcases map_fresh (l := { k₁ with
                pages := rest
                refcnt := Function.update k₁.refcnt mem 1
                bytes := bytes }) extended.sound pages_eq rfl rfl filled frame va_page low
                  (by decide)
                (Nat.le_refl pgsize) heapPerm_isFlags with ⟨short, run⟩ | ⟨mapped, run⟩ |
                  ⟨after, left, tables', run, enough', fresh⟩
              · rw [run]
                exact Allocated.exhausted (short_of (short.trans (missingTables_le _ _ _)))
              · rw [run]
                rw [extended.others _ va_page low (by omega)] at mapped
                exact Allocated.overlaps _ (by decide) n n_lt (Or.inr mapped)
              · have taken' : k₁.pages.length ≤ left.length + 3 := by
                  have tables_left := mappages_left va_page low run
                  rw [pages_eq, List.length_cons]
                  exact Nat.succ_le_succ tables_left
                have shorter : left.length < fuel := by
                  have fewer : left.length < k₁.pages.length := fresh.shorter
                  omega
                have next : (base + n * pgsize + pgsize) % 2 ^ 64 = base + (n + 1) * pgsize := by
                  rw [Nat.succ_mul, Nat.mod_eq_of_lt (by omega), Nat.add_assoc]
                rw [run, Except.ok_bind, next]
                refine ih _ tables' (n + 1) n_lt ?_ shorter
                have below' : base + (n + 1) * pgsize ≤ maxva := by
                  rw [Nat.succ_mul]
                  rw [page] at va_page low ⊢
                  omega
                exact extended.step base_page below' fresh taken'
      · next over_end =>
          have n_eq : n = count := by
            have upper := mt (last n).mpr over_end
            omega
          rw [← n_eq]
          exact Allocated.done k₁ tables₁ extended

/-- The pages that the heap gains when its size grows. -/
def newPages (oldsz newsz : Nat) : Nat := (extent newsz - extent oldsz) / pgsize

theorem uvmalloc_spec (sound : Sound k root tables) (low : oldsz ≤ maxva) (larger : oldsz ≤ newsz) :
    Allocated k root (extent oldsz) (newPages oldsz newsz) newsz
      (uvmalloc k root oldsz newsz pteW) := by
  have bound : maxva = 2 ^ 38 := by decide
  have page : pgsize = 4096 := rfl
  have base_page : pgsize ∣ extent oldsz := Nat.dvd_mul_left pgsize _
  have base_low : extent oldsz ≤ maxva := by
    rw [extent, page]
    omega
  have last (i : Nat) : extent oldsz + i * pgsize < newsz ↔ i < newPages oldsz newsz := by
    rw [newPages, extent, extent, page]
    omega
  rw [uvmalloc, if_neg (Nat.not_lt.mpr larger), pgroundup_eq_extent low]
  have loop := uvmallocLoop_spec base_page last (k.pages.length + 1) k tables 0 (Nat.zero_le _)
    (Extended.refl sound base_low) (Nat.lt_succ_self _)
  have start : extent oldsz + 0 * pgsize = extent oldsz := by
    rw [Nat.zero_mul, Nat.add_zero]
  rw [start] at loop
  exact loop

/-! ## What `brk` is for -/

/-- A process with its page table. Its heap may have holes: the first segment of a program need not
begin at page 0. -/
structure Heap (k : Kernel) (p : Proc) (tables : List Nat) : Prop where
  /-- The page table. -/
  sound : Sound k p.pagetable tables
  /-- The heap is in the address space. -/
  low : p.sz ≤ maxva
/-- The pages that the heap gains are user addresses that are not mapped. -/
def Free (k : Kernel) (p : Proc) (newsz : Nat) : Prop :=
  ∀ a, pgsize ∣ a → extent p.sz ≤ a → a < newsz →
    a < maxva ∧ lookup k.memory p.pagetable a = none

/-- A page keeps its mapping and its content. -/
structure Retained (k k' : Kernel) (root a : Nat) : Prop where
  /-- The mapping. -/
  map : lookup k'.memory root a = lookup k.memory root a
  /-- The content. -/
  bytes : ∀ pa flags, lookup k.memory root a = some (pa, flags) →
    ∀ j < pgsize, k'.bytes (pa + j) = k.bytes (pa + j)

/-- The heap has another size. -/
structure Resized (k k' : Kernel) (root oldsz newsz : Nat) : Prop where
  /-- The pages of the heap: the new ones, and of the old ones those that were mapped. -/
  present : ∀ a, pgsize ∣ a → a < extent newsz →
    (lookup k'.memory root a ≠ none ↔ extent oldsz ≤ a ∨ lookup k.memory root a ≠ none)
  /-- The pages that it lost. -/
  gone : ∀ a, pgsize ∣ a → extent newsz ≤ a → a < extent oldsz → lookup k'.memory root a = none
  /-- The pages that it gained. -/
  zero : ∀ a, pgsize ∣ a → extent oldsz ≤ a → a < extent newsz →
    ∃ pa flags, lookup k'.memory root a = some (pa, flags) ∧ ∀ j < pgsize, k'.bytes (pa + j) = 0
  /-- All other pages. -/
  retained : ∀ a, pgsize ∣ a → a < maxva → ¬(extent newsz ≤ a ∧ a < extent oldsz) →
    ¬(extent oldsz ≤ a ∧ a < extent newsz) → Retained k k' root a

/-- `brk` installs the size, or refuses and changes nothing. -/
inductive BrkExact (k : Kernel) (p : Proc) (newsz : Nat) :
    Except Fault (Int × Kernel × Proc) → Prop
  /-- The size is installed. -/
  | resized (k' : Kernel) (resized : Resized k k' p.pagetable p.sz newsz) :
      BrkExact k p newsz (.ok (newsz, k', { p with sz := newsz }))
  /-- The size stays. -/
  | refused (k' : Kernel)
      (retained : ∀ a, pgsize ∣ a → a < maxva → Retained k k' p.pagetable a) :
      BrkExact k p newsz (.ok (p.sz, k', p))

/-! ## The condition -/

/-- The amount that `growproc` is called with. -/
def growth (sz newsz : Nat) : Int := toInt (toLong newsz - sz)

/-- The size is refused at once, or the difference is kept by the `int`, or what is kept of it does
nothing. -/
def Within (sz newsz : Nat) : Prop :=
  toLong newsz ≤ 0 ∨ growth sz newsz = toLong newsz - sz ∨ growth sz newsz = 0 ∨
    growth sz newsz < -sz

/-! ## One call -/

variable {p : Proc}

theorem Retained.refl (k : Kernel) (root a : Nat) : Retained k k root a :=
  ⟨rfl, fun _ _ _ _ _ => rfl⟩

/-- What a call of `brk` does. -/
inductive BrkRun (k : Kernel) (p : Proc) (newsz : Nat) : Except Fault (Int × Kernel × Proc) → Prop
  /-- Nothing. -/
  | refused (reason : toLong newsz ≤ 0 ∨ growth p.sz newsz = 0 ∨ growth p.sz newsz < -p.sz) :
      BrkRun k p newsz (.ok (p.sz, k, p))
  /-- Pages are added. -/
  | grown (positive : 0 < toLong newsz) (grows : 0 < growth p.sz newsz) (size : Nat)
      (size_eq : (size : Int) = p.sz + growth p.sz newsz) (k' : Kernel) (tables' : List Nat)
      (extended : Extended k k' p.pagetable (extent p.sz) (newPages p.sz size) tables') :
      BrkRun k p newsz (.ok (size, k', { p with sz := size }))
  /-- The memory is exhausted. -/
  | exhausted (positive : 0 < toLong newsz) (grows : 0 < growth p.sz newsz) (size : Nat)
      (size_eq : (size : Int) = p.sz + growth p.sz newsz)
      (short : k.pages.length < 3 * newPages p.sz size) :
      BrkRun k p newsz (.error .outOfMemory)
  /-- A page is in the way. -/
  | overlaps (positive : 0 < toLong newsz) (grows : 0 < growth p.sz newsz) (size : Nat)
      (size_eq : (size : Int) = p.sz + growth p.sz newsz) (fault : Fault)
      (supplied : fault ≠ .outOfMemory) (a : Nat) (a_page : pgsize ∣ a) (lower : extent p.sz ≤ a)
        (upper : a < size)
      (used : maxva ≤ a ∨ lookup k.memory p.pagetable a ≠ none) : BrkRun k p newsz (.error fault)
  /-- Pages are taken away. -/
  | shrunk (positive : 0 < toLong newsz) (size : Nat) (smaller : size < p.sz)
      (size_eq : (size : Int) = p.sz + growth p.sz newsz) (k' : Kernel)
      (maps : ∀ a, pgsize ∣ a → a < maxva → lookup k'.memory p.pagetable a =
        if extent size ≤ a ∧ a < extent p.sz then none else lookup k.memory p.pagetable a)
      (bytes : k'.bytes = k.bytes) : BrkRun k p newsz (.ok (size, k', { p with sz := size }))

theorem toLong_natCast {value : Nat} (fits : value < 2 ^ 63) : toLong value = value := by
  rw [toLong, Int.bmod_def]
  omega

theorem growth_bounds (sz newsz : Nat) :
    -2 ^ 31 ≤ growth sz newsz ∧ growth sz newsz < 2 ^ 31 := by
  rw [growth, toInt, Int.bmod_def]
  omega

/-- Every call of `brk` is one of these. -/
theorem sysBrk_run (heap : Heap k p tables) (newsz : UInt64) :
    BrkRun k p newsz.toNat (sysBrk k p newsz) := by
  have bound : maxva = 2 ^ 38 := by decide
  have low := heap.low
  have bounds := growth_bounds p.sz newsz.toNat
  have old : toLong p.sz = p.sz := toLong_natCast (by omega)
  unfold sysBrk
  simp only [old]
  split
  · next negative => exact BrkRun.refused (Or.inl negative.le)
  · next not_negative =>
      split
      · next zero => exact BrkRun.refused (Or.inl zero.le)
      · next not_zero =>
          have positive : 0 < toLong newsz.toNat := by omega
          have amount : toInt (toLong newsz.toNat - p.sz) = growth p.sz newsz.toNat := rfl
          rw [amount]
          unfold growproc
          rcases lt_trichotomy 0 (growth p.sz newsz.toNat) with grows | same | shrinks
          · obtain ⟨size, size_eq⟩ : ∃ size : Nat, (size : Int) = p.sz + growth p.sz newsz.toNat :=
              ⟨(p.sz + growth p.sz newsz.toNat).toNat, by omega⟩
            have word : toWord (p.sz + growth p.sz newsz.toNat) = size := by
              rw [← size_eq]
              exact toWord_natCast (by omega)
            rw [if_pos grows, word]
            have call : Allocated k p.pagetable (extent p.sz) (newPages p.sz size) size
                (uvmalloc k p.pagetable p.sz size pteW) :=
              uvmalloc_spec heap.sound low (by omega)
            generalize uvmalloc k p.pagetable p.sz size pteW = outcome at call
            cases call with
            | done k' tables' extended =>
                have size_long : toLong size = size := toLong_natCast (by omega)
                simp only [Except.ok_bind]
                rw [if_neg (by omega)]
                simp only [Except.pure_eq_ok, Except.ok_bind, lt_irrefl, if_false, size_long]
                exact BrkRun.grown positive grows size size_eq k' tables' extended
            | exhausted short => exact BrkRun.exhausted positive grows size size_eq short
            | overlaps fault supplied i i_lt used =>
                refine BrkRun.overlaps positive grows size size_eq fault supplied _
                  (dvd_page (Nat.dvd_mul_left pgsize _) i) (Nat.le_add_right _ _) ?_ used
                rw [newPages] at i_lt
                simp only [extent, show pgsize = 4096 from rfl] at i_lt ⊢
                omega
          · rw [if_neg (by omega), if_neg (by omega)]
            simp only [Except.ok_bind, lt_irrefl, if_false, old]
            exact BrkRun.refused (Or.inr (Or.inl same.symm))
          · rw [if_neg (by omega), if_pos shrinks]
            rcases lt_or_ge (growth p.sz newsz.toNat) (-p.sz) with under | within
            · have larger : p.sz ≤ toWord (p.sz + growth p.sz newsz.toNat) := by
                rw [toWord]
                omega
              rw [uvmdealloc, if_pos larger]
              simp only [Except.ok_bind, Except.pure_eq_ok, lt_irrefl, if_false, old]
              exact BrkRun.refused (Or.inr (Or.inr under))
            · obtain ⟨size, size_eq⟩ :
                  ∃ size : Nat, (size : Int) = p.sz + growth p.sz newsz.toNat :=
                ⟨(p.sz + growth p.sz newsz.toNat).toNat, by omega⟩
              have word : toWord (p.sz + growth p.sz newsz.toNat) = size := by
                rw [← size_eq]
                exact toWord_natCast (by omega)
              have smaller : size < p.sz := by omega
              have size_long : toLong size = size := toLong_natCast (by omega)
              obtain ⟨k', run, -, maps, bytes, -⟩ := uvmdealloc_spec heap.sound smaller low
              rw [word, run]
              simp only [Except.ok_bind, Except.pure_eq_ok, lt_irrefl, if_false, size_long]
              exact BrkRun.shrunk positive size smaller size_eq k' maps bytes

/-! ## When `brk` is exact -/

theorem Extended.resized (heap : Heap k p tables) {size : Nat} {tables' : List Nat}
    (larger : p.sz ≤ size)
    (extended : Extended k k' p.pagetable (extent p.sz) (newPages p.sz size) tables') :
    Resized k k' p.pagetable p.sz size := by
  have page : pgsize = 4096 := rfl
  have grows : extent p.sz ≤ extent size := by
    rw [extent, extent, page]
    omega
  have whole : extent p.sz + newPages p.sz size * pgsize = extent size := by
    rw [newPages]
    simp only [extent, page] at grows ⊢
    omega
  have below : extent size ≤ maxva := by
    rw [← whole]
    exact extended.below
  have zero : ∀ a, pgsize ∣ a → extent p.sz ≤ a → a < extent size →
      ∃ pa flags, lookup k'.memory p.pagetable a = some (pa, flags) ∧
        ∀ j < pgsize, k'.bytes (pa + j) = 0 := by
    intro a a_page lower upper
    have start : pgsize ∣ extent p.sz := Nat.dvd_mul_left pgsize _
    obtain ⟨i, rfl⟩ : ∃ i, a = extent p.sz + i * pgsize := by
      obtain ⟨i, apart⟩ := Nat.dvd_sub a_page start
      exact ⟨i, by rw [Nat.mul_comm]; omega⟩
    have i_lt : i < newPages p.sz size := by
      rw [← whole] at upper
      exact Nat.lt_of_mul_lt_mul_right (Nat.lt_of_add_lt_add_left upper)
    obtain ⟨pa, -, mapped, zeros⟩ := extended.mapped i i_lt
    exact ⟨pa, _, mapped, zeros⟩
  have others : ∀ a, pgsize ∣ a → a < maxva → ¬(extent p.sz ≤ a ∧ a < extent size) →
      Retained k k' p.pagetable a := by
    intro a a_page low outside
    refine ⟨extended.others a a_page low ?_, ?_⟩
    · rwa [whole]
    · intro pa flags mapped j inside
      exact bytes_kept heap.sound extended.frame a_page low mapped inside
  constructor
  · intro a a_page upper
    rcases Nat.lt_or_ge a (extent p.sz) with old | new
    · rw [(others a a_page (upper.trans_le below) (by omega)).map]
      exact (or_iff_right (by omega)).symm
    · obtain ⟨pa, flags, mapped, -⟩ := zero a a_page new upper
      rw [mapped]
      exact iff_of_true (Option.some_ne_none _) (Or.inl new)
  · intro a _ lower upper
    omega
  · exact zero
  · intro a a_page low _ outside
    exact others a a_page low outside

theorem resized_of_shrunk (heap : Heap k p tables) {size : Nat} (smaller : size < p.sz)
    (maps : ∀ a, pgsize ∣ a → a < maxva → lookup k'.memory p.pagetable a =
      if extent size ≤ a ∧ a < extent p.sz then none else lookup k.memory p.pagetable a)
    (bytes : k'.bytes = k.bytes) : Resized k k' p.pagetable p.sz size := by
  have bound : maxva = 2 ^ 38 := by decide
  have low := heap.low
  have shrinks : extent size ≤ extent p.sz ∧ extent p.sz ≤ maxva := by
    rw [extent, extent, show pgsize = 4096 from rfl]
    omega
  constructor
  · intro a a_page upper
    rw [maps a a_page (by omega), if_neg (by omega)]
    exact (or_iff_right (by omega)).symm
  · intro a a_page lower upper
    rw [maps a a_page (by omega), if_pos ⟨lower, upper⟩]
  · intro a _ lower upper
    omega
  · intro a a_page a_low outside _
    refine ⟨?_, fun _ _ _ _ _ => by rw [bytes]⟩
    rw [maps a a_page a_low, if_neg outside]

/-- There is no third size. -/
theorem BrkExact.answer {result : Int} {p' : Proc}
    (exact : BrkExact k p newsz (.ok (result, k', p'))) : result = newsz ∨ result = p.sz := by
  cases exact with
  | resized resized => exact Or.inl rfl
  | refused retained => exact Or.inr rfl

/-- Three pages for each new page are enough. -/
theorem sysBrk_supplied (heap : Heap k p tables) (newsz : UInt64)
    (plenty : 3 * newPages p.sz (p.sz + growth p.sz newsz.toNat).toNat ≤ k.pages.length) :
    sysBrk k p newsz ≠ .error .outOfMemory := by
  have run := sysBrk_run heap newsz
  intro panics
  rw [panics] at run
  cases run with
  | exhausted positive grows size size_eq short =>
      rw [← size_eq, Int.toNat_natCast] at plenty
      omega
  | overlaps positive grows size size_eq fault supplied => exact supplied rfl

/-- `brk` is exact when the difference of the sizes fits into an `int`, or when what is kept of it
does nothing. -/
theorem brk_exact_iff (heap : Heap k p tables) (newsz : UInt64)
    (free : growth p.sz newsz.toNat = newsz.toNat - p.sz → Free k p newsz.toNat)
    (supplied : sysBrk k p newsz ≠ .error .outOfMemory) :
    BrkExact k p newsz.toNat (sysBrk k p newsz) ↔ Within p.sz newsz.toNat := by
  have run := sysBrk_run heap newsz
  generalize sysBrk k p newsz = outcome at run supplied ⊢
  have word : (0 < toLong newsz.toNat) → toLong newsz.toNat = newsz.toNat := by
    have fits := newsz.toNat_lt
    rw [toLong, Int.bmod_def]
    omega
  constructor
  · intro exact
    rw [Within]
    cases run with
    | refused reason => omega
    | grown positive grows size size_eq k' tables' extended =>
        rw [word positive]
        have answer := exact.answer
        omega
    | exhausted => cases exact
    | overlaps => cases exact
    | shrunk positive size smaller size_eq k' maps bytes =>
        rw [word positive]
        have answer := exact.answer
        omega
  · intro within
    cases run with
    | refused reason => exact BrkExact.refused k fun a _ _ => Retained.refl k p.pagetable a
    | grown positive grows size size_eq k' tables' extended =>
        have same : size = newsz.toNat := by
          rw [Within, word positive] at within
          omega
        rw [← same]
        exact BrkExact.resized k' (extended.resized heap (by omega))
    | exhausted => exact absurd rfl supplied
    | overlaps positive grows size size_eq fault _ a a_page lower upper used =>
        rw [Within, word positive] at within
        obtain ⟨low, unmapped⟩ := free (by omega) a a_page lower (by omega)
        cases used with
        | inl over_end => exact absurd low (Nat.not_lt.mpr over_end)
        | inr mapped => exact absurd unmapped mapped
    | shrunk positive size smaller size_eq k' maps bytes =>
        have same : size = newsz.toNat := by
          rw [Within, word positive] at within
          omega
        rw [← same]
        exact BrkExact.resized k' (resized_of_shrunk heap smaller maps bytes)

/-- Sixteen gigabytes of free pages. -/
def ample : List Nat := (List.range (2 ^ 22)).map fun i => 0x80001000 + i * pgsize

/-- A kernel with that memory. -/
def spacious : Kernel := blank ample Fs.Volume.fresh ⟨.none, none, 0, false, false⟩

/-- A process without memory. -/
def emptyHeap : Proc := ⟨0x80000000, [], 0⟩

theorem ample_supplied : Supplied [0x80000000] ample := by
  have page : pgsize = 4096 := rfl
  constructor
  · apply List.Nodup.map _ List.nodup_range
    intro i j same
    simp only [page] at same
    omega
  · intro a mem
    obtain ⟨i, i_mem, rfl⟩ := List.mem_map.mp mem
    have i_lt := List.mem_range.mp i_mem
    rw [IsPage, List.mem_singleton, page]
    omega

theorem heap_empty : Heap spacious emptyHeap [0x80000000] where
  sound := (blank_sound ample_supplied).1
  low := Nat.zero_le _

theorem free_empty {newsz : Nat} (low : newsz ≤ maxva) : Free spacious emptyHeap newsz :=
  fun a _ _ upper => ⟨upper.trans_le low, (blank_sound ample_supplied).2 a⟩

theorem spacious_length : spacious.pages.length = 2 ^ 22 := by
  rw [spacious, blank, ample, List.length_map, List.length_range]

/-- A call for 4 GiB and 4 KiB gives the process 4 KiB. -/
theorem sysBrk_spacious : ∃ k', sysBrk spacious emptyHeap 0x100001000 =
    .ok (4096, k', { emptyHeap with sz := 4096 }) := by
  have run := sysBrk_run heap_empty 0x100001000
  have amount : growth emptyHeap.sz (0x100001000 : UInt64).toNat = 4096 := by decide
  have positive : 0 < toLong (0x100001000 : UInt64).toNat := by decide
  have nothing (a : Nat) : lookup spacious.memory emptyHeap.pagetable a = none :=
    (blank_sound ample_supplied).2 a
  have only (size : Nat) (size_eq : (size : Int) = emptyHeap.sz +
      growth emptyHeap.sz (0x100001000 : UInt64).toNat) : size = 4096 := by
    rw [amount, show emptyHeap.sz = 0 from rfl] at size_eq
    omega
  generalize sysBrk spacious emptyHeap 0x100001000 = outcome at run ⊢
  cases run with
  | refused reason =>
      rw [amount, show emptyHeap.sz = 0 from rfl] at reason
      omega
  | grown _ grows size size_eq k' tables' extended =>
      rw [only size size_eq]
      exact ⟨k', rfl⟩
  | exhausted _ grows size size_eq short =>
      rw [only size size_eq, spacious_length] at short
      exact absurd short (by decide)
  | overlaps _ grows size size_eq fault _ a a_page lower upper used =>
      rw [only size size_eq] at upper
      cases used with
      | inl over_end => exact absurd (over_end.trans_lt upper) (by decide)
      | inr mapped => exact absurd (nothing a) mapped
  | shrunk _ size smaller size_eq k' maps bytes => exact absurd smaller (Nat.not_lt_zero size)

/-- There are free pages for that size, and nothing is in the way. -/
theorem brk_truncates : Heap spacious emptyHeap [0x80000000] ∧
    Free spacious emptyHeap 0x100001000 ∧ 3 * newPages 0 0x100001000 ≤ spacious.pages.length ∧
    ¬BrkExact spacious emptyHeap 0x100001000 (sysBrk spacious emptyHeap 0x100001000) := by
  refine ⟨heap_empty, free_empty (by decide), ?_, ?_⟩
  · rw [spacious_length]
    decide
  · obtain ⟨k', run⟩ := sysBrk_spacious
    rw [run]
    intro exact
    have answer := exact.answer
    rw [show emptyHeap.sz = 0 from rfl] at answer
    omega

/-- A page for a process without memory. -/
theorem brk_first_page : sysBrk spacious emptyHeap 4096 ≠ .error .outOfMemory ∧
    (BrkExact spacious emptyHeap 4096 (sysBrk spacious emptyHeap 4096) ↔ Within 0 4096) := by
  have supplied : sysBrk spacious emptyHeap 4096 ≠ .error .outOfMemory := by
    apply sysBrk_supplied heap_empty 4096
    rw [spacious_length]
    decide
  exact ⟨supplied, brk_exact_iff heap_empty 4096 (fun _ => free_empty (by decide)) supplied⟩

end Mapping
end Xv6Duo
