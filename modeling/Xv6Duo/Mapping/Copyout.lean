import Mathlib.Data.Finset.Card
import Mathlib.Order.Interval.Finset.Nat
import Xv6Duo.Mapping.UserCopy

/-!
# Copies to the user

Each round of `copyout` makes a page ready with `alloc_cow_page` and stores into it. The rounds of
two adjacent ranges are one copy of both, because they work on different pages.
-/

namespace Xv6Duo
namespace Mapping

open Vm Mmap

variable {k k₁ k' : Kernel} {root va pa flags dstva len fuel src : Nat} {tables : List Nat}
  {source : ByteBlock.Bytes}

/-! ## The page of a round of `copyout` -/

/-- The page at `va` has to be copied before it is written. -/
def isShared (k : Kernel) (root va : Nat) : Bool :=
  match lookup k.memory root va with
  | none => false
  | some (pa, flags) =>
      decide (flags &&& pteU ≠ 0 ∧ flags &&& pteW = 0 ∧ flags &&& pteCow ≠ 0 ∧ 1 < k.refcnt pa)

theorem isShared_of_present (present : lookup k.memory root va = some (pa, flags)) :
    isShared k root va = true ↔
      flags &&& pteU ≠ 0 ∧ flags &&& pteW = 0 ∧ flags &&& pteCow ≠ 0 ∧ 1 < k.refcnt pa := by
  rw [isShared, present]
  exact decide_eq_true_iff

theorem UserSpace.congr (space : UserSpace k root tables) (memory : k'.memory = k.memory)
    (pages : k'.pages = k.pages) (refcnt : k'.refcnt = k.refcnt) : UserSpace k' root tables := by
  refine ⟨space.sound.congr memory pages, ?_, ?_⟩
  · rw [memory]
    exact space.backed
  · rw [memory, refcnt]
    exact space.counted

/-- `alloc_cow_page` has made the page at `va` ready for a store of the kernel. -/
structure Prepared (k k₁ : Kernel) (root : Nat) (tables : List Nat) (va pa flags pa₁ flags₁ : Nat) :
    Prop where
  /-- The page table. -/
  space : UserSpace k₁ root tables
  /-- The map. -/
  map : ∀ other, pgsize ∣ other → other < maxva →
    lookup k₁.memory root other =
      if other = va then some (pa₁, flags₁) else lookup k.memory root other
  /-- It is still a page of the user. -/
  user : flags₁ &&& pteU ≠ 0
  /-- Pages were taken. -/
  suffix : k₁.pages <:+ k.pages
  /-- The bytes of the page. -/
  bytes : ∀ j < pgsize, k₁.bytes (pa₁ + j) = k.bytes (pa + j)
  /-- Only pages of `kalloc` are written. -/
  frame : ∀ x, (∀ mem ∈ k.pages, ¬(mem ≤ x ∧ x < mem + pgsize)) → k₁.bytes x = k.bytes x
  /-- The frame is the old one or one of `kalloc`. -/
  origin : pa₁ = pa ∨ pa₁ ∈ k.pages
  /-- Nothing is done about a page that can be written. -/
  plain : flags &&& pteW ≠ 0 → k₁ = k ∧ pa₁ = pa
  /-- No more pages have to be copied. -/
  shared : ∀ other, pgsize ∣ other → other < maxva → other ≠ va → isShared k₁ root other = true →
    isShared k root other = true
  /-- A page of `kalloc` is taken for a page that has to be copied. -/
  taken : k.pages.length ≤ k₁.pages.length + if isShared k root va = true then 1 else 0

theorem pgrounddown_self (va_page : pgsize ∣ va) (low : va < maxva) : pgrounddown va = va := by
  rw [pgrounddown_eq (low.trans (by decide)), Nat.div_mul_cancel va_page]

/-- The counter of a frame after a copy has given one reference back. -/
theorem kfree_counted {refcnt : Nat → UInt32} {mem frame : Nat} (differ : frame ≠ mem)
    (many : 1 < refcnt pa) (other : mem ≠ pa) :
    Vm.kfree (Function.update refcnt mem 1) pa frame =
      if frame = pa then refcnt pa - 1 else refcnt frame := by
  have before : Function.update refcnt mem 1 pa = refcnt pa := Function.update_of_ne other.symm _ _
  rw [Vm.kfree, before, if_pos many]
  split
  · next same => rw [same, Function.update_self]
  · next apart => rw [Function.update_of_ne apart, Function.update_of_ne differ]

theorem sub_one_ne_zero {count : UInt32} (many : 1 < count) : count - 1 ≠ 0 := by
  rw [UInt32.lt_iff_toNat_lt] at many
  rw [ne_eq, ← UInt32.toNat_inj, UInt32.toNat_sub_of_le _ _ (UInt32.le_iff_toNat_le.mpr many.le)]
  change 1 < _ at many
  change ¬_ - 1 = 0
  omega

/-- A copied page is ready. -/
theorem prepared_copied {mem : Nat} {rest : List Nat} {memory : Vm.Memory}
    (space : UserSpace k root tables) (present : lookup k.memory root va = some (pa, flags))
    (va_page : pgsize ∣ va) (low : va < maxva) (user : flags &&& pteU ≠ 0)
    (unwritable : flags &&& pteW = 0) (cow : flags &&& pteCow ≠ 0) (many : 1 < k.refcnt pa)
    (taken : k.pages = mem :: rest)
    (repaged : Repaged k { k with
      memory := memory
      pages := rest
      refcnt := Vm.kfree (Function.update k.refcnt mem 1) pa
      bytes := ByteBlock.copyRange k.bytes mem k.bytes pa pgsize } root tables va mem
        (copyFlags flags)) :
    Prepared k { k with
      memory := memory
      pages := rest
      refcnt := Vm.kfree (Function.update k.refcnt mem 1) pa
      bytes := ByteBlock.copyRange k.bytes mem k.bytes pa pgsize } root tables va pa flags mem
        (copyFlags flags) := by
  have mem_page : mem ∈ k.pages := by
    rw [taken]
    exact List.mem_cons_self
  have fresh (other frame flags : Nat) (other_page : pgsize ∣ other) (other_low : other < maxva)
      (found : lookup k.memory root other = some (frame, flags)) : frame ≠ mem := by
    rintro rfl
    exact space.sound.fresh other frame flags other_page other_low found mem_page
  have other_frame := (fresh va pa flags va_page low present).symm
  have is_shared : isShared k root va = true :=
    (isShared_of_present present).mpr ⟨user, unwritable, cow, many⟩
  have write_bit : (copyFlags flags).testBit 2 = true := by
    rw [copyFlags_testBit (by decide) (by decide), decide_eq_true (rfl : 2 = 2), Bool.or_true]
  refine ⟨⟨repaged.sound, ?_, ?_⟩, repaged.map, ?_, ?_, fun j inside => copyRange_page inside, ?_,
    Or.inr mem_page, fun writable => absurd unwritable writable, ?_, ?_⟩
  · intro other frame other_flags other_page other_low found
    rw [repaged.map other other_page other_low] at found
    split at found
    · cases found
      exact (space.sound.supplied.2 mem mem_page).2.1
    · exact space.backed other frame other_flags other_page other_low found
  · intro other frame other_flags other_page other_low found other_user other_unwritable other_cow
    rw [repaged.map other other_page other_low] at found
    split at found
    · cases found
      exact absurd other_unwritable (and_bit.mpr write_bit)
    · have counted := space.counted other frame other_flags other_page other_low found other_user
        other_unwritable other_cow
      have count := kfree_counted (fresh other frame other_flags other_page other_low found) many
        other_frame
      change Vm.kfree (Function.update k.refcnt mem 1) pa frame ≠ 0
      rw [count]
      split
      · exact sub_one_ne_zero many
      · exact counted
  · rw [pteU, and_bit, copyFlags_testBit (by decide) (by decide), and_bit.mp user]
    rfl
  · exact ⟨[mem], taken.symm⟩
  · intro x outside
    exact if_neg (outside mem mem_page)
  · intro other other_page other_low differ shared
    cases found : lookup k.memory root other with
    | none =>
        rw [isShared, repaged.others other other_page other_low differ, found] at shared
        cases shared
    | some entry =>
        obtain ⟨frame, other_flags⟩ := entry
        have found' := (repaged.others other other_page other_low differ).trans found
        obtain ⟨other_user, other_unwritable, other_cow, other_many⟩ :=
          (isShared_of_present found').mp shared
        have count := kfree_counted (fresh other frame other_flags other_page other_low found) many
          other_frame
        change 1 < Vm.kfree (Function.update k.refcnt mem 1) pa frame at other_many
        rw [count] at other_many
        refine (isShared_of_present found).mpr ⟨other_user, other_unwritable, other_cow, ?_⟩
        split at other_many
        · next same =>
            rw [same]
            exact many
        · exact other_many
  · rw [if_pos is_shared, taken, List.length_cons]

/-- A page that was made writable in place is ready. -/
theorem prepared_inPlace {memory : Vm.Memory} (space : UserSpace k root tables)
    (present : lookup k.memory root va = some (pa, flags)) (va_page : pgsize ∣ va)
    (low : va < maxva) (user : flags &&& pteU ≠ 0) (unwritable : flags &&& pteW = 0)
    (repaged : Repaged k { k with memory := memory } root tables va pa (inPlaceFlags flags)) :
    Prepared k { k with memory := memory } root tables va pa flags pa (inPlaceFlags flags) := by
  have write_bit : (inPlaceFlags flags).testBit 2 = true := by
    rw [inPlaceFlags_testBit (by decide), decide_eq_true (rfl : 2 = 2), Bool.or_true]
    rfl
  refine ⟨⟨repaged.sound, ?_, ?_⟩, repaged.map, ?_, List.suffix_refl _, fun _ _ => rfl,
    fun _ _ => rfl, Or.inl rfl, fun writable => absurd unwritable writable, ?_,
      Nat.le_add_right _ _⟩
  · intro other frame other_flags other_page other_low found
    rw [repaged.map other other_page other_low] at found
    split at found
    · cases found
      exact space.backed va pa flags va_page low present
    · exact space.backed other frame other_flags other_page other_low found
  · intro other frame other_flags other_page other_low found other_user other_unwritable other_cow
    rw [repaged.map other other_page other_low] at found
    split at found
    · cases found
      exact absurd other_unwritable (and_bit.mpr write_bit)
    · exact space.counted other frame other_flags other_page other_low found other_user
        other_unwritable other_cow
  · rw [pteU, and_bit, inPlaceFlags_testBit (by decide), and_bit.mp user]
    rfl
  · intro other other_page other_low differ shared
    rwa [isShared, repaged.others other other_page other_low differ] at shared

/-- A page that can be written is ready. -/
theorem prepared_refl (space : UserSpace k root tables)
    (present : lookup k.memory root va = some (pa, flags)) (user : flags &&& pteU ≠ 0) :
    Prepared k k root tables va pa flags pa flags where
  space := space
  map other _ _ := by
    split
    · next same => rw [same, present]
    · rfl
  user := user
  suffix := List.suffix_refl _
  bytes _ _ := rfl
  frame _ _ := rfl
  origin := Or.inl rfl
  plain _ := ⟨rfl, rfl⟩
  shared _ _ _ _ shared := shared
  taken := Nat.le_add_right _ _

/-- `alloc_cow_page` makes a page ready that the user can write, or that is to be copied. -/
theorem UserSpace.prepare (space : UserSpace k root tables)
    (present : lookup k.memory root va = some (pa, flags)) (va_page : pgsize ∣ va)
    (low : va < maxva)
    (user : flags &&& pteU ≠ 0) (writable : flags &&& pteW ≠ 0 ∨ flags &&& pteCow ≠ 0)
    (enough : isShared k root va = true → k.pages ≠ []) :
    ∃ ret k₁ pa₁ flags₁, allocCowPage k root va = .ok (ret, k₁) ∧ 0 ≤ ret ∧
      Prepared k k₁ root tables va pa flags pa₁ flags₁ := by
  have outcome := allocCowPage_cases space.sound low
  rw [pgrounddown_self va_page low] at outcome
  generalize allocCowPage k root va = result at outcome
  cases outcome with
  | pass plain => exact ⟨1, k, pa, flags, rfl, by decide, prepared_refl space present user⟩
  | readOnly _ _ found _ unwritable own =>
      cases present.symm.trans found
      exact absurd writable (not_or.mpr ⟨not_not.mpr unwritable, not_not.mpr own⟩)
  | failed _ _ found _ unwritable cow uncounted =>
      cases present.symm.trans found
      exact absurd uncounted (space.counted va pa flags va_page low present user unwritable cow)
  | exhausted _ _ found _ unwritable cow many none =>
      cases present.symm.trans found
      exact absurd none (enough ((isShared_of_present present).mpr ⟨user, unwritable, cow, many⟩))
  | copied _ _ found _ unwritable cow many mem rest taken memory repaged =>
      cases present.symm.trans found
      exact ⟨0, _, mem, _, rfl, le_rfl,
        prepared_copied space present va_page low user unwritable cow many taken repaged⟩
  | inPlace _ _ found _ unwritable cow single memory repaged =>
      cases present.symm.trans found
      exact ⟨0, _, pa, _, rfl, le_rfl, prepared_inPlace space present va_page low user unwritable
        repaged⟩

/-- `copyout` stops at a page that the user cannot write, and has not changed it. -/
theorem UserSpace.refuse (space : UserSpace k root tables) {a : Nat} (fits : a < 2 ^ 64)
    (unwritable : ¬Writable k.memory root a) :
    ∃ ret, allocCowPage k root (pgrounddown a) = .ok (ret, k) ∧
      (ret < 0 ∨ walkaddr k.memory root (pgrounddown a) = 0) := by
  rcases Nat.lt_or_ge a maxva with low | high
  · have page_low := pgrounddown_low low
    have outcome := allocCowPage_cases space.sound page_low
    rw [pgrounddown_self (pgrounddown_page fits) page_low] at outcome
    have refused (pa flags : Nat)
      (found : lookup k.memory root (pgrounddown a) = some (pa, flags)) :
        flags &&& pteU = 0 ∨ flags &&& pteW = 0 ∧ flags &&& pteCow = 0 := by
      by_contra writable
      rw [not_or, not_and_or] at writable
      rw [lookup_pgrounddown fits] at found
      exact unwritable ⟨low, pa, flags, found, writable.1, writable.2⟩
    generalize allocCowPage k root (pgrounddown a) = result at outcome
    cases outcome with
    | pass plain =>
        refine ⟨1, rfl, Or.inr (walkaddr_kernel ?_)⟩
        intro pa flags found
        rcases plain pa flags found with kernel | writable
        · exact kernel
        · exact (refused pa flags found).resolve_right fun both => writable both.1
    | readOnly _ _ found user _ own => exact ⟨-1, rfl, Or.inl (by decide)⟩
    | failed => exact ⟨-1, rfl, Or.inl (by decide)⟩
    | exhausted pa flags found user _ cow =>
        rcases refused pa flags found with kernel | ⟨-, own⟩
        · exact absurd kernel user
        · exact absurd own cow
    | copied pa flags found user _ cow =>
        rcases refused pa flags found with kernel | ⟨-, own⟩
        · exact absurd kernel user
        · exact absurd own cow
    | inPlace pa flags found user _ cow =>
        rcases refused pa flags found with kernel | ⟨-, own⟩
        · exact absurd kernel user
        · exact absurd own cow
  · have page_high : maxva ≤ pgrounddown a := Nat.le_of_not_lt fun low =>
      absurd ((pgrounddown_low_iff fits).mp low) (Nat.not_lt.mpr high)
    refine ⟨-1, ?_, Or.inl (by decide)⟩
    rw [allocCowPage, if_pos page_high]

/-! ## `copyout` -/

/-- The pages of a range. -/
def touched (dstva len : Nat) : Finset Nat := (Finset.Ico dstva (dstva + len)).image pgrounddown

/-- The pages of a range that have to be copied before they are written. -/
def copies (k : Kernel) (root dstva len : Nat) : Finset Nat :=
  (touched dstva len).filter fun va => isShared k root va = true

/-- The pages of a range are on distinct frames. -/
def Distinct (memory : Vm.Memory) (root dstva len : Nat) : Prop :=
  ∀ a b, dstva ≤ a → a < dstva + len → dstva ≤ b → b < dstva + len → ∀ pa flags flags',
    lookup memory root a = some (pa, flags) → lookup memory root b = some (pa, flags') →
      pgrounddown a = pgrounddown b

/-- No address of the range is at the physical address `x`. -/
def Apart (memory : Vm.Memory) (root dstva len x : Nat) : Prop :=
  ∀ a, dstva ≤ a → a < dstva + len → ∀ pa flags, lookup memory root a = some (pa, flags) →
    x ≠ pa + a % pgsize

/-- The bytes of `source` from `src` on are at the user addresses from `dstva` on. -/
structure Wrote (k k' : Kernel) (root : Nat) (tables : List Nat) (source : ByteBlock.Bytes)
    (dstva src len : Nat) : Prop where
  /-- The page table. -/
  space : UserSpace k' root tables
  /-- The other pages. -/
  others : ∀ va, pgsize ∣ va → va < maxva → va ∉ touched dstva len →
    lookup k'.memory root va = lookup k.memory root va
  /-- Pages were taken. -/
  suffix : k'.pages <:+ k.pages
  /-- Only the addressed bytes and the pages of `kalloc` are written. -/
  frame : ∀ x, (∀ mem ∈ k.pages, ¬(mem ≤ x ∧ x < mem + pgsize)) →
    Apart k.memory root dstva len x → k'.bytes x = k.bytes x
  /-- What the pages hold. -/
  content : Distinct k.memory root dstva len → ∀ va ∈ touched dstva len, ∃ pa flags pa' flags',
    lookup k.memory root va = some (pa, flags) ∧ lookup k'.memory root va = some (pa', flags') ∧
    flags' &&& pteU ≠ 0 ∧ (pa' = pa ∨ pa' ∈ k.pages) ∧ ∀ j < pgsize, k'.bytes (pa' + j) =
      if dstva ≤ va + j ∧ va + j < dstva + len then source (src + (va + j - dstva))
      else k.bytes (pa + j)
  /-- If the pages can be written, only the addressed bytes change. -/
  plain : (∀ a, dstva ≤ a → a < dstva + len → ∀ pa flags,
      lookup k.memory root a = some (pa, flags) → flags &&& pteW ≠ 0) →
    k' = { k with bytes := k'.bytes } ∧
      ∀ x, Apart k.memory root dstva len x → k'.bytes x = k.bytes x
  /-- No more pages have to be copied. -/
  shared : ∀ va, pgsize ∣ va → va < maxva → va ∉ touched dstva len →
    isShared k' root va = true → isShared k root va = true
  /-- Pages of `kalloc` are taken for pages that have to be copied. -/
  taken : k.pages.length ≤ k'.pages.length + (copies k root dstva len).card

theorem mem_touched {dstva len va : Nat} :
    va ∈ touched dstva len ↔ ∃ a, dstva ≤ a ∧ a < dstva + len ∧ pgrounddown a = va := by
  rw [touched, Finset.mem_image]
  simp only [Finset.mem_Ico, and_assoc]

theorem touched_zero (dstva : Nat) : touched dstva 0 = ∅ := by
  rw [touched, Nat.add_zero, Finset.Ico_self, Finset.image_empty]

theorem touched_add (dstva first second : Nat) :
    touched dstva (first + second) = touched dstva first ∪ touched (dstva + first) second := by
  rw [touched, touched, touched, ← Finset.image_union, ← Nat.add_assoc,
    Finset.Ico_union_Ico_eq_Ico (Nat.le_add_right _ _) (Nat.le_add_right _ _)]

/-- A range inside a page. -/
theorem touched_page {n : Nat} (fits : dstva < 2 ^ 64) (some : 0 < n)
    (inside : dstva % pgsize + n ≤ pgsize) : touched dstva n = {pgrounddown dstva} := by
  have page : pgsize = 4096 := rfl
  have same (i : Nat) (i_lt : i < n) : pgrounddown (dstva + i) = pgrounddown dstva := by
    have here : dstva + i < 2 ^ 64 := by
      rw [page] at inside
      omega
    exact (pgrounddown_add fits (by omega) here).1
  ext va
  rw [mem_touched, Finset.mem_singleton]
  constructor
  · rintro ⟨a, lower, upper, rfl⟩
    have at_a := same (a - dstva) (by omega)
    rwa [Nat.add_sub_cancel' lower] at at_a
  · rintro rfl
    exact ⟨dstva, le_rfl, by omega, rfl⟩

/-- The pages before and from the start of a page on are different. -/
theorem touched_disjoint (dstva first second : Nat) (low : dstva + first + second ≤ 2 ^ 64)
    (boundary : pgsize ∣ dstva + first ∨ second = 0) :
    Disjoint (touched dstva first) (touched (dstva + first) second) := by
  rw [Finset.disjoint_left]
  intro va before after
  obtain ⟨a, a_lower, a_upper, rfl⟩ := mem_touched.mp before
  obtain ⟨b, b_lower, b_upper, same⟩ := mem_touched.mp after
  rcases boundary with ⟨m, start⟩ | none
  · rw [pgrounddown_eq (show a < 2 ^ 64 by omega),
      pgrounddown_eq (show b < 2 ^ 64 by omega)] at same
    rw [show pgsize = 4096 from rfl] at *
    omega
  · omega

theorem Wrote.refl (space : UserSpace k root tables) :
    Wrote k k root tables source dstva src 0 where
  space := space
  others _ _ _ _ := rfl
  suffix := List.suffix_refl _
  frame _ _ _ := rfl
  content _ va inside := by
    rw [touched_zero] at inside
    exact absurd inside (Finset.notMem_empty va)
  plain _ := ⟨rfl, fun _ _ => rfl⟩
  shared _ _ _ _ shared := shared
  taken := Nat.le_add_right _ _

/-- The stores of a round, after `alloc_cow_page`. -/
theorem Prepared.wrote {n pa₁ flags₁ : Nat}
    (prepared : Prepared k k₁ root tables (pgrounddown dstva) pa flags pa₁ flags₁)
    (space : UserSpace k root tables) (low : dstva < maxva)
    (present : lookup k.memory root (pgrounddown dstva) = some (pa, flags)) (some : 0 < n)
    (inside : dstva % pgsize + n ≤ pgsize) :
    Wrote k { k₁ with
      bytes := ByteBlock.copyRange k₁.bytes (pa₁ + dstva % pgsize) source src n } root tables source
        dstva src n := by
  have page : pgsize = 4096 := rfl
  have fits : dstva < 2 ^ 64 := low.trans (by decide)
  have va_page := pgrounddown_page fits
  have va_low := pgrounddown_low low
  have start := sub_pgrounddown fits
  have around := pgrounddown_lt fits
  have pages_eq := touched_page fits some inside
  have at_page : lookup k₁.memory root (pgrounddown dstva) = Option.some (pa₁, flags₁) :=
    (prepared.map _ va_page va_low).trans (if_pos rfl)
  have pa_page := (lookup_isFrame present).1.1
  -- The stores are to the addressed bytes of the old frame, or to a page of `kalloc`.
  have stores (x : Nat) (apart : Apart k.memory root dstva n x) (old : pa₁ = pa) :
      ByteBlock.copyRange k₁.bytes (pa₁ + dstva % pgsize) source src n x = k₁.bytes x := by
    refine if_neg fun between => ?_
    have here : dstva + (x - (pa₁ + dstva % pgsize)) < 2 ^ 64 := by
      rw [page] at inside
      omega
    obtain ⟨same_page, offset⟩ :=
      pgrounddown_add fits (i := x - (pa₁ + dstva % pgsize)) (by omega) here
    refine apart (dstva + (x - (pa₁ + dstva % pgsize))) (Nat.le_add_right _ _)
      (by omega) pa flags ?_ ?_
    · rw [← lookup_pgrounddown here, same_page, present]
    · rw [offset]
      omega
  refine ⟨prepared.space.congr rfl rfl rfl, ?_, prepared.suffix, ?_, ?_, ?_, ?_, ?_⟩
  · intro va other_page other_low outside
    rw [pages_eq, Finset.mem_singleton] at outside
    exact (prepared.map va other_page other_low).trans (if_neg outside)
  · intro x outside apart
    rw [← prepared.frame x outside]
    rcases prepared.origin with old | new
    · exact stores x apart old
    · refine if_neg fun between => outside pa₁ new ?_
      omega
  · intro distinct va inside_range
    rw [pages_eq, Finset.mem_singleton] at inside_range
    subst inside_range
    refine ⟨pa, flags, pa₁, flags₁, present, at_page, prepared.user, prepared.origin, ?_⟩
    intro j j_lt
    rw [← prepared.bytes j j_lt]
    have same_place : (pa₁ + dstva % pgsize ≤ pa₁ + j ∧ pa₁ + j < pa₁ + dstva % pgsize + n) ↔
        (dstva ≤ pgrounddown dstva + j ∧ pgrounddown dstva + j < dstva + n) := by
      omega
    change (if _ then _ else _) = _
    simp only [same_place]
    split
    · next between =>
        congr 1
        omega
    · rfl
  · intro writable
    have page_writable : flags &&& pteW ≠ 0 := by
      refine writable dstva le_rfl (by omega) pa flags ?_
      rw [← lookup_pgrounddown fits, present]
    obtain ⟨rfl, old⟩ := prepared.plain page_writable
    exact ⟨rfl, fun x apart => stores x apart old⟩
  · intro va other_page other_low outside shared
    rw [pages_eq, Finset.mem_singleton] at outside
    exact prepared.shared va other_page other_low outside shared
  · refine prepared.taken.trans (Nat.add_le_add_left ?_ _)
    rw [copies, pages_eq, Finset.filter_singleton]
    split
    · exact le_rfl
    · exact le_rfl

/-- An address of a later page is mapped as before. -/
theorem Wrote.later {n m b : Nat} (wrote : Wrote k k₁ root tables source dstva src n)
    (low : ∀ a < dstva + n + m, a < maxva) (boundary : pgsize ∣ dstva + n ∨ m = 0)
    (lower : dstva + n ≤ b) (upper : b < dstva + n + m) :
    lookup k₁.memory root b = lookup k.memory root b := by
  have bound : maxva = 2 ^ 38 := by decide
  have b_low := low b upper
  have top := low (dstva + n + m - 1) (by omega)
  have fits : b < 2 ^ 64 := b_low.trans (by decide)
  have apart := touched_disjoint dstva n m (by omega) boundary
  rw [← lookup_pgrounddown fits, wrote.others _ (pgrounddown_page fits) (pgrounddown_low b_low)
    (Finset.disjoint_right.mp apart (mem_touched.mpr ⟨b, lower, upper, rfl⟩)),
    lookup_pgrounddown fits]

/-- The copies for two ranges without a common page. -/
theorem copies_add {n m : Nat} (apart : Disjoint (touched dstva n) (touched (dstva + n) m)) :
    (copies k root dstva (n + m)).card =
      (copies k root dstva n).card + (copies k root (dstva + n) m).card := by
  rw [copies, touched_add, Finset.filter_union,
    Finset.card_union_of_disjoint (Finset.disjoint_filter_filter apart)]
  rfl

/-- The first pages of a range leave no more copies for the others. -/
theorem Wrote.copies_le {n m : Nat} (wrote : Wrote k k₁ root tables source dstva src n)
    (low : ∀ a < dstva + n + m, a < maxva)
    (apart : Disjoint (touched dstva n) (touched (dstva + n) m)) :
    (copies k₁ root (dstva + n) m).card ≤ (copies k root (dstva + n) m).card := by
  apply Finset.card_le_card
  intro va inside
  rw [copies, Finset.mem_filter] at inside ⊢
  obtain ⟨b, b_lower, b_upper, rfl⟩ := mem_touched.mp inside.1
  have b_low := low b b_upper
  exact ⟨inside.1, wrote.shared _ (pgrounddown_page (b_low.trans (by decide)))
    (pgrounddown_low b_low) (Finset.disjoint_right.mp apart inside.1) inside.2⟩

/-- The bytes at a frame that no address of the range has and that `kalloc` does not hand out. -/
theorem Wrote.frame_page {n frame j : Nat} (wrote : Wrote k k₁ root tables source dstva src n)
    (space : UserSpace k root tables) (frame_page : pgsize ∣ frame) (fresh : frame ∉ k.pages)
    (other : ∀ a, dstva ≤ a → a < dstva + n → ∀ pa flags,
      lookup k.memory root a = some (pa, flags) → frame ≠ pa) (inside : j < pgsize) :
    k₁.bytes (frame + j) = k.bytes (frame + j) := by
  apply wrote.frame
  · intro mem mem_page
    have differ : frame ≠ mem := by
      rintro rfl
      exact fresh mem_page
    exact page_apart frame_page (space.sound.supplied.2 mem mem_page).1.1 differ inside
  · intro a lower upper pa flags found same
    have offset : a % pgsize < pgsize := Nat.mod_lt a (by decide)
    refine page_apart frame_page (lookup_isFrame found).1.1
      (other a lower upper pa flags found) inside ⟨?_, ?_⟩
    · rw [same]
      exact Nat.le_add_right _ _
    · rw [same]
      exact Nat.add_lt_add_left offset _

/-- The content of the pages of two adjacent ranges. -/
theorem Wrote.content_trans {n m : Nat} (first : Wrote k k₁ root tables source dstva src n)
    (second : Wrote k₁ k' root tables source (dstva + n) (src + n) m)
    (space : UserSpace k root tables)
    (low : ∀ a < dstva + n + m, a < maxva) (boundary : pgsize ∣ dstva + n ∨ m = 0)
    (distinct : Distinct k.memory root dstva (n + m)) {va : Nat}
    (inside_range : va ∈ touched dstva (n + m)) :
    ∃ pa flags pa' flags', lookup k.memory root va = some (pa, flags) ∧
      lookup k'.memory root va = some (pa', flags') ∧ flags' &&& pteU ≠ 0 ∧
      (pa' = pa ∨ pa' ∈ k.pages) ∧ ∀ j < pgsize, k'.bytes (pa' + j) =
        if dstva ≤ va + j ∧ va + j < dstva + (n + m) then source (src + (va + j - dstva))
        else k.bytes (pa + j) := by
  have page : pgsize = 4096 := rfl
  have bound : maxva = 2 ^ 38 := by decide
  have fits (a : Nat) (upper : a < dstva + n + m) : a < 2 ^ 64 := (low a upper).trans (by decide)
  have top : dstva + n + m ≤ 2 ^ 64 := by
    have last := fits (dstva + n + m - 1)
    omega
  have apart := touched_disjoint _ _ _ top boundary
  have later (b : Nat) (lower : dstva + n ≤ b) (upper : b < dstva + n + m) :
      lookup k₁.memory root b = lookup k.memory root b := first.later low boundary lower upper
  rw [touched_add, Finset.mem_union] at inside_range
  rcases inside_range with before | after
  · obtain ⟨pa, flags, pa₁, flags₁, found, found₁, user, origin, bytes⟩ := first.content
      (fun a b a_lower a_upper b_lower b_upper =>
        distinct a b a_lower (by omega) b_lower (by omega))
      va before
    obtain ⟨a, a_lower, a_upper, rfl⟩ := mem_touched.mp before
    have a_fits := fits a (by omega)
    have va_page := pgrounddown_page a_fits
    have va_low := pgrounddown_low (low a (by omega))
    have outside := Finset.disjoint_left.mp apart before
    refine ⟨pa, flags, pa₁, flags₁, found, (second.others _ va_page va_low outside).trans found₁,
      user, origin, ?_⟩
    intro j j_lt
    have kept : k'.bytes (pa₁ + j) = k₁.bytes (pa₁ + j) := by
      refine second.frame_page first.space (lookup_isFrame found₁).1.1
        (first.space.sound.fresh _ pa₁ flags₁ va_page va_low found₁) ?_ j_lt
      intro b b_lower b_upper pb flags_b found_b same
      rw [later b b_lower b_upper] at found_b
      have b_fits := fits b b_upper
      rcases origin with old | new
      · have pages_eq : pgrounddown a = pgrounddown b := by
          refine distinct a b a_lower (by omega) (by omega) (by omega) pb flags flags_b ?_ found_b
          rw [← lookup_pgrounddown a_fits, found, ← old, same]
        exact outside (mem_touched.mpr ⟨b, b_lower, b_upper, pages_eq.symm⟩)
      · rw [← lookup_pgrounddown b_fits] at found_b
        exact space.sound.fresh _ pb flags_b (pgrounddown_page b_fits)
          (pgrounddown_low (low b b_upper)) found_b (same ▸ new)
    rw [kept, bytes j j_lt]
    have same_range : (dstva ≤ pgrounddown a + j ∧ pgrounddown a + j < dstva + n) ↔
        (dstva ≤ pgrounddown a + j ∧ pgrounddown a + j < dstva + (n + m)) := by
      have around := pgrounddown_lt a_fits
      rcases boundary with ⟨c, start⟩ | none
      · obtain ⟨d, page_eq⟩ := va_page
        rw [page] at *
        omega
      · omega
    simp only [same_range]
  · have distinct_later : Distinct k₁.memory root (dstva + n) m := by
      intro a b a_lower a_upper b_lower b_upper pa flags flags' found_a found_b
      rw [later a a_lower a_upper] at found_a
      rw [later b b_lower b_upper] at found_b
      exact distinct a b (by omega) (by omega) (by omega) (by omega) pa flags flags' found_a found_b
    obtain ⟨pa, flags, pa', flags', found₁, found', user, origin, bytes⟩ :=
      second.content distinct_later va after
    obtain ⟨b, b_lower, b_upper, rfl⟩ := mem_touched.mp after
    have b_fits := fits b b_upper
    have va_page := pgrounddown_page b_fits
    have va_low := pgrounddown_low (low b b_upper)
    have outside := Finset.disjoint_right.mp apart after
    have found : lookup k.memory root (pgrounddown b) = some (pa, flags) :=
      (first.others _ va_page va_low outside).symm.trans found₁
    refine ⟨pa, flags, pa', flags', found, found', user,
      origin.imp_right fun new => first.suffix.subset new, ?_⟩
    intro j j_lt
    have kept : k₁.bytes (pa + j) = k.bytes (pa + j) := by
      refine first.frame_page space (lookup_isFrame found).1.1
        (space.sound.fresh _ pa flags va_page va_low found) ?_ j_lt
      intro a a_lower a_upper pa_a flags_a found_a same
      have pages_eq : pgrounddown a = pgrounddown b := by
        refine distinct a b a_lower (by omega) (by omega) (by omega) pa flags_a flags ?_ ?_
        · rw [found_a, same]
        · rw [← lookup_pgrounddown b_fits, found]
      exact outside (mem_touched.mpr ⟨a, a_lower, a_upper, pages_eq⟩)
    rw [bytes j j_lt, kept]
    have lower : dstva + n ≤ pgrounddown b + j := by
      have around := pgrounddown_lt b_fits
      rcases boundary with ⟨c, start⟩ | none
      · obtain ⟨d, page_eq⟩ := va_page
        rw [page] at *
        omega
      · omega
    have same_range : (dstva + n ≤ pgrounddown b + j ∧ pgrounddown b + j < dstva + n + m) ↔
        (dstva ≤ pgrounddown b + j ∧ pgrounddown b + j < dstva + (n + m)) := by
      omega
    simp only [same_range]
    split
    · congr 1
      omega
    · rfl

/-- Two adjacent ranges. -/
theorem Wrote.trans {n m : Nat} (first : Wrote k k₁ root tables source dstva src n)
    (second : Wrote k₁ k' root tables source (dstva + n) (src + n) m)
    (space : UserSpace k root tables)
    (low : ∀ a < dstva + n + m, a < maxva) (boundary : pgsize ∣ dstva + n ∨ m = 0) :
    Wrote k k' root tables source dstva src (n + m) := by
  have fits (a : Nat) (upper : a < dstva + n + m) : a < 2 ^ 64 := (low a upper).trans (by decide)
  have top : dstva + n + m ≤ 2 ^ 64 := by
    have last := fits (dstva + n + m - 1)
    omega
  have apart := touched_disjoint _ _ _ top boundary
  have later (b : Nat) (lower : dstva + n ≤ b) (upper : b < dstva + n + m) :
      lookup k₁.memory root b = lookup k.memory root b := first.later low boundary lower upper
  have apart_later (x : Nat) (no_address : Apart k.memory root dstva (n + m) x) :
      Apart k₁.memory root (dstva + n) m x := by
    intro b lower upper pa flags found
    rw [later b lower upper] at found
    exact no_address b (by omega) (by omega) pa flags found
  refine ⟨second.space, ?_, second.suffix.trans first.suffix, ?_,
    fun distinct va => first.content_trans second space low boundary distinct, ?_, ?_, ?_⟩
  · intro va va_page va_low outside
    rw [touched_add, Finset.mem_union, not_or] at outside
    rw [second.others va va_page va_low outside.2, first.others va va_page va_low outside.1]
  · intro x outside no_address
    rw [second.frame x (fun mem inside => outside mem (first.suffix.subset inside))
      (apart_later x no_address),
      first.frame x outside fun a lower upper => no_address a lower (by omega)]
  · intro writable
    obtain ⟨same₁, bytes₁⟩ := first.plain fun a lower upper => writable a lower (by omega)
    obtain ⟨same, bytes⟩ := second.plain fun b lower upper pa flags found => by
      rw [later b lower upper] at found
      exact writable b (by omega) (by omega) pa flags found
    refine ⟨?_, ?_⟩
    · calc
        k' = { k₁ with bytes := k'.bytes } := same
        _ = { k with bytes := k'.bytes } := by rw [same₁]
    · intro x no_address
      rw [bytes x (apart_later x no_address),
        bytes₁ x fun a lower upper => no_address a lower (by omega)]
  · intro va va_page va_low outside shared
    rw [touched_add, Finset.mem_union, not_or] at outside
    exact first.shared va va_page va_low outside.1
      (second.shared va va_page va_low outside.2 shared)
  · have fewer := first.copies_le low apart
    have before := first.taken
    have after := second.taken
    rw [copies_add apart]
    omega

/-- `alloc_cow_page` panics at a page that has to be copied when `kalloc` has no page. -/
theorem UserSpace.exhausted (space : UserSpace k root tables) (va_page : pgsize ∣ va)
    (low : va < maxva) (shared : isShared k root va = true) (none : k.pages = []) :
    allocCowPage k root va = .error .outOfMemory := by
  have outcome := allocCowPage_cases space.sound low
  rw [pgrounddown_self va_page low] at outcome
  have marks (pa flags : Nat) (found : lookup k.memory root va = some (pa, flags)) :=
    (isShared_of_present found).mp shared
  generalize allocCowPage k root va = result at outcome
  cases outcome with
  | pass plain =>
      cases found : lookup k.memory root va with
      | none =>
          rw [isShared, found] at shared
          cases shared
      | some entry =>
          obtain ⟨user, unwritable, -⟩ := marks entry.1 entry.2 found
          rcases plain entry.1 entry.2 found with kernel | writable
          · exact absurd kernel user
          · exact absurd unwritable writable
  | readOnly pa flags found _ _ own =>
      obtain ⟨-, -, cow, -⟩ := marks pa flags found
      exact absurd own cow
  | failed pa flags found _ _ _ uncounted =>
      obtain ⟨-, -, -, many⟩ := marks pa flags found
      rw [uncounted] at many
      exact absurd many (by decide)
  | exhausted => rfl
  | copied _ _ _ _ _ _ _ mem rest taken =>
      rw [none] at taken
      cases taken
  | inPlace pa flags found _ _ _ single =>
      obtain ⟨-, -, -, many⟩ := marks pa flags found
      rw [single] at many
      exact absurd many (by decide)

/-- The loop of `copyout` copies up to the first page that the user cannot write, or panics at a
page that has to be copied. -/
theorem copyoutLoop_spec (source : ByteBlock.Bytes) (src : Nat) (space : UserSpace k root tables)
    (fits : dstva < 2 ^ 64) (enough : len < fuel) :
    (∃ n ≤ len, ∃ k', copyoutLoop root source fuel k dstva src len =
        .ok (if n = len then 0 else -1, k') ∧
      Wrote k k' root tables source dstva src n ∧
      (∀ i < n, Writable k.memory root (dstva + i)) ∧
      (n < len → ¬Writable k.memory root (dstva + n))) ∨
    ∃ n < len, copyoutLoop root source fuel k dstva src len = .error .outOfMemory ∧
      (∀ i ≤ n, Writable k.memory root (dstva + i)) ∧
      k.pages.length < (copies k root dstva (n + 1)).card := by
  induction fuel generalizing k dstva src len with
  | zero => exact absurd enough (Nat.not_lt_zero _)
  | succ fuel ih =>
      have page : pgsize = 4096 := rfl
      have bound : maxva = 2 ^ 38 := by decide
      have never (i : Nat) (impossible : i < 0) : Writable k.memory root (dstva + i) :=
        absurd impossible (Nat.not_lt_zero i)
      rw [copyoutLoop]
      rcases Nat.eq_zero_or_pos len with rfl | positive
      · exact Or.inl ⟨0, le_rfl, k, if_neg (Nat.lt_irrefl 0), Wrote.refl space, never,
          fun impossible => absurd impossible (Nat.lt_irrefl 0)⟩
      · rw [if_pos positive]
        dsimp only
        by_cases writable : Writable k.memory root dstva
        · obtain ⟨low, pa, flags, found, user, mark⟩ := writable
          have va_page := pgrounddown_page fits
          have va_low := pgrounddown_low low
          have present := found
          rw [← lookup_pgrounddown fits] at present
          by_cases shortage : isShared k root (pgrounddown dstva) = true ∧ k.pages = []
          · refine Or.inr ⟨0, positive, ?_, ?_, ?_⟩
            · rw [space.exhausted va_page va_low shortage.1 shortage.2]
              rfl
            · rintro i i_le
              rw [Nat.le_zero.mp i_le]
              exact ⟨low, pa, flags, found, user, mark⟩
            · have first_page : pgrounddown dstva ∈ copies k root dstva (0 + 1) :=
                Finset.mem_filter.mpr ⟨mem_touched.mpr ⟨dstva, le_rfl, by omega, rfl⟩, shortage.1⟩
              rw [shortage.2]
              exact Finset.card_pos.mpr ⟨_, first_page⟩
          · obtain ⟨ret, k₁, pa₁, flags₁, run, passes, prepared⟩ :=
              space.prepare present va_page va_low
              user mark fun shared none => shortage ⟨shared, none⟩
            obtain ⟨some, n_le, inside, next⟩ := pageRest_spec fits positive
            have at_page := (prepared.map _ va_page va_low).trans (if_pos rfl)
            have found₁ := walkaddr_user va_low at_page prepared.user
            have nonzero : pa₁ ≠ 0 := prepared.space.backed _ pa₁ flags₁ va_page va_low at_page
            rw [run, Except.ok_bind]
            dsimp only
            rw [if_neg (Int.not_lt.mpr passes), found₁, if_neg nonzero, sub_pgrounddown fits]
            generalize pageRest (pgrounddown dstva) dstva len = n at some n_le inside next
            have first : Wrote k _ root tables source dstva src n :=
              prepared.wrote space low present some inside
            have chunk (i : Nat) (i_lt : i < n) : Writable k.memory root (dstva + i) := by
              have here : dstva + i < maxva := by
                rw [page] at inside
                omega
              refine ⟨here, pa, flags, ?_, user, mark⟩
              rw [← lookup_pgrounddown (here.trans (by decide)),
                (pgrounddown_add fits (by omega) (here.trans (by decide))).1, present]
            rcases n_le.lt_or_eq with more | rfl
            · have next_low : dstva + n < 2 ^ 64 := by omega
              have boundary : pgsize ∣ dstva + n := by
                rw [← next more]
                exact va_page.add (dvd_refl pgsize)
              rw [next more, Nat.mod_eq_of_lt next_low]
              have same (b : Nat) (lower : dstva + n ≤ b) (b_low : b < maxva) :
                  lookup k₁.memory root b = lookup k.memory root b := by
                have b_fits : b < 2 ^ 64 := b_low.trans (by decide)
                have differ : pgrounddown b ≠ pgrounddown dstva := by
                  have around := pgrounddown_lt b_fits
                  have at_next := next more
                  obtain ⟨c, start⟩ := boundary
                  obtain ⟨d, page_eq⟩ := pgrounddown_page b_fits
                  rw [page] at *
                  omega
                rw [← lookup_pgrounddown b_fits, prepared.map _ (pgrounddown_page b_fits)
                  (pgrounddown_low b_low), if_neg differ, lookup_pgrounddown b_fits]
              have writable_iff (b : Nat) (lower : dstva + n ≤ b) :
                  Writable k₁.memory root b ↔ Writable k.memory root b := by
                rw [Writable, Writable]
                refine and_congr_right fun b_low => ?_
                rw [same b lower b_low]
              have below (m : Nat) (rest : ∀ i < m, Writable k₁.memory root (dstva + n + i))
                (a : Nat) (upper : a < dstva + n + m) : a < maxva := by
                rcases Nat.eq_zero_or_pos m with rfl | some_more
                · have last := (chunk (n - 1) (by omega)).1
                  omega
                · have last := (rest (m - 1) (by omega)).1
                  omega
              have both (m : Nat) (rest : ∀ i < m, Writable k₁.memory root (dstva + n + i))
                (i : Nat) (i_lt : i < n + m) : Writable k.memory root (dstva + i) := by
                rcases Nat.lt_or_ge i n with before | later
                · exact chunk i before
                · have from_n := (writable_iff _ (by omega)).mp (rest (i - n) (by omega))
                  rwa [Nat.add_assoc, Nat.add_sub_cancel' later] at from_n
              rcases @ih { k₁ with
                bytes := ByteBlock.copyRange k₁.bytes (pa₁ + dstva % pgsize) source src n }
                (dstva + n) (len - n) (src + n) first.space next_low (by omega) with
                ⟨m, m_le, k', run', second, rest, stop⟩ | ⟨m, m_lt, run', rest, short⟩
              · refine Or.inl ⟨n + m, by omega, k', ?_,
                  first.trans second space (below m rest) (Or.inl boundary), both m rest, ?_⟩
                · rw [run']
                  simp only [show m = len - n ↔ n + m = len by omega]
                · intro before writable
                  rw [← Nat.add_assoc] at writable
                  exact stop (by omega) ((writable_iff _ (Nat.le_add_right _ _)).mpr writable)
              · have rest' : ∀ i < m + 1, Writable k₁.memory root (dstva + n + i) :=
                  fun i i_lt => rest i (Nat.le_of_lt_succ i_lt)
                have low_all := below (m + 1) rest'
                have apart := touched_disjoint dstva n (m + 1) (by
                  have last := low_all (dstva + n + m) (by omega)
                  omega) (Or.inl boundary)
                refine Or.inr
                  ⟨n + m, by omega, run', fun i i_le => both (m + 1) rest' i (by omega), ?_⟩
                have before := first.taken
                have fewer := first.copies_le low_all apart
                rw [Nat.add_assoc, copies_add apart]
                change k₁.pages.length < _ at short
                change k.pages.length ≤ k₁.pages.length + _ at before
                omega
            · obtain ⟨fuel', rfl⟩ : ∃ fuel', fuel = fuel' + 1 :=
                Nat.exists_eq_succ_of_ne_zero (by omega)
              rw [Nat.sub_self, copyoutLoop, if_neg (Nat.lt_irrefl 0)]
              refine Or.inl ⟨n, le_rfl, _, ?_, first, chunk,
                fun impossible => absurd impossible (lt_irrefl n)⟩
              rw [if_pos rfl]
              rfl
        · obtain ⟨ret, run, fails⟩ := space.refuse fits writable
          refine Or.inl ⟨0, positive.le, k, ?_, Wrote.refl space, never, fun _ => writable⟩
          rw [run, Except.ok_bind, if_neg positive.ne]
          dsimp only
          split
          · rfl
          · next passes =>
              rw [if_pos (fails.resolve_left passes)]
              rfl

/-! ## Exactness -/

/-- Each address of the range is on a page that the user can write. -/
def AllWritable (memory : Vm.Memory) (root dstva len : Nat) : Prop :=
  ∀ i < len, dstva + i < maxva ∧ ∃ pa flags, lookup memory root (dstva + i) = some (pa, flags) ∧
    flags &&& pteU ≠ 0 ∧ flags &&& pteW ≠ 0

/-- `copyout` fails exactly if the user cannot write at an address of the range, or panics for want
of a page for each copy. -/
theorem copyout_iff (space : UserSpace k root tables) (fits : dstva < 2 ^ 64)
    (source : ByteBlock.Bytes) (len : Nat) :
    (∃ code k', copyout k root dstva source len = .ok (code, k') ∧ (code = 0 ∨ code = -1) ∧
      (code = -1 ↔ ∃ i < len, ¬Writable k.memory root (dstva + i))) ∨
    copyout k root dstva source len = .error .outOfMemory ∧
      k.pages.length < (copies k root dstva len).card := by
  rcases copyoutLoop_spec source 0 space fits (Nat.lt_succ_self len) with
    ⟨n, n_le, k', run, -, writable, stop⟩ | ⟨n, n_lt, run, -, short⟩
  · refine Or.inl ⟨_, k', run, ?_, ?_⟩
    · split
      · exact Or.inl rfl
      · exact Or.inr rfl
    · rcases n_le.lt_or_eq with before | rfl
      · rw [if_neg before.ne]
        exact iff_of_true rfl ⟨n, before, stop before⟩
      · rw [if_pos rfl]
        refine iff_of_false (by decide) ?_
        rintro ⟨i, i_lt, unwritable⟩
        exact unwritable (writable i i_lt)
  · refine Or.inr ⟨run, short.trans_le (Finset.card_le_card ?_)⟩
    intro va inside
    obtain ⟨touches, shared⟩ := Finset.mem_filter.mp inside
    obtain ⟨a, lower, upper, page⟩ := mem_touched.mp touches
    exact Finset.mem_filter.mpr ⟨mem_touched.mpr ⟨a, lower, by omega, page⟩, shared⟩

/-- `copyout` leaves a page that the user cannot write as it is, unless another page of the range
has the same frame and can be written. -/
theorem copyout_protects (space : UserSpace k root tables) (fits : dstva < 2 ^ 64) {code : Int}
    (run : copyout k root dstva source len = .ok (code, k')) (va_page : pgsize ∣ va)
    (low : va < maxva) (present : lookup k.memory root va = some (pa, flags))
    (protected_page : flags &&& pteU = 0 ∨ flags &&& pteW = 0 ∧ flags &&& pteCow = 0)
    (alone : ∀ i < len, pgrounddown (dstva + i) ≠ va → Writable k.memory root (dstva + i) →
      ∀ flags', lookup k.memory root (dstva + i) ≠ some (pa, flags')) :
    lookup k'.memory root va = some (pa, flags) ∧
      ∀ j < pgsize, k'.bytes (pa + j) = k.bytes (pa + j) := by
  obtain ⟨n, n_le, k₁, run₁, wrote, writable, -⟩ | ⟨n, -, fails, -⟩ :=
    copyoutLoop_spec source 0 space fits (Nat.lt_succ_self len)
  swap
  · cases run.symm.trans fails
  cases run.symm.trans run₁
  have at_address (i : Nat) (i_lt : i < n) (flags' : Nat) :
      lookup k.memory root (dstva + i) ≠ some (pa, flags') := by
    have writes := writable i i_lt
    rcases eq_or_ne (pgrounddown (dstva + i)) va with same | differ
    · obtain ⟨a_low, pa', flags₁, found, user, mark⟩ := writes
      rw [← lookup_pgrounddown (a_low.trans (by decide)), same, present] at found
      cases found
      rcases protected_page with kernel | ⟨unwritable, own⟩
      · exact absurd kernel user
      · exact absurd mark (not_or.mpr ⟨not_not.mpr unwritable, not_not.mpr own⟩)
    · exact alone i (by omega) differ writes flags'
  constructor
  · rw [wrote.others va va_page low, present]
    intro inside
    obtain ⟨a, lower, upper, rfl⟩ := mem_touched.mp inside
    have a_writable := writable (a - dstva) (by omega)
    have at_a := at_address (a - dstva) (by omega) flags
    rw [Nat.add_sub_cancel' lower] at a_writable at_a
    rw [lookup_pgrounddown (a_writable.1.trans (by decide))] at present
    exact at_a present
  · intro j inside
    refine wrote.frame_page space (lookup_isFrame present).1.1
      (space.sound.fresh va pa flags va_page low present) ?_ inside
    rintro a lower upper pa' flags' found rfl
    have at_a := at_address (a - dstva) (by omega) flags'
    rw [Nat.add_sub_cancel' lower] at at_a
    exact at_a found

/-- The user reads at the addresses of the range what `copyout` has stored. -/
theorem Wrote.read (wrote : Wrote k k' root tables source dstva src len)
    (distinct : Distinct k.memory root dstva len) {i : Nat} (i_lt : i < len)
    (low : dstva + i < maxva) :
    Readable k'.memory root (dstva + i) ∧ (k'.user root).bytes (dstva + i) = source (src + i) := by
  have fits : dstva + i < 2 ^ 64 := low.trans (by decide)
  have around := pgrounddown_lt fits
  obtain ⟨pa, flags, pa', flags', -, found, user, -, bytes⟩ := wrote.content distinct _
    (mem_touched.mpr ⟨dstva + i, Nat.le_add_right _ _, Nat.add_lt_add_left i_lt _, rfl⟩)
  rw [lookup_pgrounddown fits] at found
  refine ⟨⟨low, pa', flags', found, user⟩, ?_⟩
  rw [user_byte low found user, ← sub_pgrounddown fits, bytes _ (by omega),
    Nat.add_sub_cancel' around.1, if_pos ⟨Nat.le_add_right _ _, Nat.add_lt_add_left i_lt _⟩,
    Nat.add_sub_cancel_left]

/-- `copyin` returns what `copyout` has stored. -/
theorem Wrote.copyin (wrote : Wrote k k' root tables source dstva src len) (fits : dstva < 2 ^ 64)
    (distinct : Distinct k.memory root dstva len) (low : ∀ i < len, dstva + i < maxva)
    (dst : ByteBlock.Bytes) :
    copyin k' root dst dstva len = .ok (0, ByteBlock.copyRange dst 0 source src len) := by
  obtain ⟨code, after, reads, -, -, delivers⟩ := copyin_iff wrote.space fits dst len
  obtain ⟨rfl, rfl⟩ := delivers fun i i_lt => (wrote.read distinct i_lt (low i i_lt)).1
  rw [reads]
  congr 2
  apply ByteBlock.copyRange_congr
  intro i i_lt
  exact (wrote.read distinct i_lt (low i i_lt)).2

/-- `copyout` to pages that the user can write changes the addressed bytes and nothing else. -/
theorem copyout_writable (space : UserSpace k root tables) (fits : dstva < 2 ^ 64)
    (writable : AllWritable k.memory root dstva len) (distinct : Distinct k.memory root dstva len)
    (source : ByteBlock.Bytes) :
    ∃ bytes, copyout k root dstva source len = .ok (0, { k with bytes := bytes }) ∧
      Wrote k { k with bytes := bytes } root tables source dstva 0 len ∧
      ∀ x, Apart k.memory root dstva len x → bytes x = k.bytes x := by
  obtain ⟨n, n_le, k', run, wrote, -, stop⟩ | ⟨n, n_lt, -, -, short⟩ :=
    copyoutLoop_spec source 0 space fits (Nat.lt_succ_self len)
  swap
  · obtain ⟨va, inside⟩ := Finset.card_pos.mp (Nat.zero_lt_of_lt short)
    obtain ⟨touches, shared⟩ := Finset.mem_filter.mp inside
    obtain ⟨a, lower, upper, rfl⟩ := mem_touched.mp touches
    obtain ⟨low, pa, flags, found, -, write⟩ := writable (a - dstva) (by omega)
    rw [Nat.add_sub_cancel' lower] at low found
    rw [← lookup_pgrounddown (low.trans (by decide))] at found
    exact absurd ((isShared_of_present found).mp shared).2.1 write
  have whole : n = len := by
    by_contra other
    have before := n_le.lt_of_ne other
    obtain ⟨low, pa, flags, found, user, write⟩ := writable n before
    exact stop before ⟨low, pa, flags, found, user, Or.inl write⟩
  subst whole
  obtain ⟨same, bytes⟩ := wrote.plain fun a lower upper pa flags found => by
    obtain ⟨low, pa', flags', found', -, write⟩ := writable (a - dstva) (by omega)
    rw [Nat.add_sub_cancel' lower, found] at found'
    cases found'
    exact write
  rw [if_pos rfl] at run
  refine ⟨k'.bytes, ?_, ?_, bytes⟩
  · rw [← same]
    exact run
  · rw [← same]
    exact wrote

/-- The copies between the kernel and a user are exact. -/
structure CopiesExact (k : Kernel) (root : Nat) : Prop where
  /-- `copyout` to pages that the user can write, on distinct frames, changes the addressed bytes,
  and `copyin` returns the data. -/
  writes : ∀ dstva len source dst, dstva < 2 ^ 64 → AllWritable k.memory root dstva len →
    Distinct k.memory root dstva len → ∃ bytes,
      copyout k root dstva source len = .ok (0, { k with bytes := bytes }) ∧
      (∀ i < len, (Kernel.user { k with bytes := bytes } root).bytes (dstva + i) = source i) ∧
      (∀ x, Apart k.memory root dstva len x → bytes x = k.bytes x) ∧
      copyin { k with bytes := bytes } root dst dstva len =
        .ok (0, ByteBlock.copyRange dst 0 source 0 len)
  /-- `copyout` that returns has left a page alone that the user cannot write, if no other page of
  the range that the user can write has its frame. -/
  protects : ∀ dstva len source code k', dstva < 2 ^ 64 →
    copyout k root dstva source len = .ok (code, k') → ∀ va pa flags, pgsize ∣ va → va < maxva →
    lookup k.memory root va = some (pa, flags) →
    (flags &&& pteU = 0 ∨ flags &&& pteW = 0 ∧ flags &&& pteCow = 0) →
    (∀ i < len, pgrounddown (dstva + i) ≠ va → Writable k.memory root (dstva + i) → ∀ flags',
      lookup k.memory root (dstva + i) ≠ some (pa, flags')) →
    lookup k'.memory root va = some (pa, flags) ∧ ∀ j < pgsize, k'.bytes (pa + j) = k.bytes (pa + j)
  /-- When `copyin` fails, and what it stores. -/
  reads : ∀ dst srcva len, srcva < 2 ^ 64 → ∃ code after,
    copyin k root dst srcva len = .ok (code, after) ∧ (code = 0 ∨ code = -1) ∧
    (code = -1 ↔ ∃ i < len, ¬Readable k.memory root (srcva + i)) ∧
    ((∀ i < len, Readable k.memory root (srcva + i)) →
      code = 0 ∧ after = ByteBlock.copyRange dst 0 (k.user root).bytes srcva len)
  /-- When `copyout` fails, if `kalloc` has the pages for the copies. -/
  fails : ∀ dstva len source, dstva < 2 ^ 64 → (copies k root dstva len).card ≤ k.pages.length →
    ∃ code k', copyout k root dstva source len = .ok (code, k') ∧ (code = 0 ∨ code = -1) ∧
    (code = -1 ↔ ∃ i < len, ¬Writable k.memory root (dstva + i))
  /-- When `copyinstr` succeeds, and what it stores. -/
  strings : ∀ dst srcva max, srcva < 2 ^ 64 → srcva ≠ 0 → ∃ code after,
    copyinstr k root dst srcva max = .ok (code, after) ∧ (code = 0 ∨ code = -1) ∧
    (code = 0 ↔ ∃ m < max, (∀ i ≤ m, Readable k.memory root (srcva + i)) ∧
      (k.user root).bytes (srcva + m) = 0) ∧
    (code = 0 → ∃ m < max, (∀ i < m, (k.user root).bytes (srcva + i) ≠ 0) ∧
      (k.user root).bytes (srcva + m) = 0 ∧
      after = ByteBlock.copyRange dst 0 (k.user root).bytes srcva (m + 1)) ∧
    ∀ x, max ≤ x → after x = dst x

/-- The copies between the kernel and a user are exact for every page table. -/
theorem UserSpace.copies_exact (space : UserSpace k root tables) : CopiesExact k root where
  writes dstva len source dst fits writable distinct := by
    obtain ⟨bytes, run, wrote, frame⟩ := copyout_writable space fits writable distinct source
    have low (i : Nat) (i_lt : i < len) : dstva + i < maxva := (writable i i_lt).1
    refine ⟨bytes, run, ?_, frame, wrote.copyin fits distinct low dst⟩
    intro i i_lt
    rw [(wrote.read distinct i_lt (low i i_lt)).2, Nat.zero_add]
  protects dstva len source code k' fits run va pa flags va_page low present protected_page alone :=
    copyout_protects space fits run va_page low present protected_page alone
  reads dst srcva len fits := copyin_iff space fits dst len
  fails dstva len source fits enough :=
    (copyout_iff space fits source len).resolve_right fun fails => absurd enough (by omega)
  strings dst srcva max fits nonzero := copyinstr_iff space fits nonzero dst max

/-! ## Two pages -/

/-- A process with two pages. -/
theorem exists_pages {perm₁ perm₂ frame₁ frame₂ : Nat} {count : UInt32} (is_perm₁ : IsFlags perm₁)
    (is_perm₂ : IsFlags perm₂) (is_frame₁ : IsFrame frame₁) (is_frame₂ : IsFrame frame₂)
    (apart : frame₁ ∉ threePages.pages ∧ frame₂ ∉ threePages.pages)
    (nonzero : frame₁ ≠ 0 ∧ frame₂ ≠ 0) (counted : count ≠ 0)
    (left_eq : (do
      let k ← threePages.mappages 0x80000000 0 pgsize frame₁ perm₁
      k.mappages 0x80000000 pgsize pgsize frame₂ perm₂).toOption.any
        (fun k : Kernel => decide (k.pages = [0x80003000])) = true) :
    ∃ k tables, UserSpace k 0x80000000 tables ∧
      lookup k.memory 0x80000000 0 = some (frame₁, mappedFlags perm₁) ∧
      lookup k.memory 0x80000000 pgsize = some (frame₂, mappedFlags perm₂) ∧
      (∀ frame, k.refcnt frame = count) ∧ k.pages = [0x80003000] := by
  obtain ⟨sound, nothing⟩ := threePages_sound
  obtain ⟨k, run, test⟩ := Except.exists_of_any left_eq
  obtain ⟨k₁, run₁, run₂⟩ := Except.bind_eq_ok.mp run
  obtain ⟨tables₁, sound₁, suffix, maps₁⟩ := map_frame sound (by decide : pgsize ∣ 0) (by decide)
    is_frame₁ is_perm₁ apart.1 run₁
  obtain ⟨tables₂, sound₂, -, maps₂⟩ := map_frame sound₁ (Nat.dvd_refl pgsize) (by decide) is_frame₂
    is_perm₂ (fun member => apart.2 (suffix.subset member)) run₂
  have maps (va : Nat) (va_page : pgsize ∣ va) (low : va < maxva) : lookup k.memory 0x80000000 va =
      if va = pgsize then some (frame₂, mappedFlags perm₂)
      else if va = 0 then some (frame₁, mappedFlags perm₁) else none := by
    rw [maps₂ va va_page low, maps₁ va va_page low, nothing]
  have frames (va pa flags : Nat) (va_page : pgsize ∣ va) (low : va < maxva)
      (found : lookup k.memory 0x80000000 va = some (pa, flags)) : pa ≠ 0 := by
    rw [maps va va_page low] at found
    split at found
    · cases found
      exact nonzero.2
    · split at found
      · cases found
        exact nonzero.1
      · cases found
  refine ⟨{ k with refcnt := fun _ => count }, tables₂, ⟨sound₂.congr rfl rfl, frames, ?_⟩, ?_, ?_,
    fun _ => rfl, of_decide_eq_true test⟩
  · exact fun _ _ _ _ _ _ _ _ _ => counted
  · rw [maps 0 (Nat.dvd_zero pgsize) (by decide), if_neg (by decide), if_pos rfl]
  · rw [maps pgsize (Nat.dvd_refl pgsize) (by decide), if_pos rfl]

/-- `perm` of a page that the user can write. -/
def dataPerm : Nat := theadNormal ||| pteU ||| pteR ||| pteW

/-- `perm` of a page that the user can only read. -/
def textPerm : Nat := theadNormal ||| pteU ||| pteR

/-- The pages of the four bytes around the end of a page. -/
theorem crossing_page {a : Nat} (lower : 4094 ≤ a) (upper : a < 4094 + 4) :
    pgrounddown a = if a < pgsize then 0 else pgsize := by
  rw [pgrounddown_eq (by omega), show pgsize = 4096 from rfl]
  split
  · omega
  · omega

/-- A copy over the end of a page, to two pages that can be written, and to one of them and one that
is to be copied. -/
theorem copies_exact_crossing : (∃ k tables bytes, UserSpace k 0x80000000 tables ∧
      copyout k 0x80000000 4094 (fun i => UInt8.ofNat i) 4 = .ok (0, { k with bytes := bytes }) ∧
      (Kernel.user { k with bytes := bytes } 0x80000000).bytes 4097 = 3) ∧
    ∃ k tables k', UserSpace k 0x80000000 tables ∧ isShared k 0x80000000 pgsize = true ∧
      copyout k 0x80000000 4094 (fun i => UInt8.ofNat i) 4 = .ok (0, k') := by
  have top : maxva = 2 ^ 38 := by decide
  have page : pgsize = 4096 := rfl
  constructor
  · obtain ⟨k, tables, space, first, second, -⟩ :=
      @exists_pages dataPerm dataPerm 0x80005000 0x80006000
      1 (by decide) (by decide) ⟨by decide, by decide⟩ ⟨by decide, by decide⟩ (by decide)
        (by decide)
      (by decide) (by decide +kernel)
    have at_address (a : Nat) (lower : 4094 ≤ a) (upper : a < 4094 + 4) :
        lookup k.memory 0x80000000 a =
          some (if a < pgsize then 0x80005000 else 0x80006000, mappedFlags dataPerm) := by
      rw [← lookup_pgrounddown (by omega), crossing_page lower upper]
      split
      · exact first
      · exact second
    have writable : AllWritable k.memory 0x80000000 4094 4 := fun i i_lt =>
      ⟨by omega, _, _, at_address _ (by omega) (by omega), by decide, by decide⟩
    have distinct : Distinct k.memory 0x80000000 4094 4 := by
      intro a b a_lower a_upper b_lower b_upper pa f f' at_a at_b
      have frame_a :=
        congrArg (Option.map Prod.fst) ((at_address a a_lower a_upper).symm.trans at_a)
      have frame_b :=
        congrArg (Option.map Prod.fst) ((at_address b b_lower b_upper).symm.trans at_b)
      have same := Option.some.inj (frame_a.trans frame_b.symm)
      rw [crossing_page a_lower a_upper, crossing_page b_lower b_upper]
      dsimp only at same
      split_ifs at same ⊢ with a_first b_first b_first
      · rfl
      · cases same
      · cases same
      · rfl
    obtain ⟨bytes, run, stored, -⟩ := space.copies_exact.writes 4094 4 (fun i => UInt8.ofNat i)
      (fun _ => 0) (by decide) writable distinct
    exact ⟨k, tables, bytes, space, run, stored 3 (by decide)⟩
  · obtain ⟨k, tables, space, first, second, counts, pages⟩ :=
      @exists_pages dataPerm cowPerm 0x80005000
      0x80006000 2 (by decide) (by decide) ⟨by decide, by decide⟩ ⟨by decide, by decide⟩ (by decide)
      (by decide) (by decide) (by decide +kernel)
    have shared : isShared k 0x80000000 pgsize = true := by
      refine (isShared_of_present second).mpr ⟨by decide, by decide, by decide, ?_⟩
      rw [counts]
      decide
    have few : copies k 0x80000000 4094 4 ⊆ {pgsize} := by
      intro va inside
      obtain ⟨touches, is_shared⟩ := Finset.mem_filter.mp inside
      obtain ⟨a, lower, upper, rfl⟩ := mem_touched.mp touches
      rw [crossing_page lower upper] at is_shared ⊢
      split at is_shared
      · exact absurd ((isShared_of_present first).mp is_shared).2.1 (by decide)
      · next behind =>
          rw [if_neg behind]
          exact Finset.mem_singleton_self pgsize
    have enough : (copies k 0x80000000 4094 4).card ≤ k.pages.length := by
      rw [pages]
      exact Finset.card_le_card few
    obtain ⟨code, k', run, zero | failed, fails⟩ := space.copies_exact.fails 4094 4
      (fun i => UInt8.ofNat i) (by decide) enough
    · subst zero
      exact ⟨k, tables, k', space, shared, run⟩
    · obtain ⟨i, i_lt, unwritable⟩ := fails.mp failed
      refine absurd ⟨by omega, ?_⟩ unwritable
      rw [← lookup_pgrounddown (by omega), crossing_page (by omega) (by omega)]
      split
      · exact ⟨_, _, first, by decide, Or.inl (by decide)⟩
      · exact ⟨_, _, second, by decide, Or.inr (by decide)⟩

/-- Fewer pages to hand out. -/
theorem UserSpace.exhaust (space : UserSpace k root tables) :
    UserSpace { k with pages := [] } root tables where
  sound := ⟨space.sound.table, Supplied.suffix space.sound.supplied (List.nil_suffix),
    fun _ _ _ _ _ _ => List.not_mem_nil⟩
  backed := space.backed
  counted := space.counted

/-- A store to a page changes a page on the same frame that the user can only read, and a copy of a
shared page without memory panics, though a later page of the range cannot be written. -/
theorem copyout_changes_text : (∃ k tables k', UserSpace k 0x80000000 tables ∧
      lookup k.memory 0x80000000 pgsize = some (0x80005000, mappedFlags textPerm) ∧
      mappedFlags textPerm &&& pteW = 0 ∧ mappedFlags textPerm &&& pteCow = 0 ∧
      copyout k 0x80000000 0 (fun _ => k.bytes 0x80005000 + 1) 1 = .ok (0, k') ∧
      k'.bytes 0x80005000 ≠ k.bytes 0x80005000) ∧
    ∃ k tables, UserSpace k 0x80000000 tables ∧ ¬Writable k.memory 0x80000000 (4094 + 2) ∧
      copyout k 0x80000000 4094 (fun _ => 7) 4 = .error .outOfMemory := by
  have top : maxva = 2 ^ 38 := by decide
  constructor
  · obtain ⟨k, tables, space, first, second, -⟩ :=
      @exists_pages dataPerm textPerm 0x80005000 0x80005000
      1 (by decide) (by decide) ⟨by decide, by decide⟩ ⟨by decide, by decide⟩ (by decide)
        (by decide)
      (by decide) (by decide +kernel)
    have at_zero (a : Nat) (upper : a < 0 + 1) : a = 0 := by omega
    have writable : AllWritable k.memory 0x80000000 0 1 := by
      intro i i_lt
      rw [Nat.zero_add, at_zero i i_lt]
      exact ⟨by decide, _, _, first, by decide, by decide⟩
    have distinct : Distinct k.memory 0x80000000 0 1 := by
      intro a b _ a_upper _ b_upper _ _ _ _ _
      rw [at_zero a a_upper, at_zero b b_upper]
    obtain ⟨bytes, run, wrote, -⟩ := copyout_writable space (by decide) writable distinct
      fun _ => k.bytes 0x80005000 + 1
    refine ⟨k, tables, _, space, second, by decide, by decide, run, ?_⟩
    have stored := (wrote.read distinct (i := 0) (by decide) (by decide)).2
    rw [user_byte (k := { k with bytes := bytes }) (by decide) first (by decide)] at stored
    change bytes 0x80005000 = k.bytes 0x80005000 + 1 at stored
    change bytes 0x80005000 ≠ _
    rw [stored]
    exact fun same => by simpa using same
  · obtain ⟨k, tables, space, first, second, counts, -⟩ := @exists_pages cowPerm textPerm 0x80005000
      0x80006000 2 (by decide) (by decide) ⟨by decide, by decide⟩ ⟨by decide, by decide⟩ (by decide)
      (by decide) (by decide) (by decide +kernel)
    have shared : isShared { k with pages := [] } 0x80000000 0 = true := by
      refine (isShared_of_present first).mpr ⟨by decide, by decide, by decide, ?_⟩
      change 1 < k.refcnt 0x80005000
      rw [counts]
      decide
    refine ⟨_, tables, space.exhaust, ?_, ?_⟩
    · rintro ⟨-, pa, flags, found, -, mark⟩
      cases second.symm.trans found
      exact absurd mark (by decide)
    · rw [copyout, copyoutLoop, if_pos (by decide)]
      dsimp only
      rw [show pgrounddown 4094 = 0 by decide,
        space.exhaust.exhausted (Nat.dvd_zero pgsize) (by decide) shared rfl]
      rfl

end Mapping
end Xv6Duo
