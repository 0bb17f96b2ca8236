import Xv6Duo.Mapping.Outcome

/-!
# Copy on write

`alloc_cow_page` makes a page writable that is marked to be copied: a page with other references is
copied to a page of `kalloc`, and the entry of a page with one reference is changed in place. The
second way clears `PTE_C`, which is a bit of the cache, and leaves `PTE_COW`.
-/

namespace Xv6Duo
namespace Mapping

open Vm Mmap

variable {k k' : Kernel} {root va pa flags perm : Nat} {tables : List Nat} {access : Access}

/-! ## Bits of entries -/

theorem and_bit {x n : Nat} : x &&& (1 <<< n) ≠ 0 ↔ x.testBit n = true := by
  rw [Nat.one_shiftLeft, Nat.and_two_pow]
  cases x.testBit n with
  | false => simp
  | true => simp

theorem pgrounddown_page {a : Nat} (fits : a < 2 ^ 64) : pgsize ∣ pgrounddown a := by
  rw [pgrounddown_eq fits]
  exact Nat.dvd_mul_left ..

theorem pgrounddown_low {a : Nat} (low : a < maxva) : pgrounddown a < maxva := by
  rw [pgrounddown_eq (low.trans (by decide))]
  exact (Nat.div_mul_le_self ..).trans_lt low

theorem px_pgrounddown {a : Nat} (fits : a < 2 ^ 64) (level : Nat) :
    px level (pgrounddown a) = px level a := by
  apply Fin.ext
  have split : 2 ^ pxshift level = pgsize * 2 ^ (9 * level) := by
    rw [pxshift, Nat.pow_add]
    rfl
  rw [px_val, px_val, pgrounddown_eq fits, split, ← Nat.div_div_eq_div_mul,
    ← Nat.div_div_eq_div_mul, Nat.mul_div_cancel _ (by decide)]

theorem route_pgrounddown {a : Nat} (fits : a < 2 ^ 64) (level : Nat) :
    route (pgrounddown a) level = route a level := by
  induction level with
  | zero => rfl
  | succ level ih => rw [route, route, ih, px_pgrounddown fits]

theorem lookup_pgrounddown {memory : Vm.Memory} {a : Nat} (fits : a < 2 ^ 64) :
    lookup memory root (pgrounddown a) = lookup memory root a := by
  rw [lookup, lookup, route_pgrounddown fits, px_pgrounddown fits]

theorem pteFlags_bit (pte : Nat) {i : Nat} (low : i < 10) :
    (pteFlags pte).testBit i = pte.testBit i := by
  rw [pteFlags, Nat.testBit_and, testBit_flagMask, decide_eq_true low, Bool.true_or, Bool.and_true]

/-- The flags of an entry with one low bit of a mask. -/
theorem pteFlags_and (pte : Nat) {i : Nat} (low : i < 10) :
    pteFlags pte &&& (1 <<< i) = 0 ↔ pte &&& (1 <<< i) = 0 := by
  have same := pteFlags_bit pte low
  constructor
  · intro none
    by_contra set
    exact absurd none (and_bit.mpr (same.trans (and_bit.mp set)))
  · intro none
    by_contra set
    exact absurd none (and_bit.mpr (same.symm.trans (and_bit.mp set)))

theorem clearBits_testBit {x n i : Nat} (small : n < 64) (inside : i < 64) :
    (clearBits x (1 <<< n)).testBit i = (x.testBit i && decide (i ≠ n)) := by
  rw [clearBits, Nat.testBit_and]
  congr 1
  have power : 1 <<< n = 2 ^ n := Nat.one_shiftLeft n
  have bound : 2 ^ n < 2 ^ 64 := Nat.pow_lt_pow_right (by decide) small
  rw [power, show 2 ^ 64 - 1 - 2 ^ n = 2 ^ 64 - (2 ^ n + 1) by omega,
    Nat.testBit_two_pow_sub_succ bound, Nat.testBit_two_pow]
  simp [inside, eq_comm]

theorem clearBits_isFlags {flags mask : Nat} (is_flags : IsFlags flags) :
    IsFlags (clearBits flags mask) := by
  rw [IsFlags, clearBits, Nat.and_right_comm, is_flags]

/-! ## Pages and their tables -/

theorem page_fits (va_page : pgsize ∣ va) (low : va < maxva) : va + pgsize ≤ maxva := by
  have bound : maxva = pgsize * 2 ^ 26 := by decide
  obtain ⟨n, rfl⟩ := va_page
  rw [bound, show pgsize = 4096 from rfl] at *
  omega

/-- `uvmunmap` of one page that is mapped. -/
theorem uvmunmap_one {memory : Vm.Memory} {table : Nat} (mapped : Vm.Sound memory root tables)
    (leads : Leads memory root va table) (valid : memory table (px 0 va) &&& pteV ≠ 0)
    (va_page : pgsize ∣ va) (low : va < maxva) :
    uvmunmap memory root va 1 true =
      .ok (RadixTree.write memory table (px 0 va) 0, [pte2pa (memory table (px 0 va))]) := by
  have bound : maxva = 2 ^ 38 := by decide
  have page : pgsize = 4096 := rfl
  have fits := page_fits va_page low
  have at_va := lookup_of_leads leads
  rw [decode_of_valid valid] at at_va
  have used := mapped.used (route va 2) (px 0 va) _ _ (route_length va 2) at_va
  rw [pteFlags_testBit] at used
  have finish : (va + 1 * pgsize) % 2 ^ 64 = va + pgsize := by
    rw [Nat.one_mul, Nat.mod_eq_of_lt (by omega)]
  have next : (va + pgsize) % 2 ^ 64 = va + pgsize := Nat.mod_eq_of_lt (by omega)
  have many : manyPages = 2 ^ 26 - 1 + 1 + 1 := by decide
  rw [uvmunmap, if_neg (not_not.mpr (Nat.mod_eq_zero_of_dvd va_page)), finish, many, unmapLoop,
    if_pos (by omega), walk_find low, Except.ok_bind, show RadixTree.tableAt child memory root
      (route va 2) = some table from leads]
  dsimp only [Option.map_some]
  rw [if_neg valid, if_neg (flags_ne_of_testBit used), if_pos rfl, next, unmapLoop,
    if_neg (Nat.lt_irrefl _)]
  rfl

/-! ## The two ways -/

/-- `walk` makes no table where there is one. -/
theorem walkLevels_leads {memory : Vm.Memory} {table level : Nat}
    (leads : RadixTree.tableAt child memory root (route va level) = some table) (alloc : Bool)
    (pages : List Nat) :
    walkLevels va alloc level memory root pages = (some (table, px 0 va), memory, pages) := by
  induction level generalizing root with
  | zero =>
      cases leads
      rfl
  | succ level ih =>
      rw [route, RadixTree.tableAt] at leads
      obtain ⟨next, at_next, rest⟩ := Option.bind_eq_some_iff.mp leads
      have valid : memory root (px (level + 1) va) &&& pteV ≠ 0 := by
        intro invalid
        rw [child_of_invalid (not_not.mpr invalid)] at at_next
        cases at_next
      rw [child_of_valid valid] at at_next
      cases at_next
      rw [walkLevels.eq_def]
      dsimp only
      rw [if_pos valid]
      exact ih rest

/-- `mappages` of one page that has a table and is not mapped. -/
theorem mappages_one {memory : Vm.Memory} {table : Nat} (leads : Leads memory root va table)
    (invalid : memory table (px 0 va) &&& pteV = 0) (va_page : pgsize ∣ va) (low : va < maxva)
    (pa perm : Nat) (pages : List Nat) :
    mappages memory root va pgsize pa perm pages =
      .ok (0, RadixTree.write memory table (px 0 va) (mapEntry pa perm), pages) := by
  have bound : maxva = 2 ^ 38 := by decide
  have page : pgsize = 4096 := rfl
  have first : pgrounddown va = va := by
    rw [pgrounddown_eq (by omega), Nat.div_mul_cancel va_page]
  have last : pgrounddown ((va + pgsize - 1) % 2 ^ 64) = va := by
    rw [Nat.mod_eq_of_lt (by omega), pgrounddown_eq (by omega)]
    rw [page] at va_page ⊢
    omega
  rw [mappages, if_neg (by decide), first, last, manyPages, mapLoop, walk, if_neg (by omega),
    walkLevels_leads leads, Except.ok_bind]
  dsimp only
  rw [if_neg (not_not.mpr invalid), if_pos rfl]
  rfl

/-- One page has another frame or other flags, and the other pages are as before. -/
structure Repaged (k k' : Kernel) (root : Nat) (tables : List Nat) (va pa flags : Nat) : Prop where
  /-- The page table. -/
  sound : Sound k' root tables
  /-- The map. -/
  map : ∀ other, pgsize ∣ other → other < maxva →
    lookup k'.memory root other = if other = va then some (pa, flags)
      else lookup k.memory root other

theorem Repaged.at_page (repaged : Repaged k k' root tables va pa flags) (va_page : pgsize ∣ va)
    (low : va < maxva) : lookup k'.memory root va = some (pa, flags) :=
  (repaged.map va va_page low).trans (if_pos rfl)

/-- The flags of a page after it has been copied. -/
def copyFlags (flags : Nat) : Nat := mappedFlags (clearBits flags pteCow ||| pteW)

/-- The flags of a page after it has been made writable in place. -/
def inPlaceFlags (flags : Nat) : Nat := clearBits (flags ||| pteW) pteC

/-- What `alloc_cow_page` does about the page at `va`. -/
inductive CowCase (k : Kernel) (root : Nat) (tables : List Nat) (va : Nat) :
    Except Fault (Int × Kernel) → Prop
  /-- Nothing, because the page is not one of the user, or can be written. -/
  | pass (plain : ∀ pa flags, lookup k.memory root va = some (pa, flags) →
      flags &&& pteU = 0 ∨ flags &&& pteW ≠ 0) :
      CowCase k root tables va (.ok (1, k))
  /-- It fails because the page is read only. -/
  | readOnly (pa flags : Nat) (present : lookup k.memory root va = some (pa, flags))
      (user : flags &&& pteU ≠ 0) (unwritable : flags &&& pteW = 0) (own : flags &&& pteCow = 0) :
      CowCase k root tables va (.ok (-1, k))
  /-- It fails because the frame has no counter. -/
  | failed (pa flags : Nat) (present : lookup k.memory root va = some (pa, flags))
      (user : flags &&& pteU ≠ 0) (unwritable : flags &&& pteW = 0) (cow : flags &&& pteCow ≠ 0)
      (uncounted : k.refcnt pa = 0) : CowCase k root tables va (.ok (-1, k))
  /-- `kalloc` has no page for the copy. -/
  | exhausted (pa flags : Nat) (present : lookup k.memory root va = some (pa, flags))
      (user : flags &&& pteU ≠ 0) (unwritable : flags &&& pteW = 0) (cow : flags &&& pteCow ≠ 0)
      (many : 1 < k.refcnt pa) (none : k.pages = []) :
      CowCase k root tables va (.error .outOfMemory)
  /-- The page is copied. -/
  | copied (pa flags : Nat) (present : lookup k.memory root va = some (pa, flags))
      (user : flags &&& pteU ≠ 0) (unwritable : flags &&& pteW = 0) (cow : flags &&& pteCow ≠ 0)
      (many : 1 < k.refcnt pa) (mem : Nat) (rest : List Nat) (taken : k.pages = mem :: rest)
      (memory : Vm.Memory)
      (repaged : Repaged k { k with
        memory := memory
        pages := rest
        refcnt := Vm.kfree (Function.update k.refcnt mem 1) pa
        bytes := ByteBlock.copyRange k.bytes mem k.bytes pa pgsize } root tables va mem
          (copyFlags flags)) :
      CowCase k root tables va (.ok (0, { k with
        memory := memory
        pages := rest
        refcnt := Vm.kfree (Function.update k.refcnt mem 1) pa
        bytes := ByteBlock.copyRange k.bytes mem k.bytes pa pgsize }))
  /-- The entry is changed in place. -/
  | inPlace (pa flags : Nat) (present : lookup k.memory root va = some (pa, flags))
      (user : flags &&& pteU ≠ 0) (unwritable : flags &&& pteW = 0) (cow : flags &&& pteCow ≠ 0)
      (single : k.refcnt pa = 1) (memory : Vm.Memory)
      (repaged : Repaged k { k with memory := memory } root tables va pa (inPlaceFlags flags)) :
      CowCase k root tables va (.ok (0, { k with memory := memory }))

/-- A page is copied: the copy takes its place. -/
theorem cow_copied {table mem pte : Nat} {rest : List Nat} (sound : Sound k root tables)
    (leads : Leads k.memory root va table) (entry : k.memory table (px 0 va) = pte)
    (valid : pte &&& pteV ≠ 0) (va_page : pgsize ∣ va) (low : va < maxva)
    (pages_eq : k.pages = mem :: rest) (bytes : ByteBlock.Bytes) (refcnt : Nat → UInt32)
    (is_perm : IsFlags perm) :
    ∃ memory, (do
      let k ← Kernel.unmap { k with pages := rest, refcnt := refcnt, bytes := bytes } root va 1
      let k ← k.mappages root va pgsize mem perm
      return ((0 : Int), k)) = .ok (0, { k with
        memory := memory
        pages := rest
        refcnt := Vm.kfree refcnt (pte2pa pte)
        bytes := bytes }) ∧
      Repaged k { k with
        memory := memory
        pages := rest
        refcnt := Vm.kfree refcnt (pte2pa pte)
        bytes := bytes } root tables va mem (mappedFlags perm) := by
  subst entry
  have mem_page : mem ∈ k.pages := by
    rw [pages_eq]
    exact List.mem_cons_self
  have is_page := (sound.supplied.2 mem mem_page).1
  have suffix : rest <:+ k.pages := ⟨[mem], by rw [pages_eq]; rfl⟩
  have mem_gone : mem ∉ rest := by
    have distinct := sound.supplied.1
    rw [pages_eq] at distinct
    exact (List.nodup_cons.mp distinct).1
  have leads' : Leads (RadixTree.write k.memory table (px 0 va) 0) root va table := by
    rw [Leads, RadixTree.tableAt_write_leaf 0 sound.table.tree.unaliased leads (route_length va 2)
      (route_length va 2).le]
    exact leads
  have cleared : RadixTree.write k.memory table (px 0 va) 0 table (px 0 va) = 0 := by
    rw [RadixTree.write, Function.update_self, Function.update_self]
  have table' : Vm.Sound (RadixTree.write k.memory table (px 0 va) 0) root tables :=
    sound.table.write leads (Or.inl (by decide))
  have maps (other : Nat) (other_page : pgsize ∣ other) (other_low : other < maxva) :
      lookup (RadixTree.write (RadixTree.write k.memory table (px 0 va) 0) table (px 0 va)
        (mapEntry mem perm)) root other =
        if other = va then some (mem, mappedFlags perm) else lookup k.memory root other := by
    rw [table'.tree.lookup_write leads' _ va_page low other_page other_low,
      sound.table.tree.lookup_write leads _ va_page low other_page other_low,
      decode_mapEntry is_page.isFrame is_perm]
    split
    · rfl
    · rfl
  refine ⟨RadixTree.write (RadixTree.write k.memory table (px 0 va) 0) table (px 0 va)
    (mapEntry mem perm), ?_, ⟨table'.write leads' (Or.inr (mapEntry_used mem perm)),
    Supplied.suffix sound.supplied suffix, ?_⟩, maps⟩
  · have unmaps : Kernel.unmap { k with pages := rest, refcnt := refcnt, bytes := bytes }
      root va 1 = .ok { k with
          pages := rest
          refcnt := Vm.kfree refcnt (pte2pa (k.memory table (px 0 va)))
          bytes := bytes
          memory := RadixTree.write k.memory table (px 0 va) 0 } := by
      rw [Kernel.unmap, uvmunmap_one sound.table leads valid va_page low]
      rfl
    rw [unmaps, Except.ok_bind]
    rw [Kernel.mappages, mappages_one leads' (by rw [cleared]; rfl) va_page low]
    rfl
  · intro other other_pa flags other_page other_low mapped
    rw [maps other other_page other_low] at mapped
    split at mapped
    · cases mapped
      exact mem_gone
    · exact fun inside => sound.fresh other other_pa flags other_page other_low mapped
        (suffix.subset inside)

theorem pte2pa_inPlace (pte : Nat) : pte2pa (clearBits (pte ||| pteW) pteC) = pte2pa pte := by
  apply Nat.eq_of_testBit_eq
  intro i
  rw [testBit_pte2pa, testBit_pte2pa]
  rcases Nat.lt_or_ge i 12 with low | inside
  · rw [decide_eq_false (by omega), Bool.false_and, Bool.false_and]
  · rcases Nat.lt_or_ge i 61 with upper | high
    · have other : pteW.testBit (i - 2) = false := by
        rw [pteW, Nat.one_shiftLeft, Nat.testBit_two_pow]
        exact decide_eq_false (by omega)
      rw [pteC, clearBits_testBit (by decide) (by omega), Nat.testBit_or, other, Bool.or_false,
        decide_eq_true (show i - 2 ≠ 62 by omega), Bool.and_true]
    · simp only [decide_eq_false (show ¬i < 61 by omega), Bool.and_false]

theorem pteFlags_inPlace (pte : Nat) :
    pteFlags (clearBits (pte ||| pteW) pteC) = inPlaceFlags (pteFlags pte) := by
  have kept : pteW &&& flagMask = pteW := by decide
  rw [pteFlags, inPlaceFlags, clearBits, clearBits, pteFlags, Nat.and_right_comm,
    Nat.and_or_distrib_right, kept]

/-- An entry is made writable in place. -/
theorem cow_inPlace {table pte : Nat} (sound : Sound k root tables)
    (leads : Leads k.memory root va table) (entry : k.memory table (px 0 va) = pte)
    (valid : pte &&& pteV ≠ 0) (va_page : pgsize ∣ va) (low : va < maxva) :
    Repaged k (k.setPte table (px 0 va) (clearBits (pte ||| pteW) pteC)) root tables va (pte2pa pte)
      (inPlaceFlags (pteFlags pte)) := by
  subst entry
  have at_va := lookup_of_leads leads
  rw [decode_of_valid valid] at at_va
  have used := sound.table.used (route va 2) (px 0 va) _ _ (route_length va 2) at_va
  rw [pteFlags_testBit] at used
  have marked : (clearBits (k.memory table (px 0 va) ||| pteW) pteC).testBit 6 = true := by
    rw [pteC, clearBits_testBit (by decide) (by decide), Nat.testBit_or, used]
    rfl
  have valid' : clearBits (k.memory table (px 0 va) ||| pteW) pteC &&& pteV ≠ 0 := by
    rw [valid_iff, pteC, clearBits_testBit (by decide) (by decide), Nat.testBit_or,
      valid_iff.mp valid]
    decide
  have maps (other : Nat) (other_page : pgsize ∣ other) (other_low : other < maxva) :
      lookup (RadixTree.write k.memory table (px 0 va)
        (clearBits (k.memory table (px 0 va) ||| pteW) pteC)) root other =
        if other = va then
          some (pte2pa (k.memory table (px 0 va)),
            inPlaceFlags (pteFlags (k.memory table (px 0 va))))
        else lookup k.memory root other := by
    rw [sound.table.tree.lookup_write leads _ va_page low other_page other_low,
      decode_of_valid valid', pte2pa_inPlace, pteFlags_inPlace]
  refine ⟨⟨sound.table.write leads (Or.inr marked), sound.supplied, ?_⟩, maps⟩
  intro other other_pa flags other_page other_low mapped
  rw [Kernel.setPte, maps other other_page other_low] at mapped
  split at mapped
  · cases mapped
    exact sound.fresh va _ _ va_page low at_va
  · exact sound.fresh other other_pa flags other_page other_low mapped

/-- `alloc_cow_page` ends in one of these ways. -/
theorem allocCowPage_cases (sound : Sound k root tables) {a : Nat} (low : a < maxva) :
    CowCase k root tables (pgrounddown a) (allocCowPage k root a) := by
  have bound : maxva = 2 ^ 38 := by decide
  have fits : a < 2 ^ 64 := by omega
  have va_page := pgrounddown_page fits
  have va_low := pgrounddown_low low
  have same : lookup k.memory root (pgrounddown a) = lookup k.memory root a :=
    lookup_pgrounddown fits
  unfold allocCowPage
  rw [if_neg (by omega), walkLevels_find]
  cases leads : RadixTree.tableAt child k.memory root (route a 2) with
  | none =>
      refine CowCase.pass fun pa flags present => ?_
      rw [same, lookup_eq, leads] at present
      cases present
  | some table =>
      dsimp only [Option.map_some]
      set pte := k.memory table (px 0 a) with pte_eq
      have at_a : lookup k.memory root a = decode pte := lookup_of_leads leads
      by_cases invalid : pte &&& pteV = 0
      · rw [if_pos (Or.inl invalid)]
        refine CowCase.pass fun pa flags present => ?_
        rw [same, at_a, decode_of_invalid invalid] at present
        cases present
      · have present : lookup k.memory root (pgrounddown a) = some (pte2pa pte, pteFlags pte) := by
          rw [same, at_a, decode_of_valid invalid]
        have user_iff : pteFlags pte &&& pteU = 0 ↔ pte &&& pteU = 0 := pteFlags_and pte (by decide)
        have write_iff : pteFlags pte &&& pteW = 0 ↔ pte &&& pteW = 0 :=
          pteFlags_and pte (by decide)
        have cow_iff : pteFlags pte &&& pteCow = 0 ↔ pte &&& pteCow = 0 :=
          pteFlags_and pte (by decide)
        by_cases kernel : pte &&& pteU = 0
        · rw [if_pos (Or.inr kernel)]
          refine CowCase.pass fun pa flags found => ?_
          rw [present] at found
          cases found
          exact Or.inl (user_iff.mpr kernel)
        · have user := fun none => kernel (user_iff.mp none)
          rw [if_neg (not_or.mpr ⟨invalid, kernel⟩)]
          by_cases writable : pte &&& pteW ≠ 0
          · rw [if_neg fun both => writable both.2, if_pos (Or.inl writable)]
            refine CowCase.pass fun pa flags found => ?_
            rw [present] at found
            cases found
            exact Or.inr fun none => writable (write_iff.mp none)
          · have unwritable := not_not.mp writable
            by_cases own : pte &&& pteCow = 0
            · rw [if_pos ⟨own, unwritable⟩]
              exact CowCase.readOnly _ _ present user (write_iff.mpr unwritable) (cow_iff.mpr own)
            · have cow := fun none => own (cow_iff.mp none)
              have leads' : Leads k.memory root (pgrounddown a) table := by
                rw [Leads, route_pgrounddown fits]
                exact leads
              have entry_eq : k.memory table (px 0 (pgrounddown a)) = pte := by
                rw [px_pgrounddown fits]
              rw [if_neg fun both => own both.1, if_neg (not_or.mpr ⟨writable, own⟩)]
              by_cases many : 1 < k.refcnt (pte2pa pte)
              · rw [if_pos many]
                cases pages_eq : k.pages with
                | nil =>
                    have empty : k.kalloc = .error .outOfMemory := by
                      simp only [Kernel.kalloc, pages_eq]
                    rw [empty]
                    exact CowCase.exhausted _ _ present user (write_iff.mpr unwritable) cow many
                      pages_eq
                | cons mem rest =>
                    have taken : k.kalloc = .ok (mem, { k with
                        pages := rest
                        refcnt := Function.update k.refcnt mem 1 }) := by
                      simp only [Kernel.kalloc, pages_eq]
                    obtain ⟨memory, run, repaged⟩ :=
                      cow_copied sound leads' entry_eq invalid va_page
                      va_low pages_eq (ByteBlock.copyRange k.bytes mem k.bytes (pte2pa pte) pgsize)
                      (Function.update k.refcnt mem 1)
                      ((clearBits_isFlags (isFlags_pteFlags pte)).or (by decide) :
                        IsFlags (clearBits (pteFlags pte) pteCow ||| pteW))
                    rw [taken, Except.ok_bind]
                    dsimp only
                    rw [run]
                    exact CowCase.copied _ _ present user (write_iff.mpr unwritable) cow
                      many mem rest pages_eq memory repaged
              · rw [if_neg many]
                by_cases single : k.refcnt (pte2pa pte) = 1
                · have repaged := cow_inPlace sound leads' entry_eq invalid va_page va_low
                  rw [if_pos single, ← px_pgrounddown fits]
                  exact CowCase.inPlace _ _ present user (write_iff.mpr unwritable) cow single
                    _ repaged
                · rw [if_neg single]
                  refine CowCase.failed _ _ present user (write_iff.mpr unwritable) cow ?_
                  rw [UInt32.lt_iff_toNat_lt] at many
                  rw [← UInt32.toNat_inj] at single ⊢
                  change ¬1 < _ at many
                  change ¬_ = 1 at single
                  change _ = 0
                  omega

/-! ## What the page permits afterwards -/

/-- The hardware lets the user access a page with these flags. An entry with `PTE_W` and without
`PTE_R` is reserved. -/
def Access.Permits (access : Access) (flags : Nat) : Prop :=
  flags &&& pteU ≠ 0 ∧ flags &&& pteR ≠ 0 ∧ (access = .store → flags &&& pteW ≠ 0)

instance (access : Access) (flags : Nat) : Decidable (access.Permits flags) :=
  inferInstanceAs (Decidable (_ ∧ _ ∧ _))

theorem permits_iff : access.Permits flags ↔
    flags.testBit 4 = true ∧ flags.testBit 1 = true ∧
      (access = .store → flags.testBit 2 = true) := by
  rw [Access.Permits, pteU, pteR, pteW, and_bit, and_bit, and_bit]

theorem mappedFlags_testBit (perm : Nat) {i : Nat} (plain : i ≠ 0 ∧ i ≠ 6 ∧ i ≠ 7) :
    (mappedFlags perm).testBit i = perm.testBit i := by
  have bit (n : Nat) (differ : i ≠ n) : (1 <<< n).testBit i = false := by
    rw [Nat.one_shiftLeft, Nat.testBit_two_pow]
    exact decide_eq_false (Ne.symm differ)
  rw [mappedFlags, pteV, pteA, pteD, Nat.testBit_or, Nat.testBit_or, Nat.testBit_or, bit 0 plain.1,
    bit 6 plain.2.1, bit 7 plain.2.2, Bool.or_false, Bool.or_false, Bool.or_false]

/-- A copy permits a store if the page can be read. -/
theorem permits_copy (user : flags &&& pteU ≠ 0) :
    Access.Permits .store (copyFlags flags) ↔ flags &&& pteR ≠ 0 := by
  have bits : pteW.testBit 1 = false ∧ pteW.testBit 2 = true ∧ pteW.testBit 4 = false := by decide
  have user_bit : flags.testBit 4 = true := and_bit.mp user
  rw [copyFlags, permits_iff, mappedFlags_testBit _ (by decide), mappedFlags_testBit _ (by decide),
    mappedFlags_testBit _ (by decide), Nat.testBit_or, Nat.testBit_or, Nat.testBit_or, pteCow,
    clearBits_testBit (by decide) (by decide), clearBits_testBit (by decide) (by decide), bits.1,
    bits.2.1, bits.2.2, user_bit, pteR, and_bit]
  simp

/-- An entry that is made writable permits a store if the page can be read. -/
theorem permits_inPlace (user : flags &&& pteU ≠ 0) :
    Access.Permits .store (inPlaceFlags flags) ↔ flags &&& pteR ≠ 0 := by
  have bits : pteW.testBit 1 = false ∧ pteW.testBit 2 = true ∧ pteW.testBit 4 = false := by decide
  have user_bit : flags.testBit 4 = true := and_bit.mp user
  rw [permits_iff, inPlaceFlags, pteC, clearBits_testBit (by decide) (by decide),
    clearBits_testBit (by decide) (by decide), clearBits_testBit (by decide) (by decide),
    Nat.testBit_or, Nat.testBit_or, Nat.testBit_or, bits.1, bits.2.1, bits.2.2, user_bit, pteR,
    and_bit]
  simp

/-! ## A page that is made writable -/

theorem copyFlags_testBit {i : Nat} (inside : i < 64) (plain : i ≠ 0 ∧ i ≠ 6 ∧ i ≠ 7) :
    (copyFlags flags).testBit i = (flags.testBit i && decide (i ≠ 8) || decide (2 = i)) := by
  rw [copyFlags, mappedFlags_testBit _ plain, Nat.testBit_or, pteCow,
    clearBits_testBit (by decide) inside, pteW, Nat.one_shiftLeft, Nat.testBit_two_pow]

theorem inPlaceFlags_testBit {i : Nat} (inside : i < 64) :
    (inPlaceFlags flags).testBit i = ((flags.testBit i || decide (2 = i)) && decide (i ≠ 62)) := by
  rw [inPlaceFlags, pteC, clearBits_testBit (by decide) inside, Nat.testBit_or, pteW,
    Nat.one_shiftLeft, Nat.testBit_two_pow]

/-- The page at `va` can be written afterwards: its other flags and its bytes are as before, the
counters follow the frame, and the other pages are mapped as before. -/
structure Resolved (k k' : Kernel) (root va pa flags pa' flags' : Nat) : Prop where
  /-- The page. -/
  mapped : lookup k'.memory root va = some (pa', flags')
  /-- `PTE_W` is set. -/
  writable : flags' &&& pteW ≠ 0
  /-- `PTE_COW` is clear. -/
  plain : flags' &&& pteCow = 0
  /-- The other flags. -/
  kept : ∀ i < 64, i ≠ 2 → i ≠ 8 → flags'.testBit i = flags.testBit i
  /-- The bytes. -/
  bytes : ∀ j < pgsize, k'.bytes (pa' + j) = k.bytes (pa + j)
  /-- A page with other references has a frame of its own. -/
  copied : 1 < k.refcnt pa → pa' ≠ pa ∧ k'.refcnt pa = k.refcnt pa - 1 ∧ k'.refcnt pa' = 1
  /-- A page without other references keeps its frame. -/
  inPlace : k.refcnt pa = 1 → pa' = pa ∧ k'.refcnt pa = 1
  /-- The other pages. -/
  others : ∀ other, pgsize ∣ other → other < maxva → other ≠ va →
    lookup k'.memory root other = lookup k.memory root other
  /-- The next store does not fault, if the page can be read. -/
  permits : flags &&& pteR ≠ 0 → Access.Permits .store flags'

theorem Repaged.others (repaged : Repaged k k' root tables va pa flags) (other : Nat)
    (other_page : pgsize ∣ other) (other_low : other < maxva) (differ : other ≠ va) :
    lookup k'.memory root other = lookup k.memory root other :=
  (repaged.map other other_page other_low).trans (if_neg differ)

/-- The flags of a mapped page that are always set. -/
theorem Sound.marked (sound : Sound k root tables)
    (present : lookup k.memory root va = some (pa, flags)) :
    flags.testBit 0 = true ∧ flags.testBit 6 = true := by
  obtain ⟨table, leads, valid, -, flags_eq⟩ := exists_leads present
  constructor
  · rw [flags_eq, pteFlags_bit _ (by decide)]
    exact valid_iff.mp valid
  · exact sound.table.used (route va 2) (px 0 va) pa flags (route_length va 2) present

/-- The copy of a page keeps the other flags if `PTE_D` was set. -/
theorem copyFlags_kept (sound : Sound k root tables)
    (present : lookup k.memory root va = some (pa, flags)) (dirty : flags.testBit 7 = true)
    {i : Nat} (inside : i < 64) (not_write : i ≠ 2) (not_cow : i ≠ 8) :
    (copyFlags flags).testBit i = flags.testBit i := by
  obtain ⟨valid, accessed⟩ := sound.marked present
  have set (n : Nat) (bit : (pteV ||| pteA ||| pteD).testBit n = true) :
      (copyFlags flags).testBit n = true := by
    rw [copyFlags, mappedFlags, Nat.or_assoc, Nat.or_assoc, ← Nat.or_assoc pteV,
      Nat.testBit_or, bit, Bool.or_true]
  rcases eq_or_ne i 0 with rfl | not_valid
  · rw [set 0 (by decide), valid]
  · rcases eq_or_ne i 6 with rfl | not_accessed
    · rw [set 6 (by decide), accessed]
    · rcases eq_or_ne i 7 with rfl | not_dirty
      · rw [set 7 (by decide), dirty]
      · rw [copyFlags_testBit inside ⟨not_valid, not_accessed, not_dirty⟩, decide_eq_true not_cow,
          decide_eq_false not_write.symm, Bool.and_true, Bool.or_false]

theorem copyFlags_dirty (flags : Nat) : (copyFlags flags).testBit 7 = true := by
  rw [copyFlags, mappedFlags, Nat.testBit_or, show pteD.testBit 7 = true by decide, Bool.or_true]

/-- The bytes of a page that was copied to another. -/
theorem copyRange_page {bytes : ByteBlock.Bytes} {mem j : Nat} (inside : j < pgsize) :
    ByteBlock.copyRange bytes mem bytes pa pgsize (mem + j) = bytes (pa + j) := by
  rw [ByteBlock.copyRange, if_pos (by omega), Nat.add_sub_cancel_left]

/-- An entry that is changed in place keeps `PTE_COW`. -/
theorem not_resolved_inPlace (cow : flags &&& pteCow ≠ 0) {pa' : Nat} :
    ¬Resolved k k' root va pa flags pa' (inPlaceFlags flags) := by
  intro resolved
  have bit := @inPlaceFlags_testBit flags 8 (by decide)
  rw [and_bit.mp cow] at bit
  exact absurd resolved.plain (and_bit.mpr bit)

/-- A copy resolves the fault. -/
theorem resolved_copied {mem : Nat} {rest : List Nat} {memory : Vm.Memory}
    (sound : Sound k root tables) (present : lookup k.memory root va = some (pa, flags))
    (va_page : pgsize ∣ va) (low : va < maxva) (user : flags &&& pteU ≠ 0)
    (dirty : flags.testBit 7 = true) (many : 1 < k.refcnt pa) (taken : k.pages = mem :: rest)
    (repaged : Repaged k { k with
      memory := memory
      pages := rest
      refcnt := Vm.kfree (Function.update k.refcnt mem 1) pa
      bytes := ByteBlock.copyRange k.bytes mem k.bytes pa pgsize } root tables va mem
        (copyFlags flags)) :
    Resolved k { k with
      memory := memory
      pages := rest
      refcnt := Vm.kfree (Function.update k.refcnt mem 1) pa
      bytes := ByteBlock.copyRange k.bytes mem k.bytes pa pgsize } root va pa flags mem
        (copyFlags flags) := by
  have differ : mem ≠ pa := by
    rintro rfl
    refine sound.fresh va mem flags va_page low present ?_
    rw [taken]
    exact List.mem_cons_self
  have before : Function.update k.refcnt mem 1 pa = k.refcnt pa :=
    Function.update_of_ne differ.symm _ _
  have counts : Vm.kfree (Function.update k.refcnt mem 1) pa =
      Function.update (Function.update k.refcnt mem 1) pa (k.refcnt pa - 1) := by
    rw [Vm.kfree, before, if_pos many]
  refine ⟨repaged.at_page va_page low, ?_, ?_, ?_, fun j inside => copyRange_page inside,
    fun _ => ?_, fun single => ?_, repaged.others, fun readable => (permits_copy user).mpr readable⟩
  · rw [pteW, and_bit, copyFlags_testBit (by decide) (by decide), decide_eq_true (rfl : 2 = 2),
      Bool.or_true]
  · by_contra set
    rw [← ne_eq, pteCow, and_bit, copyFlags_testBit (by decide) (by decide)] at set
    simp at set
  · intro i inside not_write not_cow
    exact copyFlags_kept sound present dirty inside not_write not_cow
  · refine ⟨differ, ?_, ?_⟩
    · exact (congrFun counts pa).trans (Function.update_self ..)
    · refine (congrFun counts mem).trans ?_
      rw [Function.update_of_ne differ, Function.update_self]
  · rw [single] at many
    exact absurd many (by decide)

/-- A store to a page that is marked to be copied resolves the fault exactly if the page is copied,
which takes other references and a free page, and if its entry has `PTE_D`. -/
theorem allocCowPage_resolves_iff (sound : Sound k root tables) {a : Nat} (low : a < maxva)
    (present : lookup k.memory root a = some (pa, flags)) (user : flags &&& pteU ≠ 0)
    (cow : flags &&& pteCow ≠ 0) (unwritable : flags &&& pteW = 0) (counted : k.refcnt pa ≠ 0) :
    (∃ k' pa' flags', allocCowPage k root a = .ok (0, k') ∧
      Resolved k k' root (pgrounddown a) pa flags pa' flags') ↔
      1 < k.refcnt pa ∧ k.pages ≠ [] ∧ flags.testBit 7 = true := by
  have fits : a < 2 ^ 64 := low.trans (by decide)
  have va_page := pgrounddown_page fits
  have va_low := pgrounddown_low low
  rw [← lookup_pgrounddown fits] at present
  have outcome := allocCowPage_cases sound low
  generalize allocCowPage k root a = result at outcome
  cases outcome with
  | pass plain =>
      rcases plain pa flags present with kernel | writable
      · exact absurd kernel user
      · exact absurd unwritable writable
  | readOnly _ _ found _ _ own =>
      cases present.symm.trans found
      exact absurd own cow
  | failed _ _ found _ _ _ uncounted =>
      cases present.symm.trans found
      exact absurd uncounted counted
  | exhausted _ _ found _ _ _ many none =>
      cases present.symm.trans found
      constructor
      · rintro ⟨k', pa', flags', impossible, -⟩
        cases impossible
      · rintro ⟨-, some_page, -⟩
        exact absurd none some_page
  | copied _ _ found _ _ _ many mem rest taken memory repaged =>
      cases present.symm.trans found
      constructor
      · rintro ⟨k', pa', flags', returns, resolved⟩
        cases returns
        refine ⟨many, ?_, ?_⟩
        · rw [taken]
          exact List.cons_ne_nil mem rest
        · cases (repaged.at_page va_page va_low).symm.trans resolved.mapped
          rw [← resolved.kept 7 (by decide) (by decide) (by decide), copyFlags_dirty]
      · rintro ⟨-, -, dirty⟩
        exact ⟨_, mem, _, rfl, resolved_copied sound present va_page va_low user dirty many taken
          repaged⟩
  | inPlace _ _ found _ _ _ single memory repaged =>
      cases present.symm.trans found
      constructor
      · rintro ⟨k', pa', flags', returns, resolved⟩
        cases returns
        cases (repaged.at_page va_page va_low).symm.trans resolved.mapped
        exact absurd resolved (not_resolved_inPlace cow)
      · rintro ⟨many, -⟩
        rw [single] at many
        exact absurd many (by decide)

/-- `perm` of a page of the user that `uvmcopy` has marked. -/
def cowPerm : Nat := theadNormal ||| pteU ||| pteR ||| pteCow

/-- A kernel with an empty page table and three pages. -/
def threePages : Kernel :=
  blank [0x80001000, 0x80002000, 0x80003000] Fs.Volume.fresh ⟨.none, none, 0, false, false⟩

theorem threePages_sound : Sound threePages 0x80000000 [0x80000000] ∧
    ∀ va, lookup threePages.memory 0x80000000 va = none :=
  blank_sound (by decide)

/-- A process with one page. -/
theorem exists_page (is_perm : IsFlags perm) (count : UInt32)
    (left_eq : (threePages.mappages 0x80000000 0 pgsize 0x80005000 perm).toOption.any
      (fun k => decide (k.pages = [0x80003000])) = true) :
    ∃ k tables, Sound k 0x80000000 tables ∧
    (∀ va, pgsize ∣ va → va < maxva → lookup k.memory 0x80000000 va =
      if va = 0 then some (0x80005000, mappedFlags perm) else none) ∧
    k.refcnt 0x80005000 = count ∧ k.pages = [0x80003000] := by
  obtain ⟨sound, nothing⟩ := threePages_sound
  obtain ⟨k, run, test⟩ := Except.exists_of_any left_eq
  obtain ⟨tables, sound', -, maps⟩ := map_frame sound (by decide : pgsize ∣ 0) (by decide)
    ⟨by decide, by decide⟩ is_perm (by decide) run
  refine ⟨{ k with refcnt := fun _ => count }, tables, sound'.congr rfl rfl, ?_, rfl,
    of_decide_eq_true test⟩
  intro va va_page low
  rw [maps va va_page low, nothing]

/-- A process with a page that is marked to be copied. -/
theorem exists_cowPage (count : UInt32) : ∃ k tables, Sound k 0x80000000 tables ∧
    lookup k.memory 0x80000000 0 = some (0x80005000, mappedFlags cowPerm) ∧
    k.refcnt 0x80005000 = count ∧ k.pages = [0x80003000] := by
  obtain ⟨k, tables, sound, mapped, counts⟩ := @exists_page cowPerm (by decide) count
    (by decide +kernel)
  exact ⟨k, tables, sound, (mapped 0 (by decide) (by decide)).trans (if_pos rfl), counts⟩

theorem allocCowPage_resolves_shared : ∃ k tables, Sound k 0x80000000 tables ∧
    lookup k.memory 0x80000000 0 = some (0x80005000, mappedFlags cowPerm) ∧
    ∃ k' pa' flags', allocCowPage k 0x80000000 0 = .ok (0, k') ∧
      Resolved k k' 0x80000000 (pgrounddown 0) 0x80005000 (mappedFlags cowPerm) pa' flags' := by
  obtain ⟨k, tables, sound, present, count, pages⟩ := exists_cowPage 2
  refine ⟨k, tables, sound, present,
    (allocCowPage_resolves_iff sound (by decide) present (by decide)
    (by decide) (by decide) ?_).mpr ⟨?_, ?_, by decide⟩⟩
  · rw [count]
    decide
  · rw [count]
    decide
  · rw [pages]
    decide

/-- A page with one reference stays marked, and its `PTE_C` is cleared. -/
theorem allocCowPage_keeps_mark : ∃ k tables, Sound k 0x80000000 tables ∧
    lookup k.memory 0x80000000 0 = some (0x80005000, mappedFlags cowPerm) ∧
    k.refcnt 0x80005000 = 1 ∧
    (∃ k' flags', allocCowPage k 0x80000000 0 = .ok (0, k') ∧
      lookup k'.memory 0x80000000 0 = some (0x80005000, flags') ∧ flags' &&& pteCow ≠ 0 ∧
      flags' &&& pteC = 0 ∧ mappedFlags cowPerm &&& pteC ≠ 0) ∧
    ¬∃ k' pa' flags', allocCowPage k 0x80000000 0 = .ok (0, k') ∧
      Resolved k k' 0x80000000 (pgrounddown 0) 0x80005000 (mappedFlags cowPerm) pa' flags' := by
  obtain ⟨k, tables, sound, present, count, pages⟩ := exists_cowPage 1
  have outcome := allocCowPage_cases sound (show 0 < maxva by decide)
  have start : pgrounddown 0 = 0 := by decide
  rw [start] at outcome ⊢
  refine ⟨k, tables, sound, present, count, ?_⟩
  generalize allocCowPage k 0x80000000 0 = result at outcome
  cases outcome with
  | pass plain => exact absurd (plain _ _ present) (by decide)
  | readOnly _ _ found _ _ own =>
      cases present.symm.trans found
      exact absurd own (by decide)
  | failed _ _ found _ _ _ uncounted =>
      cases present.symm.trans found
      rw [count] at uncounted
      exact absurd uncounted (by decide)
  | exhausted _ _ found _ _ _ many =>
      cases present.symm.trans found
      rw [count] at many
      exact absurd many (by decide)
  | copied _ _ found _ _ _ many =>
      cases present.symm.trans found
      rw [count] at many
      exact absurd many (by decide)
  | inPlace _ _ found _ _ _ single memory repaged =>
      cases present.symm.trans found
      have after := repaged.at_page (by decide) (by decide)
      refine ⟨⟨_, _, rfl, after, by decide, by decide, by decide⟩, ?_⟩
      rintro ⟨k', pa', flags', returns, resolved⟩
      cases returns
      cases after.symm.trans resolved.mapped
      exact not_resolved_inPlace (by decide) resolved

end Mapping
end Xv6Duo
