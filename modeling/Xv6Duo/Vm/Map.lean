import Mathlib.Tactic
import Xv6Duo.Vm.Tree

/-!
# The map of a page table

`mappages` and `uvmunmap` go through the pages of a range. Each page is one store to a table at full
depth, which changes the map at that page alone.
-/

namespace Xv6Duo
namespace Vm

open RadixTree

/-- A page table with entries that `mappages` made: the tree, and the mark of use in its leaves. -/
structure Sound (memory : Memory) (root : Nat) (tables : List Nat) : Prop where
  /-- The tables form a tree. -/
  tree : Tree memory root tables
  /-- The entries were marked as used. -/
  used : ∀ path i pa flags, path.length = 2 → leafAt memory root path i = some (pa, flags) →
    flags.testBit 6 = true

/-- The page `page` is mapped in a page table. -/
def IsMapped (memory : Memory) (root page : Nat) : Prop :=
  ∃ va flags, pgsize ∣ va ∧ va < maxva ∧ lookup memory root va = some (page, flags)

variable {memory after : Memory} {root va table : Nat} {tables tables' pages : List Nat}

theorem lookup_eq : lookup memory root va =
    (tableAt child memory root (route va 2)).bind fun t => decode (memory t (px 0 va)) := by
  rw [lookup, leafAt, entryAt]
  cases tableAt child memory root (route va 2) with
  | none => rfl
  | some t => rfl

theorem Extends.lookup_eq (extended : Extends memory after root tables tables') :
    lookup after root va = lookup memory root va :=
  extended.leaves _ _ (route_length va 2)

theorem Sound.extends (sound : Sound memory root tables)
    (extended : Extends memory after root tables tables') : Sound after root tables' := by
  refine ⟨extended.tree, ?_⟩
  intro path i pa flags full mapped
  rw [extended.leaves path i full] at mapped
  exact sound.used path i pa flags full mapped

theorem decode_of_valid {pte : Nat} (valid : pte &&& pteV ≠ 0) :
    decode pte = some (pte2pa pte, pteFlags pte) := if_pos valid

theorem decode_of_invalid {pte : Nat} (invalid : pte &&& pteV = 0) : decode pte = none :=
  if_neg (not_not.mpr invalid)

/-- The flags of an entry that was marked as used are marked. -/
theorem pteFlags_testBit {pte : Nat} : (pteFlags pte).testBit 6 = pte.testBit 6 := by
  have bit : flagMask.testBit 6 = true := by decide
  rw [pteFlags, Nat.testBit_and, bit, Bool.and_true]

/-! ## A store to an entry -/

/-- The table of an address. -/
def Leads (memory : Memory) (root va table : Nat) : Prop :=
  tableAt child memory root (route va 2) = some table

theorem Tree.write (tree : Tree memory root tables) (reached : Leads memory root va table)
    (entry : Nat) : Tree (write memory table (px 0 va) entry) root tables := by
  refine ⟨tree.unaliased.write_leaf entry reached (route_length va 2), ?_⟩
  intro path other short other_reached
  rw [tableAt_write_leaf entry tree.unaliased reached (route_length va 2) short] at other_reached
  exact tree.tables path other short other_reached

theorem Tree.leafAt_write (tree : Tree memory root tables) (reached : Leads memory root va table)
    (entry : Nat) {path : List (Fin 512)} {i : Fin 512} (full : path.length = 2) :
    leafAt (RadixTree.write memory table (px 0 va) entry) root path i =
      if path = route va 2 ∧ i = px 0 va then decode entry else leafAt memory root path i := by
  rw [leafAt, leafAt, entryAt_write_leaf entry tree.unaliased reached (route_length va 2) full.le]
  split
  · rfl
  · rfl

/-- A store changes the map at one page. -/
theorem Tree.lookup_write (tree : Tree memory root tables) (reached : Leads memory root va table)
    (entry : Nat) {other : Nat} (va_page : pgsize ∣ va) (va_low : va < maxva)
    (other_page : pgsize ∣ other) (other_low : other < maxva) :
    lookup (RadixTree.write memory table (px 0 va) entry) root other =
      if other = va then decode entry else lookup memory root other := by
  rw [lookup, tree.leafAt_write reached entry (route_length other 2), lookup]
  by_cases same : other = va
  · rw [if_pos same, if_pos ⟨by rw [same], by rw [same]⟩]
  · rw [if_neg same, if_neg]
    rintro ⟨same_route, same_px⟩
    simp only [route, List.cons.injEq, and_true] at same_route
    exact same (eq_of_px other_page va_page other_low va_low same_route.1 same_route.2 same_px)

/-- Only an invalid entry or one that is marked as used may be stored. -/
theorem Sound.write (sound : Sound memory root tables) (reached : Leads memory root va table)
    {entry : Nat} (marked : entry &&& pteV = 0 ∨ entry.testBit 6 = true) :
    Sound (RadixTree.write memory table (px 0 va) entry) root tables := by
  refine ⟨sound.tree.write reached entry, ?_⟩
  intro path i pa flags full mapped
  rw [sound.tree.leafAt_write reached entry full] at mapped
  split at mapped
  · rcases marked with invalid | used
    · rw [decode_of_invalid invalid] at mapped
      cases mapped
    · by_cases valid : entry &&& pteV ≠ 0
      · rw [decode_of_valid valid] at mapped
        cases mapped
        rw [pteFlags_testBit]
        exact used
      · rw [decode_of_invalid (not_not.mp valid)] at mapped
        cases mapped
  · exact sound.used path i pa flags full mapped

/-! ## `walk` -/

/-- `walk` without `alloc` changes nothing and finds the entry of the map. -/
theorem walk_find (va_low : va < maxva) :
    walk memory root va false pages =
      .ok ((tableAt child memory root (route va 2)).map fun t => (t, px 0 va), memory, pages) := by
  rw [walk, if_neg (by omega), walkLevels_find]

/-- A call that takes tables from `kalloc` keeps the page table, and writes no other page. -/
def Kept (memory after : Memory) (root : Nat) (tables pages left : List Nat) : Prop :=
  ∃ used, pages = used ++ left ∧ Sound after root (used.reverse ++ tables) ∧
    Supplied (used.reverse ++ tables) left ∧
    ∀ page, page ∉ used.reverse ++ tables → after page = memory page

theorem Kept.refl (sound : Sound memory root tables) (supplied : Supplied tables pages) :
    Kept memory memory root tables pages pages :=
  ⟨[], rfl, sound, supplied, fun _ _ => rfl⟩

theorem Kept.trans {middle : Memory} {used rest left : List Nat} (split : pages = used ++ rest)
    (frame : ∀ page, page ∉ used.reverse ++ tables → middle page = memory page)
    (second : Kept middle after root (used.reverse ++ tables) rest left) :
    Kept memory after root tables pages left := by
  obtain ⟨more, split', sound, supplied, frame'⟩ := second
  have order : (used ++ more).reverse ++ tables = more.reverse ++ (used.reverse ++ tables) := by
    rw [List.reverse_append, List.append_assoc]
  refine ⟨used ++ more, by rw [split, split', List.append_assoc], ?_, ?_, ?_⟩
  · rw [order]
    exact sound
  · rw [order]
    exact supplied
  · intro page fresh
    rw [order] at fresh
    have old : page ∉ used.reverse ++ tables := fun member =>
      fresh (List.mem_append_right _ member)
    rw [frame' page fresh, frame page old]

/-- A store to an entry of the page table writes no page outside of it. -/
theorem Tree.write_frame (tree : Tree memory root tables) (leads : Leads memory root va table)
    (entry : Nat) {page : Nat} (fresh : page ∉ tables) :
    RadixTree.write memory table (px 0 va) entry page = memory page := by
  rw [RadixTree.write, Function.update_of_ne]
  rintro rfl
  exact fresh (tree.tables _ _ (route_length va 2).le leads)

/-- `walk` with `alloc` comes to the table of an address, or `kalloc` fails. -/
theorem Tree.walk_alloc (tree : Tree memory root tables) (supplied : Supplied tables pages)
    (va_low : va < maxva) :
    ∃ result after used left, walk memory root va true pages = .ok (result, after, left) ∧
      pages = used ++ left ∧ Extends memory after root tables (used.reverse ++ tables) ∧
      Supplied (used.reverse ++ tables) left ∧
      (result = none ∨ ∃ t, result = some (t, px 0 va) ∧ Leads after root va t) := by
  have at_root : tableAt child memory root [] = some root := rfl
  obtain ⟨result, after, used, left, returns, split, extended, supplied', found⟩ :=
    walkLevels_alloc tree at_root (rfl : ([] : List (Fin 512)).length + 2 = 2) supplied
  exact ⟨result, after, used, left, by rw [walk, if_neg (by omega), returns], split, extended,
    supplied', found⟩

/-! ## `mappages` -/

/-- The entry that `mappages` stores. -/
def mapEntry (pa perm : Nat) : Nat := pa2pte pa ||| perm ||| pteV ||| pteA ||| pteD

theorem mapEntry_valid (pa perm : Nat) : mapEntry pa perm &&& pteV ≠ 0 :=
  valid_iff.mpr (entry_testBit pa perm).1

theorem mapEntry_used (pa perm : Nat) : (mapEntry pa perm).testBit 6 = true :=
  (entry_testBit pa perm).2

theorem decode_mapEntry {pa perm : Nat} (is_frame : IsFrame pa) (is_perm : IsFlags perm) :
    decode (mapEntry pa perm) = some (pa, perm ||| pteV ||| pteA ||| pteD) := by
  rw [decode_of_valid (mapEntry_valid pa perm), mapEntry, entry_eq,
    pte2pa_or is_frame is_perm.mapped, pteFlags_or is_frame is_perm.mapped]

/-- Each round of `mappages` keeps the page table. -/
theorem mapLoop_kept {perm last fuel a pa : Nat} {code : Int} {left : List Nat}
    (sound : Sound memory root tables) (supplied : Supplied tables pages)
    (returns : mapLoop root perm last fuel memory a pa pages = .ok (code, after, left)) :
    Kept memory after root tables pages left := by
  induction fuel generalizing memory tables pages a pa with
  | zero => cases returns
  | succ fuel ih =>
      rw [mapLoop] at returns
      obtain ⟨walked, walk_eq, returns⟩ := Except.bind_eq_ok.mp returns
      have low : a < maxva := by
        rw [walk] at walk_eq
        by_contra high
        rw [if_pos (by omega)] at walk_eq
        cases walk_eq
      obtain ⟨result, middle, used, rest, found_eq, split, extended, supplied', found⟩ :=
        sound.tree.walk_alloc supplied low
      rw [found_eq] at walk_eq
      cases walk_eq
      have sound' := sound.extends extended
      rcases found with rfl | ⟨t, rfl, leads⟩
      · cases returns
        exact ⟨used, split, sound', supplied', extended.frame⟩
      · dsimp only at returns
        split at returns
        · cases returns
        · have stored := sound'.write leads (Or.inr (mapEntry_used pa perm))
          have stored_frame : ∀ page, page ∉ used.reverse ++ tables →
              RadixTree.write middle t (px 0 a) (mapEntry pa perm) page = memory page := by
            intro page fresh
            rw [sound'.tree.write_frame leads _ fresh, extended.frame page fresh]
          split at returns
          · cases returns
            exact ⟨used, split, stored, supplied', stored_frame⟩
          · exact Kept.trans split stored_frame (ih stored supplied' returns)

theorem lookup_of_leads (leads : Leads memory root va table) :
    lookup memory root va = decode (memory table (px 0 va)) := by
  rw [lookup_eq, leads, Option.bind_some]

/-- The page table after one page was mapped. -/
structure Mapped (memory after : Memory) (root a entry : Nat) (tables pages left : List Nat) : Prop
    where
  /-- The tables that were taken from `kalloc`. -/
  taken : ∃ used, pages = used ++ left ∧ Tree after root (used.reverse ++ tables) ∧
    Supplied (used.reverse ++ tables) left ∧
    ∀ page, page ∉ used.reverse ++ tables → after page = memory page
  /-- The page was not mapped. -/
  unmapped : lookup memory root a = none
  /-- The map. -/
  map : ∀ va, pgsize ∣ va → va < maxva → lookup after root va =
    if va = a then decode entry else lookup memory root va

/-- One round of `mappages` maps one page, or fails: `kalloc` fails, or the page is mapped. -/
theorem mapLoop_round (perm fuel pa last : Nat) {a : Nat} (tree : Tree memory root tables)
    (supplied : Supplied tables pages) (a_page : pgsize ∣ a) (low : a < maxva) :
    (∃ after left, mapLoop root perm last (fuel + 1) memory a pa pages = .ok (-1, after, left)) ∨
    (lookup memory root a ≠ none ∧
      mapLoop root perm last (fuel + 1) memory a pa pages = .error .mappagesRemap) ∨
    ∃ (middle : Memory) (rest : List Nat),
      Mapped memory middle root a (mapEntry pa perm) tables pages rest ∧
      mapLoop root perm last (fuel + 1) memory a pa pages =
        if a = last then .ok (0, middle, rest)
        else mapLoop root perm last fuel middle ((a + pgsize) % 2 ^ 64) ((pa + pgsize) % 2 ^ 64)
          rest := by
  obtain ⟨result, middle, used, rest, walk_eq, split, extended, supplied', found⟩ :=
    tree.walk_alloc supplied low
  rw [mapLoop, walk_eq, Except.ok_bind]
  rcases found with rfl | ⟨t, rfl, leads⟩
  · exact Or.inl ⟨middle, rest, rfl⟩
  · have at_a := lookup_of_leads leads
    rw [extended.lookup_eq] at at_a
    dsimp only
    by_cases valid : middle t (px 0 a) &&& pteV ≠ 0
    · rw [if_pos valid]
      rw [decode_of_valid valid] at at_a
      refine Or.inr (Or.inl ⟨?_, rfl⟩)
      rw [at_a]
      exact Option.some_ne_none _
    · rw [if_neg valid]
      rw [decode_of_invalid (not_not.mp valid)] at at_a
      refine Or.inr (Or.inr ⟨_, rest, ⟨⟨used, split, extended.tree.write leads _, supplied', ?_⟩,
        at_a, ?_⟩, rfl⟩)
      · intro page fresh
        rw [extended.tree.write_frame leads _ fresh, extended.frame page fresh]
      · intro va va_page va_low
        rw [extended.tree.lookup_write leads _ a_page low va_page va_low, extended.lookup_eq]
        rfl

/-- The rounds of `mappages` from `a` over `count` further pages. -/
theorem mapLoop_spec {perm fuel a pa count : Nat} (tree : Tree memory root tables)
    (supplied : Supplied tables pages) (a_page : pgsize ∣ a) (low : a + count * pgsize < maxva)
    (pa_low : pa + count * pgsize < 2 ^ 64)
    (unmapped : ∀ va, pgsize ∣ va → a ≤ va → va ≤ a + count * pgsize →
      lookup memory root va = none) (enough : count < fuel) :
    ∃ code after left,
      mapLoop root perm (a + count * pgsize) fuel memory a pa pages = .ok (code, after, left) ∧
      (code = 0 ∨ code = -1) ∧
      (code = 0 → ∀ va, pgsize ∣ va → va < maxva → lookup after root va =
        if a ≤ va ∧ va ≤ a + count * pgsize then decode (mapEntry (pa + (va - a)) perm)
        else lookup memory root va) := by
  induction count generalizing memory tables pages a pa fuel with
  | zero =>
      obtain ⟨fuel, rfl⟩ : ∃ rest, fuel = rest + 1 := ⟨fuel - 1, by omega⟩
      have first_unmapped := unmapped a a_page (Nat.le_refl a) (Nat.le_add_right ..)
      rcases mapLoop_round perm fuel pa (a + 0 * pgsize) tree supplied a_page (by omega) with
        ⟨after, left, returns⟩ | ⟨mapped, _⟩ | ⟨middle, rest, ⟨_, _, map⟩, returns⟩
      · exact ⟨-1, after, left, returns, Or.inr rfl, fun failed => absurd failed (by decide)⟩
      · exact absurd first_unmapped mapped
      · rw [if_pos (by omega)] at returns
        refine ⟨0, middle, rest, returns, Or.inl rfl, ?_⟩
        intro _ va va_page va_low
        rw [map va va_page va_low]
        by_cases same : va = a
        · rw [if_pos same, if_pos (by omega), same, Nat.sub_self, Nat.add_zero]
        · rw [if_neg same, if_neg (by omega)]
  | succ count ih =>
      obtain ⟨fuel, rfl⟩ : ∃ rest, fuel = rest + 1 := ⟨fuel - 1, by omega⟩
      have first_unmapped := unmapped a a_page (Nat.le_refl a) (Nat.le_add_right ..)
      have bound : maxva < 2 ^ 64 := by decide
      have page_positive : 0 < pgsize := by decide
      have next : a + (count + 1) * pgsize = a + pgsize + count * pgsize := by
        rw [Nat.succ_mul]
        omega
      have pa_next : pa + (count + 1) * pgsize = pa + pgsize + count * pgsize := by
        rw [Nat.succ_mul]
        omega
      have next_page : pgsize ∣ a + pgsize := a_page.add (Nat.dvd_refl pgsize)
      rw [next] at low unmapped ⊢
      rw [pa_next] at pa_low
      rcases mapLoop_round perm fuel pa (a + pgsize + count * pgsize) tree supplied a_page
        (by omega) with ⟨after, left, returns⟩ | ⟨mapped, _⟩ |
          ⟨middle, rest, ⟨⟨used, split, tree', supplied', _⟩, _, map⟩, returns⟩
      · exact ⟨-1, after, left, returns, Or.inr rfl, fun failed => absurd failed (by decide)⟩
      · exact absurd first_unmapped mapped
      · rw [if_neg (by omega), Nat.mod_eq_of_lt (by omega : a + pgsize < 2 ^ 64),
          Nat.mod_eq_of_lt (by omega : pa + pgsize < 2 ^ 64)] at returns
        have later_unmapped : ∀ va, pgsize ∣ va → a + pgsize ≤ va →
            va ≤ a + pgsize + count * pgsize → lookup middle root va = none := by
          intro va va_page from_next to_last
          rw [map va va_page (by omega), if_neg (by omega)]
          exact unmapped va va_page (by omega) (by omega)
        obtain ⟨code, after, left, continues, codes, maps⟩ :=
          ih tree' supplied' next_page low pa_low later_unmapped (by omega : count < fuel)
        refine ⟨code, after, left, returns.trans continues, codes, ?_⟩
        intro succeeded va va_page va_low
        rw [maps succeeded va va_page va_low, map va va_page va_low]
        by_cases same : va = a
        · rw [if_neg (by omega), if_pos same, if_pos (by omega), same, Nat.sub_self, Nat.add_zero]
        · rw [if_neg same]
          by_cases later : a + pgsize ≤ va ∧ va ≤ a + pgsize + count * pgsize
          · have shift : pa + pgsize + (va - (a + pgsize)) = pa + (va - a) := by omega
            rw [if_pos later, if_pos (by omega), shift]
          · have before : ¬ (a ≤ va ∧ va ≤ a + pgsize + count * pgsize) := by
              rintro ⟨from_a, to_last⟩
              -- Between `a` and the next page there is no page.
              obtain ⟨k, rfl⟩ := va_page
              obtain ⟨l, rfl⟩ := a_page
              rw [pgsize] at *
              omega
            rw [if_neg later, if_neg before]

/-- `mappages` below `MAXVA` on pages that are not mapped. -/
theorem Tree.mappages {size pa perm : Nat} (tree : Tree memory root tables)
    (supplied : Supplied tables pages) (some_size : 0 < size) (below : va + size ≤ maxva)
    (is_page : pgsize ∣ pa)
    (pa_below : pa + (pgrounddown (va + size - 1) - pgrounddown va) < 2 ^ 56)
    (is_perm : IsFlags perm)
    (unmapped : ∀ a, pgsize ∣ a → pgrounddown va ≤ a → a ≤ pgrounddown (va + size - 1) →
      lookup memory root a = none) :
    ∃ code after left, mappages memory root va size pa perm pages = .ok (code, after, left) ∧
      (code = 0 ∨ code = -1) ∧
      (code = 0 → ∀ a, pgsize ∣ a → a < maxva → lookup after root a =
        if pgrounddown va ≤ a ∧ a ≤ pgrounddown (va + size - 1) then
          some (pa + (a - pgrounddown va), perm ||| pteV ||| pteA ||| pteD)
        else lookup memory root a) := by
  have bound : maxva = 2 ^ 38 := by decide
  have no_wrap : (va + size - 1) % 2 ^ 64 = va + size - 1 := Nat.mod_eq_of_lt (by omega)
  obtain ⟨count, last_eq, few⟩ : ∃ count,
      pgrounddown (va + size - 1) = pgrounddown va + count * pgsize ∧ count < manyPages := by
    rw [pgrounddown_eq (by omega), pgrounddown_eq (by omega)]
    refine ⟨(va + size - 1) / pgsize - va / pgsize, ?_, ?_⟩
    · have le : va / pgsize ≤ (va + size - 1) / pgsize := Nat.div_le_div_right (by omega)
      rw [← Nat.add_mul, Nat.add_sub_cancel' le]
    · rw [manyPages, pgsize]
      omega
  have first_page : pgsize ∣ pgrounddown va := by
    rw [pgrounddown_eq (by omega)]
    exact Nat.dvd_mul_left ..
  have last_low : pgrounddown va + count * pgsize < maxva := by
    rw [← last_eq, pgrounddown_eq (by omega)]
    exact (Nat.div_mul_le_self ..).trans_lt (by omega)
  rw [last_eq] at pa_below unmapped ⊢
  obtain ⟨code, after, left, returns, codes, maps⟩ :=
    mapLoop_spec tree supplied first_page last_low (by omega : pa + count * pgsize < 2 ^ 64)
      unmapped few
  refine ⟨code, after, left, ?_, codes, ?_⟩
  · rw [Vm.mappages, if_neg some_size.ne', no_wrap, last_eq]
    exact returns
  · intro succeeded a a_page a_low
    rw [maps succeeded a a_page a_low]
    split
    · next inside =>
        refine decode_mapEntry ⟨?_, by omega⟩ is_perm
        exact is_page.add (Nat.dvd_sub a_page first_page)
    · rfl

/-! ## `uvmunmap` -/

/-- Each round of `uvmunmap` keeps the page table. -/
theorem unmapLoop_kept {doFree : Bool} {finish fuel a : Nat} {freed freed' : List Nat}
    (sound : Sound memory root tables)
    (returns : unmapLoop root doFree finish fuel memory a freed = .ok (after, freed')) :
    Sound after root tables ∧ ∀ page, page ∉ tables → after page = memory page := by
  induction fuel generalizing memory a freed with
  | zero => cases returns
  | succ fuel ih =>
      rw [unmapLoop] at returns
      split at returns
      · obtain ⟨walked, walk_eq, returns⟩ := Except.bind_eq_ok.mp returns
        have low : a < maxva := by
          rw [walk] at walk_eq
          by_contra high
          rw [if_pos (by omega)] at walk_eq
          cases walk_eq
        rw [walk_find low] at walk_eq
        cases walk_eq
        cases leads : tableAt child memory root (route a 2) with
        | none =>
            rw [leads] at returns
            exact ih sound returns
        | some t =>
            rw [leads] at returns
            dsimp only [Option.map_some] at returns
            split at returns
            · exact ih sound returns
            · split at returns
              · cases returns
              · obtain ⟨sound', frame⟩ := ih (sound.write leads (Or.inl (by decide))) returns
                refine ⟨sound', ?_⟩
                intro page fresh
                rw [frame page fresh, sound.tree.write_frame leads 0 fresh]
      · cases returns
        exact ⟨sound, fun _ _ => rfl⟩

/-- One round of `uvmunmap` takes one page out of the map. -/
theorem unmapLoop_round (doFree : Bool) (fuel : Nat) (freed : List Nat) {a finish : Nat}
    (sound : Sound memory root tables) (a_page : pgsize ∣ a) (low : a < maxva)
    (inside : a < finish) :
    ∃ middle, Sound middle root tables ∧
      (∀ va, pgsize ∣ va → va < maxva → lookup middle root va =
        if va = a then none else lookup memory root va) ∧
      unmapLoop root doFree finish (fuel + 1) memory a freed =
        unmapLoop root doFree finish fuel middle ((a + pgsize) % 2 ^ 64)
          (freed ++ if doFree then ((lookup memory root a).map Prod.fst).toList else []) := by
  rw [unmapLoop, if_pos inside, walk_find low, Except.ok_bind]
  cases leads : tableAt child memory root (route a 2) with
  | none =>
      have unmapped : lookup memory root a = none := by
        rw [lookup_eq, leads, Option.bind_none]
      refine ⟨memory, sound, ?_, ?_⟩
      · intro va _ _
        split
        · next same => rw [same, unmapped]
        · rfl
      · simp only [unmapped, Option.map_none, Option.toList_none, ite_self, List.append_nil]
  | some t =>
      have at_a := lookup_of_leads leads
      dsimp only [Option.map_some]
      by_cases invalid : memory t (px 0 a) &&& pteV = 0
      · have unmapped : lookup memory root a = none := by
          rw [at_a, decode_of_invalid invalid]
        rw [if_pos invalid]
        refine ⟨memory, sound, ?_, ?_⟩
        · intro va _ _
          split
          · next same => rw [same, unmapped]
          · rfl
        · simp only [unmapped, Option.map_none, Option.toList_none, ite_self, List.append_nil]
      · have mapped : lookup memory root a =
            some (pte2pa (memory t (px 0 a)), pteFlags (memory t (px 0 a))) := by
          rw [at_a, decode_of_valid invalid]
        have used := sound.used (route a 2) (px 0 a) _ _ (route_length a 2) mapped
        rw [pteFlags_testBit] at used
        rw [if_neg invalid, if_neg (flags_ne_of_testBit used)]
        refine ⟨_, sound.write leads (Or.inl (by decide : 0 &&& pteV = 0)), ?_, ?_⟩
        · intro va va_page va_low
          rw [sound.tree.lookup_write leads 0 a_page low va_page va_low, decode_zero]
        · rw [mapped]
          cases doFree with
          | false => rw [if_neg Bool.false_ne_true, if_neg Bool.false_ne_true, List.append_nil]
          | true => rw [if_pos rfl, if_pos rfl, Option.map_some, Option.toList_some]

/-- The pages from an address on. -/
def pagesFrom (a : Nat) : Nat → List Nat
  | 0 => []
  | count + 1 => a :: pagesFrom (a + pgsize) count

theorem mem_pagesFrom {a count va : Nat} (a_page : pgsize ∣ a) (member : va ∈ pagesFrom a count) :
    pgsize ∣ va ∧ a ≤ va ∧ va < a + count * pgsize := by
  induction count generalizing a with
  | zero => cases member
  | succ count ih =>
      have page_positive : 0 < pgsize := by decide
      rw [Nat.succ_mul]
      rcases List.mem_cons.mp member with rfl | later
      · exact ⟨a_page, Nat.le_refl _, by omega⟩
      · obtain ⟨va_page, low, high⟩ := ih (a_page.add (Nat.dvd_refl pgsize)) later
        exact ⟨va_page, by omega, by omega⟩

/-- The physical pages of the mapped pages among some. -/
def mappedPages (memory : Memory) (root : Nat) (vas : List Nat) : List Nat :=
  vas.filterMap fun va => (lookup memory root va).map Prod.fst

/-- The pages that `uvmunmap` frees over `count` pages. -/
def freedPages (memory : Memory) (root a count : Nat) (doFree : Bool) : List Nat :=
  if doFree then mappedPages memory root (pagesFrom a count) else []

theorem freedPages_succ {middle : Memory} {a count : Nat} (doFree : Bool) (a_page : pgsize ∣ a)
    (below : a + pgsize + count * pgsize ≤ maxva)
    (map : ∀ va, pgsize ∣ va → va < maxva → lookup middle root va =
      if va = a then none else lookup memory root va) :
    freedPages memory root a (count + 1) doFree =
      (if doFree then ((lookup memory root a).map Prod.fst).toList else []) ++
        freedPages middle root (a + pgsize) count doFree := by
  cases doFree with
  | false => rfl
  | true =>
      have same : mappedPages middle root (pagesFrom (a + pgsize) count) =
          mappedPages memory root (pagesFrom (a + pgsize) count) := by
        apply List.filterMap_congr
        intro va member
        obtain ⟨va_page, from_next, to_end⟩ :=
          mem_pagesFrom (a_page.add (Nat.dvd_refl pgsize)) member
        have page_positive : 0 < pgsize := by decide
        rw [map va va_page (by omega), if_neg (by omega)]
      simp only [freedPages, if_true, same]
      rw [pagesFrom, mappedPages, List.filterMap_cons]
      cases lookup memory root a with
      | none => rfl
      | some mapped => rfl

/-- The rounds of `uvmunmap` over `count` pages. -/
theorem unmapLoop_spec (doFree : Bool) {fuel a count : Nat} (freed : List Nat)
    (sound : Sound memory root tables) (a_page : pgsize ∣ a) (below : a + count * pgsize ≤ maxva)
    (enough : count < fuel) :
    ∃ after,
      unmapLoop root doFree (a + count * pgsize) fuel memory a freed =
        .ok (after, freed ++ freedPages memory root a count doFree) ∧
      ∀ va, pgsize ∣ va → va < maxva → lookup after root va =
        if a ≤ va ∧ va < a + count * pgsize then none else lookup memory root va := by
  induction count generalizing memory a fuel freed with
  | zero =>
      obtain ⟨fuel, rfl⟩ : ∃ rest, fuel = rest + 1 := ⟨fuel - 1, by omega⟩
      refine ⟨memory, ?_, ?_⟩
      · rw [unmapLoop, if_neg (by omega), freedPages, pagesFrom, mappedPages, List.filterMap_nil,
          ite_self, List.append_nil]
      · intro va _ _
        rw [if_neg (by omega)]
  | succ count ih =>
      obtain ⟨fuel, rfl⟩ : ∃ rest, fuel = rest + 1 := ⟨fuel - 1, by omega⟩
      have bound : maxva < 2 ^ 64 := by decide
      have page_positive : 0 < pgsize := by decide
      have next : a + (count + 1) * pgsize = a + pgsize + count * pgsize := by
        rw [Nat.succ_mul]
        omega
      rw [next] at below ⊢
      obtain ⟨middle, sound', map, returns⟩ := unmapLoop_round doFree fuel freed sound a_page
        (by omega) (by omega : a < a + pgsize + count * pgsize)
      rw [Nat.mod_eq_of_lt (by omega : a + pgsize < 2 ^ 64)] at returns
      obtain ⟨after, continues, maps⟩ := ih _ sound' (a_page.add (Nat.dvd_refl pgsize)) below
        (by omega : count < fuel)
      refine ⟨after, ?_, ?_⟩
      · rw [returns, continues, freedPages_succ doFree a_page below map, List.append_assoc]
      · intro va va_page va_low
        rw [maps va va_page va_low, map va va_page va_low]
        by_cases same : va = a
        · rw [if_neg (by omega), if_pos same, if_pos (by omega)]
        · rw [if_neg same]
          by_cases later : a + pgsize ≤ va ∧ va < a + pgsize + count * pgsize
          · rw [if_pos later, if_pos (by omega)]
          · have before : ¬ (a ≤ va ∧ va < a + pgsize + count * pgsize) := by
              rintro ⟨from_a, to_end⟩
              obtain ⟨k, rfl⟩ := va_page
              obtain ⟨l, rfl⟩ := a_page
              rw [pgsize] at *
              omega
            rw [if_neg later, if_neg before]

/-- `uvmunmap` below `MAXVA`. -/
theorem Sound.uvmunmap {npages : Nat} (sound : Sound memory root tables) (doFree : Bool)
    (va_page : pgsize ∣ va) (below : va + npages * pgsize ≤ maxva) :
    ∃ after, uvmunmap memory root va npages doFree =
        .ok (after, freedPages memory root va npages doFree) ∧
      ∀ a, pgsize ∣ a → a < maxva → lookup after root a =
        if va ≤ a ∧ a < va + npages * pgsize then none else lookup memory root a := by
  have bound : maxva = 2 ^ 38 := by decide
  have few : npages < manyPages := by
    rw [manyPages]
    rw [pgsize] at below
    omega
  obtain ⟨after, returns, maps⟩ := unmapLoop_spec doFree [] sound va_page below few
  refine ⟨after, ?_, maps⟩
  rw [Vm.uvmunmap, if_neg (not_not.mpr (Nat.mod_eq_zero_of_dvd va_page)),
    Nat.mod_eq_of_lt (by omega : va + npages * pgsize < 2 ^ 64), returns, List.nil_append]

end Vm
end Xv6Duo
