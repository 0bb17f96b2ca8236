import Mathlib.Tactic
import Xv6Duo.Library.GuardedRun
import Xv6Duo.Vm.Pte

/-!
# Page tables as trees

The tables of a page table form a tree of depth two, and what it maps is read off the entries of the
tables at full depth. `walk` follows the indices of an address; with `alloc` it puts missing tables
into the tree, which does not change what is mapped.
-/

namespace Xv6Duo
namespace Vm

open RadixTree

/-- The page that a valid entry leads to. -/
def child (pte : Nat) : Option Nat := if pte &&& pteV ≠ 0 then some (pte2pa pte) else none

/-- The page and the flags of a valid entry. -/
def decode (pte : Nat) : Option (Nat × Nat) :=
  if pte &&& pteV ≠ 0 then some (pte2pa pte, pteFlags pte) else none

/-- The page and the flags at the end of a path. -/
def leafAt (memory : Memory) (root : Nat) (path : List (Fin 512)) (i : Fin 512) :
    Option (Nat × Nat) :=
  (entryAt child memory root path i).bind decode

/-- The indices of an address, from a level down to level 1. -/
def route (va : Nat) : Nat → List (Fin 512)
  | 0 => []
  | level + 1 => px (level + 1) va :: route va level

/-- The page table as a finite map: the page and the flags of an address. -/
def lookup (memory : Memory) (root va : Nat) : Option (Nat × Nat) :=
  leafAt memory root (route va 2) (px 0 va)

/-- The page table is a tree whose tables are listed. -/
structure Tree (memory : Memory) (root : Nat) (tables : List Nat) : Prop where
  /-- No two paths lead to one table. -/
  unaliased : Unaliased child memory root 2
  /-- The tables. -/
  tables : ∀ path table, path.length ≤ 2 → tableAt child memory root path = some table →
    table ∈ tables

/-- A page table got more tables, and maps the same. -/
structure Extends (memory after : Memory) (root : Nat) (tables tables' : List Nat) : Prop where
  /-- It is still a tree. -/
  tree : Tree after root tables'
  /-- The old tables are kept. -/
  grows : tables ⊆ tables'
  /-- The map. -/
  leaves : ∀ path i, path.length = 2 → leafAt after root path i = leafAt memory root path i
  /-- No other page was written. -/
  frame : ∀ page, page ∉ tables' → after page = memory page

variable {memory after : Memory} {root : Nat} {tables tables' : List Nat}

@[simp]
theorem route_length (va level : Nat) : (route va level).length = level := by
  induction level with
  | zero => rfl
  | succ level ih => rw [route, List.length_cons, ih]

theorem child_of_valid {pte : Nat} (valid : pte &&& pteV ≠ 0) : child pte = some (pte2pa pte) :=
  if_pos valid

theorem child_of_invalid {pte : Nat} (invalid : ¬ (pte &&& pteV ≠ 0)) : child pte = none :=
  if_neg invalid

theorem decode_zero : decode 0 = none := rfl

/-- The entry of a table leads to the page that `walk` allocated for it. -/
theorem child_table {page : Nat} (is_page : IsPage page) :
    child (pa2pte page ||| pteV) = some page := by
  rw [child_of_valid, pte2pa_or is_page.isFrame (by decide)]
  rw [valid_iff, Nat.testBit_or]
  have bit : pteV.testBit 0 = true := by decide
  rw [bit, Bool.or_true]

theorem Extends.refl (tree : Tree memory root tables) : Extends memory memory root tables tables :=
  ⟨tree, List.Subset.refl _, fun _ _ _ => rfl, fun _ _ => rfl⟩

theorem Extends.trans {last : Memory} {tables'' : List Nat}
    (first : Extends memory after root tables tables')
    (second : Extends after last root tables' tables'') :
    Extends memory last root tables tables'' := by
  refine ⟨second.tree, List.Subset.trans first.grows second.grows, ?_, ?_⟩
  · intro path i full
    rw [second.leaves path i full, first.leaves path i full]
  · intro page fresh
    rw [second.frame page fresh, first.frame page fun old => fresh (second.grows old)]

/-- The tree depends on its tables. -/
theorem Tree.tableAt_congr (tree : Tree memory root tables)
    (agree : ∀ page ∈ tables, after page = memory page) {path : List (Fin 512)}
    (short : path.length ≤ 2) :
    tableAt child after root path = tableAt child memory root path := by
  apply tableAt_congr_tables
  intro front table shorter reached
  exact agree table (tree.tables front table (by omega) reached)

theorem Tree.leafAt_congr (tree : Tree memory root tables)
    (agree : ∀ page ∈ tables, after page = memory page) {path : List (Fin 512)} {i : Fin 512}
    (short : path.length ≤ 2) : leafAt after root path i = leafAt memory root path i := by
  rw [leafAt, leafAt, entryAt, entryAt, tree.tableAt_congr agree short]
  cases reached : tableAt child memory root path with
  | none => rfl
  | some table =>
      rw [Option.map_some, Option.map_some, agree table (tree.tables path table short reached)]

theorem Tree.congr (tree : Tree memory root tables)
    (agree : ∀ page ∈ tables, after page = memory page) : Tree after root tables := by
  constructor
  · intro p q table p_short q_short p_reached q_reached
    rw [tree.tableAt_congr agree p_short] at p_reached
    rw [tree.tableAt_congr agree q_short] at q_reached
    exact tree.unaliased p_short q_short p_reached q_reached
  · intro path table short reached
    rw [tree.tableAt_congr agree short] at reached
    exact tree.tables path table short reached

/-- A new table is put into the tree. -/
theorem Tree.grow {path : List (Fin 512)} {table page : Nat} {i : Fin 512}
    (tree : Tree memory root tables) (reached : tableAt child memory root path = some table)
    (short : path.length < 2) (empty : ¬ (memory table i &&& pteV ≠ 0)) (is_page : IsPage page)
    (fresh : page ∉ tables) :
    Extends memory (write (clear memory page 0) table i (pa2pte page ||| pteV)) root tables
        (page :: tables) ∧
      tableAt child (write (clear memory page 0) table i (pa2pte page ||| pteV)) root
        (path ++ [i]) = some page := by
  have grows : Grows child memory root 2 path table i page 0 (pa2pte page ||| pteV) := by
    refine ⟨tree.unaliased, reached, short, child_of_invalid empty, ?_, rfl, child_table is_page⟩
    intro q q_short q_reached
    exact fresh (tree.tables q page q_short q_reached)
  have length : (path ++ [i]).length ≤ 2 := by
    rw [List.length_append, List.length_singleton]
    omega
  have nowhere : tableAt child memory root (path ++ [i]) = none := by
    rw [tableAt_concat, reached, Option.bind_some, grows.empty]
  constructor
  · constructor
    · constructor
      · exact grows.unaliased_after
      · intro q other q_short q_reached
        rw [grows.tableAt q_short] at q_reached
        split at q_reached
        · rw [← Option.some.inj q_reached]
          exact List.mem_cons_self
        · exact List.mem_cons_of_mem page (tree.tables q other q_short q_reached)
    · exact List.subset_cons_self page tables
    · intro q j full
      rw [leafAt, leafAt, grows.entryAt full]
      split
      · next new =>
          rw [new, entryAt, nowhere]
          rfl
      · rfl
    · intro other not_table
      have not_page : other ≠ page := fun same => not_table (same ▸ List.mem_cons_self)
      have not_parent : other ≠ table := by
        rintro rfl
        exact not_table (List.mem_cons_of_mem page (tree.tables path other short.le reached))
      rw [write, Function.update_of_ne not_parent, clear, Function.update_of_ne not_page]
  · rw [grows.tableAt length, if_pos rfl]

/-! ## `walk` -/

/-- Pages that `kalloc` may hand out for tables: none is in use. -/
def Supplied (tables pages : List Nat) : Prop :=
  pages.Nodup ∧ ∀ page ∈ pages, IsPage page ∧ page ≠ 0 ∧ page ∉ tables

/-- `walk` without `alloc` follows the tree. -/
theorem walkLevels_find (va level table : Nat) (pages : List Nat) :
    walkLevels va false level memory table pages =
      ((tableAt child memory table (route va level)).map fun t => (t, px 0 va), memory, pages) := by
  induction level generalizing table with
  | zero => rfl
  | succ level ih =>
      rw [walkLevels.eq_def, route, tableAt]
      dsimp only
      split
      · next valid => rw [ih, child_of_valid valid, Option.bind_some]
      · next invalid =>
          rw [child_of_invalid invalid]
          rfl

/-- `walk` with `alloc` comes to the table of an address, or `kalloc` fails. -/
theorem walkLevels_alloc {va level table : Nat} {path : List (Fin 512)} {pages : List Nat}
    (tree : Tree memory root tables) (reached : tableAt child memory root path = some table)
    (length : path.length + level = 2) (supplied : Supplied tables pages) :
    ∃ result after used left, walkLevels va true level memory table pages = (result, after, left) ∧
      pages = used ++ left ∧ Extends memory after root tables (used.reverse ++ tables) ∧
      Supplied (used.reverse ++ tables) left ∧
      (result = none ∨ ∃ t, result = some (t, px 0 va) ∧
        tableAt child after root (path ++ route va level) = some t) := by
  induction level generalizing memory table tables path pages with
  | zero =>
      refine ⟨_, _, [], pages, rfl, rfl, Extends.refl tree, supplied, Or.inr ⟨table, rfl, ?_⟩⟩
      rw [route, List.append_nil]
      exact reached
  | succ level ih =>
      have longer : (path ++ [px (level + 1) va]).length + level = 2 := by
        rw [List.length_append, List.length_singleton]
        omega
      have split_route : ∀ memory', tableAt child memory' root (path ++ route va (level + 1)) =
          tableAt child memory' root (path ++ [px (level + 1) va] ++ route va level) := by
        intro memory'
        rw [route, List.append_assoc, List.singleton_append]
      rw [walkLevels.eq_def]
      dsimp only
      split
      · next valid =>
          have next : tableAt child memory root (path ++ [px (level + 1) va]) =
              some (pte2pa (memory table (px (level + 1) va))) := by
            rw [tableAt_concat, reached, Option.bind_some, child_of_valid valid]
          simp only [split_route]
          exact ih tree next longer supplied
      · next invalid =>
          rw [if_pos rfl]
          cases pages with
          | nil =>
              exact ⟨none, memory, [], [], rfl, rfl, Extends.refl tree, supplied, Or.inl rfl⟩
          | cons page pages =>
              obtain ⟨distinct, allowed⟩ := supplied
              obtain ⟨page_fresh, rest_distinct⟩ := List.nodup_cons.mp distinct
              obtain ⟨is_page, _, fresh⟩ := allowed page List.mem_cons_self
              obtain ⟨extended, next⟩ :=
                tree.grow reached (by omega : path.length < 2) invalid is_page fresh
              have supplied_rest : Supplied (page :: tables) pages := by
                refine ⟨rest_distinct, ?_⟩
                intro other member
                obtain ⟨ok, nonzero, other_fresh⟩ :=
                  allowed other (List.mem_cons_of_mem page member)
                refine ⟨ok, nonzero, ?_⟩
                rw [List.mem_cons, not_or]
                exact ⟨fun same => page_fresh (same ▸ member), other_fresh⟩
              obtain ⟨result, last, used, left, returns, split, more, supplied_left, found⟩ :=
                ih extended.tree next longer supplied_rest
              refine ⟨result, last, page :: used, left, returns, by rw [split, List.cons_append],
                ?_, ?_, ?_⟩
              · rw [List.reverse_cons, List.append_assoc]
                exact extended.trans more
              · rw [List.reverse_cons, List.append_assoc]
                exact supplied_left
              · simp only [split_route]
                exact found

end Vm
end Xv6Duo
