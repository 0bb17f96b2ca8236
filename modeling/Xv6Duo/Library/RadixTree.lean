import Mathlib.Data.List.Basic
import Mathlib.Logic.Function.Basic
import Mathlib.Tactic

/-!
# Radix trees in a memory of pages

A page holds an entry for each index, and an entry may lead to another page. From a root the paths
of indices up to some depth lead to the tables of a tree; if no two paths lead to one page, a store
to one entry changes what lies behind that entry alone. Two stores are studied: one to an entry of a
table at full depth, and one that lets an entry lead to a new page.
-/

namespace RadixTree

variable {Page Index Entry : Type*}

/-- The table at the end of a path. -/
def tableAt (child : Entry → Option Page) (memory : Page → Index → Entry) (root : Page) :
    List Index → Option Page
  | [] => some root
  | i :: path => (child (memory root i)).bind fun page => tableAt child memory page path

/-- The entry at the end of a path, in a table at the given path. -/
def entryAt (child : Entry → Option Page) (memory : Page → Index → Entry) (root : Page)
    (path : List Index) (i : Index) : Option Entry :=
  (tableAt child memory root path).map fun table => memory table i

/-- No two paths lead to one table. -/
def Unaliased (child : Entry → Option Page) (memory : Page → Index → Entry) (root : Page)
    (depth : Nat) : Prop :=
  ∀ ⦃p q table⦄, p.length ≤ depth → q.length ≤ depth → tableAt child memory root p = some table →
    tableAt child memory root q = some table → p = q

variable {child : Entry → Option Page} {memory other : Page → Index → Entry} {root table : Page}
  {depth : Nat}

theorem tableAt_append (front back : List Index) :
    tableAt child memory root (front ++ back) =
      (tableAt child memory root front).bind fun page => tableAt child memory page back := by
  induction front generalizing root with
  | nil => rfl
  | cons i front ih =>
      rw [List.cons_append, tableAt, tableAt]
      cases child (memory root i) with
      | none => rfl
      | some page => exact ih

theorem tableAt_concat (path : List Index) (i : Index) :
    tableAt child memory root (path ++ [i]) =
      (tableAt child memory root path).bind fun page => child (memory page i) := by
  rw [tableAt_append]
  congr 1
  funext page
  rw [tableAt]
  cases child (memory page i) with
  | none => rfl
  | some next => rfl

/-- A path depends on the entries that it passes. -/
theorem tableAt_congr {path : List Index}
    (agree : ∀ front i back, path = front ++ i :: back → ∀ table,
      tableAt child memory root front = some table → other table i = memory table i) :
    tableAt child other root path = tableAt child memory root path := by
  induction path generalizing root with
  | nil => rfl
  | cons i path ih =>
      rw [tableAt, tableAt, agree [] i path rfl root rfl]
      cases leads : child (memory root i) with
      | none => rfl
      | some page =>
          apply ih
          intro front j back split table reached
          refine agree (i :: front) j back (by rw [split, List.cons_append]) table ?_
          rw [tableAt, leads]
          exact reached

/-- A tree depends on the entries of its tables. -/
theorem tableAt_congr_tables {path : List Index}
    (agree : ∀ front table, front.length < path.length →
      tableAt child memory root front = some table → other table = memory table) :
    tableAt child other root path = tableAt child memory root path := by
  apply tableAt_congr
  intro front i back split table reached
  rw [agree front table _ reached]
  rw [split, List.length_append, List.length_cons]
  omega

section Stores

variable [DecidableEq Page] [DecidableEq Index]

/-- The memory after a store to one entry. -/
def write (memory : Page → Index → Entry) (table : Page) (i : Index) (entry : Entry) :
    Page → Index → Entry :=
  Function.update memory table (Function.update (memory table) i entry)

theorem write_self (i : Index) (entry : Entry) : write memory table i entry table i = entry := by
  rw [write, Function.update_self, Function.update_self]

theorem write_of_ne {page : Page} {i j : Index} (entry : Entry)
    (differs : ¬ (page = table ∧ j = i)) :
    write memory table i entry page j = memory page j := by
  rw [write]
  by_cases same : page = table
  · subst same
    rw [Function.update_self, Function.update_of_ne]
    exact fun index => differs ⟨rfl, index⟩
  · rw [Function.update_of_ne same]

/-- A store to an entry changes only the paths through it. -/
theorem tableAt_write {p q : List Index} {i : Index} (entry : Entry)
    (unaliased : Unaliased child memory root depth)
    (reached : tableAt child memory root p = some table)
    (p_short : p.length ≤ depth) (q_short : q.length ≤ depth) (off : ¬ (p ++ [i]) <+: q) :
    tableAt child (write memory table i entry) root q = tableAt child memory root q := by
  apply tableAt_congr
  intro front j back split page page_reached
  apply write_of_ne
  rintro ⟨rfl, rfl⟩
  have front_short : front.length ≤ depth := by
    rw [split, List.length_append] at q_short
    omega
  have same := unaliased front_short p_short page_reached reached
  subst same
  exact off ⟨back, by rw [split, List.append_assoc, List.singleton_append]⟩

/-- A store to a table at full depth changes no path. -/
theorem tableAt_write_leaf {p q : List Index} {i : Index} (entry : Entry)
    (unaliased : Unaliased child memory root depth)
    (reached : tableAt child memory root p = some table)
    (p_full : p.length = depth) (q_short : q.length ≤ depth) :
    tableAt child (write memory table i entry) root q = tableAt child memory root q := by
  apply tableAt_write entry unaliased reached p_full.le q_short
  intro through
  have longer := through.length_le
  rw [List.length_append, List.length_singleton] at longer
  omega

theorem Unaliased.write_leaf {p : List Index} {i : Index} (entry : Entry)
    (unaliased : Unaliased child memory root depth)
    (reached : tableAt child memory root p = some table)
    (p_full : p.length = depth) : Unaliased child (write memory table i entry) root depth := by
  intro q r page q_short r_short q_reached r_reached
  rw [tableAt_write_leaf entry unaliased reached p_full q_short] at q_reached
  rw [tableAt_write_leaf entry unaliased reached p_full r_short] at r_reached
  exact unaliased q_short r_short q_reached r_reached

/-- The entries after a store to a table at full depth. -/
theorem entryAt_write_leaf {p q : List Index} {i j : Index} (entry : Entry)
    (unaliased : Unaliased child memory root depth)
    (reached : tableAt child memory root p = some table)
    (p_full : p.length = depth) (q_short : q.length ≤ depth) :
    entryAt child (write memory table i entry) root q j =
      if q = p ∧ j = i then some entry else entryAt child memory root q j := by
  rw [entryAt, entryAt, tableAt_write_leaf entry unaliased reached p_full q_short]
  split
  · next same =>
      rw [same.1, same.2, reached, Option.map_some, write_self]
  · next differs =>
      cases q_reached : tableAt child memory root q with
      | none => rfl
      | some page =>
          rw [Option.map_some, Option.map_some, write_of_ne]
          rintro ⟨rfl, rfl⟩
          exact differs ⟨unaliased q_short p_full.le q_reached reached, rfl⟩

/-- The memory after a page is filled with one entry. -/
def clear (memory : Page → Index → Entry) (page : Page) (zero : Entry) : Page → Index → Entry :=
  Function.update memory page fun _ => zero

/-- A table gets a new child. -/
structure Grows (child : Entry → Option Page) (memory : Page → Index → Entry) (root : Page)
    (depth : Nat) (p : List Index) (table : Page) (i : Index) (page : Page) (zero entry : Entry) :
    Prop where
  /-- The tree. -/
  unaliased : Unaliased child memory root depth
  /-- The table. -/
  reached : tableAt child memory root p = some table
  /-- It is not at full depth. -/
  short : p.length < depth
  /-- Its entry leads nowhere. -/
  empty : child (memory table i) = none
  /-- The page is not in the tree. -/
  fresh : ∀ q, q.length ≤ depth → tableAt child memory root q ≠ some page
  /-- It is cleared. -/
  zero_empty : child zero = none
  /-- The new entry leads to it. -/
  leads : child entry = some page

section Grow

variable {p q : List Index} {i j : Index} {page : Page} {zero entry : Entry}

omit [DecidableEq Page] [DecidableEq Index] in
theorem Grows.ne (grows : Grows child memory root depth p table i page zero entry) :
    page ≠ table := by
  rintro rfl
  exact grows.fresh p grows.short.le grows.reached

omit [DecidableEq Index] in
theorem tableAt_clear (fresh : ∀ q, q.length ≤ depth → tableAt child memory root q ≠ some page)
    (q_short : q.length ≤ depth) :
    tableAt child (clear memory page zero) root q = tableAt child memory root q := by
  apply tableAt_congr_tables
  intro front other shorter reached
  rw [clear, Function.update_of_ne]
  rintro rfl
  exact fresh front (by omega) reached

omit [DecidableEq Index] in
theorem Unaliased.clear (unaliased : Unaliased child memory root depth)
    (fresh : ∀ q, q.length ≤ depth → tableAt child memory root q ≠ some page) :
    Unaliased child (RadixTree.clear memory page zero) root depth := by
  intro q r other q_short r_short q_reached r_reached
  rw [tableAt_clear fresh q_short] at q_reached
  rw [tableAt_clear fresh r_short] at r_reached
  exact unaliased q_short r_short q_reached r_reached

/-- The tables of the tree with the new child. -/
theorem Grows.tableAt (grows : Grows child memory root depth p table i page zero entry)
    (q_short : q.length ≤ depth) :
    tableAt child (write (clear memory page zero) table i entry) root q =
      if q = p ++ [i] then some page else tableAt child memory root q := by
  have cleared : ∀ {r : List Index}, r.length ≤ depth →
      RadixTree.tableAt child (clear memory page zero) root r =
        RadixTree.tableAt child memory root r := tableAt_clear grows.fresh
  have reached : RadixTree.tableAt child (clear memory page zero) root p = some table :=
    (cleared grows.short.le).trans grows.reached
  have unaliased : Unaliased child (clear memory page zero) root depth :=
    grows.unaliased.clear grows.fresh
  by_cases through : (p ++ [i]) <+: q
  · obtain ⟨back, rfl⟩ := through
    have at_p : RadixTree.tableAt child (write (clear memory page zero) table i entry) root p =
        some table := by
      rw [tableAt_write entry unaliased reached grows.short.le grows.short.le, reached]
      intro longer
      have le := longer.length_le
      rw [List.length_append, List.length_singleton] at le
      omega
    have at_page : RadixTree.tableAt child (write (clear memory page zero) table i entry) root
        (p ++ [i]) = some page := by
      rw [tableAt_concat, at_p, Option.bind_some, write_self, grows.leads]
    rw [tableAt_append, at_page, Option.bind_some]
    cases back with
    | nil =>
        rw [if_pos (List.append_nil _)]
        rfl
    | cons k back =>
        have empty_page : write (clear memory page zero) table i entry page k = zero := by
          rw [write_of_ne entry fun same => grows.ne same.1, clear, Function.update_self]
        have nowhere : RadixTree.tableAt child memory root (p ++ [i]) = none := by
          rw [tableAt_concat, grows.reached, Option.bind_some, grows.empty]
        rw [RadixTree.tableAt, empty_page, grows.zero_empty, if_neg, tableAt_append, nowhere]
        · rfl
        · intro same
          exact List.cons_ne_nil k back (List.append_right_eq_self.mp same)
  · have differs : q ≠ p ++ [i] := by
      rintro rfl
      exact through (List.prefix_refl _)
    rw [if_neg differs, tableAt_write entry unaliased reached grows.short.le q_short through,
      cleared q_short]

theorem Grows.unaliased_after (grows : Grows child memory root depth p table i page zero entry) :
    Unaliased child (write (clear memory page zero) table i entry) root depth := by
  intro q r other q_short r_short q_reached r_reached
  rw [grows.tableAt q_short] at q_reached
  rw [grows.tableAt r_short] at r_reached
  split at q_reached
  · next q_new =>
      split at r_reached
      · next r_new => rw [q_new, r_new]
      · rw [← Option.some.inj q_reached] at r_reached
        exact absurd r_reached (grows.fresh r r_short)
  · split at r_reached
    · rw [← Option.some.inj r_reached] at q_reached
      exact absurd q_reached (grows.fresh q q_short)
    · exact grows.unaliased q_short r_short q_reached r_reached

/-- The entries of the tree with the new child. -/
theorem Grows.entryAt (grows : Grows child memory root depth p table i page zero entry)
    (q_full : q.length = depth) :
    entryAt child (write (clear memory page zero) table i entry) root q j =
      if q = p ++ [i] then some zero else entryAt child memory root q j := by
  rw [RadixTree.entryAt, RadixTree.entryAt, grows.tableAt q_full.le]
  split
  · rw [Option.map_some, write_of_ne entry fun same => grows.ne same.1, clear,
      Function.update_self]
  · cases q_reached : RadixTree.tableAt child memory root q with
    | none => rfl
    | some other =>
        have not_page : other ≠ page := by
          rintro rfl
          exact grows.fresh q q_full.le q_reached
        have not_table : other ≠ table := by
          rintro rfl
          have same := grows.unaliased q_full.le grows.short.le q_reached grows.reached
          have short := grows.short
          rw [← same] at short
          omega
        rw [Option.map_some, Option.map_some, write_of_ne entry fun same => not_table same.1, clear,
          Function.update_of_ne not_page]

end Grow

end Stores

end RadixTree
