import Xv6Duo.Dir.Syscalls

/-!
# Counting entries

The entries of a directory behind `.` and `..` are its proper entries. `names` counts the proper
entries of all directories that name an inode, `subdirs` those of one directory that name
directories. Placing an entry, clearing one and truncating a directory are described by their effect
on these two counts.
-/

namespace Xv6Duo
namespace Dir

/-- The entries of a directory behind `.` and `..`. -/
def Node.proper (n : Node) : List Dirent := n.entries.drop 2

/-- The proper entries of a directory that name an inode. -/
def Node.naming (n : Node) (i : Nat) : Nat :=
  n.proper.countP fun e => e.inum ≠ 0 ∧ e.inum = i

/-- The proper entries of a directory that name directories. -/
def Node.subdirs (n : Node) : Nat := n.proper.countP fun e => e.inum ≠ 0 ∧ e.type = .dir

/-- The inode that `..` names. -/
def Node.up (n : Node) : Nat := inumAt n.entries 1

/-- The proper entries of all directories that name an inode. -/
def names (t : Nodes) (i : Nat) : Nat := ∑ d ∈ Finset.range ninodes, (t d).naming i

/-- The inode is the root or has a name. -/
def Linked (t : Nodes) (i : Nat) : Prop := i = rootIno ∨ 0 < names t i

/-! ## Lists of entries -/

theorem countP_placeEntry {p : Dirent → Bool} (cleared : ∀ e, e.inum = 0 → p e = false)
    (entries : List Dirent) (e : Dirent) :
    (placeEntry entries e).countP p = entries.countP p + if p e then 1 else 0 := by
  induction entries with
  | nil => simp [placeEntry]
  | cons first rest ih =>
      rw [placeEntry]
      split
      · next zero => simp [List.countP_cons, cleared first zero]
      · rw [List.countP_cons, List.countP_cons, ih]
        omega

theorem mem_placeEntry {entries : List Dirent} {e other : Dirent}
    (mem : other ∈ placeEntry entries e) : other = e ∨ other ∈ entries := by
  induction entries with
  | nil => simpa [placeEntry] using mem
  | cons first rest ih =>
      rw [placeEntry] at mem
      split at mem
      · simp only [List.mem_cons] at mem ⊢
        tauto
      · simp only [List.mem_cons] at mem ⊢
        tauto

theorem placeEntry_cons {first : Dirent} (used : first.inum ≠ 0) (rest : List Dirent)
    (e : Dirent) : placeEntry (first :: rest) e = first :: placeEntry rest e :=
  if_neg used

theorem countP_set_none {p : Dirent → Bool} (cleared : p Dirent.none = false)
    {entries : List Dirent} {k : Nat} (k_lt : k < entries.length) :
    (entries.set k Dirent.none).countP p + (if p entries[k] then 1 else 0) = entries.countP p := by
  induction entries generalizing k with
  | nil => simp at k_lt
  | cons first rest ih =>
      cases k with
      | zero => simp [List.countP_cons, cleared]
      | succ k =>
          have := ih (k := k) (by simpa using k_lt)
          simp only [List.set_cons_succ, List.countP_cons, List.getElem_cons_succ]
          omega

theorem mem_set_none {entries : List Dirent} {k : Nat} {e : Dirent}
    (mem : e ∈ entries.set k Dirent.none) (used : e.inum ≠ 0) : e ∈ entries := by
  obtain old | rfl := List.mem_or_eq_of_mem_set mem
  · exact old
  · exact absurd rfl used

/-- What `dirlookup` finds. -/
theorem findEntry_some {entries : List Dirent} {name : Path} {k : Nat}
    (found : findEntry entries name = some k) :
    ∃ k_lt : k < entries.length, entries[k].inum ≠ 0 ∧ entries[k].name = name := by
  obtain ⟨k_lt, holds, -⟩ := List.findIdx?_eq_some_iff_getElem.mp found
  exact ⟨k_lt, by simpa using holds⟩

theorem inumAt_eq {entries : List Dirent} {k : Nat} (k_lt : k < entries.length) :
    inumAt entries k = entries[k].inum := by
  rw [inumAt, List.getD_eq_getElem?_getD, List.getElem?_eq_getElem k_lt, Option.getD_some]

/-! ## Sums over directories -/

/-- Replacing one inode changes the count by the difference of its entries. -/
theorem names_update (t : Nodes) {d : Nat} (d_lt : d < ninodes) (n : Node) (i : Nat) :
    names (Function.update t d n) i + (t d).naming i = names t i + n.naming i := by
  have mem : d ∈ Finset.range ninodes := Finset.mem_range.mpr d_lt
  have others : ∑ x ∈ (Finset.range ninodes).erase d, (Function.update t d n x).naming i =
      ∑ x ∈ (Finset.range ninodes).erase d, (t x).naming i := by
    refine Finset.sum_congr rfl fun x x_mem => ?_
    rw [Function.update_of_ne (Finset.ne_of_mem_erase x_mem)]
  rw [names, names, ← Finset.add_sum_erase _ _ mem, ← Finset.add_sum_erase _ _ mem, others,
    Function.update_self]
  omega

theorem names_congr {t u : Nodes} (entries : ∀ d, (u d).entries = (t d).entries) (i : Nat) :
    names u i = names t i := by
  refine Finset.sum_congr rfl fun d _ => ?_
  rw [Node.naming, Node.naming, Node.proper, Node.proper, entries d]

theorem naming_le_names (t : Nodes) {d : Nat} (d_lt : d < ninodes) (i : Nat) :
    (t d).naming i ≤ names t i :=
  Finset.single_le_sum (f := fun d => (t d).naming i) (fun _ _ => Nat.zero_le _)
    (Finset.mem_range.mpr d_lt)

theorem naming_pos {n : Node} {e : Dirent} (mem : e ∈ n.proper) (used : e.inum ≠ 0) :
    0 < n.naming e.inum :=
  List.countP_pos_iff.mpr ⟨e, mem, by simpa using used⟩

/-- A directory that names an inode has an entry for it. -/
theorem exists_of_naming_pos {n : Node} {i : Nat} (named : 0 < n.naming i) :
    ∃ e ∈ n.proper, e.inum ≠ 0 ∧ e.inum = i := by
  obtain ⟨e, mem, holds⟩ := List.countP_pos_iff.mp named
  exact ⟨e, mem, by simpa using holds⟩

/-- An inode with a name is named by some directory. -/
theorem exists_naming {t : Nodes} {i : Nat} (named : 0 < names t i) :
    ∃ d < ninodes, ∃ e ∈ (t d).proper, e.inum ≠ 0 ∧ e.inum = i := by
  obtain ⟨d, mem, pos⟩ := Finset.exists_ne_zero_of_sum_ne_zero (Nat.pos_iff_ne_zero.mp named)
  exact ⟨d, Finset.mem_range.mp mem, exists_of_naming_pos (Nat.pos_of_ne_zero pos)⟩

end Dir
end Xv6Duo
