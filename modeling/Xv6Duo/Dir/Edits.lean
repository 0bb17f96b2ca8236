import Xv6Duo.Dir.Lookup

/-!
# Editing the tree

Creating, linking and unlinking replace two inodes at once: one that gets or loses a name, and the
directory of the name. `Counted.edit` is the one statement about such a replacement; the calls of
`kernel/file.c` are its instances.
-/

namespace Xv6Duo
namespace Dir

variable {t : Nodes} {extra extra' deficit deficit' : Nat → Nat}

/-- The inode `n` that replaces inode `i` fits with `c` names. -/
structure Fits (i d : Nat) (n m : Node) (extra deficit : Nat → Nat) (c : Nat) : Prop where
  /-- It is allocated. -/
  allocated : n.type ≠ .free
  /-- Only a directory has entries. -/
  plain : n.type ≠ .dir → n.entries = []
  /-- A directory starts with `.` and `..`. -/
  dots : n.type = .dir → ∃ up rest, up ≠ 0 ∧
    n.entries = ⟨i, .dir, dot⟩ :: ⟨up, .dir, dotdot⟩ :: rest
  /-- The entries that name it have its type, and it lies below their directory. -/
  placed : ∀ e ∈ m.proper, e.inum ≠ 0 → e.inum = i → n.type = e.type ∧ (e.type = .dir → n.up = d)
  /-- Its links are its names and the extra ones. -/
  plainLinks : n.type ≠ .dir → n.nlink = c + extra i
  /-- A directory has at most one name. -/
  single : n.type = .dir → c ≤ 1
  /-- Links of a directory with a name. -/
  linkedLinks : n.type = .dir → 0 < c → n.nlink + deficit i = 1 + n.subdirs ∧ 1 ≤ n.nlink
  /-- Links of a directory without a name. -/
  removedLinks : n.type = .dir → c = 0 → n.nlink = n.subdirs

/-- The directory `m` that replaces directory `d` fits, when only its entries for `i` change. -/
structure Hosts (t : Nodes) (i d : Nat) (m : Node) (deficit : Nat → Nat) : Prop where
  /-- It is a directory. -/
  dir : m.type = .dir
  /-- The first two entries stay. -/
  dots : m.entries.take 2 = (t d).entries.take 2
  /-- Entries for other inodes are old. -/
  old : ∀ e ∈ m.proper, e.inum ≠ 0 → e.inum ≠ i → e ∈ (t d).proper
  /-- Other inodes keep their names. -/
  naming : ∀ j, j ≠ i → m.naming j = (t d).naming j
  /-- Links of a directory with a name. -/
  linkedLinks : Linked t d → m.nlink + deficit d = 1 + m.subdirs ∧ 1 ≤ m.nlink
  /-- Links of a directory without a name. -/
  removedLinks : ¬Linked t d → m.nlink = m.subdirs

theorem up_eq_of_take {m n : Node} (same : m.entries.take 2 = n.entries.take 2) : m.up = n.up := by
  have index : ∀ entries : List Dirent, inumAt (entries.take 2) 1 = inumAt entries 1 := by
    intro entries
    match entries with
    | [] => rfl
    | [_] => rfl
    | _ :: _ :: _ => rfl
  rw [Node.up, Node.up, ← index, same, index]

/-- Names after the replacement. -/
theorem names_edit {i d : Nat} {n m : Node} {c : Nat} (i_lt : i < ninodes) (d_lt : d < ninodes)
    (apart : i ≠ d) (own : n.proper = (t i).proper)
    (naming : ∀ j, j ≠ i → m.naming j = (t d).naming j)
    (count : c + (t d).naming i = names t i + m.naming i) (j : Nat) :
    names (Function.update (Function.update t i n) d m) j = if j = i then c else names t j := by
  have own_naming : n.naming j = (t i).naming j := by rw [Node.naming, Node.naming, own]
  have inner := names_update t i_lt n j
  have outer := names_update (Function.update t i n) d_lt m j
  rw [Function.update_of_ne apart.symm] at outer
  by_cases same : j = i
  · rw [if_pos same]
    rw [same] at own_naming inner outer ⊢
    omega
  · rw [if_neg same]
    have := naming j same
    omega

theorem Counted.edit (counted : Counted t extra deficit) {i d : Nat} {n m : Node} {c : Nat}
    (i_pos : 0 < i) (i_lt : i < ninodes) (not_root : i ≠ rootIno) (apart : i ≠ d)
    (d_dir : (t d).type = .dir) (own : n.proper = (t i).proper)
    (kept : (t i).type = .free ∨ n.type = (t i).type ∧ n.up = (t i).up)
    (count : c + (t d).naming i = names t i + m.naming i) (fits : Fits i d n m extra' deficit' c)
    (hosts : Hosts t i d m deficit') (extra_eq : ∀ j, j ≠ i → extra' j = extra j)
    (deficit_eq : ∀ j, j ≠ i → j ≠ d → deficit' j = deficit j) :
    Counted (Function.update (Function.update t i n) d m) extra' deficit' := by
  have d_lt := (counted.bounded d (by rw [d_dir]; decide)).2
  set u := Function.update (Function.update t i n) d m with u_eq
  have at_d : u d = m := Function.update_self ..
  have at_i : u i = n := by
    rw [u_eq, Function.update_of_ne apart, Function.update_self]
  have other : ∀ {j}, j ≠ i → j ≠ d → u j = t j := by
    intro j differ_i differ_d
    rw [u_eq, Function.update_of_ne differ_d, Function.update_of_ne differ_i]
  have counts : ∀ j, names u j = if j = i then c else names t j :=
    names_edit i_lt d_lt apart own hosts.naming count
  have linked_iff : ∀ j, j ≠ i → (Linked u j ↔ Linked t j) := by
    intro j differ
    rw [Linked, Linked, counts j, if_neg differ]
  have linked_i : Linked u i ↔ 0 < c := by
    rw [Linked, counts i, if_pos rfl]
    exact or_iff_right not_root
  -- An old entry that names `i` still fits, because `i` was allocated and keeps its type and place.
  have old_entry : ∀ {d' e}, e ∈ (t d').proper → e.inum ≠ 0 → e.inum ≠ rootIno ∧
      (u e.inum).type = e.type ∧ e.type ≠ .free ∧ (e.type = .dir → (u e.inum).up = d') := by
    intro d' e mem used
    obtain ⟨e_root, type_eq, e_alloc, parent⟩ := counted.named d' e mem used
    refine ⟨e_root, ?_⟩
    by_cases is_i : e.inum = i
    · rw [is_i] at type_eq parent
      obtain free | ⟨type_i, up_i⟩ := kept
      · exact absurd (type_eq.symm.trans free) e_alloc
      · rw [is_i, at_i, type_i, up_i]
        exact ⟨type_eq, e_alloc, parent⟩
    · by_cases is_d : e.inum = d
      · rw [is_d] at type_eq parent
        rw [is_d, at_d, hosts.dir, ← type_eq, d_dir, up_eq_of_take hosts.dots]
        exact ⟨rfl, by decide, fun _ => parent (type_eq.symm.trans d_dir)⟩
      · rw [other is_i is_d]
        exact ⟨type_eq, e_alloc, parent⟩
  refine ⟨?_, ?_, ?_, ?_, ?_, ?_, ?_, ?_, ?_⟩
  · intro j allocated
    by_cases is_i : j = i
    · exact is_i ▸ ⟨i_pos, i_lt⟩
    · by_cases is_d : j = d
      · rw [is_d]
        exact counted.bounded d (by rw [d_dir]; decide)
      · rw [other is_i is_d] at allocated
        exact counted.bounded j allocated
  · intro j plain
    by_cases is_d : j = d
    · rw [is_d, at_d] at plain
      exact absurd hosts.dir plain
    · by_cases is_i : j = i
      · rw [is_i, at_i] at plain ⊢
        exact fits.plain plain
      · rw [other is_i is_d] at plain ⊢
        exact counted.plain j plain
  · intro j dir
    by_cases is_d : j = d
    · obtain ⟨up, rest, up_ne, entries⟩ := counted.dots d d_dir
      have first := hosts.dots
      rw [entries] at first
      refine ⟨up, m.entries.drop 2, up_ne, ?_⟩
      rw [is_d, at_d, ← List.take_append_drop 2 m.entries, first, List.drop_append]
      simp
    · by_cases is_i : j = i
      · rw [is_i, at_i] at dir ⊢
        exact fits.dots dir
      · rw [other is_i is_d] at dir ⊢
        exact counted.dots j dir
  · intro d' e mem used
    by_cases is_d : d' = d
    · rw [is_d, at_d] at mem
      by_cases is_i : e.inum = i
      · obtain ⟨type_eq, parent⟩ := fits.placed e mem used is_i
        rw [is_i, at_i, is_d]
        exact ⟨not_root, type_eq, type_eq ▸ fits.allocated, parent⟩
      · rw [is_d]
        exact old_entry (hosts.old e mem used is_i) used
    · by_cases is_i : d' = i
      · rw [is_i, at_i, own] at mem
        rw [is_i]
        exact old_entry mem used
      · rw [other is_i is_d] at mem
        exact old_entry mem used
  · by_cases is_d : rootIno = d
    · rw [is_d, at_d, up_eq_of_take hosts.dots, ← is_d]
      exact ⟨hosts.dir, counted.root.2⟩
    · rw [other (Ne.symm not_root) is_d]
      exact counted.root
  · intro j allocated plain
    by_cases is_d : j = d
    · rw [is_d, at_d] at plain
      exact absurd hosts.dir plain
    · by_cases is_i : j = i
      · rw [counts, if_pos is_i, is_i, at_i]
        rw [is_i, at_i] at plain
        exact fits.plainLinks plain
      · rw [other is_i is_d] at allocated plain ⊢
        rw [counts, if_neg is_i, extra_eq j is_i]
        exact counted.plainLinks j allocated plain
  · intro j dir
    by_cases is_i : j = i
    · rw [counts, if_pos is_i]
      rw [is_i, at_i] at dir
      exact fits.single dir
    · rw [counts, if_neg is_i]
      refine counted.single j ?_
      by_cases is_d : j = d
      · rw [is_d]
        exact d_dir
      · rwa [other is_i is_d] at dir
  · intro j dir linked
    by_cases is_i : j = i
    · rw [is_i] at dir linked ⊢
      rw [at_i] at dir ⊢
      exact fits.linkedLinks dir (linked_i.mp linked)
    · rw [linked_iff j is_i] at linked
      by_cases is_d : j = d
      · rw [is_d] at linked ⊢
        rw [at_d]
        exact hosts.linkedLinks linked
      · rw [other is_i is_d] at dir ⊢
        rw [deficit_eq j is_i is_d]
        exact counted.linkedLinks j dir linked
  · intro j dir removed
    by_cases is_i : j = i
    · rw [is_i] at dir removed ⊢
      rw [linked_i] at removed
      rw [at_i] at dir ⊢
      exact fits.removedLinks dir (by omega)
    · rw [linked_iff j is_i] at removed
      by_cases is_d : j = d
      · rw [is_d] at removed ⊢
        rw [at_d]
        exact hosts.removedLinks removed
      · rw [other is_i is_d] at dir ⊢
        exact counted.removedLinks j dir removed

/-- The tree stays tidy when the directory of the name has a name itself or gets no new entry. -/
theorem Tidy.edit (tidy : Tidy t) {i d : Nat} {n m : Node} {c : Nat} (apart : i ≠ d)
    (d_dir : (t d).type = .dir)
    (counts : ∀ j, names (Function.update (Function.update t i n) d m) j =
      if j = i then c else names t j)
    (lone : n.type = .dir → c = 0 → ∀ e ∈ n.proper, e.inum = 0)
    (host : Linked t d ∨ ∀ e ∈ m.proper, e.inum ≠ 0 → e ∈ (t d).proper) :
    Tidy (Function.update (Function.update t i n) d m) := by
  intro j dir removed e mem
  rw [Linked, counts, not_or] at removed
  by_cases is_d : j = d
  · rw [is_d, if_neg apart.symm] at removed
    rw [is_d, Function.update_self] at mem
    have removed_d : ¬Linked t d := by
      rw [Linked, not_or]
      exact removed
    obtain linked | old := host
    · exact absurd linked removed_d
    · by_contra used
      exact used (tidy d d_dir removed_d e (old e mem used))
  · rw [Function.update_of_ne is_d] at dir mem
    by_cases is_i : j = i
    · rw [is_i, Function.update_self] at dir mem
      rw [if_pos is_i] at removed
      exact lone dir (by omega) e mem
    · rw [if_neg is_i] at removed
      rw [Function.update_of_ne is_i] at dir mem
      refine tidy j dir ?_ e mem
      rw [Linked, not_or]
      exact removed

/-! ## Placing and clearing entries -/

/-- The effect on a directory of placing an entry. -/
structure Placed (n m : Node) (e : Dirent) : Prop where
  /-- The first two entries stay. -/
  dots : m.entries.take 2 = n.entries.take 2
  /-- The proper entries are the old ones and the new one. -/
  mem : ∀ other ∈ m.proper, other = e ∨ other ∈ n.proper
  /-- Names. -/
  naming : ∀ j, m.naming j = n.naming j + if e.inum = j then 1 else 0
  /-- Subdirectories. -/
  subdirs : m.subdirs = n.subdirs + if e.type = .dir then 1 else 0

theorem Counted.placed (counted : Counted t extra deficit) {d : Nat} (dir : (t d).type = .dir)
    {e : Dirent} (used : e.inum ≠ 0) {m : Node} (entries : m.entries = placeEntry (t d).entries e) :
    Placed (t d) m e := by
  obtain ⟨up, rest, up_ne, old⟩ := counted.dots d dir
  have d_ne : d ≠ 0 := Nat.pos_iff_ne_zero.mp (counted.bounded d (by rw [dir]; decide)).1
  have proper_t : (t d).proper = rest := by
    rw [Node.proper, old]
    rfl
  have placed : m.entries = ⟨d, .dir, dot⟩ :: ⟨up, .dir, dotdot⟩ :: placeEntry rest e := by
    rw [entries, old, placeEntry_cons d_ne, placeEntry_cons up_ne]
  have proper_m : m.proper = placeEntry rest e := by
    rw [Node.proper, placed]
    rfl
  refine ⟨?_, ?_, ?_, ?_⟩
  · rw [placed, old]
    rfl
  · intro other mem
    rw [proper_m] at mem
    rw [proper_t]
    exact mem_placeEntry mem
  · intro j
    rw [Node.naming, Node.naming, proper_m, proper_t, countP_placeEntry (by simp +contextual)]
    simp [used]
  · rw [Node.subdirs, Node.subdirs, proper_m, proper_t, countP_placeEntry (by simp +contextual)]
    simp [used]

/-- The effect on a directory of clearing an entry. -/
structure Cleared (n m : Node) (e : Dirent) : Prop where
  /-- The first two entries stay. -/
  dots : m.entries.take 2 = n.entries.take 2
  /-- No entry is new. -/
  mem : ∀ other ∈ m.proper, other.inum ≠ 0 → other ∈ n.proper
  /-- The entry was there. -/
  old : e ∈ n.proper
  /-- Names. -/
  naming : ∀ j, m.naming j + (if e.inum = j then 1 else 0) = n.naming j
  /-- Subdirectories. -/
  subdirs : m.subdirs + (if e.type = .dir then 1 else 0) = n.subdirs

theorem Counted.cleared (counted : Counted t extra deficit) {d : Nat} (dir : (t d).type = .dir)
    {name : Path} (not_dot : name ≠ dot) (not_dotdot : name ≠ dotdot) {k : Nat}
    (found : findEntry (t d).entries name = some k) {m : Node}
    (entries : m.entries = (t d).entries.set k Dirent.none) :
    ∃ e, e.inum = inumAt (t d).entries k ∧ e.inum ≠ 0 ∧ Cleared (t d) m e := by
  obtain ⟨up, rest, up_ne, old⟩ := counted.dots d dir
  obtain ⟨k_lt, used, name_eq⟩ := findEntry_some found
  have behind : 2 ≤ k := by
    by_contra first
    obtain rfl | rfl : k = 0 ∨ k = 1 := by omega
    · refine not_dot (name_eq.symm.trans ?_)
      simp [old]
    · refine not_dotdot (name_eq.symm.trans ?_)
      simp [old]
  obtain ⟨l, rfl⟩ : ∃ l, k = l + 2 := ⟨k - 2, by omega⟩
  have proper_t : (t d).proper = rest := by
    rw [Node.proper, old]
    rfl
  have l_lt : l < rest.length := by
    rw [old] at k_lt
    simpa using k_lt
  have entry : (t d).entries[l + 2] = rest[l] := by simp [old]
  have cleared : m.entries =
      ⟨d, .dir, dot⟩ :: ⟨up, .dir, dotdot⟩ :: rest.set l Dirent.none := by
    rw [entries, old]
    rfl
  have proper_m : m.proper = rest.set l Dirent.none := by
    rw [Node.proper, cleared]
    rfl
  rw [entry] at used
  refine ⟨rest[l], by rw [inumAt_eq k_lt, entry], used, ?_, ?_, ?_, ?_, ?_⟩
  · rw [cleared, old]
    rfl
  · intro other mem other_used
    rw [proper_m] at mem
    rw [proper_t]
    exact mem_set_none mem other_used
  · rw [proper_t]
    exact List.getElem_mem l_lt
  · intro j
    rw [Node.naming, Node.naming, proper_m, proper_t,
      ← countP_set_none (by simp [Dirent.none]) l_lt]
    simp [used]
  · rw [Node.subdirs, Node.subdirs, proper_m, proper_t,
      ← countP_set_none (by simp [Dirent.none]) l_lt]
    simp [used]

theorem Counted.names_free (counted : Counted t extra deficit) {i : Nat}
    (free : (t i).type = .free) : names t i = 0 := by
  by_contra some
  obtain ⟨d, -, e, mem, used, rfl⟩ := exists_naming (Nat.pos_of_ne_zero some)
  obtain ⟨-, type_eq, allocated, -⟩ := counted.named d e mem used
  exact allocated (type_eq.symm.trans free)

/-! ## Instances -/

/-- A new inode that is not a directory gets its first name. -/
theorem Counted.addPlain (counted : Counted t extra deficit) {i d : Nat} {n m : Node} {name : Path}
    (i_pos : 0 < i) (i_lt : i < ninodes) (free : (t i).type = .free) (dir : (t d).type = .dir)
    (allocated : n.type ≠ .free) (plain : n.type ≠ .dir) (entries : n.entries = [])
    (links : n.nlink = 1) (m_dir : m.type = .dir) (m_links : m.nlink = (t d).nlink)
    (m_entries : m.entries = placeEntry (t d).entries ⟨i, n.type, name⟩) :
    Counted (Function.update (Function.update t i n) d m) (Function.update extra i 0) deficit ∧
      (Tidy t → Linked t d → Tidy (Function.update (Function.update t i n) d m)) := by
  have not_root : i ≠ rootIno := by
    rintro rfl
    exact absurd (free.symm.trans counted.root.1) (by decide)
  have apart : i ≠ d := by
    rintro rfl
    exact absurd (free.symm.trans dir) (by decide)
  have placed := counted.placed dir (e := ⟨i, n.type, name⟩) (by simpa using i_pos.ne') m_entries
  have unnamed := counted.names_free free
  have d_lt := (counted.bounded d (by rw [dir]; decide)).2
  have unnamed_d := naming_le_names t d_lt i
  have own : n.proper = (t i).proper := by
    rw [Node.proper, Node.proper, entries, counted.plain i (by rw [free]; decide)]
  have subdirs := placed.subdirs
  simp only [plain, if_false, Nat.add_zero] at subdirs
  have naming : ∀ j, j ≠ i → m.naming j = (t d).naming j := by
    intro j differ
    rw [placed.naming, if_neg differ.symm, Nat.add_zero]
  have count : 1 + (t d).naming i = names t i + m.naming i := by
    rw [placed.naming, if_pos rfl]
    omega
  constructor
  · refine counted.edit i_pos i_lt not_root apart dir own (Or.inl free) count ?_ ?_ ?_
      fun _ _ _ => rfl
    · refine ⟨allocated, fun _ => entries, fun is_dir => absurd is_dir plain, ?_, ?_,
        fun is_dir => absurd is_dir plain, fun is_dir => absurd is_dir plain,
        fun is_dir => absurd is_dir plain⟩
      · intro e mem used is_i
        obtain rfl | old := placed.mem e mem
        · exact ⟨rfl, fun is_dir => absurd is_dir plain⟩
        · have := naming_pos old used
          rw [is_i] at this
          omega
      · intro _
        rw [links, Function.update_self]
        rfl
    · refine ⟨m_dir, placed.dots, ?_, naming, ?_, ?_⟩
      · intro e mem used differ
        obtain rfl | old := placed.mem e mem
        · exact absurd rfl differ
        · exact old
      · intro linked
        rw [m_links, subdirs]
        exact counted.linkedLinks d dir linked
      · intro removed
        rw [m_links, subdirs]
        exact counted.removedLinks d dir removed
    · intro j differ
      exact Function.update_of_ne differ _ _
  · intro tidy linked
    exact tidy.edit apart dir (names_edit i_lt d_lt apart own naming count)
      (fun is_dir => absurd is_dir plain) (Or.inl linked)

/-- A new directory gets its name. -/
theorem Counted.addDir (counted : Counted t extra deficit) {i d : Nat} {n m : Node} {name : Path}
    (i_pos : 0 < i) (i_lt : i < ninodes) (free : (t i).type = .free) (dir : (t d).type = .dir)
    (n_dir : n.type = .dir) (entries : n.entries = [⟨i, .dir, dot⟩, ⟨d, .dir, dotdot⟩])
    (links : n.nlink = 1) (m_dir : m.type = .dir)
    (m_entries : m.entries = placeEntry (t d).entries ⟨i, .dir, name⟩)
    (m_linked : Linked t d →
      m.nlink + deficit' d = (t d).nlink + deficit d + 1 ∧ (t d).nlink ≤ m.nlink)
    (m_removed : ¬Linked t d → m.nlink = (t d).nlink + 1) (deficit_i : deficit' i = 0)
    (deficit_eq : ∀ j, j ≠ i → j ≠ d → deficit' j = deficit j) :
    Counted (Function.update (Function.update t i n) d m) extra deficit' ∧
      (Tidy t → Linked t d → Tidy (Function.update (Function.update t i n) d m)) := by
  have not_root : i ≠ rootIno := by
    rintro rfl
    exact absurd (free.symm.trans counted.root.1) (by decide)
  have apart : i ≠ d := by
    rintro rfl
    exact absurd (free.symm.trans dir) (by decide)
  have d_ne : d ≠ 0 := Nat.pos_iff_ne_zero.mp (counted.bounded d (by rw [dir]; decide)).1
  have placed := counted.placed dir (e := ⟨i, .dir, name⟩) (by simpa using i_pos.ne') m_entries
  have unnamed := counted.names_free free
  have d_lt := (counted.bounded d (by rw [dir]; decide)).2
  have unnamed_d := naming_le_names t d_lt i
  have own : n.proper = (t i).proper := by
    rw [Node.proper, Node.proper, entries, counted.plain i (by rw [free]; decide)]
    rfl
  have no_subdirs : n.subdirs = 0 := by
    rw [Node.subdirs, Node.proper, entries]
    rfl
  have subdirs := placed.subdirs
  simp only [if_true] at subdirs
  have naming : ∀ j, j ≠ i → m.naming j = (t d).naming j := by
    intro j differ
    rw [placed.naming, if_neg differ.symm, Nat.add_zero]
  have count : 1 + (t d).naming i = names t i + m.naming i := by
    rw [placed.naming, if_pos rfl]
    omega
  constructor
  · refine counted.edit i_pos i_lt not_root apart dir own (Or.inl free) count ?_ ?_
      (fun _ _ => rfl) deficit_eq
    · refine ⟨by rw [n_dir]; decide, fun plain => absurd n_dir plain,
        fun _ => ⟨d, [], d_ne, entries⟩, ?_, fun plain => absurd n_dir plain, fun _ => le_rfl,
        fun _ _ => ?_, fun _ zero => absurd zero (by decide)⟩
      · intro e mem used is_i
        obtain rfl | old := placed.mem e mem
        · refine ⟨n_dir, fun _ => ?_⟩
          rw [Node.up, entries]
          rfl
        · have := naming_pos old used
          rw [is_i] at this
          omega
      · rw [links, deficit_i, no_subdirs]
        simp
    · refine ⟨m_dir, placed.dots, ?_, naming, ?_, ?_⟩
      · intro e mem used differ
        obtain rfl | old := placed.mem e mem
        · exact absurd rfl differ
        · exact old
      · intro linked
        have := counted.linkedLinks d dir linked
        have := m_linked linked
        rw [subdirs]
        push_cast
        omega
      · intro removed
        have := counted.removedLinks d dir removed
        have := m_removed removed
        rw [subdirs]
        push_cast
        omega
  · intro tidy linked
    exact tidy.edit apart dir (names_edit i_lt d_lt apart own naming count)
      (fun _ zero => absurd zero (by decide)) (Or.inl linked)

/-- An inode that is not a directory gets another name, for one of its extra links. -/
theorem Counted.addName (counted : Counted t extra deficit) {i d : Nat} {m : Node} {name : Path}
    (allocated : (t i).type ≠ .free) (plain : (t i).type ≠ .dir) (dir : (t d).type = .dir)
    (more : 1 ≤ extra i) (m_dir : m.type = .dir) (m_links : m.nlink = (t d).nlink)
    (m_entries : m.entries = placeEntry (t d).entries ⟨i, (t i).type, name⟩) :
    Counted (Function.update t d m) (Function.update extra i (extra i - 1)) deficit ∧
      (Tidy t → Linked t d → Tidy (Function.update t d m)) := by
  obtain ⟨i_pos, i_lt⟩ := counted.bounded i allocated
  have not_root : i ≠ rootIno := by
    rintro rfl
    exact plain counted.root.1
  have apart : i ≠ d := by
    rintro rfl
    exact plain dir
  have placed := counted.placed dir (e := ⟨i, (t i).type, name⟩) (by simpa using i_pos.ne')
    m_entries
  have links := counted.plainLinks i allocated plain
  have subdirs := placed.subdirs
  simp only [plain, if_false, Nat.add_zero] at subdirs
  have naming : ∀ j, j ≠ i → m.naming j = (t d).naming j := by
    intro j differ
    rw [placed.naming, if_neg differ.symm, Nat.add_zero]
  have count : names t i + 1 + (t d).naming i = names t i + m.naming i := by
    rw [placed.naming, if_pos rfl]
    omega
  have d_lt := (counted.bounded d (by rw [dir]; decide)).2
  have same : Function.update t d m = Function.update (Function.update t i (t i)) d m := by
    rw [Function.update_eq_self]
  rw [same]
  constructor
  · refine counted.edit i_pos i_lt not_root apart dir rfl
      (Or.inr ⟨rfl, rfl⟩) count ?_ ?_ (fun j differ => Function.update_of_ne differ _ _)
      fun _ _ _ => rfl
    · refine ⟨allocated, fun _ => counted.plain i plain, fun is_dir => absurd is_dir plain, ?_, ?_,
        fun is_dir => absurd is_dir plain, fun is_dir => absurd is_dir plain,
        fun is_dir => absurd is_dir plain⟩
      · intro e mem used is_i
        obtain rfl | old := placed.mem e mem
        · exact ⟨rfl, fun is_dir => absurd is_dir plain⟩
        · obtain ⟨-, type_eq, -⟩ := counted.named d e old used
          rw [is_i] at type_eq
          exact ⟨type_eq, fun is_dir => absurd (type_eq.trans is_dir) plain⟩
      · intro _
        rw [links, Function.update_self]
        push_cast [Nat.cast_sub more]
        ring
    · refine ⟨m_dir, placed.dots, ?_, naming, ?_, ?_⟩
      · intro e mem used differ
        obtain rfl | old := placed.mem e mem
        · exact absurd rfl differ
        · exact old
      · intro linked
        rw [m_links, subdirs]
        exact counted.linkedLinks d dir linked
      · intro removed
        rw [m_links, subdirs]
        exact counted.removedLinks d dir removed
  · intro tidy linked
    exact tidy.edit apart dir (names_edit i_lt d_lt apart rfl naming count)
      (fun is_dir => absurd is_dir plain) (Or.inl linked)

/-- An inode that is not a directory changes its links outside the tree. -/
theorem Counted.relink (counted : Counted t extra deficit) {i : Nat} {n : Node} {e : Nat}
    (i_pos : 0 < i) (i_lt : i < ninodes) (plain : (t i).type ≠ .dir)
    (kept : (t i).type = .free ∨ n.type = (t i).type) (n_plain : n.type ≠ .dir)
    (entries : n.entries = []) (links : n.nlink = names t i + e) :
    Counted (Function.update t i n) (Function.update extra i e) deficit := by
  have other : ∀ {j}, j ≠ i → Function.update t i n j = t j :=
    fun differ => Function.update_of_ne differ _ _
  have lists : ∀ j, (Function.update t i n j).entries = (t j).entries := by
    intro j
    by_cases same : j = i
    · rw [same, Function.update_self, entries, counted.plain i plain]
    · rw [other same]
  have proper : ∀ d, (Function.update t i n d).proper = (t d).proper := by
    intro d
    rw [Node.proper, Node.proper, lists]
  have same_names : ∀ j, names (Function.update t i n) j = names t j := names_congr lists
  have dir_same : ∀ {d}, (Function.update t i n d).type = .dir → Function.update t i n d = t d := by
    intro d dir
    refine other ?_
    rintro rfl
    rw [Function.update_self] at dir
    exact n_plain dir
  refine ⟨?_, ?_, ?_, ?_, ?_, ?_, ?_, ?_, ?_⟩
  · intro j allocated
    by_cases same : j = i
    · exact same ▸ ⟨i_pos, i_lt⟩
    · rw [other same] at allocated
      exact counted.bounded j allocated
  · intro j plain_j
    by_cases same : j = i
    · rw [same, Function.update_self, entries]
    · rw [other same] at plain_j ⊢
      exact counted.plain j plain_j
  · intro d dir
    have same := dir_same dir
    rw [same] at dir ⊢
    exact counted.dots d dir
  · intro d e mem used
    rw [proper] at mem
    have entry := counted.named d e mem used
    rw [Node.up, lists]
    refine ⟨entry.1, ?_, entry.2.2⟩
    by_cases same : e.inum = i
    · rw [same, Function.update_self]
      rw [same] at entry
      obtain free | type_eq := kept
      · exact absurd (entry.2.1.symm.trans free) entry.2.2.1
      · exact type_eq.trans entry.2.1
    · rw [other same]
      exact entry.2.1
  · have not_root : rootIno ≠ i := by
      rintro rfl
      exact plain counted.root.1
    rw [other not_root]
    exact counted.root
  · intro j allocated plain_j
    rw [same_names]
    by_cases same : j = i
    · rw [same, Function.update_self, Function.update_self]
      exact links
    · rw [other same] at allocated plain_j ⊢
      rw [Function.update_of_ne same]
      exact counted.plainLinks j allocated plain_j
  · intro d dir
    rw [dir_same dir] at dir
    rw [same_names]
    exact counted.single d dir
  · intro d dir linked
    have same := dir_same dir
    rw [same] at dir ⊢
    exact counted.linkedLinks d dir ((Linked.congr same_names).mp linked)
  · intro d dir removed
    have same := dir_same dir
    rw [same] at dir ⊢
    exact counted.removedLinks d dir ((Linked.congr same_names).not.mp removed)

/-- An inode that is not a directory loses a name and the link for it. -/
theorem Counted.dropName (counted : Counted t extra deficit) {i d : Nat} {n m : Node} {name : Path}
    {k : Nat} (dir : (t d).type = .dir) (not_dot : name ≠ dot) (not_dotdot : name ≠ dotdot)
    (found : findEntry (t d).entries name = some k) (is_i : inumAt (t d).entries k = i)
    (plain : (t i).type ≠ .dir) (n_type : n.type = (t i).type)
    (n_entries : n.entries = (t i).entries) (n_links : n.nlink = (t i).nlink - 1)
    (m_dir : m.type = .dir) (m_links : m.nlink = (t d).nlink)
    (m_entries : m.entries = (t d).entries.set k Dirent.none) :
    Counted (Function.update (Function.update t i n) d m) extra deficit ∧
      (Tidy t → Tidy (Function.update (Function.update t i n) d m)) := by
  obtain ⟨e, e_inum, used, cleared⟩ := counted.cleared dir not_dot not_dotdot found m_entries
  have e_i : e.inum = i := e_inum.trans is_i
  obtain ⟨e_root, type_eq, e_alloc, -⟩ := counted.named d e cleared.old used
  rw [e_i] at e_root type_eq
  have allocated : (t i).type ≠ .free := type_eq ▸ e_alloc
  obtain ⟨i_pos, i_lt⟩ := counted.bounded i allocated
  have d_lt := (counted.bounded d (by rw [dir]; decide)).2
  have apart : i ≠ d := by
    rintro rfl
    exact plain dir
  have own : n.proper = (t i).proper := by rw [Node.proper, Node.proper, n_entries]
  have naming_i := cleared.naming i
  rw [if_pos e_i] at naming_i
  have named := naming_le_names t d_lt i
  have links := counted.plainLinks i allocated plain
  have subdirs := cleared.subdirs
  rw [if_neg (by rwa [← type_eq]), Nat.add_zero] at subdirs
  have naming : ∀ j, j ≠ i → m.naming j = (t d).naming j := by
    intro j differ
    have := cleared.naming j
    rwa [if_neg (by rw [e_i]; exact differ.symm), Nat.add_zero] at this
  have count : names t i - 1 + (t d).naming i = names t i + m.naming i := by omega
  constructor
  · refine counted.edit i_pos i_lt e_root apart dir own
      (Or.inr ⟨n_type, by rw [Node.up, Node.up, n_entries]⟩) count ?_ ?_ (fun _ _ => rfl)
      fun _ _ _ => rfl
    · refine ⟨by rwa [n_type], fun _ => by rw [n_entries, counted.plain i plain],
        fun is_dir => absurd (n_type.symm.trans is_dir) plain, ?_, ?_,
        fun is_dir => absurd (n_type.symm.trans is_dir) plain,
        fun is_dir => absurd (n_type.symm.trans is_dir) plain,
        fun is_dir => absurd (n_type.symm.trans is_dir) plain⟩
      · intro other mem other_used other_i
        obtain ⟨-, other_type, -⟩ := counted.named d other (cleared.mem other mem other_used)
          other_used
        rw [other_i] at other_type
        exact ⟨n_type.trans other_type, fun is_dir => absurd (other_type.trans is_dir) plain⟩
      · intro _
        rw [n_links, links]
        omega
    · refine ⟨m_dir, cleared.dots, fun other mem other_used _ => cleared.mem other mem other_used,
        naming, ?_, ?_⟩
      · rw [m_links, subdirs]
        exact counted.linkedLinks d dir
      · rw [m_links, subdirs]
        exact counted.removedLinks d dir
  · intro tidy
    exact tidy.edit apart dir (names_edit i_lt d_lt apart own naming count)
      (fun is_dir => absurd (n_type.symm.trans is_dir) plain) (Or.inr cleared.mem)

/-- An empty directory loses its name. The directory above it loses a link and must keep one, unless
it has no name itself. -/
theorem Counted.dropDir (counted : Counted t extra deficit) {i d : Nat} {n m : Node} {name : Path}
    {k : Nat} (dir : (t d).type = .dir) (not_dot : name ≠ dot) (not_dotdot : name ≠ dotdot)
    (found : findEntry (t d).entries name = some k) (is_i : inumAt (t d).entries k = i)
    (i_dir : (t i).type = .dir) (empty : isdirempty (t i) = true) (n_dir : n.type = .dir)
    (n_entries : n.entries = (t i).entries) (n_links : n.nlink = (t i).nlink - 1)
    (m_dir : m.type = .dir) (m_links : m.nlink = (t d).nlink - 1)
    (m_entries : m.entries = (t d).entries.set k Dirent.none)
    (enough : Linked t d → 2 ≤ (t d).nlink) :
    i ≠ d ∧ n.nlink = 0 ∧
      Counted (Function.update (Function.update t i n) d m) extra deficit ∧
      (Tidy t → Tidy (Function.update (Function.update t i n) d m)) := by
  obtain ⟨e, e_inum, used, cleared⟩ := counted.cleared dir not_dot not_dotdot found m_entries
  have e_i : e.inum = i := e_inum.trans is_i
  obtain ⟨e_root, type_eq, -, -⟩ := counted.named d e cleared.old used
  rw [e_i] at e_root type_eq
  rw [i_dir] at type_eq
  have none : ∀ other ∈ (t i).proper, other.inum = 0 := by
    intro other mem
    simpa using List.all_eq_true.mp empty other mem
  have apart : i ≠ d := by
    rintro rfl
    exact used (none e cleared.old)
  obtain ⟨i_pos, i_lt⟩ := counted.bounded i (by rw [i_dir]; decide)
  have d_lt := (counted.bounded d (by rw [dir]; decide)).2
  have own : n.proper = (t i).proper := by rw [Node.proper, Node.proper, n_entries]
  have naming_i := cleared.naming i
  rw [if_pos e_i] at naming_i
  have named := naming_le_names t d_lt i
  have single := counted.single i i_dir
  have childless : (t i).subdirs = 0 := by
    rw [Node.subdirs, List.countP_eq_zero]
    intro other mem
    simp [none other mem]
  have childless_n : n.subdirs = 0 := by rwa [Node.subdirs, own]
  obtain ⟨links, links_pos⟩ := counted.linkedLinks i i_dir (Or.inr (by omega))
  have zero : n.nlink = 0 := by omega
  have subdirs := cleared.subdirs
  rw [if_pos type_eq.symm] at subdirs
  have naming : ∀ j, j ≠ i → m.naming j = (t d).naming j := by
    intro j differ
    have := cleared.naming j
    rwa [if_neg (by rw [e_i]; exact differ.symm), Nat.add_zero] at this
  have count : 0 + (t d).naming i = names t i + m.naming i := by omega
  refine ⟨apart, zero, ?_, ?_⟩
  · refine counted.edit i_pos i_lt e_root apart dir own
      (Or.inr ⟨n_dir.trans i_dir.symm, by rw [Node.up, Node.up, n_entries]⟩) count ?_ ?_
      (fun _ _ => rfl) fun _ _ _ => rfl
    · refine ⟨by rw [n_dir]; decide, fun plain => absurd n_dir plain,
        fun _ => by rw [n_entries]; exact counted.dots i i_dir, ?_,
        fun plain => absurd n_dir plain, fun _ => by omega, fun _ pos => absurd pos (by omega),
        fun _ _ => by rw [zero, childless_n]; rfl⟩
      intro other mem other_used other_i
      have pos := naming_pos mem other_used
      rw [other_i] at pos
      omega
    · refine ⟨m_dir, cleared.dots, fun other mem other_used _ => cleared.mem other mem other_used,
        naming, ?_, ?_⟩
      · intro linked
        have := counted.linkedLinks d dir linked
        have := enough linked
        omega
      · intro removed
        have := counted.removedLinks d dir removed
        omega
  · intro tidy
    refine tidy.edit apart dir (names_edit i_lt d_lt apart own naming count) ?_
      (Or.inr cleared.mem)
    intro _ _
    rw [own]
    exact none

end Dir
end Xv6Duo
