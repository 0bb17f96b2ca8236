import Xv6Duo.Dir.Counts
import Mathlib.Data.Multiset.Count

/-!
# Sound link counts

The invariant of the directory tree. Every inode that is not a directory has `extra` links more than
names, every directory with a name has `deficit` links fewer than one plus its subdirectories, and a
directory without a name has one link for each subdirectory. The inode table counts the references
of the processes, `base`, and those of the running call, `held`. Dropping a reference may free an
inode that nothing names.
-/

namespace Xv6Duo
namespace Dir

/-- The fields of an inode that the tree is made of. -/
structure SameData (m n : Node) : Prop where
  /-- Type. -/
  type : n.type = m.type
  /-- Link count, unless the inode is free. -/
  nlink : m.type ≠ .free → n.nlink = m.nlink
  /-- Entries. -/
  entries : n.entries = m.entries

theorem SameData.refl (n : Node) : SameData n n := ⟨rfl, fun _ => rfl, rfl⟩

theorem SameData.trans {l m n : Node} (first : SameData l m) (second : SameData m n) :
    SameData l n :=
  ⟨second.type.trans first.type,
    fun allocated => (second.nlink (first.type ▸ allocated)).trans (first.nlink allocated),
    second.entries.trans first.entries⟩

theorem SameData.proper {m n : Node} (same : SameData m n) : n.proper = m.proper := by
  rw [Node.proper, Node.proper, same.entries]

theorem SameData.subdirs {m n : Node} (same : SameData m n) : n.subdirs = m.subdirs := by
  rw [Node.subdirs, Node.subdirs, same.proper]

theorem SameData.up {m n : Node} (same : SameData m n) : n.up = m.up := by
  rw [Node.up, Node.up, same.entries]

/-- Link counts agree with the entries. -/
structure Counted (t : Nodes) (extra deficit : Nat → Nat) : Prop where
  /-- Allocated inodes have numbers of the table. -/
  bounded : ∀ i, (t i).type ≠ .free → 0 < i ∧ i < ninodes
  /-- Only directories have entries. -/
  plain : ∀ i, (t i).type ≠ .dir → (t i).entries = []
  /-- A directory starts with `.` and `..`. -/
  dots : ∀ d, (t d).type = .dir → ∃ up rest, up ≠ 0 ∧
    (t d).entries = ⟨d, .dir, dot⟩ :: ⟨up, .dir, dotdot⟩ :: rest
  /-- A proper entry names an allocated inode of its type; if that is a directory, its `..` names
  the directory of the entry. -/
  named : ∀ d e, e ∈ (t d).proper → e.inum ≠ 0 → e.inum ≠ rootIno ∧
    (t e.inum).type = e.type ∧ e.type ≠ .free ∧ (e.type = .dir → (t e.inum).up = d)
  /-- The root is a directory above itself. -/
  root : (t rootIno).type = .dir ∧ (t rootIno).up = rootIno
  /-- Other inodes have a link for each name, and the extra ones. -/
  plainLinks : ∀ i, (t i).type ≠ .free → (t i).type ≠ .dir →
    (t i).nlink = names t i + extra i
  /-- A directory has at most one name. -/
  single : ∀ d, (t d).type = .dir → names t d ≤ 1
  /-- A directory with a name has a link for it and for each subdirectory, less the missing ones. -/
  linkedLinks : ∀ d, (t d).type = .dir → Linked t d →
    (t d).nlink + deficit d = 1 + (t d).subdirs ∧ 1 ≤ (t d).nlink
  /-- A directory without a name has a link for each subdirectory. -/
  removedLinks : ∀ d, (t d).type = .dir → ¬Linked t d → (t d).nlink = (t d).subdirs

/-- The inode table counts references. -/
structure Referenced (t : Nodes) (base : Nat → Nat) (held : Multiset Nat) : Prop where
  /-- Those of processes and those of the call. -/
  ref : ∀ i, (t i).ref = base i + held.count i
  /-- No process refers to a free inode. -/
  idle : ∀ i, (t i).type = .free → base i = 0
  /-- An inode without links is in the table. -/
  alive : ∀ i, (t i).type ≠ .free → (t i).nlink = 0 → 0 < (t i).ref ∧ (t i).valid = true
  /-- A free inode is not read. -/
  unread : ∀ i, (t i).type = .free → 0 < (t i).ref → (t i).valid = false

/-- The invariant. -/
structure Sound (t : Nodes) (base : Nat → Nat) (held : Multiset Nat) (extra deficit : Nat → Nat) :
    Prop extends Counted t extra deficit, Referenced t base held

/-- Directories without a name are empty. -/
def Tidy (t : Nodes) : Prop :=
  ∀ d, (t d).type = .dir → ¬Linked t d → ∀ e ∈ (t d).proper, e.inum = 0

/-- What dropping references leaves alone: inodes with links, and in a tidy tree all names. -/
structure Settles (t u : Nodes) (extra extra' : Nat → Nat) : Prop where
  /-- Inodes that stay allocated do not change. -/
  stays : ∀ i, (u i).type ≠ .free → SameData (t i) (u i)
  /-- Inodes with links do not change. -/
  data : ∀ i, (t i).type ≠ .free → (t i).nlink ≠ 0 → SameData (t i) (u i)
  /-- No name appears. -/
  names_le : ∀ i, names u i ≤ names t i
  /-- In a tidy tree no name goes away. -/
  tidy : Tidy t → Tidy u ∧ extra' = extra ∧ ∀ i, names u i = names t i

variable {t u : Nodes} {base extra extra' deficit : Nat → Nat} {held : Multiset Nat}

/-! ## Changes outside the tree -/

theorem Linked.congr (same : ∀ i, names u i = names t i) {i : Nat} : Linked u i ↔ Linked t i := by
  rw [Linked, Linked, same]

theorem names_of_same (same : ∀ i, SameData (t i) (u i)) (i : Nat) : names u i = names t i :=
  names_congr (fun d => (same d).entries) i

theorem Counted.congr (counted : Counted t extra deficit) (same : ∀ i, SameData (t i) (u i)) :
    Counted u extra deficit := by
  have same_names := names_of_same same
  refine ⟨?_, ?_, ?_, ?_, ?_, ?_, ?_, ?_, ?_⟩
  · intro i
    rw [(same i).type]
    exact counted.bounded i
  · intro i
    rw [(same i).type, (same i).entries]
    exact counted.plain i
  · intro d
    rw [(same d).type, (same d).entries]
    exact counted.dots d
  · intro d e
    rw [(same d).proper, (same e.inum).type, (same e.inum).up]
    exact counted.named d e
  · rw [(same rootIno).type, (same rootIno).up]
    exact counted.root
  · intro i
    rw [(same i).type, same_names]
    intro allocated plain
    rw [(same i).nlink allocated]
    exact counted.plainLinks i allocated plain
  · intro d
    rw [(same d).type, same_names]
    exact counted.single d
  · intro d
    rw [(same d).type, (same d).subdirs, Linked.congr same_names]
    intro dir linked
    rw [(same d).nlink (by rw [dir]; decide)]
    exact counted.linkedLinks d dir linked
  · intro d
    rw [(same d).type, (same d).subdirs, Linked.congr same_names]
    intro dir removed
    rw [(same d).nlink (by rw [dir]; decide)]
    exact counted.removedLinks d dir removed

theorem Tidy.congr (tidy : Tidy t) (same : ∀ i, SameData (t i) (u i)) : Tidy u := by
  intro d
  rw [(same d).type, (same d).proper, Linked.congr (names_of_same same)]
  exact tidy d

theorem Settles.of_same (same : ∀ i, SameData (t i) (u i)) : Settles t u extra extra where
  stays i _ := same i
  data i _ _ := same i
  names_le i := (names_of_same same i).le
  tidy tidy := ⟨tidy.congr same, rfl, names_of_same same⟩

theorem Settles.trans {x : Nodes} {extra'' : Nat → Nat} (first : Settles t u extra extra')
    (second : Settles u x extra' extra'') : Settles t x extra extra'' where
  stays i allocated := by
    have same := second.stays i allocated
    exact (first.stays i (same.type ▸ allocated)).trans same
  data i allocated links := by
    have same := first.data i allocated links
    exact same.trans
      (second.data i (same.type ▸ allocated) ((same.nlink allocated).symm ▸ links))
  names_le i := (second.names_le i).trans (first.names_le i)
  tidy tidy := by
    obtain ⟨tidy_u, extra_u, names_u⟩ := first.tidy tidy
    obtain ⟨tidy_x, extra_x, names_x⟩ := second.tidy tidy_u
    exact ⟨tidy_x, extra_x.trans extra_u, fun i => (names_x i).trans (names_u i)⟩

/-- One inode is replaced by one with the same data. -/
theorem sameData_update {i : Nat} {n : Node} (same : SameData (t i) n) (j : Nat) :
    SameData (t j) (Function.update t i n j) := by
  by_cases eq : j = i
  · subst eq
    rwa [Function.update_self]
  · rw [Function.update_of_ne eq]
    exact SameData.refl _

/-! ## References -/

theorem iget_same (t : Nodes) (i j : Nat) : SameData (t j) (iget t i j) := by
  rw [iget]
  split
  · refine sameData_update ?_ j
    exact ⟨rfl, fun _ => rfl, rfl⟩
  · refine sameData_update ?_ j
    exact ⟨rfl, fun _ => rfl, rfl⟩

theorem idup_same (t : Nodes) (i j : Nat) : SameData (t j) (idup t i j) := by
  refine sameData_update ?_ j
  exact ⟨rfl, fun _ => rfl, rfl⟩

theorem iget_ref (t : Nodes) (i j : Nat) :
    (iget t i j).ref = (t j).ref + if j = i then 1 else 0 := by
  rw [iget]
  by_cases same : j = i
  · subst same
    split
    · next zero => simp [zero]
    · simp
  · split <;> simp [same]

theorem iget_sound (sound : Sound t base held extra deficit) (i : Nat) :
    Sound (iget t i) base (i ::ₘ held) extra deficit where
  toCounted := sound.toCounted.congr (iget_same t i)
  ref j := by
    rw [iget_ref, sound.ref, Multiset.count_cons]
    omega
  idle j free := sound.idle j ((iget_same t i j).type ▸ free)
  alive j allocated zero := by
    rw [(iget_same t i j).type] at allocated
    rw [(iget_same t i j).nlink allocated] at zero
    obtain ⟨ref, valid⟩ := sound.alive j allocated zero
    rw [iget_ref]
    refine ⟨by omega, ?_⟩
    rw [iget]
    by_cases same : j = i
    · subst same
      rw [if_neg (by omega), Function.update_self]
      exact valid
    · split <;> rw [Function.update_of_ne same] <;> exact valid
  unread j free ref := by
    rw [(iget_same t i j).type] at free
    rw [iget_ref] at ref
    rw [iget]
    by_cases same : j = i
    · subst same
      split
      · rw [Function.update_self]
      · next used =>
          rw [Function.update_self]
          exact sound.unread j free (Nat.pos_of_ne_zero used)
    · rw [if_neg same] at ref
      split <;> rw [Function.update_of_ne same] <;> exact sound.unread j free ref

theorem idup_sound (sound : Sound t base held extra deficit) {i : Nat}
    (allocated : (t i).type ≠ .free) :
    Sound (idup t i) base (i ::ₘ held) extra deficit where
  toCounted := sound.toCounted.congr (idup_same t i)
  ref j := by
    rw [Multiset.count_cons, idup]
    by_cases same : j = i
    · subst same
      rw [Function.update_self, if_pos rfl]
      simp only [sound.ref]
      omega
    · rw [Function.update_of_ne same, if_neg same, sound.ref, Nat.add_zero]
  idle j free := sound.idle j ((idup_same t i j).type ▸ free)
  alive j allocated zero := by
    rw [(idup_same t i j).type] at allocated
    rw [(idup_same t i j).nlink allocated] at zero
    obtain ⟨ref, valid⟩ := sound.alive j allocated zero
    rw [idup]
    by_cases same : j = i
    · subst same
      rw [Function.update_self]
      exact ⟨by simp, valid⟩
    · rw [Function.update_of_ne same]
      exact ⟨ref, valid⟩
  unread j free ref := by
    rw [(idup_same t i j).type] at free
    have differ : j ≠ i := by
      rintro rfl
      exact allocated free
    rw [idup, Function.update_of_ne differ] at ref ⊢
    exact sound.unread j free ref

/-- `ilock` leaves the data and the references, and finds the inode allocated or read before. -/
theorem ilock_spec {i : Nat} (run : ilock t i = .ok u) :
    (∀ j, SameData (t j) (u j)) ∧ (∀ j, (u j).ref = (t j).ref) ∧ (u i).valid = true ∧
      0 < (u i).ref ∧ ∀ j, (t j).valid = true → (u j).valid = true := by
  rw [ilock] at run
  split at run
  · simp at run
  · next ref =>
      split at run
      · next valid =>
          obtain rfl : t = u := by simpa using run
          exact ⟨fun j => SameData.refl _, fun _ => rfl, valid, by omega, fun _ => id⟩
      · split at run
        · simp at run
        · obtain rfl : _ = u := by simpa using run
          refine ⟨sameData_update ⟨rfl, fun _ => rfl, rfl⟩, fun j => ?_, ?_, ?_, fun j valid => ?_⟩
          · by_cases same : j = i
            · subst same
              rw [Function.update_self]
            · rw [Function.update_of_ne same]
          · rw [Function.update_self]
          · rw [Function.update_self]
            exact Nat.pos_of_ne_zero ref
          · by_cases same : j = i
            · subst same
              rw [Function.update_self]
            · rwa [Function.update_of_ne same]

theorem ilock_other {i j : Nat} (run : ilock t i = .ok u) (differ : j ≠ i) : u j = t j := by
  rw [ilock] at run
  split at run
  · simp at run
  · split at run
    · obtain rfl : t = u := by simpa using run
      rfl
    · split at run
      · simp at run
      · obtain rfl : _ = u := by simpa using run
        rw [Function.update_of_ne differ]

/-- The inode that `ilock` locks is allocated. -/
theorem ilock_allocated (sound : Sound t base held extra deficit) {i : Nat}
    (run : ilock t i = .ok u) : (u i).type ≠ .free := by
  intro free
  rw [((ilock_spec run).1 i).type] at free
  rw [ilock] at run
  split at run
  · simp at run
  · next ref =>
      have unread := sound.unread i free (Nat.pos_of_ne_zero ref)
      simp [unread] at run

theorem ilock_sound (sound : Sound t base held extra deficit) {i : Nat}
    (run : ilock t i = .ok u) : Sound u base held extra deficit := by
  have locked := ilock_allocated sound run
  obtain ⟨same, refs, -, -, valid⟩ := ilock_spec run
  refine ⟨sound.toCounted.congr same, ?_⟩
  refine ⟨fun j => (refs j).trans (sound.ref j), fun j => ?_, fun j => ?_, fun j free ref => ?_⟩
  · rw [(same j).type]
    exact sound.idle j
  · rw [(same j).type, refs j]
    intro allocated zero
    rw [(same j).nlink allocated] at zero
    obtain ⟨ref, was_valid⟩ := sound.alive j allocated zero
    exact ⟨ref, valid j was_valid⟩
  · have differ : j ≠ i := by
      rintro rfl
      exact locked free
    rw [ilock_other run differ] at free ref ⊢
    exact sound.unread j free ref

/-! ## Freeing an inode -/

/-- An inode after `iput` has freed it. -/
def Node.freed (n : Node) : Node :=
  { n with type := .free, content := [], entries := [], ref := 0, valid := false }

/-- An inode without links has no name, and as a directory no subdirectory. -/
theorem Counted.unnamed (counted : Counted t extra deficit) {i : Nat}
    (allocated : (t i).type ≠ .free) (zero : (t i).nlink = 0) :
    names t i = 0 ∧ i ≠ rootIno ∧ (t i).subdirs = 0 := by
  by_cases dir : (t i).type = .dir
  · have removed : ¬Linked t i := by
      intro linked
      have := (counted.linkedLinks i dir linked).2
      omega
    have links := counted.removedLinks i dir removed
    rw [Linked, not_or] at removed
    exact ⟨by omega, removed.1, by omega⟩
  · have links := counted.plainLinks i allocated dir
    refine ⟨by omega, ?_, ?_⟩
    · rintro rfl
      exact dir counted.root.1
    · rw [Node.subdirs, Node.proper, counted.plain i dir]
      rfl

theorem naming_freed (n : Node) (j : Nat) : n.freed.naming j = 0 := rfl

/-- Freeing an inode without links keeps the counts; the names it gave become extra links. -/
theorem Counted.free (counted : Counted t extra deficit) {i : Nat}
    (allocated : (t i).type ≠ .free) (zero : (t i).nlink = 0) :
    Counted (Function.update t i (t i).freed) (fun j => extra j + (t i).naming j) deficit := by
  obtain ⟨unnamed, not_root, childless⟩ := counted.unnamed allocated zero
  obtain ⟨-, i_lt⟩ := counted.bounded i allocated
  set u := Function.update t i (t i).freed with u_eq
  have other : ∀ {j}, j ≠ i → u j = t j := fun differ => Function.update_of_ne differ _ _
  have self : u i = (t i).freed := Function.update_self ..
  have counts : ∀ j, names u j + (t i).naming j = names t j := by
    intro j
    have := names_update t i_lt (t i).freed j
    rwa [naming_freed, Nat.add_zero] at this
  have mem_old : ∀ {d e}, e ∈ (u d).proper → d ≠ i ∧ e ∈ (t d).proper := by
    intro d e mem
    by_cases same : d = i
    · rw [same, self] at mem
      simp [Node.proper, Node.freed] at mem
    · rw [other same] at mem
      exact ⟨same, mem⟩
  have not_named : ∀ {d e}, e ∈ (t d).proper → e.inum ≠ 0 → d < ninodes → e.inum ≠ i := by
    rintro d e mem used d_lt rfl
    have pos := (naming_pos mem used).trans_le (naming_le_names t d_lt e.inum)
    omega
  have dir_lt : ∀ {d e}, e ∈ (t d).proper → d < ninodes := by
    intro d e mem
    refine (counted.bounded d fun free => ?_).2
    rw [Node.proper, counted.plain d (by rw [free]; decide)] at mem
    simp at mem
  -- The freed directory names no directory, so directories keep their names.
  have keeps : ∀ d, (t d).type = .dir → (t i).naming d = 0 := by
    intro d dir
    by_contra some
    obtain ⟨e, mem, used, rfl⟩ := exists_of_naming_pos (Nat.pos_of_ne_zero some)
    have entry := counted.named i e mem used
    have : 0 < (t i).subdirs :=
      List.countP_pos_iff.mpr ⟨e, mem, by simp [used, ← entry.2.1, dir]⟩
    omega
  have linked_iff : ∀ d, (t d).type = .dir → (Linked u d ↔ Linked t d) := by
    intro d dir
    have := counts d
    rw [keeps d dir, Nat.add_zero] at this
    rw [Linked, Linked, this]
  have dir_ne : ∀ {d}, (u d).type = .dir → d ≠ i := by
    rintro d dir rfl
    rw [self] at dir
    simp [Node.freed] at dir
  refine ⟨?_, ?_, ?_, ?_, ?_, ?_, ?_, ?_, ?_⟩
  · intro j allocated_j
    by_cases same : j = i
    · rw [same]
      exact counted.bounded i allocated
    · rw [other same] at allocated_j
      exact counted.bounded j allocated_j
  · intro j plain
    by_cases same : j = i
    · rw [same, self]
      rfl
    · rw [other same] at plain ⊢
      exact counted.plain j plain
  · intro d dir
    have differ := dir_ne dir
    rw [other differ] at dir ⊢
    exact counted.dots d dir
  · intro d e mem used
    obtain ⟨differ, mem⟩ := mem_old mem
    rw [other (not_named mem used (dir_lt mem))]
    exact counted.named d e mem used
  · rw [other not_root.symm]
    exact counted.root
  · intro j allocated_j plain
    have differ : j ≠ i := by
      rintro rfl
      rw [self] at allocated_j
      exact allocated_j rfl
    rw [other differ] at allocated_j plain ⊢
    rw [counted.plainLinks j allocated_j plain, ← counts j]
    push_cast
    ring
  · intro d dir
    have differ := dir_ne dir
    rw [other differ] at dir
    have := counted.single d dir
    have := counts d
    omega
  · intro d dir linked
    have differ := dir_ne dir
    rw [other differ] at dir ⊢
    exact counted.linkedLinks d dir ((linked_iff d dir).mp linked)
  · intro d dir removed
    have differ := dir_ne dir
    rw [other differ] at dir ⊢
    exact counted.removedLinks d dir ((linked_iff d dir).not.mp removed)

/-- A tidy tree stays tidy and keeps its names when an inode without links is freed. -/
theorem Counted.settles_free (counted : Counted t extra deficit) {i : Nat}
    (allocated : (t i).type ≠ .free) (zero : (t i).nlink = 0) :
    Settles t (Function.update t i (t i).freed) extra fun j => extra j + (t i).naming j := by
  obtain ⟨unnamed, not_root, -⟩ := counted.unnamed allocated zero
  obtain ⟨-, i_lt⟩ := counted.bounded i allocated
  have counts : ∀ j, names (Function.update t i (t i).freed) j + (t i).naming j = names t j := by
    intro j
    have := names_update t i_lt (t i).freed j
    rwa [naming_freed, Nat.add_zero] at this
  refine ⟨?_, ?_, ?_, ?_⟩
  · intro j allocated_j
    have differ : j ≠ i := by
      rintro rfl
      rw [Function.update_self] at allocated_j
      exact allocated_j rfl
    rw [Function.update_of_ne differ]
    exact SameData.refl _
  · intro j _ links
    have differ : j ≠ i := by
      rintro rfl
      exact links zero
    rw [Function.update_of_ne differ]
    exact SameData.refl _
  · intro j
    have := counts j
    omega
  · intro tidy
    have none : ∀ j, (t i).naming j = 0 := by
      intro j
      by_contra some
      obtain ⟨e, mem, used, -⟩ := exists_of_naming_pos (Nat.pos_of_ne_zero some)
      by_cases dir : (t i).type = .dir
      · refine used (tidy i dir ?_ e mem)
        rw [Linked, not_or]
        exact ⟨not_root, by omega⟩
      · rw [Node.proper, counted.plain i dir] at mem
        simp at mem
    have same : ∀ j, names (Function.update t i (t i).freed) j = names t j := by
      intro j
      have := counts j
      rwa [none j, Nat.add_zero] at this
    refine ⟨?_, ?_, same⟩
    · intro d dir removed
      have differ : d ≠ i := by
        rintro rfl
        rw [Function.update_self] at dir
        simp [Node.freed] at dir
      rw [Function.update_of_ne differ] at dir ⊢
      exact tidy d dir ((Linked.congr same).not.mp removed)
    · funext j
      rw [none j, Nat.add_zero]

/-- `iput` drops a reference of the call, and with it the inode if that was the last one. -/
theorem iput_sound (sound : Sound t base held extra deficit) {i : Nat} (mem : i ∈ held) :
    ∃ extra', Sound (iput t i) base (held.erase i) extra' deficit ∧
      Settles t (iput t i) extra extra' := by
  have count_pos : 0 < held.count i := Multiset.count_pos.mpr mem
  have ref_eq := sound.ref i
  have erased : ∀ j, (held.erase i).count j = held.count j - if j = i then 1 else 0 := by
    intro j
    by_cases same : j = i
    · rw [same, Multiset.count_erase_self, if_pos rfl]
    · rw [Multiset.count_erase_of_ne same, if_neg same, Nat.sub_zero]
  by_cases last : (t i).ref = 1 ∧ (t i).valid = true ∧ (t i).nlink = 0
  · have run : iput t i = Function.update t i (t i).freed := if_pos last
    have refs : ∀ j, (Function.update t i (t i).freed j).ref = base j + (held.erase i).count j := by
      intro j
      rw [erased]
      by_cases same : j = i
      · subst same
        rw [Function.update_self, if_pos rfl]
        simp only [Node.freed]
        omega
      · rw [Function.update_of_ne same, if_neg same, sound.ref, Nat.sub_zero]
    have allocated : (t i).type ≠ .free := by
      intro free
      have := sound.unread i free (by omega)
      simp [last.2.1] at this
    have outside : ∀ j, (Function.update t i (t i).freed j).type ≠ .free → j ≠ i := by
      rintro j allocated_j rfl
      rw [Function.update_self] at allocated_j
      exact allocated_j rfl
    refine ⟨_, ⟨(run ▸ sound.toCounted.free allocated last.2.2), run ▸ ?_⟩,
      run ▸ sound.toCounted.settles_free allocated last.2.2⟩
    refine ⟨refs, fun j free => ?_, fun j allocated_j zero => ?_, fun j free ref => ?_⟩
    · by_cases same : j = i
      · rw [same]
        omega
      · rw [Function.update_of_ne same] at free
        exact sound.idle j free
    · have differ := outside j allocated_j
      rw [Function.update_of_ne differ] at allocated_j zero ⊢
      exact sound.alive j allocated_j zero
    · by_cases same : j = i
      · rw [same, Function.update_self]
        rfl
      · rw [Function.update_of_ne same] at free ref ⊢
        exact sound.unread j free ref
  · have run : iput t i = Function.update t i { t i with ref := (t i).ref - 1 } := if_neg last
    have same : ∀ j, SameData (t j) (iput t i j) := by
      rw [run]
      exact sameData_update ⟨rfl, fun _ => rfl, rfl⟩
    refine ⟨extra, ⟨sound.toCounted.congr same, ?_⟩, Settles.of_same same⟩
    refine ⟨fun j => ?_, fun j => ?_, fun j allocated zero => ?_, fun j free ref => ?_⟩
    · rw [erased, run]
      by_cases eq : j = i
      · subst eq
        rw [Function.update_self, if_pos rfl]
        simp only
        omega
      · rw [Function.update_of_ne eq, if_neg eq, sound.ref, Nat.sub_zero]
    · rw [(same j).type]
      exact sound.idle j
    · rw [(same j).type] at allocated
      rw [(same j).nlink allocated] at zero
      obtain ⟨ref, valid⟩ := sound.alive j allocated zero
      rw [run]
      by_cases eq : j = i
      · subst eq
        rw [Function.update_self]
        refine ⟨?_, valid⟩
        have : (t j).ref ≠ 1 := fun one => last ⟨one, valid, zero⟩
        simp only
        omega
      · rw [Function.update_of_ne eq]
        exact ⟨ref, valid⟩
    · rw [(same j).type] at free
      rw [run] at ref ⊢
      by_cases eq : j = i
      · subst eq
        rw [Function.update_self] at ref ⊢
        refine sound.unread j free ?_
        simp only at ref
        omega
      · rw [Function.update_of_ne eq] at ref ⊢
        exact sound.unread j free ref

end Dir
end Xv6Duo
