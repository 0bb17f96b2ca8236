import Xv6Duo.Dir.Edits

/-!
# The invariant during a call

`Holds` is the invariant between two steps of a call, for some counts of extra and missing links. In
a strict run the tree is tidy and both counts are zero. A call moves references between the
processes and itself, follows paths, and replaces an inode and a directory.
-/

namespace Xv6Duo
namespace Dir

/-- The invariant for some counts, which are zero in a strict run. -/
def Holds (strict : Prop) (t : Nodes) (base : Nat → Nat) (held : Multiset Nat) : Prop :=
  ∃ extra deficit, Sound t base held extra deficit ∧
    (strict → Tidy t ∧ (∀ i, extra i = 0) ∧ ∀ i, deficit i = 0)

variable {strict : Prop} {t u : Nodes} {base base' extra extra' deficit deficit' : Nat → Nat}
  {held held' : Multiset Nat}

/-! ## References -/

/-- References move between processes and the call. -/
theorem Holds.transfer (holds : Holds strict t base held)
    (sum : ∀ i, base' i + held'.count i = base i + held.count i)
    (idle : ∀ i, (t i).type = .free → base' i = 0) : Holds strict t base' held' := by
  obtain ⟨extra, deficit, sound, tidy⟩ := holds
  exact ⟨extra, deficit,
    ⟨sound.toCounted, fun i => (sound.ref i).trans (sum i).symm, idle, sound.alive, sound.unread⟩,
    tidy⟩

/-- Data that stay keep the tree tidy. -/
theorem Holds.same (sound : Sound u base held extra deficit)
    (tidy : strict → Tidy t ∧ (∀ i, extra i = 0) ∧ ∀ i, deficit i = 0)
    (same : ∀ i, SameData (t i) (u i)) : Holds strict u base held := by
  refine ⟨extra, deficit, sound, fun is_strict => ?_⟩
  obtain ⟨tidy_t, zero⟩ := tidy is_strict
  exact ⟨tidy_t.congr same, zero⟩

theorem Holds.ilock (holds : Holds strict t base held) {i : Nat} (run : ilock t i = .ok u) :
    Holds strict u base held := by
  obtain ⟨extra, deficit, sound, tidy⟩ := holds
  exact Holds.same (ilock_sound sound run) tidy (ilock_spec run).1

theorem Holds.allocated (holds : Holds strict t base held) {i : Nat} (run : Dir.ilock t i = .ok u) :
    (u i).type ≠ .free := by
  obtain ⟨extra, deficit, sound, -⟩ := holds
  exact ilock_allocated sound run

theorem Holds.iget (holds : Holds strict t base held) (i : Nat) :
    Holds strict (iget t i) base (i ::ₘ held) := by
  obtain ⟨extra, deficit, sound, tidy⟩ := holds
  exact Holds.same (iget_sound sound i) tidy (iget_same t i)

/-- Dropping a reference keeps the invariant. -/
theorem Holds.settle (sound : Sound u base held extra' deficit)
    (tidy : strict → Tidy t ∧ (∀ i, extra i = 0) ∧ ∀ i, deficit i = 0)
    (settles : Settles t u extra extra') : Holds strict u base held := by
  refine ⟨extra', deficit, sound, fun is_strict => ?_⟩
  obtain ⟨tidy_t, no_extra, no_deficit⟩ := tidy is_strict
  obtain ⟨tidy_u, rfl, -⟩ := settles.tidy tidy_t
  exact ⟨tidy_u, no_extra, no_deficit⟩

theorem Holds.iput {i : Nat} (holds : Holds strict t base (i ::ₘ held)) :
    Holds strict (iput t i) base held := by
  obtain ⟨extra, deficit, sound, tidy⟩ := holds
  obtain ⟨extra', sound', settles⟩ := iput_sound sound (Multiset.mem_cons_self i held)
  rw [Multiset.erase_cons_head] at sound'
  exact Holds.settle sound' tidy settles

/-- What dropping a reference leaves alone. -/
theorem Holds.iput_stays {i : Nat} (holds : Holds strict t base (i ::ₘ held)) :
    (∀ j, (Dir.iput t i j).type ≠ .free → SameData (t j) (Dir.iput t i j)) ∧
      (strict → ∀ j, names (Dir.iput t i) j = names t j) := by
  obtain ⟨extra, deficit, sound, tidy⟩ := holds
  obtain ⟨extra', -, settles⟩ := iput_sound sound (Multiset.mem_cons_self i held)
  exact ⟨settles.stays, fun is_strict => (settles.tidy (tidy is_strict).1).2.2⟩

/-- The bytes of a file do not matter. -/
theorem Holds.content (holds : Holds strict t base held) (i : Nat) (content : List UInt8) :
    Holds strict (Function.update t i { t i with content := content }) base held := by
  obtain ⟨extra, deficit, sound, tidy⟩ := holds
  have same : ∀ j, SameData (t j) (Function.update t i { t i with content := content } j) :=
    sameData_update ⟨rfl, fun _ => rfl, rfl⟩
  have refs : ∀ j, (Function.update t i { t i with content := content } j).ref = (t j).ref ∧
      (Function.update t i { t i with content := content } j).valid = (t j).valid := by
    intro j
    by_cases eq : j = i
    · rw [eq, Function.update_self]
      exact ⟨rfl, rfl⟩
    · rw [Function.update_of_ne eq]
      exact ⟨rfl, rfl⟩
  refine Holds.same ⟨sound.toCounted.congr same, fun j => ?_, fun j => ?_,
    fun j allocated zero => ?_, fun j => ?_⟩ tidy same
  · rw [(refs j).1]
    exact sound.ref j
  · rw [(same j).type]
    exact sound.idle j
  · rw [(same j).type] at allocated
    rw [(same j).nlink allocated] at zero
    rw [(refs j).1, (refs j).2]
    exact sound.alive j allocated zero
  · rw [(same j).type, (refs j).1, (refs j).2]
    exact sound.unread j

/-! ## Paths -/

/-- A process refers to an inode. -/
def Proc.refers (p : Proc) (i : Nat) : Prop :=
  p.cwd = some i ∨ ∃ fd f, p.ofile fd = some f ∧ f.ip = some i

theorem Proc.fileAt_eq {p : Proc} {fd : Int} {file : Option File} (at_fd : p.fileAt fd = .ok file) :
    ∃ d, p.ofile d = file := by
  rw [Proc.fileAt] at at_fd
  split at at_fd
  · next inside => exact ⟨⟨fd.toNat, inside.2⟩, Except.ok.inj at_fd⟩
  · cases at_fd

theorem Proc.refers_dirAt {p : Proc} {dirfd : Int} {i : Nat} (starts : p.dirAt dirfd = some i) :
    p.refers i := by
  rw [Proc.dirAt] at starts
  split at starts
  · exact Or.inl starts
  · split at starts
    · next f at_fd =>
        obtain ⟨d, is_open⟩ := Proc.fileAt_eq at_fd
        exact Or.inr ⟨d, f, is_open, starts⟩
    · cases starts

/-- A walk along a path starts at the root, or at a current directory that has a name. -/
def StartsLinked (t : Nodes) (p : Proc) (path : Path) (dirfd : Int) : Prop :=
  path.head? = some slash ∨ dirfd = atFdcwd ∧ ∀ cwd, p.cwd = some cwd → Linked t cwd

theorem StartsLinked.congr {p : Proc} {path : Path} {dirfd : Int}
    (starts : StartsLinked t p path dirfd) (same : ∀ i, names u i = names t i) :
    StartsLinked u p path dirfd := by
  obtain absolute | ⟨no_fd, cwd⟩ := starts
  · exact Or.inl absolute
  · exact Or.inr ⟨no_fd, fun i cwd_eq => (Linked.congr same).mpr (cwd i cwd_eq)⟩

theorem Walks.after_same {s : Nodes} {parent : Bool} {start : Nat} {found : Option (Nat × Path)}
    (walks : Walks s u base extra deficit held parent start found extra')
    (same : ∀ i, SameData (t i) (s i)) :
    Walks t u base extra deficit held parent start found extra' where
  sound := walks.sound
  settles := (Settles.of_same same).trans walks.settles
  dir := walks.dir
  linked tidy linked :=
    walks.linked (tidy.congr same) ((Linked.congr (names_of_same same)).mpr linked)

theorem namex_spec (sound : Sound t base held extra deficit) {p : Proc}
    (refers : ∀ i, p.refers i → 0 < base i) {parent : Bool} {path : Path}
    {dirfd : Int} {found : Option (Nat × Path)}
    (run : namex t p parent path dirfd = .ok (found, u)) :
    ∃ start extra', Walks t u base extra deficit held parent start found extra' ∧
      (StartsLinked t p path dirfd → Linked t start) := by
  have allocated : ∀ {i}, p.refers i → (t i).type ≠ .free := by
    intro i refers_i free
    have := refers i refers_i
    have := sound.idle i free
    omega
  simp only [namex] at run
  split at run
  · obtain ⟨extra', walks⟩ := namexLoop_spec _ (iget_sound sound rootIno) run
    exact ⟨rootIno, extra', walks.after_same (iget_same t rootIno), fun _ => Or.inl rfl⟩
  · next relative =>
      split at run
      · next start starts =>
          obtain ⟨extra', walks⟩ := namexLoop_spec _
            (idup_sound sound (allocated (Proc.refers_dirAt starts))) run
          refine ⟨start, extra', walks.after_same (idup_same t start), ?_⟩
          rintro (absolute | ⟨no_fd, linked⟩)
          · exact absurd absolute relative
          · rw [Proc.dirAt, if_pos no_fd] at starts
            exact linked start starts
      · cases run

/-- What a path leads to. -/
structure Finds (strict : Prop) (t u : Nodes) (base : Nat → Nat) (held : Multiset Nat)
    (parent : Bool) (linked : Prop) (found : Option (Nat × Path)) : Prop where
  /-- The call holds the result. -/
  holds : Holds strict u base (afterWalk found held)
  /-- Inodes that stay allocated do not change. -/
  stays : ∀ i, (u i).type ≠ .free → SameData (t i) (u i)
  /-- The last directory of the path is one. -/
  dir : ∀ ip name, found = some (ip, name) → parent = true → (u ip).type = .dir
  /-- In a strict run the result has a name when the start has. -/
  linked : strict → linked → ∀ ip name, found = some (ip, name) → Linked u ip
  /-- In a strict run no name goes away. -/
  names : strict → ∀ i, names u i = names t i

theorem Holds.namex (holds : Holds strict t base held) {p : Proc}
    (refers : ∀ i, p.refers i → 0 < base i) {parent : Bool} {path : Path}
    {dirfd : Int} {found : Option (Nat × Path)}
    (run : namex t p parent path dirfd = .ok (found, u)) :
    Finds strict t u base held parent (StartsLinked t p path dirfd) found := by
  obtain ⟨extra, deficit, sound, tidy⟩ := holds
  obtain ⟨start, extra', walks, starts⟩ := namex_spec sound refers run
  refine ⟨Holds.settle walks.sound tidy walks.settles, walks.settles.stays, walks.dir, ?_, ?_⟩
  · intro is_strict linked
    exact walks.linked (tidy is_strict).1 (starts linked)
  · intro is_strict
    exact (walks.settles.tidy (tidy is_strict).1).2.2

theorem Holds.namei (holds : Holds strict t base held) {p : Proc}
    (refers : ∀ i, p.refers i → 0 < base i) {path : Path} {dirfd : Int}
    {found : Option Nat} (run : namei t p path dirfd = .ok (found, u)) :
    Holds strict u base (found.toList + held) ∧
      (∀ i, (u i).type ≠ .free → SameData (t i) (u i)) ∧
      (strict → ∀ i, names u i = names t i) := by
  rw [Dir.namei] at run
  simp only [Except.bind_eq_ok, Except.pure_eq_ok, Except.ok.injEq, Prod.mk.injEq] at run
  obtain ⟨⟨result, x⟩, walk, rfl, rfl⟩ := run
  have finds := holds.namex refers walk
  exact ⟨finds.holds, finds.stays, finds.names⟩

/-! ## Replacing inodes -/

/-- The references after an inode `i` and a directory `d` have been replaced. -/
theorem Sound.edited (sound : Sound t base held extra deficit) {i d : Nat} {n m : Node}
    (counted : Counted (Function.update (Function.update t i n) d m) extra' deficit')
    (apart : i ≠ d) (others : ∀ j, j ≠ i → held'.count j = held.count j)
    (n_alloc : n.type ≠ .free) (n_ref : n.ref = base i + held'.count i)
    (n_alive : n.nlink = 0 → 0 < n.ref ∧ n.valid = true) (m_dir : m.type = .dir)
    (m_ref : m.ref = (t d).ref) (m_pos : 0 < m.ref) (m_valid : m.valid = true) :
    Sound (Function.update (Function.update t i n) d m) base held' extra' deficit' := by
  set u := Function.update (Function.update t i n) d m with u_eq
  have at_d : u d = m := Function.update_self ..
  have at_i : u i = n := by
    rw [u_eq, Function.update_of_ne apart, Function.update_self]
  have other : ∀ {j}, j ≠ i → j ≠ d → u j = t j := by
    intro j differ_i differ_d
    rw [u_eq, Function.update_of_ne differ_d, Function.update_of_ne differ_i]
  refine ⟨counted, fun j => ?_, fun j free => ?_, fun j allocated zero => ?_,
    fun j free ref => ?_⟩
  · by_cases is_i : j = i
    · rw [is_i, at_i]
      exact n_ref
    · rw [others j is_i, ← sound.ref j]
      by_cases is_d : j = d
      · rw [is_d, at_d]
        exact m_ref
      · rw [other is_i is_d]
  · by_cases is_d : j = d
    · rw [is_d, at_d, m_dir] at free
      simp at free
    · by_cases is_i : j = i
      · rw [is_i, at_i] at free
        exact absurd free n_alloc
      · rw [other is_i is_d] at free
        exact sound.idle j free
  · by_cases is_d : j = d
    · rw [is_d, at_d]
      exact ⟨m_pos, m_valid⟩
    · by_cases is_i : j = i
      · rw [is_i, at_i] at zero ⊢
        exact n_alive zero
      · rw [other is_i is_d] at allocated zero ⊢
        exact sound.alive j allocated zero
  · by_cases is_d : j = d
    · rw [is_d, at_d, m_dir] at free
      simp at free
    · by_cases is_i : j = i
      · rw [is_i, at_i] at free
        exact absurd free n_alloc
      · rw [other is_i is_d] at free ref ⊢
        exact sound.unread j free ref

/-- A free inode is replaced by a free one. -/
theorem Sound.replace_free (sound : Sound t base held extra deficit) {i : Nat} {n : Node}
    (free : (t i).type = .free) (n_free : n.type = .free) (entries : n.entries = [])
    (n_ref : n.ref = (t i).ref) (unread : n.valid = false) :
    Sound (Function.update t i n) base held extra deficit ∧
      ∀ j, SameData (t j) (Function.update t i n j) := by
  have same : ∀ j, SameData (t j) (Function.update t i n j) := by
    refine sameData_update ⟨n_free.trans free.symm, fun allocated => absurd free allocated, ?_⟩
    rw [entries, sound.plain i (by rw [free]; decide)]
  refine ⟨⟨sound.toCounted.congr same, fun j => ?_, fun j => ?_, fun j allocated zero => ?_,
    fun j free_j ref => ?_⟩, same⟩
  · rw [← sound.ref j]
    by_cases is_i : j = i
    · rw [is_i, Function.update_self, n_ref]
    · rw [Function.update_of_ne is_i]
  · rw [(same j).type]
    exact sound.idle j
  · have differ : j ≠ i := by
      rintro rfl
      rw [Function.update_self] at allocated
      exact allocated n_free
    rw [Function.update_of_ne differ] at allocated zero ⊢
    exact sound.alive j allocated zero
  · by_cases is_i : j = i
    · rw [is_i, Function.update_self]
      exact unread
    · rw [Function.update_of_ne is_i] at free_j ref ⊢
      exact sound.unread j free_j ref

/-- An inode that is not a directory changes its links outside the tree. -/
theorem Sound.relink (sound : Sound t base held extra deficit) {i : Nat} {n : Node} {e : Nat}
    (i_pos : 0 < i) (i_lt : i < ninodes) (plain : (t i).type ≠ .dir)
    (kept : (t i).type = .free ∨ n.type = (t i).type) (n_alloc : n.type ≠ .free)
    (n_plain : n.type ≠ .dir) (entries : n.entries = []) (links : n.nlink = names t i + e)
    (others : ∀ j, j ≠ i → held'.count j = held.count j)
    (n_ref : n.ref = base i + held'.count i)
    (n_alive : n.nlink = 0 → 0 < n.ref ∧ n.valid = true) :
    Sound (Function.update t i n) base held' (Function.update extra i e) deficit ∧
      (Tidy t → Tidy (Function.update t i n)) := by
  have other : ∀ {j}, j ≠ i → Function.update t i n j = t j :=
    fun differ => Function.update_of_ne differ _ _
  have counted := sound.toCounted.relink (e := e) i_pos i_lt plain kept n_plain entries links
  have same_names : ∀ j, names (Function.update t i n) j = names t j := by
    refine names_congr fun j => ?_
    by_cases same : j = i
    · rw [same, Function.update_self, entries, sound.plain i plain]
    · rw [other same]
  constructor
  · refine ⟨counted, fun j => ?_, fun j free => ?_, fun j allocated zero => ?_,
      fun j free ref => ?_⟩
    · by_cases same : j = i
      · rw [same, Function.update_self, n_ref]
      · rw [other same, others j same]
        exact sound.ref j
    · have differ : j ≠ i := by
        rintro rfl
        rw [Function.update_self] at free
        exact n_alloc free
      rw [other differ] at free
      exact sound.idle j free
    · by_cases same : j = i
      · rw [same, Function.update_self] at zero ⊢
        exact n_alive zero
      · rw [other same] at allocated zero ⊢
        exact sound.alive j allocated zero
    · have differ : j ≠ i := by
        rintro rfl
        rw [Function.update_self] at free
        exact n_alloc free
      rw [other differ] at free ref ⊢
      exact sound.unread j free ref
  · intro tidy d dir removed
    have differ : d ≠ i := by
      rintro rfl
      rw [Function.update_self] at dir
      exact n_plain dir
    rw [other differ] at dir ⊢
    exact tidy d dir ((Linked.congr same_names).not.mp removed)

end Dir
end Xv6Duo
