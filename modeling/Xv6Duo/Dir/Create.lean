import Xv6Duo.Dir.Holds

/-!
# Creating inodes

`create` allocates an inode, gives it its first entries and a name, and frees it again when there is
no room for one of them. A new directory adds a link to the directory above it.
-/

namespace Xv6Duo
namespace Dir

variable {strict : Prop} {t u : Nodes} {base extra deficit : Nat → Nat} {held : Multiset Nat}

theorem short_eq {value : Int} (low : -32768 ≤ value) (high : value < 32768) :
    short value = value := by
  rw [short, Int.bmod_eq_of_le (by omega) (by omega)]

/-! ## Entries -/

/-- A directory has neither a cleared entry nor room for a block. -/
def Full (full : Bool) (n : Node) : Prop := full ∧ n.entries.all (·.inum ≠ 0)

/-- `dirlink` of a name that is not there into a full directory. -/
theorem dirlink_full {full : Bool} {dp inum : Nat} {name : Path} {type : FileType}
    (dir : (t dp).type = .dir) (absent : findEntry (t dp).entries name = none)
    (is_full : Full full (t dp)) : dirlink t full dp name inum type = .ok (false, t) := by
  rw [dirlink, dirlookup, if_pos dir, absent]
  exact if_pos is_full

/-- `dirlink` of a name that is not there. -/
theorem dirlink_room {full : Bool} {dp inum : Nat} {name : Path} {type : FileType}
    (dir : (t dp).type = .dir) (absent : findEntry (t dp).entries name = none)
    (room : ¬Full full (t dp)) :
    dirlink t full dp name inum type =
      .ok (true, Function.update t dp { t dp with
        entries := placeEntry (t dp).entries ⟨inum, type, name.take dirSiz⟩ }) := by
  rw [dirlink, dirlookup, if_pos dir, absent]
  exact if_neg room

/-- The entries of a new inode. -/
def firstEntries (type : FileType) (ip dp : Nat) : List Dirent :=
  if type = .dir then [⟨ip, .dir, dot⟩, ⟨dp, .dir, dotdot⟩] else []

/-- All entries are made, or only the new inode has changed. -/
theorem linkNew_spec {env : Env} {dp ip : Nat} {name : Path} {type : FileType} {done : Bool}
    (apart : ip ≠ dp) (ip_pos : 0 < ip) (dir : (t dp).type = .dir)
    (absent : findEntry (t dp).entries name = none) (new : (t ip).entries = [])
    (typed : (t ip).type = type) (run : linkNew t env dp name ip type = .ok (done, u)) :
    (done = true ∧ u = Function.update
        (Function.update t ip { t ip with entries := firstEntries type ip dp }) dp
        { t dp with entries := placeEntry (t dp).entries ⟨ip, type, name.take dirSiz⟩ }) ∨
      (done = false ∧ ∃ entries, u = Function.update t ip { t ip with entries := entries }) := by
  have unchanged : t = Function.update t ip { t ip with entries := [] } := by
    rw [← new, Function.update_eq_self]
  rw [linkNew] at run
  by_cases is_dir : type = .dir
  · subst is_dir
    have no_dot : findEntry (t ip).entries dot = none := by rw [new]; rfl
    rw [if_pos rfl] at run
    by_cases full : Full (env ip) (t ip)
    · rw [dirlink_full typed no_dot full] at run
      obtain ⟨rfl, rfl⟩ : false = done ∧ t = u := by simpa using run
      exact Or.inr ⟨rfl, [], unchanged⟩
    · rw [dirlink_room typed no_dot full, new] at run
      set one := Function.update t ip
        { t ip with entries := placeEntry [] ⟨ip, .dir, dot.take dirSiz⟩ } with one_eq
      have one_ip : one ip = { t ip with entries := [⟨ip, .dir, dot⟩] } :=
        Function.update_self ..
      have one_dp : one dp = t dp := Function.update_of_ne apart.symm _ _
      have one_dir : (one ip).type = .dir := by rw [one_ip]; exact typed
      have no_dotdot : findEntry (one ip).entries dotdot = none := by
        rw [one_ip]
        simp [findEntry, dot, dotdot]
      have two_eq : placeEntry (one ip).entries ⟨dp, (one dp).type, dotdot.take dirSiz⟩ =
          firstEntries .dir ip dp := by
        rw [one_ip, one_dp, dir]
        exact placeEntry_cons ip_pos.ne' _ _
      simp only [Except.ok_bind, not_true_eq_false, if_false] at run
      by_cases full_again : Full (env ip) (one ip)
      · rw [dirlink_full one_dir no_dotdot full_again] at run
        obtain ⟨rfl, rfl⟩ : false = done ∧ one = u := by simpa using run
        exact Or.inr ⟨rfl, _, one_eq⟩
      · have two : Function.update one ip { one ip with entries := firstEntries .dir ip dp } =
            Function.update t ip { t ip with entries := firstEntries .dir ip dp } := by
          rw [one_ip, one_eq, Function.update_idem]
        rw [dirlink_room one_dir no_dotdot full_again, two_eq, two] at run
        simp only [Except.ok_bind, not_true_eq_false, if_false] at run
        set both := Function.update t ip { t ip with entries := firstEntries .dir ip dp }
          with both_eq
        have both_dp : both dp = t dp := Function.update_of_ne apart.symm _ _
        by_cases full_above : Full (env dp) (both dp)
        · rw [dirlink_full (both_dp ▸ dir) (both_dp ▸ absent) full_above] at run
          obtain ⟨rfl, rfl⟩ : false = done ∧ both = u := by simpa using run
          exact Or.inr ⟨rfl, _, both_eq⟩
        · rw [dirlink_room (both_dp ▸ dir) (both_dp ▸ absent) full_above, both_dp] at run
          obtain ⟨rfl, rfl⟩ : true = done ∧ _ = u := by simpa using run
          exact Or.inl ⟨rfl, rfl⟩
  · rw [if_neg is_dir] at run
    by_cases full : Full (env dp) (t dp)
    · rw [dirlink_full dir absent full] at run
      obtain ⟨rfl, rfl⟩ : false = done ∧ t = u := by simpa using run
      exact Or.inr ⟨rfl, [], unchanged⟩
    · rw [dirlink_room dir absent full] at run
      obtain ⟨rfl, rfl⟩ : true = done ∧ _ = u := by simpa using run
      refine Or.inl ⟨rfl, ?_⟩
      rw [firstEntries, if_neg is_dir, ← unchanged]

/-! ## Allocation -/

theorem freeInode_some {i : Nat} (pick : freeInode t = some i) :
    (t i).type = .free ∧ 0 < i ∧ i < ninodes := by
  rw [freeInode] at pick
  have free := List.find?_some pick
  have mem := List.mem_of_find?_eq_some pick
  rw [List.mem_drop_iff_getElem] at mem
  obtain ⟨k, k_lt, rfl⟩ := mem
  rw [List.length_range] at k_lt
  rw [List.getElem_range] at free ⊢
  exact ⟨of_decide_eq_true free, by omega, by omega⟩

/-- `ialloc` takes a free inode, to which nothing refers. -/
theorem ialloc_spec (sound : Sound t base held extra deficit) {type : FileType} {ip : Nat}
    (run : ialloc t type = some (ip, u)) (outside : ∀ i ∈ held, (t i).type ≠ .free) :
    (t ip).type = .free ∧ 0 < ip ∧ ip < ninodes ∧ base ip = 0 ∧ held.count ip = 0 ∧
      u = Function.update t ip
        { t ip with
          type := type, major := 0, minor := 0, nlink := 0, mode := 0, uid := 0, gid := 0,
          content := [], entries := [], ref := 1, valid := false } := by
  unfold ialloc at run
  generalize pick : freeInode t = picked at run
  cases picked with
  | none => simp at run
  | some i =>
      simp only [Option.some.injEq, Prod.mk.injEq] at run
      obtain ⟨rfl, rfl⟩ := run
      obtain ⟨free, i_pos, i_lt⟩ := freeInode_some pick
      have unheld : held.count i = 0 := by
        rw [Multiset.count_eq_zero]
        exact fun mem => outside i mem free
      have idle := sound.idle i free
      have ref : (t i).ref = 0 := by rw [sound.ref, idle, unheld]
      refine ⟨free, i_pos, i_lt, idle, unheld, ?_⟩
      rw [iget, Function.update_self, if_pos ref, Function.update_idem]

/-- The inode that `create` makes. -/
def newInode (p : Proc) (type : FileType) (major minor : UInt16) (mode : UInt32)
    (entries : List Dirent) : Node where
  type := type
  major := major
  minor := minor
  nlink := 1
  mode := mode &&& ~~~p.umask
  uid := p.uid
  gid := p.gid
  content := []
  entries := entries
  ref := 1
  valid := true

/-- The tree after a new inode has got its name. -/
theorem Sound.create (sound : Sound t base held extra deficit)
    (tidy : strict → Tidy t ∧ (∀ i, extra i = 0) ∧ ∀ i, deficit i = 0) {ip dp : Nat} {n m : Node}
    {name : Path} (free : (t ip).type = .free) (ip_pos : 0 < ip) (ip_lt : ip < ninodes)
    (idle : base ip = 0) (unheld : held.count ip = 0) (dir : (t dp).type = .dir)
    (n_alloc : n.type ≠ .free) (n_links : n.nlink = 1) (n_ref : n.ref = 1)
    (n_entries : n.entries = firstEntries n.type ip dp) (m_dir : m.type = .dir)
    (m_ref : m.ref = (t dp).ref) (m_pos : 0 < m.ref) (m_valid : m.valid = true)
    (m_links : m.nlink = (t dp).nlink + if n.type = .dir then 1 else 0)
    (m_entries : m.entries = placeEntry (t dp).entries ⟨ip, n.type, name⟩)
    (linked : strict → Linked t dp) :
    Holds strict (Function.update (Function.update t ip n) dp m) base (ip ::ₘ held) := by
  have apart : ip ≠ dp := by
    rintro rfl
    exact absurd (free.symm.trans dir) (by decide)
  have references : ∀ {extra' deficit'},
      Counted (Function.update (Function.update t ip n) dp m) extra' deficit' →
      Sound (Function.update (Function.update t ip n) dp m) base (ip ::ₘ held) extra' deficit' := by
    intro extra' deficit' counted
    refine sound.edited counted apart ?_ n_alloc ?_ ?_ m_dir m_ref m_pos m_valid
    · intro j differ
      exact Multiset.count_cons_of_ne differ held
    · rw [n_ref, idle, Multiset.count_cons_self, unheld]
    · intro zero
      omega
  by_cases n_dir : n.type = .dir
  · rw [n_dir] at m_entries n_entries
    rw [if_pos n_dir] at m_links
    obtain ⟨counted, keeps⟩ := sound.toCounted.addDir
      ip_pos ip_lt free dir n_dir n_entries n_links m_dir m_entries
      (fun _ => by rw [Function.update_of_ne apart.symm, m_links]; omega) (fun _ => m_links)
      (Function.update_self ..) fun j differ _ => Function.update_of_ne differ _ _
    refine ⟨extra, _, references counted, fun is_strict => ?_⟩
    obtain ⟨tidy_t, no_extra, no_deficit⟩ := tidy is_strict
    refine ⟨keeps tidy_t (linked is_strict), no_extra, fun j => ?_⟩
    by_cases same : j = ip
    · rw [same, Function.update_self]
    · rw [Function.update_of_ne same, no_deficit]
  · rw [if_neg n_dir, add_zero] at m_links
    rw [firstEntries, if_neg n_dir] at n_entries
    obtain ⟨counted, keeps⟩ := sound.toCounted.addPlain ip_pos ip_lt free dir n_alloc n_dir
      n_entries n_links m_dir m_links m_entries
    refine ⟨_, deficit, references counted, fun is_strict => ?_⟩
    obtain ⟨tidy_t, no_extra, no_deficit⟩ := tidy is_strict
    refine ⟨keeps tidy_t (linked is_strict), fun j => ?_, no_deficit⟩
    by_cases same : j = ip
    · rw [same, Function.update_self]
    · rw [Function.update_of_ne same, no_extra]

theorem Counted.nlink_nonneg (counted : Counted t extra deficit) {d : Nat}
    (dir : (t d).type = .dir) : 0 ≤ (t d).nlink := by
  by_cases linked : Linked t d
  · have := (counted.linkedLinks d dir linked).2
    omega
  · rw [counted.removedLinks d dir linked]
    omega

theorem iput_other (t : Nodes) {i j : Nat} (differ : j ≠ i) : iput t i j = t j := by
  rw [iput]
  split <;> rw [Function.update_of_ne differ]

/-- The new inode has a name, or it is free again. -/
theorem createNew_spec {s : Nodes} {env : Env} {p : Proc} {dp ip : Nat} {name : Path}
    {type : FileType} {major minor : UInt16} {mode : UInt32} {made : Created}
    (sound : Sound t base {dp} extra deficit)
    (tidy : strict → Tidy t ∧ (∀ i, extra i = 0) ∧ ∀ i, deficit i = 0)
    (alloc : ialloc t type = some (ip, s)) (type_ne : type ≠ .free) (dir : (t dp).type = .dir)
    (valid : (t dp).valid = true) (absent : findEntry (t dp).entries name = none)
    (bound : (t dp).nlink < 32767) (linked : strict → Linked t dp)
    (run : createNew s env p dp name ip type major minor mode = .ok (made, u)) :
    (made = .inode ip ∧ Holds strict u base {ip} ∧ (u ip).type ≠ .free) ∨
      (made = .null ∧ Holds strict u base 0) := by
  obtain ⟨free, ip_pos, ip_lt, idle, unheld, rfl⟩ := ialloc_spec sound alloc (by simp [dir])
  have apart : ip ≠ dp := by
    rintro rfl
    exact absurd (free.symm.trans dir) (by decide)
  have ref : 0 < (t dp).ref := by
    rw [sound.ref, Multiset.count_singleton_self]
    omega
  have nonneg := sound.toCounted.nlink_nonneg dir
  simp only [createNew, Except.bind_eq_ok] at run
  obtain ⟨x, locked, ⟨done, y⟩, linking, run⟩ := run
  rw [ilock, Function.update_self] at locked
  simp only [one_ne_zero, if_false, Bool.false_eq_true, type_ne, Function.update_idem,
    Except.ok.injEq] at locked
  subst locked
  rw [Function.update_self, Function.update_idem] at linking
  set n := newInode p type major minor mode [] with n_eq
  change linkNew (Function.update t ip n) env dp name ip type = .ok (done, y) at linking
  have same_dp : Function.update t ip n dp = t dp := Function.update_of_ne apart.symm _ _
  have at_ip : Function.update t ip n ip = n := Function.update_self ..
  obtain ⟨rfl, rfl⟩ | ⟨rfl, entries, rfl⟩ := linkNew_spec apart ip_pos (same_dp ▸ dir)
    (same_dp ▸ absent) (by rw [at_ip]; rfl) (by rw [at_ip]; rfl) linking
  · rw [at_ip, same_dp, Function.update_idem] at run
    set placed := placeEntry (t dp).entries ⟨ip, type, name.take dirSiz⟩ with placed_eq
    set n' : Node := { n with entries := firstEntries type ip dp } with n'_eq
    -- The directory above a new directory gets a link for its `..`.
    set m : Node := { t dp with
      entries := placed, nlink := (t dp).nlink + if type = .dir then 1 else 0 } with m_eq
    have holds : Holds strict (Function.update (Function.update t ip n') dp m) base
        (ip ::ₘ {dp}) :=
      sound.create tidy free ip_pos ip_lt idle unheld dir type_ne rfl rfl rfl dir rfl ref valid
        rfl rfl linked
    simp only [if_true, Except.pure_eq_ok, Except.ok.injEq, Prod.mk.injEq] at run
    obtain ⟨rfl, rfl⟩ := run
    have final : (if type = .dir then
        Function.update (Function.update (Function.update t ip n') dp
          { t dp with entries := placed }) dp
          { Function.update (Function.update t ip n') dp { t dp with entries := placed } dp with
            nlink := short ((Function.update (Function.update t ip n') dp
              { t dp with entries := placed } dp).nlink + 1) }
        else Function.update (Function.update t ip n') dp { t dp with entries := placed }) =
        Function.update (Function.update t ip n') dp m := by
      split
      · next is_dir =>
          rw [Function.update_self, Function.update_idem, m_eq, if_pos is_dir,
            short_eq (by simp only; omega) (by simp only; omega)]
      · next plain =>
          rw [m_eq, if_neg plain, add_zero]
    refine Or.inl ⟨rfl, ?_, ?_⟩
    · rw [final]
      have swapped : (ip ::ₘ {dp} : Multiset Nat) = dp ::ₘ {ip} := Multiset.cons_swap ip dp 0
      rw [swapped] at holds
      exact holds.iput
    · rw [final, iput_other _ apart, Function.update_of_ne apart, Function.update_self]
      exact type_ne
  · rw [at_ip, Function.update_idem] at run
    simp only [Bool.false_eq_true, if_false, Except.pure_eq_ok, Except.ok.injEq, Prod.mk.injEq,
      Function.update_self, Function.update_idem] at run
    obtain ⟨rfl, rfl⟩ := run
    refine Or.inr ⟨rfl, ?_⟩
    have ref_zero : (t ip).ref = 0 := by rw [sound.ref, idle, unheld]
    have freed : iput (Function.update t ip { n with entries := entries, nlink := 0 }) ip =
        Function.update t ip ({ n with entries := entries, nlink := 0 } : Node).freed := by
      rw [iput, Function.update_self, if_pos ⟨rfl, rfl, rfl⟩, Function.update_idem]
      rfl
    obtain ⟨sound', same⟩ := sound.replace_free
      (n := ({ n with entries := entries, nlink := 0 } : Node).freed) free rfl rfl
      ref_zero.symm rfl
    have holds : Holds strict _ base {dp} := Holds.same sound' tidy same
    rw [freed]
    exact holds.iput

/-! ## The call -/

/-- The references that the caller of `create` gets. -/
def Created.refs : Created → Multiset Nat
  | .inode ip => {ip}
  | .errno _ => 0
  | .null => 0

/-- The directory of a path, locked. -/
structure Locks (strict : Prop) (t u : Nodes) (base : Nat → Nat) (dp : Nat) (linked : Prop) :
    Prop where
  /-- The call holds the directory. -/
  holds : Holds strict u base {dp}
  /-- It is one. -/
  dir : (u dp).type = .dir
  /-- It has been read. -/
  valid : (u dp).valid = true
  /-- Inodes that stay allocated do not change. -/
  stays : ∀ i, (u i).type ≠ .free → SameData (t i) (u i)
  /-- In a strict run it has a name when the start of the path has. -/
  linked : strict → linked → Linked u dp

theorem Holds.nameiparent (holds : Holds strict t base 0) {p : Proc}
    (refers : ∀ i, p.refers i → 0 < base i) {path name : Path} {dirfd : Int}
    {dp : Nat} {s : Nodes} (walk : nameiparent t p path dirfd = .ok (some (dp, name), s))
    (lock : Dir.ilock s dp = .ok u) : Locks strict t u base dp (StartsLinked t p path dirfd) := by
  have finds := holds.namex refers walk
  obtain ⟨same, -, valid, -⟩ := ilock_spec lock
  have held : Holds strict s base {dp} := by simpa [afterWalk] using finds.holds
  refine ⟨held.ilock lock, ?_, valid, ?_, ?_⟩
  · rw [(same dp).type]
    exact finds.dir dp name rfl rfl
  · intro i allocated
    exact (finds.stays i ((same i).type ▸ allocated)).trans (same i)
  · intro is_strict linked
    exact (Linked.congr (names_of_same same)).mpr (finds.linked is_strict linked dp name rfl)

theorem create_spec {env : Env} {p : Proc} {path : Path} {dirfd : Int}
    {type : FileType} {major minor : UInt16} {mode : UInt32} {made : Created}
    (holds : Holds strict t base 0) (refers : ∀ i, p.refers i → 0 < base i)
    (bound : ∀ i, (t i).type ≠ .free → (t i).nlink < 32767)
    (type_ne : type ≠ .free) (linked : strict → StartsLinked t p path dirfd)
    (run : create t env p path dirfd type major minor mode = .ok (made, u)) :
    Holds strict u base made.refs ∧ ∀ ip, made = .inode ip → (u ip).type ≠ .free := by
  simp only [create, Except.bind_eq_ok] at run
  obtain ⟨⟨parent, s⟩, walk, run⟩ := run
  cases parent with
  | none =>
      simp only [Except.pure_eq_ok, Except.ok.injEq, Prod.mk.injEq] at run
      obtain ⟨rfl, rfl⟩ := run
      exact ⟨by simpa [afterWalk, Created.refs] using (holds.namex refers walk).holds, by simp⟩
  | some parent =>
      obtain ⟨dp, name⟩ := parent
      simp only [Except.bind_eq_ok] at run
      obtain ⟨x, lock, run⟩ := run
      have locks := holds.nameiparent refers walk lock
      split at run
      · simp only [Except.pure_eq_ok, Except.ok.injEq, Prod.mk.injEq] at run
        obtain ⟨rfl, rfl⟩ := run
        exact ⟨locks.holds.iput, by simp⟩
      · simp only [Except.bind_eq_ok] at run
        obtain ⟨⟨hit, y⟩, look, run⟩ := run
        obtain ⟨-, ⟨rfl, rfl, absent⟩ | ⟨k, rfl, rfl, -⟩⟩ := dirlookup_spec look
        · simp only at run
          generalize alloc : ialloc y type = allocated at run
          cases allocated with
          | none =>
              simp only [Except.pure_eq_ok, Except.ok.injEq, Prod.mk.injEq] at run
              obtain ⟨rfl, rfl⟩ := run
              exact ⟨locks.holds.iput, by simp⟩
          | some new =>
              obtain ⟨ip, z⟩ := new
              obtain ⟨extra, deficit, sound, tidy⟩ := locks.holds
              have same := locks.stays dp (by rw [locks.dir]; decide)
              have nlink : (y dp).nlink < 32767 := by
                rw [same.nlink (by rw [← same.type, locks.dir]; decide)]
                exact bound dp (by rw [← same.type, locks.dir]; decide)
              obtain ⟨rfl, named, allocated⟩ | ⟨rfl, unnamed⟩ := createNew_spec sound tidy alloc
                type_ne locks.dir locks.valid absent nlink
                (fun is_strict => locks.linked is_strict (linked is_strict)) run
              · refine ⟨named, ?_⟩
                rintro _ ⟨⟩
                exact allocated
              · exact ⟨unnamed, by simp⟩
        · set ip := inumAt (x dp).entries k with ip_eq
          simp only [Except.bind_eq_ok] at run
          obtain ⟨y, lock_ip, run⟩ := run
          have both := locks.holds.iget ip
          have swapped : (ip ::ₘ {dp} : Multiset Nat) = dp ::ₘ {ip} := Multiset.cons_swap ip dp 0
          rw [swapped] at both
          have holds_y := both.iput.ilock lock_ip
          split at run
          · simp only [Except.pure_eq_ok, Except.ok.injEq, Prod.mk.injEq] at run
            obtain ⟨rfl, rfl⟩ := run
            refine ⟨holds_y, ?_⟩
            rintro _ ⟨⟩
            exact both.iput.allocated lock_ip
          · simp only [Except.pure_eq_ok, Except.ok.injEq, Prod.mk.injEq] at run
            obtain ⟨rfl, rfl⟩ := run
            exact ⟨holds_y.iput, by simp⟩

end Dir
end Xv6Duo
