import Xv6Duo.Dir.Namex

/-!
# Removing a name

What `fileunlink` needs in order to remove an entry, and what it leaves when it does and when it
does not. An error that passes through the variable `error` comes out positive.
-/

namespace Xv6Duo
namespace Dir

open Follow

variable {t u : Nodes} {base : Nat → Nat} {held : Multiset Nat}

/-- The directory that the last name of a path is looked up in, and the name. -/
def parentOf (t : Nodes) (p : Proc) (path : Path) (dirfd : Int) :
    Option (Nat × Path) :=
  (startOf p path dirfd).bind fun start => lookupParent t start (components path)

/-- What `nameiparent` returns, and that the walk met no free inode then. -/
theorem nameiparent_answers {p : Proc} {path : Path} {dirfd : Int}
    {answer : Option (Nat × Path)} (steady : Steady t base held)
    (refers : ∀ i, p.refers i → 0 < base i) (run : nameiparent t p path dirfd = .ok (answer, u)) :
    answer = parentOf t p path dirfd ∧ Agrees t u ∧ Steady u base (afterWalk answer held) ∧
      ∃ start, startOf p path dirfd = some start ∧ ¬Meets true t start (components path) := by
  obtain ⟨start, starts⟩ := exists_start run
  have parent : parentOf t p path dirfd = found true t start [] (components path) := by
    rw [parentOf, starts]
    rfl
  rw [nameiparent] at run
  rcases namex_ends true steady refers starts with
    ⟨⟨x, run', agrees, steady_x⟩, clear⟩ | ⟨⟨fault, failed⟩, -⟩
  · obtain ⟨rfl, rfl⟩ := Prod.mk.inj (Except.ok.inj (run'.symm.trans run))
    exact ⟨parent.symm, agrees, steady_x, start, starts, clear⟩
  · rw [failed] at run
    cases run

/-- `nameiparent` returns if the walk meets no free inode. -/
theorem nameiparent_returns {p : Proc} {path : Path} {dirfd : Int} {start : Nat}
    (steady : Steady t base held) (refers : ∀ i, p.refers i → 0 < base i)
    (starts : startOf p path dirfd = some start) (clear : ¬Meets true t start (components path)) :
    ∃ u, nameiparent t p path dirfd = .ok (parentOf t p path dirfd, u) ∧ Agrees t u ∧
      Steady u base (afterWalk (parentOf t p path dirfd) held) := by
  have parent : parentOf t p path dirfd = found true t start [] (components path) := by
    rw [parentOf, starts]
    rfl
  rw [nameiparent, parent]
  exact (namex_ends true steady refers starts).elim And.left fun meets => absurd meets.2 clear

/-- The walk to a directory that is there meets directories only. -/
theorem lookupParent_clear {start dp : Nat} {names : List Path} {name : Path}
    (parent : lookupParent t start names = some (dp, name)) : ¬Meets true t start names := by
  induction names generalizing start with
  | nil => exact id
  | cons elem names ih =>
      have dir : (t start).type = .dir := by
        by_contra other
        have none := found_not_dir other true [] elem names
        rw [found, if_pos rfl, parent] at none
        cases none
      rintro (free | ⟨more, next, below, meets⟩)
      · rw [dir] at free
        cases free
      · rw [lookupParent_cons t start elem fun last => more ⟨rfl, last⟩, below, Option.bind_some]
          at parent
        exact ih parent meets

theorem parentOf_dir {p : Proc} {path : Path} {dirfd : Int} {dp : Nat} {name : Path}
    (parent : parentOf t p path dirfd = some (dp, name)) : (t dp).type = .dir := by
  obtain ⟨start, -, leads⟩ := Option.bind_eq_some_iff.mp parent
  unfold lookupParent at leads
  obtain ⟨last, -, leads⟩ := Option.bind_eq_some_iff.mp leads
  obtain ⟨above, -, leads⟩ := Option.bind_eq_some_iff.mp leads
  split at leads
  · next dir =>
      cases leads
      exact dir
  · cases leads

/-- What `fileunlink` wants of a name. -/
structure Removable (t : Nodes) (dp : Nat) (name : Path) (removeDir : Bool) (k : Nat) : Prop where
  /-- Neither `.` nor `..`. -/
  proper : name ≠ dot ∧ name ≠ dotdot
  /-- The name is there. -/
  present : findEntry (t dp).entries name = some k
  /-- The inode has a link. -/
  linked : 1 ≤ (t (inumAt (t dp).entries k)).nlink
  /-- Directories are removed with `AT_REMOVEDIR`. -/
  kind : removeDir = true ↔ (t (inumAt (t dp).entries k)).type = .dir
  /-- A directory is empty. -/
  empty : (t (inumAt (t dp).entries k)).type = .dir →
    isdirempty (t (inumAt (t dp).entries k)) = true

/-- The inodes when the last check has passed. -/
structure Checked (t s : Nodes) (base : Nat → Nat) (dp ip : Nat) : Prop where
  /-- Nothing has changed. -/
  agrees : Agrees t s
  /-- Both inodes are held. -/
  steady : Steady s base (ip ::ₘ dp ::ₘ 0)
  /-- The directory is read. -/
  valid_dp : (s dp).valid = true
  /-- The inode is read. -/
  valid_ip : (s ip).valid = true
  /-- The inode is not free. -/
  allocated : (t ip).type ≠ .free

/-- What `fileunlink` leaves when it has removed the entry. -/
def unlinked (s : Nodes) (dp k ip : Nat) : Nodes :=
  let t := unlink s dp k
  let t := if (t ip).type = .dir then
      Function.update t dp { t dp with nlink := short ((t dp).nlink - 1) }
    else t
  let t := iput t dp
  iput (Function.update t ip { t ip with nlink := short ((t ip).nlink - 1) }) ip

/-- How `fileunlink` ends. -/
inductive Unlinking (t : Nodes) (base : Nat → Nat) (p : Proc) (path : Path)
    (dirfd : Int) (removeDir : Bool) : Int → Nodes → Prop
  /-- There is no directory. -/
  | missing {u : Nodes} {start : Nat} (none : parentOf t p path dirfd = none)
      (starts : startOf p path dirfd = some start) (clear : ¬Meets true t start (components path))
      (agrees : Agrees t u) (steady : Steady u base 0) :
      Unlinking t base p path dirfd removeDir (-enoent) u
  /-- A check fails. -/
  | refused {dp : Nat} {name : Path} {code : Int} {u : Nodes}
      (parent : parentOf t p path dirfd = some (dp, name))
      (never : ∀ k, ¬Removable t dp name removeDir k) (positive : 0 < code) (agrees : Agrees t u)
      (steady : Steady u base 0) : Unlinking t base p path dirfd removeDir code u
  /-- The entry is removed. -/
  | removed {dp k : Nat} {name : Path} {s : Nodes}
      (parent : parentOf t p path dirfd = some (dp, name))
      (removable : Removable t dp name removeDir k)
      (checked : Checked t s base dp (inumAt (t dp).entries k)) :
      Unlinking t base p path dirfd removeDir 0 (unlinked s dp k (inumAt (t dp).entries k))

/-- What `ilock` does when it returns. -/
theorem Steady.locks {i : Nat} (steady : Steady t base held) (mem : i ∈ held)
    (lock : Dir.ilock t i = .ok u) :
    Agrees t u ∧ Steady u base held ∧ (t i).type ≠ .free ∧ (u i).valid = true ∧
      ∀ j, (t j).valid = true → (u j).valid = true := by
  have allocated : (t i).type ≠ .free := by
    intro free
    rw [steady.ilock_free mem free] at lock
    cases lock
  obtain ⟨x, run, agrees, steady_x⟩ := steady.ilock mem allocated
  obtain rfl := Except.ok.inj (run.symm.trans lock)
  obtain ⟨-, -, valid, -, keeps⟩ := ilock_spec lock
  exact ⟨agrees, steady_x, allocated, valid, keeps⟩

/-- The two references that `fileunlink` drops. -/
theorem Steady.iput_two {i j : Nat} (steady : Steady t base (i ::ₘ j ::ₘ 0)) :
    Agrees t (Dir.iput (Dir.iput t i) j) ∧ Steady (Dir.iput (Dir.iput t i) j) base 0 := by
  obtain ⟨agrees, steady_x⟩ := steady.iput
  obtain ⟨later, steady_y⟩ := steady_x.iput
  exact ⟨agrees.trans later, steady_y⟩

theorem unsigned_pos {code : Int} (small : 0 < code) (below : code < 2 ^ 32) :
    0 < unsigned (-code) := by
  unfold unsigned
  omega

theorem fileunlink_cases {p : Proc} {path : Path} {dirfd : Int} {removeDir : Bool}
    {code : Int} (steady : Steady t base 0) (refers : ∀ i, p.refers i → 0 < base i)
    (run : fileunlink t p path dirfd removeDir = .ok (code, u)) :
    Unlinking t base p path dirfd removeDir code u := by
  unfold fileunlink at run
  obtain ⟨⟨answer, s⟩, walk, run⟩ := Except.bind_eq_ok.mp run
  obtain ⟨rfl, agrees_s, steady_s, start, starts, clear⟩ := nameiparent_answers steady refers walk
  cases parent : parentOf t p path dirfd with
  | none =>
      rw [parent] at run steady_s
      obtain ⟨rfl, rfl⟩ := Prod.mk.inj (Except.ok.inj run)
      apply Unlinking.missing parent starts clear agrees_s
      simpa [afterWalk] using steady_s
  | some found =>
      obtain ⟨dp, name⟩ := found
      rw [parent] at run steady_s
      obtain ⟨x, lock, run⟩ := Except.bind_eq_ok.mp run
      have dir := parentOf_dir parent
      obtain ⟨agrees_x, steady_x, -, valid_x, -⟩ :=
        steady_s.locks (Multiset.mem_cons_self dp 0) lock
      have agrees := agrees_s.trans agrees_x
      change Steady x base (dp ::ₘ 0) at steady_x
      split at run
      · next dots =>
          obtain ⟨rfl, rfl⟩ := Prod.mk.inj (Except.ok.inj run)
          obtain ⟨later, steady_y⟩ := steady_x.iput
          refine Unlinking.refused parent (fun k removable => ?_)
            (unsigned_pos (by decide) (by decide)) (agrees.trans later) steady_y
          exact dots.elim removable.proper.1 removable.proper.2
      · next proper =>
          simp only [Except.bind_eq_ok] at run
          obtain ⟨⟨hit, y⟩, look, run⟩ := run
          obtain ⟨-, ⟨rfl, rfl, absent⟩ | ⟨k, rfl, rfl, present⟩⟩ := dirlookup_spec look
          · rw [agrees.entries] at absent
            obtain ⟨rfl, rfl⟩ := Prod.mk.inj (Except.ok.inj run)
            obtain ⟨later, steady_y⟩ := steady_x.iput
            refine Unlinking.refused parent (fun k removable => ?_)
              (unsigned_pos (by decide) (by decide)) (agrees.trans later) steady_y
            exact Option.some_ne_none k (removable.present.symm.trans absent)
          · rw [agrees.entries] at present
            rw [agrees.entries] at run
            obtain ⟨agrees_y, steady_y⟩ := steady_x.iget (inumAt (t dp).entries k)
            obtain ⟨z, lock_ip, run⟩ := Except.bind_eq_ok.mp run
            obtain ⟨agrees_z, steady_z, allocated, valid_z, keeps⟩ :=
              steady_y.locks (Multiset.mem_cons_self _ _) lock_ip
            have all := agrees.trans (agrees_y.trans agrees_z)
            have empty_eq : isdirempty (z (inumAt (t dp).entries k)) =
                isdirempty (t (inumAt (t dp).entries k)) := by
              rw [isdirempty, all.entries, isdirempty]
            obtain ⟨later, steady_w⟩ := steady_z.iput_two
            have refuse {code : Int} (fails : ¬Removable t dp name removeDir k) (small : 0 < code)
                (below : code < 2 ^ 32) : Unlinking t base p path dirfd removeDir (unsigned (-code))
                  (iput (iput z (inumAt (t dp).entries k)) dp) := by
              refine Unlinking.refused parent (fun k' removable => fails ?_)
                (unsigned_pos small below) (all.trans later) steady_w
              rwa [Option.some.inj (removable.present.symm.trans present)] at removable
            rw [all.nlink, all.type, empty_eq] at run
            split at run
            · next unlinked =>
                obtain ⟨rfl, rfl⟩ := Prod.mk.inj (Except.ok.inj run)
                exact refuse (fun removable => absurd removable.linked (by omega)) (by decide)
                  (by decide)
            · next linked =>
                split at run
                · next no_dir =>
                    obtain ⟨rfl, rfl⟩ := Prod.mk.inj (Except.ok.inj run)
                    exact refuse (fun removable => no_dir.2 (removable.kind.mp no_dir.1))
                      (by decide) (by decide)
                · next kind =>
                    split at run
                    · next full =>
                        obtain ⟨rfl, rfl⟩ := Prod.mk.inj (Except.ok.inj run)
                        refine refuse (fun removable => ?_) (by decide) (by decide)
                        have empty := removable.empty (removable.kind.mp full.1)
                        exact Bool.false_ne_true (full.2.symm.trans empty)
                    · next not_full =>
                        split at run
                        · next is_dir =>
                            obtain ⟨rfl, rfl⟩ := Prod.mk.inj (Except.ok.inj run)
                            refine refuse (fun removable => ?_) (by decide) (by decide)
                            exact Bool.false_ne_true
                              (is_dir.1.symm.trans (removable.kind.mpr is_dir.2))
                        · next no_dir =>
                            obtain ⟨rfl, rfl⟩ := Prod.mk.inj (Except.ok.inj run)
                            have removes (is_dir : (t (inumAt (t dp).entries k)).type = .dir) :
                                removeDir = true :=
                              Bool.of_not_eq_false fun keeps => no_dir ⟨keeps, is_dir⟩
                            have removable : Removable t dp name removeDir k := by
                              refine ⟨not_or.mp proper, present, by omega, ⟨?_, removes⟩, ?_⟩
                              · exact fun removing => not_not.mp fun other => kind ⟨removing, other⟩
                              · exact fun is_dir => Bool.of_not_eq_false fun full =>
                                  not_full ⟨removes is_dir, full⟩
                            exact Unlinking.removed parent removable
                              ⟨all, steady_z, keeps dp (iget_valid valid_x
                                (steady_x.ref_pos (Multiset.mem_cons_self dp 0))),
                                valid_z, by rwa [← (agrees.trans agrees_y).type]⟩

/-! ## What is left -/

/-- An inode after a reference to it has been dropped. -/
def Node.put (n : Node) : Node :=
  if n.ref = 1 ∧ n.valid = true ∧ n.nlink = 0 then n.freed else { n with ref := n.ref - 1 }

theorem iput_eq (t : Nodes) (i : Nat) : iput t i = Function.update t i (t i).put := by
  unfold iput Node.put Node.freed
  split <;> rfl

/-- An inode stays if it has links or other references. -/
theorem Node.put_stays {n : Node} {ref : Nat} (counted : n.ref = ref + 1)
    (stays : n.nlink = 0 → ref ≠ 0) : n.put = { n with ref := ref } := by
  unfold Node.put
  rw [if_neg, counted]
  · rfl
  · rintro ⟨last, -, unlinked⟩
    have used := stays unlinked
    omega

/-- An inode without links is freed with its last reference. -/
theorem Node.put_frees {n : Node} (last : n.ref = 1) (valid : n.valid = true)
    (unlinked : n.nlink = 0) :
    n.put = n.freed :=
  if_pos ⟨last, valid, unlinked⟩

/-- The entry of a directory is gone, and a link of its inode. If that is a directory, it was empty,
and the link from its `..` is gone. Only an inode without links and references is freed. -/
structure Removed (t u : Nodes) (dp k ip : Nat) : Prop where
  /-- The inode is another one. -/
  apart : ip ≠ dp
  /-- An empty directory. -/
  empty : (t ip).type = .dir → isdirempty (t ip) = true
  /-- The directory of the entry. -/
  parent : u dp = { t dp with
    entries := (t dp).entries.set k Dirent.none
    nlink := (t dp).nlink - if (t ip).type = .dir then 1 else 0
    valid := (u dp).valid }
  /-- The inode. -/
  inode : u ip = { t ip with nlink := (t ip).nlink - 1, valid := (u ip).valid } ∨
    ((t ip).nlink = 1 ∧ (t ip).ref = 0) ∧ u ip = { t ip with
      nlink := 0, type := .free, content := [], entries := [], ref := 0, valid := (u ip).valid }
  /-- The other inodes. -/
  others : ∀ j, j ≠ dp → j ≠ ip → u j = { t j with valid := (u j).valid }

/-- A call that removes a name does it, or returns a negative number and changes nothing. -/
def AllOrNothing (t u : Nodes) (p : Proc) (path : Path) (dirfd : Int) (code : Int) :
    Prop :=
  (code = 0 ∧ ∃ dp name k, parentOf t p path dirfd = some (dp, name) ∧
    findEntry (t dp).entries name = some k ∧ Removed t u dp k (inumAt (t dp).entries k)) ∨
  (code < 0 ∧ ∀ j, u j = { t j with valid := (u j).valid })

/-- Between two calls only processes refer to inodes. -/
theorem Steady.ref_base (steady : Steady t base 0) (i : Nat) : (t i).ref = base i := by
  rw [steady.ref, Multiset.count_zero, Nat.add_zero]

/-- No reference changes between two calls. -/
theorem Agrees.same (agrees : Agrees t u) (before : Steady t base 0) (after : Steady u base 0)
    (j : Nat) : u j = { t j with valid := (u j).valid } := by
  have ref : (u j).ref = (t j).ref := by rw [after.ref_base, before.ref_base]
  rw [agrees j, ref]

theorem Removable.apart {extra deficit : Nat → Nat} (counted : Counted t extra deficit) {dp k : Nat}
    {name : Path} {removeDir : Bool} (dir : (t dp).type = .dir)
    (removable : Removable t dp name removeDir k) : inumAt (t dp).entries k ≠ dp := by
  intro same
  obtain ⟨e, -, used, cleared⟩ := counted.cleared dir removable.proper.1 removable.proper.2
    removable.present (m := { t dp with entries := (t dp).entries.set k Dirent.none }) rfl
  have empty := removable.empty (by rw [same, dir])
  rw [same, isdirempty, List.all_eq_true] at empty
  exact used (of_decide_eq_true (empty e cleared.old))

/-- The directory of the entry, before the reference to it is dropped. -/
def Node.cut (n : Node) (k : Nat) (isDir : Prop) [Decidable isDir] : Node :=
  { n with
    entries := n.entries.set k Dirent.none
    nlink := if isDir then short (n.nlink - 1) else n.nlink }

theorem unlinked_eq {s : Nodes} {dp k ip : Nat} (apart : ip ≠ dp) :
    unlinked s dp k ip = Function.update (Function.update s dp
      ((s dp).cut k ((s ip).type = .dir)).put) ip
      { s ip with nlink := short ((s ip).nlink - 1) }.put := by
  have cut : (if (unlink s dp k ip).type = .dir then Function.update (unlink s dp k) dp
      { unlink s dp k dp with nlink := short ((unlink s dp k dp).nlink - 1) } else unlink s dp k) =
      Function.update s dp ((s dp).cut k ((s ip).type = .dir)) := by
    unfold unlink Node.cut
    rw [Function.update_of_ne apart]
    split
    · rw [Function.update_self, Function.update_idem]
    · rfl
  unfold unlinked
  dsimp only
  rw [cut, iput_eq, Function.update_self, Function.update_idem, iput_eq, Function.update_self,
    Function.update_idem, Function.update_of_ne apart]

/-- References while `fileunlink` holds the directory and the inode. -/
theorem Checked.ref {s : Nodes} {dp ip : Nat} (checked : Checked t s base dp ip)
    (steady : Steady t base 0) (apart : ip ≠ dp) :
    (s dp).ref = (t dp).ref + 1 ∧ (s ip).ref = (t ip).ref + 1 ∧
      ∀ j, j ≠ dp → j ≠ ip → (s j).ref = (t j).ref := by
  refine ⟨?_, ?_, fun j not_dp not_ip => ?_⟩
  · rw [checked.steady.ref, steady.ref, Multiset.count_cons_of_ne apart.symm,
      Multiset.count_cons_self, Nat.add_assoc]
  · rw [checked.steady.ref, steady.ref, Multiset.count_cons_self, Multiset.count_cons_of_ne apart,
      Nat.add_assoc]
  · rw [checked.steady.ref, steady.ref, Multiset.count_cons_of_ne not_ip,
      Multiset.count_cons_of_ne not_dp]

/-- A name that may be removed is removed, unless the directory above is freed. -/
theorem removed_iff {extra deficit : Nat → Nat} {s : Nodes} {dp k : Nat} {name : Path}
    {removeDir : Bool} (counted : Counted t extra deficit) (steady : Steady t base 0)
    (range : ∀ i, (t i).type ≠ .free → (t i).nlink < 32768) (dir : (t dp).type = .dir)
    (removable : Removable t dp name removeDir k)
    (checked : Checked t s base dp (inumAt (t dp).entries k)) :
    Removed t (unlinked s dp k (inumAt (t dp).entries k)) dp k (inumAt (t dp).entries k) ↔
      ¬((t (inumAt (t dp).entries k)).type = .dir ∧ (t dp).nlink = 1 ∧ (t dp).ref = 0) := by
  have apart := removable.apart counted dir
  have linked := removable.linked
  have empty := removable.empty
  generalize inumAt (t dp).entries k = ip at apart linked empty checked ⊢
  obtain ⟨ref_dp, ref_ip, ref_others⟩ := checked.ref steady apart
  have allocated : (t dp).type ≠ .free := by
    rw [dir]
    decide
  have nonneg := counted.nlink_nonneg dir
  have below := range dp allocated
  have below_ip := range ip checked.allocated
  have short_dp : short ((t dp).nlink - 1) = (t dp).nlink - 1 := short_eq (by omega) (by omega)
  have short_ip : short ((t ip).nlink - 1) = (t ip).nlink - 1 := short_eq (by omega) (by omega)
  have at_dp := checked.agrees dp
  have at_ip := checked.agrees ip
  have others (j : Nat) (not_dp : j ≠ dp) (not_ip : j ≠ ip) :
      s j = { t j with valid := (s j).valid } := by
    rw [checked.agrees j, ref_others j not_dp not_ip]
  have cut : (s dp).cut k ((s ip).type = .dir) = { t dp with
      entries := (t dp).entries.set k Dirent.none
      nlink := (t dp).nlink - if (t ip).type = .dir then 1 else 0
      ref := (t dp).ref + 1
      valid := true } := by
    unfold Node.cut
    rw [at_dp, ref_dp, checked.valid_dp, checked.agrees.type, short_dp]
    split
    · rfl
    · rw [Int.sub_zero]
  rw [unlinked_eq apart, cut, checked.agrees.nlink ip, short_ip, at_ip, ref_ip, checked.valid_ip]
  constructor
  · rintro removed ⟨is_dir, last_link, unused⟩
    have stays := removed.parent
    rw [Function.update_of_ne apart.symm, Function.update_self, if_pos is_dir, unused, last_link,
      Node.put_frees rfl rfl rfl] at stays
    exact allocated (congrArg Node.type stays).symm
  · intro kept
    have referenced : (t dp).nlink - (if (t ip).type = .dir then 1 else 0) = 0 →
      (t dp).ref ≠ 0 := by
      intro zero unused
      split at zero
      · next is_dir => exact kept ⟨is_dir, by omega, unused⟩
      · have anchored := steady.anchored dp allocated (by omega)
        rw [← steady.ref_base] at anchored
        omega
    refine ⟨apart, empty, ?_, ?_, fun j not_dp not_ip => ?_⟩
    · rw [Function.update_of_ne apart.symm, Function.update_self, Node.put_stays rfl referenced]
    · rw [Function.update_self]
      cases Decidable.em ((t ip).nlink = 1 ∧ (t ip).ref = 0) with
      | inl last =>
          right
          refine ⟨last, ?_⟩
          rw [Node.put_frees (by simp [last.2]) rfl (by simp [last.1]), Node.freed, last.1]
          rfl
      | inr stays =>
          left
          rw [Node.put_stays rfl fun zero unused => stays ⟨by simp at zero; omega, unused⟩]
    · rw [Function.update_of_ne not_ip, Function.update_of_ne not_dp]
      exact others j not_dp not_ip

/-- When `fileunlink` keeps its promise: there is no directory to remove the name from, and the walk
there meets no free inode; or the name may be removed and the directory above is not freed with
it. -/
def Unlinks (t : Nodes) (p : Proc) (path : Path) (dirfd : Int) (removeDir : Bool) :
    Prop :=
  (∃ start, startOf p path dirfd = some start ∧ ¬Meets true t start (components path) ∧
    parentOf t p path dirfd = none) ∨
  ∃ dp name k, parentOf t p path dirfd = some (dp, name) ∧ Removable t dp name removeDir k ∧
    ¬((t (inumAt (t dp).entries k)).type = .dir ∧ (t dp).nlink = 1 ∧ (t dp).ref = 0)

/-- `fileunlink` removes a name that may be removed. -/
theorem fileunlink_removes {extra deficit : Nat → Nat} {p : Proc} {path name : Path}
    {dirfd : Int} {removeDir : Bool} {dp k : Nat} (counted : Counted t extra deficit)
    (steady : Steady t base 0) (refers : ∀ i, p.refers i → 0 < base i)
    (parent : parentOf t p path dirfd = some (dp, name))
    (removable : Removable t dp name removeDir k) :
    ∃ code u, fileunlink t p path dirfd removeDir = .ok (code, u) := by
  have dir := parentOf_dir parent
  obtain ⟨start, starts, leads⟩ := Option.bind_eq_some_iff.mp parent
  obtain ⟨s, walk, agrees_s, steady_s⟩ :=
    nameiparent_returns steady refers starts (lookupParent_clear leads)
  rw [parent] at walk steady_s
  change Steady s base (dp ::ₘ 0) at steady_s
  obtain ⟨x, lock, agrees_x, steady_x⟩ := steady_s.ilock (Multiset.mem_cons_self dp 0)
    (by rw [agrees_s.type, dir]; decide)
  have agrees := agrees_s.trans agrees_x
  have look : dirlookup x dp name =
      .ok (some (k, inumAt (t dp).entries k), Dir.iget x (inumAt (t dp).entries k)) := by
    simp only [dirlookup, agrees.type, dir, if_true, agrees.entries, removable.present]
  -- A proper name leads to an inode that is not free.
  have allocated : (t (inumAt (t dp).entries k)).type ≠ .free := by
    obtain ⟨e, names, used, cleared⟩ := counted.cleared dir removable.proper.1 removable.proper.2
      removable.present (m := { t dp with entries := (t dp).entries.set k Dirent.none }) rfl
    obtain ⟨-, type, proper, -⟩ := counted.named dp e cleared.old used
    rwa [← names, type]
  obtain ⟨agrees_y, steady_y⟩ := steady_x.iget (inumAt (t dp).entries k)
  obtain ⟨z, lock_ip, -, -⟩ := steady_y.ilock (Multiset.mem_cons_self _ _)
    (by rwa [(agrees.trans agrees_y).type])
  unfold fileunlink
  simp only [walk, Except.ok_bind, lock, if_neg (not_or.mpr removable.proper), look, lock_ip]
  repeat' split
  all_goals exact ⟨_, _, rfl⟩

/-- Between two calls, `fileunlink` returns and is all or nothing if and only if there is no
directory to remove the name from, and the walk there meets no free inode; or the name may be
removed and the directory above is not freed with it. -/
theorem fileunlink_allOrNothing_iff {strict : Prop} {p : Proc} {path : Path}
    {dirfd : Int} {removeDir : Bool} (holds : Holds strict t base 0)
    (refers : ∀ i, p.refers i → 0 < base i)
    (range : ∀ i, (t i).type ≠ .free → (t i).nlink < 32768) :
    (∃ code u, fileunlink t p path dirfd removeDir = .ok (code, u) ∧
      AllOrNothing t u p path dirfd code) ↔ Unlinks t p path dirfd removeDir := by
  have steady := Steady.of_holds holds
  obtain ⟨extra, deficit, sound, -⟩ := holds
  constructor
  · rintro ⟨code, u, run, allOrNothing⟩
    cases fileunlink_cases steady refers run with
    | missing none starts clear agrees after => exact Or.inl ⟨_, starts, clear, none⟩
    | refused parent never positive agrees after =>
        rcases allOrNothing with ⟨zero, -⟩ | ⟨negative, -⟩
        · exact absurd zero (ne_of_gt positive)
        · exact absurd negative (not_lt_of_gt positive)
    | removed parent removable checked =>
        have removed :=
          removed_iff sound.toCounted steady range (parentOf_dir parent) removable checked
        rcases allOrNothing with ⟨-, dp, name, k, parent', present, done⟩ | ⟨negative, -⟩
        · obtain ⟨rfl, rfl⟩ := Prod.mk.inj (Option.some.inj (parent.symm.trans parent'))
          obtain rfl := Option.some.inj (removable.present.symm.trans present)
          exact Or.inr ⟨_, _, _, parent, removable, removed.mp done⟩
        · exact absurd negative (by decide)
  · rintro (⟨start, starts, clear, none⟩ | ⟨dp, name, k, parent, removable, kept⟩)
    · obtain ⟨s, walk, agrees, after⟩ := nameiparent_returns steady refers starts clear
      rw [none] at walk after
      have run : fileunlink t p path dirfd removeDir = .ok (-enoent, s) := by
        rw [fileunlink, walk]
        rfl
      refine ⟨_, _, run, Or.inr ⟨by decide, agrees.same steady ?_⟩⟩
      simpa [afterWalk] using after
    · obtain ⟨code, u, run⟩ := fileunlink_removes sound.toCounted steady refers parent removable
      refine ⟨code, u, run, ?_⟩
      cases fileunlink_cases steady refers run with
      | missing none starts clear agrees after =>
          rw [parent] at none
          cases none
      | refused parent' never positive agrees after =>
          obtain ⟨rfl, rfl⟩ := Prod.mk.inj (Option.some.inj (parent'.symm.trans parent))
          exact absurd removable (never k)
      | removed parent' removable' checked =>
          obtain ⟨rfl, rfl⟩ := Prod.mk.inj (Option.some.inj (parent.symm.trans parent'))
          obtain rfl := Option.some.inj (removable.present.symm.trans removable'.present)
          have removed :=
            removed_iff sound.toCounted steady range (parentOf_dir parent) removable checked
          exact Or.inl ⟨rfl, _, _, _, parent, removable.present, removed.mpr kept⟩

/-- A symbolic link is made and removed. -/
theorem fileunlink_link :
    ∃ w, sysSymlinkat emptyBoot (fun _ => false) init slashD slashD atFdcwd = .ok (0, w) ∧
      ∃ code u, fileunlink w.nodes (w.procs init) slashD atFdcwd false = .ok (code, u) ∧
        AllOrNothing w.nodes u (w.procs init) slashD atFdcwd code := by
  have made :
    (sysSymlinkat emptyBoot (fun _ => false) init slashD slashD atFdcwd).toOption.any (fun r =>
      r.1 = 0 ∧ parentOf r.2.nodes (r.2.procs init) slashD atFdcwd = some (rootIno, [100]) ∧
        findEntry (r.2.nodes rootIno).entries [100] = some 2 ∧
        (r.2.nodes (inumAt (r.2.nodes rootIno).entries 2)).nlink = 1 ∧
        (r.2.nodes (inumAt (r.2.nodes rootIno).entries 2)).type = .symlink ∧
        (List.range ninodes).all (fun i => (r.2.nodes i).nlink < 32768)) = true := by
    decide +kernel
  obtain ⟨⟨code, w⟩, run, test⟩ := Except.exists_of_any made
  obtain ⟨rfl, parent, present, linked, type, range⟩ := of_decide_eq_true test
  dsimp only at parent present linked type range
  obtain ⟨leak, rest⟩ := emptyBoot_rest
  obtain ⟨leak', rest'⟩ : ∃ leak', Rest False w leak' :=
    ⟨_, rest.symlinkat False.elim False.elim run⟩
  refine ⟨w, run, (fileunlink_allOrNothing_iff rest'.holds (fun _ => Rest.refers init)
    (fun i allocated => ?_)).mpr (Or.inr ?_)⟩
  · have below := (Steady.of_holds rest'.holds).bounded i allocated
    exact of_decide_eq_true (List.all_eq_true.mp range i (List.mem_range.mpr below))
  · refine ⟨rootIno, [100], 2, parent, ⟨by decide, present, ?_, ?_, ?_⟩, ?_⟩
    · rw [linked]
    · rw [type]
      decide
    · rw [type]
      exact fun is_dir => by cases is_dir
    · rw [type]
      exact fun freed => by cases freed.1

/-- `unlink("/d")` of a name that does not exist returns 4294967294. -/
theorem fileunlink_absent :
    ∃ code u, fileunlink emptyBoot.nodes (emptyBoot.procs init) slashD atFdcwd false =
        .ok (code, u) ∧
      ¬AllOrNothing emptyBoot.nodes u (emptyBoot.procs init) slashD atFdcwd code := by
  have run : (fileunlink emptyBoot.nodes (emptyBoot.procs init) slashD atFdcwd
      false).toOption.any (fun r => r.1 = 4294967294) = true := by
    decide +kernel
  obtain ⟨⟨code, u⟩, returns, test⟩ := Except.exists_of_any run
  have positive : code = 4294967294 := of_decide_eq_true test
  refine ⟨code, u, returns, ?_⟩
  rw [positive]
  rintro (⟨zero, -⟩ | ⟨negative, -⟩)
  · exact absurd zero (by decide)
  · exact absurd negative (by decide)

end Dir
end Xv6Duo
