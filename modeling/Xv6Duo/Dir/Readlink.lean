import Xv6Duo.Dir.Unlink
import Xv6Duo.Fs.Content

/-!
# Reading symbolic links

`sys_readlinkat` of `kernel/sysfile.c` with `filereadlink` of `kernel/file.c`, on the memory of the
caller. A link that `sys_symlinkat` has just made is found under its path again, with the target if
there was a block for it. The buffer is copied through a null pointer before anything else, so only
a buffer at address zero is ever filled.
-/

namespace Xv6Duo
namespace Dir
namespace Readlink

open Fs (Memory PagesIn)
open ByteBlock (copyRange)
open Follow (init emptyBoot_rest)

/-! ## The calls -/

/-- `readi` of the target of a symbolic link into user memory. -/
def readi (ip : Node) (mem : Memory) (dst : Nat) (n : UInt32) : Int × Memory :=
  let m := min n.toNat ip.content.length
  if m = 0 then (0, mem)
  else
    let (copied, mem) := Fs.eitherCopyout true mem dst (ip.content.getD · 0) 0 m
    (if copied then m else -1, mem)

/-- `filereadlink`; `readi` takes the size as a `uint32_t`. -/
def filereadlink (t : Nodes) (p : Proc) (path : Path) (dirfd : Int) (mem : Memory)
    (buf : Nat) (bufsize : UInt64) : Except Fault (Int × Memory × Nodes) := do
  let (parent, t) ← nameiparent t p path dirfd
  match parent with
  | none => return (-enotdir, mem, t)
  | some (dp, _) =>
      let (found, t) ← namei (iput t dp) p path dirfd
      match found with
      | none => return (-enoent, mem, t)
      | some ip =>
          let t ← ilock t ip
          if (t ip).type ≠ .symlink then return (-einval, mem, iput t ip)
          else
            let (n, mem) := readi (t ip) mem buf bufsize.toUInt32
            return (if n ≤ 0 then -eio else n, mem, iput t ip)

/-- The prefix `/proc/self/fd/` of the paths that `sys_readlinkat` answers itself. -/
def procSelfFd : Path := [47, 112, 114, 111, 99, 47, 115, 101, 108, 102, 47, 102, 100, 47]

/-- The answer `/dev/tty`. -/
def devTty : Path := [47, 100, 101, 118, 47, 116, 116, 121]

/-- `sys_readlinkat`; `inUser` is what `in_user` says of the buffer. `argptr` takes the pointer to
the buffer by value and copies the buffer to it. -/
def sysReadlinkat (w : World) (pid : Fin nproc) (path : Path) (dirfd : Int)
    (mem : Memory) (buf : Nat) (inUser : Bool) (bufsiz : UInt64) :
    Except Fault (Int × Memory × World) := do
  let p := w.procs pid
  if buf ≠ 0 ∧ (inUser = false ∨ bufsiz ≠ 0 ∧ mem.readable (buf / Fs.pgSize) = false) then
    return (-efault, mem, w)
  if buf ≠ 0 ∧ bufsiz ≠ 0 then throw .badPointer
  if bufsiz.toNat = 0 ∨ 2 ^ 63 ≤ bufsiz.toNat then return (-einval, mem, w)
  let ret ← checkFdcwd p path dirfd
  if ret < 0 then return (ret, mem, w)
  -- `path[14] - '0'` is below 3; characters are unsigned.
  if procSelfFd.isPrefixOf path ∧ (path.getD 14 0).toNat < 51 then
    return (9, (Fs.eitherCopyout true mem 0 (devTty.getD · 0) 0 devTty.length).2, w)
  let (n, mem, t) ← filereadlink w.nodes p path dirfd mem 0 bufsiz
  return (n, mem, { w with nodes := t })

/-! ## A new name -/

variable {t u : Nodes} {base : Nat → Nat}

theorem findEntry_cons (first : Dirent) (rest : List Dirent) (name : Path) :
    findEntry (first :: rest) name =
      if first.inum ≠ 0 ∧ first.name = name then some 0 else (findEntry rest name).map (· + 1) := by
  rw [findEntry, findEntry, List.findIdx?_cons]
  simp only [decide_eq_true_eq]

/-- A placed entry is found. -/
theorem findEntry_placed {entries : List Dirent} {e : Dirent} (used : e.inum ≠ 0)
    (absent : findEntry entries e.name = none) :
    (findEntry (placeEntry entries e) e.name).map (inumAt (placeEntry entries e)) =
      some e.inum := by
  induction entries with
  | nil =>
      rw [placeEntry, findEntry_cons, if_pos ⟨used, rfl⟩]
      rfl
  | cons first rest ih =>
      rw [findEntry_cons] at absent
      split at absent
      · cases absent
      · next other =>
          rw [placeEntry]
          split
          · rw [findEntry_cons, if_pos ⟨used, rfl⟩]
            rfl
          · rw [findEntry_cons, if_neg other, Option.map_map]
            exact ih (Option.map_eq_none_iff.mp absent)

/-- Entries with other names are found as before. -/
theorem findEntry_others {entries : List Dirent} {e : Dirent} {name : Path} {i : Nat}
    (differ : e.name ≠ name) (is_there : (findEntry entries name).map (inumAt entries) = some i) :
    (findEntry (placeEntry entries e) name).map (inumAt (placeEntry entries e)) = some i := by
  induction entries with
  | nil => cases is_there
  | cons first rest ih =>
      rw [findEntry_cons] at is_there
      rw [placeEntry]
      split at is_there
      · next hit =>
          rw [if_neg hit.1, findEntry_cons, if_pos hit]
          exact is_there
      · next miss =>
          rw [Option.map_map] at is_there
          split
          · next free =>
              rw [findEntry_cons, if_neg fun both => differ both.2, Option.map_map]
              exact is_there
          · rw [findEntry_cons, if_neg miss, Option.map_map]
            exact ih is_there

/-- Inodes keep their types, and names lead where they led. -/
structure Extends (t u : Nodes) : Prop where
  /-- Types. -/
  type : ∀ i, (t i).type ≠ .free → (u i).type = (t i).type
  /-- Names. -/
  child : ∀ d name i, child t d name = some i → child u d name = some i

theorem child_dir {d i : Nat} {name : Path} (is_child : child t d name = some i) :
    (t d).type = .dir := by
  by_contra other
  rw [child_not_dir other] at is_child
  cases is_child

/-- A path whose parent was found leads to what its last name leads to. -/
theorem Extends.path (extends_t : Extends t u) {start dp i : Nat} {names : List Path} {last : Path}
    (parent : lookupParent t start names = some (dp, last)) (clear : ¬Meets true t start names)
    (is_child : Dir.child u dp last = some i) :
    lookupParent u start names = some (dp, last) ∧ ¬Meets true u start names ∧
      lookup u start names = some i ∧ ¬Meets false u start names := by
  induction names generalizing start with
  | nil => cases parent
  | cons name names ih =>
      have allocated : (t start).type ≠ .free := fun free => clear (Or.inl free)
      have same := extends_t.type start allocated
      have allocated_u : (u start).type ≠ .free := by rwa [same]
      cases names with
      | nil =>
          rw [lookupParent] at parent
          simp only [List.getLast?_singleton, Option.bind_eq_bind, Option.bind_some,
            List.dropLast_singleton] at parent
          change (if (t start).type = .dir then some (start, name) else none) = _ at parent
          split at parent
          · next dir =>
              obtain ⟨rfl, rfl⟩ := Prod.mk.inj (Option.some.inj parent)
              have dir_u : (u start).type = .dir := same.trans dir
              have leads : lookup u start [name] = some i := by
                rw [lookup_cons, is_child]
                rfl
              refine ⟨?_, ?_, leads, ?_⟩
              · exact if_pos dir_u
              · rintro (free | ⟨more, -⟩)
                · exact allocated_u free
                · exact more ⟨rfl, rfl⟩
              · rintro (free | ⟨-, next, -, meets⟩)
                · exact allocated_u free
                · exact meets
          · cases parent
      | cons name' names =>
          have more : name' :: names ≠ [] := List.cons_ne_nil _ _
          rw [lookupParent_cons _ _ _ more] at parent
          obtain ⟨next, below, parent⟩ := Option.bind_eq_some_iff.mp parent
          have below_u := extends_t.child start name next below
          have clear_next : ¬Meets true t next (name' :: names) := fun meets =>
            clear (Or.inr ⟨fun both => more both.2, next, below, meets⟩)
          obtain ⟨parent_u, clear_u, leads, clear_i⟩ := ih parent clear_next
          rw [lookupParent_cons _ _ _ more, lookup_cons, below_u]
          refine ⟨parent_u, ?_, leads, ?_⟩
          · rintro (free | ⟨-, inum, same_child, meets⟩)
            · exact allocated_u free
            · rw [below_u] at same_child
              obtain rfl := Option.some.inj same_child
              exact clear_u meets
          · rintro (free | ⟨-, inum, same_child, meets⟩)
            · exact allocated_u free
            · rw [below_u] at same_child
              obtain rfl := Option.some.inj same_child
              exact clear_i meets

/-! ## A new link -/

/-- What `filesymlink` leaves when it succeeds: the path leads to a link with the target, if there
was a block for it. -/
structure Made (t u : Nodes) (env : Env) (target : Path) (start : Nat) (names : List Path)
    (dp ip : Nat) (name : Path) : Prop where
  /-- The directory of the new name was found. -/
  parent : lookupParent t start names = some (dp, name)
  /-- On the way to it was no free inode. -/
  clear : ¬Meets true t start names
  /-- The new inode. -/
  picked : freeInode t = some ip
  /-- Nothing else has changed. -/
  keeps : Extends t u
  /-- The new name. -/
  child : child u dp name = some ip
  /-- It is a link. -/
  type : (u ip).type = .symlink
  /-- The target. -/
  content : (u ip).content = if env ip then [] else target

/-- The last name of a path is cut at `DIRSIZ` bytes. -/
theorem lookupParent_take {start dp : Nat} {path name : Path}
    (parent : lookupParent t start (components path) = some (dp, name)) :
    name.take dirSiz = name := by
  rw [lookupParent] at parent
  obtain ⟨last, is_last, parent⟩ := Option.bind_eq_some_iff.mp parent
  obtain ⟨above, -, parent⟩ := Option.bind_eq_some_iff.mp parent
  split at parent
  · obtain ⟨-, rfl⟩ := Prod.mk.inj (Option.some.inj parent)
    have mem := List.mem_of_getLast? is_last
    obtain ⟨word, -, rfl⟩ := List.mem_map.mp mem
    rw [List.take_take, min_self]
  · cases parent

theorem lookupParent_dir {start dp : Nat} {names : List Path} {name : Path}
    (parent : lookupParent t start names = some (dp, name)) : (t dp).type = .dir := by
  rw [lookupParent] at parent
  obtain ⟨last, -, parent⟩ := Option.bind_eq_some_iff.mp parent
  obtain ⟨above, -, parent⟩ := Option.bind_eq_some_iff.mp parent
  split at parent
  · next dir =>
      obtain ⟨rfl, -⟩ := Prod.mk.inj (Option.some.inj parent)
      exact dir
  · cases parent

theorem freeInode_congr (agrees : Agrees t u) : freeInode u = freeInode t := by
  unfold freeInode
  simp only [agrees.type]

/-- A new inode that has been given a name extends the names. -/
theorem extends_link {dp ip : Nat} {name : Path} (dir : (t dp).type = .dir)
    (free : (t ip).type = .free) (ip_ne : ip ≠ 0) (absent : findEntry (t dp).entries name = none)
    (type_dp : (u dp).type = .dir)
    (entries : (u dp).entries = placeEntry (t dp).entries ⟨ip, .symlink, name⟩)
    (type_ip : (u ip).type ≠ .dir)
    (others : ∀ i, i ≠ dp → i ≠ ip → (u i).type = (t i).type ∧ (u i).entries = (t i).entries) :
    Extends t u ∧ child u dp name = some ip := by
  have named : Dir.child u dp name = some ip := by
    rw [Dir.child, if_pos type_dp, entries]
    exact findEntry_placed ip_ne absent
  refine ⟨⟨fun i allocated => ?_, fun d name' i is_child => ?_⟩, named⟩
  · by_cases at_dp : i = dp
    · rw [at_dp, type_dp, dir]
    · refine (others i at_dp ?_).1
      rintro rfl
      exact allocated free
  · have dir_d := child_dir is_child
    by_cases at_dp : d = dp
    · subst at_dp
      rw [Dir.child, if_pos dir] at is_child
      rw [Dir.child, if_pos type_dp, entries]
      refine findEntry_others (fun same => ?_) is_child
      rw [← same, absent] at is_child
      cases is_child
    · have not_ip : d ≠ ip := by
        rintro rfl
        rw [free] at dir_d
        cases dir_d
      obtain ⟨type, same⟩ := others d at_dp not_ip
      rw [Dir.child, if_pos dir_d] at is_child
      rw [Dir.child, if_pos (type.trans dir_d), same]
      exact is_child

/-- `ialloc` takes the free inode that it finds first. -/
theorem ialloc_takes {held : Multiset Nat} (steady : Steady t base held) {type : FileType}
    {ip : Nat} (run : ialloc t type = some (ip, u)) (outside : ∀ i ∈ held, (t i).type ≠ .free) :
    freeInode t = some ip ∧ u = Function.update t ip
      { t ip with
        type := type, major := 0, minor := 0, nlink := 0, mode := 0, uid := 0, gid := 0,
        content := [], entries := [], ref := 1, valid := false } := by
  unfold ialloc at run
  generalize pick : freeInode t = picked at run
  cases picked with
  | none => cases run
  | some i =>
      obtain ⟨rfl, rfl⟩ := Prod.mk.inj (Option.some.inj run)
      have free := (freeInode_some pick).1
      have unheld : held.count i = 0 := by
        rw [Multiset.count_eq_zero]
        exact fun mem => outside i mem free
      have ref : (t i).ref = 0 := by rw [steady.ref, steady.idle i free, unheld]
      rw [iget, Function.update_self, if_pos ref, Function.update_idem]
      exact ⟨rfl, rfl⟩

/-- `dirlink` enters no name a second time. -/
theorem dirlink_absent {full : Bool} {dp inum : Nat} {name : Path} {type : FileType}
    (run : dirlink t full dp name inum type = .ok (true, u)) :
    findEntry (t dp).entries name = none := by
  cases entry : findEntry (t dp).entries name with
  | none => rfl
  | some k =>
      rw [dirlink, dirlookup, entry] at run
      split at run
      · cases run
      · cases run

theorem filesymlink_made {strict : Prop} {env : Env} {p : Proc} {target linkpath : Path}
    {dirfd : Int} (holds : Holds strict t base 0)
    (refers : ∀ i, p.refers i → 0 < base i)
    (run : filesymlink t env p target linkpath dirfd = .ok (0, u)) :
    ∃ start dp ip name, startOf p linkpath dirfd = some start ∧
      Made t u env target start (components linkpath) dp ip name := by
  have steady := Steady.of_holds holds
  simp only [filesymlink, Except.bind_eq_ok] at run
  obtain ⟨⟨answer, s⟩, walk, run⟩ := run
  obtain ⟨start, starts⟩ := @exists_start t p linkpath dirfd true _ walk
  rw [nameiparent] at walk
  rcases namex_ends true steady refers starts with
    ⟨⟨s', walks, agrees_s, steady_s⟩, clear⟩ | ⟨⟨fault, failed⟩, -⟩
  · obtain ⟨found_eq, rfl⟩ := Prod.mk.inj (Except.ok.inj (walks.symm.trans walk))
    rw [found_eq] at steady_s
    cases answer with
    | none =>
        simp only [Except.pure_eq_ok, Except.ok.injEq, Prod.mk.injEq] at run
        exact absurd run.1 (by decide)
    | some answer =>
        obtain ⟨dp, name⟩ := answer
        have parent : lookupParent t start (components linkpath) = some (dp, name) := found_eq
        have dir := lookupParent_dir parent
        simp only [Except.bind_eq_ok] at run
        obtain ⟨x, lock, run⟩ := run
        obtain ⟨agrees_x, steady_x, -, valid, -⟩ :=
          Steady.locks (i := dp) steady_s (by simp [afterWalk]) lock
        have agrees := agrees_s.trans agrees_x
        have dir_x : (x dp).type = .dir := (agrees.type dp).trans dir
        generalize alloc : ialloc x .symlink = allocated at run
        cases allocated with
        | none =>
            simp only [Except.pure_eq_ok, Except.ok.injEq, Prod.mk.injEq] at run
            exact absurd run.1 (by decide)
        | some new =>
            obtain ⟨ip, y⟩ := new
            obtain ⟨picked, rfl⟩ := ialloc_takes steady_x alloc (by
              intro i mem
              obtain rfl : i = dp := by simpa [afterWalk] using mem
              rw [dir_x]
              decide)
            rw [freeInode_congr agrees] at picked
            obtain ⟨free, ip_pos, -⟩ := freeInode_some picked
            have apart : ip ≠ dp := by
              rintro rfl
              exact absurd (free.symm.trans dir) (by decide)
            simp only [Except.bind_eq_ok] at run
            obtain ⟨y, lock_ip, ⟨done, z⟩, link, run⟩ := run
            rw [ilock, Function.update_self] at lock_ip
            simp only [one_ne_zero, if_false, Bool.false_eq_true, reduceCtorEq,
              Function.update_idem, Except.ok.injEq] at lock_ip
            subst lock_ip
            simp only [Function.update_self, Function.update_idem] at link
            set n : Node := { x ip with
              type := .symlink, major := 0, minor := 0, nlink := 1, mode := 0o120777, uid := 0,
              gid := 0, content := [], entries := [], ref := 1, valid := true } with n_eq
            have same_dp : Function.update x ip n dp = x dp := Function.update_of_ne apart.symm _ _
            cases done with
            | false =>
                simp only [Bool.false_eq_true, not_false_eq_true, if_true, Except.pure_eq_ok,
                  Except.ok.injEq, Prod.mk.injEq] at run
                exact absurd run.1 (by decide)
            | true =>
                have absent := dirlink_absent link
                rw [same_dp, agrees.entries] at absent
                rcases dirlink_spec link with ⟨-, rfl⟩ | ⟨no, -⟩
                · rw [same_dp, agrees.entries, lookupParent_take parent] at run
                  simp only [not_true_eq_false, if_false, Except.pure_eq_ok, Except.ok.injEq,
                    Prod.mk.injEq, true_and] at run
                  refine ⟨start, dp, ip, name, starts, ?_⟩
                  have ref_dp : (x dp).ref = base dp + 1 := by
                    rw [steady_x.ref]
                    simp [afterWalk]
                  have anchored : (x dp).nlink = 0 → base dp ≠ 0 := fun zero =>
                    (steady_x.anchored dp (by rw [dir_x]; decide) zero).ne'
                  have put_dp := @Node.put_stays { x dp with
                    entries := placeEntry (t dp).entries ⟨ip, .symlink, name⟩ } _ ref_dp anchored
                  have put_ip := @Node.put_stays { n with
                    content := if env ip = true then [] else target } 0 rfl
                      (fun zero => absurd zero one_ne_zero)
                  have u_dp : u dp = { x dp with
                      entries := placeEntry (t dp).entries ⟨ip, .symlink, name⟩,
                      ref := base dp } := by
                    rw [← run, iput_eq, Function.update_of_ne apart.symm,
                      Function.update_of_ne apart.symm, iput_eq, Function.update_self,
                      Function.update_self, put_dp]
                  have u_ip : u ip = { n with
                      content := if env ip = true then [] else target, ref := 0 } := by
                    rw [← run, iput_eq, Function.update_self, Function.update_self, iput_eq,
                      Function.update_of_ne apart, Function.update_of_ne apart,
                        Function.update_self,
                      put_ip]
                  have u_other : ∀ i, i ≠ dp → i ≠ ip → u i = x i := by
                    intro i not_dp not_ip
                    rw [← run, iput_other _ not_ip, Function.update_of_ne not_ip,
                      iput_other _ not_dp, Function.update_of_ne not_dp,
                        Function.update_of_ne not_ip]
                  obtain ⟨keeps, child⟩ := extends_link (u := u) dir free ip_pos.ne' absent
                    (by rw [u_dp]; exact dir_x) (by rw [u_dp]) (by simp [u_ip]) (by
                      intro i not_dp not_ip
                      rw [u_other i not_dp not_ip]
                      exact ⟨agrees.type i, agrees.entries i⟩)
                  exact ⟨parent, clear, picked, keeps, child, by rw [u_ip], by rw [u_ip]⟩
                · cases no
  · rw [failed] at walk
    cases walk

/-! ## Reading it -/

theorem readi_congr (agrees : Agrees t u) (ip : Nat) : readi (u ip) = readi (t ip) := by
  funext mem dst n
  simp only [readi, agrees.content]

/-- `filereadlink` of a path that leads to a link. -/
theorem filereadlink_found {p : Proc} {path : Path} {dirfd : Int}
    {start dp ip : Nat} {name : Path} (steady : Steady t base 0)
    (refers : ∀ i, p.refers i → 0 < base i) (starts : startOf p path dirfd = some start)
    (parent : lookupParent t start (components path) = some (dp, name))
    (clear : ¬Meets true t start (components path))
    (leads : lookup t start (components path) = some ip)
    (clear_ip : ¬Meets false t start (components path)) (type : (t ip).type = .symlink)
    (mem : Memory) (buf : Nat) (size : UInt64) :
    ∃ x, filereadlink t p path dirfd mem buf size =
      .ok (if (readi (t ip) mem buf size.toUInt32).1 ≤ 0 then -eio
        else (readi (t ip) mem buf size.toUInt32).1,
          (readi (t ip) mem buf size.toUInt32).2, x) := by
  rcases namex_ends true steady refers starts with
    ⟨⟨s, walks, agrees_s, steady_s⟩, -⟩ | ⟨-, meets⟩
  · have found_eq : found true t start [] (components path) = some (dp, name) := parent
    rw [found_eq] at walks steady_s
    obtain ⟨agrees_x, steady_x⟩ := @Steady.iput _ _ 0 dp steady_s
    have agrees := agrees_s.trans agrees_x
    rcases namex_ends false steady_x refers starts with
      ⟨⟨y, walks', agrees_y, steady_y⟩, -⟩ | ⟨-, meets⟩
    · have leads_x : (found false (iput s dp) start [] (components path)).map Prod.fst =
        some ip := by
        rw [agrees.found, Namex.map_found_false, leads]
      generalize found false (iput s dp) start [] (components path) = answer at *
      cases answer with
      | none => cases leads_x
      | some answer =>
          obtain ⟨i, last⟩ := answer
          obtain rfl : i = ip := Option.some.inj leads_x
          have agrees_t := agrees.trans agrees_y
          have type_y : (y i).type = .symlink := (agrees_t.type i).trans type
          obtain ⟨z, lock, agrees_z, -⟩ := Steady.ilock (i := i) steady_y (by simp [afterWalk])
            (by rw [type_y]; decide)
          have type_z : (z i).type = .symlink := (agrees_z.type i).trans type_y
          refine ⟨iput z i, ?_⟩
          simp only [filereadlink, nameiparent, walks, Except.ok_bind, namei, walks', lock, type_z,
            Except.pure_eq_ok, Option.map_some, readi_congr (agrees_t.trans agrees_z), ne_eq,
            not_true_eq_false, if_false]
    · rw [agrees.meets] at meets
      exact absurd meets clear_ip
  · exact absurd meets clear

/-- `readi` into writable memory stores what there is of the target. -/
theorem readi_stores {ip : Node} {mem : Memory} {dst : Nat} {n : UInt32}
    (writable : PagesIn mem.writable dst (min n.toNat ip.content.length)) :
    readi ip mem dst n = (((min n.toNat ip.content.length : Nat) : Int), { mem with
      bytes := copyRange mem.bytes dst (ip.content.getD · 0) 0
        (min n.toNat ip.content.length) }) := by
  unfold readi
  dsimp only
  split
  · next none =>
      simp only [none, ByteBlock.copyRange_zero]
      rfl
  · rw [Fs.eitherCopyout_spec fun _ => writable]
    rfl

/-! ## The round trip -/

/-- A memory in which some bytes have been stored. -/
def stored (mem : Memory) (buf : Nat) (bytes : Path) : Memory :=
  { mem with bytes := copyRange mem.bytes buf (bytes.getD · 0) 0 bytes.length }

/-- A read gives back the target, as far as the buffer goes, and stores nothing else. -/
def ReadsBack (target : Path) (mem : Memory) (buf : Nat) (size : UInt64)
    (outcome : Except Fault (Int × Memory × World)) : Prop :=
  ∃ w, outcome = .ok ((min size.toNat target.length : Nat),
    stored mem buf (target.take size.toNat), w)

/-- The paths that `sys_readlinkat` answers itself. -/
def Answered (path : Path) : Prop := procSelfFd.isPrefixOf path ∧ (path.getD 14 0).toNat < 51

/-- A prefix of the target is stored. -/
theorem stored_take (mem : Memory) (buf : Nat) (target : Path) (n : Nat) :
    stored mem buf (target.take n) = { mem with
      bytes := copyRange mem.bytes buf (target.getD · 0) 0 (min n target.length) } := by
  rw [stored, List.length_take]
  congr 1
  refine ByteBlock.copyRange_congr _ _ fun k k_lt => ?_
  rw [Nat.zero_add, List.getD_eq_getElem?_getD, List.getD_eq_getElem?_getD,
    List.getElem?_take_of_lt (by omega)]

/-- The answer of `sys_readlinkat` to a name in `/proc/self/fd`. -/
theorem answered_stores {mem : Memory} {n : Nat} (writable : PagesIn mem.writable 0 n)
    (enough : devTty.length ≤ n) :
    (Fs.eitherCopyout true mem 0 (devTty.getD · 0) 0 devTty.length).2 = stored mem 0 devTty := by
  rw [Fs.eitherCopyout_spec fun _ a lower upper => writable a lower (by omega)]
  rfl

/-- A buffer that is not at address zero is never filled. -/
theorem readlinkat_elsewhere {w : World} {pid : Fin nproc} {path : Path}
    {dirfd : Int} {mem : Memory} {buf : Nat} {inUser : Bool} {size : UInt64}
    (elsewhere : buf ≠ 0) (positive : 0 < size.toNat) :
    sysReadlinkat w pid path dirfd mem buf inUser size = .ok (-efault, mem, w) ∨
      sysReadlinkat w pid path dirfd mem buf inUser size = .error .badPointer := by
  have size_ne : size ≠ 0 := by
    rintro rfl
    exact absurd positive (by decide)
  unfold sysReadlinkat
  split
  · exact Or.inl rfl
  · exact Or.inr (if_pos ⟨elsewhere, size_ne⟩)

/-- `check_fdcwd` has no other answer than `0` and errors. -/
theorem checkFdcwd_zero {p : Proc} {path : Path} {dirfd ret : Int}
    (checked : checkFdcwd p path dirfd = .ok ret) (accepted : ¬ret < 0) : ret = 0 := by
  unfold checkFdcwd at checked
  split at checked
  · obtain ⟨file, -, answer⟩ := Except.bind_eq_ok.mp checked
    cases file with
    | none =>
        cases answer
        exact absurd (by decide) accepted
    | some f =>
        dsimp only at answer
        split at answer
        · cases answer
          exact absurd (by decide) accepted
        · cases answer
          rfl
  · cases checked
    rfl

/-- What a successful `sys_symlinkat` has done. -/
theorem symlinkat_run {w w' : World} {env : Env} {pid : Fin nproc} {target linkpath : Path}
    {dirfd : Int}
    (link : sysSymlinkat w env pid target linkpath dirfd = .ok (0, w')) :
    target ≠ [] ∧ checkFdcwd (w.procs pid) linkpath dirfd = .ok 0 ∧
      ∃ u, filesymlink w.nodes env (w.procs pid) target linkpath dirfd = .ok (0, u) ∧
        w' = { w with nodes := u } := by
  unfold sysSymlinkat at link
  dsimp only at link
  split at link
  · cases link
  · next some_name =>
      obtain ⟨ret, checked, link⟩ := Except.bind_eq_ok.mp link
      split at link
      · next bad =>
          obtain ⟨zero, -⟩ := Prod.mk.inj (Except.ok.inj link)
          omega
      · next good =>
          obtain ⟨⟨code, u⟩, run, done⟩ := Except.bind_eq_ok.mp link
          obtain ⟨rfl, rfl⟩ := Prod.mk.inj (Except.ok.inj done)
          obtain rfl := checkFdcwd_zero checked good
          exact ⟨fun empty => some_name (Or.inl empty), checked, u, run, rfl⟩

/-- A buffer at address zero gets past `argptr`. -/
theorem readlinkat_zero {w : World} {pid : Fin nproc} {path : Path} {dirfd : Int}
    {mem : Memory} {inUser : Bool} {size : UInt64} (positive : 0 < size.toNat)
    (good : checkFdcwd (w.procs pid) path dirfd = .ok 0) :
    sysReadlinkat w pid path dirfd mem 0 inUser size =
      if 2 ^ 63 ≤ size.toNat then .ok (-einval, mem, w)
      else if procSelfFd.isPrefixOf path ∧ (path.getD 14 0).toNat < 51 then
        .ok (9, (Fs.eitherCopyout true mem 0 (devTty.getD · 0) 0 devTty.length).2, w)
      else do
        let (n, mem, t) ← filereadlink w.nodes (w.procs pid) path dirfd mem 0 size
        return (n, mem, { w with nodes := t }) := by
  unfold sysReadlinkat
  simp only [ne_eq, not_true_eq_false, false_and, if_false, good, Except.ok_bind, Int.lt_irrefl,
    positive.ne', false_or]
  rfl

/-- The new link read into a buffer at address zero. -/
theorem filereadlink_made {strict : Prop} {env : Env} {p : Proc} {target linkpath : Path}
    {dirfd : Int} (holds : Holds strict t base 0)
    (refers : ∀ i, p.refers i → 0 < base i)
    (run : filesymlink t env p target linkpath dirfd = .ok (0, u)) {mem : Memory} {size : UInt64}
    (mapped : PagesIn mem.writable 0 size.toNat) :
    ∃ ip x, freeInode t = some ip ∧ filereadlink u p linkpath dirfd mem 0 size =
      .ok (if min size.toUInt32.toNat (if env ip then [] else target).length = 0 then -eio
          else (min size.toUInt32.toNat (if env ip then [] else target).length : Nat),
        stored mem 0 ((if env ip then [] else target).take size.toUInt32.toNat), x) := by
  obtain ⟨start, dp, ip, name, starts, made⟩ := filesymlink_made holds refers run
  have steady : Steady u base 0 := by
    obtain ⟨extra, deficit, sound, -⟩ := holds
    exact Steady.of_holds (@filesymlink_spec False t u base env p target linkpath dirfd 0
      ⟨extra, deficit, sound, False.elim⟩ refers False.elim False.elim run)
  obtain ⟨parent, clear, leads, clear_ip⟩ := made.keeps.path made.parent made.clear made.child
  obtain ⟨x, reads⟩ := filereadlink_found steady refers starts parent clear leads clear_ip made.type
    mem 0 size
  have short : size.toUInt32.toNat ≤ size.toNat := by
    rw [UInt64.toNat_toUInt32]
    exact Nat.mod_le _ _
  rw [readi_stores fun a lower upper => mapped a lower (by omega), made.content] at reads
  refine ⟨ip, x, made.picked, ?_⟩
  rw [reads, stored_take]
  generalize (if env ip then [] else target) = bytes
  congr 2
  by_cases none : min size.toUInt32.toNat bytes.length = 0
  · rw [if_pos none, if_pos (by omega)]
  · rw [if_neg none, if_neg (by omega)]

/-- A link that has just been made is read back exactly into a buffer at address zero of a size that
`int` and `uint32_t` keep, when there was a block for the target and the path is not one of those
that have an answer of their own, or that answer is the target. -/
theorem readlinkat_exact_iff {strict : Prop} {w w' : World} {env : Env} {pid : Fin nproc}
    {target linkpath : Path} {dirfd : Int} (holds : Holds strict w.nodes base 0)
    (refers : ∀ i, (w.procs pid).refers i → 0 < base i)
    (link : sysSymlinkat w env pid target linkpath dirfd = .ok (0, w')) (mem : Memory) (buf : Nat)
    (inUser : Bool) {size : UInt64} (positive : 0 < size.toNat)
    (mapped : PagesIn mem.writable buf size.toNat) :
    ReadsBack target mem buf size (sysReadlinkat w' pid linkpath dirfd mem buf inUser size) ↔
      buf = 0 ∧ size.toNat < 2 ^ 63 ∧
        (Answered linkpath ∧ min size.toNat target.length = 9 ∧
            stored mem 0 (target.take size.toNat) = stored mem 0 devTty ∨
          ¬Answered linkpath ∧ (∀ ip, freeInode w.nodes = some ip → env ip = false) ∧
            min size.toUInt32.toNat target.length = min size.toNat target.length) := by
  have size_ne : size ≠ 0 := by
    rintro rfl
    exact absurd positive (by decide)
  by_cases at_zero : buf = 0
  · subst at_zero
    obtain ⟨some_target, good, u, run, rfl⟩ := symlinkat_run link
    rw [@readlinkat_zero { w with nodes := u } pid linkpath dirfd mem inUser size positive good]
    split
    · next huge =>
        refine iff_of_false ?_ fun all => absurd all.2.1 (by omega)
        rintro ⟨x, outcome⟩
        have code := congrArg Prod.fst (Except.ok.inj outcome)
        simp only [einval] at code
        omega
    · next small =>
        split
        · next answered =>
            constructor
            · rintro ⟨x, outcome⟩
              obtain ⟨code, same, -⟩ : (9 : Int) = (min size.toNat target.length : Nat) ∧
                  (Fs.eitherCopyout true mem 0 (devTty.getD · 0) 0 devTty.length).2 =
                    stored mem 0 (target.take size.toNat) ∧ _ = x := by
                simpa using outcome
              rw [answered_stores mapped (by simp only [devTty, List.length]; omega)] at same
              exact ⟨rfl, by omega, Or.inl ⟨answered, by omega, same.symm⟩⟩
            · rintro ⟨-, -, ⟨-, nine, same⟩ | ⟨plain, -⟩⟩
              · refine ⟨{ w with nodes := u }, ?_⟩
                rw [answered_stores mapped (by simp only [devTty, List.length]; omega), same, nine]
                rfl
              · exact absurd answered plain
        · next plain =>
            obtain ⟨ip, x, picked, reads⟩ := filereadlink_made holds refers run mapped
            rw [reads]
            have room_iff : (∀ i, freeInode w.nodes = some i → env i = false) ↔ env ip = false :=
              ⟨fun all => all ip picked, fun room i same => by
                obtain rfl : ip = i := Option.some.inj (picked.symm.trans same)
                exact room⟩
            have some_bytes : 0 < min size.toNat target.length :=
              lt_min positive (List.length_pos_of_ne_nil some_target)
            rw [room_iff]
            cases room : env ip with
            | true =>
                refine iff_of_false ?_ ?_
                · rintro ⟨y, outcome⟩
                  have code := congrArg Prod.fst (Except.ok.inj outcome)
                  simp only [if_true, List.length_nil, Nat.min_zero, eio] at code
                  omega
                · rintro ⟨-, -, ⟨answered, -⟩ | ⟨-, no, -⟩⟩
                  · exact plain answered
                  · cases no
            | false =>
                simp only [Bool.false_eq_true, if_false]
                constructor
                · rintro ⟨y, outcome⟩
                  have code := congrArg Prod.fst (Except.ok.inj outcome)
                  simp only at code
                  refine ⟨trivial, by omega, Or.inr ⟨plain, trivial, ?_⟩⟩
                  split at code
                  · simp only [eio] at code
                    omega
                  · omega
                · rintro ⟨-, -, ⟨answered, -⟩ | ⟨-, -, same⟩⟩
                  · exact absurd answered plain
                  · refine ⟨{ w with nodes := x }, ?_⟩
                    rw [stored_take, stored_take, same, if_neg some_bytes.ne']
                    rfl
  · refine iff_of_false ?_ fun all => at_zero all.1
    rintro ⟨x, run⟩
    rcases @readlinkat_elsewhere w' pid linkpath dirfd mem buf inUser size at_zero positive with
      refused | fault
    · rw [refused] at run
      have code := congrArg Prod.fst (Except.ok.inj run)
      simp only [efault] at code
      omega
    · rw [fault] at run
      cases run

/-- A memory that can be read and written everywhere. -/
def everywhere : Memory := ⟨fun _ => 0, fun _ => true, fun _ => true⟩

/-- The link `/d` with the target `/d`. -/
theorem exists_link :
    ∃ w, sysSymlinkat emptyBoot (fun _ => false) init slashD slashD atFdcwd = .ok (0, w) := by
  have made : (sysSymlinkat emptyBoot (fun _ => false) init slashD slashD atFdcwd).toOption.any
      (fun r => r.1 = 0) = true := by
    decide +kernel
  obtain ⟨⟨code, w⟩, run, zero⟩ := Except.exists_of_any made
  obtain rfl : code = 0 := of_decide_eq_true zero
  exact ⟨w, run⟩

/-- It is read back into sixteen bytes at address zero. -/
theorem link_reads_back : ∃ w,
    sysSymlinkat emptyBoot (fun _ => false) init slashD slashD atFdcwd = .ok (0, w) ∧
      ReadsBack slashD everywhere 0 16
        (sysReadlinkat w init slashD atFdcwd everywhere 0 true 16) := by
  obtain ⟨w, run⟩ := exists_link
  obtain ⟨leak, rest⟩ := emptyBoot_rest
  refine ⟨w, run, (readlinkat_exact_iff rest.holds (fun _ => Rest.refers init) run everywhere 0 true
    (by decide) fun _ _ _ => rfl).mpr ⟨rfl, by decide, Or.inr ⟨?_, fun _ _ => rfl, rfl⟩⟩⟩
  rintro ⟨answered, -⟩
  exact absurd answered (by decide)

/-- It is not read back into sixteen bytes at address 4096: the kernel stores to the null
pointer. -/
theorem link_lost : ∃ w,
    sysSymlinkat emptyBoot (fun _ => false) init slashD slashD atFdcwd = .ok (0, w) ∧
      sysReadlinkat w init slashD atFdcwd everywhere 4096 true 16 = .error .badPointer ∧
      ¬ReadsBack slashD everywhere 4096 16
        (sysReadlinkat w init slashD atFdcwd everywhere 4096 true 16) := by
  obtain ⟨w, run⟩ := exists_link
  have fault : sysReadlinkat w init slashD atFdcwd everywhere 4096 true 16 =
    .error .badPointer := rfl
  refine ⟨w, run, fault, ?_⟩
  rintro ⟨x, reads⟩
  rw [fault] at reads
  cases reads

end Readlink
end Dir
end Xv6Duo
