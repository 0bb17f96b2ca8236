import Xv6Duo.Dir.Terminate

/-!
# Calls that follow links differently

A path whose links are read as a whole leads to some inode. `fileopen` opens it. The other calls
read three bytes of a target, and `sys_linkat` follows one link only, so they find that inode if and
only if the path is no link, or three bytes of its target already lead there.
-/

namespace Xv6Duo
namespace Dir
namespace Follow

variable {s : Way} {t u : Nodes} {base : Nat → Nat} {refuses : FileType → Bool} {path : Path}
    {f : Nat}

/-! ## The inode at the end of a search -/

/-- The search for a path comes to an inode. -/
inductive Way.Reaches (s : Way) (t : Nodes) (f : Nat) : Path → Prop
  /-- The path leads to the inode, which is not followed. -/
  | last {path : Path} (leads : s.leads t path = .found f) (allocated : (t f).type ≠ .free)
      (plain : ¬(s.follows = true ∧ (t f).type = .symlink)) : Way.Reaches s t f path
  /-- The path leads to a link. -/
  | link {path : Path} {i : Nat} (link : s.linkAt t path = some i)
      (rest : Way.Reaches s t f (s.target t i)) : Way.Reaches s t f path

/-- The last pass of a search hands on the inode to which its path leads. -/
theorem Way.search_last (steady : Steady t base 0) (refers : ∀ i, s.p.refers i → 0 < base i)
    (links : refuses .symlink = false) (leads : s.leads t path = .found f)
    (allocated : (t f).type ≠ .free) (plain : ¬(s.follows = true ∧ (t f).type = .symlink))
    (accepted : refuses (t f).type = false) :
    ∃ x, s.search t refuses 1 path = .ok (.ok f, x) := by
  have passes := Way.pass steady refers links 0 path
  generalize outcome : s.search t refuses 1 path = result at passes ⊢
  cases passes with
  | panics stops => exact absurd ((Way.safe_found leads).mpr allocated) stops
  | ends safe last given =>
      cases given with
      | missing nowhere =>
          rw [leads] at nowhere
          cases nowhere
      | refused there refused =>
          rw [leads] at there
          cases there
          rw [accepted] at refused
          cases refused
      | empty there link =>
          rw [leads] at there
          cases there
          exact absurd link plain
      | found there =>
          rw [leads] at there
          cases there
          exact ⟨_, rfl⟩
  | follows safe link =>
      obtain ⟨there, follows, is_link, -⟩ := Way.linkAt_some link
      rw [leads] at there
      cases there
      exact absurd ⟨follows, is_link⟩ plain

/-- A search finds the inodes that it reaches. -/
theorem Way.search_of_reaches (reaches : s.Reaches t f path)
    (refers : ∀ i, s.p.refers i → 0 < base i) (links : refuses .symlink = false)
    (accepted : refuses (t f).type = false) :
    ∃ fuel, ∀ u, Agrees t u → Steady u base 0 →
      ∃ x, s.search u refuses fuel path = .ok (.ok f, x) := by
  induction reaches with
  | last leads allocated plain =>
      refine ⟨1, fun u agrees steady => ?_⟩
      rw [← Way.leads_eq agrees] at leads
      rw [← agrees.type] at allocated plain accepted
      exact Way.search_last steady refers links leads allocated plain accepted
  | @link path i link rest ih =>
      obtain ⟨fuel, finds⟩ := ih
      refine ⟨fuel + 1, fun u agrees steady => ?_⟩
      rw [← Way.linkAt_eq agrees] at link
      have passes := Way.pass steady refers links fuel path
      generalize outcome : s.search u refuses (fuel + 1) path = result at passes ⊢
      cases passes with
      | panics stops =>
          obtain ⟨leads, -, is_link, -⟩ := Way.linkAt_some link
          refine absurd ((Way.safe_found leads).mpr ?_) stops
          rw [is_link]
          decide
      | ends safe last =>
          rw [link] at last
          cases last
      | @follows v j safe there later steady_v =>
          rw [link] at there
          cases there
          rw [Way.target_eq agrees]
          exact finds v (agrees.trans later) steady_v

/-- What a later path of the search reaches is reached. -/
theorem Way.Reaches.of_pathNo (n : Nat) {q : Path} (at_n : s.pathNo t path n = some q)
    (reaches : s.Reaches t f q) : s.Reaches t f path := by
  induction n generalizing path with
  | zero =>
      cases at_n
      exact reaches
  | succ n ih =>
      cases link : s.linkAt t path with
      | none =>
          rw [Way.pathNo_none link] at at_n
          cases at_n
      | some i =>
          rw [Way.pathNo_succ link] at at_n
          exact .link link (ih at_n)

/-- A search that finds an inode reaches it, and does not refuse it. -/
theorem Way.reaches_of_search (fuel : Nat) {x : Table} (steady : Steady t base 0)
    (refers : ∀ i, s.p.refers i → 0 < base i) (links : refuses .symlink = false)
    (found : s.search t refuses fuel path = .ok (.ok f, x)) :
    s.Reaches t f path ∧ refuses (t f).type = false := by
  obtain ⟨-, -, n, q, at_n, -, given⟩ := Way.search_run fuel steady refers links found
  cases given with
  | found leads allocated accepted plain =>
      exact ⟨Way.Reaches.of_pathNo n at_n (.last leads allocated plain), accepted⟩

/-! ## The calls -/

/-- `fileopen` opens an inode. -/
def Opens (t : Nodes) (p : Proc) (path : Path) (dirfd : Int) (flags : UInt32)
    (f : Nat) : Prop :=
  ∃ fuel x, openSearch flags p dirfd fuel ⟨t, unlocked⟩ path = .ok (.ok f, x)

/-- `filechown`, `faccess` and `sys_fstatat` act on an inode. -/
def ActsOn (t : Nodes) (p : Proc) (path : Path) (dirfd : Int) (flags : UInt32)
    (f : Nat) : Prop :=
  ∃ fuel x, flagSearch flags p dirfd fuel ⟨t, unlocked⟩ path = .ok (.ok f, x)

/-- The part of `sys_linkat` that follows a link: the path that it hands to `filelink`. -/
def linkatPath (t : Nodes) (p : Proc) (oldpath : Path) (olddirfd : Int) :
    Except Fault (Option Path × Nodes) := do
  let (found, t) ← namei t p oldpath olddirfd
  match found with
  | none => return (none, t)
  | some ip =>
      let t ← ilock t ip
      if (t ip).type = .symlink then
        if (t ip).content = [] then return (none, iput t ip)
        return (some (cstring ((t ip).content.take 3)), iput t ip)
      return (some oldpath, iput t ip)

/-- `AT_SYMLINK_FOLLOW`. -/
def atSymlinkFollow : UInt32 := 0x400

/-- `sys_linkat` that follows a link hands a path to `filelink`. -/
theorem sysLinkat_eq (w : World) (env : Env) (pid : Fin nproc) (oldpath : Path)
    (olddirfd : Int) (newpath : Path) (newdirfd : Int) (flags : UInt32)
    (old : checkFdcwd (w.procs pid) oldpath olddirfd = .ok 0)
    (new : checkFdcwd (w.procs pid) newpath newdirfd = .ok 0)
    (follow : flags &&& atSymlinkFollow ≠ 0) :
    sysLinkat w env pid oldpath olddirfd newpath newdirfd flags = do
      let (path, t) ← linkatPath w.nodes (w.procs pid) oldpath olddirfd
      match path with
      | none => return (-enoent, { w with nodes := t })
      | some path =>
          let (code, t) ← filelink t env (w.procs pid) path olddirfd newpath newdirfd
          return (code, { w with nodes := t }) := by
  have follow_bit : flags &&& 0x400 ≠ 0 := follow
  simp only [sysLinkat, linkatPath, old, new, Except.ok_bind, Int.lt_irrefl, if_false,
    if_pos follow_bit]
  cases namei w.nodes (w.procs pid) oldpath olddirfd with
  | error fault => rfl
  | ok result =>
      obtain ⟨found, t⟩ := result
      cases found with
      | none => rfl
      | some ip =>
          simp only [Except.ok_bind]
          cases ilock t ip with
          | error fault => rfl
          | ok u =>
              simp only [Except.ok_bind]
              split_ifs
              all_goals rfl

/-- `sys_linkat` links an inode: the one that `filelink` finds. -/
def Links (t : Nodes) (p : Proc) (oldpath : Path) (olddirfd : Int) (f : Nat) : Prop :=
  ∃ path u v, linkatPath t p oldpath olddirfd = .ok (some path, u) ∧
    namei u p path olddirfd = .ok (some f, v)

/-! ## Whole targets -/

/-- `MAXPATH`. -/
def maxpath : Nat := 128

/-- What a path leads to when the links at its end are followed and each target is read as a whole;
targets are at most `MAXPATH - 1` bytes. -/
inductive Resolves (t : Nodes) (p : Proc) (dirfd : Int) (f : Nat) : Path → Prop
  /-- The path names an inode that is no link. -/
  | last {path : Path} (leads : resolve t p dirfd path = .found f) (allocated : (t f).type ≠ .free)
      (plain : (t f).type ≠ .symlink) : Resolves t p dirfd f path
  /-- The path names a link. -/
  | link {path : Path} {i : Nat} (leads : resolve t p dirfd path = .found i)
      (link : (t i).type = .symlink) (bytes : (t i).content ≠ [])
      (fits : (t i).content.length ≤ maxpath - 1)
      (rest : Resolves t p dirfd f (cstring (t i).content)) : Resolves t p dirfd f path

variable {p : Proc} {dirfd : Int} {flags : UInt32}

theorem Resolves.plain (resolves : Resolves t p dirfd f path) :
    (t f).type ≠ .free ∧ (t f).type ≠ .symlink := by
  induction resolves with
  | last leads allocated plain => exact ⟨allocated, plain⟩
  | link leads link bytes fits rest ih => exact ih

/-- The buffer of `fileopen` holds every target. -/
theorem Resolves.reaches (resolves : Resolves t p dirfd f path) :
    Way.Reaches ⟨511, true, p, dirfd⟩ t f path := by
  induction resolves with
  | last leads allocated plain => exact .last leads allocated fun follows => plain follows.2
  | @link path i leads link bytes fits rest ih =>
      have whole : (t i).content.take 511 = (t i).content := by
        rw [maxpath] at fits
        exact List.take_of_length_le (by omega)
      have leads_way : Way.leads ⟨511, true, p, dirfd⟩ t path = .found i := leads
      have at_path : Way.linkAt ⟨511, true, p, dirfd⟩ t path = some i := by
        rw [Way.linkAt_found leads_way, if_pos ⟨rfl, link, by rwa [whole]⟩]
      refine .link at_path ?_
      rw [Way.target, whole]
      exact ih

/-- `fileopen` opens what the whole targets lead to. -/
theorem Resolves.opens (resolves : Resolves t p dirfd f path) (steady : Steady t base 0)
    (refers : ∀ i, p.refers i → 0 < base i)
    (accepted : (t f).type = .dir → flags &&& oAccmode = 0) : Opens t p path dirfd flags f := by
  let refuses (type : FileType) : Bool := type = .dir ∧ flags &&& oAccmode ≠ 0
  have accepts : refuses (t f).type = false := by
    apply decide_eq_false
    rintro ⟨dir, writes⟩
    exact writes (accepted dir)
  have refuses_link : refuses .symlink = false := rfl
  obtain ⟨fuel, finds⟩ := Way.search_of_reaches resolves.reaches refers refuses_link accepts
  exact ⟨fuel, finds t (Agrees.refl t) steady⟩

/-! ## Three bytes -/

theorem actsOn_iff (steady : Steady t base 0) (refers : ∀ i, p.refers i → 0 < base i)
    (follow : flags &&& atSymlinkNofollow = 0) :
    ActsOn t p path dirfd flags f ↔ Way.Reaches ⟨3, true, p, dirfd⟩ t f path := by
  have follows : decide (flags &&& atSymlinkNofollow = 0) = true := decide_eq_true follow
  let s : Way := ⟨3, true, p, dirfd⟩
  have searches : ActsOn t p path dirfd flags f ↔
      ∃ fuel x, s.search t (fun _ => false) fuel path = .ok (.ok f, x) := by
    simp only [ActsOn, flagSearch, follows]
    rfl
  rw [searches]
  constructor
  · rintro ⟨fuel, x, found⟩
    exact (Way.reaches_of_search fuel steady refers rfl found).1
  · intro reaches
    let refuses (_ : FileType) : Bool := false
    have refuses_none (type : FileType) : refuses type = false := rfl
    obtain ⟨fuel, finds⟩ :=
      Way.search_of_reaches reaches refers (refuses_none .symlink) (refuses_none (t f).type)
    exact ⟨fuel, finds t (Agrees.refl t) steady⟩

/-- What `namei` finds is what the path leads to. -/
theorem namei_found_iff {held : Multiset Nat} (steady : Steady t base held)
    (refers : ∀ i, p.refers i → 0 < base i) :
    (∃ u, namei t p path dirfd = .ok (some f, u)) ↔ resolve t p dirfd path = .found f := by
  have walked := namei_walk dirfd path steady refers
  cases leads : resolve t p dirfd path with
  | panics =>
      rw [leads] at walked
      obtain ⟨fault, run⟩ := walked
      simp [run]
  | missing =>
      rw [leads] at walked
      obtain ⟨u, run, -, -⟩ := walked
      simp [run]
  | found i =>
      rw [leads] at walked
      obtain ⟨u, run, -, -⟩ := walked
      simp [run]

/-- The first three bytes of the target of a link lead to the inode. -/
def ShortLeads (t : Nodes) (p : Proc) (dirfd : Int) (f : Nat) (path : Path) : Prop :=
  ∀ i, resolve t p dirfd path = .found i → (t i).type = .symlink →
    resolve t p dirfd (cstring ((t i).content.take 3)) = .found f

/-- What `sys_linkat` hands to `filelink` when the path names an inode. -/
theorem linkatPath_found {i : Nat} (steady : Steady t base 0)
    (refers : ∀ i, p.refers i → 0 < base i) (leads : resolve t p dirfd path = .found i)
    (allocated : (t i).type ≠ .free) :
    ∃ u, Agrees t u ∧ Steady u base 0 ∧ linkatPath t p path dirfd = .ok
      (if (t i).type = .symlink then
        if (t i).content = [] then none else some (cstring ((t i).content.take 3))
      else some path, u) := by
  have walked := namei_walk dirfd path steady refers
  rw [leads] at walked
  obtain ⟨u, run, agrees, steady_u⟩ := walked
  have mem : i ∈ i ::ₘ (0 : Multiset Nat) := Multiset.mem_cons_self i 0
  obtain ⟨v, locks, locked, steady_v⟩ :=
    steady_u.ilock mem (fun free => allocated ((agrees.type i).symm.trans free))
  have agrees_v := agrees.trans locked
  obtain ⟨dropped, steady_x⟩ := steady_v.iput
  refine ⟨_, agrees_v.trans dropped, steady_x, ?_⟩
  simp only [linkatPath, run, locks, Except.ok_bind, agrees_v.type, agrees_v.content]
  split
  · split
    · rfl
    · rfl
  · rfl

/-- `sys_linkat` links the inode to which the path leads, or else three bytes of its target. -/
theorem links_iff {i : Nat} (steady : Steady t base 0) (refers : ∀ i, p.refers i → 0 < base i)
    (leads : resolve t p dirfd path = .found i) (allocated : (t i).type ≠ .free)
    (bytes : (t i).type = .symlink → (t i).content ≠ []) :
    Links t p path dirfd f ↔ if (t i).type = .symlink then
        resolve t p dirfd (cstring ((t i).content.take 3)) = .found f
      else i = f := by
  obtain ⟨u, agrees, steady_u, run⟩ := linkatPath_found steady refers leads allocated
  have follows (next : Path)
      (run : linkatPath t p path dirfd = .ok (some next, u)) :
      Links t p path dirfd f ↔ resolve t p dirfd next = .found f := by
    rw [← agrees.resolve, ← namei_found_iff steady_u refers]
    constructor
    · rintro ⟨q, v, x, first, second⟩
      rw [run] at first
      cases first
      exact ⟨x, second⟩
    · rintro ⟨x, second⟩
      exact ⟨next, u, x, run, second⟩
  split at run
  · next link =>
      rw [if_neg (bytes link)] at run
      rw [if_pos link]
      exact follows _ run
  · next plain =>
      rw [if_neg plain, follows path run, leads, Walk.found.injEq]

/-- The calls agree on a path whose whole targets lead to an inode if and only if the path names no
link, or three bytes of the target of that link lead to the inode. -/
theorem alike_iff (steady : Steady t base 0) (refers : ∀ i, p.refers i → 0 < base i)
    (resolves : Resolves t p dirfd f path) (accepted : (t f).type = .dir → flags &&& oAccmode = 0) :
    (Opens t p path dirfd flags f ∧
        (∀ flags', flags' &&& atSymlinkNofollow = 0 → ActsOn t p path dirfd flags' f) ∧
        Links t p path dirfd f) ↔
      ShortLeads t p dirfd f path := by
  have opens := resolves.opens steady refers accepted
  obtain ⟨allocated_f, plain_f⟩ := resolves.plain
  cases resolves with
  | last leads allocated plain =>
      have links := (links_iff (f := f) steady refers leads allocated
        (fun link => absurd link plain)).mpr (by rw [if_neg plain])
      refine iff_of_true ⟨opens, fun flags' follow => ?_, links⟩ fun i there link => ?_
      · exact (actsOn_iff steady refers follow).mpr
          (.last leads allocated fun is_link => plain is_link.2)
      · rw [leads] at there
        cases there
        exact absurd link plain
  | @link _ i leads link bytes fits rest =>
      have allocated : (t i).type ≠ .free := by
        rw [link]
        decide
      have links : Links t p path dirfd f ↔
          resolve t p dirfd (cstring ((t i).content.take 3)) = .found f := by
        rw [links_iff steady refers leads allocated fun _ => bytes, if_pos link]
      constructor
      · rintro ⟨-, -, linked⟩ j there -
        rw [leads] at there
        cases there
        exact links.mp linked
      · intro short
        have leads_short := short i leads link
        refine ⟨opens, fun flags' follow => ?_, links.mpr leads_short⟩
        have leads_way : Way.leads ⟨3, true, p, dirfd⟩ t path = .found i := leads
        have some_bytes : (t i).content.take 3 ≠ [] := by
          rw [Ne, List.take_eq_nil_iff, not_or]
          exact ⟨by decide, bytes⟩
        have at_path : Way.linkAt ⟨3, true, p, dirfd⟩ t path = some i := by
          rw [Way.linkAt_found leads_way, if_pos ⟨rfl, link, some_bytes⟩]
        refine (actsOn_iff steady refers follow).mpr (.link at_path ?_)
        exact .last leads_short allocated_f fun is_link => plain_f is_link.2

/-- `symlink("/", "/d")`: the calls agree on the link, whose target has one byte. -/
theorem alike_link :
    ∃ w, sysSymlinkat emptyBoot (fun _ => false) init [slash] slashD atFdcwd = .ok (0, w) ∧
      Opens w.nodes (w.procs init) slashD atFdcwd 0 rootIno ∧
      (∀ flags', flags' &&& atSymlinkNofollow = 0 →
        ActsOn w.nodes (w.procs init) slashD atFdcwd flags' rootIno) ∧
      Links w.nodes (w.procs init) slashD atFdcwd rootIno := by
  have made : (sysSymlinkat emptyBoot (fun _ => false) init [slash] slashD atFdcwd).toOption.any
      (fun r => r.1 = 0 ∧ resolve r.2.nodes (r.2.procs init) atFdcwd slashD = .found 2 ∧
        (r.2.nodes 2).type = .symlink ∧ (r.2.nodes 2).content = [slash] ∧
        resolve r.2.nodes (r.2.procs init) atFdcwd [slash] = .found rootIno ∧
        (r.2.nodes rootIno).type = .dir) = true := by decide +kernel
  obtain ⟨⟨code, w⟩, run, test⟩ := Except.exists_of_any made
  obtain ⟨rfl, leads_d, link, target, leads, dir⟩ := of_decide_eq_true test
  obtain ⟨leak, rest⟩ := emptyBoot_rest
  obtain ⟨steady, refers⟩ := Steady.of_rest (rest.symlinkat False.elim False.elim run) init
  have whole : cstring (w.nodes 2).content = [slash] := by
    rw [target]
    decide
  have resolves : Resolves w.nodes (w.procs init) atFdcwd rootIno slashD := by
    refine .link leads_d link (by rw [target]; decide) (by rw [target]; decide) ?_
    rw [whole]
    refine .last leads ?_ ?_
    · rw [dir]
      decide
    · rw [dir]
      decide
  have accepted : (w.nodes rootIno).type = .dir → (0 : UInt32) &&& oAccmode = 0 := fun _ => rfl
  refine ⟨w, run, (alike_iff steady refers resolves accepted).mpr fun i there _ => ?_⟩
  rw [leads_d] at there
  cases there
  rw [target]
  exact leads

/-- The path `/dd`. -/
def slashDd : Path := Mkfs.ascii ['/', 'd', 'd']

/-- The path `/ddd`. -/
def slashDdd : Path := Mkfs.ascii ['/', 'd', 'd', 'd']

/-- The path `/l`. -/
def slashL : Path := Mkfs.ascii ['/', 'l']

/-- `mknod("/dd")`, `mknod("/ddd")` and `symlink("/ddd", "/l")`. -/
def makeLink : Except Fault World := do
  let (_, w) ← sysMknodat emptyBoot (fun _ => false) init slashDd atFdcwd 0o100644 0
  let (_, w) ← sysMknodat w (fun _ => false) init slashDdd atFdcwd 0o100644 0
  let (_, w) ← sysSymlinkat w (fun _ => false) init slashDdd slashL atFdcwd
  return w

/-- `open("/l")` opens `/ddd`, and the other calls act on `/dd`. -/
theorem open_differs :
    ∃ w, makeLink = .ok w ∧ Resolves w.nodes (w.procs init) atFdcwd 3 slashL ∧
      Opens w.nodes (w.procs init) slashL atFdcwd 0 3 ∧
        ActsOn w.nodes (w.procs init) slashL atFdcwd 0 2 ∧
      Links w.nodes (w.procs init) slashL atFdcwd 2 := by
  have made : makeLink.toOption.any (fun w =>
      (resolve w.nodes (w.procs init) atFdcwd slashL = .found 4 ∧ (w.nodes 4).type = .symlink ∧
        (w.nodes 4).content = slashDdd) ∧
      (resolve w.nodes (w.procs init) atFdcwd slashDdd = .found 3 ∧ (w.nodes 3).type = .file) ∧
      (openSearch 0 (w.procs init) atFdcwd 2 ⟨w.nodes, unlocked⟩ slashL).toOption.any (fun r =>
        r.1.toOption = some 3) = true ∧
      (flagSearch 0 (w.procs init) atFdcwd 2 ⟨w.nodes, unlocked⟩ slashL).toOption.any (fun r =>
        r.1.toOption = some 2) = true ∧
      (linkatPath w.nodes (w.procs init) slashL atFdcwd).toOption.any (fun r =>
        r.1 = some slashDd ∧ (namei r.2 (w.procs init) slashDd atFdcwd).toOption.any (fun q =>
          q.1 = some 2) = true) = true) = true := by decide +kernel
  obtain ⟨w, run, test⟩ := Except.exists_of_any made
  obtain ⟨⟨leads_l, link, target⟩, ⟨leads_ddd, file⟩, opens, acts, links⟩ := of_decide_eq_true test
  have found {i : Nat} {answer : Except Int Nat} (test : decide (answer.toOption = some i) = true) :
      answer = .ok i := by
    cases answer with
    | error code => cases of_decide_eq_true test
    | ok j => rw [Option.some.inj (of_decide_eq_true test)]
  refine ⟨w, run, ?_, ?_, ?_, ?_⟩
  · have bytes : (w.nodes 4).content ≠ [] := by
      rw [target]
      decide
    have fits : (w.nodes 4).content.length ≤ maxpath - 1 := by
      rw [target]
      decide
    have whole : cstring (w.nodes 4).content = slashDdd := by
      rw [target]
      decide
    refine .link leads_l link bytes fits ?_
    rw [whole]
    refine .last leads_ddd ?_ ?_
    · rw [file]
      decide
    · rw [file]
      decide
  · obtain ⟨⟨answer, x⟩, searched, at_ddd⟩ := Except.exists_of_any opens
    exact ⟨2, x, found at_ddd ▸ searched⟩
  · obtain ⟨⟨answer, x⟩, searched, at_dd⟩ := Except.exists_of_any acts
    exact ⟨2, x, found at_dd ▸ searched⟩
  · obtain ⟨⟨next, u⟩, first, rest⟩ := Except.exists_of_any links
    obtain ⟨rfl, second⟩ := of_decide_eq_true rest
    obtain ⟨⟨i, v⟩, looked_up, at_dd⟩ := Except.exists_of_any second
    obtain rfl : i = some 2 := of_decide_eq_true at_dd
    exact ⟨slashDd, u, v, first, looked_up⟩

end Follow
end Dir
end Xv6Duo
