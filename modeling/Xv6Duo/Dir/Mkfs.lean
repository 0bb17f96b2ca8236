import Xv6Duo.Dir.Processes

/-!
# The image that `mkfs` builds

The inodes and directories that `mkfs/mkfs.c` writes. Every inode gets one link, also directories
with subdirectories: a directory of the image misses a link for each of them. The bytes of the
copied files do not matter here.
-/

namespace Xv6Duo
namespace Dir

namespace Mkfs

/-- The bytes of a name. -/
def ascii (chars : List Char) : Path := chars.map fun c => c.toNat.toUInt8

/-- The image under construction. -/
structure Image where
  /-- Inodes. -/
  nodes : Nodes
  /-- `freeinode`, the number that the next `ialloc` returns. -/
  freeinode : Nat

/-- A zeroed inode. -/
def blank : Node := ⟨.free, 0, 0, 0, 0, 0, 0, [], [], 0, false⟩

/-- The zeroed card. -/
def zeroes : Image := ⟨fun _ => blank, 1⟩

/-- `ialloc`. -/
def ialloc (m : Image) (type : FileType) (uid gid mode : UInt32) : Image where
  nodes := Function.update m.nodes m.freeinode
    { blank with type := type, nlink := 1, mode := mode, uid := uid, gid := gid }
  freeinode := m.freeinode + 1

/-- `make_dirent`. -/
def makeDirent (m : Image) (inum : Nat) (type : FileType) (parent : Nat) (name : Path) : Image where
  nodes := Function.update m.nodes parent
    { m.nodes parent with
      entries := (m.nodes parent).entries ++ [⟨inum, type, name.take dirSiz⟩] }
  freeinode := m.freeinode

/-- `make_dir`. -/
def makeDir (m : Image) (parent : Nat) (name : Path) (uid gid mode : UInt32) : Image :=
  let inum := m.freeinode
  let m := ialloc m .dir uid gid mode
  let m := makeDirent m inum .dir parent name
  let m := makeDirent m inum .dir inum dot
  makeDirent m parent .dir inum dotdot

/-- `make_dev`. -/
def makeDev (m : Image) (parent : Nat) (name : Path) (major minor : UInt16)
    (uid gid mode : UInt32) : Image :=
  let inum := m.freeinode
  let m := ialloc m .device uid gid mode
  let m := makeDirent m inum .device parent name
  ⟨Function.update m.nodes inum { m.nodes inum with major := major, minor := minor }, m.freeinode⟩

/-- `make_file`. -/
def makeFile (m : Image) (parent : Nat) (name : Path) (uid gid mode : UInt32) : Image :=
  let inum := m.freeinode
  let m := ialloc m .file uid gid mode
  makeDirent m inum .file parent name

/-- The part of a path behind its last slash. -/
def basename (path : Path) : Path := (path.reverse.takeWhile (· ≠ slash)).reverse

/-- `copy_file`. -/
def copyFile (m : Image) (files : List Path) (parent : Nat) (uid gid mode : UInt32) : Image :=
  files.foldl (fun m path => makeFile m parent (basename path) uid gid mode) m

/-- The files that `mkfs` copies: its arguments and the tables of `files.h`. -/
structure Inputs where
  /-- Arguments. -/
  argv : List Path
  /-- `text_files`. -/
  textFiles : List Path
  /-- `usrbins`. -/
  usrbins : List Path
  /-- `etc_files`. -/
  etcFiles : List Path
  /-- `lib_files`. -/
  libFiles : List Path
  /-- `local_bin_files`. -/
  localBinFiles : List Path
  /-- `local_share_misc_files`. -/
  localShareMiscFiles : List Path
  /-- `home_zuki_files`. -/
  homeZukiFiles : List Path
  /-- `home_root_files`. -/
  homeRootFiles : List Path

/-- `SDMAJOR`. -/
def sdmajor : UInt16 := 0

/-- `CONMAJOR`. -/
def conmajor : UInt16 := 1

/-- The size of the root is rounded up to the next block, of 64 entries. -/
def fixRoot (m : Image) (rootino : Nat) : Image :=
  let size := (m.nodes rootino).entries.length
  let padding := List.replicate ((size / 64 + 1) * 64 - size) Dirent.none
  ⟨Function.update m.nodes rootino
    { m.nodes rootino with entries := (m.nodes rootino).entries ++ padding }, m.freeinode⟩

/-- The directories and devices that `main` makes. -/
def skeleton : Image :=
  let m := zeroes
  let rootino := m.freeinode
  let m := ialloc m .dir 0 0 0o40775
  let m := makeDirent m rootino .dir rootino dot
  let m := makeDirent m rootino .dir rootino dotdot
  let m := makeDir m rootino (ascii ['b', 'i', 'n']) 0 0 0o40775
  let devino := m.freeinode
  let m := makeDir m rootino (ascii ['d', 'e', 'v']) 0 0 0o40775
  let m := makeDev m devino (ascii ['s', 'd', 'c', '1']) sdmajor 0 0 0 0o60666
  let m := makeDev m devino (ascii ['s', 'd', 'c', '2']) sdmajor 1 0 0 0o60666
  let m := makeDev m devino (ascii ['s', 'd', 'c', '3']) sdmajor 2 0 0 0o60666
  let m := makeDev m devino (ascii ['t', 't', 'y']) conmajor 0 0 0 0o20666
  let m := makeDir m rootino (ascii ['e', 't', 'c']) 0 0 0o40775
  let m := makeDir m rootino (ascii ['l', 'i', 'b']) 0 0 0o40777
  let m := makeDir m rootino (ascii ['m', 'n', 't']) 0 0 0o40775
  let homeino := m.freeinode
  let m := makeDir m rootino (ascii ['h', 'o', 'm', 'e']) 0 0 0o40775
  let m := makeDir m homeino (ascii ['z', 'u', 'k', 'i']) 1000 1000 0o40775
  let m := makeDir m homeino (ascii ['r', 'o', 'o', 't']) 0 0 0o40775
  let usrino := m.freeinode
  let m := makeDir m rootino (ascii ['u', 's', 'r']) 0 0 0o40775
  let m := makeDir m usrino (ascii ['b', 'i', 'n']) 0 0 0o40775
  let localino := m.freeinode
  let m := makeDir m usrino (ascii ['l', 'o', 'c', 'a', 'l']) 0 0 0o40775
  let m := makeDir m localino (ascii ['b', 'i', 'n']) 0 0 0o40775
  let m := makeDir m localino (ascii ['l', 'i', 'b']) 0 0 0o40775
  let m := makeDir m localino (ascii ['i', 'n', 'c', 'l', 'u', 'd', 'e']) 0 0 0o40775
  let localshareino := m.freeinode
  let m := makeDir m localino (ascii ['s', 'h', 'a', 'r', 'e']) 0 0 0o40775
  makeDir m localshareino (ascii ['m', 'i', 's', 'c']) 0 0 0o40775

/-- The numbers of the directories into which `main` copies files. -/
def binino : Nat := 2
@[inherit_doc binino]
def etcino : Nat := 8
@[inherit_doc binino]
def libino : Nat := 9
@[inherit_doc binino]
def zukiino : Nat := 12
@[inherit_doc binino]
def suino : Nat := 13
@[inherit_doc binino]
def usrbinino : Nat := 15
@[inherit_doc binino]
def localbinino : Nat := 17
@[inherit_doc binino]
def localsharemiscino : Nat := 21

/-- `main`. -/
def main (inputs : Inputs) : Image :=
  let m := skeleton
  let m := copyFile m inputs.argv binino 0 0 0o100755
  let m := copyFile m inputs.textFiles rootIno 0 0 0o100664
  let m := copyFile m inputs.usrbins usrbinino 0 0 0o100755
  let m := copyFile m inputs.etcFiles etcino 0 0 0o100644
  let m := copyFile m inputs.libFiles libino 0 0 0o100755
  let m := copyFile m inputs.localBinFiles localbinino 0 0 0o100755
  let m := copyFile m inputs.localShareMiscFiles localsharemiscino 0 0 0o100664
  let m := copyFile m inputs.homeZukiFiles zukiino 1000 1000 0o100640
  let m := copyFile m inputs.homeRootFiles suino 0 0 0o100640
  fixRoot m rootIno

/-- Inodes that the image needs. -/
def Inputs.count (inputs : Inputs) : Nat :=
  inputs.argv.length + inputs.textFiles.length + inputs.usrbins.length + inputs.etcFiles.length +
    inputs.libFiles.length + inputs.localBinFiles.length + inputs.localShareMiscFiles.length +
    inputs.homeZukiFiles.length + inputs.homeRootFiles.length

/-! ## Counts of the image -/

/-- The image so far: a tree with one link for each inode, without cleared entries. -/
structure Built (m : Image) : Prop where
  /-- A directory misses a link for each subdirectory. -/
  counted : Counted m.nodes (fun _ => 0) fun d => (m.nodes d).subdirs
  /-- The rest of the inodes is free. -/
  free : ∀ i, m.freeinode ≤ i → (m.nodes i).type = .free
  /-- No entry is cleared. -/
  used : ∀ d, ∀ e ∈ (m.nodes d).entries, e.inum ≠ 0
  /-- Directories have names. -/
  linked : ∀ d, (m.nodes d).type = .dir → Linked m.nodes d
  /-- Every inode has one link. -/
  links : ∀ i, (m.nodes i).type ≠ .free → (m.nodes i).nlink = 1
  /-- The counter has passed the root. -/
  rooted : rootIno < m.freeinode

theorem placeEntry_append {entries : List Dirent} (used : ∀ e ∈ entries, e.inum ≠ 0) (e : Dirent) :
    placeEntry entries e = entries ++ [e] := by
  induction entries with
  | nil => rfl
  | cons first rest ih =>
      rw [placeEntry_cons (used first (by simp)), ih fun e mem => used e (by simp [mem])]
      rfl

theorem not_mem_proper_free {m : Image} (built : Built m) {i : Nat}
    (free : (m.nodes i).type = .free) : (m.nodes i).proper = [] := by
  rw [Node.proper, built.counted.plain i (by rw [free]; decide)]
  rfl

/-- One more inode with its name. -/
theorem Built.add {m : Image} (built : Built m) {parent : Nat} {n : Node} (name : Path)
    (room : m.freeinode < ninodes) (dir : (m.nodes parent).type = .dir) (n_alloc : n.type ≠ .free)
    (n_links : n.nlink = 1) (n_entries : n.entries = firstEntries n.type m.freeinode parent) :
    Built ⟨Function.update (Function.update m.nodes m.freeinode n) parent
      { m.nodes parent with
        entries := (m.nodes parent).entries ++ [⟨m.freeinode, n.type, name⟩] },
      m.freeinode + 1⟩ := by
  set i := m.freeinode with i_eq
  set above : Node := { m.nodes parent with
    entries := (m.nodes parent).entries ++ [⟨i, n.type, name⟩] } with above_eq
  have counted := built.counted
  have free := built.free i le_rfl
  have i_pos : 0 < i := (Nat.zero_le _).trans_lt built.rooted
  have apart : i ≠ parent := by
    rintro rfl
    exact absurd (free.symm.trans dir) (by decide)
  obtain ⟨parent_pos, parent_lt⟩ := counted.bounded parent (by rw [dir]; decide)
  have above_entries : above.entries = placeEntry (m.nodes parent).entries ⟨i, n.type, name⟩ :=
    (placeEntry_append (built.used parent) _).symm
  have placed := counted.placed dir (e := ⟨i, n.type, name⟩) i_pos.ne' above_entries
  have unnamed := counted.names_free free
  have unnamed_parent := naming_le_names m.nodes parent_lt i
  have own : n.proper = (m.nodes i).proper := by
    rw [not_mem_proper_free built free, Node.proper, n_entries, firstEntries]
    split <;> rfl
  have no_subdirs : n.subdirs = 0 := by
    rw [Node.subdirs, own, not_mem_proper_free built free]
    rfl
  have naming : ∀ j, j ≠ i → above.naming j = (m.nodes parent).naming j := by
    intro j differ
    rw [placed.naming, if_neg differ.symm, Nat.add_zero]
  have count : 1 + (m.nodes parent).naming i = names m.nodes i + above.naming i := by
    rw [placed.naming, if_pos rfl]
    omega
  have counts := names_edit room parent_lt apart own naming count
  set u := Function.update (Function.update m.nodes i n) parent above with u_eq
  have at_parent : u parent = above := Function.update_self ..
  have at_i : u i = n := by rw [u_eq, Function.update_of_ne apart, Function.update_self]
  have other : ∀ {j}, j ≠ i → j ≠ parent → u j = m.nodes j := by
    intro j differ_i differ_parent
    rw [u_eq, Function.update_of_ne differ_parent, Function.update_of_ne differ_i]
  have linked_parent := built.linked parent dir
  refine ⟨?_, ?_, ?_, ?_, ?_, ?_⟩
  · by_cases n_dir : n.type = .dir
    · rw [n_dir] at above_entries n_entries
      have subdirs := placed.subdirs
      rw [if_pos n_dir] at subdirs
      refine (counted.addDir (m := above) i_pos room free dir n_dir n_entries n_links dir
        above_entries ?_ (fun removed => absurd linked_parent removed) ?_ ?_).1
      · intro _
        simp only [at_parent, subdirs]
        refine ⟨?_, le_rfl⟩
        simp only [above_eq]
        push_cast
        ring
      · simp only [at_i, no_subdirs]
      · intro j differ_i differ_parent
        simp only [other differ_i differ_parent]
    · have subdirs := placed.subdirs
      rw [if_neg n_dir, Nat.add_zero] at subdirs
      rw [firstEntries, if_neg n_dir] at n_entries
      have added :=
        (counted.addPlain (m := above) i_pos room free dir n_alloc n_dir n_entries n_links dir rfl
        above_entries).1
      have no_extra : Function.update (fun _ => 0) i 0 = (fun _ => 0 : Nat → Nat) :=
        Function.update_eq_self i (fun _ => 0)
      have same_subdirs : (fun d => (u d).subdirs) = fun d => (m.nodes d).subdirs := by
        funext d
        by_cases is_parent : d = parent
        · rw [is_parent, at_parent, subdirs]
        · by_cases is_i : d = i
          · rw [is_i, at_i, no_subdirs, Node.subdirs, not_mem_proper_free built free]
            rfl
          · rw [other is_i is_parent]
      rw [no_extra] at added
      exact same_subdirs ▸ added
  · intro j behind
    have above_i : i + 1 ≤ j := behind
    have differ_parent : j ≠ parent := by
      rintro rfl
      exact absurd ((built.free j (by omega)).symm.trans dir) (by decide)
    change (u j).type = .free
    rw [other (by omega) differ_parent]
    exact built.free j (by omega)
  · intro d e mem
    change e ∈ (u d).entries at mem
    by_cases is_parent : d = parent
    · rw [is_parent, at_parent, List.mem_append] at mem
      obtain old | new := mem
      · exact built.used parent e old
      · rw [List.mem_singleton.mp new]
        exact i_pos.ne'
    · by_cases is_i : d = i
      · rw [is_i, at_i, n_entries, firstEntries] at mem
        split at mem
        · simp only [List.mem_cons, List.not_mem_nil, or_false] at mem
          obtain rfl | rfl := mem
          · exact i_pos.ne'
          · exact parent_pos.ne'
        · simp at mem
      · rw [other is_i is_parent] at mem
        exact built.used d e mem
  · intro d is_dir
    change (u d).type = .dir at is_dir
    change Linked u d
    rw [Linked, counts]
    by_cases is_i : d = i
    · rw [if_pos is_i]
      exact Or.inr Nat.one_pos
    · rw [if_neg is_i]
      refine built.linked d ?_
      by_cases is_parent : d = parent
      · rw [is_parent]
        exact dir
      · rwa [other is_i is_parent] at is_dir
  · intro j allocated
    change (u j).type ≠ .free at allocated
    change (u j).nlink = 1
    by_cases is_parent : j = parent
    · rw [is_parent, at_parent]
      exact built.links parent (by rw [dir]; decide)
    · by_cases is_i : j = i
      · rw [is_i, at_i, n_links]
      · rw [other is_i is_parent] at allocated ⊢
        exact built.links j allocated
  · exact built.rooted.trans (Nat.lt_succ_self _)

theorem Built.apart {m : Image} (built : Built m) {parent : Nat}
    (dir : (m.nodes parent).type = .dir) : m.freeinode ≠ parent := by
  rintro rfl
  exact absurd ((built.free m.freeinode le_rfl).symm.trans dir) (by decide)

theorem Built.makeDir {m : Image} (built : Built m) {parent : Nat} {name : Path}
    {uid gid mode : UInt32} (room : m.freeinode < ninodes) (dir : (m.nodes parent).type = .dir) :
    Built (makeDir m parent name uid gid mode) := by
  have apart := built.apart dir
  have added := built.add (name.take dirSiz)
    (n := { blank with
      type := .dir, nlink := 1, mode := mode, uid := uid, gid := gid,
      entries := firstEntries .dir m.freeinode parent })
    room dir (by simp) rfl rfl
  convert added using 2
  · simp only [Mkfs.makeDir, makeDirent, ialloc]
    funext j
    by_cases is_parent : j = parent
    · subst is_parent
      simp [apart, apart.symm]
    · by_cases is_i : j = m.freeinode
      · subst is_i
        simp [is_parent, firstEntries, blank, dot, dotdot, dirSiz]
      · simp [is_i, is_parent]
  · rfl

theorem Built.makeFile {m : Image} (built : Built m) {parent : Nat} {name : Path}
    {uid gid mode : UInt32} (room : m.freeinode < ninodes) (dir : (m.nodes parent).type = .dir) :
    Built (makeFile m parent name uid gid mode) := by
  have apart := built.apart dir
  have added := built.add (name.take dirSiz)
    (n := { blank with type := .file, nlink := 1, mode := mode, uid := uid, gid := gid })
    room dir (by simp) rfl rfl
  convert added using 2
  · simp only [Mkfs.makeFile, makeDirent, ialloc, Function.update_of_ne apart.symm]
  · rfl

theorem Built.makeDev {m : Image} (built : Built m) {parent : Nat} {name : Path}
    {major minor : UInt16} {uid gid mode : UInt32} (room : m.freeinode < ninodes)
    (dir : (m.nodes parent).type = .dir) :
    Built (makeDev m parent name major minor uid gid mode) := by
  have apart := built.apart dir
  have added := built.add (name.take dirSiz)
    (n := { blank with
      type := .device, nlink := 1, mode := mode, uid := uid, gid := gid, major := major,
      minor := minor })
    room dir (by simp) rfl rfl
  convert added using 2
  · simp only [Mkfs.makeDev, makeDirent, ialloc]
    funext j
    by_cases is_parent : j = parent
    · subst is_parent
      simp [apart.symm]
    · by_cases is_i : j = m.freeinode
      · subst is_i
        simp [is_parent, blank]
      · simp [is_i, is_parent]
  · rfl

/-- The empty root directory. -/
theorem Built.root (uid gid mode : UInt32) :
    Built (makeDirent (makeDirent (ialloc zeroes .dir uid gid mode) 1 .dir 1 dot) 1 .dir 1
      dotdot) := by
  set m := makeDirent (makeDirent (ialloc zeroes .dir uid gid mode) 1 .dir 1 dot) 1 .dir 1 dotdot
    with m_eq
  have at_root : (m.nodes 1).type = .dir ∧ (m.nodes 1).nlink = 1 ∧
      (m.nodes 1).entries = [⟨1, .dir, dot⟩, ⟨1, .dir, dotdot⟩] := ⟨rfl, rfl, rfl⟩
  have other : ∀ {i}, i ≠ 1 → m.nodes i = blank := by
    intro i differ
    simp [m_eq, makeDirent, ialloc, zeroes, differ]
  have is_root : ∀ {i}, (m.nodes i).type ≠ .free → i = 1 := by
    intro i allocated
    by_contra differ
    rw [other differ] at allocated
    exact allocated rfl
  have dir_root : ∀ {i}, (m.nodes i).type = .dir → i = 1 :=
    fun dir => is_root (by rw [dir]; decide)
  have proper : ∀ i, (m.nodes i).proper = [] := by
    intro i
    by_cases same : i = 1
    · rw [same, Node.proper, at_root.2.2]
      rfl
    · rw [other same]
      rfl
  refine ⟨⟨?_, ?_, ?_, ?_, ?_, ?_, ?_, ?_, ?_⟩, ?_, ?_, ?_, ?_, ?_⟩
  · intro i allocated
    rw [is_root allocated]
    decide
  · intro i plain
    have differ : i ≠ 1 := by
      rintro rfl
      exact plain at_root.1
    rw [other differ]
    rfl
  · intro d dir
    obtain rfl := dir_root dir
    exact ⟨1, [], by decide, at_root.2.2⟩
  · intro d e mem
    simp [proper] at mem
  · exact ⟨at_root.1, rfl⟩
  · intro i allocated plain
    exact absurd (is_root allocated ▸ at_root.1) plain
  · intro d _
    have none : names m.nodes d = 0 := by
      refine Finset.sum_eq_zero fun i _ => ?_
      rw [Node.naming, proper]
      rfl
    omega
  · intro d dir _
    obtain rfl := dir_root dir
    rw [at_root.2.1]
    exact ⟨by rw [Node.subdirs, proper], le_rfl⟩
  · intro d dir removed
    exact absurd (Or.inl (dir_root dir)) removed
  · intro i behind
    have above : 2 ≤ i := behind
    rw [other (by omega)]
    rfl
  · intro d e mem
    by_cases same : d = 1
    · rw [same, at_root.2.2] at mem
      simp only [List.mem_cons, List.not_mem_nil, or_false] at mem
      obtain rfl | rfl := mem <;> decide
    · rw [other same] at mem
      simp [blank] at mem
  · intro d dir
    exact Or.inl (dir_root dir)
  · intro i allocated
    rw [is_root allocated]
    exact at_root.2.1
  · exact Nat.lt_succ_self 1

/-- The image so far, its counter and some of its directories. -/
structure Progress (m : Image) (next : Nat) (dirs : List Nat) : Prop where
  /-- It is a tree. -/
  built : Built m
  /-- The next inode. -/
  freeinode : m.freeinode = next
  /-- Directories. -/
  dir : ∀ d ∈ dirs, (m.nodes d).type = .dir

theorem Progress.makeDir {m : Image} {next parent : Nat} {dirs : List Nat}
    (progress : Progress m next dirs) (above : parent ∈ dirs) (room : next < ninodes) {name : Path}
    {uid gid mode : UInt32} :
    Progress (makeDir m parent name uid gid mode) (next + 1) (next :: dirs) := by
  have freeinode := progress.freeinode
  have apart := progress.built.apart (progress.dir parent above)
  rw [freeinode] at apart
  refine ⟨progress.built.makeDir (by rwa [freeinode]) (progress.dir parent above),
    by rw [← freeinode]; rfl, ?_⟩
  intro d mem
  simp only [Mkfs.makeDir, makeDirent, ialloc, freeinode]
  by_cases is_new : d = next
  · subst is_new
    simp [apart]
  · obtain rfl | old := List.mem_cons.mp mem
    · exact absurd rfl is_new
    · rw [Function.update_of_ne is_new, Function.update_of_ne is_new]
      by_cases is_parent : d = parent
      · subst is_parent
        simp [is_new, progress.dir d old]
      · rw [Function.update_of_ne is_parent, Function.update_of_ne is_new]
        exact progress.dir d old

theorem Progress.makeDev {m : Image} {next parent : Nat} {dirs : List Nat}
    (progress : Progress m next dirs) (above : parent ∈ dirs) (room : next < ninodes) {name : Path}
    {major minor : UInt16} {uid gid mode : UInt32} :
    Progress (makeDev m parent name major minor uid gid mode) (next + 1) dirs := by
  have freeinode := progress.freeinode
  refine ⟨progress.built.makeDev (by rwa [freeinode]) (progress.dir parent above),
    by rw [← freeinode]; rfl, ?_⟩
  intro d mem
  have is_new := (progress.built.apart (progress.dir d mem)).symm
  simp only [Mkfs.makeDev, makeDirent, ialloc]
  rw [Function.update_of_ne is_new]
  by_cases is_parent : d = parent
  · subst is_parent
    simp [is_new, progress.dir d mem]
  · rw [Function.update_of_ne is_parent, Function.update_of_ne is_new]
    exact progress.dir d mem

theorem Progress.makeFile {m : Image} {next parent : Nat} {dirs : List Nat}
    (progress : Progress m next dirs) (above : parent ∈ dirs) (room : next < ninodes) {name : Path}
    {uid gid mode : UInt32} :
    Progress (makeFile m parent name uid gid mode) (next + 1) dirs := by
  have freeinode := progress.freeinode
  refine ⟨progress.built.makeFile (by rwa [freeinode]) (progress.dir parent above),
    by rw [← freeinode]; rfl, ?_⟩
  intro d mem
  have is_new := (progress.built.apart (progress.dir d mem)).symm
  simp only [Mkfs.makeFile, makeDirent, ialloc]
  by_cases is_parent : d = parent
  · subst is_parent
    simp [is_new, progress.dir d mem]
  · rw [Function.update_of_ne is_parent, Function.update_of_ne is_new]
    exact progress.dir d mem

theorem Progress.copyFile {m : Image} {next : Nat} {dirs : List Nat}
    (progress : Progress m next dirs) (files : List Path) (parent : Nat) (uid gid mode : UInt32)
    (above : parent ∈ dirs) (room : next + files.length ≤ ninodes) :
    Progress (copyFile m files parent uid gid mode) (next + files.length) dirs := by
  induction files generalizing m next with
  | nil => exact progress
  | cons path files ih =>
      rw [List.length_cons] at room
      have made : Progress (Mkfs.makeFile m parent (basename path) uid gid mode) (next + 1) dirs :=
        progress.makeFile above (by omega)
      have rest := ih made (by omega)
      rw [List.length_cons, ← Nat.add_assoc, Nat.add_right_comm]
      exact rest

/-- The directories of the skeleton, the last one first. -/
def skeletonDirs : List Nat := [21, 20, 19, 18, 17, 16, 15, 14, 13, 12, 11, 10, 9, 8, 3, 2, 1]

theorem skeleton_progress : Progress skeleton 22 skeletonDirs := by
  delta skeleton
  extract_lets m₀ rootino m₁ m₂ m₃ bin devino dev sdc1 sdc2 sdc3 tty etc lib mnt homeino home zuki
    root usrino usr usrbin localino locals localbin locallib localinclude localshareino localshare
  have start : Progress m₃ 2 [1] := by
    refine ⟨Built.root 0 0 0o40775, rfl, ?_⟩
    intro d mem
    rw [List.mem_singleton.mp mem]
    rfl
  have at_bin : Progress bin 3 [2, 1] := start.makeDir (by decide) (by decide)
  have at_dev : Progress dev 4 [3, 2, 1] := at_bin.makeDir (by decide) (by decide)
  have is_dev : devino = 3 := at_bin.freeinode
  have in_dev : devino ∈ [3, 2, 1] := by rw [is_dev]; decide
  have at_sdc1 : Progress sdc1 5 _ := at_dev.makeDev in_dev (by decide)
  have at_sdc2 : Progress sdc2 6 _ := at_sdc1.makeDev in_dev (by decide)
  have at_sdc3 : Progress sdc3 7 _ := at_sdc2.makeDev in_dev (by decide)
  have at_tty : Progress tty 8 _ := at_sdc3.makeDev in_dev (by decide)
  have at_etc : Progress etc 9 _ := at_tty.makeDir (by decide) (by decide)
  have at_lib : Progress lib 10 _ := at_etc.makeDir (by decide) (by decide)
  have at_mnt : Progress mnt 11 _ := at_lib.makeDir (by decide) (by decide)
  have at_home : Progress home 12 _ := at_mnt.makeDir (by decide) (by decide)
  have is_home : homeino = 11 := at_mnt.freeinode
  have at_zuki : Progress zuki 13 _ := at_home.makeDir (by rw [is_home]; decide) (by decide)
  have at_root : Progress root 14 _ := at_zuki.makeDir (by rw [is_home]; decide) (by decide)
  have at_usr : Progress usr 15 _ := at_root.makeDir (by decide) (by decide)
  have is_usr : usrino = 14 := at_root.freeinode
  have at_usrbin : Progress usrbin 16 _ := at_usr.makeDir (by rw [is_usr]; decide) (by decide)
  have at_local : Progress locals 17 _ := at_usrbin.makeDir (by rw [is_usr]; decide) (by decide)
  have is_local : localino = 16 := at_usrbin.freeinode
  have at_localbin : Progress localbin 18 _ :=
    at_local.makeDir (by rw [is_local]; decide) (by decide)
  have at_locallib : Progress locallib 19 _ :=
    at_localbin.makeDir (by rw [is_local]; decide) (by decide)
  have at_include : Progress localinclude 20 _ :=
    at_locallib.makeDir (by rw [is_local]; decide) (by decide)
  have at_share : Progress localshare 21 _ :=
    at_include.makeDir (by rw [is_local]; decide) (by decide)
  have is_share : localshareino = 20 := at_include.freeinode
  exact at_share.makeDir (by rw [is_share]; decide) (by decide)

/-- Cleared entries at the end of a directory do not matter. -/
theorem counted_pad {t : Nodes} {extra deficit : Nat → Nat} (counted : Counted t extra deficit)
    {d : Nat} (dir : (t d).type = .dir) (k : Nat) :
    Counted (Function.update t d
      { t d with entries := (t d).entries ++ List.replicate k Dirent.none }) extra deficit := by
  set n : Node := { t d with entries := (t d).entries ++ List.replicate k Dirent.none } with n_eq
  obtain ⟨up, rest, up_ne, entries⟩ := counted.dots d dir
  have n_entries : n.entries =
      ⟨d, .dir, dot⟩ :: ⟨up, .dir, dotdot⟩ :: (rest ++ List.replicate k Dirent.none) := by
    rw [n_eq]
    simp [entries]
  have proper : n.proper = (t d).proper ++ List.replicate k Dirent.none := by
    rw [Node.proper, Node.proper, n_entries, entries]
    rfl
  have naming : ∀ j, n.naming j = (t d).naming j := by
    intro j
    rw [Node.naming, Node.naming, proper, List.countP_append]
    simp [List.countP_replicate, Dirent.none]
  have subdirs : n.subdirs = (t d).subdirs := by
    rw [Node.subdirs, Node.subdirs, proper, List.countP_append]
    simp [List.countP_replicate, Dirent.none]
  have up_eq : n.up = (t d).up := by
    rw [Node.up, Node.up, n_entries, entries]
    rfl
  have d_lt := (counted.bounded d (by rw [dir]; decide)).2
  have same_names : ∀ j, names (Function.update t d n) j = names t j := by
    intro j
    have := names_update t d_lt n j
    have := naming j
    omega
  have types : ∀ j, (Function.update t d n j).type = (t j).type := by
    intro j
    by_cases same : j = d
    · rw [same, Function.update_self]
    · rw [Function.update_of_ne same]
  have nlinks : ∀ j, (Function.update t d n j).nlink = (t j).nlink := by
    intro j
    by_cases same : j = d
    · rw [same, Function.update_self]
    · rw [Function.update_of_ne same]
  have ups : ∀ j, (Function.update t d n j).up = (t j).up := by
    intro j
    by_cases same : j = d
    · rw [same, Function.update_self, up_eq]
    · rw [Function.update_of_ne same]
  have same_subdirs : ∀ j, (Function.update t d n j).subdirs = (t j).subdirs := by
    intro j
    by_cases same : j = d
    · rw [same, Function.update_self, subdirs]
    · rw [Function.update_of_ne same]
  refine ⟨?_, ?_, ?_, ?_, ?_, ?_, ?_, ?_, ?_⟩
  · intro i
    rw [types]
    exact counted.bounded i
  · intro i plain
    rw [types] at plain
    have differ : i ≠ d := by
      rintro rfl
      exact plain dir
    rw [Function.update_of_ne differ]
    exact counted.plain i plain
  · intro j is_dir
    by_cases same : j = d
    · rw [same, Function.update_self]
      exact ⟨up, _, up_ne, n_entries⟩
    · rw [Function.update_of_ne same] at is_dir ⊢
      exact counted.dots j is_dir
  · intro j e mem used
    rw [types, ups]
    refine counted.named j e ?_ used
    by_cases same : j = d
    · rw [same, Function.update_self, proper, List.mem_append] at mem
      obtain old | new := mem
      · exact same ▸ old
      · rw [List.eq_of_mem_replicate new] at used
        exact absurd rfl used
    · rwa [Function.update_of_ne same] at mem
  · rw [types, ups]
    exact counted.root
  · intro i
    rw [types, nlinks, same_names]
    exact counted.plainLinks i
  · intro j
    rw [types, same_names]
    exact counted.single j
  · intro j
    rw [types, nlinks, same_subdirs, Linked.congr same_names]
    exact counted.linkedLinks j
  · intro j
    rw [types, nlinks, same_subdirs, Linked.congr same_names]
    exact counted.removedLinks j

theorem fixRoot_data (m : Image) (rootino i : Nat) :
    ((fixRoot m rootino).nodes i).type = (m.nodes i).type ∧
      ((fixRoot m rootino).nodes i).nlink = (m.nodes i).nlink := by
  by_cases is_root : i = rootino
  · subst is_root
    simp [fixRoot]
  · simp [fixRoot, is_root]

/-- The inodes of an image that fits are counted, with the missing links of its directories. -/
theorem main_counted (inputs : Inputs) (fits : 22 + inputs.count ≤ ninodes) :
    (∃ deficit, Counted (main inputs).nodes (fun _ => 0) deficit) ∧
      ∀ i, ((main inputs).nodes i).type ≠ .free → ((main inputs).nodes i).nlink = 1 := by
  rw [Inputs.count] at fits
  have argv := skeleton_progress.copyFile inputs.argv binino 0 0 0o100755 (by decide) (by omega)
  have text := argv.copyFile inputs.textFiles rootIno 0 0 0o100664 (by decide) (by omega)
  have usrbins := text.copyFile inputs.usrbins usrbinino 0 0 0o100755 (by decide) (by omega)
  have etc := usrbins.copyFile inputs.etcFiles etcino 0 0 0o100644 (by decide) (by omega)
  have lib := etc.copyFile inputs.libFiles libino 0 0 0o100755 (by decide) (by omega)
  have localbin := lib.copyFile inputs.localBinFiles localbinino 0 0 0o100755 (by decide)
    (by omega)
  have misc := localbin.copyFile inputs.localShareMiscFiles localsharemiscino 0 0 0o100664
    (by decide) (by omega)
  have zuki := misc.copyFile inputs.homeZukiFiles zukiino 1000 1000 0o100640 (by decide) (by omega)
  have su := zuki.copyFile inputs.homeRootFiles suino 0 0 0o100640 (by decide) (by omega)
  have root := su.dir rootIno (by decide)
  refine ⟨⟨_, counted_pad su.built.counted root _⟩, fun i allocated => ?_⟩
  rw [main, (fixRoot_data _ rootIno i).1] at allocated
  rw [main, (fixRoot_data _ rootIno i).2]
  exact su.built.links i allocated

end Mkfs

/-! ## Start -/

/-- No process has an open file and the current directories are the root. -/
def AtRoot (procs : Fin nproc → Proc) : Prop :=
  ∀ pid, (∀ fd, (procs pid).ofile fd = none) ∧
    ((procs pid).cwd = none ∨ (procs pid).cwd = some rootIno)

/-- The start of a run: inodes from a card, which nothing has read yet. -/
def boot (nodes : Nodes) (procs : Fin nproc → Proc) : World where
  nodes i := { nodes i with ref := ∑ pid, (procs pid).uses i, valid := false }
  procs := procs
  files := 0

theorem boot_sameData (nodes : Nodes) (procs : Fin nproc → Proc) (i : Nat) :
    SameData (nodes i) ((boot nodes procs).nodes i) := by
  simp only [boot]
  exact ⟨rfl, fun _ => rfl, rfl⟩

/-- At the start the processes hold references to the root only. -/
theorem boot_referenced {nodes : Nodes} {procs : Fin nproc → Proc}
    (root : (nodes rootIno).type = .dir)
    (links : ∀ i, (nodes i).type ≠ .free → (nodes i).nlink ≠ 0) (at_root : AtRoot procs) :
    Referenced (boot nodes procs).nodes (boot nodes procs).uses 0 := by
  have same := boot_sameData nodes procs
  have unused : ∀ pid {i}, i ≠ rootIno → (procs pid).uses i = 0 := by
    intro pid i differ
    obtain ⟨closed, cwd⟩ := at_root pid
    have files : ∑ fd, fileUses i ((procs pid).ofile fd) = 0 :=
      Finset.sum_eq_zero fun fd _ => by rw [closed fd]; rfl
    rw [Proc.uses, files, if_neg]
    obtain none | root := cwd
    · simp [none]
    · simpa [root] using differ.symm
  have refs : ∀ i, ((boot nodes procs).nodes i).ref = (boot nodes procs).uses i := by
    intro i
    rw [World.uses, boot]
  have none : ∀ {i}, i ≠ rootIno → (boot nodes procs).uses i = 0 := by
    intro i differ
    rw [World.uses]
    exact Finset.sum_eq_zero fun pid _ => unused pid differ
  refine ⟨fun i => ?_, fun i free => ?_, fun i allocated zero => ?_, fun i _ _ => rfl⟩
  · rw [refs, Multiset.count_zero, Nat.add_zero]
  · rw [(same i).type] at free
    have differ : i ≠ rootIno := by
      rintro rfl
      exact absurd (free.symm.trans root) (by decide)
    rw [none differ]
  · rw [(same i).type] at allocated
    rw [(same i).nlink allocated] at zero
    exact absurd zero (links i allocated)

theorem boot_rest {nodes : Nodes} {deficit : Nat → Nat} {procs : Fin nproc → Proc}
    (counted : Counted nodes (fun _ => 0) deficit)
    (links : ∀ i, (nodes i).type ≠ .free → (nodes i).nlink = 1) (at_root : AtRoot procs) :
    Rest False (boot nodes procs) fun _ => 0 := by
  have referenced := boot_referenced counted.root.1
    (fun i allocated => by rw [links i allocated]; decide) at_root
  refine ⟨⟨fun _ => 0, deficit, ⟨counted.congr (boot_sameData nodes procs), ?_⟩, False.elim⟩,
    fun _ _ => rfl⟩
  simpa only [Nat.add_zero] using referenced

end Dir
end Xv6Duo
