import Xv6Duo.Dir.Terminate
import Xv6Duo.Library.Words

/-!
# Paths and their components

`skipelem`, `namex`, `namei` and `nameiparent` of `kernel/fs.c` on the bytes of a path in memory and
of the buffer for a name, with the locks of the inodes. They look the components of a path up one
after the other.
-/

namespace Xv6Duo
namespace Dir

/-! ## Components -/

/-- The components of a path: what stands between slashes, up to `DIRSIZ` characters. -/
def components (path : Path) : List Path := (Words.words slash path).map (·.take dirSiz)

theorem skipelem_eq (path : Path) :
    skipelem path = (Words.next slash path).map fun r => (r.1.take dirSiz, r.2) := by
  unfold skipelem Words.next
  cases path.dropWhile (· = slash) with
  | nil => rfl
  | cons first rest => rfl

/-- `skipelem` answers nothing if and only if there is no component. -/
theorem skipelem_none {path : Path} : skipelem path = none ↔ components path = [] := by
  rw [skipelem_eq, Option.map_eq_none_iff, Words.next_eq_none, components, List.map_eq_nil_iff]

/-- `skipelem` takes one component. -/
theorem skipelem_some {path elem rest : Path} (found : skipelem path = some (elem, rest)) :
    components path = elem :: components rest := by
  rw [skipelem_eq, Option.map_eq_some_iff] at found
  obtain ⟨⟨word, behind⟩, found, eq⟩ := found
  obtain ⟨rfl, rfl⟩ := Prod.mk.inj eq
  rw [components, Words.words_of_next found]
  rfl

/-- The path that `skipelem` leaves is empty if it has no component. -/
theorem skipelem_last {path elem rest : Path} (found : skipelem path = some (elem, rest)) :
    components rest = [] ↔ rest = [] := by
  rw [skipelem_eq, Option.map_eq_some_iff] at found
  obtain ⟨⟨word, behind⟩, found, eq⟩ := found
  obtain ⟨-, rfl⟩ := Prod.mk.inj eq
  rw [components, List.map_eq_nil_iff, Words.words_rest_eq_nil found]

/-! ## Lookup of components -/

/-- The inode that a directory has under a name. -/
def child (t : Nodes) (dp : Nat) (name : Path) : Option Nat :=
  if (t dp).type = .dir then (findEntry (t dp).entries name).map (inumAt (t dp).entries) else none

/-- The inode that the names lead to, one after the other. -/
def lookup (t : Nodes) (start : Nat) (names : List Path) : Option Nat :=
  names.foldlM (child t) start

/-- The directory of the last name, and the name. -/
def lookupParent (t : Nodes) (start : Nat) (names : List Path) : Option (Nat × Path) := do
  let last ← names.getLast?
  let dp ← lookup t start names.dropLast
  if (t dp).type = .dir then some (dp, last) else none

theorem lookup_cons (t : Nodes) (start : Nat) (name : Path) (names : List Path) :
    lookup t start (name :: names) = (child t start name).bind fun ip => lookup t ip names :=
  List.foldlM_cons

theorem lookupParent_cons (t : Nodes) (start : Nat) (name : Path) {names : List Path}
    (more : names ≠ []) :
    lookupParent t start (name :: names) =
      (child t start name).bind fun ip => lookupParent t ip names := by
  rw [lookupParent, List.dropLast_cons_of_ne_nil more, lookup_cons, List.getLast?_cons]
  cases last : names.getLast? with
  | none => exact absurd (List.getLast?_eq_none_iff.mp last) more
  | some elem =>
      cases child t start name with
      | none => rfl
      | some ip =>
          simp only [Option.getD_some, Option.bind_eq_bind, Option.bind_some, lookupParent, last]

/-- What `namex` gives, with the name in the buffer. -/
def found (parent : Bool) (t : Nodes) (start : Nat) (name : Path) (names : List Path) :
    Option (Nat × Path) :=
  if parent then lookupParent t start names
  else (lookup t start names).map fun ip => (ip, names.getLastD name)

theorem found_cons {parent : Bool} (t : Nodes) (start : Nat) (name elem : Path) {names : List Path}
    (more : ¬(parent ∧ names = [])) :
    found parent t start name (elem :: names) =
      (child t start elem).bind fun ip => found parent t ip elem names := by
  cases parent with
  | true => exact lookupParent_cons t start elem fun none => more ⟨rfl, none⟩
  | false =>
      simp only [found, lookup_cons, List.getLastD_cons, Option.map_bind]
      rfl

theorem found_last {t : Nodes} {start : Nat} (dir : (t start).type = .dir) (name elem : Path) :
    found true t start name [elem] = some (start, elem) := by
  simp [found, lookupParent, lookup, dir]

theorem child_not_dir {t : Nodes} {dp : Nat} (other : (t dp).type ≠ .dir) (name : Path) :
    child t dp name = none :=
  if_neg other

/-- Nothing is found below what is not a directory. -/
theorem found_not_dir {t : Nodes} {start : Nat} (other : (t start).type ≠ .dir) (parent : Bool)
    (name elem : Path) (names : List Path) :
    found parent t start name (elem :: names) = none := by
  cases Decidable.em (parent ∧ names = []) with
  | inl last =>
      obtain ⟨is_parent, rfl⟩ := last
      simp [found, is_parent, lookupParent, lookup, other]
  | inr more => rw [found_cons t start name elem more, child_not_dir other, Option.bind_none]

/-- Entries of directories lead to inodes that are not free. -/
structure Tree (t : Nodes) : Prop where
  /-- The root directory. -/
  root : (t rootIno).type ≠ .free
  /-- The entries. -/
  named : ∀ d, (t d).type = .dir → ∀ e ∈ (t d).entries, e.inum ≠ 0 → (t e.inum).type ≠ .free

variable {t u : Nodes} {base : Nat → Nat} {held : Multiset Nat}

theorem Tree.child (tree : Tree t) {dp ip : Nat} {name : Path}
    (is_child : child t dp name = some ip) :
    (t ip).type ≠ .free := by
  unfold Dir.child at is_child
  split at is_child
  · next dir =>
      rw [Option.map_eq_some_iff] at is_child
      obtain ⟨k, entry, rfl⟩ := is_child
      obtain ⟨below, used, -⟩ := findEntry_some entry
      rw [inumAt_eq below]
      exact tree.named dp dir _ (List.getElem_mem below) used
  · cases is_child

/-- The directories that have names form a tree. -/
theorem Tree.of_counted {extra deficit : Nat → Nat} (counted : Counted t extra deficit)
    (linked : ∀ d, (t d).type = .dir → Linked t d) : Tree t := by
  have root : (t rootIno).type ≠ .free := by
    rw [counted.root.1]
    decide
  refine ⟨root, fun d dir e mem used => ?_⟩
  obtain ⟨up, rest, -, entries⟩ := counted.dots d dir
  have above : (t d).up = up := by
    rw [Node.up, entries]
    rfl
  have proper : (t d).proper = rest := by
    rw [Node.proper, entries]
    rfl
  rw [entries, List.mem_cons, List.mem_cons] at mem
  rcases mem with rfl | rfl | mem
  · rw [dir]
    decide
  · rcases linked d dir with is_root | named
    · rw [← above, is_root, counted.root.2]
      exact root
    · obtain ⟨parent, -, e, mem, used, names⟩ := exists_naming named
      obtain ⟨-, type, -, is_up⟩ := counted.named parent e mem used
      rw [names, dir] at type
      rw [← above, ← names, is_up type.symm]
      intro free
      have empty := counted.plain parent (by rw [free]; decide)
      rw [Node.proper, empty] at mem
      cases mem
  · rw [← proper] at mem
    obtain ⟨-, type, allocated, -⟩ := counted.named d e mem used
    rwa [type]

/-- A search that answers: it leaves the inodes as they are and holds the one that it found. -/
def Answers (t : Nodes) (base : Nat → Nat) (held : Multiset Nat) (answer : Option (Nat × Path))
    (run : Except Fault (Option (Nat × Path) × Nodes)) : Prop :=
  ∃ u, run = .ok (answer, u) ∧ Agrees t u ∧ Steady u base (afterWalk answer held)

theorem Agrees.child (agrees : Agrees t u) (dp : Nat) (name : Path) :
    child u dp name = child t dp name := by
  rw [Dir.child, Dir.child, agrees.type, agrees.entries]

theorem Agrees.lookup (agrees : Agrees t u) (start : Nat) (names : List Path) :
    lookup u start names = lookup t start names := by
  unfold Dir.lookup
  rw [funext fun dp => funext fun name => agrees.child dp name]

theorem Agrees.found (agrees : Agrees t u) (parent : Bool) (start : Nat) (name : Path)
    (names : List Path) : found parent u start name names = found parent t start name names := by
  unfold Dir.found lookupParent
  simp only [agrees.lookup, agrees.type]

theorem Agrees.tree (agrees : Agrees t u) (tree : Tree t) : Tree u := by
  constructor
  · rw [agrees.type]
    exact tree.root
  · intro d dir e mem
    rw [agrees.type] at dir ⊢
    rw [agrees.entries] at mem
    exact tree.named d dir e mem

theorem answers_none (agrees : Agrees t u) (steady : Steady u base held) :
    Answers t base held none (.ok (none, u)) :=
  ⟨u, rfl, agrees, by rwa [afterWalk, Option.map_none, Option.toList_none, Multiset.coe_nil,
    zero_add]⟩

theorem answers_some {ip : Nat} (agrees : Agrees t u) (steady : Steady u base (ip ::ₘ held))
    (name : Path) : Answers t base held (some (ip, name)) (.ok (some (ip, name), u)) :=
  ⟨u, rfl, agrees, steady⟩

theorem Answers.after {answer : Option (Nat × Path)}
    {run : Except Fault (Option (Nat × Path) × Nodes)} (answers : Answers u base held answer run)
    (agrees : Agrees t u) : Answers t base held answer run := by
  obtain ⟨x, run, later, steady⟩ := answers
  exact ⟨x, run, agrees.trans later, steady⟩

/-- The walk along the names meets a free inode. -/
def Meets (parent : Bool) (t : Nodes) : Nat → List Path → Prop
  | _, [] => False
  | ip, name :: names => (t ip).type = .free ∨ ¬(parent ∧ names = []) ∧
      ∃ next, child t ip name = some next ∧ Meets parent t next names

theorem Agrees.meets (agrees : Agrees t u) {parent : Bool} {ip : Nat} {names : List Path} :
    Meets parent u ip names ↔ Meets parent t ip names := by
  induction names generalizing ip with
  | nil => rfl
  | cons name names ih => simp only [Meets, agrees.type, agrees.child, ih]

/-- In a tree there is no free inode behind the start. -/
theorem Tree.not_meets (tree : Tree t) {parent : Bool} {ip : Nat} {names : List Path}
    (allocated : (t ip).type ≠ .free) : ¬Meets parent t ip names := by
  induction names generalizing ip with
  | nil => exact id
  | cons name names ih =>
      rintro (free | ⟨-, next, below, meets⟩)
      · exact allocated free
      · exact ih (tree.child below) meets

/-- The loop of `namex` looks the components up, unless it meets a free inode. -/
theorem namexLoop_ends (parent : Bool) (fuel : Nat) {ip : Nat} (name : Path) {path : Path}
    (steady : Steady t base (ip ::ₘ held)) (enough : path.length < fuel) :
    Answers t base held (found parent t ip name (components path))
        (namexLoop parent fuel t ip name path) ∧ ¬Meets parent t ip (components path) ∨
      (∃ fault, namexLoop parent fuel t ip name path = .error fault) ∧
        Meets parent t ip (components path) := by
  induction fuel generalizing t ip name path with
  | zero => exact absurd enough (Nat.not_lt_zero _)
  | succ fuel ih =>
      have mem : ip ∈ ip ::ₘ held := Multiset.mem_cons_self ip held
      rw [namexLoop]
      cases next : skipelem path with
      | none =>
          rw [skipelem_none.mp next]
          refine Or.inl ⟨?_, id⟩
          cases parent with
          | true =>
              obtain ⟨agrees, steady_x⟩ := steady.iput
              exact answers_none agrees steady_x
          | false => exact answers_some (Agrees.refl t) steady name
      | some elem =>
          obtain ⟨elem, rest⟩ := elem
          have shorter := skipelem_length next
          rw [skipelem_some next]
          simp only
          cases Decidable.em ((t ip).type = .free) with
          | inl free =>
              right
              exact ⟨⟨_, by rw [steady.ilock_free mem free]; rfl⟩, Or.inl free⟩
          | inr allocated =>
              obtain ⟨s, locks, agrees_s, steady_s⟩ := steady.ilock mem allocated
              have type := agrees_s.type ip
              simp only [locks, Except.ok_bind, type]
              split
              · -- not a directory
                next other =>
                  obtain ⟨agrees_x, steady_x⟩ := steady_s.iput
                  rw [found_not_dir other]
                  refine Or.inl ⟨answers_none (agrees_s.trans agrees_x) steady_x, ?_⟩
                  rintro (free | ⟨-, below, is_child, -⟩)
                  · exact allocated free
                  · rw [child_not_dir other] at is_child
                    cases is_child
              · next dir =>
                  have is_dir : (s ip).type = .dir := type.trans (not_not.mp dir)
                  split
                  · -- one level early
                    next last =>
                      have final := (skipelem_last next).mpr last.2
                      rw [final, last.1, found_last (not_not.mp dir)]
                      refine Or.inl ⟨answers_some agrees_s steady_s elem, ?_⟩
                      rintro (free | ⟨more, -⟩)
                      · exact allocated free
                      · exact more ⟨rfl, rfl⟩
                  · next more =>
                      rw [← skipelem_last next] at more
                      rw [found_cons t ip name elem more]
                      simp only [dirlookup, is_dir, if_true, agrees_s.entries, child,
                        not_not.mp dir]
                      cases entry : findEntry (t ip).entries elem with
                      | none =>
                          obtain ⟨agrees_x, steady_x⟩ := steady_s.iput
                          refine Or.inl ⟨answers_none (agrees_s.trans agrees_x) steady_x, ?_⟩
                          rintro (free | ⟨-, below, is_child, -⟩)
                          · exact allocated free
                          · rw [child, entry, Option.map_none, ite_self] at is_child
                            cases is_child
                      | some k =>
                          have below : child t ip elem = some (inumAt (t ip).entries k) := by
                            rw [child, if_pos (not_not.mp dir), entry, Option.map_some]
                          obtain ⟨agrees_x, steady_x⟩ := steady_s.iget (inumAt (t ip).entries k)
                          rw [Multiset.cons_swap] at steady_x
                          obtain ⟨agrees_y, steady_y⟩ := steady_x.iput
                          have agrees := (agrees_s.trans agrees_x).trans agrees_y
                          have ends := @ih _ _ elem rest steady_y (by omega)
                          rw [agrees.found, agrees.meets] at ends
                          refine ends.imp (fun answers => ⟨answers.1.after agrees, ?_⟩)
                            fun free => ⟨free.1, Or.inr ⟨more, _, below, free.2⟩⟩
                          rintro (free | ⟨-, inum, is_child, meets⟩)
                          · exact allocated free
                          · rw [below] at is_child
                            obtain rfl := Option.some.inj is_child
                            exact answers.2 meets

theorem namexLoop_answers (parent : Bool) (fuel : Nat) {ip : Nat} (name : Path) {path : Path}
    (steady : Steady t base (ip ::ₘ held)) (enough : path.length < fuel) :
    Answers t base held (found parent t ip name (components path))
        (namexLoop parent fuel t ip name path) ∨
      (∃ fault, namexLoop parent fuel t ip name path = .error fault) ∧
        ¬(Tree t ∧ (t ip).type ≠ .free) :=
  (namexLoop_ends parent fuel name steady enough).imp And.left fun free =>
    ⟨free.1, fun used => used.1.not_meets used.2 free.2⟩

/-- `namex` starts its loop with a reference to the start. -/
theorem starts_at {p : Proc} {path : Path} {dirfd : Int} {start : Nat}
    (steady : Steady t base held) (refers : ∀ i, p.refers i → 0 < base i) :
    startOf p path dirfd = some start →
    ∃ s, Agrees t s ∧ Steady s base (start ::ₘ held) ∧ (Tree t → (t start).type ≠ .free) ∧
      ∀ {β : Type} (walk : Nodes → Nat → Except Fault β),
        (if path.head? = some slash then walk (iget t rootIno) rootIno
          else match p.dirAt dirfd with
            | some ip => walk (idup t ip) ip
            | none => .error .badPointer) = walk s start := by
  intro starts
  have in_use (used : p.refers start) : Tree t → (t start).type ≠ .free := by
    intro _ free
    exact absurd (steady.idle start free) (Nat.ne_of_gt (refers start used))
  unfold startOf at starts
  split at starts
  · next from_root =>
      obtain rfl := Option.some.inj starts
      obtain ⟨agrees, steady_s⟩ := steady.iget rootIno
      exact ⟨_, agrees, steady_s, Tree.root, fun walk => if_pos from_root⟩
  · next relative =>
      have used := Proc.refers_dirAt starts
      obtain ⟨agrees, steady_s⟩ := steady.idup (refers start used)
      refine ⟨_, agrees, steady_s, in_use used, fun walk => ?_⟩
      rw [if_neg relative]
      simp only [starts]

/-- `namex` looks the components up, unless it meets a free inode. -/
theorem namex_ends (parent : Bool) {p : Proc} {path : Path} {dirfd : Int}
    {start : Nat} (steady : Steady t base held) (refers : ∀ i, p.refers i → 0 < base i)
    (starts : startOf p path dirfd = some start) :
    Answers t base held (found parent t start [] (components path)) (namex t p parent path dirfd) ∧
        ¬Meets parent t start (components path) ∨
      (∃ fault, namex t p parent path dirfd = .error fault) ∧
        Meets parent t start (components path) := by
  obtain ⟨s, agrees, steady_s, -, walks⟩ := starts_at steady refers starts
  have same : namex t p parent path dirfd = namexLoop parent (path.length + 1) s start [] path :=
    walks fun s start => namexLoop parent (path.length + 1) s start [] path
  have ends := namexLoop_ends parent (path.length + 1) [] steady_s
    (Nat.lt_succ_self path.length)
  rw [agrees.found, agrees.meets] at ends
  rw [same]
  exact ends.imp (fun answers => ⟨answers.1.after agrees, answers.2⟩) id

namespace Namex

open Follow

/-! ## Paths in memory -/

/-- The bytes of memory from an address on. -/
abbrev Chars := List UInt8

/-- `memmove` to the start of a buffer. -/
def memmove (buf bytes : Chars) : Chars := bytes ++ buf.drop bytes.length

/-- The name in a buffer, as `namecmp` reads it. -/
def nameIn (buf : Chars) : Path := cstring (buf.take dirSiz)

/-- `skipelem`: the address behind the element and the buffer for the name. -/
def skipelem (path name : Chars) : Option (Chars × Chars) :=
  let s := path.dropWhile (· = slash)
  if s.head? = some 0 then none
  else
    let path := s.dropWhile fun b => b ≠ slash ∧ b ≠ 0
    let len := s.length - path.length
    let name := if dirSiz ≤ len then memmove name (s.take dirSiz)
      else (memmove name (s.take len)).set len 0
    some (path.dropWhile (· = slash), name)

/-- The loop of `namex`. -/
def namexLoop (nameiparent : Bool) :
    Nat → Table → Nat → Chars → Chars → Except Fault (Option Nat × Chars × Table)
  | 0, _, _, _, _ => .error .loops
  | fuel + 1, t, ip, path, name =>
      match skipelem path name with
      | none => do
          if nameiparent then
            let t ← t.iput ip
            return (none, name, t)
          else return (some ip, name, t)
      | some (path, name) => do
          let t ← t.ilock ip
          if (t.nodes ip).type ≠ .dir then
            let t ← t.iunlockput ip
            return (none, name, t)
          else if nameiparent ∧ path.head? = some 0 then
            let t ← t.iunlock ip
            return (some ip, name, t)
          else
            let (found, nodes) ← dirlookup t.nodes ip (nameIn name)
            let t ← Table.iunlockput { t with nodes := nodes } ip
            match found with
            | none => return (none, name, t)
            | some (_, next) => namexLoop nameiparent fuel t next path name

/-- `namex`. -/
def namex (t : Table) (p : Proc) (path : Chars) (nameiparent : Bool) (name : Chars)
    (dirfd : Int) : Except Fault (Option Nat × Chars × Table) :=
  let walk nodes ip :=
    namexLoop nameiparent (path.length + 1) { t with nodes := nodes } ip path name
  if path.head? = some slash then walk (iget t.nodes rootIno) rootIno
  else
    match p.dirAt dirfd with
    | some ip => walk (idup t.nodes ip) ip
    | none => .error .badPointer

/-- `namei`; the buffer for names is on the stack. -/
def namei (t : Table) (p : Proc) (path : Chars) (dirfd : Int) (name : Chars) :
    Except Fault (Option Nat × Table) := do
  let (ip, _, t) ← namex t p path false name dirfd
  return (ip, t)

/-- `nameiparent`. -/
def nameiparent (t : Table) (p : Proc) (path name : Chars) (dirfd : Int) :
    Except Fault (Option Nat × Chars × Table) :=
  namex t p path true name dirfd

/-! ## One element -/

variable {path name : Chars}

/-- The buffer after one element has been copied to it. -/
def fill (name word : Chars) : Chars :=
  if dirSiz ≤ word.length then memmove name (word.take dirSiz)
  else (memmove name word).set word.length 0

theorem head?_terminated (path rest : Chars) (clean : 0 ∉ path) :
    (path ++ 0 :: rest).head? = some 0 ↔ path = [] := by
  cases path with
  | nil => simp
  | cons first others => simpa using fun zero => clean (by simp [zero])

/-- The scan for slashes stops in front of the terminator. -/
theorem dropWhile_terminated {stop : UInt8 → Bool} (stops : stop 0 = false) (path rest : Chars) :
    (path ++ 0 :: rest).dropWhile stop = path.dropWhile stop ++ 0 :: rest := by
  induction path with
  | nil => simp [stops]
  | cons first others ih =>
      cases at_first : stop first with
      | true => simp [at_first, ih]
      | false => simp [at_first]

/-- In a string without zeroes, a scan to a slash or a terminator is a scan to a slash. -/
theorem dropWhile_clean (clean : 0 ∉ path) :
    (path.dropWhile fun b => b ≠ slash ∧ b ≠ 0) = path.dropWhile (· ≠ slash) := by
  induction path with
  | nil => rfl
  | cons first others ih =>
      obtain ⟨other, behind⟩ := List.ne_and_not_mem_of_not_mem_cons clean
      have same : decide (first ≠ slash ∧ first ≠ 0) = decide (first ≠ slash) := by
        simp [Ne.symm other]
      rw [List.dropWhile_cons, List.dropWhile_cons, same, ih behind]

/-- The bytes of the element are those in front of the address behind it. -/
theorem take_word {s : Chars} (rest : Chars) {n : Nat}
    (le : n ≤ (s.takeWhile (· ≠ slash)).length) :
    (s ++ 0 :: rest).take n = (s.takeWhile (· ≠ slash)).take n := by
  have split := List.takeWhile_append_dropWhile (p := fun b => decide (b ≠ slash)) (l := s)
  conv_lhs => rw [← split, List.append_assoc]
  exact List.take_append_of_le_length le

theorem length_word (s rest : Chars) :
    (s ++ 0 :: rest).length - (s.dropWhile (· ≠ slash) ++ 0 :: rest).length =
      (s.takeWhile (· ≠ slash)).length := by
  have lengths := congrArg List.length
    (List.takeWhile_append_dropWhile (p := fun b => decide (b ≠ slash)) (l := s))
  simp only [List.length_append] at lengths ⊢
  omega

/-- `skipelem` of a string in memory. -/
theorem skipelem_terminated (clean : 0 ∉ path) (rest name : Chars) :
    skipelem (path ++ 0 :: rest) name =
      (Words.next slash path).map fun r => (r.2 ++ 0 :: rest, fill name r.1) := by
  have skips : (path ++ 0 :: rest).dropWhile (· = slash) =
      path.dropWhile (· = slash) ++ 0 :: rest := dropWhile_terminated (by decide) path rest
  unfold skipelem Words.next
  dsimp only
  rw [skips]
  cases start : path.dropWhile (· = slash) with
  | nil => rfl
  | cons first others =>
      have inside : 0 ∉ first :: others := by
        rw [← start]
        exact fun mem => clean ((List.dropWhile_sublist _).subset mem)
      have not_last : (first :: others ++ 0 :: rest).head? ≠ some 0 := by
        rw [Ne, head?_terminated _ _ inside]
        exact List.cons_ne_nil _ _
      rw [if_neg not_last, dropWhile_terminated (by decide), dropWhile_clean inside, length_word,
        take_word rest (Nat.le_refl _), List.take_length, dropWhile_terminated (by decide)]
      change some (_, _) = some (_, fill name _)
      unfold fill
      split
      · next long => rw [take_word rest long]
      · rfl

theorem length_fill {name word : Chars} (room : dirSiz ≤ name.length) :
    (fill name word).length = name.length := by
  unfold fill memmove
  split
  · rw [List.length_append, List.length_drop, List.length_take]
    omega
  · rw [List.length_set, List.length_append, List.length_drop]
    omega

/-- A short element is written with a terminator. -/
theorem fill_short {name word : Chars} (room : dirSiz ≤ name.length)
    (short : word.length < dirSiz) :
    fill name word = word ++ 0 :: name.drop (word.length + 1) := by
  have below : word.length < name.length := by omega
  unfold fill memmove
  rw [if_neg (by omega), List.set_append_right _ _ (Nat.le_refl _), Nat.sub_self,
    List.drop_eq_getElem_cons below, List.set_cons_zero]

/-- No byte behind the first `DIRSIZ` bytes of the buffer is written. -/
theorem drop_fill {name word : Chars} (room : dirSiz ≤ name.length) :
    (fill name word).drop dirSiz = name.drop dirSiz := by
  cases Nat.lt_or_ge word.length dirSiz with
  | inl short =>
      have behind : dirSiz - word.length = dirSiz - word.length - 1 + 1 := by omega
      rw [fill_short room short, List.drop_append, List.drop_eq_nil_of_le (by omega),
        List.nil_append, behind, List.drop_succ_cons, List.drop_drop]
      congr 1
      omega
  | inr long =>
      have length : (word.take dirSiz).length = dirSiz := by
        rw [List.length_take, Nat.min_eq_left long]
      unfold fill memmove
      rw [if_pos long, length, List.drop_left' length]

theorem cstring_clean {word : Chars} (clean : 0 ∉ word) : cstring word = word := by
  unfold cstring
  rw [List.takeWhile_eq_self_iff]
  intro b mem
  simpa using fun zero : b = 0 => clean (zero ▸ mem)

/-- The buffer holds the component. -/
theorem nameIn_fill {name word : Chars} (clean : 0 ∉ word) (room : dirSiz ≤ name.length) :
    nameIn (fill name word) = word.take dirSiz := by
  unfold nameIn
  cases Nat.lt_or_ge word.length dirSiz with
  | inl short =>
      have behind : dirSiz - word.length = dirSiz - word.length - 1 + 1 := by omega
      rw [fill_short room short, List.take_append, List.take_of_length_le (by omega), behind,
        List.take_succ_cons, cstring, List.takeWhile_append_of_pos, List.takeWhile_cons_of_neg,
        List.append_nil]
      · decide
      · intro b mem
        simpa using fun zero : b = 0 => clean (zero ▸ mem)
  | inr long =>
      have length : (word.take dirSiz).length = dirSiz := by
        rw [List.length_take, Nat.min_eq_left long]
      unfold fill memmove
      rw [if_pos long, List.take_left' length]
      exact cstring_clean fun mem => clean (List.mem_of_mem_take mem)

/-! ## All elements -/

/-- The loop on memory does what the loop on strings does, and locks one inode at a time. -/
theorem namexLoop_terminated (parent : Bool) (fuel : Nat) {t u : Nodes} {ip : Nat}
    {path name : Chars} (rest : Chars) {answer : Option (Nat × Path)} (clean : 0 ∉ path)
    (room : dirSiz ≤ name.length)
    (run : Dir.namexLoop parent fuel t ip (nameIn name) path = .ok (answer, u)) :
    ∃ name', namexLoop parent fuel ⟨t, unlocked⟩ ip (path ++ 0 :: rest) name =
        .ok (answer.map Prod.fst, name', ⟨u, unlocked⟩) ∧
      (∀ r, answer = some r → nameIn name' = r.2) ∧ name'.length = name.length ∧
        name'.drop dirSiz = name.drop dirSiz := by
  induction fuel generalizing t ip path name with
  | zero => cases run
  | succ fuel ih =>
      rw [Dir.namexLoop, skipelem_eq] at run
      rw [namexLoop, skipelem_terminated clean]
      cases scan : Words.next slash path with
      | none =>
          rw [scan] at run
          cases parent with
          | true =>
              simp only [Option.map_none, if_true, Table.iput_unlocked] at run ⊢
              obtain ⟨rfl, rfl⟩ := Prod.mk.inj (Except.ok.inj run)
              exact ⟨name, rfl, (fun r is => by cases is), rfl, rfl⟩
          | false =>
              simp only [Option.map_none, Bool.false_eq_true, if_false] at run ⊢
              obtain ⟨rfl, rfl⟩ := Prod.mk.inj (Except.ok.inj run)
              exact ⟨name, rfl, fun r is => by cases is; rfl, rfl, rfl⟩
      | some elem =>
          obtain ⟨word, behind⟩ := elem
          obtain ⟨word_in, behind_in⟩ := Words.subset_of_next scan
          have clean_word : 0 ∉ word := fun mem => clean (word_in mem)
          have clean_behind : 0 ∉ behind := fun mem => clean (behind_in mem)
          have filled := nameIn_fill clean_word room
          have length : (fill name word).length = name.length := length_fill room
          have others : (fill name word).drop dirSiz = name.drop dirSiz := drop_fill room
          rw [scan] at run
          simp only [Option.map_some, Table.ilock_unlocked] at run ⊢
          obtain ⟨s, locks, run⟩ := Except.bind_eq_ok.mp run
          have used := (ilock_spec locks).2.2.2.1
          simp only [locks, Except.ok_bind, pure, Except.pure, head?_terminated _ _ clean_behind]
            at run ⊢
          split at run
          · next other =>
              obtain ⟨rfl, rfl⟩ := Prod.mk.inj (Except.ok.inj run)
              rw [if_pos other, Table.iunlockput_locking used]
              exact ⟨_, rfl, (fun r is => by cases is), length, others⟩
          · next dir =>
              rw [if_neg dir]
              split at run
              · next last =>
                  obtain ⟨rfl, rfl⟩ := Prod.mk.inj (Except.ok.inj run)
                  rw [if_pos last, Table.iunlock_locking used]
                  exact ⟨_, rfl, fun r is => by cases is; exact filled, length, others⟩
              · next more =>
                  rw [if_neg more, filled]
                  simp only [dirlookup, not_not.mp dir, if_true] at run ⊢
                  cases entry : findEntry (s ip).entries (word.take dirSiz) with
                  | none =>
                      rw [entry] at run
                      simp only [Except.ok_bind, Table.iunlockput_locking used] at run ⊢
                      obtain ⟨rfl, rfl⟩ := Prod.mk.inj (Except.ok.inj run)
                      exact ⟨_, rfl, (fun r is => by cases is), length, others⟩
                  | some k =>
                      have still :=
                        Nat.lt_of_lt_of_le used (ref_le_iget s (inumAt (s ip).entries k) ip)
                      rw [entry] at run
                      simp only [Except.ok_bind, Table.iunlockput_locking still] at run ⊢
                      rw [← filled] at run
                      obtain ⟨name', runs, holds, length', others'⟩ :=
                        ih clean_behind (length.symm ▸ room) run
                      exact ⟨name', runs, holds, length'.trans length, others'.trans others⟩

/-- `namex` of a string in memory. -/
theorem namex_terminated (parent : Bool) {t : Nodes} {base : Nat → Nat} {p : Proc}
    {dirfd : Int} {start : Nat} (steady : Steady t base 0)
    (refers : ∀ i, p.refers i → 0 < base i) (tree : Tree t)
    (starts : startOf p path dirfd = some start) (clean : 0 ∉ path) (rest : Chars)
    (room : dirSiz ≤ name.length) :
    ∃ name' u, namex ⟨t, unlocked⟩ p (path ++ 0 :: rest) parent name dirfd =
        .ok ((found parent t start (nameIn name) (components path)).map Prod.fst, name',
          ⟨u, unlocked⟩) ∧
      Agrees t u ∧
      Steady u base (afterWalk (found parent t start (nameIn name) (components path)) 0) ∧
      (∀ r, found parent t start (nameIn name) (components path) = some r → nameIn name' = r.2) ∧
      name'.length = name.length ∧ name'.drop dirSiz = name.drop dirSiz := by
  obtain ⟨s, agrees, steady_s, allocated, walks⟩ := starts_at steady refers starts
  have head : (path ++ 0 :: rest).head? = some slash ↔ path.head? = some slash := by
    cases path with
    | nil =>
        have differ : (0 : UInt8) ≠ slash := by decide
        simp [differ]
    | cons first others => rfl
  have same : namex ⟨t, unlocked⟩ p (path ++ 0 :: rest) parent name dirfd =
      namexLoop parent ((path ++ 0 :: rest).length + 1) ⟨s, unlocked⟩ start (path ++ 0 :: rest)
        name := by
    unfold namex
    dsimp only
    rw [if_congr head rfl rfl]
    exact walks fun s start => namexLoop parent ((path ++ 0 :: rest).length + 1) ⟨s, unlocked⟩ start
      (path ++ 0 :: rest) name
  have enough : path.length < (path ++ 0 :: rest).length + 1 := by
    rw [List.length_append]
    omega
  have ends := namexLoop_answers parent _ (nameIn name) steady_s enough
  rw [agrees.found, agrees.type] at ends
  obtain ⟨u, run, later, steady_u⟩ | free := ends
  · obtain ⟨name', runs, holds, length, others⟩ := namexLoop_terminated parent _ rest clean room run
    rw [same, runs]
    exact ⟨name', u, rfl, agrees.trans later, steady_u, holds, length, others⟩
  · exact absurd ⟨agrees.tree tree, allocated tree⟩ free.2

/-- One more reference to the inode that is found. -/
theorem ref_afterWalk {t u : Nodes} {base : Nat → Nat} {answer : Option (Nat × Path)}
    (steady : Steady t base 0) (after : Steady u base (afterWalk answer 0)) (i : Nat) :
    (u i).ref = (t i).ref + if answer.map Prod.fst = some i then 1 else 0 := by
  rw [steady.ref, after.ref, afterWalk, Multiset.count_add, Multiset.count_zero]
  cases answer with
  | none => simp
  | some r =>
      obtain ⟨ip, name⟩ := r
      cases Decidable.em (ip = i) with
      | inl eq => simp [eq]
      | inr differ => simp [differ, Ne.symm differ]

theorem map_found_false (t : Nodes) (start : Nat) (name : Path) (names : List Path) :
    (found false t start name names).map Prod.fst = lookup t start names := by
  rw [found, if_neg (by decide), Option.map_map]
  exact Option.map_id'

/-- What `skipelem` does to a string in memory and to the buffer for the name. -/
theorem skipelem_component (clean : 0 ∉ path) (rest : Chars) (room : dirSiz ≤ name.length) :
    match components path with
    | [] => skipelem (path ++ 0 :: rest) name = none
    | elem :: others => ∃ path' name', skipelem (path ++ 0 :: rest) name =
        some (path' ++ 0 :: rest, name') ∧ components path' = others ∧ nameIn name' = elem ∧
        name'.length = name.length ∧ name'.drop dirSiz = name.drop dirSiz := by
  rw [skipelem_terminated clean]
  cases scan : Words.next slash path with
  | none =>
      have nothing : components path = [] := by
        rw [← skipelem_none, skipelem_eq, scan]
        rfl
      rw [nothing]
      rfl
  | some elem =>
      obtain ⟨word, behind⟩ := elem
      obtain ⟨word_in, -⟩ := Words.subset_of_next scan
      have first : components path = word.take dirSiz :: components behind := by
        apply skipelem_some
        rw [skipelem_eq, scan]
        rfl
      rw [first]
      exact ⟨behind, fill name word, rfl, rfl, nameIn_fill (fun mem => clean (word_in mem)) room,
        length_fill room, drop_fill room⟩

/-- In a tree, `namei` looks the components of a path up one after the other, `nameiparent` those in
front of the last one, which it leaves in the buffer; each takes a reference to what it returns and
leaves no lock. `skipelem` reads one component and writes no more than `DIRSIZ` bytes. -/
theorem namex_resolves {t : Nodes} {base : Nat → Nat} {p : Proc} {dirfd : Int}
    {start : Nat} (steady : Steady t base 0) (refers : ∀ i, p.refers i → 0 < base i) (tree : Tree t)
    (starts : startOf p path dirfd = some start) (clean : 0 ∉ path) (rest : Chars)
    (room : dirSiz ≤ name.length) :
    (∃ u, namei ⟨t, unlocked⟩ p (path ++ 0 :: rest) dirfd name =
        .ok (lookup t start (components path), ⟨u, unlocked⟩) ∧
      Agrees t u ∧ ∀ i, (u i).ref =
        (t i).ref + if lookup t start (components path) = some i then 1 else 0) ∧
    (∃ name' u, nameiparent ⟨t, unlocked⟩ p (path ++ 0 :: rest) name dirfd =
        .ok ((lookupParent t start (components path)).map Prod.fst, name', ⟨u, unlocked⟩) ∧
      Agrees t u ∧ (∀ i, (u i).ref = (t i).ref +
        if (lookupParent t start (components path)).map Prod.fst = some i then 1 else 0) ∧
      (∀ r, lookupParent t start (components path) = some r → nameIn name' = r.2) ∧
      name'.length = name.length ∧ name'.drop dirSiz = name.drop dirSiz) ∧
    (match components path with
    | [] => skipelem (path ++ 0 :: rest) name = none
    | elem :: others => ∃ path' name', skipelem (path ++ 0 :: rest) name =
        some (path' ++ 0 :: rest, name') ∧ components path' = others ∧ nameIn name' = elem ∧
        name'.length = name.length ∧ name'.drop dirSiz = name.drop dirSiz) := by
  refine ⟨?_, ?_, skipelem_component clean rest room⟩
  · obtain ⟨name', u, run, agrees, after, -⟩ :=
      namex_terminated false steady refers tree starts clean rest room
    have refs := ref_afterWalk steady after
    rw [map_found_false] at run
    simp only [map_found_false] at refs
    refine ⟨u, ?_, agrees, refs⟩
    rw [namei, run]
    rfl
  · obtain ⟨name', u, run, agrees, after, holds, length, others⟩ :=
      namex_terminated true steady refers tree starts clean rest room
    exact ⟨name', u, run, agrees, ref_afterWalk steady after, holds, length, others⟩

/-- The path `//.///..` from the root directory. -/
theorem namex_resolves_dots :
    ∃ u, namei ⟨emptyBoot.nodes, unlocked⟩ (emptyBoot.procs ⟨0, by decide⟩)
      (slash :: slash :: 46 :: slash :: slash :: slash :: 46 :: 46 :: 0 :: []) atFdcwd
      (List.replicate dirSiz 7) = .ok (some rootIno, ⟨u, unlocked⟩) := by
  obtain ⟨leak, rest⟩ := emptyBoot_rest
  obtain ⟨steady, refers⟩ := Steady.of_rest rest ⟨0, by decide⟩
  have tree := Tree.of_counted emptyBoot_exact.counted emptyBoot_linked
  let path : Chars := [slash, slash, 46, slash, slash, slash, 46, 46]
  have starts : startOf (emptyBoot.procs ⟨0, by decide⟩) path atFdcwd = some rootIno := rfl
  have room : dirSiz ≤ (List.replicate dirSiz (7 : UInt8)).length := by decide
  obtain ⟨⟨u, run, -⟩, -⟩ := namex_resolves steady refers tree starts (by decide) [] room
  have leads : lookup emptyBoot.nodes rootIno (components path) = some rootIno := by decide +kernel
  rw [leads] at run
  exact ⟨u, run⟩

end Namex
end Dir
end Xv6Duo
