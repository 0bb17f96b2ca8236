import Xv6Duo.Dir.Readlink
import Xv6Duo.Library.SwapReverse

/-!
# The current directory

`sys_getcwd` of `kernel/sysfile.c` with `direntlookup` of `kernel/fs.c`. The names of directories on
the way to the root are stored backwards in a buffer of the kernel, which is reversed in the end and
copied to the user, whether or not the copy succeeds. A store past the buffer and a name that fills
its entry, behind which `strlen` reads on, are faults.
-/

namespace Xv6Duo
namespace Dir
namespace Getcwd

open Follow
open Fs (Memory PagesIn)
open Readlink (stored)

/-! ## The call -/

/-- `MAXPATH`. -/
def maxpath : Nat := 128

/-- Store a byte in the buffer of the kernel. -/
def store (buf : List UInt8) (pos : Nat) (byte : UInt8) : Except Fault (List UInt8) :=
  if pos < buf.length then .ok (buf.set pos byte) else .error .badPointer

/-- Store bytes one after the other. -/
def storeAll (buf : List UInt8) (pos : Nat) : List UInt8 → Except Fault (List UInt8)
  | [] => .ok buf
  | byte :: bytes => do
      let buf ← store buf pos byte
      storeAll buf (pos + 1) bytes

/-- `direntlookup`. -/
def direntlookup (t : Nodes) (dp inum : Nat) : Except Fault (Option Dirent) :=
  if (t dp).type = .dir then .ok ((t dp).entries.find? (·.inum = inum))
  else .error .dirlookupNotDir

/-- `strlen` of a name. -/
def strlen (de : Dirent) : Except Fault Nat :=
  if de.name.length < dirSiz then .ok de.name.length else .error .badPointer

/-- The end of `sys_getcwd`: the bytes that `copyout` is given. -/
def finish (buf : List UInt8) (pos : Nat) : Except Fault (List UInt8) := do
  let buf ← store buf pos slash
  let buf := SwapReverse.reverseTo pos buf
  let buf ← store buf (pos + 1) 0
  return buf.take (pos + 2)

/-- The exit `bad`. -/
def bad (mem : Memory) (t : Table) (cwd dp : Nat) : Except Fault (Nat × Memory × Table) := do
  let t ← t.iput cwd
  let t ← t.iunlockput dp
  return (0, mem, t)

/-- What is copied out and returned. Whether `copyout` has failed is not looked at. -/
def answer (mem : Memory) (bufp : Nat) (bytes : List UInt8) (t : Table) : Nat × Memory × Table :=
  (bufp, if bufp = 0 then mem
    else (Fs.eitherCopyout true mem bufp (bytes.getD · 0) 0 bytes.length).2, t)

/-- The loop of `sys_getcwd`. -/
def getcwdLoop (mem : Memory) (bufp : Nat) (size : UInt64) :
    Nat → Table → Nat → List UInt8 → Nat → Except Fault (Nat × Memory × Table)
  | 0, _, _, _, _ => .error .loops
  | fuel + 1, t, cwd, buf, pos => do
      let (found, nodes) ← dirlookup t.nodes cwd dotdot
      match found with
      -- `ilock` of the null pointer.
      | none => .error .ilock
      | some (_, dp) =>
          let t ← Table.ilock { t with nodes := nodes } dp
          match ← direntlookup t.nodes dp cwd with
          | none => bad mem t cwd dp
          | some de =>
              let n ← strlen de
              if size.toNat < n + pos + 2 then bad mem t cwd dp
              else
                let t ← t.iput cwd
                let t ← t.iunlock dp
                let buf ← storeAll buf pos (de.name.take n).reverse
                if dp = rootIno then
                  let t ← t.iput dp
                  let bytes ← finish buf (pos + n)
                  return answer mem bufp bytes t
                else
                  let buf ← store buf (pos + n) slash
                  let t ← Table.iput { t with nodes := idup t.nodes dp } dp
                  getcwdLoop mem bufp size fuel t dp buf (pos + n + 1)

/-- `sys_getcwd`, with the buffer as it lies on the stack: the answer, the memory of the user, and
the inodes. -/
def sysGetcwd (fuel : Nat) (t : Table) (p : Proc) (buf : List UInt8) (mem : Memory) (bufp : Nat)
    (size : UInt64) : Except Fault (Nat × Memory × Table) :=
  match p.cwd with
  | none => .error .badPointer
  | some cwd =>
      let t : Table := { t with nodes := idup t.nodes cwd }
      -- The jump to `root` skips the `iput`.
      if cwd = rootIno then do
        let bytes ← finish buf 0
        return answer mem bufp bytes t
      else getcwdLoop mem bufp size fuel t cwd buf 0

/-! ## Directory trees -/

/-- A tree of directories: `..` leads up, every directory has one name, and names are distinct and
free of slashes. -/
structure WellFormed (t : Nodes) : Prop extends Tree t where
  /-- The root is a directory. -/
  rootDir : (t rootIno).type = .dir
  /-- The root is above itself. -/
  rootUp : (t rootIno).up = rootIno
  /-- A directory starts with `.` and `..`. -/
  dots : ∀ d, (t d).type = .dir → ∃ up rest, up ≠ 0 ∧
    (t d).entries = ⟨d, .dir, dot⟩ :: ⟨up, .dir, dotdot⟩ :: rest
  /-- An entry for a directory lies in the directory above it, which is not the root's. -/
  above : ∀ d, (t d).type = .dir → ∀ e ∈ (t d).proper, e.inum ≠ 0 → (t e.inum).type = .dir →
    e.inum ≠ rootIno ∧ (t e.inum).up = d
  /-- A directory has one name. -/
  single : ∀ d, (t d).type = .dir → ∀ e ∈ (t d).proper, e.inum ≠ 0 → (t e.inum).type = .dir →
    ∀ e' ∈ (t d).proper, e'.inum = e.inum → e'.name = e.name
  /-- Entries have different names. -/
  distinct : ∀ d, (t d).type = .dir → ∀ e ∈ (t d).entries, e.inum ≠ 0 → ∀ e' ∈ (t d).entries,
    e'.inum ≠ 0 → e'.name = e.name → e'.inum = e.inum
  /-- Names are strings without slashes that fit their entries. -/
  names : ∀ d, (t d).type = .dir → ∀ e ∈ (t d).proper, e.inum ≠ 0 →
    e.name ≠ [] ∧ slash ∉ e.name ∧ 0 ∉ e.name ∧ e.name.length ≤ dirSiz

/-- A directory lies below the root, with the names on the way up to the root. -/
inductive Located (t : Nodes) : Nat → List Path → Prop
  /-- The root. -/
  | root : Located t rootIno []
  /-- A directory below. -/
  | under (dp : Nat) (names : List Path) (above : Located t dp names) (dir : (t dp).type = .dir)
      (e : Dirent) (mem : e ∈ (t dp).proper) (used : e.inum ≠ 0) (is_dir : (t e.inum).type = .dir) :
      Located t e.inum (e.name :: names)

/-- The path from the root along names. -/
def absolute (names : List Path) : Path := names.reverse.flatMap (slash :: ·)

/-- What the call should do: it leaves all references and no lock, and stores nothing but, if it
succeeds, a string of at most `size` bytes that leads to the current directory, all of it in memory
that can be written. -/
def ReturnsPath (t : Nodes) (p : Proc) (cwd : Nat) (mem : Memory) (bufp : Nat) (size : UInt64)
    (run : Except Fault (Nat × Memory × Table)) : Prop :=
  ∃ ret mem' u, run = .ok (ret, mem', ⟨u, unlocked⟩) ∧ (∀ i, (u i).ref = (t i).ref) ∧
    (ret = 0 → mem' = mem) ∧ (ret ≠ 0 → ∃ path, mem' = stored mem bufp (path ++ [0]) ∧
      PagesIn mem.writable bufp (path.length + 1) ∧ path.length + 1 ≤ size.toNat ∧ 0 ∉ path ∧
      path.head? = some slash ∧ ∀ name, dirSiz ≤ name.length →
        ∃ v, Namex.namei ⟨u, unlocked⟩ p (path ++ [0]) atFdcwd name = .ok (some cwd, v))

/-- Up to the root, or to the directory where the path is too long for the user, every name ends in
its entry and the path fits the buffer of the kernel. -/
def Fits (size : UInt64) : Nat → List Path → Prop
  | _, [] => True
  | pos, name :: names => name.length < dirSiz ∧
      (size.toNat < name.length + pos + 2 ∨
        (pos + name.length + (if names = [] then 2 else 1) ≤ maxpath ∧
          Fits size (pos + name.length + 1) names))

/-- The user has no buffer, or the path is too long for it, or it can be written. -/
def Receives (mem : Memory) (bufp : Nat) (size : UInt64) (names : List Path) : Prop :=
  bufp = 0 ∨ size.toNat < (absolute names).length + 1 ∨
    PagesIn mem.writable bufp ((absolute names).length + 1)

variable {t u : Nodes} {base : Nat → Nat} {mem : Memory}

/-! ## Places in the tree -/

/-- `..` leads up. -/
theorem WellFormed.up_lookup (wf : WellFormed t) (agrees : Agrees t u) {d : Nat}
    (dir : (t d).type = .dir) :
    dirlookup u d dotdot = .ok (some (1, (t d).up), iget u (t d).up) := by
  obtain ⟨up, rest, used, entries⟩ := wf.dots d dir
  have found : findEntry (t d).entries dotdot = some 1 := by
    have other : dot ≠ dotdot := by decide
    simp [findEntry, entries, other, used, List.findIdx?_cons]
  rw [dirlookup, agrees.type, if_pos dir, agrees.entries, found]
  rfl

/-- Only the root has no name. -/
theorem Located.root_iff (wf : WellFormed t) {i : Nat} {names : List Path}
    (located : Located t i names) : i = rootIno ↔ names = [] := by
  cases located with
  | root => exact iff_of_true rfl rfl
  | under dp _ _ dir e mem used is_dir =>
      exact iff_of_false (wf.above dp dir e mem used is_dir).1 (List.cons_ne_nil _ _)

/-- A directory has one depth. -/
theorem Located.depth (wf : WellFormed t) {i : Nat} {names others : List Path}
    (located : Located t i names) (again : Located t i others) : names.length = others.length := by
  induction located generalizing others with
  | root => rw [(again.root_iff wf).mp rfl]
  | under dp names above dir e mem used is_dir ih =>
      generalize same : e.inum = i at again
      cases again with
      | root => exact absurd same (wf.above dp dir e mem used is_dir).1
      | under dp' others above' dir' e' mem' used' is_dir' =>
          have up := (wf.above dp dir e mem used is_dir).2
          have up' := (wf.above dp' dir' e' mem' used' is_dir').2
          obtain rfl : dp = dp' := by rw [← up, ← up', same]
          rw [List.length_cons, List.length_cons, ih above']

/-- A directory is neither above itself nor two levels above itself. -/
theorem Located.acyclic (wf : WellFormed t) {dp : Nat} {names : List Path}
    (located : Located t dp names) (dir : (t dp).type = .dir) {e : Dirent}
    (mem : e ∈ (t dp).proper) (used : e.inum ≠ 0) (is_dir : (t e.inum).type = .dir) :
    e.inum ≠ dp ∧ (t dp).up ≠ e.inum := by
  have below := Located.under dp names located dir e mem used is_dir
  constructor
  · intro same
    have depth := (same ▸ below).depth wf located
    rw [List.length_cons] at depth
    omega
  · cases located with
    | root =>
        rw [wf.rootUp]
        exact (wf.above _ dir e mem used is_dir).1.symm
    | under dq names above dir' e' mem' used' is_dir' =>
        rw [(wf.above dq dir' e' mem' used' is_dir').2]
        rintro rfl
        have depth := below.depth wf above
        rw [List.length_cons, List.length_cons] at depth
        omega

/-- `direntlookup` finds the name of a directory in the directory above it. -/
theorem Located.direntlookup (wf : WellFormed t) (agrees : Agrees t u) {dp : Nat}
    {names : List Path} (located : Located t dp names) (dir : (t dp).type = .dir) {e : Dirent}
    (mem : e ∈ (t dp).proper) (used : e.inum ≠ 0) (is_dir : (t e.inum).type = .dir) :
    ∃ de, direntlookup u dp e.inum = .ok (some de) ∧ de.name = e.name := by
  obtain ⟨not_self, not_up⟩ := located.acyclic wf dir mem used is_dir
  obtain ⟨up, rest, -, entries⟩ := wf.dots dp dir
  have proper : (t dp).proper = rest := by rw [Node.proper, entries]; rfl
  have above : (t dp).up = up := by rw [Node.up, entries]; rfl
  rw [above] at not_up
  have skips : (t dp).entries.find? (·.inum = e.inum) = rest.find? (·.inum = e.inum) := by
    rw [entries, List.find?_cons_of_neg (by simpa using not_self.symm),
      List.find?_cons_of_neg (by simpa using not_up)]
  rw [proper] at mem
  obtain ⟨de, found⟩ : ∃ de, rest.find? (·.inum = e.inum) = some de := by
    rw [← Option.isSome_iff_exists, List.find?_isSome]
    exact ⟨e, mem, by simp⟩
  have same : de.inum = e.inum := by simpa using List.find?_some found
  have finds : Getcwd.direntlookup u dp e.inum = .ok (some de) := by
    rw [Getcwd.direntlookup, agrees.type, if_pos dir, agrees.entries, skips, found]
  refine ⟨de, finds, ?_⟩
  rw [← proper] at mem
  refine wf.single dp dir e mem used is_dir de ?_ same
  rw [proper]
  exact List.mem_of_find?_eq_some found

/-- The names lead down to the directory. -/
theorem Located.lookup (wf : WellFormed t) {i : Nat} {names : List Path}
    (located : Located t i names) : lookup t rootIno names.reverse = some i := by
  induction located with
  | root => rfl
  | under dp names above dir e mem used is_dir ih =>
      have all : e ∈ (t dp).entries := List.mem_of_mem_drop mem
      have leads : child t dp e.name = some e.inum := by
        obtain ⟨k, found⟩ : ∃ k, findEntry (t dp).entries e.name = some k := by
          rw [← Option.isSome_iff_exists, findEntry, List.findIdx?_isSome, List.any_eq_true]
          exact ⟨e, all, by simpa using used⟩
        obtain ⟨below, used', name⟩ := findEntry_some found
        rw [child, if_pos dir, found, Option.map_some, inumAt_eq below]
        exact congrArg some
          (wf.distinct dp dir e all used _ (List.getElem_mem below) used' name)
      rw [List.reverse_cons, Dir.lookup, List.foldlM_append]
      rw [Dir.lookup] at ih
      rw [ih]
      change (child t dp e.name).bind _ = _
      rw [leads]
      rfl

/-- The names on the way up are strings without slashes. -/
theorem Located.names (wf : WellFormed t) {i : Nat} {names : List Path}
    (located : Located t i names) :
    ∀ name ∈ names, name ≠ [] ∧ slash ∉ name ∧ 0 ∉ name ∧ name.length ≤ dirSiz := by
  induction located with
  | root => nofun
  | under dp names above dir e mem used is_dir ih =>
      intro name among
      rcases List.mem_cons.mp among with rfl | among
      · exact wf.names dp dir e mem used
      · exact ih name among

/-- Names between slashes are the words. -/
theorem words_flatMap (names : List Path) (clean : ∀ name ∈ names, name ≠ [] ∧ slash ∉ name) :
    Words.words slash (names.flatMap (slash :: ·)) = names := by
  induction names with
  | nil => exact Words.words_nil
  | cons name names ih =>
      obtain ⟨some_symbol, no_slash⟩ := clean name List.mem_cons_self
      have later : ∀ other ∈ names, other ≠ [] ∧ slash ∉ other := fun other mem =>
        clean other (List.mem_cons_of_mem _ mem)
      rw [List.flatMap_cons, List.cons_append, Words.words_sep_cons,
        Words.words_append no_slash some_symbol, ih later]
      cases names with
      | nil => exact .inl rfl
      | cons next names => exact .inr rfl

/-- The components of the path are the names. -/
theorem components_absolute {names : List Path}
    (clean : ∀ name ∈ names, name ≠ [] ∧ slash ∉ name ∧ 0 ∉ name ∧ name.length ≤ dirSiz) :
    components (absolute names) = names.reverse := by
  rw [components, absolute, words_flatMap]
  · rw [List.map_congr_left (g := id), List.map_id]
    intro name mem
    exact List.take_of_length_le (clean name (List.mem_reverse.mp mem)).2.2.2
  · intro name mem
    obtain ⟨some_symbol, no_slash, -⟩ := clean name (List.mem_reverse.mp mem)
    exact ⟨some_symbol, no_slash⟩

/-! ## The buffer -/

variable {buf bytes : List UInt8} {pos : Nat}

theorem storeAll_ok (room : pos + bytes.length ≤ buf.length) :
    storeAll buf pos bytes = .ok (buf.take pos ++ bytes ++ buf.drop (pos + bytes.length)) := by
  induction bytes generalizing buf pos with
  | nil => rw [storeAll, List.append_nil, List.length_nil, Nat.add_zero, List.take_append_drop]
  | cons byte bytes ih =>
      rw [List.length_cons] at room
      have inside : pos < buf.length := by omega
      have length : (buf.set pos byte).length = buf.length := List.length_set
      have behind : pos + 1 + bytes.length = pos + (byte :: bytes).length := by
        rw [List.length_cons]
        omega
      have taken : (buf.set pos byte).take (pos + 1) = buf.take pos ++ [byte] := by
        rw [List.take_add_one, List.take_set_of_le (Nat.le_refl _), List.getElem?_set_self inside]
        rfl
      rw [storeAll, store, if_pos inside, Except.ok_bind, ih (by omega), taken,
        List.drop_set_of_lt (by omega), behind, List.append_assoc (buf.take pos),
        List.singleton_append]

theorem storeAll_fault (some_byte : bytes ≠ []) (room : ¬pos + bytes.length ≤ buf.length) :
    storeAll buf pos bytes = .error .badPointer := by
  induction bytes generalizing buf pos with
  | nil => exact absurd rfl some_byte
  | cons byte bytes ih =>
      rw [List.length_cons] at room
      rw [storeAll, store]
      split
      · next inside =>
          have length : (buf.set pos byte).length = buf.length := List.length_set
          rw [Except.ok_bind]
          refine ih ?_ (by omega)
          rintro rfl
          rw [List.length_nil] at room
          omega
      · rfl

/-- The buffer is reversed and terminated. -/
theorem finish_ok (room : pos + 2 ≤ buf.length) :
    finish buf pos = .ok (slash :: (buf.take pos).reverse ++ [0]) := by
  have inside : pos < buf.length := by omega
  have length : (buf.set pos slash).length = buf.length := List.length_set
  have taken : (buf.set pos slash).take (pos + 1) = buf.take pos ++ [slash] := by
    rw [List.take_add_one, List.take_set_of_le (Nat.le_refl _), List.getElem?_set_self inside]
    rfl
  have short : (buf.take pos).length = pos := by
    rw [List.length_take]
    omega
  have reversed : SwapReverse.reverseTo pos (buf.set pos slash) = _ :=
    SwapReverse.reverseTo_eq (by omega)
  rw [taken, List.reverse_append, List.reverse_singleton, List.singleton_append] at reversed
  have size : (SwapReverse.reverseTo pos (buf.set pos slash)).length = buf.length := by
    rw [SwapReverse.reverseTo, SwapReverse.length_exchange, length]
  have start : (slash :: (buf.take pos).reverse).length = pos + 1 := by
    rw [List.length_cons, List.length_reverse, short]
  simp only [finish, store, inside, if_true, Except.ok_bind, size]
  rw [if_pos (by omega), Except.ok_bind, List.take_add_one, List.take_set_of_le (Nat.le_refl _),
    List.getElem?_set_self (by omega), reversed, List.take_left' start]
  rfl

theorem finish_fault (room : ¬pos + 2 ≤ buf.length) : finish buf pos = .error .badPointer := by
  rw [finish, store]
  split
  · next inside =>
      have size : (SwapReverse.reverseTo pos (buf.set pos slash)).length = buf.length := by
        rw [SwapReverse.reverseTo, SwapReverse.length_exchange, List.length_set]
      simp only [Except.ok_bind, store, size]
      rw [if_neg (by omega)]
      rfl
  · rfl

/-! ## One directory -/

theorem idup_allocated {held : Multiset Nat} {i : Nat} (steady : Steady t base held)
    (allocated : (t i).type ≠ .free) :
    Agrees t (idup t i) ∧ Steady (idup t i) base (i ::ₘ held) := by
  apply steady.entry rfl
  · rw [Multiset.count_cons_self, ← Nat.add_assoc, ← steady.ref i]
  · intro j differ
    exact Multiset.count_cons_of_ne differ held
  · intro free
    exact absurd free allocated

/-- `iput` of an inode while another one is locked. -/
theorem iput_locking {i j : Nat} (differ : i ≠ j) :
    Table.iput ⟨t, locking j⟩ i = .ok ⟨Dir.iput t i, locking j⟩ := by
  have free : locking j i = false := by
    rw [locking, Function.update_of_ne differ]
    rfl
  rw [Table.iput, if_neg]
  rintro ⟨-, is_locked⟩
  exact Bool.false_ne_true (free.symm.trans is_locked)

/-- One pass through the loop. -/
theorem getcwdLoop_step (wf : WellFormed t) {dp : Nat} {names : List Path}
    (located : Located t dp names) (dir : (t dp).type = .dir) {e : Dirent}
    (mem : e ∈ (t dp).proper) (used : e.inum ≠ 0) (is_dir : (t e.inum).type = .dir)
    (agrees : Agrees t u) (steady : Steady u base (e.inum ::ₘ 0)) (user : Memory) (bufp : Nat)
    (size : UInt64)
    (fuel : Nat) (buf : List UInt8) (pos : Nat) :
    ∃ x y z, (Agrees t x ∧ Steady x base 0) ∧ (Agrees t y ∧ Steady y base 0) ∧
      (Agrees t z ∧ Steady z base (dp ::ₘ 0)) ∧
      getcwdLoop user bufp size (fuel + 1) ⟨u, unlocked⟩ e.inum buf pos =
        if e.name.length < dirSiz then
          if size.toNat < e.name.length + pos + 2 then .ok (0, user, ⟨x, unlocked⟩)
          else do
            let buf ← storeAll buf pos e.name.reverse
            if dp = rootIno then
              let bytes ← finish buf (pos + e.name.length)
              return answer user bufp bytes ⟨y, unlocked⟩
            else
              let buf ← store buf (pos + e.name.length) slash
              getcwdLoop user bufp size fuel ⟨z, unlocked⟩ dp buf (pos + e.name.length + 1)
        else .error .badPointer := by
  have up := (wf.above dp dir e mem used is_dir).2
  have not_self := (located.acyclic wf dir mem used is_dir).1
  have climbs := wf.up_lookup agrees is_dir
  rw [up] at climbs
  obtain ⟨agrees_a, steady_a⟩ := steady.iget dp
  have allocated : (iget u dp dp).type ≠ .free := by
    rw [agrees_a.type, agrees.type, dir]
    decide
  obtain ⟨s, locks, agrees_s, steady_s⟩ := steady_a.ilock (Multiset.mem_cons_self _ _) allocated
  have agrees_s := (agrees.trans agrees_a).trans agrees_s
  obtain ⟨de, finds, name⟩ := located.direntlookup wf agrees_s dir mem used is_dir
  rw [Multiset.cons_swap] at steady_s
  obtain ⟨agrees_r, steady_r⟩ := steady_s.iput
  have agrees_r := agrees_s.trans agrees_r
  have held := steady_r.ref_pos (Multiset.mem_cons_self _ _)
  obtain ⟨agrees_y, steady_y⟩ := steady_r.iput
  have again : (Dir.iput s e.inum dp).type ≠ .free := by
    rw [agrees_r.type, dir]
    decide
  obtain ⟨agrees_d, steady_d⟩ := idup_allocated steady_r again
  obtain ⟨agrees_z, steady_z⟩ := steady_d.iput
  refine ⟨_, _, _, ⟨agrees_r.trans agrees_y, steady_y⟩, ⟨agrees_r.trans agrees_y, steady_y⟩,
    ⟨(agrees_r.trans agrees_d).trans agrees_z, steady_z⟩, ?_⟩
  simp only [getcwdLoop, climbs, Except.ok_bind, Table.ilock_unlocked, locks, finds, bad, strlen,
    name, iput_locking not_self, Table.iunlockput_locking held, Table.iunlock_locking held,
    Table.iput_unlocked, pure, Except.pure]
  split
  · simp only [Except.ok_bind, List.take_length]
  · rfl

/-! ## The way up -/

/-- What the buffer holds for names on the way up. -/
def backwards (names : List Path) : List UInt8 := names.flatMap (·.reverse ++ [slash])

theorem reverse_backwards (names : List Path) : (backwards names).reverse = absolute names := by
  rw [backwards, List.reverse_flatMap, absolute]
  congr 1
  funext name
  rw [Function.comp_apply, List.reverse_append, List.reverse_reverse, List.reverse_singleton,
    List.singleton_append]

/-- The loop answers when the path fits: with nothing if it is too long for the user, else with the
whole path. -/
theorem getcwdLoop_fits (wf : WellFormed t) {i : Nat} {names : List Path}
    (located : Located t i names) (some_name : names ≠ []) (agrees : Agrees t u)
    (steady : Steady u base (i ::ₘ 0)) (user : Memory) (bufp : Nat) {size : UInt64} {fuel : Nat}
    (enough : names.length ≤ fuel) {written : List UInt8} (buffer : buf.length = maxpath)
    (holds : buf.take pos = written) (at_pos : written.length = pos)
    (fits : Fits size pos names) :
    ∃ x, (Agrees t x ∧ Steady x base 0) ∧
      (size.toNat < (written ++ backwards names).length + 1 ∧
          getcwdLoop user bufp size fuel ⟨u, unlocked⟩ i buf pos = .ok (0, user, ⟨x, unlocked⟩) ∨
        (written ++ backwards names).length + 1 ≤ size.toNat ∧
          getcwdLoop user bufp size fuel ⟨u, unlocked⟩ i buf pos =
            .ok (answer user bufp ((written ++ backwards names).reverse ++ [0])
              ⟨x, unlocked⟩)) := by
  induction located generalizing fuel u buf pos written with
  | root => exact absurd rfl some_name
  | under dp names above dir e mem used is_dir ih =>
      obtain ⟨fuel, rfl⟩ : ∃ less, fuel = less + 1 := by
        rw [List.length_cons] at enough
        exact ⟨fuel - 1, by omega⟩
      obtain ⟨x, y, z, at_x, at_y, ⟨agrees_z, steady_z⟩, step⟩ :=
        getcwdLoop_step wf above dir mem used is_dir agrees steady user bufp size fuel buf pos
      obtain ⟨short, fits⟩ := fits
      rw [step, if_pos short]
      by_cases too_long : size.toNat < e.name.length + pos + 2
      · rw [if_pos too_long]
        refine ⟨x, at_x, .inl ⟨?_, rfl⟩⟩
        simp only [backwards, List.flatMap_cons, List.length_append, List.length_reverse,
          List.length_singleton, at_pos]
        omega
      · obtain ⟨room, fits⟩ := fits.resolve_left too_long
        have name_fits : pos + e.name.reverse.length ≤ buf.length := by
          rw [List.length_reverse, buffer]
          split at room <;> omega
        have taken : (buf.take pos ++ e.name.reverse ++
            buf.drop (pos + e.name.reverse.length)).take (pos + e.name.length) =
              written ++ e.name.reverse := by
          rw [holds]
          refine List.take_left' ?_
          rw [List.length_append, List.length_reverse, at_pos]
        have length : (buf.take pos ++ e.name.reverse ++
            buf.drop (pos + e.name.reverse.length)).length = maxpath := by
          rw [holds, List.length_append, List.length_append, List.length_drop, at_pos, buffer]
          omega
        have joined : written ++ backwards (e.name :: names) =
            written ++ e.name.reverse ++ [slash] ++ backwards names := by
          rw [backwards, List.flatMap_cons, backwards, List.append_assoc, List.append_assoc,
            List.append_assoc]
        rw [if_neg too_long, storeAll_ok name_fits, Except.ok_bind, joined]
        by_cases last : names = []
        · rw [if_pos ((above.root_iff wf).mpr last)]
          rw [if_pos last, ← length] at room
          rw [finish_ok room, taken, Except.ok_bind, last]
          refine ⟨y, at_y, .inr ⟨?_, ?_⟩⟩
          · simp only [backwards, List.flatMap_nil, List.append_nil, List.length_append,
              List.length_reverse, List.length_singleton, at_pos]
            omega
          · simp only [backwards, List.flatMap_nil, List.append_nil, List.reverse_append,
              List.reverse_singleton, List.cons_append]
            rfl
        · rw [if_neg fun is_root => last ((above.root_iff wf).mp is_root)]
          rw [if_neg last] at room
          have inside : pos + e.name.length < maxpath := by omega
          rw [store, length, if_pos inside, Except.ok_bind]
          refine ih last agrees_z steady_z ?_ ?_ ?_ ?_ fits
          · rw [List.length_cons] at enough
            omega
          · rw [List.length_set, length]
          · rw [List.take_add_one, List.take_set_of_le (Nat.le_refl _), taken,
              List.getElem?_set_self (by rw [length]; exact inside)]
            rfl
          · rw [List.length_append, List.length_append, List.length_reverse, List.length_singleton,
              at_pos]

/-- The loop ends in a fault when the path does not fit. -/
theorem getcwdLoop_faults (wf : WellFormed t) {i : Nat} {names : List Path}
    (located : Located t i names) (agrees : Agrees t u) (steady : Steady u base (i ::ₘ 0))
    (user : Memory) (bufp : Nat) {size : UInt64} {fuel : Nat} (enough : names.length ≤ fuel)
    (buffer : buf.length = maxpath) (unfit : ¬Fits size pos names) :
    getcwdLoop user bufp size fuel ⟨u, unlocked⟩ i buf pos = .error .badPointer := by
  induction located generalizing fuel u buf pos with
  | root => exact absurd trivial unfit
  | under dp names above dir e mem used is_dir ih =>
      obtain ⟨fuel, rfl⟩ : ∃ less, fuel = less + 1 := by
        rw [List.length_cons] at enough
        exact ⟨fuel - 1, by omega⟩
      obtain ⟨x, y, z, -, -, ⟨agrees_z, steady_z⟩, step⟩ :=
        getcwdLoop_step wf above dir mem used is_dir agrees steady user bufp size fuel buf pos
      rw [step]
      by_cases short : e.name.length < dirSiz
      · have goes : ¬size.toNat < e.name.length + pos + 2 := fun bails => unfit ⟨short, .inl bails⟩
        have some_char : e.name.reverse ≠ [] :=
          List.reverse_eq_nil_iff.not.mpr (wf.names dp dir e mem used).1
        rw [if_pos short, if_neg goes]
        by_cases name_fits : pos + e.name.reverse.length ≤ buf.length
        · have length : (buf.take pos ++ e.name.reverse ++
              buf.drop (pos + e.name.reverse.length)).length = maxpath := by
            rw [List.length_append, List.length_append, List.length_drop, List.length_take, buffer]
            omega
          rw [storeAll_ok name_fits, Except.ok_bind]
          by_cases last : names = []
          · have overflows : ¬pos + e.name.length + 2 ≤ maxpath := fun room =>
              unfit ⟨short, .inr ⟨by rwa [if_pos last], by rw [last]; trivial⟩⟩
            rw [if_pos ((above.root_iff wf).mpr last), finish_fault (by rwa [length])]
            rfl
          · rw [if_neg fun is_root => last ((above.root_iff wf).mp is_root), store, length]
            by_cases inside : pos + e.name.length < maxpath
            · rw [if_pos inside, Except.ok_bind]
              refine ih agrees_z steady_z ?_ ?_ ?_
              · rw [List.length_cons] at enough
                omega
              · rw [List.length_set, length]
              · exact fun fits => unfit ⟨short, .inr ⟨by rw [if_neg last]; omega, fits⟩⟩
            · rw [if_neg inside]
              rfl
        · rw [storeAll_fault some_char name_fits]
          rfl
      · exact if_neg short

/-! ## The call -/

theorem head?_absolute {names : List Path} (some_name : names ≠ []) :
    (absolute names).head? = some slash := by
  rw [absolute]
  cases reversed : names.reverse with
  | nil => exact absurd (List.reverse_eq_nil_iff.mp reversed) some_name
  | cons name names => rfl

theorem zero_absolute {names : List Path} (clean : ∀ name ∈ names, 0 ∉ name) :
    0 ∉ absolute names := by
  rw [absolute, List.mem_flatMap]
  rintro ⟨name, mem, zero⟩
  rcases List.mem_cons.mp zero with is_slash | zero
  · exact absurd is_slash (by decide)
  · exact clean name (List.mem_reverse.mp mem) zero

/-- The names on the way up, turned around, lead to the current directory. -/
theorem absolute_resolves (wf : WellFormed t) {p : Proc} {cwd : Nat} {names : List Path}
    (located : Located t cwd names) (some_name : names ≠ []) (agrees : Agrees t u)
    (steady : Steady u base 0) (refers : ∀ i, p.refers i → 0 < base i) {name : List UInt8}
    (room : dirSiz ≤ name.length) :
    ∃ v, Namex.namei ⟨u, unlocked⟩ p (absolute names ++ [0]) atFdcwd name = .ok (some cwd, v) := by
  have starts : startOf p (absolute names) atFdcwd = some rootIno := by
    rw [startOf, if_pos (head?_absolute some_name)]
  have clean : 0 ∉ absolute names := zero_absolute fun name mem => (located.names wf name mem).2.2.1
  obtain ⟨⟨v, finds, -⟩, -⟩ :=
    Namex.namex_resolves steady refers (agrees.tree wf.toTree) starts clean [] room
  rw [components_absolute (located.names wf), agrees.lookup, located.lookup wf] at finds
  exact ⟨_, finds⟩

/-- In the root directory a reference to it is left. -/
theorem sysGetcwd_root {p : Proc} (at_root : p.cwd = some rootIno) (buffer : buf.length = maxpath)
    (fuel : Nat) (x : Table) (mem : Memory) (bufp : Nat) (size : UInt64) :
    sysGetcwd fuel x p buf mem bufp size =
      .ok (answer mem bufp [slash, 0] { x with nodes := idup x.nodes rootIno }) := by
  have room : 0 + 2 ≤ buf.length := by
    rw [buffer]
    decide
  simp only [sysGetcwd, at_root, if_true]
  rw [finish_ok room]
  rfl

theorem root_leaks {p : Proc} (at_root : p.cwd = some rootIno) (buffer : buf.length = maxpath)
    (fuel : Nat) (mem : Memory) (bufp : Nat) (size : UInt64) :
    ¬ReturnsPath t p rootIno mem bufp size
      (sysGetcwd fuel ⟨t, unlocked⟩ p buf mem bufp size) := by
  rw [sysGetcwd_root at_root buffer]
  rintro ⟨ret, mem', x, run, refs, -⟩
  have same : idup t rootIno = x := congrArg (fun r => r.2.2.nodes) (Except.ok.inj run)
  have kept := refs rootIno
  rw [← same, idup, Function.update_self] at kept
  change (t rootIno).ref + 1 = _ at kept
  omega

/-- What has been copied to the user is a string without another zero, so it is the whole of it. -/
theorem stored_whole {path other : List UInt8} (clean : 0 ∉ path) (clean' : 0 ∉ other)
    (pages : PagesIn mem.writable bufp (other.length + 1))
    (same : (Fs.eitherCopyout true mem bufp ((path ++ [0]).getD · 0) 0 (path ++ [0]).length).2 =
      stored mem bufp (other ++ [0])) : path.length = other.length := by
  have ends (list : List UInt8) : (list ++ [0]).getD list.length 0 = 0 := by
    rw [List.getD_append_right _ _ _ _ (Nat.le_refl _), Nat.sub_self]
    rfl
  have inner {list : List UInt8} (free : 0 ∉ list) {i : Nat} (inside : i < list.length) :
      (list ++ [0]).getD i 0 ≠ 0 := by
    rw [List.getD_append _ _ _ _ inside, List.getD_eq_getElem _ _ inside]
    exact fun zero => free (zero ▸ List.getElem_mem inside)
  have at_place (i : Nat) (i_path : i < path.length + 1) (i_other : i < other.length + 1) :
      (path ++ [0]).getD i 0 = (other ++ [0]).getD i 0 := by
    have long (list : List UInt8) : (list ++ [0]).length = list.length + 1 := List.length_append
    have byte := congrArg (fun user : Memory => user.bytes (bufp + i)) same
    have copied := (@Fs.copyoutLoop_bytes _ mem ((path ++ [0]).getD · 0) bufp 0 _
      (Nat.le_refl (path ++ [0]).length) (bufp + i)).1 (Nat.le_add_right _ _)
      (by rw [long]; omega) fun a lower upper => pages a lower (by omega)
    rw [Nat.add_sub_cancel_left, Nat.zero_add] at copied
    refine copied.symm.trans (byte.trans ?_)
    have inside : bufp ≤ bufp + i ∧ bufp + i < bufp + (other ++ [0]).length := by
      rw [long]
      omega
    simp only [stored, ByteBlock.copyRange, if_pos inside, Nat.zero_add, Nat.add_sub_cancel_left]
  rcases Nat.lt_trichotomy path.length other.length with shorter | equal | longer
  · exact absurd ((at_place _ (by omega) (by omega)).symm.trans (ends path)) (inner clean' shorter)
  · exact equal
  · exact absurd ((at_place _ (by omega) (by omega)).trans (ends other)) (inner clean longer)

/-- In a tree, `sys_getcwd` does what it should exactly below the root, for a path that fits, and
into a buffer that can be written. -/
theorem getcwd_exact_iff (wf : WellFormed t) (steady : Steady t base 0) {p : Proc} {cwd : Nat}
    (at_cwd : p.cwd = some cwd) (refers : ∀ i, p.refers i → 0 < base i) {names : List Path}
    (located : Located t cwd names) {fuel : Nat} (enough : names.length ≤ fuel)
    (buffer : buf.length = maxpath) (mem : Memory) (bufp : Nat) (size : UInt64) :
    ReturnsPath t p cwd mem bufp size (sysGetcwd fuel ⟨t, unlocked⟩ p buf mem bufp size) ↔
      cwd ≠ rootIno ∧ Fits size 0 names ∧ Receives mem bufp size names := by
  obtain ⟨agrees, steady_u⟩ := steady.idup (refers cwd (.inl at_cwd))
  by_cases at_root : cwd = rootIno
  · subst at_root
    exact iff_of_false (root_leaks at_cwd buffer fuel mem bufp size) fun below => below.1 rfl
  · have some_name : names ≠ [] := fun none => at_root ((located.root_iff wf).mpr none)
    have clean : 0 ∉ absolute names :=
      zero_absolute fun name mem => (located.names wf name mem).2.2.1
    simp only [sysGetcwd, at_cwd, ne_eq, at_root, not_false_eq_true, true_and, if_false]
    by_cases fits : Fits size 0 names
    swap
    · rw [getcwdLoop_faults wf located agrees steady_u mem bufp enough buffer fits]
      refine iff_of_false ?_ fun both => fits both.1
      rintro ⟨ret, mem', x, run, -⟩
      cases run
    obtain ⟨x, ⟨agrees_x, steady_x⟩, answers⟩ := getcwdLoop_fits wf located some_name agrees
      steady_u mem bufp enough buffer List.take_zero rfl fits
    have refs : ∀ i, (x i).ref = (t i).ref := fun i => by
      rw [steady_x.ref, steady.ref]
    rw [List.nil_append, ← @List.length_reverse _ (backwards names), reverse_backwards] at answers
    rw [and_iff_right fits]
    rcases answers with ⟨too_long, run⟩ | ⟨bound, run⟩
    · rw [run]
      exact iff_of_true ⟨0, mem, x, rfl, refs, fun _ => rfl, fun success => absurd rfl success⟩
        (.inr (.inl too_long))
    · rw [run]
      by_cases none : bufp = 0
      · refine iff_of_true ⟨0, mem, x, ?_, refs, fun _ => rfl, fun success => absurd rfl success⟩
          (.inl none)
        rw [answer, if_pos none, none]
      · rw [answer, if_neg none, Receives, or_iff_right none, or_iff_right (Nat.not_lt.mpr bound)]
        constructor
        · rintro ⟨ret, mem', u, same, -, -, succeeds⟩
          cases same
          obtain ⟨path, mem_eq, pages, -, clean', -⟩ := succeeds none
          rwa [stored_whole clean clean' pages mem_eq]
        · intro pages
          refine ⟨bufp, _, x, rfl, refs, fun zero => absurd zero none, fun _ => ?_⟩
          refine ⟨absolute names, ?_, pages, bound, clean, head?_absolute some_name,
            fun name room =>
            absolute_resolves wf located some_name agrees_x steady_x refers room⟩
          have all : PagesIn mem.writable bufp (absolute names ++ [0]).length := by
            rwa [List.length_append]
          rw [Fs.eitherCopyout_spec fun _ => all]
          rfl

/-- A directory `d` in the root directory; both are in use by one process. -/
def home : Nodes := fun i =>
  if i = 1 then ⟨.dir, 0, 0, 2, 0o40755, 0, 0, [],
    [⟨1, .dir, dot⟩, ⟨1, .dir, dotdot⟩, ⟨2, .dir, [100]⟩], 1, true⟩
  else if i = 2 then ⟨.dir, 0, 0, 1, 0o40755, 0, 0, [],
    [⟨2, .dir, dot⟩, ⟨1, .dir, dotdot⟩], 1, true⟩
  else ⟨.free, 0, 0, 0, 0, 0, 0, [], [], 0, false⟩

/-- A process with a current directory. -/
def resident (cwd : Nat) : Proc := ⟨some cwd, fun _ => none, 0, 0, 0, 0, 0o22, true⟩

/-- The root directory has one reference more after the call. -/
theorem getcwd_root : ¬ReturnsPath home (resident rootIno) rootIno Readlink.everywhere 4096 128
    (sysGetcwd 0 ⟨home, unlocked⟩ (resident rootIno) (List.replicate maxpath 0) Readlink.everywhere
      4096 128) :=
  root_leaks rfl List.length_replicate 0 Readlink.everywhere 4096 128

theorem home_dir {d : Nat} (dir : (home d).type = .dir) : d = 1 ∨ d = 2 := by
  unfold home at dir
  split at dir
  · next first => exact .inl first
  · split at dir
    · next second => exact .inr second
    · cases dir

theorem home_wellFormed : WellFormed home where
  root := by decide
  named := by
    intro d dir
    rcases home_dir dir with rfl | rfl <;> decide
  rootDir := rfl
  rootUp := rfl
  dots := by
    intro d dir
    rcases home_dir dir with rfl | rfl
    · exact ⟨1, _, by decide, rfl⟩
    · exact ⟨1, _, by decide, rfl⟩
  above := by
    intro d dir
    rcases home_dir dir with rfl | rfl <;> decide
  single := by
    intro d dir
    rcases home_dir dir with rfl | rfl <;> decide
  distinct := by
    intro d dir
    rcases home_dir dir with rfl | rfl <;> decide
  names := by
    intro d dir
    rcases home_dir dir with rfl | rfl <;> decide

theorem home_steady : Steady home (fun i => if i = 1 ∨ i = 2 then 1 else 0) 0 where
  ref i := by
    unfold home
    split
    · next first => simp [first]
    · split
      · next second => simp [second]
      · next first second => simp [first, second]
  idle i free := by
    have others : ¬(i = 1 ∨ i = 2) := by
      rintro (rfl | rfl)
      · cases free
      · cases free
    exact if_neg others
  unread i free _ := by
    have first : i ≠ 1 := by
      rintro rfl
      cases free
    have second : i ≠ 2 := by
      rintro rfl
      cases free
    rw [home, if_neg first, if_neg second]
  anchored i allocated zero := by
    unfold home at zero allocated
    split at zero
    · cases zero
    · split at zero
      · cases zero
      · next first second =>
          rw [if_neg first, if_neg second] at allocated
          exact absurd rfl allocated
  bounded i allocated := by
    by_contra above
    rw [ninodes] at above
    have first : i ≠ 1 := by omega
    have second : i ≠ 2 := by omega
    rw [home, if_neg first, if_neg second] at allocated
    exact allocated rfl

/-- In the directory `d` the call returns `/d`. -/
theorem getcwd_d : ReturnsPath home (resident 2) 2 Readlink.everywhere 4096 128
    (sysGetcwd 1 ⟨home, unlocked⟩ (resident 2) (List.replicate maxpath 0) Readlink.everywhere 4096
      128) := by
  have located : Located home 2 [[100]] :=
    .under rootIno [] .root rfl ⟨2, .dir, [100]⟩ (by decide) (by decide) rfl
  have refers : ∀ i, (resident 2).refers i → 0 < if i = 1 ∨ i = 2 then 1 else 0 := by
    rintro i (at_cwd | ⟨fd, f, file, -⟩)
    · obtain rfl : 2 = i := Option.some.inj at_cwd
      decide
    · cases file
  exact (getcwd_exact_iff home_wellFormed home_steady rfl refers located (by decide)
    List.length_replicate Readlink.everywhere 4096 128).mpr
      ⟨by decide, ⟨by decide, .inr ⟨by decide, trivial⟩⟩, .inr (.inr fun _ _ _ => rfl)⟩

end Getcwd
end Dir
end Xv6Duo
