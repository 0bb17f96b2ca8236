import Xv6Duo.Dir.Holds

/-!
# Where a path leads

What `namei` finds depends on the types and the entries of the inodes alone. Between two calls an
inode without links is in use by a process, so a walk frees none: it drops all references that it
takes but the last one, and leaves every inode as it is.
-/

namespace Xv6Duo
namespace Dir

/-! ## Tables that differ in references -/

/-- The tables differ at most in what the inode table counts. -/
def Agrees (t u : Nodes) : Prop := ∀ i, u i = { t i with ref := (u i).ref, valid := (u i).valid }

variable {t u : Nodes} {base : Nat → Nat} {held : Multiset Nat} {i : Nat}

theorem Agrees.refl (t : Nodes) : Agrees t t := fun _ => rfl

theorem Agrees.trans {x : Nodes} (first : Agrees t u) (second : Agrees u x) : Agrees t x := by
  intro i
  rw [second i, first i]

theorem agrees_update {n : Node} (same : n = { t i with ref := n.ref, valid := n.valid }) :
    Agrees t (Function.update t i n) := by
  intro j
  cases Decidable.em (j = i) with
  | inl eq =>
      subst eq
      rw [Function.update_self]
      exact same
  | inr differ => rw [Function.update_of_ne differ]

theorem Agrees.type (agrees : Agrees t u) (i : Nat) : (u i).type = (t i).type := by rw [agrees i]

theorem Agrees.nlink (agrees : Agrees t u) (i : Nat) : (u i).nlink = (t i).nlink := by rw [agrees i]

theorem Agrees.entries (agrees : Agrees t u) (i : Nat) : (u i).entries = (t i).entries := by
  rw [agrees i]

theorem Agrees.content (agrees : Agrees t u) (i : Nat) : (u i).content = (t i).content := by
  rw [agrees i]

/-! ## References of a call -/

/-- The inode table counts what is in use, and processes use the inodes without links. Nothing is
said of entries and targets. -/
structure Steady (t : Nodes) (base : Nat → Nat) (held : Multiset Nat) : Prop where
  /-- References are those of processes and those of the call. -/
  ref : ∀ i, (t i).ref = base i + held.count i
  /-- No process refers to a free inode. -/
  idle : ∀ i, (t i).type = .free → base i = 0
  /-- A free inode is not read. -/
  unread : ∀ i, (t i).type = .free → 0 < (t i).ref → (t i).valid = false
  /-- Not only the call refers to an inode without links. -/
  anchored : ∀ i, (t i).type ≠ .free → (t i).nlink = 0 → 0 < base i
  /-- The card has `NINODES` inodes. -/
  bounded : ∀ i, (t i).type ≠ .free → i < ninodes

/-- Between two calls. -/
theorem Steady.of_holds {strict : Prop} (holds : Holds strict t base 0) : Steady t base 0 := by
  obtain ⟨extra, deficit, sound, -⟩ := holds
  refine ⟨sound.ref, sound.idle, sound.unread, fun i allocated zero => ?_,
    fun i allocated => (sound.bounded i allocated).2⟩
  have used := (sound.alive i allocated zero).1
  rwa [sound.ref, Multiset.count_zero, Nat.add_zero] at used

/-- One entry of the inode table changes, with the references of the call to it. -/
theorem Steady.entry (steady : Steady t base held) {n : Node} {held' : Multiset Nat}
    (same : n = { t i with ref := n.ref, valid := n.valid })
    (ref : n.ref = base i + held'.count i) (others : ∀ j, j ≠ i → held'.count j = held.count j)
    (unread : (t i).type = .free → 0 < n.ref → n.valid = false) :
    Agrees t (Function.update t i n) ∧ Steady (Function.update t i n) base held' := by
  have agrees : Agrees t (Function.update t i n) := agrees_update same
  refine ⟨agrees, fun j => ?_, fun j free => ?_, fun j free used => ?_, fun j allocated zero => ?_,
    fun j allocated => ?_⟩
  · cases Decidable.em (j = i) with
    | inl eq =>
        subst eq
        rwa [Function.update_self]
    | inr differ => rw [Function.update_of_ne differ, others j differ, steady.ref]
  · rw [agrees.type] at free
    exact steady.idle j free
  · rw [agrees.type] at free
    cases Decidable.em (j = i) with
    | inl eq =>
        subst eq
        rw [Function.update_self] at used ⊢
        exact unread free used
    | inr differ =>
        rw [Function.update_of_ne differ] at used ⊢
        exact steady.unread j free used
  · rw [agrees.type] at allocated
    rw [agrees.nlink] at zero
    exact steady.anchored j allocated zero
  · rw [agrees.type] at allocated
    exact steady.bounded j allocated

theorem Steady.ref_pos (steady : Steady t base held) (mem : i ∈ held) : 0 < (t i).ref := by
  have held_pos := Multiset.count_pos.mpr mem
  rw [steady.ref]
  omega

theorem Steady.iget (steady : Steady t base held) (i : Nat) :
    Agrees t (iget t i) ∧ Steady (Dir.iget t i) base (i ::ₘ held) := by
  have counted := steady.ref i
  have others : ∀ j, j ≠ i → (i ::ₘ held).count j = held.count j := fun j differ =>
    Multiset.count_cons_of_ne differ held
  rw [Dir.iget]
  split
  · next unused =>
      apply steady.entry rfl _ others (fun _ _ => rfl)
      rw [Multiset.count_cons_self, ← Nat.add_assoc, ← counted, unused]
  · next used =>
      apply steady.entry rfl _ others
      · intro free _
        exact steady.unread i free (Nat.pos_of_ne_zero used)
      · rw [Multiset.count_cons_self, ← Nat.add_assoc, ← counted]

theorem Steady.idup (steady : Steady t base held) (refers : 0 < base i) :
    Agrees t (idup t i) ∧ Steady (Dir.idup t i) base (i ::ₘ held) := by
  apply steady.entry rfl
  · rw [Multiset.count_cons_self, ← Nat.add_assoc, ← steady.ref i]
  · intro j differ
    exact Multiset.count_cons_of_ne differ held
  · intro free
    have unused := steady.idle i free
    omega

/-- A free inode cannot be locked. -/
theorem Steady.ilock_free (steady : Steady t base held) (mem : i ∈ held)
    (free : (t i).type = .free) : ilock t i = .error .ilockNoType := by
  have used := steady.ref_pos mem
  have unread := steady.unread i free used
  rw [ilock, if_neg (Nat.ne_of_gt used), unread, if_neg (by decide), if_pos free]

theorem Steady.ilock (steady : Steady t base held) (mem : i ∈ held)
    (allocated : (t i).type ≠ .free) :
    ∃ u, ilock t i = .ok u ∧ Agrees t u ∧ Steady u base held := by
  have used := steady.ref_pos mem
  rw [Dir.ilock, if_neg (Nat.ne_of_gt used), if_neg allocated]
  split
  · exact ⟨t, rfl, Agrees.refl t, steady⟩
  · refine ⟨_, rfl, ?_⟩
    apply steady.entry rfl
    · exact steady.ref i
    · exact fun _ _ => rfl
    · exact fun free => absurd free allocated

/-- A reference that the call drops is not the last one to an inode without links. -/
theorem Steady.iput (steady : Steady t base (i ::ₘ held)) :
    Agrees t (iput t i) ∧ Steady (Dir.iput t i) base held := by
  have counted := steady.ref i
  rw [Multiset.count_cons_self] at counted
  have remains : ¬((t i).ref = 1 ∧ (t i).valid = true ∧ (t i).nlink = 0) := by
    rintro ⟨last, valid, unlinked⟩
    have allocated : (t i).type ≠ .free := by
      intro free
      rw [steady.unread i free (by omega)] at valid
      cases valid
    have anchored := steady.anchored i allocated unlinked
    omega
  rw [Dir.iput, if_neg remains]
  apply steady.entry rfl
  · change (t i).ref - 1 = _
    omega
  · intro j differ
    exact (Multiset.count_cons_of_ne differ held).symm
  · intro free _
    exact steady.unread i free (by omega)

/-! ## Walks -/

/-- How the search for a path ends. -/
inductive Walk
  /-- A free inode is met, or there is no directory to start from. -/
  | panics
  /-- Nothing has the name. -/
  | missing
  /-- An inode is found. -/
  | found (ip : Nat)
  deriving DecidableEq

/-- The walk from an inode along a path, with fuel. -/
def walkFrom (t : Nodes) : Nat → Nat → Path → Walk
  | 0, _, _ => .missing
  | fuel + 1, ip, path =>
      match skipelem path with
      | none => .found ip
      | some (name, path) =>
          if (t ip).type = .free then .panics
          else if (t ip).type ≠ .dir then .missing
          else match findEntry (t ip).entries name with
            | none => .missing
            | some k => walkFrom t fuel (inumAt (t ip).entries k) path

/-- The inode at which a path starts. -/
def startOf (p : Proc) (path : Path) (dirfd : Int) : Option Nat :=
  if path.head? = some slash then some rootIno
  else p.dirAt dirfd

/-- Where a path leads. -/
def resolve (t : Nodes) (p : Proc) (dirfd : Int) (path : Path) : Walk :=
  match startOf p path dirfd with
  | none => .panics
  | some start => walkFrom t (path.length + 1) start path

theorem Agrees.walkFrom (agrees : Agrees t u) (fuel ip : Nat) (path : Path) :
    walkFrom u fuel ip path = walkFrom t fuel ip path := by
  induction fuel generalizing ip path with
  | zero => rfl
  | succ fuel ih =>
      rw [Dir.walkFrom, Dir.walkFrom, agrees.type, agrees.entries]
      simp only [ih]

theorem Agrees.resolve (agrees : Agrees t u) (p : Proc) (dirfd : Int)
    (path : Path) : resolve u p dirfd path = resolve t p dirfd path := by
  rw [Dir.resolve, Dir.resolve]
  simp only [agrees.walkFrom]

/-- The path behind an element is shorter. -/
theorem skipelem_length {path name rest : Path} (next : skipelem path = some (name, rest)) :
    rest.length < path.length := by
  rw [skipelem] at next
  split at next
  · cases next
  · next some_bytes =>
      cases next
      obtain ⟨first, others, split⟩ := List.exists_cons_of_ne_nil some_bytes
      have drops : (path.dropWhile (· = slash)).length ≤ path.length :=
        (List.dropWhile_sublist _).length_le
      have first_ne : first ≠ slash := by
        have head := List.head_dropWhile_not (p := fun b => decide (b = slash)) some_bytes
        simp only [split, List.head_cons] at head
        simpa using head
      rw [split, List.dropWhile_cons_of_pos (by simpa using first_ne)]
      rw [split] at drops
      have later :=
        (List.dropWhile_sublist (l := List.dropWhile (fun b => decide (b ≠ slash)) others)
        (fun b => decide (b = slash))).length_le
      have rest := (List.dropWhile_sublist (l := others) (fun b => decide (b ≠ slash))).length_le
      simp only [List.length_cons] at drops
      omega

/-- What a search does: it fails, finds nothing, or hands on an inode. -/
def Walk.Leads (walk : Walk) (t : Nodes) (base : Nat → Nat) (held : Multiset Nat)
    (run : Except Fault (Option Nat × Nodes)) : Prop :=
  match walk with
  | .panics => ∃ fault, run = .error fault
  | .missing => ∃ u, run = .ok (none, u) ∧ Agrees t u ∧ Steady u base held
  | .found ip => ∃ u, run = .ok (some ip, u) ∧ Agrees t u ∧ Steady u base (ip ::ₘ held)

theorem Walk.Leads.after {walk : Walk} {run : Except Fault (Option Nat × Nodes)}
    (leads : walk.Leads u base held run) (agrees : Agrees t u) : walk.Leads t base held run := by
  cases walk with
  | panics => exact leads
  | missing =>
      obtain ⟨x, run, later, steady⟩ := leads
      exact ⟨x, run, agrees.trans later, steady⟩
  | found ip =>
      obtain ⟨x, run, later, steady⟩ := leads
      exact ⟨x, run, agrees.trans later, steady⟩

/-- The loop of `namex` walks along the path. -/
theorem namexLoop_walk (fuel : Nat) {ip : Nat} {name path : Path}
    (steady : Steady t base (ip ::ₘ held)) (enough : path.length < fuel) :
    (walkFrom t fuel ip path).Leads t base held do
      let (found, t) ← namexLoop false fuel t ip name path
      return (found.map Prod.fst, t) := by
  induction fuel generalizing t ip name path with
  | zero => exact absurd enough (Nat.not_lt_zero _)
  | succ fuel ih =>
      rw [walkFrom, namexLoop]
      cases next : skipelem path with
      | none => exact ⟨t, rfl, Agrees.refl t, steady⟩
      | some elem =>
          obtain ⟨name, rest⟩ := elem
          have shorter := skipelem_length next
          have mem : ip ∈ ip ::ₘ held := Multiset.mem_cons_self ip held
          simp only
          split
          · next free => exact ⟨_, by rw [steady.ilock_free mem free]; rfl⟩
          · next allocated =>
              obtain ⟨s, locks, agrees_s, steady_s⟩ := steady.ilock mem allocated
              have type := agrees_s.type ip
              simp only [locks, Except.ok_bind, type]
              split
              · -- not a directory
                obtain ⟨agrees_x, steady_x⟩ := steady_s.iput
                exact ⟨_, rfl, agrees_s.trans agrees_x, steady_x⟩
              · next dir =>
                  have is_dir : (s ip).type = .dir := type.trans (not_not.mp dir)
                  simp only [dirlookup, is_dir, if_true, agrees_s.entries, Bool.false_eq_true,
                    false_and, if_false]
                  cases entry : findEntry (t ip).entries name with
                  | none =>
                      obtain ⟨agrees_x, steady_x⟩ := steady_s.iput
                      exact ⟨_, rfl, agrees_s.trans agrees_x, steady_x⟩
                  | some k =>
                      obtain ⟨agrees_x, steady_x⟩ := steady_s.iget (inumAt (t ip).entries k)
                      rw [Multiset.cons_swap] at steady_x
                      obtain ⟨agrees_y, steady_y⟩ := steady_x.iput
                      have agrees := (agrees_s.trans agrees_x).trans agrees_y
                      have leads := @ih _ _ name rest steady_y (by omega)
                      rw [agrees.walkFrom] at leads
                      exact leads.after agrees

/-- `namex` starts somewhere if it returns. -/
theorem exists_start {p : Proc} {path : Path} {dirfd : Int} {parent : Bool}
    {answer : Option (Nat × Path) × Nodes} (run : namex t p parent path dirfd = .ok answer) :
    ∃ start, startOf p path dirfd = some start := by
  unfold namex at run
  unfold startOf
  split at run
  · next from_root => exact ⟨rootIno, if_pos from_root⟩
  · next relative =>
      rw [if_neg relative]
      cases starts : p.dirAt dirfd with
      | none =>
          simp only [starts] at run
          cases run
      | some start => exact ⟨start, rfl⟩

/-- `namei` finds where a path leads. -/
theorem namei_walk {p : Proc} (dirfd : Int) (path : Path)
    (steady : Steady t base held) (refers : ∀ i, p.refers i → 0 < base i) :
    (resolve t p dirfd path).Leads t base held (namei t p path dirfd) := by
  have walks {s : Nodes} {start : Nat} (agrees : Agrees t s)
    (steady : Steady s base (start ::ₘ held)) :
      (walkFrom t (path.length + 1) start path).Leads t base held do
        let (found, t) ← namexLoop false (path.length + 1) s start [] path
        return (found.map Prod.fst, t) := by
    have leads :=
      @namexLoop_walk s base held (path.length + 1) start [] path steady (Nat.lt_succ_self _)
    rw [agrees.walkFrom] at leads
    exact leads.after agrees
  unfold resolve startOf namei namex
  split_ifs
  · obtain ⟨agrees, steady_s⟩ := steady.iget rootIno
    exact walks agrees steady_s
  · cases starts : p.dirAt dirfd with
    | none => exact ⟨_, rfl⟩
    | some start =>
        obtain ⟨agrees, steady_s⟩ := steady.idup (refers start (Proc.refers_dirAt starts))
        exact walks agrees steady_s

end Dir
end Xv6Duo
