import Xv6Duo.Dir.Follow
import Xv6Duo.Dir.Walk
import Xv6Duo.Library.Trail

/-!
# The links that a search follows

The locks never stand in the way of a search. It hops from link to link, by the bytes it reads of
their targets, and comes to an end if and only if it meets no link twice and no path on its way
leads to a free inode. It holds no lock then but that of the inode it hands on.
-/

namespace Xv6Duo
namespace Dir
namespace Follow

/-! ## Locks -/

/-- Only one inode is locked. -/
def locking (i : Nat) : Locks := Function.update unlocked i true

theorem unlock_locking (i : Nat) : Function.update (locking i) i false = unlocked := by
  rw [locking, Function.update_idem]
  exact Function.update_eq_self i unlocked

variable {t u : Nodes} {i : Nat}

theorem Table.ilock_unlocked (t : Nodes) (i : Nat) :
    Table.ilock ⟨t, unlocked⟩ i = do
      let u ← Dir.ilock t i
      return ⟨u, locking i⟩ := by
  rw [Table.ilock, Dir.ilock]
  split
  · rfl
  · rw [if_neg (by exact Bool.false_ne_true)]
    rfl

theorem Table.iunlock_locking (used : 0 < (t i).ref) :
    Table.iunlock ⟨t, locking i⟩ i = .ok ⟨t, unlocked⟩ := by
  have is_locked : locking i i = true := Function.update_self ..
  rw [Table.iunlock, if_neg, unlock_locking]
  rintro (open_lock | unused)
  · exact absurd (is_locked.symm.trans open_lock) (by decide)
  · exact absurd unused (Nat.ne_of_gt used)

theorem Table.iput_unlocked (t : Nodes) (i : Nat) :
    Table.iput ⟨t, unlocked⟩ i = .ok ⟨Dir.iput t i, unlocked⟩ := by
  rw [Table.iput, if_neg]
  rintro ⟨-, is_locked⟩
  exact Bool.false_ne_true is_locked

theorem Table.iunlockput_locking (used : 0 < (t i).ref) :
    Table.iunlockput ⟨t, locking i⟩ i = .ok ⟨Dir.iput t i, unlocked⟩ := by
  rw [Table.iunlockput, Table.iunlock_locking used]
  exact Table.iput_unlocked t i

theorem ref_le_iget (t : Nodes) (i j : Nat) : (t j).ref ≤ (iget t i j).ref := by
  rw [iget_ref]
  exact Nat.le_add_right _ _

/-- The loop of `namex` locks one inode at a time. -/
theorem Table.namexLoop_unlocked (fuel : Nat) (t : Nodes) (ip : Nat) (name path : Path) :
    Table.namexLoop fuel ⟨t, unlocked⟩ ip path = do
      let (found, u) ← Dir.namexLoop false fuel t ip name path
      return (found.map Prod.fst, ⟨u, unlocked⟩) := by
  induction fuel generalizing t ip name path with
  | zero => rfl
  | succ fuel ih =>
      rw [Table.namexLoop, Dir.namexLoop]
      cases skipelem path with
      | none => rfl
      | some elem =>
          obtain ⟨elem, rest⟩ := elem
          simp only [Table.ilock_unlocked]
          cases locks : Dir.ilock t ip with
          | error fault => rfl
          | ok u =>
              have used := (ilock_spec locks).2.2.2.1
              simp only [Except.ok_bind, pure, Except.pure, Bool.false_eq_true, false_and, if_false]
              split
              · rw [Table.iunlockput_locking used]
                rfl
              · next dir =>
                  simp only [dirlookup, not_not.mp dir, if_true]
                  cases findEntry (u ip).entries elem with
                  | none =>
                      simp only [Except.ok_bind, Table.iunlockput_locking used]
                      rfl
                  | some k =>
                      have more := ref_le_iget u (inumAt (u ip).entries k) ip
                      simp only [Except.ok_bind,
                        Table.iunlockput_locking (Nat.lt_of_lt_of_le used more)]
                      exact ih _ _ elem rest

theorem Table.namei_unlocked (t : Nodes) (p : Proc) (path : Path) (dirfd : Int) :
    Table.namei ⟨t, unlocked⟩ p path dirfd = do
      let (found, u) ← Dir.namei t p path dirfd
      return (found, ⟨u, unlocked⟩) := by
  have walks (s : Nodes) (start : Nat) :
      Table.namexLoop (path.length + 1) ⟨s, unlocked⟩ start path = do
        let (found, u) ← (do
          let (found, u) ← Dir.namexLoop false (path.length + 1) s start [] path
          return (found.map Prod.fst, u) : Except Fault (Option Nat × Nodes))
        return (found, ⟨u, unlocked⟩) := by
    rw [Table.namexLoop_unlocked _ s start [] path]
    cases Dir.namexLoop false (path.length + 1) s start [] path with
    | error fault => rfl
    | ok result => rfl
  unfold Table.namei Dir.namei Dir.namex
  split
  · exact walks _ _
  · cases p.dirAt dirfd with
    | none => rfl
    | some start => exact walks _ _

/-! ## The way of a search -/

/-- How a search follows links. -/
structure Way where
  /-- The bytes of a target that are read. -/
  bytes : Nat
  /-- Whether links are followed. -/
  follows : Bool
  /-- The process. -/
  p : Proc
  /-- The directory at which relative paths start. -/
  dirfd : Int

namespace Way

variable (s : Way) (t : Nodes)

/-- Where a path leads. -/
def leads (path : Path) : Walk := resolve t s.p s.dirfd path

/-- The path that is read from a link. -/
def target (i : Nat) : Path := cstring ((t i).content.take s.bytes)

/-- The link to which a path leads, when the search follows it. -/
def linkAt (path : Path) : Option Nat :=
  match s.leads t path with
  | .found i =>
      if s.follows ∧ (t i).type = .symlink ∧ (t i).content.take s.bytes ≠ [] then some i else none
  | _ => none

/-- The next link. -/
def hop (i : Nat) : Option Nat := s.linkAt t (s.target t i)

/-- The links that a search meets. -/
def linkNo (path : Path) (n : Nat) : Option Nat := Trail.trail (s.hop t) (s.linkAt t path) n

/-- The paths that a search looks up. -/
def pathNo (path : Path) : Nat → Option Path
  | 0 => some path
  | n + 1 => (s.linkNo t path n).map (s.target t)

/-- A path starts somewhere, and meets no free inode. -/
def Safe (path : Path) : Prop :=
  match s.leads t path with
  | .panics => False
  | .missing => True
  | .found i => (t i).type ≠ .free

/-- No link is met twice, and no free inode is met. -/
def Ends (path : Path) : Prop :=
  Trail.Straight (s.hop t) (s.linkAt t path) ∧ ∀ n q, s.pathNo t path n = some q → s.Safe t q

/-- The search, from a table without locks. -/
def search (refuses : FileType → Bool) (fuel : Nat) (path : Path) :
    Except Fault (Except Int Nat × Table) :=
  Table.search s.bytes s.follows refuses s.p s.dirfd fuel ⟨t, unlocked⟩ path

variable {s t}

/-! ### References do not matter -/

theorem leads_eq (agrees : Agrees t u) : s.leads u = s.leads t :=
  funext fun path => agrees.resolve s.p s.dirfd path

theorem target_eq (agrees : Agrees t u) : s.target u = s.target t := by
  funext i
  rw [target, target, agrees.content]

theorem linkAt_eq (agrees : Agrees t u) : s.linkAt u = s.linkAt t := by
  funext path
  unfold linkAt
  rw [leads_eq agrees]
  simp only [agrees.type, agrees.content]

theorem linkNo_eq (agrees : Agrees t u) : s.linkNo u = s.linkNo t := by
  have hops : s.hop u = s.hop t := by
    funext i
    rw [hop, hop, linkAt_eq agrees, target_eq agrees]
  funext path n
  rw [linkNo, linkNo, hops, linkAt_eq agrees]

theorem pathNo_eq (agrees : Agrees t u) : s.pathNo u = s.pathNo t := by
  funext path n
  cases n with
  | zero => rfl
  | succ n => rw [pathNo, pathNo, linkNo_eq agrees, target_eq agrees]

theorem safe_eq (agrees : Agrees t u) : s.Safe u = s.Safe t := by
  funext path
  unfold Safe
  rw [leads_eq agrees]
  simp only [agrees.type]

/-! ### One pass -/

/-- What a search leaves that follows no further. -/
inductive Answer (s : Way) (t : Nodes) (base : Nat → Nat) (refuses : FileType → Bool)
    (path : Path) :
    Except Int Nat → Table → Prop
  /-- Nothing has the name. -/
  | missing {u : Nodes} (leads : s.leads t path = .missing) (agrees : Agrees t u)
      (steady : Steady u base 0) : Answer s t base refuses path (.error (-enoent)) ⟨u, unlocked⟩
  /-- The inode is refused. -/
  | refused {u : Nodes} {i : Nat} (leads : s.leads t path = .found i)
      (refused : refuses (t i).type = true) (agrees : Agrees t u) (steady : Steady u base 0) :
      Answer s t base refuses path (.error (-einval)) ⟨u, unlocked⟩
  /-- A link has no target. -/
  | empty {u : Nodes} {i : Nat} (leads : s.leads t path = .found i)
      (link : s.follows = true ∧ (t i).type = .symlink) (empty : (t i).content.take s.bytes = [])
      (agrees : Agrees t u) (steady : Steady u base 0) :
      Answer s t base refuses path (.error (-enoent)) ⟨u, unlocked⟩
  /-- An inode is found; it is locked. -/
  | found {u : Nodes} {i : Nat} (leads : s.leads t path = .found i) (allocated : (t i).type ≠ .free)
      (accepted : refuses (t i).type = false)
      (last : ¬(s.follows = true ∧ (t i).type = .symlink)) (agrees : Agrees t u)
      (steady : Steady u base (i ::ₘ 0)) : Answer s t base refuses path (.ok i) ⟨u, locking i⟩

variable {base : Nat → Nat} {refuses : FileType → Bool} {path : Path} {answer : Except Int Nat}
  {x : Table}

theorem Answer.of_agrees (given : Answer s u base refuses path answer x) (agrees : Agrees t u) :
    Answer s t base refuses path answer x := by
  cases given with
  | missing leads later steady =>
      rw [leads_eq agrees] at leads
      exact .missing leads (agrees.trans later) steady
  | refused leads refused later steady =>
      rw [leads_eq agrees] at leads
      rw [agrees.type] at refused
      exact .refused leads refused (agrees.trans later) steady
  | empty leads link empty later steady =>
      rw [leads_eq agrees] at leads
      rw [agrees.type] at link
      rw [agrees.content] at empty
      exact .empty leads link empty (agrees.trans later) steady
  | found leads allocated accepted last later steady =>
      rw [leads_eq agrees] at leads
      rw [agrees.type] at allocated accepted last
      exact .found leads allocated accepted last (agrees.trans later) steady

/-- What one pass of the loop does. -/
inductive Pass (s : Way) (t : Nodes) (base : Nat → Nat) (refuses : FileType → Bool) (path : Path)
    (fuel : Nat) : Except Fault (Except Int Nat × Table) → Prop
  /-- The kernel stops. -/
  | panics {fault : Fault} (stops : ¬s.Safe t path) : Pass s t base refuses path fuel (.error fault)
  /-- The search comes to an end. -/
  | ends {answer : Except Int Nat} {x : Table} (safe : s.Safe t path)
      (last : s.linkAt t path = none) (given : Answer s t base refuses path answer x) :
      Pass s t base refuses path fuel (.ok (answer, x))
  /-- It goes on behind a link. -/
  | follows {u : Nodes} {i : Nat} (safe : s.Safe t path) (link : s.linkAt t path = some i)
      (agrees : Agrees t u) (steady : Steady u base 0) :
      Pass s t base refuses path fuel (s.search u refuses fuel (s.target t i))

theorem linkAt_found {i : Nat} (leads : s.leads t path = .found i) :
    s.linkAt t path = if s.follows ∧ (t i).type = .symlink ∧ (t i).content.take s.bytes ≠ []
      then some i else none := by
  unfold linkAt
  rw [leads]

/-- A path that leads to a link that is followed. -/
theorem linkAt_some {i : Nat} (link : s.linkAt t path = some i) :
    s.leads t path = .found i ∧ s.follows = true ∧ (t i).type = .symlink ∧
      (t i).content.take s.bytes ≠ [] := by
  unfold linkAt at link
  split at link
  · next j leads =>
      split at link
      · next follows =>
          cases link
          exact ⟨leads, follows⟩
      · cases link
  · cases link

theorem safe_found {i : Nat} (leads : s.leads t path = .found i) :
    s.Safe t path ↔ (t i).type ≠ .free := by
  rw [Safe, leads]

/-- A search passes through its loop again only behind a link. -/
theorem pass (steady : Steady t base 0) (refers : ∀ i, s.p.refers i → 0 < base i)
    (links : refuses .symlink = false) (fuel : Nat) (path : Path) :
    Pass s t base refuses path fuel (s.search t refuses (fuel + 1) path) := by
  have walked : (s.leads t path).Leads t base 0 (namei t s.p path s.dirfd) :=
    namei_walk s.dirfd path steady refers
  rw [search, Table.search, Table.namei_unlocked]
  cases leads : s.leads t path with
  | panics =>
      rw [leads] at walked
      obtain ⟨fault, run⟩ := walked
      rw [run]
      refine .panics ?_
      rw [Safe, leads]
      exact not_false
  | missing =>
      rw [leads] at walked
      obtain ⟨u, run, agrees, steady_u⟩ := walked
      rw [run]
      refine .ends ?_ ?_ (.missing leads agrees steady_u)
      · rw [Safe, leads]
        trivial
      · unfold linkAt
        rw [leads]
  | found i =>
      rw [leads] at walked
      obtain ⟨u, run, agrees, steady_u⟩ := walked
      have mem : i ∈ i ::ₘ (0 : Multiset Nat) := Multiset.mem_cons_self i 0
      simp only [run, Except.ok_bind, pure, Except.pure, Table.ilock_unlocked]
      cases Decidable.em ((t i).type = .free) with
      | inl free =>
          rw [steady_u.ilock_free mem ((agrees.type i).trans free)]
          exact .panics fun safe => (safe_found leads).mp safe free
      | inr allocated =>
          have safe := (safe_found leads).mpr allocated
          obtain ⟨v, locks, locked, steady_v⟩ :=
            steady_u.ilock mem (fun free => allocated ((agrees.type i).symm.trans free))
          have agrees_v := agrees.trans locked
          obtain ⟨dropped, steady_y⟩ := steady_v.iput
          have agrees_y := agrees_v.trans dropped
          have used := steady_v.ref_pos mem
          simp only [locks, Except.ok_bind, agrees_v.type, agrees_v.content,
            Table.iunlockput_locking used]
          have link := linkAt_found leads
          split
          · -- a refused inode is no link
            next refused =>
              have no_link : (t i).type ≠ .symlink := by
                intro is_link
                rw [is_link, links] at refused
                cases refused
              refine .ends safe ?_ (.refused leads refused agrees_y steady_y)
              rw [link, if_neg fun follows => no_link follows.2.1]
          · next accepted =>
              split
              · next follows =>
                  split
                  · next empty =>
                      refine .ends safe ?_ (.empty leads follows empty agrees_y steady_y)
                      rw [link, if_neg fun goes => goes.2.2 empty]
                  · next bytes =>
                      rw [if_pos ⟨follows.1, follows.2, bytes⟩] at link
                      exact .follows safe link agrees_y steady_y
              · next last =>
                  refine .ends safe ?_
                    (.found leads allocated (Bool.eq_false_of_not_eq_true accepted)
                    last agrees_v steady_v)
                  rw [link, if_neg fun goes => last ⟨goes.1, goes.2.1⟩]

/-! ### The whole search -/

/-- Behind the first link the search is that of the target. -/
theorem linkNo_succ {i : Nat} (link : s.linkAt t path = some i) (n : Nat) :
    s.linkNo t path (n + 1) = s.linkNo t (s.target t i) n := by
  rw [linkNo, Trail.trail_succ, link]
  rfl

theorem pathNo_succ {i : Nat} (link : s.linkAt t path = some i) (n : Nat) :
    s.pathNo t path (n + 1) = s.pathNo t (s.target t i) n := by
  cases n with
  | zero =>
      change (s.linkAt t path).map (s.target t) = _
      rw [link]
      rfl
  | succ n => rw [pathNo, pathNo, linkNo_succ link]

theorem linkNo_none (last : s.linkAt t path = none) (n : Nat) : s.linkNo t path n = none := by
  rw [linkNo, last, Trail.trail_none]

theorem pathNo_none (last : s.linkAt t path = none) (n : Nat) :
    s.pathNo t path (n + 1) = none := by
  rw [pathNo, linkNo_none last]
  rfl

theorem linkAt_below (steady : Steady t base 0) {i : Nat} (link : s.linkAt t path = some i) :
    i < ninodes := by
  obtain ⟨-, -, is_link, -⟩ := linkAt_some link
  apply steady.bounded i
  rw [is_link]
  decide

theorem linkNo_below (steady : Steady t base 0) (n : Nat) {i : Nat}
    (link : s.linkNo t path n = some i) : i < ninodes := by
  cases n with
  | zero => exact linkAt_below steady link
  | succ n =>
      obtain ⟨j, -, hops⟩ := Option.bind_eq_some_iff.mp link
      exact linkAt_below steady hops

/-- A search that comes to an end has met its last link and only safe paths; the last of them gives
the answer. -/
theorem search_run (fuel : Nat) (steady : Steady t base 0) (refers : ∀ i, s.p.refers i → 0 < base i)
    (links : refuses .symlink = false) (run : s.search t refuses fuel path = .ok (answer, x)) :
    s.linkNo t path fuel = none ∧ (∀ n q, s.pathNo t path n = some q → s.Safe t q) ∧
      ∃ n q, s.pathNo t path n = some q ∧ s.linkAt t q = none ∧
        Answer s t base refuses q answer x := by
  induction fuel generalizing t path with
  | zero => cases run
  | succ fuel ih =>
      have passes := pass steady refers links fuel path
      rw [run] at passes
      generalize outcome : Except.ok (answer, x) = result at passes
      cases passes with
      | panics => cases outcome
      | ends safe last given =>
          cases outcome
          refine ⟨linkNo_none last _, fun n q at_n => ?_, 0, path, rfl, last, given⟩
          cases n with
          | zero =>
              cases at_n
              exact safe
          | succ n =>
              rw [pathNo_none last] at at_n
              cases at_n
      | @follows u i safe link agrees steady_u =>
          obtain ⟨ended, all_safe, n, q, at_n, last, given⟩ := ih steady_u outcome.symm
          rw [linkNo_eq agrees] at ended
          rw [pathNo_eq agrees] at at_n
          rw [linkAt_eq agrees] at last
          refine ⟨(linkNo_succ link fuel).trans ended, fun m r at_m => ?_, n + 1, q, ?_, last,
            given.of_agrees agrees⟩
          · cases m with
            | zero =>
                cases at_m
                exact safe
            | succ m =>
                rw [pathNo_succ link, ← pathNo_eq agrees] at at_m
                have safe_u := all_safe m r at_m
                rwa [safe_eq agrees] at safe_u
          · rwa [pathNo_succ link]

/-- A search comes to an end when it has met its last link. -/
theorem search_ends (k : Nat) (steady : Steady t base 0) (refers : ∀ i, s.p.refers i → 0 < base i)
    (links : refuses .symlink = false) (ended : s.linkNo t path k = none)
    (safe : ∀ n q, s.pathNo t path n = some q → s.Safe t q) :
    ∃ answer x, s.search t refuses (k + 1) path = .ok (answer, x) := by
  induction k generalizing t path with
  | zero =>
      have passes := pass steady refers links 0 path
      generalize outcome : s.search t refuses (0 + 1) path = result at passes ⊢
      cases passes with
      | panics stops => exact absurd (safe 0 path rfl) stops
      | ends => exact ⟨_, _, rfl⟩
      | follows _ link =>
          change s.linkAt t path = none at ended
          rw [link] at ended
          cases ended
  | succ k ih =>
      have passes := pass steady refers links (k + 1) path
      generalize outcome : s.search t refuses (k + 1 + 1) path = result at passes ⊢
      cases passes with
      | panics stops => exact absurd (safe 0 path rfl) stops
      | ends => exact ⟨_, _, rfl⟩
      | follows _ link agrees steady_u =>
          rw [linkNo_succ link, ← linkNo_eq agrees] at ended
          refine ih steady_u ended fun n q at_n => ?_
          rw [pathNo_eq agrees, ← pathNo_succ link] at at_n
          rw [safe_eq agrees]
          exact safe (n + 1) q at_n

/-- A search comes to an end if and only if it meets no link twice and only safe paths. It needs at
most as many passes as the card has inodes, and one. -/
theorem search_iff (steady : Steady t base 0) (refers : ∀ i, s.p.refers i → 0 < base i)
    (links : refuses .symlink = false) :
    (∃ fuel answer x, s.search t refuses fuel path = .ok (answer, x)) ↔ s.Ends t path := by
  constructor
  · rintro ⟨fuel, answer, x, run⟩
    obtain ⟨ended, safe, -⟩ := search_run fuel steady refers links run
    exact ⟨Trail.straight_of_ended ended, safe⟩
  · rintro ⟨straight, safe⟩
    have ended := Trail.ended_of_straight (fun n b at_n => linkNo_below steady n at_n) straight
    exact ⟨ninodes + 1, search_ends ninodes steady refers links ended safe⟩

end Way

end Follow
end Dir
end Xv6Duo
