import Xv6Duo.Errno
import Mathlib.Data.Finset.Insert
import Mathlib.Data.UInt
import Mathlib.Tactic

/-!
# Credentials

The user ids and capability sets of a process and the calls of `kernel/sysproc.c` that change the
ids. `setuid` checks its argument only when the process may set any id; without the capability it
takes every value. The other calls give out the ids that the process has.
-/

namespace Xv6Duo
namespace Process

/-- The user ids and the capability sets of `struct proc` that the calls use. -/
structure Cred where
  /-- Real user. -/
  uid : UInt32
  /-- Effective user. -/
  euid : UInt32
  /-- Saved user. -/
  suid : UInt32
  /-- User for file access. -/
  fsuid : UInt32
  /-- Effective capabilities. -/
  capEffective : UInt32
  /-- Permitted capabilities. -/
  capPermitted : UInt32
  deriving DecidableEq, Repr

/-- `CAP_SETUID`. -/
def capSetuid : UInt32 := 7

/-- `CAP_FS_MASK`. -/
def capFsMask : UInt32 := 0x1f

/-- `CAP_TO_MASK`. -/
def capToMask (cap : UInt32) : UInt32 := 1 <<< cap

/-- `capable`. -/
def capable (p : Cred) (cap : UInt32) : Bool := p.capEffective &&& capToMask cap ≠ 0

/-- `(uid_t)-1`. -/
def noId : UInt32 := 0xffffffff

/-- `cap_emulate_setxuid`. -/
def capEmulateSetxuid (p : Cred) (oldRuid oldEuid oldSuid : UInt32) : Cred :=
  let p := if (oldRuid = 0 ∨ oldEuid = 0 ∨ oldSuid = 0) ∧ p.uid ≠ 0 ∧ p.euid ≠ 0 ∧ p.suid ≠ 0 then
      { p with capPermitted := 0, capEffective := 0 }
    else p
  let p := if oldEuid = 0 ∧ p.euid ≠ 0 then { p with capEffective := 0 } else p
  if oldEuid ≠ 0 ∧ p.euid = 0 then { p with capEffective := p.capPermitted } else p

/-- `sys_setuid`. -/
def sysSetuid (p : Cred) (uid : UInt32) : Int × Cred :=
  let finish (q : Cred) (newSuid : UInt32) : Int × Cred :=
    (0, capEmulateSetxuid { q with fsuid := uid, euid := uid, suid := newSuid } p.uid p.euid p.suid)
  if capable p capSetuid then
    if uid ≠ p.uid then finish { p with uid := uid } uid
    else if uid ≠ p.uid ∧ uid ≠ p.suid then (-eperm, p)
    else finish p p.suid
  else finish p p.suid

/-- `sys_setreuid`. -/
def sysSetreuid (p : Cred) (ruid euid : UInt32) : Int × Cred :=
  if ruid ≠ noId ∧ p.uid ≠ ruid ∧ p.euid ≠ ruid ∧ ¬capable p capSetuid then (-eperm, p)
  else if euid ≠ noId ∧ p.euid ≠ euid ∧ p.suid ≠ euid ∧ ¬capable p capSetuid then (-eperm, p)
  else
    let newRuid := if ruid ≠ noId then ruid else p.uid
    let newEuid := if euid ≠ noId then euid else p.euid
    let q := if newRuid ≠ p.uid then { p with uid := ruid } else p
    let q := { q with fsuid := newEuid, euid := newEuid }
    let q := if ruid ≠ noId ∨ euid ≠ noId ∧ euid ≠ p.uid then { q with suid := q.euid } else q
    let q := { q with fsuid := q.euid }
    (0, capEmulateSetxuid q p.uid p.euid p.suid)

/-- The test of `sys_setresuid` for one of its arguments. -/
def Cred.owns (p : Cred) (id : UInt32) : Prop :=
  id = noId ∨ id = p.uid ∨ id = p.euid ∨ id = p.suid

instance (p : Cred) (id : UInt32) : Decidable (p.owns id) :=
  inferInstanceAs (Decidable (_ ∨ _))

/-- `sys_setresuid`. -/
def sysSetresuid (p : Cred) (ruid euid suid : UInt32) : Int × Cred :=
  if ¬capable p capSetuid ∧ ¬(p.owns ruid ∧ p.owns euid ∧ p.owns suid) then (-eperm, p)
  else
    let q := if ruid ≠ noId then { p with uid := ruid } else p
    let q := if euid ≠ noId then { q with euid := euid, fsuid := euid } else q
    let q := if suid ≠ noId then { q with suid := suid } else q
    (0, capEmulateSetxuid q p.uid p.euid p.suid)

/-- `sys_setfsuid`. -/
def sysSetfsuid (p : Cred) (fsuid : UInt32) : Int × Cred :=
  let q := if fsuid = p.uid ∨ fsuid = p.euid ∨ fsuid = p.suid ∨ fsuid = p.fsuid ∨
      capable p capSetuid then { p with fsuid := fsuid } else p
  let q := if p.fsuid = 0 ∧ q.fsuid ≠ 0 then
      { q with capEffective := q.capEffective &&& ~~~capFsMask } else q
  let q := if p.fsuid ≠ 0 ∧ q.fsuid = 0 then
      { q with capEffective := q.capEffective ||| (q.capPermitted &&& capFsMask) } else q
  (p.fsuid.toNat, q)

/-- The calls that change user ids. -/
inductive UidCall
  /-- `setuid`. -/
  | setuid (uid : UInt32)
  /-- `setreuid`. -/
  | setreuid (ruid euid : UInt32)
  /-- `setresuid`. -/
  | setresuid (ruid euid suid : UInt32)
  /-- `setfsuid`. -/
  | setfsuid (fsuid : UInt32)
  deriving DecidableEq, Repr

/-- The credentials after a call. -/
def UidCall.apply (p : Cred) : UidCall → Cred
  | .setuid uid => (sysSetuid p uid).2
  | .setreuid ruid euid => (sysSetreuid p ruid euid).2
  | .setresuid ruid euid suid => (sysSetresuid p ruid euid suid).2
  | .setfsuid fsuid => (sysSetfsuid p fsuid).2

/-- The user ids of a process. -/
def Cred.ids (p : Cred) : Finset UInt32 := {p.uid, p.euid, p.suid, p.fsuid}

/-- The credentials before, between and after the calls of a sequence. -/
def states (p : Cred) (calls : List UidCall) : List Cred := calls.scanl UidCall.apply p

/-! ## One call -/

theorem ids_subset_iff {p : Cred} {ids : Finset UInt32} :
    p.ids ⊆ ids ↔ p.uid ∈ ids ∧ p.euid ∈ ids ∧ p.suid ∈ ids ∧ p.fsuid ∈ ids := by
  simp [Cred.ids, Finset.insert_subset_iff]

@[simp]
theorem capEmulateSetxuid_ids (p : Cred) (oldRuid oldEuid oldSuid : UInt32) :
    (capEmulateSetxuid p oldRuid oldEuid oldSuid).ids = p.ids := by
  simp only [capEmulateSetxuid]
  split_ifs <;> rfl

/-- Without the capability `setuid` still sets the effective id, to any value. -/
theorem sysSetuid_ids {p : Cred} (absent : capable p capSetuid = false) (uid : UInt32) :
    (sysSetuid p uid).2.ids = {p.uid, uid, p.suid, uid} := by
  simp only [sysSetuid, absent, Bool.false_eq_true, if_false, capEmulateSetxuid_ids]
  rfl

theorem mem_ids {p : Cred} {id : UInt32} :
    id ∈ p.ids ↔ id = p.uid ∨ id = p.euid ∨ id = p.suid ∨ id = p.fsuid := by
  simp [Cred.ids]

theorem sysSetreuid_ids {p : Cred} (absent : capable p capSetuid = false) (ruid euid : UInt32) :
    (sysSetreuid p ruid euid).2.ids ⊆ p.ids := by
  unfold sysSetreuid
  split
  · exact Finset.Subset.refl _
  · next ruid_allowed =>
      split
      · exact Finset.Subset.refl _
      · next euid_allowed =>
          simp only [capEmulateSetxuid_ids, ids_subset_iff, mem_ids]
          grind

theorem sysSetresuid_ids {p : Cred} (absent : capable p capSetuid = false)
    (ruid euid suid : UInt32) : (sysSetresuid p ruid euid suid).2.ids ⊆ p.ids := by
  unfold sysSetresuid
  split
  · exact Finset.Subset.refl _
  · next allowed =>
      simp only [capEmulateSetxuid_ids, ids_subset_iff, mem_ids]
      grind [Cred.owns]

theorem sysSetfsuid_ids {p : Cred} (absent : capable p capSetuid = false) (fsuid : UInt32) :
    (sysSetfsuid p fsuid).2.ids ⊆ p.ids := by
  simp only [sysSetfsuid, ids_subset_iff, mem_ids]
  grind

/-- Without the capability a call other than `setuid` gives out only the ids of the process. -/
theorem apply_ids {p : Cred} (absent : capable p capSetuid = false) {ids : Finset UInt32}
    (own : p.ids ⊆ ids) (call : UidCall) (argument : ∀ uid, call = .setuid uid → uid ∈ ids) :
    (call.apply p).ids ⊆ ids := by
  cases call with
  | setuid uid =>
      have uid_mem := argument uid rfl
      obtain ⟨uid_own, -, suid_own, -⟩ := ids_subset_iff.mp own
      rw [UidCall.apply, sysSetuid_ids absent]
      simp [Finset.insert_subset_iff, uid_own, uid_mem, suid_own]
  | setreuid ruid euid => exact (sysSetreuid_ids absent ruid euid).trans own
  | setresuid ruid euid suid => exact (sysSetresuid_ids absent ruid euid suid).trans own
  | setfsuid fsuid => exact (sysSetfsuid_ids absent fsuid).trans own

/-! ## Sequences of calls -/

theorem states_cons (p : Cred) (call : UidCall) (calls : List UidCall) :
    states p (call :: calls) = p :: states (call.apply p) calls := by
  simp [states]

theorem self_mem_states (p : Cred) (calls : List UidCall) : p ∈ states p calls := by
  cases calls with
  | nil => simp [states]
  | cons call calls => simp [states_cons]

/-- While the capability is absent, the ids of a process stay in a set exactly if each `setuid` asks
for a member of it. -/
theorem ids_subset_states_iff {ids : Finset UInt32} {p : Cred} {calls : List UidCall}
    (own : p.ids ⊆ ids) (absent : ∀ s ∈ states p calls, capable s capSetuid = false) :
    (∀ s ∈ states p calls, s.ids ⊆ ids) ↔ ∀ uid, UidCall.setuid uid ∈ calls → uid ∈ ids := by
  induction calls generalizing p with
  | nil => simpa [states] using own
  | cons call calls ih =>
      rw [states_cons] at absent ⊢
      have absent_here := absent p (by simp)
      have absent_later : ∀ s ∈ states (call.apply p) calls, capable s capSetuid = false :=
        fun s mem => absent s (by simp [mem])
      constructor
      · intro inside uid mem
        have next_own := inside (call.apply p) (by simp [self_mem_states])
        rcases List.mem_cons.mp mem with rfl | later
        · rw [UidCall.apply, sysSetuid_ids absent_here] at next_own
          exact next_own (by simp)
        · exact (ih next_own absent_later).mp (fun s mem => inside s (by simp [mem])) uid later
      · intro arguments
        have next_own := apply_ids absent_here own call fun uid same =>
          arguments uid (by simp [same])
        have later := (ih next_own absent_later).mpr fun uid mem => arguments uid (by simp [mem])
        intro s mem
        rcases List.mem_cons.mp mem with rfl | mem
        · exact own
        · exact later s mem

/-- While `CAP_SETUID` is absent, a process keeps to the ids it started with exactly if it passes
`setuid` only these. -/
theorem ids_kept_iff {p : Cred} {calls : List UidCall}
    (absent : ∀ s ∈ states p calls, capable s capSetuid = false) :
    (∀ s ∈ states p calls, s.ids ⊆ p.ids) ↔ ∀ uid, UidCall.setuid uid ∈ calls → uid ∈ p.ids :=
  ids_subset_states_iff (Finset.Subset.refl _) absent

/-- An ordinary user without capabilities, with a saved id. -/
def ordinary : Cred := ⟨1000, 1001, 1000, 1001, 0, 0⟩

/-- Going back to the saved id stays within the ids of the process. -/
theorem ordinary_ids_kept :
    (∀ s ∈ states ordinary [.setuid 1000, .setreuid noId 1000, .setfsuid 0],
        capable s capSetuid = false) ∧
      ∀ s ∈ states ordinary [.setuid 1000, .setreuid noId 1000, .setfsuid 0],
        s.ids ⊆ ordinary.ids := by
  constructor
  · decide
  · refine (ids_kept_iff (by decide)).mpr fun uid mem => ?_
    simp only [List.mem_cons, UidCall.setuid.injEq, reduceCtorEq, List.not_mem_nil, or_false] at mem
    rw [mem]
    decide

/-- An ordinary user becomes the superuser by `setuid(0)`. -/
theorem ordinary_becomes_root :
    (∀ s ∈ states ordinary [.setuid 0], capable s capSetuid = false) ∧
      (∃ s ∈ states ordinary [.setuid 0], s.euid = 0) ∧
      ¬∀ s ∈ states ordinary [.setuid 0], s.ids ⊆ ordinary.ids := by
  decide

end Process
end Xv6Duo
