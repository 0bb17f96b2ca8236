import Xv6Duo.Process.Credentials

/-!
# Group ids

The group ids of a process and the calls of `kernel/sysproc.c` that change them. Unlike the calls
for user ids, each of them tests its arguments before it changes anything, and none changes the
capabilities.
-/

namespace Xv6Duo
namespace Process

/-- The group ids of `struct proc` and the capability set that the calls use. -/
structure Group where
  /-- Real group. -/
  gid : UInt32
  /-- Effective group. -/
  egid : UInt32
  /-- Saved group. -/
  sgid : UInt32
  /-- Group for file access. -/
  fsgid : UInt32
  /-- Effective capabilities. -/
  capEffective : UInt32
  deriving DecidableEq, Repr

/-- `CAP_SETGID`. -/
def capSetgid : UInt32 := 6

/-- `capable(CAP_SETGID)`. -/
def Group.mayset (p : Group) : Bool := p.capEffective &&& capToMask capSetgid ≠ 0

/-- `sys_setgid`. -/
def sysSetgid (p : Group) (gid : UInt32) : Int × Group :=
  if p.mayset then (0, { p with gid := gid, egid := gid, sgid := gid })
  else if gid = p.gid ∨ gid = p.sgid then (0, { p with egid := gid })
  else (-eperm, p)

/-- `sys_setregid`. -/
def sysSetregid (p : Group) (rgid egid : UInt32) : Int × Group :=
  if rgid ≠ noId ∧ ¬(p.gid = rgid ∨ p.egid = rgid ∨ p.mayset) then (-eperm, p)
  else if egid ≠ noId ∧ ¬(p.gid = egid ∨ p.egid = egid ∨ p.sgid = egid ∨ p.mayset) then (-eperm, p)
  else
    let newRgid := if rgid ≠ noId then rgid else p.gid
    let newEgid := if egid ≠ noId then egid else p.egid
    let q := if rgid ≠ noId ∨ egid ≠ noId ∧ egid ≠ p.gid then { p with sgid := newEgid } else p
    (0, { q with fsgid := newEgid, egid := newEgid, gid := newRgid })

/-- The test of `sys_setresgid` for one of its arguments. -/
def Group.owns (p : Group) (id : UInt32) : Prop :=
  id = noId ∨ id = p.gid ∨ id = p.egid ∨ id = p.sgid

instance (p : Group) (id : UInt32) : Decidable (p.owns id) :=
  inferInstanceAs (Decidable (_ ∨ _))

/-- `sys_setresgid`. -/
def sysSetresgid (p : Group) (rgid egid sgid : UInt32) : Int × Group :=
  if ¬p.mayset ∧ ¬(p.owns rgid ∧ p.owns egid ∧ p.owns sgid) then (-eperm, p)
  else
    let q := if egid ≠ noId then { p with egid := egid, fsgid := egid } else p
    let q := if rgid ≠ noId then { q with gid := rgid } else q
    let q := if sgid ≠ noId then { q with sgid := sgid } else q
    (0, q)

/-- `sys_setfsgid`. -/
def sysSetfsgid (p : Group) (fsgid : UInt32) : Int × Group :=
  let q := if fsgid = p.gid ∨ fsgid = p.egid ∨ fsgid = p.sgid ∨ fsgid = p.fsgid ∨ p.mayset then
      { p with fsgid := fsgid } else p
  (p.fsgid.toNat, q)

/-- The calls that change group ids. -/
inductive GidCall
  /-- `setgid`. -/
  | setgid (gid : UInt32)
  /-- `setregid`. -/
  | setregid (rgid egid : UInt32)
  /-- `setresgid`. -/
  | setresgid (rgid egid sgid : UInt32)
  /-- `setfsgid`. -/
  | setfsgid (fsgid : UInt32)
  deriving DecidableEq, Repr

/-- The return value of a call and the ids after it. -/
def GidCall.run (p : Group) : GidCall → Int × Group
  | .setgid gid => sysSetgid p gid
  | .setregid rgid egid => sysSetregid p rgid egid
  | .setresgid rgid egid sgid => sysSetresgid p rgid egid sgid
  | .setfsgid fsgid => sysSetfsgid p fsgid

/-- The group ids of a process. -/
def Group.ids (p : Group) : Finset UInt32 := {p.gid, p.egid, p.sgid, p.fsgid}

/-- The ids before, between and after the calls of a sequence. -/
def groupStates (p : Group) (calls : List GidCall) : List Group :=
  calls.scanl (fun p call => (call.run p).2) p

/-! ## One call -/

theorem mem_group_ids {p : Group} {id : UInt32} :
    id ∈ p.ids ↔ id = p.gid ∨ id = p.egid ∨ id = p.sgid ∨ id = p.fsgid := by
  simp [Group.ids]

theorem group_ids_subset_iff {p : Group} {ids : Finset UInt32} :
    p.ids ⊆ ids ↔ p.gid ∈ ids ∧ p.egid ∈ ids ∧ p.sgid ∈ ids ∧ p.fsgid ∈ ids := by
  simp [Group.ids, Finset.insert_subset_iff]

/-- No call changes the capabilities. -/
theorem run_capEffective (p : Group) (call : GidCall) :
    (call.run p).2.capEffective = p.capEffective := by
  cases call with
  | setgid gid =>
      rw [GidCall.run, sysSetgid]
      split_ifs <;> rfl
  | setregid rgid egid =>
      simp only [GidCall.run, sysSetregid]
      split_ifs <;> rfl
  | setresgid rgid egid sgid =>
      simp only [GidCall.run, sysSetresgid]
      split_ifs <;> rfl
  | setfsgid fsgid =>
      simp only [GidCall.run, sysSetfsgid]
      split_ifs <;> rfl

/-- Without the capability a call gives out only the ids of the process. -/
theorem run_ids {p : Group} (absent : p.mayset = false) (call : GidCall) :
    (call.run p).2.ids ⊆ p.ids := by
  cases call with
  | setgid gid =>
      simp only [GidCall.run, sysSetgid, absent, group_ids_subset_iff, mem_group_ids]
      grind
  | setregid rgid egid =>
      rw [GidCall.run, sysSetregid]
      split
      · exact Finset.Subset.refl _
      · next rgid_allowed =>
          split
          · exact Finset.Subset.refl _
          · next egid_allowed =>
              simp only [absent, Bool.false_eq_true, or_false] at rgid_allowed egid_allowed
              simp only [group_ids_subset_iff, mem_group_ids]
              grind
  | setresgid rgid egid sgid =>
      rw [GidCall.run, sysSetresgid]
      split
      · exact Finset.Subset.refl _
      · next allowed =>
          simp only [absent, group_ids_subset_iff, mem_group_ids] at allowed ⊢
          grind [Group.owns]
  | setfsgid fsgid =>
      simp only [GidCall.run, sysSetfsgid, absent, group_ids_subset_iff, mem_group_ids]
      grind

/-- A call that is refused changes nothing. -/
theorem run_refused {p : Group} {call : GidCall} (refused : (call.run p).1 = -eperm) :
    (call.run p).2 = p := by
  have success : (0 : Int) ≠ -eperm := by decide
  cases call with
  | setgid gid =>
      rw [GidCall.run, sysSetgid] at *
      split_ifs at * <;> first | rfl | exact absurd refused success
  | setregid rgid egid =>
      simp only [GidCall.run, sysSetregid] at *
      split_ifs at * <;> first | rfl | exact absurd refused success
  | setresgid rgid egid sgid =>
      simp only [GidCall.run, sysSetresgid] at *
      split_ifs at * <;> first | rfl | exact absurd refused success
  | setfsgid fsgid =>
      -- The old id is not negative.
      simp only [GidCall.run, sysSetfsgid, eperm] at refused
      omega

/-! ## Sequences of calls -/

theorem groupStates_ids {ids : Finset UInt32} {p : Group} (calls : List GidCall)
    (absent : p.mayset = false) (own : p.ids ⊆ ids) : ∀ s ∈ groupStates p calls, s.ids ⊆ ids := by
  induction calls generalizing p with
  | nil => simpa [groupStates] using own
  | cons call calls ih =>
      intro s mem
      rw [groupStates, List.scanl_cons, List.mem_cons] at mem
      cases mem with
      | inl here =>
          rw [here]
          exact own
      | inr later =>
          have absent_next : (call.run p).2.mayset = false := by
            rwa [Group.mayset, run_capEffective]
          exact ih absent_next ((run_ids absent call).trans own) s later

/-- Without `CAP_SETGID`, whatever group calls a process makes, it keeps to the group ids that it
started with, and a call that is refused changes none of them. -/
theorem group_ids_kept {p : Group} (absent : p.mayset = false) (calls : List GidCall) :
    ∀ s ∈ groupStates p calls, s.ids ⊆ p.ids ∧
      ∀ call : GidCall, (call.run s).1 = -eperm → (call.run s).2 = s := by
  intro s reached
  constructor
  · exact groupStates_ids calls absent (Finset.Subset.refl _) s reached
  · intro call refused
    exact run_refused refused

/-- A process with four group ids that exchanges them. -/
theorem group_ids_kept_exchange :
    (Group.mayset ⟨10, 20, 30, 40, 0⟩) = false ∧
      ∀ s ∈ groupStates ⟨10, 20, 30, 40, 0⟩ [.setregid 20 30, .setgid 0, .setresgid noId 20 noId],
        s.ids ⊆ {10, 20, 30, 40} := by
  constructor
  · decide
  · intro s reached
    exact (group_ids_kept (by decide) _ s reached).1

end Process
end Xv6Duo
