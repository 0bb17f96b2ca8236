import Xv6Duo.Process.Credentials

/-!
# Dropping the superuser with `setuid`

`setuid` with `CAP_SETUID` sets every user id, except that a caller whose real id is already the
new one keeps its saved id. Once a process has no capability left, only another `setuid` gives it an
id that it does not have.
-/

namespace Xv6Duo
namespace Process

/-- The ids that a call is given. -/
def UidCall.arguments : UidCall → List UInt32
  | .setuid uid => [uid]
  | .setreuid ruid euid => [ruid, euid]
  | .setresuid ruid euid suid => [ruid, euid, suid]
  | .setfsuid fsuid => [fsuid]

/-- Every capability of `s` is one of `p`. -/
def Cred.Within (s p : Cred) : Prop :=
  s.capEffective &&& ~~~p.capEffective = 0 ∧ s.capPermitted &&& ~~~p.capPermitted = 0

instance (s p : Cred) : Decidable (s.Within p) := inferInstanceAs (Decidable (_ ∧ _))

/-- One of the ids that `setuid` looks at is the superuser's. -/
def Cred.HasRoot (p : Cred) : Prop := p.uid = 0 ∨ p.euid = 0 ∨ p.suid = 0

instance (p : Cred) : Decidable p.HasRoot := inferInstanceAs (Decidable (_ ∨ _))

/-- After `setuid(u)` the process is user `u` without the superuser's capabilities, and stays so
through `calls`. -/
structure Dropped (p : Cred) (u : UInt32) (calls : List UidCall) : Prop where
  /-- Every id is the new one. -/
  ids : (sysSetuid p u).2.ids = {u}
  /-- The capabilities of a superuser are gone. -/
  cleared : 0 ∈ p.ids → (sysSetuid p u).2.capEffective = 0 ∧ (sysSetuid p u).2.capPermitted = 0
  /-- Neither comes back. -/
  permanent : ∀ s ∈ states (sysSetuid p u).2 calls, 0 ∉ s.ids ∧ s.Within (sysSetuid p u).2

/-- What the caller of `setuid(u)` has to see to. -/
def Drops (p : Cred) (u : UInt32) (calls : List UidCall) : Prop :=
  (u = p.uid → p.suid = u) ∧
    if p.HasRoot then .setuid 0 ∉ calls
    else p.fsuid ≠ 0 ∧ ∀ call ∈ calls, 0 ∉ call.arguments

instance (p : Cred) (u : UInt32) (calls : List UidCall) : Decidable (Drops p u calls) :=
  inferInstanceAs (Decidable (_ ∧ _))

/-! ## The ids and the capabilities after one call -/

theorem zero_notMem_ids {p : Cred} :
    0 ∉ p.ids ↔ p.uid ≠ 0 ∧ p.euid ≠ 0 ∧ p.suid ≠ 0 ∧ p.fsuid ≠ 0 := by
  simp only [mem_ids, not_or, ne_eq, @eq_comm UInt32 0]

theorem Cred.Within.refl (p : Cred) : p.Within p :=
  ⟨UInt32.toBitVec_inj.mp (by simp), UInt32.toBitVec_inj.mp (by simp)⟩

/-- A process with no capability at all. -/
def Cred.Powerless (p : Cred) : Prop := p.capEffective = 0 ∧ p.capPermitted = 0

theorem Cred.Powerless.unable {p : Cred} (powerless : p.Powerless) :
    capable p capSetuid = false := by
  simp [capable, powerless.1]

theorem Cred.Powerless.within {s : Cred} (powerless : s.Powerless) (p : Cred) : s.Within p := by
  simp [Cred.Within, powerless.1, powerless.2]

theorem capEmulateSetxuid_powerless {p q : Cred} (powerless : p.Powerless)
    (effective : q.capEffective = p.capEffective) (permitted : q.capPermitted = p.capPermitted)
    (oldRuid oldEuid oldSuid : UInt32) :
    (capEmulateSetxuid q oldRuid oldEuid oldSuid).Powerless := by
  rw [powerless.1] at effective
  rw [powerless.2] at permitted
  simp only [capEmulateSetxuid]
  split_ifs <;> simp [Cred.Powerless, effective, permitted]

/-- No call gives a capability to a process without one. -/
theorem Cred.Powerless.apply {p : Cred} (powerless : p.Powerless) (call : UidCall) :
    (call.apply p).Powerless := by
  have unable := powerless.unable
  cases call with
  | setuid uid =>
      simp only [UidCall.apply, sysSetuid, unable, Bool.false_eq_true, if_false]
      apply capEmulateSetxuid_powerless powerless <;> rfl
  | setreuid ruid euid =>
      simp only [UidCall.apply, sysSetreuid]
      split
      · exact powerless
      · split
        · exact powerless
        · apply capEmulateSetxuid_powerless powerless <;> split_ifs <;> rfl
  | setresuid ruid euid suid =>
      simp only [UidCall.apply, sysSetresuid]
      split
      · exact powerless
      · apply capEmulateSetxuid_powerless powerless <;> split_ifs <;> rfl
  | setfsuid fsuid =>
      obtain ⟨effective, permitted⟩ := powerless
      simp only [UidCall.apply, sysSetfsuid]
      split_ifs <;> simp [Cred.Powerless, effective, permitted]


/-- `s` has the capabilities of `p`. -/
def Cred.SameCaps (s p : Cred) : Prop :=
  s.capEffective = p.capEffective ∧ s.capPermitted = p.capPermitted

theorem Cred.SameCaps.able {s p : Cred} (same : s.SameCaps p) (cap : UInt32) :
    capable s cap = capable p cap := by
  rw [capable, capable, same.1]

theorem Cred.SameCaps.trans {r s p : Cred} (first : r.SameCaps s) (second : s.SameCaps p) :
    r.SameCaps p :=
  ⟨first.1.trans second.1, first.2.trans second.2⟩

theorem Cred.SameCaps.within {s p : Cred} (same : s.SameCaps p) : s.Within p := by
  have own := Cred.Within.refl p
  rwa [Cred.Within, ← same.1, ← same.2] at own ⊢

/-- Among ordinary users the emulation leaves the capabilities alone. -/
theorem capEmulateSetxuid_user {q : Cred} {oldRuid oldEuid oldSuid : UInt32} (euid_now : q.euid ≠ 0)
    (ruid_user : oldRuid ≠ 0) (euid_user : oldEuid ≠ 0) (suid_user : oldSuid ≠ 0) :
    capEmulateSetxuid q oldRuid oldEuid oldSuid = q := by
  simp [capEmulateSetxuid, ruid_user, euid_user, suid_user, euid_now]

/-- A process with the capability gets the superuser's id exactly if it asks for it. -/
theorem apply_user_iff {p : Cred} (able : capable p capSetuid = true) (user : 0 ∉ p.ids)
    (call : UidCall) : 0 ∉ (call.apply p).ids ↔ 0 ∉ call.arguments := by
  have no_id : noId ≠ 0 := by decide
  obtain ⟨uid_user, euid_user, suid_user, fsuid_user⟩ := zero_notMem_ids.mp user
  cases call with
  | setuid uid =>
      simp only [UidCall.apply, sysSetuid, able, if_true, UidCall.arguments]
      split_ifs <;> simp [zero_notMem_ids] <;> grind
  | setreuid ruid euid =>
      simp only [UidCall.apply, sysSetreuid, able, UidCall.arguments]
      simp [zero_notMem_ids]
      grind
  | setresuid ruid euid suid =>
      simp only [UidCall.apply, sysSetresuid, able, UidCall.arguments]
      simp [zero_notMem_ids]
      grind
  | setfsuid fsuid =>
      simp only [UidCall.apply, sysSetfsuid, able, UidCall.arguments]
      simp [zero_notMem_ids]
      grind

/-- As long as it does not, its capabilities stay. -/
theorem apply_sameCaps {p : Cred} (user : 0 ∉ p.ids) (call : UidCall)
    (user_after : 0 ∉ (call.apply p).ids) : (call.apply p).SameCaps p := by
  obtain ⟨uid_user, euid_user, suid_user, fsuid_user⟩ := zero_notMem_ids.mp user
  have emulated : ∀ q : Cred, 0 ∉ (capEmulateSetxuid q p.uid p.euid p.suid).ids → q.SameCaps p →
      (capEmulateSetxuid q p.uid p.euid p.suid).SameCaps p := by
    intro q q_user same
    rw [capEmulateSetxuid_ids] at q_user
    rw [capEmulateSetxuid_user (zero_notMem_ids.mp q_user).2.1 uid_user euid_user suid_user]
    exact same
  cases call with
  | setuid uid =>
      simp only [UidCall.apply, sysSetuid] at user_after ⊢
      split_ifs at user_after ⊢ <;>
        first | exact ⟨rfl, rfl⟩ | exact emulated _ user_after ⟨rfl, rfl⟩
  | setreuid ruid euid =>
      simp only [UidCall.apply, sysSetreuid] at user_after ⊢
      split_ifs at user_after ⊢ <;>
        first | exact ⟨rfl, rfl⟩ | exact emulated _ user_after ⟨rfl, rfl⟩
  | setresuid ruid euid suid =>
      simp only [UidCall.apply, sysSetresuid] at user_after ⊢
      split_ifs at user_after ⊢ <;>
        first | exact ⟨rfl, rfl⟩ | exact emulated _ user_after ⟨rfl, rfl⟩
  | setfsuid fsuid =>
      simp only [UidCall.apply, sysSetfsuid] at user_after ⊢
      split_ifs at user_after ⊢ <;> simp_all [Cred.SameCaps, zero_notMem_ids]

/-- Without the capability the superuser's id comes by `setuid(0)` alone. -/
theorem apply_user_iff_of_unable {p : Cred} (absent : capable p capSetuid = false)
    (user : 0 ∉ p.ids) (call : UidCall) : 0 ∉ (call.apply p).ids ↔ call ≠ .setuid 0 := by
  have own : p.ids ⊆ p.ids := Finset.Subset.refl _
  cases call with
  | setuid uid =>
      rw [UidCall.apply, sysSetuid_ids absent]
      rw [mem_ids] at user
      grind
  | setreuid ruid euid =>
      have kept := apply_ids absent own (.setreuid ruid euid) (by simp)
      simp only [ne_eq, reduceCtorEq, not_false_eq_true, iff_true]
      exact fun mem => user (kept mem)
  | setresuid ruid euid suid =>
      have kept := apply_ids absent own (.setresuid ruid euid suid) (by simp)
      simp only [ne_eq, reduceCtorEq, not_false_eq_true, iff_true]
      exact fun mem => user (kept mem)
  | setfsuid fsuid =>
      have kept := apply_ids absent own (.setfsuid fsuid) (by simp)
      simp only [ne_eq, reduceCtorEq, not_false_eq_true, iff_true]
      exact fun mem => user (kept mem)

/-! ## Sequences of calls -/

/-- If among ordinary users `allowed` says which calls keep to ordinary users, and these keep the
power of the process, then a run keeps to them exactly if all its calls are allowed. -/
theorem permanent_iff {Power : Cred → Prop} {allowed : UidCall → Prop} {limit : Cred}
    (within : ∀ s, Power s → s.Within limit)
    (user_iff : ∀ (s : Cred) (call : UidCall), Power s → 0 ∉ s.ids →
      (0 ∉ (call.apply s).ids ↔ allowed call))
    (kept : ∀ (s : Cred) (call : UidCall), Power s → 0 ∉ s.ids → 0 ∉ (call.apply s).ids →
      Power (call.apply s))
    {p : Cred} (power : Power p) (user : 0 ∉ p.ids) (calls : List UidCall) :
    (∀ s ∈ states p calls, 0 ∉ s.ids ∧ s.Within limit) ↔ ∀ call ∈ calls, allowed call := by
  induction calls generalizing p with
  | nil => simpa [states] using ⟨user, within p power⟩
  | cons call calls ih =>
      have here := user_iff p call power user
      rw [states_cons, List.forall_mem_cons, List.forall_mem_cons]
      constructor
      · rintro ⟨-, later⟩
        have user_next := (later (call.apply p) (self_mem_states _ _)).1
        exact ⟨here.mp user_next, (ih (kept p call power user user_next) user_next).mp later⟩
      · rintro ⟨allowed_here, allowed_later⟩
        have user_next := here.mpr allowed_here
        have later := (ih (kept p call power user user_next) user_next).mpr allowed_later
        exact ⟨⟨user, within p power⟩, later⟩

theorem permanent_of_powerless {p limit : Cred} (powerless : p.Powerless) (user : 0 ∉ p.ids)
    (calls : List UidCall) :
    (∀ s ∈ states p calls, 0 ∉ s.ids ∧ s.Within limit) ↔ .setuid 0 ∉ calls := by
  have run := permanent_iff (fun _ (power : Cred.Powerless _) => power.within limit)
    (fun _ call power user => apply_user_iff_of_unable power.unable user call)
    (fun _ call power _ _ => power.apply call) powerless user calls
  rw [run]
  exact ⟨fun differs mem => differs _ mem rfl, fun absent call mem same => absent (same ▸ mem)⟩

theorem permanent_of_able {p : Cred} (able : capable p capSetuid = true) (user : 0 ∉ p.ids)
    (calls : List UidCall) :
    (∀ s ∈ states p calls, 0 ∉ s.ids ∧ s.Within p) ↔ ∀ call ∈ calls, 0 ∉ call.arguments :=
  permanent_iff (fun _ (same : Cred.SameCaps _ p) => same.within)
    (fun _ call same user => apply_user_iff ((same.able capSetuid).trans able) user call)
    (fun _ call same user user_next => (apply_sameCaps user call user_next).trans same)
    ⟨rfl, rfl⟩ user calls

/-! ## The drop -/

/-- The ids that `setuid` with the capability leaves. -/
def Cred.become (p : Cred) (u : UInt32) : Cred :=
  { p with uid := u, euid := u, suid := if u = p.uid then p.suid else u, fsuid := u }

theorem sysSetuid_of_able {p : Cred} (able : capable p capSetuid = true) (u : UInt32) :
    sysSetuid p u = (0, capEmulateSetxuid (p.become u) p.uid p.euid p.suid) := by
  simp only [sysSetuid, able, if_true, Cred.become]
  by_cases same : u = p.uid
  · rw [if_neg (not_not.mpr same), if_neg (fun both => both.1 same), if_pos same, ← same]
  · rw [if_pos same, if_neg same]

theorem become_ids {p : Cred} {u : UInt32} :
    (p.become u).ids = {u} ↔ (u = p.uid → p.suid = u) := by
  rw [Cred.ids, Cred.become]
  split_ifs with same
  · simp [same, Finset.ext_iff]
  · simp [same]

/-- With the saved id set too, no superuser's id is left. -/
theorem become_user {p : Cred} {u : UInt32} (user : u ≠ 0) (saved : u = p.uid → p.suid = u) :
    0 ∉ (p.become u).ids := by
  rw [become_ids.mpr saved, Finset.mem_singleton]
  exact user.symm

theorem emulate_of_root {p q : Cred} (root : p.HasRoot) (user : 0 ∉ q.ids) :
    (capEmulateSetxuid q p.uid p.euid p.suid).Powerless := by
  obtain ⟨uid_user, euid_user, suid_user, -⟩ := zero_notMem_ids.mp user
  simp only [Cred.HasRoot] at root
  simp only [capEmulateSetxuid, Cred.Powerless]
  grind

theorem capable_ne_zero {p : Cred} {cap : UInt32} (able : capable p cap = true) :
    p.capEffective ≠ 0 := by
  intro none
  simp [capable, none] at able

section Drop

variable {p : Cred} {u : UInt32} (able : capable p capSetuid = true) (user : u ≠ 0)
include able

theorem sysSetuid_ids_iff : (sysSetuid p u).2.ids = {u} ↔ (u = p.uid → p.suid = u) := by
  rw [sysSetuid_of_able able, capEmulateSetxuid_ids, become_ids]

include user

theorem sysSetuid_of_root (root : p.HasRoot) (saved : u = p.uid → p.suid = u) :
    (sysSetuid p u).2.Powerless := by
  rw [sysSetuid_of_able able]
  exact emulate_of_root root (become_user user saved)

theorem sysSetuid_of_noRoot (root : ¬p.HasRoot) (saved : u = p.uid → p.suid = u) :
    (sysSetuid p u).2.SameCaps p := by
  simp only [Cred.HasRoot, not_or] at root
  have plain := zero_notMem_ids.mp (become_user user saved)
  rw [sysSetuid_of_able able, capEmulateSetxuid_user plain.2.1 root.1 root.2.1 root.2.2]
  exact ⟨rfl, rfl⟩

/-- With `CAP_SETUID`, `setuid` to an ordinary user is a drop for good exactly if the process does
not already have that real id with another saved one, and later asks for no superuser's id. -/
theorem setuid_drop_iff (calls : List UidCall) : Dropped p u calls ↔ Drops p u calls := by
  rw [Drops, ← sysSetuid_ids_iff able]
  have plain : (sysSetuid p u).2.ids = {u} → 0 ∉ (sysSetuid p u).2.ids := by
    intro ids
    rw [ids, Finset.mem_singleton]
    exact user.symm
  have zero_mem : 0 ∈ p.ids ↔ p.HasRoot ∨ p.fsuid = 0 := by
    rw [mem_ids, Cred.HasRoot]
    grind
  by_cases root : p.HasRoot
  · rw [if_pos root]
    constructor
    · intro dropped
      have powerless := sysSetuid_of_root able user root ((sysSetuid_ids_iff able).mp dropped.ids)
      exact ⟨dropped.ids, (permanent_of_powerless powerless (plain dropped.ids) calls).mp
        dropped.permanent⟩
    · rintro ⟨ids, later⟩
      have powerless := sysSetuid_of_root able user root ((sysSetuid_ids_iff able).mp ids)
      exact ⟨ids, fun _ => powerless,
        (permanent_of_powerless powerless (plain ids) calls).mpr later⟩
  · rw [if_neg root]
    have still_able : (sysSetuid p u).2.ids = {u} →
        capable (sysSetuid p u).2 capSetuid = true := by
      intro ids
      rw [(sysSetuid_of_noRoot able user root ((sysSetuid_ids_iff able).mp ids)).able]
      exact able
    constructor
    · intro dropped
      have still := still_able dropped.ids
      have fsuid_user : p.fsuid ≠ 0 := by
        intro superuser
        exact capable_ne_zero still (dropped.cleared (zero_mem.mpr (Or.inr superuser))).1
      exact ⟨dropped.ids, fsuid_user,
        (permanent_of_able still (plain dropped.ids) calls).mp dropped.permanent⟩
    · rintro ⟨ids, fsuid_user, later⟩
      refine ⟨ids, ?_, (permanent_of_able (still_able ids) (plain ids) calls).mpr later⟩
      intro superuser
      cases zero_mem.mp superuser with
      | inl has_root => exact absurd has_root root
      | inr zero => exact absurd zero fsuid_user

end Drop

/-- The superuser before a program that runs for user 1000. -/
def superuser : Cred := ⟨0, 0, 0, 0, 0xfffffeff, 0xfffffeff⟩

/-- A server that has its user's real id and keeps the superuser's for later. -/
def server : Cred := (sysSetresuid superuser 1000 0 0).2

/-- The superuser's drop to user 1000 outlives any other call. -/
theorem superuser_drops :
    Dropped superuser 1000 [.setreuid noId 0, .setresuid 0 0 0, .setfsuid 0, .setuid 1000] :=
  (setuid_drop_iff (by decide) (by decide) _).mpr (by decide)

/-- The server keeps the saved id through `setuid` and takes the superuser's id and capabilities
back with it. -/
theorem server_does_not_drop :
    capable server capSetuid = true ∧
      sysSetuid server 1000 = (0, ⟨1000, 1000, 0, 1000, 0, 0xfffffeff⟩) ∧
      sysSetreuid ⟨1000, 1000, 0, 1000, 0, 0xfffffeff⟩ noId 0 =
        (0, ⟨1000, 0, 0, 0, 0xfffffeff, 0xfffffeff⟩) ∧
      ¬(1000 ≠ (0 : UInt32) → (sysSetuid server 1000).1 = 0 →
        Dropped server 1000 [.setreuid noId 0]) := by
  refine ⟨by decide, by decide, by decide, ?_⟩
  intro claim
  have dropped := claim (by decide) (by decide)
  exact absurd dropped.ids (by decide)

end Process
end Xv6Duo
