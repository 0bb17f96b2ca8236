import Xv6Duo.Slab.Runs

/-!
# The locks of a slab cache

`slab_cache_alloc` and `slab_cache_free` with `cache->lock` and `slab_lock`. A lock is held by a CPU
or free, as in `kernel/spinlock.c`. `slab_cache_free` takes `cache->lock`; after it has moved a slab
from `slabs_full` to `slabs_partial` it releases `slab_lock` in its place.
-/

namespace Xv6Duo
namespace Slab

/-- `acquire` by a CPU. -/
def acquire (cpu : Nat) (lock : Option Nat) : Except Fault (Option Nat) :=
  match lock with
  | none => .ok (some cpu)
  | some holder => if holder = cpu then .error .acquire else .error .loops

/-- `release` by a CPU. -/
def release (cpu : Nat) (lock : Option Nat) : Except Fault (Option Nat) :=
  if lock = some cpu then .ok none else .error .release

/-- A cache and the two locks, each with the CPU that holds it. -/
structure Locked where
  /-- Cache and live objects. -/
  world : World
  /-- `cache->lock`. -/
  cacheLock : Option Nat
  /-- `slab_lock`. -/
  slabLock : Option Nat

namespace Locked

/-- One call by a CPU. -/
def perform (w : Locked) : Nat × Call → Except Fault Locked
  | (cpu, .alloc fresh) => do
      let lock ← acquire cpu w.cacheLock
      let (obj, s) := slabCacheAlloc w.world.state fresh
      let lock ← release cpu lock
      return ⟨⟨s, obj :: w.world.live⟩, lock, w.slabLock⟩
  | (cpu, .free obj) => do
      let lock ← acquire cpu w.cacheLock
      let (exit, s) ← slabCacheFree w.world.state obj
      match exit with
      | .cacheLock =>
          let lock ← release cpu lock
          return ⟨⟨s, w.world.live.erase obj⟩, lock, w.slabLock⟩
      | .slabLock =>
          let slabLock ← release cpu w.slabLock
          return ⟨⟨s, w.world.live.erase obj⟩, lock, slabLock⟩

/-- The call gives back an object of a slab whose objects are all live. -/
def FreesFull (w : Locked) : Nat × Call → Prop
  | (_, .alloc _) => False
  | (_, .free obj) => ∃ slab ∈ w.world.state.slabs, slab ≤ obj ∧
      obj < slab + w.world.state.shape.slabSize.toNat ∧
      ∀ k : UInt32, k.toNat < w.world.state.shape.count →
        w.world.state.address slab k ∈ w.world.live

/-- The object numbers of a slab are the numbers below `count`. -/
theorem forall_number_iff {shape : Shape} {P : UInt32 → Prop} :
    (∀ k : UInt32, k.toNat < shape.count → P k) ↔ ∀ i < shape.count, P (UInt32.ofNat i) := by
  constructor
  · intro all i i_lt
    apply all
    rwa [toNat_ofNat_of_lt (i_lt.trans (slabMaxObjectNum shape).toNat_lt)]
  · intro all k k_lt
    simpa using all k.toNat k_lt

instance (w : Locked) : ∀ call, Decidable (w.FreesFull call)
  | (_, .alloc _) => inferInstanceAs (Decidable False)
  | (_, .free obj) =>
      have (slab : Nat) : Decidable (∀ k : UInt32, k.toNat < w.world.state.shape.count →
          w.world.state.address slab k ∈ w.world.live) :=
        decidable_of_iff' _ forall_number_iff
      inferInstanceAs (Decidable (∃ slab ∈ w.world.state.slabs, slab ≤ obj ∧
        obj < slab + w.world.state.shape.slabSize.toNat ∧
        ∀ k : UInt32, k.toNat < w.world.state.shape.count →
          w.world.state.address slab k ∈ w.world.live))

variable {w : Locked} {fulls partials : List Nat} {free : Nat → List UInt32}

@[simp]
theorem acquire_none (cpu : Nat) : acquire cpu none = .ok (some cpu) := rfl

@[simp]
theorem release_self (cpu : Nat) : release cpu (some cpu) = .ok none := if_pos rfl

/-- All objects of a slab are live when none is free. -/
theorem all_live_iff (sound : Sound w.world fulls partials free) {slab : Nat}
    (member : slab ∈ w.world.state.slabs) :
    (∀ k : UInt32, k.toNat < w.world.state.shape.count →
      w.world.state.address slab k ∈ w.world.live) ↔ free slab = [] := by
  constructor
  · intro all
    rw [List.eq_nil_iff_forall_not_mem]
    intro k is_free
    have k_lt := (sound.numbered slab member).inside k is_free
    obtain ⟨b, b_mem, l, l_lt, taken, same⟩ := (sound.live_iff _).mp (all k k_lt)
    obtain ⟨rfl, rfl⟩ := sound.address_inj member b_mem k_lt l_lt same
    exact taken is_free
  · intro empty k k_lt
    refine (sound.live_iff _).mpr ⟨slab, member, k, k_lt, ?_, rfl⟩
    rw [empty]
    exact List.not_mem_nil

/-- A call is balanced unless it gives back an object of a full slab. -/
theorem perform_iff (sound : Sound w.world fulls partials free) (unlocked : w.cacheLock = none)
    {call : Nat × Call} (permitted : w.world.Permits call.2) :
    (∃ next, w.perform call = .ok next ∧ next.cacheLock = none ∧ next.slabLock = w.slabLock) ↔
      ¬w.FreesFull call := by
  obtain ⟨cpu, call⟩ := call
  cases call with
  | alloc fresh =>
      refine iff_of_true ⟨⟨⟨(slabCacheAlloc w.world.state fresh).2,
        (slabCacheAlloc w.world.state fresh).1 :: w.world.live⟩, none, w.slabLock⟩, ?_, rfl, rfl⟩
        not_false
      rw [perform, unlocked, acquire_none, Except.ok_bind, release_self]
      rfl
  | free obj =>
      obtain ⟨slab, member, index, index_lt, obj_eq, exit, t, freed, exit_iff, _, _, _, _⟩ :=
        sound.release permitted
      have inside := sound.address_inside member index_lt
      have some := sound.roomy.object_positive
      rw [← obj_eq] at inside
      have full_iff : w.FreesFull (cpu, .free obj) ↔ free slab = [] := by
        rw [← all_live_iff sound member]
        constructor
        · rintro ⟨b, b_mem, lower, upper, all⟩
          have same : b = slab := by
            by_contra differs
            have apart := sound.apart b b_mem slab member differs
            omega
          rw [← same]
          exact all
        · intro all
          exact ⟨slab, member, by omega, by omega, all⟩
      rw [full_iff, ← exit_iff, perform, unlocked, acquire_none, Except.ok_bind, freed,
        Except.ok_bind]
      cases exit with
      | cacheLock =>
          refine iff_of_true ⟨⟨⟨t, w.world.live.erase obj⟩, none, w.slabLock⟩, ?_, rfl, rfl⟩ nofun
          dsimp only
          rw [release_self]
          rfl
      | slabLock =>
          refine iff_of_false ?_ (fun other => other rfl)
          rintro ⟨next, succeeds, balanced, _⟩
          dsimp only at succeeds
          cases released : Slab.release cpu w.slabLock with
          | error fault =>
              rw [released] at succeeds
              cases succeeds
          | ok lock =>
              rw [released] at succeeds
              cases succeeds
              cases balanced

/-- A call that succeeds keeps the invariant of the cache. -/
theorem perform_sound (sound : Sound w.world fulls partials free) {call : Nat × Call}
    {next : Locked} (permitted : w.world.Permits call.2) (succeeds : w.perform call = .ok next) :
    ∃ fulls' partials' free', Sound next.world fulls' partials' free' := by
  obtain ⟨cpu, call⟩ := call
  have kept : ∀ {world}, w.world.step call = .ok world → next.world = world →
      ∃ fulls' partials' free', Sound next.world fulls' partials' free' := by
    intro world stepped same
    rw [same]
    exact (sound.step permitted stepped).2
  cases call with
  | alloc fresh =>
      rw [perform, Except.bind_eq_ok] at succeeds
      obtain ⟨lock, _, succeeds⟩ := succeeds
      dsimp only at succeeds
      rw [Except.bind_eq_ok] at succeeds
      obtain ⟨lock, _, succeeds⟩ := succeeds
      cases succeeds
      exact kept rfl rfl
  | free obj =>
      rw [perform, Except.bind_eq_ok] at succeeds
      obtain ⟨lock, _, succeeds⟩ := succeeds
      rw [Except.bind_eq_ok] at succeeds
      obtain ⟨⟨exit, t⟩, freed, succeeds⟩ := succeeds
      have stepped : w.world.step (.free obj) = .ok ⟨t, w.world.live.erase obj⟩ := by
        rw [World.step, freed]
        rfl
      cases exit with
      | cacheLock =>
          dsimp only at succeeds
          rw [Except.bind_eq_ok] at succeeds
          obtain ⟨lock, _, succeeds⟩ := succeeds
          cases succeeds
          exact kept stepped rfl
      | slabLock =>
          dsimp only at succeeds
          rw [Except.bind_eq_ok] at succeeds
          obtain ⟨lock, _, succeeds⟩ := succeeds
          cases succeeds
          exact kept stepped rfl

/-- In every run of a cache whose slabs have room for an object, in which no object of a full slab
is given back, `cache->lock` is free and `slab_lock` as at the start between calls; a further call
returns with the locks as they were, and does so unless it gives back an object of a full slab. -/
theorem locks_balanced {length : Nat} {size alignment : UInt32} {s : State}
    (created : slabCacheCreate length size alignment = some s) (roomy : s.shape.Roomy)
    {slabLock : Option Nat}
    (reached : GuardedRun.Reaches
      (fun (w : Locked) call => w.world.Permits call.2 ∧ ¬w.FreesFull call) perform
      ⟨⟨s, []⟩, none, slabLock⟩ w) :
    w.cacheLock = none ∧ w.slabLock = slabLock ∧
      ∀ call : Nat × Call, w.world.Permits call.2 →
        ((∃ next, w.perform call = .ok next ∧ next.cacheLock = none ∧
          next.slabLock = w.slabLock) ↔ ¬w.FreesFull call) := by
  have invariant : w.cacheLock = none ∧ w.slabLock = slabLock ∧
      ∃ fulls partials free, Sound w.world fulls partials free := by
    refine reached.invariant (fun w => w.cacheLock = none ∧ w.slabLock = slabLock ∧
      ∃ fulls partials free, Sound w.world fulls partials free)
      ⟨rfl, rfl, _, _, _, Sound.initial created roomy⟩ ?_
    rintro state next call ⟨unlocked, same, fulls, partials, free, sound⟩
      ⟨permitted, partly⟩ succeeds
    obtain ⟨other, performed, balanced, kept⟩ := (perform_iff sound unlocked permitted).mpr partly
    rw [succeeds] at performed
    cases performed
    exact ⟨balanced, kept.trans same, perform_sound sound permitted succeeds⟩
  obtain ⟨unlocked, same, fulls, partials, free, sound⟩ := invariant
  exact ⟨unlocked, same, fun call permitted => perform_iff sound unlocked permitted⟩

/-- The labels of `count` allocations by the first CPU, with a page for each. -/
def allocations (count : Nat) : List (Nat × Call) :=
  (List.range count).map fun i => (0, .alloc (0x80600000 + pageSize * i))

/-- A cache for ten bytes at multiples of twelve: two objects are taken and one is given back. -/
theorem locks_balanced_twelve : ∃ s w, slabCacheCreate 11 10 12 = some s ∧
    GuardedRun.Reaches (fun (w : Locked) call => w.world.Permits call.2 ∧ ¬w.FreesFull call) perform
      ⟨⟨s, []⟩, none, none⟩ w ∧ w.world.live = [0x806002D4] ∧ w.cacheLock = none ∧
      w.slabLock = none := by
  have created : slabCacheCreate 11 10 12 =
      some ⟨⟨4096, 20, 12⟩, none, none, fun _ => ⟨none, 0, 0⟩, fun _ _ => 0, []⟩ := rfl
  have roomy : Shape.Roomy ⟨4096, 20, 12⟩ := ⟨by decide, by decide⟩
  obtain ⟨w, reached, passes⟩ := GuardedRun.exists_reaches_of_replay
    (fun (w : Locked) call => w.world.Permits call.2 ∧ ¬w.FreesFull call) perform
    ⟨⟨⟨⟨4096, 20, 12⟩, none, none, fun _ => ⟨none, 0, 0⟩, fun _ _ => 0, []⟩, []⟩, none, none⟩
    [(0, .alloc 0x80600000), (0, .alloc 0x80601000), (0, .free 0x806002C0)]
    (fun w => w.world.live = [0x806002D4]) (by decide +kernel)
  obtain ⟨unlocked, same, -⟩ := locks_balanced created roomy reached
  exact ⟨_, w, created, reached, of_decide_eq_true passes, unlocked, same⟩

/-- The 78 objects of a slab are taken, and one is given back: the call panics in the release of
`slab_lock`, which it does not hold. -/
theorem full_slab_panics : ∃ s, slabCacheCreate 11 48 0 = some s ∧ ∃ w obj,
    GuardedRun.Reaches (fun (w : Locked) call => w.world.Permits call.2) perform
      ⟨⟨s, []⟩, none, none⟩ w ∧ obj ∈ w.world.live ∧
        w.perform (0, .free obj) = .error .release := by
  obtain ⟨s, created⟩ :=
    Option.isSome_iff_exists.mp (show (slabCacheCreate 11 48 0).isSome from rfl)
  have same : (slabCacheCreate 11 48 0).get rfl = s := by simp only [created, Option.get_some]
  obtain ⟨w, reached, passes⟩ :=
    GuardedRun.exists_reaches_of_replay (fun (w : Locked) call => w.world.Permits call.2) perform
      ⟨⟨(slabCacheCreate 11 48 0).get rfl, []⟩, none, none⟩ (allocations 78)
      (fun w => decide (0x80600154 ∈ w.world.live) &&
        match w.perform (0, .free 0x80600154) with
        | .error fault => decide (fault = .release)
        | .ok _ => false) (by decide +kernel)
  rw [same] at reached
  rw [Bool.and_eq_true, decide_eq_true_iff] at passes
  refine ⟨s, created, w, 0x80600154, reached, passes.1, ?_⟩
  have fails := passes.2
  split at fails
  · next fault failed =>
      rw [failed, of_decide_eq_true fails]
  · cases fails

end Locked
end Slab
end Xv6Duo
