import Mathlib.Data.Fintype.Pigeonhole
import Mathlib.Data.Fintype.Fin
import Mathlib.Tactic.TypeStar

/-!
# Trails of a partial function

The values that a partial function gives one after another, from an optional first one on. A trail
through finitely many values comes to an end if and only if it meets no value twice.
-/

namespace Trail

variable {β : Type*} (hop : β → Option β)

/-- The value that a trail meets after some hops. -/
def trail (first : Option β) : Nat → Option β
  | 0 => first
  | n + 1 => (trail first n).bind hop

variable {hop} {first : Option β}

/-- A trail is followed from any of its points on. -/
theorem trail_add (m n : Nat) : trail hop first (m + n) = trail hop (trail hop first m) n := by
  induction n with
  | zero => rfl
  | succ n ih => rw [← Nat.add_assoc, trail, trail, ih]

/-- The values from the second on are the trail of the second. -/
theorem trail_succ (n : Nat) : trail hop first (n + 1) = trail hop (first.bind hop) n := by
  rw [Nat.add_comm, trail_add]
  rfl

theorem trail_none (n : Nat) : trail hop none n = none := by
  induction n with
  | zero => rfl
  | succ n ih => rw [trail, ih, Option.bind_none]

/-- A trail that has ended goes on nowhere. -/
theorem trail_eq_none_of_le {m n : Nat} (ended : trail hop first m = none) (le : m ≤ n) :
    trail hop first n = none := by
  obtain ⟨k, rfl⟩ := Nat.exists_eq_add_of_le le
  rw [trail_add, ended, trail_none]

/-- No value is met twice. -/
def Straight (hop : β → Option β) (first : Option β) : Prop :=
  ∀ m n b, trail hop first m = some b → trail hop first n = some b → m = n

/-- A trail that ends is straight. -/
theorem straight_of_ended {k : Nat} (ended : trail hop first k = none) : Straight hop first := by
  have ordered : ∀ m n b, m < n → trail hop first m = some b → trail hop first n ≠ some b := by
    intro m n b less at_m at_n
    obtain ⟨d, rfl⟩ := Nat.exists_eq_add_of_lt less
    -- the trail is then periodic from `m` on, and never ends
    have again : ∀ r, trail hop first (m + r * (d + 1)) = some b := by
      intro r
      induction r with
      | zero => rwa [Nat.zero_mul, Nat.add_zero]
      | succ r ih =>
          rw [Nat.succ_mul, ← Nat.add_assoc, trail_add, ih, ← at_m, ← trail_add, ← Nat.add_assoc]
          exact at_n.trans at_m.symm
    have late : k ≤ m + k * (d + 1) := Nat.le_add_left_of_le (Nat.le_mul_of_pos_right k d.succ_pos)
    have nothing := trail_eq_none_of_le ended late
    rw [again] at nothing
    cases nothing
  intro m n b at_m at_n
  rcases Nat.lt_trichotomy m n with less | same | more
  · exact absurd at_n (ordered m n b less at_m)
  · exact same
  · exact absurd at_m (ordered n m b more at_n)

/-- A straight trail through numbers below a bound has ended when it has met that many. -/
theorem ended_of_straight {hop : Nat → Option Nat} {first : Option Nat} {bound : Nat}
    (below : ∀ n b, trail hop first n = some b → b < bound) (straight : Straight hop first) :
    trail hop first bound = none := by
  cases last : trail hop first bound with
  | none => rfl
  | some b =>
      have present : ∀ k : Fin (bound + 1), ∃ b, trail hop first k = some b := by
        intro k
        cases at_k : trail hop first k with
        | some b => exact ⟨b, rfl⟩
        | none =>
            have none_last := trail_eq_none_of_le at_k (Nat.le_of_lt_succ k.isLt)
            rw [last] at none_last
            cases none_last
      choose value at_value using present
      let visit (k : Fin (bound + 1)) : Fin bound := ⟨value k, below k _ (at_value k)⟩
      obtain ⟨m, n, differ, same⟩ := Fintype.exists_ne_map_eq_of_card_lt visit (by simp)
      have values : value m = value n := congrArg Fin.val same
      have equal := straight m n (value m) (at_value m) (values ▸ at_value n)
      exact absurd (Fin.ext equal) differ

end Trail
