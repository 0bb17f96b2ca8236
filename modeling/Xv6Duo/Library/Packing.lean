import Mathlib.Algebra.BigOperators.Group.List.Basic
import Mathlib.Algebra.GroupWithZero.Nat
import Mathlib.Data.List.ReduceOption
import Mathlib.Tactic.Common

/-!
# Items that are packed until one does not fit

Items stand in slots, some of which are free. A round takes items in their order as long as they fit
in the room that is left. The first item that does not fit is taken out of its slot and lost; the
next round begins behind it.
-/

namespace Packing

variable {α : Type*} {weight : α → Nat}

/-- The items of a round, and the slots behind it. -/
def pack (weight : α → Nat) : List (Option α) → Nat → List α × List (Option α)
  | [], _ => ([], [])
  | none :: slots, room => pack weight slots room
  | some item :: slots, room =>
      if weight item ≤ room then
        (item :: (pack weight slots (room - weight item)).1,
          (pack weight slots (room - weight item)).2)
      else ([], slots)

/-- If there is room for every item, the round takes all of them. -/
theorem pack_all {slots : List (Option α)} {room : Nat}
    (enough : (slots.reduceOption.map weight).sum ≤ room) :
    pack weight slots room = (slots.reduceOption, []) := by
  induction slots generalizing room with
  | nil => rfl
  | cons slot slots ih =>
      cases slot with
      | none => rw [pack, List.reduceOption_cons_of_none, ih enough]
      | some item =>
          rw [List.reduceOption_cons_of_some, List.map_cons, List.sum_cons] at enough
          rw [pack, if_pos (by omega), ih (by omega), List.reduceOption_cons_of_some]

/-- No item is both taken and left. -/
theorem length_pack_le (weight : α → Nat) (slots : List (Option α)) (room : Nat) :
    (pack weight slots room).1.length + (pack weight slots room).2.reduceOption.length ≤
      slots.reduceOption.length := by
  induction slots generalizing room with
  | nil => exact Nat.le_refl 0
  | cons slot slots ih =>
      cases slot with
      | none =>
          rw [pack, List.reduceOption_cons_of_none]
          exact ih room
      | some item =>
          have taken := ih (room - weight item)
          rw [pack, List.reduceOption_cons_of_some, List.length_cons]
          split
          · simp only [List.length_cons]
            omega
          · simp only [List.length_nil]
            omega

/-- If there is not room for every item, one is lost. -/
theorem length_pack_lt {slots : List (Option α)} {room : Nat}
    (short : room < (slots.reduceOption.map weight).sum) :
    (pack weight slots room).1.length + (pack weight slots room).2.reduceOption.length <
      slots.reduceOption.length := by
  induction slots generalizing room with
  | nil => exact absurd short (Nat.not_lt_zero room)
  | cons slot slots ih =>
      cases slot with
      | none =>
          rw [pack, List.reduceOption_cons_of_none]
          exact ih short
      | some item =>
          rw [List.reduceOption_cons_of_some, List.map_cons, List.sum_cons] at short
          rw [pack, List.reduceOption_cons_of_some, List.length_cons]
          split
          · next fits =>
              have taken := ih (show room - weight item < _ by omega)
              simp only [List.length_cons]
              omega
          · simp only [List.length_nil]
            omega

/-! ## Rounds -/

/-- The items of one round after the other. -/
def rounds (weight : α → Nat) : List (Option α) → List Nat → List (List α)
  | _, [] => []
  | slots, room :: rooms =>
      (pack weight slots room).1 :: rounds weight (pack weight slots room).2 rooms

theorem rounds_nil (weight : α → Nat) (rooms : List Nat) :
    (rounds weight [] rooms).flatten = [] := by
  induction rooms with
  | nil => rfl
  | cons room rooms ih => rw [rounds, pack, List.flatten_cons, ih, List.append_nil]

/-- If the first room is enough for every item, each item is taken once. -/
theorem rounds_all {slots : List (Option α)} {room : Nat} (rooms : List Nat)
    (enough : (slots.reduceOption.map weight).sum ≤ room) :
    (rounds weight slots (room :: rooms)).flatten = slots.reduceOption := by
  rw [rounds, pack_all enough, List.flatten_cons, rounds_nil, List.append_nil]

/-- No item is taken twice. -/
theorem length_rounds_le (weight : α → Nat) (slots : List (Option α)) (rooms : List Nat) :
    (rounds weight slots rooms).flatten.length ≤ slots.reduceOption.length := by
  induction rooms generalizing slots with
  | nil => exact Nat.zero_le _
  | cons room rooms ih =>
      have taken := length_pack_le weight slots room
      have later := ih (pack weight slots room).2
      rw [rounds, List.flatten_cons, List.length_append]
      omega

/-- If the first room is too small for all the items, one is never taken. -/
theorem length_rounds_lt {slots : List (Option α)} {room : Nat} (rooms : List Nat)
    (short : room < (slots.reduceOption.map weight).sum) :
    (rounds weight slots (room :: rooms)).flatten.length < slots.reduceOption.length := by
  have taken := length_pack_lt short
  have later := length_rounds_le weight (pack weight slots room).2 rooms
  rw [rounds, List.flatten_cons, List.length_append]
  omega

end Packing
