import Mathlib.Data.List.Basic
import Mathlib.Tactic

/-!
# Reversal by exchange

A list is reversed in place when the elements at mirrored positions are exchanged, from the ends to
the middle. What lies behind the last position stays.
-/

namespace SwapReverse

variable {α : Type*}

/-- Exchange the elements at two positions. -/
def swap (l : List α) (i j : Nat) : List α :=
  match l[i]?, l[j]? with
  | some a, some b => (l.set i b).set j a
  | _, _ => l

/-- Exchange the first positions up to `last` with their mirror images. -/
def exchange (last : Nat) (l : List α) (count : Nat) : List α :=
  (List.range count).foldl (fun l i => swap l i (last - i)) l

/-- Reverse the elements up to a position. -/
def reverseTo (last : Nat) (l : List α) : List α := exchange last l ((last + 1) / 2)

theorem length_swap (l : List α) (i j : Nat) : (swap l i j).length = l.length := by
  unfold swap
  split
  · rw [List.length_set, List.length_set]
  · rfl

theorem getElem?_swap {l : List α} {i j : Nat} (i_lt : i < l.length) (j_lt : j < l.length)
    (k : Nat) : (swap l i j)[k]? = if k = j then l[i]? else if k = i then l[j]? else l[k]? := by
  rw [swap, List.getElem?_eq_getElem i_lt, List.getElem?_eq_getElem j_lt]
  dsimp only
  rw [List.getElem?_set, List.length_set, List.getElem?_set]
  split
  · next same => rw [if_pos same.symm]
  · next differ =>
      rw [if_neg (Ne.symm differ)]
      split
      · next same => rw [if_pos same.symm]
      · next other => rw [if_neg (Ne.symm other)]

theorem length_exchange (last : Nat) (l : List α) (count : Nat) :
    (exchange last l count).length = l.length := by
  induction count with
  | zero => rfl
  | succ count ih =>
      rw [exchange, List.range_succ, List.foldl_append]
      exact (length_swap _ _ _).trans ih

/-- After some exchanges the outer positions hold their mirror images. -/
theorem getElem?_exchange {last : Nat} {l : List α} (inside : last < l.length) (count : Nat)
    (half : 2 * count ≤ last + 1) (k : Nat) :
    (exchange last l count)[k]? =
      if k ≤ last ∧ (k < count ∨ last < k + count) then l[last - k]? else l[k]? := by
  induction count generalizing k with
  | zero =>
      have middle : ¬(k ≤ last ∧ (k < 0 ∨ last < k + 0)) := by omega
      rw [if_neg middle]
      rfl
  | succ count ih =>
      have before := fun k => ih (by omega) k
      have length := length_exchange last l count
      rw [exchange, List.range_succ, List.foldl_append]
      change (swap (exchange last l count) count (last - count))[k]? = _
      rw [getElem?_swap (by omega) (by omega), before, before, before]
      have low : ¬(count ≤ last ∧ (count < count ∨ last < count + count)) := by omega
      have high : ¬(last - count ≤ last ∧
          (last - count < count ∨ last < last - count + count)) := by omega
      rw [if_neg low, if_neg high]
      split
      · next at_high =>
          rw [if_pos (by omega)]
          congr 1
          omega
      · next not_high =>
          split
          · next at_low =>
              rw [if_pos (by omega), at_low]
          · next not_low =>
              have same : (k ≤ last ∧ (k < count ∨ last < k + count)) ↔
                  k ≤ last ∧ (k < count + 1 ∨ last < k + (count + 1)) := by omega
              rw [if_congr same rfl rfl]

/-- The exchanges reverse the list up to the position. -/
theorem reverseTo_eq {last : Nat} {l : List α} (inside : last < l.length) :
    reverseTo last l = (l.take (last + 1)).reverse ++ l.drop (last + 1) := by
  have length : (l.take (last + 1)).length = last + 1 := by
    rw [List.length_take]
    omega
  apply List.ext_getElem?
  intro k
  rw [reverseTo, getElem?_exchange inside _ (by omega), List.getElem?_append, List.length_reverse,
    length]
  split
  · next outer =>
      rw [if_pos (by omega), List.getElem?_reverse (by omega), length,
        List.getElem?_take_of_lt (by omega)]
      congr 1
  · next inner =>
      split
      · next low =>
          rw [List.getElem?_reverse (by omega), length, List.getElem?_take_of_lt (by omega)]
          congr 1
          omega
      · next behind =>
          rw [List.getElem?_drop]
          congr 1
          omega

end SwapReverse
