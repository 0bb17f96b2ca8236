import Mathlib.Data.List.Pairwise
import Mathlib.Tactic.SplitIfs
import Mathlib.Tactic.TypeStar

/-!
# Lists of disjoint intervals

Items that stand for half-open intervals, in ascending order and apart from each other. The item
that covers a point is found by a scan; the rules say how it changes when an item is put into a gap,
taken out, or made smaller.
-/

namespace IntervalMap

variable {α : Type*} (start stop : α → Nat)

/-- Each item ends before the later ones begin. -/
def Ordered (items : List α) : Prop := items.Pairwise fun a b => stop a ≤ start b

/-- The item covers the point. -/
def Covers (item : α) (point : Nat) : Prop := start item ≤ point ∧ point < stop item

instance (item : α) (point : Nat) : Decidable (Covers start stop item point) :=
  inferInstanceAs (Decidable (_ ∧ _))

/-- The first item that covers a point. -/
def covering (items : List α) (point : Nat) : Option α :=
  items.find? fun item => Covers start stop item point

variable {start stop} {before after items : List α} {item : α} {point : Nat}

theorem covering_eq_none_iff :
    covering start stop items point = none ↔ ∀ item ∈ items, ¬Covers start stop item point := by
  rw [covering, List.find?_eq_none]
  simp

theorem covering_append : covering start stop (before ++ after) point =
    (covering start stop before point).or (covering start stop after point) :=
  List.find?_append

theorem covering_cons : covering start stop (item :: items) point =
    if Covers start stop item point then some item else covering start stop items point := by
  rw [covering, List.find?_cons]
  split_ifs with covers
  · rw [decide_eq_true covers]
  · rw [decide_eq_false covers]
    rfl

theorem ordered_append : Ordered start stop (before ++ after) ↔
    Ordered start stop before ∧ Ordered start stop after ∧
      ∀ a ∈ before, ∀ b ∈ after, stop a ≤ start b := List.pairwise_append

theorem ordered_cons : Ordered start stop (item :: items) ↔
    (∀ b ∈ items, stop item ≤ start b) ∧ Ordered start stop items := List.pairwise_cons

/-- The item in the middle of a list covers its points, the others do so elsewhere. -/
theorem covering_middle (ordered : Ordered start stop (before ++ item :: after)) :
    covering start stop (before ++ item :: after) point =
      if Covers start stop item point then some item
      else covering start stop (before ++ after) point := by
  rw [covering_append, covering_cons]
  split_ifs with covers
  · have earlier : covering start stop before point = none := by
      rw [covering_eq_none_iff]
      rintro other mem ⟨-, below⟩
      have apart := (ordered_append.mp ordered).2.2 other mem item List.mem_cons_self
      exact absurd covers.1 (Nat.not_le_of_lt (Nat.lt_of_lt_of_le below apart))
    rw [earlier, Option.none_or]
  · rw [covering_append]

/-- The points of an item are not covered by the others. -/
theorem covering_others (ordered : Ordered start stop (before ++ item :: after))
    (covers : Covers start stop item point) :
    covering start stop (before ++ after) point = none := by
  obtain ⟨-, tail, apart⟩ := ordered_append.mp ordered
  rw [covering_eq_none_iff]
  rintro other mem ⟨above, below⟩
  rcases List.mem_append.mp mem with earlier | later
  · have less := apart other earlier item List.mem_cons_self
    exact absurd covers.1 (Nat.not_le_of_lt (Nat.lt_of_lt_of_le below less))
  · have less := (ordered_cons.mp tail).1 other later
    exact absurd above (Nat.not_le_of_lt (Nat.lt_of_lt_of_le covers.2 less))

/-- An item that fits into a gap. -/
theorem Ordered.insert (ordered : Ordered start stop (before ++ after))
    (left : ∀ a ∈ before, stop a ≤ start item) (right : ∀ b ∈ after, stop item ≤ start b) :
    Ordered start stop (before ++ item :: after) := by
  obtain ⟨first, second, apart⟩ := ordered_append.mp ordered
  refine ordered_append.mpr ⟨first, ordered_cons.mpr ⟨right, second⟩, ?_⟩
  intro a mem b mem_b
  rcases List.mem_cons.mp mem_b with rfl | later
  · exact left a mem
  · exact apart a mem b later

/-- An item that is taken out. -/
theorem Ordered.remove (ordered : Ordered start stop (before ++ item :: after)) :
    Ordered start stop (before ++ after) :=
  List.Pairwise.sublist (List.Sublist.append_left (List.sublist_cons_self item after) before)
    ordered

/-- An item that is replaced by one inside of it. -/
theorem Ordered.shrink (ordered : Ordered start stop (before ++ item :: after)) {smaller : α}
    (left : start item ≤ start smaller) (right : stop smaller ≤ stop item) :
    Ordered start stop (before ++ smaller :: after) := by
  obtain ⟨-, tail, apart⟩ := ordered_append.mp ordered
  apply ordered.remove.insert
  · intro a mem
    exact Nat.le_trans (apart a mem item List.mem_cons_self) left
  · intro b mem
    exact Nat.le_trans right ((ordered_cons.mp tail).1 b mem)

end IntervalMap
