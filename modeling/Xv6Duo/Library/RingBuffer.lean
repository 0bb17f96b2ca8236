import Mathlib.Data.UInt
import Mathlib.Logic.Function.Basic
import Mathlib.Tactic.Common

/-!
# Ring buffers with free-running counters

A buffer of `size` cells is filled at one 32-bit counter and drained at another; a counter is taken
modulo `size` when it selects a cell, and `size` divides `2 ^ 32`, so the cells stay in step when a
counter wraps. `window` lists the elements from a counter on.
-/

namespace RingBuffer

variable {α : Type*} {size : Nat}

/-- The elements of `count` cells from the counter `start` on. -/
def window (size : Nat) (data : Nat → α) (start : UInt32) (count : Nat) : List α :=
  (List.range count).map fun k => data ((start.toNat + k) % size)

@[simp]
theorem length_window (data : Nat → α) (start : UInt32) (count : Nat) :
    (window size data start count).length = count := by
  simp [window]

@[simp]
theorem window_zero (data : Nat → α) (start : UInt32) : window size data start 0 = [] := rfl

/-- A counter that wraps selects the cell it would select without. -/
theorem cell_add (divides : size ∣ 2 ^ 32) (start more : UInt32) :
    (start + more).toNat % size = (start.toNat + more.toNat) % size := by
  rw [UInt32.toNat_add, Nat.mod_mod_of_dvd _ divides]

/-- The last element. -/
theorem window_succ (data : Nat → α) (start : UInt32) (count : Nat) :
    window size data start (count + 1) =
      window size data start count ++ [data ((start.toNat + count) % size)] := by
  simp [window, List.range_succ]

/-- The first element. -/
theorem window_cons (divides : size ∣ 2 ^ 32) (data : Nat → α) (start : UInt32) (count : Nat) :
    window size data start (count + 1) =
      data (start.toNat % size) :: window size data (start + 1) count := by
  have cells : ∀ k, ((start + 1).toNat + k) % size = (start.toNat + (k + 1)) % size := by
    intro k
    rw [Nat.add_mod, cell_add divides, ← Nat.add_mod]
    congr 1
    rw [show (1 : UInt32).toNat = 1 from rfl]
    omega
  simp only [window, List.range_succ_eq_map, List.map_cons, List.map_map, Nat.add_zero,
    Function.comp_def, cells, Nat.succ_eq_add_one]

/-- Cells at different distances from a counter are different. -/
theorem cell_ne {start : Nat} {k count : Nat} (below : k < count) (count_lt : count < size) :
    (start + k) % size ≠ (start + count) % size := by
  intro same
  have modulo : k ≡ count [MOD size] := Nat.ModEq.add_left_cancel' start same
  have equal : k = count := Nat.ModEq.eq_of_lt_of_lt modulo (below.trans count_lt) count_lt
  omega

/-- A store behind the last element leaves the elements as they are. -/
theorem window_update (data : Nat → α) (start : UInt32) {count cell : Nat} (behind : count ≤ cell)
    (cell_lt : cell < size) (value : α) :
    window size (Function.update data ((start.toNat + cell) % size) value) start count =
      window size data start count := by
  apply List.map_congr_left
  intro k member
  rw [List.mem_range] at member
  rw [Function.update_of_ne (cell_ne (member.trans_le behind) cell_lt)]

/-- The elements from a counter on are followed by those from a later one on. -/
theorem window_add (divides : size ∣ 2 ^ 32) (data : Nat → α) (start more : UInt32) (count : Nat) :
    window size data start (more.toNat + count) =
      window size data start more.toNat ++ window size data (start + more) count := by
  induction count with
  | zero => simp
  | succ count ih =>
      have cell : ((start + more).toNat + count) % size = (start.toNat + (more.toNat + count)) %
        size := by
        rw [Nat.add_mod, cell_add divides, ← Nat.add_mod, Nat.add_assoc]
      rw [← Nat.add_assoc, window_succ, window_succ, ih, cell, List.append_assoc]

/-! ## Distances -/

/-- The elements between two counters. -/
def distance (stop start : UInt32) : Nat := (stop - start).toNat

theorem distance_eq (stop start : UInt32) :
    distance stop start = (2 ^ 32 - start.toNat + stop.toNat) % 2 ^ 32 := by
  rw [distance, UInt32.toNat_sub]

@[simp]
theorem distance_self (start : UInt32) : distance start start = 0 := by
  simp [distance]

theorem distance_eq_zero_iff {stop start : UInt32} : distance stop start = 0 ↔ stop = start := by
  rw [← UInt32.toNat_inj, distance_eq]
  have := stop.toNat_lt
  have := start.toNat_lt
  omega

/-- The counter at a given distance. -/
theorem distance_eq_iff {stop start more : UInt32} :
    distance stop start = more.toNat ↔ stop = start + more := by
  rw [← UInt32.toNat_inj, UInt32.toNat_add, distance_eq]
  have := stop.toNat_lt
  have := start.toNat_lt
  have := more.toNat_lt
  omega

/-- A counter runs ahead. -/
theorem distance_add_one {stop start : UInt32} (short : distance stop start < 2 ^ 32 - 1) :
    distance (stop + 1) start = distance stop start + 1 := by
  rw [distance_eq] at short
  rw [distance_eq, distance_eq, UInt32.toNat_add, show (1 : UInt32).toNat = 1 from rfl]
  have := stop.toNat_lt
  have := start.toNat_lt
  omega

/-- A counter catches up. -/
theorem distance_of_ne {stop start : UInt32} (differs : stop ≠ start) :
    distance stop start = distance stop (start + 1) + 1 := by
  rw [← UInt32.toNat_inj.ne] at differs
  rw [distance_eq, distance_eq, UInt32.toNat_add, show (1 : UInt32).toNat = 1 from rfl]
  have := stop.toNat_lt
  have := start.toNat_lt
  omega

/-- A counter goes back. -/
theorem distance_sub_one {stop start : UInt32} (differs : stop ≠ start) :
    distance stop start = distance (stop - 1) start + 1 := by
  rw [← UInt32.toNat_inj.ne] at differs
  rw [distance_eq, distance_eq, UInt32.toNat_sub, show (1 : UInt32).toNat = 1 from rfl]
  have := stop.toNat_lt
  have := start.toNat_lt
  omega

/-- The cell behind the last element. -/
theorem cell_stop (divides : size ∣ 2 ^ 32) (stop start : UInt32) :
    stop.toNat % size = (start.toNat + distance stop start) % size := by
  have reached : stop = start + (stop - start) := distance_eq_iff.mp rfl
  rw [distance, ← cell_add divides, ← reached]

/-! ## Filling and draining -/

/-- The elements between two counters. -/
def contents (size : Nat) (data : Nat → α) (start stop : UInt32) : List α :=
  window size data start (distance stop start)

/-- An element is stored at the counter that runs ahead. -/
theorem contents_push (divides : size ∣ 2 ^ 32) (data : Nat → α) {start stop : UInt32}
    (room : distance stop start < size) (short : distance stop start < 2 ^ 32 - 1) (value : α) :
    contents size (Function.update data (stop.toNat % size) value) start (stop + 1) =
      contents size data start stop ++ [value] := by
  rw [contents, distance_add_one short, window_succ, cell_stop divides stop start,
    Function.update_self, window_update data start le_rfl room, contents]

/-- The first element is taken at the counter that catches up. -/
theorem contents_pop (divides : size ∣ 2 ^ 32) (data : Nat → α) {start stop : UInt32}
    (differs : stop ≠ start) :
    contents size data start stop =
      data (start.toNat % size) :: contents size data (start + 1) stop := by
  rw [contents, distance_of_ne differs, window_cons divides, contents]

/-- The last element is given up. -/
theorem contents_sub_one (data : Nat → α) {start stop : UInt32} (differs : stop ≠ start) :
    contents size data start (stop - 1) = (contents size data start stop).dropLast := by
  rw [contents, contents, distance_sub_one differs, window_succ, List.dropLast_concat]

/-- A store at a counter ahead of both leaves the elements as they are. -/
theorem contents_update (divides : size ∣ 2 ^ 32) (data : Nat → α) {start stop ahead : UInt32}
    (behind : distance stop start ≤ distance ahead start) (room : distance ahead start < size)
    (value : α) :
    contents size (Function.update data (ahead.toNat % size) value) start stop =
      contents size data start stop := by
  rw [contents, cell_stop divides ahead start, window_update data start behind room, contents]

/-- The elements up to a counter in between are followed by those from it on. -/
theorem contents_append (divides : size ∣ 2 ^ 32) (data : Nat → α) {start middle stop : UInt32}
    (between : distance stop start = distance middle start + distance stop middle) :
    contents size data start stop =
      contents size data start middle ++ contents size data middle stop := by
  have reached : middle = start + (middle - start) := distance_eq_iff.mp rfl
  rw [contents, between, show distance middle start = (middle - start).toNat from rfl,
    window_add divides, ← reached]
  rfl

@[simp]
theorem contents_self (data : Nat → α) (start : UInt32) : contents size data start start = [] := by
  simp [contents]

@[simp]
theorem length_contents (data : Nat → α) (start stop : UInt32) :
    (contents size data start stop).length = distance stop start := by
  simp [contents]

end RingBuffer
