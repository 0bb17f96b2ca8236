import Mathlib.Data.Set.Insert
import Mathlib.Tactic

/-!
# Partitions into aligned power-of-two ranges

A block `(start, order)` stands for the half-open range of length `2 ^ order` that begins at
`start`. A partition of an initial segment of the naturals into such blocks survives two moves:
cutting one block into its halves, and joining two halves of one aligned block. A block and its
buddy are the two halves of one block of the next order.
-/

namespace DyadicPartition

/-- The range of a block contains a point. -/
def Covers (block : Nat × Nat) (point : Nat) : Prop :=
  block.1 ≤ point ∧ point < block.1 + 2 ^ block.2

instance (block : Nat × Nat) (point : Nat) : Decidable (Covers block point) :=
  inferInstanceAs (Decidable (_ ∧ _))

theorem covers_start (block : Nat × Nat) : Covers block block.1 :=
  ⟨le_rfl, Nat.lt_add_of_pos_right (Nat.two_pow_pos _)⟩

/-- The ranges of the blocks are aligned, lie below `size`, cover it and do not overlap. -/
structure IsPartition (size : Nat) (blocks : Set (Nat × Nat)) : Prop where
  /-- A block starts at a multiple of its length. -/
  aligned : ∀ block ∈ blocks, 2 ^ block.2 ∣ block.1
  /-- A block ends inside the segment. -/
  bounded : ∀ block ∈ blocks, block.1 + 2 ^ block.2 ≤ size
  /-- Every point of the segment lies in some block. -/
  covered : ∀ point < size, ∃ block ∈ blocks, Covers block point
  /-- No point lies in two blocks. -/
  unique : ∀ left ∈ blocks, ∀ right ∈ blocks, ∀ point,
    Covers left point → Covers right point → left = right

namespace IsPartition

variable {size : Nat} {blocks : Set (Nat × Nat)}

/-- A block is determined by its first point. -/
theorem order_eq (partition : IsPartition size blocks) {start left right : Nat}
    (left_mem : (start, left) ∈ blocks) (right_mem : (start, right) ∈ blocks) :
    left = right :=
  congrArg Prod.snd (partition.unique _ left_mem _ right_mem start
    (covers_start (start, left)) (covers_start (start, right)))

/-- The start of a block lies in no other block. -/
theorem eq_of_covers_start (partition : IsPartition size blocks) {left right : Nat × Nat}
    (left_mem : left ∈ blocks) (right_mem : right ∈ blocks) (covers : Covers left right.1) :
    left = right :=
  partition.unique _ left_mem _ right_mem _ covers (covers_start right)

theorem start_lt (partition : IsPartition size blocks) {block : Nat × Nat}
    (mem : block ∈ blocks) : block.1 < size :=
  (Nat.lt_add_of_pos_right (Nat.two_pow_pos _)).trans_le (partition.bounded _ mem)

/-- Cut one block into its two halves. -/
theorem split (partition : IsPartition size blocks) {start order : Nat}
    (mem : (start, order + 1) ∈ blocks) :
    IsPartition size
      (insert (start, order) (insert (start + 2 ^ order, order)
        (blocks \ {(start, order + 1)}))) := by
  have double : 2 ^ (order + 1) = 2 ^ order + 2 ^ order := by ring
  have aligned := partition.aligned _ mem
  have bounded := partition.bounded _ mem
  have half_dvd : 2 ^ order ∣ start := (Dvd.intro _ (pow_succ 2 order).symm).trans aligned
  have apart : ∀ other ∈ blocks \ {(start, order + 1)}, ∀ point,
      start ≤ point → point < start + 2 ^ (order + 1) → ¬Covers other point := by
    rintro other ⟨other_mem, other_ne⟩ point lower upper covers
    exact other_ne (partition.unique _ other_mem _ mem point covers ⟨lower, upper⟩)
  have positive := Nat.two_pow_pos order
  simp only [double] at apart bounded
  refine ⟨?_, ?_, ?_, ?_⟩
  · rintro block (rfl | rfl | ⟨block_mem, -⟩)
    · exact half_dvd
    · exact (Nat.dvd_add_right half_dvd).mpr dvd_rfl
    · exact partition.aligned _ block_mem
  · rintro block (rfl | rfl | ⟨block_mem, -⟩)
    · simp only
      omega
    · simp only
      omega
    · exact partition.bounded _ block_mem
  · intro point point_lt
    obtain ⟨block, block_mem, covers⟩ := partition.covered point point_lt
    by_cases same : block = (start, order + 1)
    · subst same
      simp only [Covers, double] at covers
      by_cases left : point < start + 2 ^ order
      · exact ⟨_, Or.inl rfl, covers.1, left⟩
      · refine ⟨_, Or.inr (Or.inl rfl), ?_⟩
        simp only [Covers]
        omega
    · exact ⟨block, Or.inr (Or.inr ⟨block_mem, same⟩), covers⟩
  · rintro left (rfl | rfl | left_mem) right (rfl | rfl | right_mem) point left_covers right_covers
    · rfl
    · simp only [Covers] at left_covers right_covers
      omega
    · simp only [Covers] at left_covers
      exact (apart _ right_mem point (by omega) (by omega) right_covers).elim
    · simp only [Covers] at left_covers right_covers
      omega
    · rfl
    · simp only [Covers] at left_covers
      exact (apart _ right_mem point (by omega) (by omega) right_covers).elim
    · simp only [Covers] at right_covers
      exact (apart _ left_mem point (by omega) (by omega) left_covers).elim
    · simp only [Covers] at right_covers
      exact (apart _ left_mem point (by omega) (by omega) left_covers).elim
    · exact partition.unique _ left_mem.1 _ right_mem.1 point left_covers right_covers

/-- Join the two halves of one aligned block. -/
theorem merge (partition : IsPartition size blocks) {start order : Nat}
    (left_mem : (start, order) ∈ blocks) (right_mem : (start + 2 ^ order, order) ∈ blocks)
    (aligned : 2 ^ (order + 1) ∣ start) :
    IsPartition size
      (insert (start, order + 1)
        (blocks \ {(start, order), (start + 2 ^ order, order)})) := by
  have double : 2 ^ (order + 1) = 2 ^ order + 2 ^ order := by ring
  have bounded := partition.bounded _ right_mem
  have apart : ∀ other ∈ blocks \ {(start, order), (start + 2 ^ order, order)}, ∀ point,
      start ≤ point → point < start + 2 ^ order + 2 ^ order → ¬Covers other point := by
    rintro other ⟨other_mem, other_ne⟩ point lower upper covers
    apply other_ne
    by_cases left : point < start + 2 ^ order
    · exact Or.inl (partition.unique _ other_mem _ left_mem point covers ⟨lower, left⟩)
    · exact Or.inr (partition.unique _ other_mem _ right_mem point covers
        ⟨Nat.le_of_not_lt left, upper⟩)
  refine ⟨?_, ?_, ?_, ?_⟩
  · rintro block (rfl | ⟨block_mem, -⟩)
    · exact aligned
    · exact partition.aligned _ block_mem
  · rintro block (rfl | ⟨block_mem, -⟩)
    · simp only [double]
      simpa [Nat.add_assoc] using bounded
    · exact partition.bounded _ block_mem
  · intro point point_lt
    obtain ⟨block, block_mem, covers⟩ := partition.covered point point_lt
    by_cases same : block = (start, order) ∨ block = (start + 2 ^ order, order)
    · refine ⟨_, Or.inl rfl, ?_⟩
      obtain rfl | rfl := same <;>
        simp only [Covers, double] at covers ⊢ <;> omega
    · exact ⟨block, Or.inr ⟨block_mem, same⟩, covers⟩
  · rintro left (rfl | left_mem) right (rfl | right_mem) point left_covers right_covers
    · rfl
    · simp only [Covers, double] at left_covers
      exact (apart _ right_mem point (by omega) (by omega) right_covers).elim
    · simp only [Covers, double] at right_covers
      exact (apart _ left_mem point (by omega) (by omega) left_covers).elim
    · exact partition.unique _ left_mem.1 _ right_mem.1 point left_covers right_covers

end IsPartition

/-! ## Buddies -/

/-- The other half of the block of the next order that contains the block. -/
def buddy (start order : Nat) : Nat :=
  if start / 2 ^ order % 2 = 1 then start - 2 ^ order else start + 2 ^ order

/-- Of an aligned block and its buddy, the lower one starts a block of the next order. -/
theorem buddy_cases {start order : Nat} (aligned : 2 ^ order ∣ start) :
    (start / 2 ^ order % 2 = 0 ∧ buddy start order = start + 2 ^ order ∧
        2 ^ (order + 1) ∣ start) ∨
      (start / 2 ^ order % 2 = 1 ∧ start = buddy start order + 2 ^ order ∧
        2 ^ (order + 1) ∣ buddy start order) := by
  obtain ⟨quotient, rfl⟩ := aligned
  have positive := Nat.two_pow_pos order
  rw [buddy, Nat.mul_div_cancel_left _ positive, pow_succ]
  obtain even | odd := Nat.mod_two_eq_zero_or_one quotient
  · refine Or.inl ⟨even, by simp [even], ?_⟩
    exact Nat.mul_dvd_mul_left _ (Nat.dvd_of_mod_eq_zero even)
  · refine Or.inr ⟨odd, ?_, ?_⟩
    · have one_le : 1 ≤ quotient := by omega
      have := Nat.mul_le_mul_left (2 ^ order) one_le
      simp only [odd, if_true]
      omega
    · simp only [odd, if_true]
      rw [show 2 ^ order * quotient - 2 ^ order = 2 ^ order * (quotient - 1) by
        rw [Nat.mul_sub, Nat.mul_one]]
      exact Nat.mul_dvd_mul_left _ (by omega)

theorem buddy_ne (start order : Nat) : buddy start order ≠ start := by
  have positive := Nat.two_pow_pos order
  rw [buddy]
  split
  · next odd =>
      intro same
      have zero : start = 0 := by omega
      rw [zero, Nat.zero_div] at odd
      cases odd
  · omega

/-- A block is the buddy of its buddy. -/
theorem buddy_buddy {start order : Nat} (aligned : 2 ^ order ∣ start) :
    buddy (buddy start order) order = start := by
  have positive := Nat.two_pow_pos order
  rcases buddy_cases aligned with ⟨even, eq, _⟩ | ⟨odd, eq, _⟩
  · rw [eq, buddy, Nat.add_div_right _ positive, if_pos (by omega), Nat.add_sub_cancel]
  · have half : buddy start order / 2 ^ order % 2 = 0 := by
      rw [eq, Nat.add_div_right _ positive] at odd
      omega
    rw [buddy, if_neg (by omega)]
    exact eq.symm

/-- A segment made of larger blocks contains the buddy of every smaller aligned block in it. -/
theorem buddy_bounded {start order size : Nat} (aligned : 2 ^ order ∣ start)
    (size_dvd : 2 ^ (order + 1) ∣ size) (bounded : start + 2 ^ order ≤ size) :
    buddy start order + 2 ^ order ≤ size := by
  obtain ⟨-, buddy_eq, start_dvd⟩ | ⟨-, start_eq, -⟩ := buddy_cases aligned
  · have double : 2 ^ (order + 1) = 2 ^ order + 2 ^ order := by ring
    have positive := Nat.two_pow_pos order
    obtain ⟨left, rfl⟩ := start_dvd
    obtain ⟨right, rfl⟩ := size_dvd
    have quotient_lt : left < right := by
      by_contra not_lt
      have := Nat.mul_le_mul_left (2 ^ (order + 1)) (Nat.le_of_not_lt not_lt)
      omega
    have := Nat.mul_le_mul_left (2 ^ (order + 1)) (Nat.succ_le_of_lt quotient_lt)
    rw [Nat.mul_succ] at this
    omega
  · omega

/-- A larger aligned block that contains a block contains its buddy. -/
theorem covers_of_covers_buddy {block : Nat × Nat} {start order : Nat} (aligned : 2 ^ order ∣ start)
    (block_aligned : 2 ^ block.2 ∣ block.1) (larger : order < block.2)
    (covers : Covers block (buddy start order)) : Covers block start := by
  have double : 2 ^ (order + 1) = 2 ^ order + 2 ^ order := by ring
  have positive := Nat.two_pow_pos order
  obtain ⟨first, first_eq⟩ : 2 ^ (order + 1) ∣ block.1 := (pow_dvd_pow 2 larger).trans block_aligned
  obtain ⟨length, length_eq⟩ : 2 ^ (order + 1) ∣ 2 ^ block.2 := pow_dvd_pow 2 larger
  obtain ⟨lower, upper⟩ := covers
  rw [first_eq] at lower upper
  rw [length_eq, ← Nat.mul_add] at upper
  rw [Covers, first_eq, length_eq, ← Nat.mul_add]
  rcases buddy_cases aligned with ⟨_, eq, ⟨half, half_eq⟩⟩ | ⟨_, eq, ⟨half, half_eq⟩⟩
  · rw [eq, half_eq] at lower upper
    rw [half_eq]
    refine ⟨?_, by omega⟩
    apply Nat.mul_le_mul_left
    by_contra above
    have := Nat.mul_le_mul_left (2 ^ (order + 1)) (Nat.succ_le_of_lt (Nat.lt_of_not_le above))
    rw [Nat.mul_succ] at this
    omega
  · rw [half_eq] at lower upper eq
    refine ⟨by omega, ?_⟩
    have below : half < first + length := Nat.lt_of_mul_lt_mul_left upper
    have := Nat.mul_le_mul_left (2 ^ (order + 1)) (Nat.succ_le_of_lt below)
    rw [Nat.mul_succ] at this
    omega

/-- A partition into blocks up to an order, no two of them buddies below it, has only blocks of that
order. -/
theorem IsPartition.order_eq_top {size top : Nat} {blocks : Set (Nat × Nat)}
    (partition : IsPartition size blocks) (size_dvd : 2 ^ top ∣ size)
    (le_top : ∀ block ∈ blocks, block.2 ≤ top)
    (coalesced : ∀ start order, order < top → (start, order) ∈ blocks →
      (buddy start order, order) ∉ blocks) {block : Nat × Nat} (mem : block ∈ blocks) :
    block.2 = top := by
  have none_below : ∀ order, order < top → ∀ start, (start, order) ∉ blocks := by
    intro order
    induction order using Nat.strong_induction_on with
    | _ order ih =>
        intro order_lt start mem
        have positive := Nat.two_pow_pos order
        have aligned : 2 ^ order ∣ start := partition.aligned _ mem
        have inside : buddy start order + 2 ^ order ≤ size :=
          buddy_bounded aligned ((pow_dvd_pow 2 order_lt).trans size_dvd) (partition.bounded _ mem)
        obtain ⟨cover, cover_mem, covers⟩ := partition.covered (buddy start order) (by omega)
        rcases Nat.lt_trichotomy cover.2 order with smaller | same | larger
        · exact ih cover.2 smaller (smaller.trans order_lt) cover.1 cover_mem
        · -- The block at the buddy has its order, and starts where it starts.
          have cover_aligned : 2 ^ order ∣ cover.1 := same ▸ partition.aligned _ cover_mem
          have buddy_aligned : 2 ^ order ∣ buddy start order := by
            rcases buddy_cases aligned with ⟨_, eq, _⟩ | ⟨_, _, dvd⟩
            · rw [eq]
              exact Nat.dvd_add aligned dvd_rfl
            · exact (pow_dvd_pow 2 order.le_succ).trans dvd
          have start_eq : cover.1 = buddy start order := by
            obtain ⟨first, first_eq⟩ := cover_aligned
            obtain ⟨second, second_eq⟩ := buddy_aligned
            obtain ⟨lower, upper⟩ := covers
            rw [first_eq, second_eq] at lower upper
            rw [same, ← Nat.mul_succ] at upper
            have le := Nat.le_of_mul_le_mul_left lower positive
            have lt := Nat.lt_of_mul_lt_mul_left upper
            have quotient : first = second := by omega
            rw [first_eq, second_eq, quotient]
          refine coalesced start order order_lt mem ?_
          rw [← start_eq, ← same]
          exact cover_mem
        · have both := covers_of_covers_buddy aligned (partition.aligned _ cover_mem) larger covers
          have equal := partition.eq_of_covers_start cover_mem mem both
          rw [equal] at larger
          exact lt_irrefl _ larger
  by_contra other
  exact none_below block.2 (lt_of_le_of_ne (le_top block mem) other) block.1 mem

end DyadicPartition
