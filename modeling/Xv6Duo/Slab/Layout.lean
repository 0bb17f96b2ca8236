import Mathlib.Data.Nat.Bitwise
import Mathlib.Tactic
import Xv6Duo.Slab.Model

/-!
# The layout of a slab

The header, the array of object numbers and the objects of a slab, for the caches whose slabs have
room for an object; and their alignment, for the caches that `slab_cache_create` makes of an
alignment that is zero or a power of two and of a size that does not wrap when it is rounded up.
-/

namespace Xv6Duo
namespace Slab

/-! ## Rounding -/

/-- Clearing the low bits of a word rounds down. -/
theorem and_mask {x width k : Nat} (small : x < 2 ^ width) (k_le : k ≤ width) :
    x &&& (2 ^ width - 2 ^ k) = x / 2 ^ k * 2 ^ k := by
  have mask : 2 ^ width - 2 ^ k = (2 ^ (width - k) - 1) <<< k := by
    rw [Nat.shiftLeft_eq, Nat.sub_mul, ← pow_add, Nat.sub_add_cancel k_le, Nat.one_mul]
  rw [mask, ← Nat.shiftRight_eq_div_pow, ← Nat.shiftLeft_eq]
  apply Nat.eq_of_testBit_eq
  intro i
  rw [Nat.testBit_and, Nat.testBit_shiftLeft, Nat.testBit_shiftLeft, Nat.testBit_two_pow_sub_one,
    Nat.testBit_shiftRight]
  by_cases low : k ≤ i
  · have index : k + (i - k) = i := by omega
    rw [index]
    by_cases high : i - k < width - k
    · simp [low, high]
    · have above : x.testBit i = false := by
        apply Nat.testBit_lt_two_pow
        exact small.trans_le (Nat.pow_le_pow_right (by decide) (by omega))
      simp [above]
  · simp [low]

/-- The complement of an alignment less one is its mask. -/
theorem toNat_mask {align : UInt32} (positive : 0 < align.toNat) :
    (~~~(align - 1)).toNat = 2 ^ 32 - align.toNat ∧ (align - 1).toNat = align.toNat - 1 := by
  have one_le : (1 : UInt32) ≤ align := by
    rw [UInt32.le_iff_toNat_le]
    exact positive
  have less : (align - 1).toNat = align.toNat - 1 := by
    rw [UInt32.toNat_sub_of_le _ _ one_le]
    rfl
  have bounded := align.toNat_lt
  refine ⟨?_, less⟩
  rw [UInt32.toNat_not, less, UInt32.size]
  omega

/-- The two parts of a word under a mask. -/
theorem and_not_add_and (word mask : UInt32) :
    (word &&& ~~~mask).toNat + (word &&& mask).toNat = word.toNat := by
  have apart : (word &&& ~~~mask).toBitVec &&& (word &&& mask).toBitVec = 0 := by
    ext i
    simp
    tauto
  have sum := BitVec.toNat_add_of_and_eq_zero apart
  rw [BitVec.add_eq_or_of_and_eq_zero _ _ apart] at sum
  rw [← UInt32.toNat_toBitVec, ← UInt32.toNat_toBitVec, ← sum, ← UInt32.toNat_toBitVec]
  congr 1
  ext i
  simp [← Bool.and_or_distrib_left]

/-- Rounding an address or a size up with the masks of the source. -/
theorem round_up_bounds {align : UInt32} (positive : 0 < align.toNat) {x : Nat}
    (small : x + (align.toNat - 1) < 2 ^ 32) :
    x ≤ ((x + (align - 1).toNat) &&& (~~~(align - 1)).toNat) ∧
      ((x + (align - 1).toNat) &&& (~~~(align - 1)).toNat) ≤ x + (align.toNat - 1) := by
  obtain ⟨-, less⟩ := toNat_mask positive
  have parts := and_not_add_and (UInt32.ofNat (x + (align - 1).toNat)) (align - 1)
  have cut : UInt32.toNat (UInt32.ofNat (x + (align - 1).toNat) &&& (align - 1)) ≤
      (align - 1).toNat := by
    rw [UInt32.toNat_and]
    exact Nat.and_le_right
  have whole : (UInt32.ofNat (x + (align - 1).toNat)).toNat = x + (align - 1).toNat := by
    rw [UInt32.toNat_ofNat', Nat.mod_eq_of_lt (by rwa [less])]
  rw [whole, UInt32.toNat_and, whole] at parts
  omega

/-- An alignment that is used: a power of two. -/
def PowerOfTwo (align : UInt32) : Prop := ∃ k, align.toNat = 2 ^ k

theorem PowerOfTwo.positive {align : UInt32} (power : PowerOfTwo align) : 0 < align.toNat := by
  obtain ⟨k, eq⟩ := power
  rw [eq]
  exact Nat.two_pow_pos k

/-- What is rounded up is a multiple of the alignment. -/
theorem round_up_dvd {align : UInt32} (power : PowerOfTwo align) {x : Nat}
    (small : x + (align.toNat - 1) < 2 ^ 32) :
    align.toNat ∣ ((x + (align - 1).toNat) &&& (~~~(align - 1)).toNat) := by
  obtain ⟨mask_eq, less_eq⟩ := toNat_mask power.positive
  obtain ⟨k, align_eq⟩ := power
  have bounded := align.toNat_lt
  have k_le : k ≤ 32 := by
    rw [align_eq] at bounded
    exact (Nat.pow_lt_pow_iff_right (by decide)).mp bounded |>.le
  rw [mask_eq, less_eq]
  rw [align_eq] at small ⊢
  rw [and_mask small k_le]
  exact Nat.dvd_mul_left _ _

/-! ## Shapes -/

/-- The alignment that `slab_cache_create` rounds with. -/
def effective (alignment : UInt32) : UInt32 := if alignment ≠ 0 then alignment else 4

/-- The sizes of a cache whose slabs have room for an object. -/
structure Shape.Roomy (shape : Shape) : Prop where
  /-- Objects are not empty. -/
  object_positive : 0 < shape.objectSize.toNat
  /-- An object fits behind the header, its number and the padding. -/
  room : slabHeaderSize + shape.alignment.toNat + (shape.objectSize.toNat + 4) ≤
    shape.slabSize.toNat

/-- The sizes of a cache for objects of `size` bytes. -/
structure Shape.Valid (shape : Shape) (size : UInt32) : Prop where
  /-- Objects have some bytes. -/
  positive : 0 < size.toNat
  /-- Objects are at least as large as asked. -/
  size_le : size.toNat ≤ shape.objectSize.toNat
  /-- The alignment is zero or a power of two. -/
  power : PowerOfTwo (effective shape.alignment)
  /-- Objects are multiples of the alignment. -/
  aligned : (effective shape.alignment).toNat ∣ shape.objectSize.toNat
  /-- A slab is a block of pages. -/
  pages : ∃ i ≤ 10, shape.slabSize.toNat = 4096 * 2 ^ i
  /-- Several objects fit. -/
  small : shape.objectSize.toNat ≤ shape.slabSize.toNat / 9 - 8

/-- A power of two that is asked for, and a size that can be rounded up to it. -/
structure Sized (size alignment : UInt32) : Prop where
  /-- No alignment or a power of two. -/
  power : alignment = 0 ∨ PowerOfTwo alignment
  /-- Rounding up does not wrap. -/
  fits : size.toNat + ((effective alignment).toNat - 1) < 2 ^ 32

theorem Sized.effective {size alignment : UInt32} (sized : Sized size alignment) :
    PowerOfTwo (effective alignment) := by
  rw [Slab.effective]
  split
  · next some =>
      rcases sized.power with none | power
      · exact absurd none some
      · exact power
  · exact ⟨2, rfl⟩

/-- The sizes of slabs. -/
theorem findSlabSize_spec {objectSize slabSize : UInt32}
    (found : findSlabSize objectSize = some slabSize) :
    ∃ i ≤ 10, slabSize.toNat = 4096 * 2 ^ i ∧ objectSize.toNat ≤ slabSize.toNat / 9 - 8 := by
  rw [findSlabSize, Option.map_eq_some_iff] at found
  obtain ⟨i, search, rfl⟩ := found
  have member := List.mem_of_find?_eq_some search
  have fits := List.find?_some search
  rw [List.mem_range, pageMaxDepth] at member
  rw [decide_eq_true_iff, UInt32.le_iff_toNat_le] at fits
  refine ⟨i, by omega, ?_⟩
  -- Only eleven sizes are left.
  have cases : i = 0 ∨ i = 1 ∨ i = 2 ∨ i = 3 ∨ i = 4 ∨ i = 5 ∨ i = 6 ∨ i = 7 ∨ i = 8 ∨ i = 9 ∨
      i = 10 := by omega
  rcases cases with rfl | rfl | rfl | rfl | rfl | rfl | rfl | rfl | rfl | rfl | rfl <;>
    exact ⟨by decide, fits⟩

/-- `slab_cache_create` makes a cache without slabs. -/
theorem slabCacheCreate_empty {length : Nat} {size alignment : UInt32} {s : State}
    (created : slabCacheCreate length size alignment = some s) :
    s.slabsFull = none ∧ s.slabsPartial = none ∧ s.slabs = [] := by
  rw [slabCacheCreate] at created
  split at created
  · cases created
  · split at created
    · cases created
    · rw [Option.map_eq_some_iff] at created
      obtain ⟨slabSize, -, rfl⟩ := created
      exact ⟨rfl, rfl, rfl⟩

/-- The sizes of the caches that `slab_cache_create` makes. -/
theorem slabCacheCreate_valid {length : Nat} {size alignment : UInt32} {s : State}
    (sized : Sized size alignment) (created : slabCacheCreate length size alignment = some s) :
    s.shape.Valid size := by
  rw [slabCacheCreate] at created
  split at created
  · cases created
  · next some =>
      split at created
      · cases created
      · rw [Option.map_eq_some_iff] at created
        obtain ⟨slabSize, found, rfl⟩ := created
        obtain ⟨i, i_le, pages, small⟩ := findSlabSize_spec found
        have power := sized.effective
        have positive := power.positive
        have aligned := round_up_dvd power sized.fits
        have size_le := (round_up_bounds positive sized.fits).1
        -- The rounded size is the one that `round_up_dvd` is about.
        have rounded : (roundedSize size alignment).toNat =
            ((size.toNat + (effective alignment - 1).toNat) &&&
              (~~~(effective alignment - 1)).toNat) := by
          have sum : (size + effective alignment - 1).toNat =
              size.toNat + (effective alignment - 1).toNat := by
            have less := (toNat_mask positive).2
            have fits := sized.fits
            have regrouped : size + effective alignment - 1 = size + (effective alignment - 1) := by
              rw [UInt32.sub_eq_add_neg, UInt32.sub_eq_add_neg, UInt32.add_assoc]
            rw [regrouped, UInt32.toNat_add, less, Nat.mod_eq_of_lt fits]
          rw [roundedSize, UInt32.toNat_and, ← sum]
          rfl
        refine ⟨?_, ?_, power, ?_, ⟨i, i_le, pages⟩, small⟩
        · rw [Nat.pos_iff_ne_zero]
          intro zero
          exact some (UInt32.toNat_inj.mp zero)
        · dsimp only
          rw [rounded]
          exact size_le
        · dsimp only
          rw [rounded]
          exact aligned

/-! ## Objects -/

/-- The number of objects of a slab. -/
def Shape.count (shape : Shape) : Nat := (slabMaxObjectNum shape).toNat

namespace Shape.Roomy

variable {shape : Shape}

/-- `slab_max_object_num` does not wrap. -/
theorem count_eq (roomy : shape.Roomy) :
    shape.count = (shape.slabSize.toNat - slabHeaderSize - shape.alignment.toNat) /
      (shape.objectSize.toNat + 4) := by
  have room := roomy.room
  have bounded := shape.slabSize.toNat_lt
  have first : (shape.slabSize.toUInt64 - UInt64.ofNat slabHeaderSize).toNat =
      shape.slabSize.toNat - slabHeaderSize := by
    rw [UInt64.toNat_sub_of_le]
    · rfl
    · rw [UInt64.le_iff_toNat_le, UInt32.toNat_toUInt64]
      change slabHeaderSize ≤ _
      omega
  have second : (shape.slabSize.toUInt64 - UInt64.ofNat slabHeaderSize -
      shape.alignment.toUInt64).toNat =
      shape.slabSize.toNat - slabHeaderSize - shape.alignment.toNat := by
    rw [UInt64.toNat_sub_of_le, first, UInt32.toNat_toUInt64]
    rw [UInt64.le_iff_toNat_le, first, UInt32.toNat_toUInt64]
    omega
  have third : (shape.objectSize.toUInt64 + 4).toNat = shape.objectSize.toNat + 4 := by
    have object_lt := shape.objectSize.toNat_lt
    rw [UInt64.toNat_add, UInt32.toNat_toUInt64]
    change (shape.objectSize.toNat + 4) % 2 ^ 64 = _
    omega
  rw [Shape.count, slabMaxObjectNum, UInt64.toNat_toUInt32, UInt64.toNat_div, second, third]
  apply Nat.mod_eq_of_lt
  have quotient := Nat.div_le_self
    (shape.slabSize.toNat - slabHeaderSize - shape.alignment.toNat) (shape.objectSize.toNat + 4)
  omega

/-- There is an object, and the header, the numbers and the objects fit. -/
theorem count_fits (roomy : shape.Roomy) :
    0 < shape.count ∧
      slabHeaderBytes + 4 * (shape.count + 1) + shape.alignment.toNat +
        shape.count * shape.objectSize.toNat ≤ shape.slabSize.toNat := by
  have room := roomy.room
  have header : slabHeaderSize = 28 := rfl
  rw [header] at room
  rw [roomy.count_eq, header, slabHeaderBytes]
  constructor
  · apply Nat.div_pos
    · omega
    · omega
  · have product := Nat.div_mul_le_self (shape.slabSize.toNat - 28 - shape.alignment.toNat)
      (shape.objectSize.toNat + 4)
    rw [Nat.mul_add] at product
    omega

theorem count_lt (roomy : shape.Roomy) : shape.count < 2 ^ 30 := by
  have fits := roomy.count_fits.2
  have bounded := shape.slabSize.toNat_lt
  omega

/-- The number of objects is no mark. -/
theorem count_ne_end (roomy : shape.Roomy) : slabMaxObjectNum shape ≠ slabFreeEnd := by
  intro same
  have less := roomy.count_lt
  rw [Shape.count, same] at less
  exact absurd less (by decide)

/-- The objects of a slab lie behind the numbers. -/
theorem objectStart_bounds (roomy : shape.Roomy) {slab : Nat}
    (inside : slab + shape.slabSize.toNat ≤ 2 ^ 32) :
    slab + slabHeaderBytes + 4 * (shape.count + 1) ≤ objectStart shape slab ∧
      objectStart shape slab + shape.count * shape.objectSize.toNat ≤
        slab + shape.slabSize.toNat := by
  have fits := roomy.count_fits.2
  have product : 1 ≤ shape.count * shape.objectSize.toNat :=
    Nat.mul_pos roomy.count_fits.1 roomy.object_positive
  rw [objectStart]
  split
  · next asked =>
      have positive : 0 < shape.alignment.toNat := by
        rw [Nat.pos_iff_ne_zero]
        exact fun zero => asked (UInt32.toNat_inj.mp zero)
      have start_small : slab + slabHeaderBytes + 4 * (shape.count + 1) +
          (shape.alignment.toNat - 1) < 2 ^ 32 := by omega
      obtain ⟨lower, upper⟩ := round_up_bounds positive start_small
      rw [Shape.count] at *
      exact ⟨lower, by omega⟩
  · rw [Shape.count] at *
    exact ⟨le_rfl, by omega⟩

/-- The offset of an object does not wrap. -/
theorem offset_eq (roomy : shape.Roomy) {index : UInt32} (index_lt : index.toNat < shape.count) :
    (shape.objectSize * index).toNat = shape.objectSize.toNat * index.toNat := by
  have fits := roomy.count_fits.2
  have bounded := shape.slabSize.toNat_lt
  have less := Nat.mul_le_mul_right shape.objectSize.toNat index_lt.le
  rw [UInt32.toNat_mul, Nat.mul_comm]
  apply Nat.mod_eq_of_lt
  omega

end Shape.Roomy

namespace Shape.Valid

variable {shape : Shape} {size : UInt32}

theorem object_positive (valid : shape.Valid size) : 0 < shape.objectSize.toNat :=
  valid.positive.trans_le valid.size_le

theorem alignment_le (valid : shape.Valid size) :
    shape.alignment.toNat ≤ shape.objectSize.toNat := by
  have divides := valid.aligned
  rw [effective] at divides
  split at divides
  · exact Nat.le_of_dvd valid.object_positive divides
  · next none =>
      rw [not_not] at none
      rw [none]
      exact Nat.zero_le _

theorem slabSize_bounds (valid : shape.Valid size) :
    4096 ≤ shape.slabSize.toNat ∧ shape.slabSize.toNat ≤ 2 ^ 22 := by
  obtain ⟨i, i_le, pages⟩ := valid.pages
  have low := Nat.one_le_two_pow (n := i)
  have high := Nat.pow_le_pow_right (show 0 < 2 by decide) i_le
  omega

theorem roomy (valid : shape.Valid size) : shape.Roomy := by
  have alignment_le := valid.alignment_le
  have small := valid.small
  have low := valid.slabSize_bounds.1
  have header : slabHeaderSize = 28 := rfl
  refine ⟨valid.object_positive, ?_⟩
  omega

/-- The objects of a slab are aligned. -/
theorem objectStart_dvd (valid : shape.Valid size) {slab : Nat} (pages : pageSize ∣ slab)
    (inside : slab + shape.slabSize.toNat ≤ 2 ^ 32) :
    (effective shape.alignment).toNat ∣ objectStart shape slab := by
  have fits := valid.roomy.count_fits.2
  have power := valid.power
  have product : 1 ≤ shape.count * shape.objectSize.toNat :=
    Nat.mul_pos valid.roomy.count_fits.1 valid.object_positive
  rw [effective] at power ⊢
  rw [objectStart]
  split
  · next asked =>
      rw [if_pos asked] at power
      have start_small : slab + slabHeaderBytes + 4 * (shape.count + 1) +
          (shape.alignment.toNat - 1) < 2 ^ 32 := by omega
      exact round_up_dvd power start_small
  · have slab_aligned : 4 ∣ slab := (show 4 ∣ pageSize by decide).trans pages
    rw [slabHeaderBytes]
    change 4 ∣ _
    omega

/-- The limits leave room for eight objects, whatever the alignment takes. -/
theorem eight_le_count (valid : shape.Valid size) : 8 ≤ shape.count := by
  have alignment_le := valid.alignment_le
  have small := valid.small
  obtain ⟨low, high⟩ := valid.slabSize_bounds
  have header : slabHeaderSize = 28 := rfl
  rw [valid.roomy.count_eq, header, Nat.le_div_iff_mul_le (by omega)]
  omega

/-- The padding in front of the objects is shorter than the alignment. -/
theorem padding_lt (valid : shape.Valid size) {slab : Nat}
    (inside : slab + shape.slabSize.toNat ≤ 2 ^ 32) :
    objectStart shape slab <
      slab + slabHeaderBytes + 4 * (shape.count + 1) + (effective shape.alignment).toNat := by
  have fits := valid.roomy.count_fits.2
  have power := valid.power
  have product : 1 ≤ shape.count * shape.objectSize.toNat :=
    Nat.mul_pos valid.roomy.count_fits.1 valid.object_positive
  rw [effective] at power ⊢
  rw [objectStart]
  split
  · next asked =>
      rw [if_pos asked] at power
      have start_small : slab + slabHeaderBytes + 4 * (shape.count + 1) +
          (shape.alignment.toNat - 1) < 2 ^ 32 := by omega
      have alignment_positive := power.positive
      have upper := (round_up_bounds alignment_positive start_small).2
      rw [Shape.count] at *
      exact upper.trans_lt (by omega)
  · rw [Shape.count]
    exact Nat.lt_add_of_pos_right (by decide)

end Shape.Valid

/-! ## The slabs of a cache -/

/-- The parts of a new slab lie behind one another inside its block, and an object gives back its
number. -/
structure LaidOut (s : State) (slab : Nat) : Prop where
  /-- At least eight objects. -/
  eight_le : 8 ≤ s.shape.count
  /-- The header and `count + 1` numbers lie before the objects. -/
  numbers : slab + slabHeaderBytes + 4 * (s.shape.count + 1) ≤ (s.header slab).object
  /-- Only padding for the alignment lies between. -/
  padding : (s.header slab).object <
    slab + slabHeaderBytes + 4 * (s.shape.count + 1) + (effective s.shape.alignment).toNat
  /-- Objects follow one another. -/
  address_eq : ∀ index : UInt32, index.toNat < s.shape.count →
    s.address slab index = (s.header slab).object + index.toNat * s.shape.objectSize.toNat
  /-- The last object ends inside the slab. -/
  ends : (s.header slab).object + s.shape.count * s.shape.objectSize.toNat ≤
    slab + s.shape.slabSize.toNat
  /-- Every object is aligned. -/
  aligned : ∀ index : UInt32, index.toNat < s.shape.count →
    (effective s.shape.alignment).toNat ∣ s.address slab index
  /-- The number of an object, as `slab_cache_free` computes it. -/
  number : ∀ index : UInt32, index.toNat < s.shape.count →
    UInt32.ofNat ((s.address slab index - (s.header slab).object) / s.shape.objectSize.toNat) =
      index

/-- `slab_new` lays out every slab of a cache that `slab_cache_create` made. -/
theorem slabNew_laidOut {length : Nat} {size alignment : UInt32} {created s : State} {slab : Nat}
    (sized : Sized size alignment)
    (create : slabCacheCreate length size alignment = some created)
    (same : s.shape = created.shape) (pages : pageSize ∣ slab)
    (below : slab + s.shape.slabSize.toNat ≤ 2 ^ 32) :
    size.toNat ≤ s.shape.objectSize.toNat ∧ LaidOut (slabNew s slab) slab := by
  have valid : s.shape.Valid size := by
    rw [same]
    exact slabCacheCreate_valid sized create
  have object_eq : ((slabNew s slab).header slab).object = objectStart s.shape slab := by
    simp [slabNew]
  have shape_eq : (slabNew s slab).shape = s.shape := rfl
  obtain ⟨lower, upper⟩ := valid.roomy.objectStart_bounds below
  have start_aligned := valid.objectStart_dvd pages below
  have address_eq : ∀ index : UInt32, index.toNat < s.shape.count →
      (slabNew s slab).address slab index =
        objectStart s.shape slab + index.toNat * s.shape.objectSize.toNat := by
    intro index index_lt
    rw [State.address, object_eq, shape_eq, valid.roomy.offset_eq index_lt, Nat.mul_comm]
  refine ⟨valid.size_le, ?_⟩
  constructor
  · exact valid.eight_le_count
  · rw [object_eq]
    exact lower
  · rw [object_eq]
    exact valid.padding_lt below
  · rw [object_eq]
    exact address_eq
  · rw [object_eq]
    exact upper
  · intro index index_lt
    rw [address_eq index index_lt]
    exact Nat.dvd_add start_aligned (valid.aligned.mul_left _)
  · intro index index_lt
    rw [address_eq index index_lt, object_eq, shape_eq, Nat.add_sub_cancel_left,
      Nat.mul_div_cancel _ valid.object_positive, UInt32.ofNat_toNat]

/-- The cache of 100-byte objects at 32-byte boundaries, in the block at `0x80601000`. -/
theorem slabNew_laidOut_hundred :
    ∃ created, slabCacheCreate 4 100 32 = some created ∧
      LaidOut (slabNew created 0x80601000) 0x80601000 := by
  have create : slabCacheCreate 4 100 32 =
      some ⟨⟨4096, 128, 32⟩, none, none, fun _ => ⟨none, 0, 0⟩, fun _ _ => 0, []⟩ := rfl
  have sized : Sized 100 32 := ⟨Or.inr ⟨5, rfl⟩, by decide⟩
  exact ⟨_, create, (slabNew_laidOut sized create rfl (by decide) (by decide)).2⟩

end Slab
end Xv6Duo
