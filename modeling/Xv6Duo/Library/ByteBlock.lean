import Mathlib.Data.Nat.Bitwise
import Mathlib.Data.UInt
import Mathlib.Tactic

/-!
# Words, bits and ranges of a byte array

A byte array is a function from positions to bytes. The same bytes can be read as an array of
little-endian 32-bit words, as a bit array with the least significant bit of each byte first, or
copied range by range. Every write is described by its effect on the reads of the same kind.
-/

namespace ByteBlock

/-- A byte array, addressed by position. -/
abbrev Bytes := Nat → UInt8

/-! ## Words -/

/-- Byte `k` of a word, the least significant first. -/
def wordByte (value : UInt32) (k : Nat) : UInt8 := UInt8.ofNat (value.toNat / 256 ^ k)

/-- The little-endian word at index `i`. -/
def getWord (bytes : Bytes) (i : Nat) : UInt32 :=
  UInt32.ofNat ((bytes (4 * i)).toNat + 256 * (bytes (4 * i + 1)).toNat +
    65536 * (bytes (4 * i + 2)).toNat + 16777216 * (bytes (4 * i + 3)).toNat)

/-- Store a little-endian word at index `i`. -/
def setWord (bytes : Bytes) (i : Nat) (value : UInt32) : Bytes :=
  fun k => if k / 4 = i then wordByte value (k % 4) else bytes k

theorem getWord_congr {left right : Bytes} {i : Nat}
    (agree : ∀ k, k / 4 = i → left k = right k) : getWord left i = getWord right i := by
  simp only [getWord]
  rw [agree (4 * i) (by omega), agree (4 * i + 1) (by omega), agree (4 * i + 2) (by omega),
    agree (4 * i + 3) (by omega)]

@[simp]
theorem getWord_setWord_self (bytes : Bytes) (i : Nat) (value : UInt32) :
    getWord (setWord bytes i value) i = value := by
  have upper := value.toNat_lt
  have at_zero : setWord bytes i value (4 * i) = wordByte value 0 := by
    rw [setWord, if_pos (by omega), show 4 * i % 4 = 0 by omega]
  have at_one : setWord bytes i value (4 * i + 1) = wordByte value 1 := by
    rw [setWord, if_pos (by omega), show (4 * i + 1) % 4 = 1 by omega]
  have at_two : setWord bytes i value (4 * i + 2) = wordByte value 2 := by
    rw [setWord, if_pos (by omega), show (4 * i + 2) % 4 = 2 by omega]
  have at_three : setWord bytes i value (4 * i + 3) = wordByte value 3 := by
    rw [setWord, if_pos (by omega), show (4 * i + 3) % 4 = 3 by omega]
  apply UInt32.toNat_inj.mp
  rw [getWord, at_zero, at_one, at_two, at_three]
  simp only [wordByte, UInt32.toNat_ofNat', UInt8.toNat_ofNat']
  omega

theorem getWord_setWord_of_ne (bytes : Bytes) {i j : Nat} (value : UInt32) (differ : j ≠ i) :
    getWord (setWord bytes i value) j = getWord bytes j := by
  refine getWord_congr fun k index_eq => ?_
  rw [setWord, if_neg]
  omega

theorem getWord_setWord (bytes : Bytes) (i j : Nat) (value : UInt32) :
    getWord (setWord bytes i value) j = if j = i then value else getWord bytes j := by
  split
  · next same => rw [same, getWord_setWord_self]
  · next differ => exact getWord_setWord_of_ne bytes value differ

/-- The array of zero bytes. -/
def zeros : Bytes := fun _ => 0

@[simp]
theorem getWord_zeros (i : Nat) : getWord zeros i = 0 := rfl

/-- The array with the given words. -/
def ofWords (word : Nat → UInt32) : Bytes := fun k => wordByte (word (k / 4)) (k % 4)

@[simp]
theorem getWord_ofWords (word : Nat → UInt32) (i : Nat) : getWord (ofWords word) i = word i := by
  have agree : ∀ k, k / 4 = i → ofWords word k = setWord zeros i (word i) k := by
    intro k index_eq
    rw [ofWords, setWord, if_pos index_eq, index_eq]
  rw [getWord_congr agree, getWord_setWord_self]

/-! ## Bits -/

/-- The bit at index `i`. -/
def getBit (bytes : Bytes) (i : Nat) : Bool :=
  bytes (i / 8) &&& (1 <<< UInt8.ofNat (i % 8)) != 0

/-- Set the bit at index `i`. -/
def setBit (bytes : Bytes) (i : Nat) : Bytes :=
  Function.update bytes (i / 8) (bytes (i / 8) ||| (1 <<< UInt8.ofNat (i % 8)))

/-- Clear the bit at index `i`. -/
def clearBit (bytes : Bytes) (i : Nat) : Bytes :=
  Function.update bytes (i / 8) (bytes (i / 8) &&& ~~~(1 <<< UInt8.ofNat (i % 8)))

/-- The mask of bit `k` tests bit `k` of a byte. -/
private theorem mask_eq (byte : UInt8) {k : Nat} (k_lt : k < 8) :
    (byte &&& (1 <<< UInt8.ofNat k) != 0) = byte.toNat.testBit k := by
  have shift : (1 <<< UInt8.ofNat k : UInt8).toNat = 2 ^ k := by
    interval_cases k <;> rfl
  have zero_iff : byte &&& (1 <<< UInt8.ofNat k) = 0 ↔ byte.toNat.testBit k = false := by
    rw [← UInt8.toNat_inj, UInt8.toNat_and, shift, UInt8.toNat_zero, Nat.and_comm, Nat.two_pow_and]
    cases byte.toNat.testBit k <;> simp
  cases bit : byte.toNat.testBit k with
  | false => simpa using zero_iff.mpr bit
  | true =>
      have nonzero := zero_iff.not.mpr (by simp [bit])
      simpa using nonzero

theorem getBit_eq (bytes : Bytes) (i : Nat) :
    getBit bytes i = (bytes (i / 8)).toNat.testBit (i % 8) :=
  mask_eq _ (by omega)

/-- The array in which every bit is set. -/
def ones : Bytes := fun _ => 255

@[simp]
theorem getBit_ones (i : Nat) : getBit ones i = true := by
  have set_bits : ∀ k < 8, (255 : UInt8).toNat.testBit k = true := by decide
  rw [getBit_eq]
  exact set_bits _ (by omega)

/-- The array in which the first `count` bits are set. -/
def firstBits (count : Nat) : Bytes := fun k => UInt8.ofNat (2 ^ min 8 (count - 8 * k) - 1)

@[simp]
theorem getBit_firstBits (count i : Nat) : getBit (firstBits count) i = decide (i < count) := by
  have small : 2 ^ min 8 (count - 8 * (i / 8)) ≤ 2 ^ 8 :=
    Nat.pow_le_pow_right (by decide) (min_le_left _ _)
  rw [getBit_eq, firstBits, UInt8.toNat_ofNat', Nat.mod_eq_of_lt (by omega),
    Nat.testBit_two_pow_sub_one, decide_eq_decide]
  omega

@[simp]
theorem getBit_zeros (i : Nat) : getBit zeros i = false := by
  rw [getBit_eq, zeros]
  simp

theorem getBit_setBit (bytes : Bytes) (i j : Nat) :
    getBit (setBit bytes i) j = (decide (j = i) || getBit bytes j) := by
  rw [getBit_eq, getBit_eq, setBit]
  by_cases same : j / 8 = i / 8
  · have shift : (1 <<< UInt8.ofNat (i % 8) : UInt8).toNat = 2 ^ (i % 8) := by
      have : i % 8 < 8 := by omega
      generalize i % 8 = k at *
      interval_cases k <;> rfl
    rw [same, Function.update_self, UInt8.toNat_or, Nat.testBit_or, shift, Nat.testBit_two_pow,
      Bool.or_comm, ← same]
    congr 1
    rw [decide_eq_decide]
    omega
  · rw [Function.update_of_ne same]
    have differ : j ≠ i := fun eq => same (by rw [eq])
    simp [differ]

theorem getBit_clearBit (bytes : Bytes) (i j : Nat) :
    getBit (clearBit bytes i) j = (!decide (j = i) && getBit bytes j) := by
  rw [getBit_eq, getBit_eq, clearBit]
  by_cases same : j / 8 = i / 8
  · have masked : ∀ k < 8, ∀ l < 8,
        (~~~(1 <<< UInt8.ofNat k) : UInt8).toNat.testBit l = !decide (l = k) := by decide
    rw [same, Function.update_self, UInt8.toNat_and, Nat.testBit_and,
      masked _ (by omega) _ (by omega), Bool.and_comm, ← same]
    congr 2
    rw [decide_eq_decide]
    omega
  · rw [Function.update_of_ne same]
    have differ : j ≠ i := fun eq => same (by rw [eq])
    simp [differ]

/-! ## Zero words -/

theorem getWord_eq_zero_iff (bytes : Bytes) (i : Nat) :
    getWord bytes i = 0 ↔ ∀ k, k / 4 = i → bytes k = 0 := by
  constructor
  · intro zero k index_eq
    have total := congrArg UInt32.toNat zero
    have first := (bytes (4 * i)).toNat_lt
    have second := (bytes (4 * i + 1)).toNat_lt
    have third := (bytes (4 * i + 2)).toNat_lt
    have fourth := (bytes (4 * i + 3)).toNat_lt
    simp only [getWord, UInt32.toNat_ofNat', UInt32.toNat_zero] at total
    apply UInt8.toNat_inj.mp
    rw [UInt8.toNat_zero]
    have cases : k = 4 * i ∨ k = 4 * i + 1 ∨ k = 4 * i + 2 ∨ k = 4 * i + 3 := by omega
    rcases cases with rfl | rfl | rfl | rfl <;> omega
  · intro bytes_zero
    have agree : ∀ k, k / 4 = i → bytes k = zeros k := bytes_zero
    rw [getWord_congr agree, getWord_zeros]

/-- Clearing a bit leaves zero words zero. -/
theorem getWord_clearBit_of_zero {bytes : Bytes} {j : Nat} (i : Nat) (zero : getWord bytes j = 0) :
    getWord (clearBit bytes i) j = 0 := by
  rw [getWord_eq_zero_iff] at zero ⊢
  intro k index_eq
  have byte := zero k index_eq
  by_cases same : k = i / 8
  · rw [clearBit, same, Function.update_self, ← same, byte, UInt8.zero_and]
  · rw [clearBit, Function.update_of_ne same, byte]

/-! ## Ranges -/

/-- Overwrite `length` bytes from `start` on with the bytes of `source` from `origin` on. -/
def copyRange (bytes : Bytes) (start : Nat) (source : Bytes) (origin length : Nat) : Bytes :=
  fun k => if start ≤ k ∧ k < start + length then source (origin + (k - start)) else bytes k

@[simp]
theorem copyRange_zero (bytes source : Bytes) (start origin : Nat) :
    copyRange bytes start source origin 0 = bytes := by
  funext k
  rw [copyRange, if_neg (by omega)]

/-- Copying from a position is copying from the source that starts there. -/
theorem copyRange_shift (bytes source : Bytes) (start base origin length : Nat) :
    copyRange bytes start source (base + origin) length =
      copyRange bytes start (fun k => source (base + k)) origin length := by
  funext k
  simp only [copyRange, Nat.add_assoc]

/-- A copy depends only on the copied bytes. -/
theorem copyRange_congr (bytes : Bytes) (start : Nat) {left right : Bytes}
    {first second length : Nat} (agree : ∀ k < length, left (first + k) = right (second + k)) :
    copyRange bytes start left first length = copyRange bytes start right second length := by
  funext k
  simp only [copyRange]
  split
  · exact agree _ (by omega)
  · rfl

/-- Copying two adjacent ranges is one copy. -/
theorem copyRange_copyRange (bytes source : Bytes) (start origin first second : Nat) :
    copyRange (copyRange bytes start source origin first) (start + first) source (origin + first)
      second = copyRange bytes start source origin (first + second) := by
  funext k
  simp only [copyRange]
  by_cases before : k < start + first
  · by_cases after : start ≤ k
    · rw [if_neg (by omega), if_pos ⟨after, before⟩, if_pos (by omega)]
    · rw [if_neg (by omega), if_neg (by omega), if_neg (by omega)]
  · by_cases inside : k < start + first + second
    · rw [if_pos (by omega), if_pos (by omega)]
      congr 1
      omega
    · rw [if_neg (by omega), if_neg (by omega), if_neg (by omega)]

end ByteBlock
