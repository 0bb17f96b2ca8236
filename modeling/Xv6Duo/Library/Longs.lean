import Xv6Duo.Library.ByteBlock

/-!
# Long words and strings in a byte array

A long word has eight bytes, the least significant first, and a string ends at its first zero byte.
Lists of long words stand one after another.
-/

namespace ByteBlock

variable {data other : Bytes} {a n : Nat}

/-! ## Long words -/

/-- The number whose `n` bytes begin at `a`, the least significant first. -/
def littleEndian (data : Bytes) (a : Nat) : Nat → Nat
  | 0 => 0
  | n + 1 => (data a).toNat + 256 * littleEndian data (a + 1) n

theorem littleEndian_eq {value : Nat}
    (stored : ∀ j < n, data (a + j) = UInt8.ofNat (value / 256 ^ j)) :
    littleEndian data a n = value % 256 ^ n := by
  induction n generalizing a value with
  | zero => rw [littleEndian, Nat.pow_zero, Nat.mod_one]
  | succ n ih =>
      have first := stored 0 (Nat.succ_pos n)
      rw [Nat.add_zero, Nat.pow_zero, Nat.div_one] at first
      have rest : littleEndian data (a + 1) n = value / 256 % 256 ^ n := by
        refine ih fun j j_lt => ?_
        rw [Nat.add_assoc, Nat.add_comm 1 j, stored (j + 1) (Nat.succ_lt_succ j_lt), Nat.pow_succ',
          Nat.div_div_eq_div_mul]
      calc
        littleEndian data a (n + 1) = value % 256 + 256 * (value / 256 % 256 ^ n) := by
          rw [littleEndian, rest, first, UInt8.toNat_ofNat']
        _ = value % 256 ^ (n + 1) := by rw [Nat.pow_succ', Nat.mod_mul]

theorem littleEndian_congr {b : Nat} (agree : ∀ j < n, data (a + j) = other (b + j)) :
    littleEndian data a n = littleEndian other b n := by
  induction n generalizing a b with
  | zero => rfl
  | succ n ih =>
      have first := agree 0 (Nat.succ_pos n)
      rw [Nat.add_zero, Nat.add_zero] at first
      have rest : littleEndian data (a + 1) n = littleEndian other (b + 1) n := by
        refine ih fun j j_lt => ?_
        rw [Nat.add_assoc, Nat.add_assoc, Nat.add_comm 1 j]
        exact agree (j + 1) (Nat.succ_lt_succ j_lt)
      rw [littleEndian, littleEndian, first, rest]

/-- Byte `k` of a long word. -/
def longByte (value : UInt64) (k : Nat) : UInt8 := UInt8.ofNat (value.toNat / 256 ^ k)

/-- The long word at `a`. -/
def getLong (data : Bytes) (a : Nat) : UInt64 := UInt64.ofNat (littleEndian data a 8)

theorem getLong_eq {value : UInt64} (stored : ∀ j < 8, data (a + j) = longByte value j) :
    getLong data a = value := by
  have limit : value.toNat < 256 ^ 8 := value.toNat_lt
  rw [getLong, littleEndian_eq stored, Nat.mod_eq_of_lt limit, UInt64.ofNat_toNat]

/-- A long word that has been copied. -/
theorem getLong_copyRange (b : Nat) : getLong (copyRange data a other b 8) a = getLong other b := by
  have copied : ∀ j < 8, copyRange data a other b 8 (a + j) = other (b + j) := fun j j_lt => by
    rw [copyRange, if_pos (by omega), Nat.add_sub_cancel_left]
  rw [getLong, littleEndian_congr copied]
  rfl

/-- The long words of a list stand one after another from `a` on. -/
def Longs (data : Bytes) : Nat → List UInt64 → Prop
  | _, [] => True
  | a, value :: rest => getLong data a = value ∧ Longs data (a + 8) rest

theorem longs_append {first second : List UInt64} :
    Longs data a (first ++ second) ↔
      Longs data a first ∧ Longs data (a + 8 * first.length) second := by
  induction first generalizing a with
  | nil =>
      rw [List.nil_append, List.length_nil, Nat.mul_zero, Nat.add_zero]
      exact ⟨fun shown => ⟨trivial, shown⟩, fun both => both.2⟩
  | cons value rest ih =>
      rw [List.cons_append, Longs, Longs, ih, and_assoc, List.length_cons, Nat.mul_succ,
        Nat.add_assoc, Nat.add_comm 8]

/-- A list of long words as a byte array. -/
def ofLongs (longs : List UInt64) : Bytes := fun k => longByte (longs.getD (k / 8) 0) (k % 8)

theorem longs_of_stored {longs : List UInt64}
    (stored : ∀ j < 8 * longs.length, data (a + j) = ofLongs longs j) : Longs data a longs := by
  induction longs generalizing a with
  | nil => trivial
  | cons value rest ih =>
      rw [List.length_cons] at stored
      refine ⟨getLong_eq fun j j_lt => ?_, ih fun j j_lt => ?_⟩
      · rw [stored j (by omega), ofLongs, Nat.div_eq_of_lt j_lt, Nat.mod_eq_of_lt j_lt]
        rfl
      · rw [Nat.add_assoc, stored (8 + j) (by omega), ofLongs, ofLongs, Nat.add_mod_left,
          Nat.add_div_left j (by decide)]
        rfl

theorem Longs.congr {longs : List UInt64} (shown : Longs data a longs)
    (agree : ∀ j < 8 * longs.length, other (a + j) = data (a + j)) : Longs other a longs := by
  induction longs generalizing a with
  | nil => trivial
  | cons value rest ih =>
      obtain ⟨first, shown⟩ := shown
      rw [List.length_cons] at agree
      refine ⟨?_, ih shown fun j j_lt => ?_⟩
      · rw [getLong, littleEndian_congr fun j j_lt => agree j (by omega)]
        exact first
      · rw [Nat.add_assoc]
        exact agree (8 + j) (by omega)

/-! ## Strings -/

/-- A string without its terminator. -/
structure CString where
  /-- Characters. -/
  chars : List UInt8
  /-- None of them ends the string. -/
  nonzero : 0 ∉ chars

/-- `strlen`. -/
def CString.strlen (s : CString) : Nat := s.chars.length

/-- A string as a byte array. -/
def CString.bytes (s : CString) : Bytes := fun k => s.chars.getD k 0

/-- A copy of a string with its terminator stands at `a`. -/
def StringAt (data : Bytes) (a : Nat) (s : CString) : Prop :=
  ∀ k < s.strlen + 1, data (a + k) = s.bytes k

theorem StringAt.congr {s : CString} (shown : StringAt data a s)
    (agree : ∀ k < s.strlen + 1, other (a + k) = data (a + k)) : StringAt other a s := by
  intro k k_lt
  rw [agree k k_lt, shown k k_lt]

end ByteBlock
