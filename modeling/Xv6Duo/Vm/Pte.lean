import Mathlib.Tactic
import Xv6Duo.Vm.Model

/-!
# Words of page tables

An entry holds a physical page and flags in separate bits, and a page address below `MAXVA` is the
same as its three indices.
-/

namespace Xv6Duo
namespace Vm

/-! ## Entries -/

theorem testBit_flagMask (i : Nat) :
    flagMask.testBit i = (decide (i < 10) || (decide (59 ≤ i) && decide (i < 64))) := by
  have shape : flagMask = (2 ^ 10 - 1) ||| ((2 ^ 5 - 1) <<< 59) := by decide
  rw [shape, Nat.testBit_or, Nat.testBit_two_pow_sub_one, Nat.testBit_shiftLeft,
    Nat.testBit_two_pow_sub_one]
  grind

theorem testBit_pa2pte (pa i : Nat) :
    (pa2pte pa).testBit i = (decide (10 ≤ i) && pa.testBit (i + 2)) := by
  rw [pa2pte, Nat.testBit_shiftLeft, Nat.testBit_shiftRight]
  by_cases high : 10 ≤ i
  · have shift : 12 + (i - 10) = i + 2 := by omega
    rw [shift]
  · simp [high]

theorem testBit_pte2pa (pte i : Nat) :
    (pte2pa pte).testBit i =
      (decide (12 ≤ i) && (pte.testBit (i - 2) && decide (i < 61))) := by
  have mask : 2 ^ 64 - 1 - pteAttributes = 2 ^ 59 - 1 := by decide
  rw [pte2pa, mask, Nat.testBit_shiftLeft, Nat.testBit_shiftRight, Nat.testBit_and,
    Nat.testBit_two_pow_sub_one]
  by_cases high : 12 ≤ i
  · have shift : 10 + (i - 12) = i - 2 := by omega
    have bound : i - 2 < 59 ↔ i < 61 := by omega
    rw [shift]
    simp only [bound]
  · simp [high]

/-- A physical page address. -/
def IsPage (pa : Nat) : Prop := pgsize ∣ pa ∧ pa < 2 ^ 56

/-- Bits 0 to 9 and 59 to 63. -/
def IsFlags (flags : Nat) : Prop := flags &&& flagMask = flags

/-- A page address that fits into an entry. -/
def IsFrame (pa : Nat) : Prop := pgsize ∣ pa ∧ pa < 2 ^ 61

instance (pa : Nat) : Decidable (IsPage pa) := inferInstanceAs (Decidable (_ ∧ _))

instance (flags : Nat) : Decidable (IsFlags flags) := inferInstanceAs (Decidable (_ = _))

theorem IsPage.isFrame {pa : Nat} (is_page : IsPage pa) : IsFrame pa :=
  ⟨is_page.1, is_page.2.trans (by decide)⟩

theorem IsFrame.testBit {pa i : Nat} (is_frame : IsFrame pa) (set : pa.testBit i = true) :
    12 ≤ i ∧ i < 61 := by
  constructor
  · by_contra low
    obtain ⟨k, rfl⟩ := is_frame.1
    have shape : pgsize * k = k <<< 12 := by
      rw [Nat.shiftLeft_eq, Nat.mul_comm]
      rfl
    rw [shape, Nat.testBit_shiftLeft] at set
    simp only [ge_iff_le, low, decide_false, Bool.false_and] at set
    exact Bool.false_ne_true set
  · by_contra high
    rw [Nat.testBit_lt_two_pow (is_frame.2.trans_le (Nat.pow_le_pow_right (by decide)
      (by omega)))] at set
    exact Bool.false_ne_true set

theorem IsFlags.testBit {flags i : Nat} (is_flags : IsFlags flags) (set : flags.testBit i = true) :
    i < 10 ∨ 59 ≤ i ∧ i < 64 := by
  rw [← is_flags, Nat.testBit_and, testBit_flagMask] at set
  simp only [Bool.and_eq_true, Bool.or_eq_true, decide_eq_true_eq] at set
  exact set.2

/-- The page of an entry. -/
theorem pte2pa_or {pa flags : Nat} (is_frame : IsFrame pa) (is_flags : IsFlags flags) :
    pte2pa (pa2pte pa ||| flags) = pa := by
  apply Nat.eq_of_testBit_eq
  intro i
  rw [testBit_pte2pa, Nat.testBit_or, testBit_pa2pte]
  have page_bits := is_frame.testBit (i := i)
  have flag_bits := is_flags.testBit (i := i - 2)
  by_cases inside : 12 ≤ i ∧ i < 61
  · have shift : i - 2 + 2 = i := by omega
    have no_flag : flags.testBit (i - 2) = false := by
      by_contra set
      have position := flag_bits (by simpa using set)
      omega
    rw [shift, no_flag]
    simp only [inside.1, inside.2, decide_true, Bool.true_and, Bool.or_false, Bool.and_true]
    simp only [show 10 ≤ i - 2 by omega, decide_true, Bool.true_and]
  · have no_bit : pa.testBit i = false := by
      by_contra set
      have position := page_bits (by simpa using set)
      omega
    rw [no_bit]
    grind

/-- The flags of an entry. -/
theorem pteFlags_or {pa flags : Nat} (is_frame : IsFrame pa) (is_flags : IsFlags flags) :
    pteFlags (pa2pte pa ||| flags) = flags := by
  apply Nat.eq_of_testBit_eq
  intro i
  rw [pteFlags, Nat.testBit_and, Nat.testBit_or, testBit_pa2pte, testBit_flagMask]
  have page_bits := is_frame.testBit (i := i + 2)
  have flag_bits := is_flags.testBit (i := i)
  grind

/-- The page of any entry is a page address. -/
theorem isFrame_pte2pa (pte : Nat) : IsFrame (pte2pa pte) := by
  have mask : 2 ^ 64 - 1 - pteAttributes = 2 ^ 59 - 1 := by decide
  rw [pte2pa, mask, Nat.and_two_pow_sub_one_eq_mod, Nat.shiftLeft_eq, Nat.shiftRight_eq_div_pow]
  constructor
  · exact Nat.dvd_mul_left ..
  · omega

theorem isFlags_pteFlags (pte : Nat) : IsFlags (pteFlags pte) := by
  rw [IsFlags, pteFlags, Nat.and_assoc, Nat.and_self]

theorem valid_iff {pte : Nat} : pte &&& pteV ≠ 0 ↔ pte.testBit 0 = true := by
  have one : pte &&& pteV = pte % 2 := Nat.and_one_is_mod pte
  rw [one, Nat.testBit_zero, decide_eq_true_iff]
  omega

/-- The flags of a valid entry have `PTE_V`. -/
theorem pteFlags_or_pteV {pte : Nat} (valid : pte &&& pteV ≠ 0) :
    pteFlags pte ||| pteV = pteFlags pte := by
  apply Nat.eq_of_testBit_eq
  intro i
  rw [Nat.testBit_or]
  by_cases first : i = 0
  · have mask : flagMask.testBit 0 = true := by decide
    rw [first, pteFlags, Nat.testBit_and, mask, valid_iff.mp valid]
    rfl
  · have clear : pteV.testBit i = false := by
      rw [Bool.eq_false_iff]
      exact fun set => first (Nat.testBit_one_eq_true_iff_self_eq_zero.mp set)
    rw [clear, Bool.or_false]

theorem IsFlags.or {flags other : Nat} (is_flags : IsFlags flags) (is_other : IsFlags other) :
    IsFlags (flags ||| other) := by
  rw [IsFlags, Nat.and_or_distrib_right, is_flags, is_other]

/-- The flags that `mappages` sets. -/
theorem IsFlags.mapped {perm : Nat} (is_perm : IsFlags perm) :
    IsFlags (perm ||| pteV ||| pteA ||| pteD) :=
  ((is_perm.or (by decide)).or (by decide)).or (by decide)

/-- The entry that `mappages` stores. -/
theorem entry_eq (pa perm : Nat) :
    pa2pte pa ||| perm ||| pteV ||| pteA ||| pteD =
      pa2pte pa ||| (perm ||| pteV ||| pteA ||| pteD) := by
  simp only [Nat.or_assoc]

theorem entry_testBit (pa perm : Nat) :
    (pa2pte pa ||| perm ||| pteV ||| pteA ||| pteD).testBit 0 = true ∧
      (pa2pte pa ||| perm ||| pteV ||| pteA ||| pteD).testBit 6 = true := by
  have bits : pteV.testBit 0 = true ∧ pteA.testBit 6 = true := by decide
  simp only [Nat.testBit_or, bits, Bool.or_true, Bool.true_or, and_self]

/-- An entry that was used is a leaf for `uvmunmap`. -/
theorem flags_ne_of_testBit {pte : Nat} (used : pte.testBit 6 = true) :
    pteFlags pte &&& 0x3FF ≠ pteV := by
  intro same
  have bit := congrArg (Nat.testBit · 6) same
  simp only [pteFlags, Nat.testBit_and, used] at bit
  revert bit
  decide

/-! ## Addresses -/

theorem px_val (level va : Nat) : (px level va).val = va / 2 ^ pxshift level % 512 := by
  rw [px, ← Nat.shiftRight_eq_div_pow]
  exact Nat.and_two_pow_sub_one_eq_mod _ 9

/-- Page addresses with the same indices are the same. -/
theorem eq_of_px {va other : Nat} (va_page : pgsize ∣ va) (other_page : pgsize ∣ other)
    (va_low : va < maxva) (other_low : other < maxva) (same2 : px 2 va = px 2 other)
    (same1 : px 1 va = px 1 other) (same0 : px 0 va = px 0 other) : va = other := by
  have low : maxva = 2 ^ 38 := by decide
  have eq2 := congrArg Fin.val same2
  have eq1 := congrArg Fin.val same1
  have eq0 := congrArg Fin.val same0
  simp only [px_val, pxshift] at eq2 eq1 eq0
  rw [low] at va_low other_low
  rw [pgsize] at va_page other_page
  omega

theorem pgrounddown_eq {a : Nat} (fits : a < 2 ^ 64) : pgrounddown a = a / pgsize * pgsize := by
  have shape : 2 ^ 64 - pgsize = (2 ^ 52 - 1) <<< 12 := by decide
  apply Nat.eq_of_testBit_eq
  intro i
  have power : pgsize = 2 ^ 12 := rfl
  rw [pgrounddown, shape, Nat.testBit_and, Nat.testBit_shiftLeft, Nat.testBit_two_pow_sub_one,
    power, ← Nat.shiftRight_eq_div_pow, ← Nat.shiftLeft_eq, Nat.testBit_shiftLeft,
    Nat.testBit_shiftRight]
  by_cases low : 12 ≤ i
  · have shift : 12 + (i - 12) = i := by omega
    rw [shift]
    by_cases high : i < 64
    · have bound : i - 12 < 52 := by omega
      simp only [ge_iff_le, low, bound, decide_true, Bool.and_true, Bool.true_and]
    · have zero : a.testBit i = false :=
        Nat.testBit_lt_two_pow (fits.trans_le (Nat.pow_le_pow_right (by decide) (by omega)))
      simp only [zero, Bool.false_and, Bool.and_false]
  · simp only [ge_iff_le, low, decide_false, Bool.false_and, Bool.and_false]

end Vm
end Xv6Duo
