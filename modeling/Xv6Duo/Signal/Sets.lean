import Mathlib.Data.Fintype.Basic
import Mathlib.Data.UInt
import Mathlib.Tactic

/-!
# Signal sets

The set operations of `kernel/signal.c`. A signal number is one of the `NSIG` indices of the action
table; the number `0` is none, and the operations turn it away.
-/

namespace Xv6Duo
namespace Signal

/-- `NSIG`. -/
def nsig : Nat := 32

/-- A signal number. -/
abbrev Sig := Fin nsig

/-- `SIGINT`. -/
def sigint : Sig := ⟨2, by decide⟩

/-- `SIGKILL`. -/
def sigkill : Sig := ⟨9, by decide⟩

/-- `SIGTERM`. -/
def sigterm : Sig := ⟨15, by decide⟩

/-- `SIGCONT`. -/
def sigcont : Sig := ⟨18, by decide⟩

/-- `SIGSTOP`. -/
def sigstop : Sig := ⟨19, by decide⟩

/-- `sigset_t`. -/
abbrev SigSet := UInt64

/-- `1 << (signum - 1)`. -/
def sigbit (signum : Sig) : SigSet := 1 <<< (signum.val - 1).toUInt64

/-- `sigaddset`. -/
def sigaddset (set : SigSet) (signum : Sig) : SigSet :=
  if signum.val < 1 then set else set ||| sigbit signum

/-- `sigdelset`. -/
def sigdelset (set : SigSet) (signum : Sig) : SigSet :=
  if signum.val < 1 then set else set &&& ~~~sigbit signum

/-- `sigismember`. -/
def sigismember (set : SigSet) (signum : Sig) : Int :=
  if signum.val < 1 then -1 else if set &&& sigbit signum ≠ 0 then 1 else 0

/-- The set has the signal. -/
def Has (set : SigSet) (signum : Sig) : Prop := sigismember set signum = 1

instance (set : SigSet) (signum : Sig) : Decidable (Has set signum) :=
  inferInstanceAs (Decidable (_ = _))

/-! ## Members of the sets -/

theorem sigbit_ne_zero (signum : Sig) : sigbit signum ≠ 0 := by
  revert signum
  decide

theorem sigbit_and (r s : Sig) (positive : 0 < r.val) (s_positive : 0 < s.val) :
    sigbit r &&& sigbit s = if r = s then sigbit s else 0 := by
  revert r s
  decide

theorem not_sigbit_and (r s : Sig) (positive : 0 < r.val) (s_positive : 0 < s.val) :
    ~~~sigbit r &&& sigbit s = if r = s then 0 else sigbit s := by
  revert r s
  decide

theorem has_iff {set : SigSet} {s : Sig} : Has set s ↔ 0 < s.val ∧ set &&& sigbit s ≠ 0 := by
  rw [Has, sigismember]
  split_ifs with none present
  · simp [Nat.lt_one_iff.mp none]
  · simp [Nat.not_lt.mp none |> Nat.lt_of_succ_le, present]
  · simp [present]

theorem Has.positive {set : SigSet} {s : Sig} (has : Has set s) : 0 < s.val :=
  (has_iff.mp has).1

/-- The test of `send_signal` before it adds a signal. -/
theorem sigismember_eq_zero_iff {set : SigSet} {s : Sig} :
    sigismember set s = 0 ↔ 0 < s.val ∧ ¬Has set s := by
  rw [Has, sigismember]
  split_ifs with none present
  · simp [Nat.lt_one_iff.mp none]
  · simp
  · simpa using Nat.not_lt.mp none |> Nat.lt_of_succ_le

theorem or_and (a b c : SigSet) : (a ||| b) &&& c = (a &&& c) ||| (b &&& c) := by
  apply UInt64.toBitVec_inj.mp
  ext i
  simp [Bool.and_or_distrib_right]

@[simp]
theorem has_sigaddset {set : SigSet} {r s : Sig} :
    Has (sigaddset set r) s ↔ Has set s ∨ 0 < s.val ∧ r = s := by
  rw [has_iff, has_iff, sigaddset]
  split
  · next none => grind
  · next some =>
      have positive : 0 < r.val := by omega
      constructor
      · rintro ⟨s_positive, present⟩
        rw [or_and, sigbit_and r s positive s_positive, ne_eq, UInt64.or_eq_zero_iff] at present
        grind
      · rintro (⟨s_positive, present⟩ | ⟨s_positive, same⟩)
        · apply And.intro s_positive
          rw [or_and, ne_eq, UInt64.or_eq_zero_iff]
          exact fun both => present both.1
        · apply And.intro s_positive
          rw [or_and, sigbit_and r s positive s_positive, if_pos same, ne_eq,
            UInt64.or_eq_zero_iff]
          exact fun both => sigbit_ne_zero s both.2

@[simp]
theorem has_sigdelset {set : SigSet} {r s : Sig} :
    Has (sigdelset set r) s ↔ Has set s ∧ r ≠ s := by
  rw [has_iff, has_iff, sigdelset]
  split
  · next none => grind
  · next some =>
      have positive : 0 < r.val := by omega
      constructor
      · rintro ⟨s_positive, present⟩
        rw [UInt64.and_assoc, not_sigbit_and r s positive s_positive] at present
        split at present
        · exact absurd UInt64.and_zero present
        · next differs => exact ⟨⟨s_positive, present⟩, differs⟩
      · rintro ⟨⟨s_positive, present⟩, differs⟩
        apply And.intro s_positive
        rw [UInt64.and_assoc, not_sigbit_and r s positive s_positive, if_neg differs]
        exact present

end Signal
end Xv6Duo
