import Xv6Duo.Vm.CopyModel
import Xv6Duo.Vfs.Files

/-!
# Vectored reads and writes

`sys_readv` and `sys_writev` of `kernel/sysfile.c` on an open file, with `argptr` and `in_user` of
`kernel/syscall.c`. `fileread`, `filewrite` and `copyin` are parameters: the calls are compared with
the same reads and writes made one after another. `sys_readv` copies one descriptor and looks for
the others on its own stack; `sys_writev` goes on behind a write that fails or is short.
-/

namespace Xv6Duo
namespace Vfs

open Vm (Region isMmapRegion maxva stackbase stacktop)

/-! ## Data -/

/-- `struct iovec`. -/
structure Iovec where
  /-- `iov_base`. -/
  base : UInt64
  /-- `iov_len`. -/
  len : UInt64
  deriving DecidableEq

/-- The length as the `int` that `fileread` and `filewrite` take. -/
def Iovec.count (v : Iovec) : Int32 := v.len.toUInt32.toInt32

/-- An open file and user memory, with the calls on them. -/
structure Calls (σ : Type) where
  /-- `fileread` of the file. -/
  fileread : σ → UInt64 → Int32 → Int × σ
  /-- `filewrite` of the file. -/
  filewrite : σ → UInt64 → Int32 → Int × σ
  /-- `copyin` of a descriptor. -/
  copyin : σ → UInt64 → Option Iovec
  /-- `copyin` finds nothing past the end of the address space. -/
  high : ∀ s addr, maxva ≤ addr.toNat → copyin s addr = none

/-- The addresses of a process. -/
structure Space where
  /-- End of the program and its heap. -/
  sz : Nat
  /-- Mapped regions. -/
  regions : List Region

/-- What a call answers. -/
structure Answer (σ : Type) where
  /-- The return value. -/
  value : Int
  /-- The file and the memory. -/
  state : σ
  /-- A descriptor was used that is not in the user's array. -/
  stray : Bool

variable {σ : Type} (c : Calls σ)

/-! ## The code -/

/-- `in_user`. -/
def inUser (p : Space) (addr n : Nat) : Bool :=
  if (addr + n) % 2 ^ 64 ≤ p.sz then true
  else if isMmapRegion p.regions addr n then true
  else if stackbase ≤ addr ∧ addr < stacktop then true
  else false

/-- `argptr` of a descriptor. The variable keeps what it holds when the pointer is null. -/
def argptr (p : Space) (s : σ) (addr : UInt64) : Option (Option Iovec) :=
  if addr = 0 then some none
  else if inUser p addr.toNat 16 then (c.copyin s addr).map some
  else none

/-- What `pp` points at in round `i`, and whether it is the user's. The first descriptor is `iov`,
unless the pointer is null; the others are on the stack behind it. -/
def current (stack : Nat → Iovec) (iov : Option Iovec) (i : Nat) : Iovec × Bool :=
  match iov with
  | some v => if i = 0 then (v, true) else (stack i, false)
  | none => (stack i, false)

/-- The loop of `sys_readv` from the descriptor `i` on. -/
def readvLoop (stack : Nat → Iovec) (iov : Option Iovec) : Nat → Nat → Int → Bool → σ → Answer σ
  | 0, _, tot, stray, s => ⟨tot, s, stray⟩
  | n + 1, i, tot, stray, s =>
      let (pp, own) := current stack iov i
      let (bytes, s) := c.fileread s pp.base pp.count
      if bytes < 0 then ⟨bytes, s, stray || !own⟩
      else if bytes = 0 then ⟨tot, s, stray || !own⟩
      else readvLoop stack iov n (i + 1) (tot + bytes) (stray || !own) s

/-- `sys_readv` of an open file. -/
def sysReadv (p : Space) (stack : Nat → Iovec) (s : σ) (iov : UInt64) (iovcnt : Int32) : Answer σ :=
  match argptr c p s iov with
  | none => ⟨-einval, s, false⟩
  | some first => readvLoop c stack first iovcnt.toInt.toNat 0 0 false s

/-- The loop of `sys_writev`, which ends at `finish`, with fuel. -/
def writevLoop (finish : UInt64) : Nat → UInt64 → Int → σ → Answer σ
  | 0, _, tot, s => ⟨tot, s, false⟩
  | fuel + 1, pp, tot, s =>
      if pp < finish then
        match c.copyin s pp with
        | none => ⟨-eio, s, false⟩
        | some v =>
            let (bytes, s) := c.filewrite s v.base v.count
            writevLoop finish fuel (pp + 16) (tot + bytes) s
      else ⟨tot, s, false⟩

/-- `sys_writev` of an open file. -/
def sysWritev (s : σ) (iov : UInt64) (iovcnt : Int32) : Answer σ :=
  if iovcnt = 0 then ⟨0, s, false⟩
  else
    writevLoop c (iov + 16 * iovcnt.toInt64.toUInt64) iovcnt.toInt.toNat iov 0 s

/-! ## One call after another -/

/-- The address of a descriptor. -/
def element (iov : UInt64) (i : Nat) : UInt64 := iov + 16 * UInt64.ofNat i

/-- What calls on the successive buffers transfer. -/
structure Run (σ : Type) where
  /-- Bytes. -/
  total : Int
  /-- The last call, or the copy of the last descriptor, failed. -/
  failed : Bool
  /-- The first descriptor for which there was no call. -/
  next : Nat
  /-- The file and the memory. -/
  state : σ

/-- Calls on `n` buffers from the descriptor `i` on, up to the first one that fails or is short. -/
def sequential (io : σ → UInt64 → Int32 → Int × σ) (iov : UInt64) :
    Nat → Nat → Int → σ → Run σ
  | 0, i, tot, s => ⟨tot, false, i, s⟩
  | n + 1, i, tot, s =>
      match c.copyin s (element iov i) with
      | none => ⟨tot, true, i, s⟩
      | some v =>
          let (r, s) := io s v.base v.count
          if r < 0 then ⟨tot, true, i + 1, s⟩
          else if r < v.len.toNat then ⟨tot + r, false, i + 1, s⟩
          else sequential io iov n (i + 1) (tot + r) s

/-- A return value: the total, or a negative number when a call failed before a byte moved. -/
def Fits (failed : Bool) (total value : Int) : Prop :=
  if failed = true ∧ total = 0 then value < 0 else value = total

/-- A call does what the calls on the successive buffers do, and keeps to the array. -/
structure Vectored (run : Run σ) (answer : Answer σ) : Prop where
  /-- The effect. -/
  state : answer.state = run.state
  /-- The return value. -/
  value : Fits run.failed run.total answer.value
  /-- The descriptors. -/
  own : answer.stray = false

/-! ## The conditions -/

/-- `argptr` succeeds without descriptors. With one, it is not at address 0, and, if it can be
copied, it is in the addresses of the process, and its read fails or is the only one, or it
transfers nothing and the reads behind it, if it is empty, do nothing; or it is outside, and the
reads do nothing and fail. -/
def ReadsOne (p : Space) (iov : UInt64) (s : σ) : Nat → Prop
  | 0 => iov = 0 ∨ inUser p iov.toNat 16 = true ∧ c.copyin s iov ≠ none
  | n + 1 =>
      iov ≠ 0 ∧ ∀ v, c.copyin s iov = some v →
        let (r, s') := c.fileread s v.base v.count
        if inUser p iov.toNat 16 = true then
          r < 0 ∨ n = 0 ∨ r = 0 ∧
            (v.len ≠ 0 ∨ ∃ next, sequential c c.fileread iov n 1 0 s' = ⟨0, false, next, s'⟩)
        else
          r < 0 ∧ s' = s ∨ r = 0 ∧ v.len = 0 ∧
            ∃ next, sequential c c.fileread iov n 1 0 s' = ⟨0, true, next, s⟩

/-- Writes on the buffers from `i` up to `n`, as far as their descriptors can be copied, transfer
nothing and change nothing. -/
def Idle (iov : UInt64) (s : σ) (i n : Nat) : Prop :=
  ∀ j, i ≤ j → j < n → (∀ k, i ≤ k → k < j → c.copyin s (element iov k) ≠ none) →
    ∀ v, c.copyin s (element iov j) = some v →
      (c.filewrite s v.base v.count).1 ≤ 0 ∧ (c.filewrite s v.base v.count).2 = s

/-- Writes on the buffers from `i` up to `n` answer zero and change nothing. -/
def Silent (iov : UInt64) (s : σ) (i n : Nat) : Prop :=
  ∀ j, i ≤ j → j < n →
    ∃ v, c.copyin s (element iov j) = some v ∧ c.filewrite s v.base v.count = (0, s)

/-- The writes stop at the last buffer, or they fail before a byte is written and the others would
be idle, or the last one is short and the others would be silent. -/
def WritesAll (iov : UInt64) (n : Nat) (run : Run σ) : Prop :=
  if run.failed = true then run.total = 0 ∧ Idle c iov run.state run.next n
  else Silent c iov run.state run.next n

/-- The state after a write that transfers a byte or changes anything is later, as the file has
another position and another time: no write brings an earlier state back. -/
def Lasting : Prop :=
  ∃ version : σ → Nat, ∀ s base count,
    0 < (c.filewrite s base count).1 ∨ (c.filewrite s base count).2 ≠ s →
      version s < version (c.filewrite s base count).2

/-! ## Writes -/

variable {c} {iov : UInt64} {s : σ}

theorem element_toNat {i : Nat} (fits : iov.toNat + 16 * i < 2 ^ 64) :
    (element iov i).toNat = iov.toNat + 16 * i := by
  have word : (UInt64.ofNat i).toNat = i := UInt64.toNat_ofNat_of_lt' (by rw [UInt64.size]; omega)
  rw [element, UInt64.toNat_add, UInt64.toNat_mul, word, show (16 : UInt64).toNat = 16 from rfl]
  omega

theorem element_succ (iov : UInt64) (i : Nat) : element iov i + 16 = element iov (i + 1) := by
  rw [element, element, UInt64.ofNat_add, UInt64.mul_add, UInt64.add_assoc]
  rfl

variable (c iov) in
/-- The rounds of `sys_writev` on `n` buffers from the descriptor `i` on. -/
def writes : Nat → Nat → Int → σ → Answer σ
  | 0, _, tot, s => ⟨tot, s, false⟩
  | n + 1, i, tot, s =>
      match c.copyin s (element iov i) with
      | none => ⟨-eio, s, false⟩
      | some v =>
          let (r, s) := c.filewrite s v.base v.count
          writes n (i + 1) (tot + r) s

theorem writevLoop_eq {n i : Nat} {tot : Int} (fits : iov.toNat + 16 * (i + n) < 2 ^ 64) :
    writevLoop c (element iov (i + n)) n (element iov i) tot s = writes c iov n i tot s := by
  induction n generalizing i tot s with
  | zero => rfl
  | succ n ih =>
      have inside : element iov i < element iov (i + (n + 1)) := by
        rw [UInt64.lt_iff_toNat_lt, element_toNat (by omega), element_toNat fits]
        omega
      rw [writevLoop, if_pos inside, writes]
      cases c.copyin s (element iov i) with
      | none => rfl
      | some v =>
          have shift : i + (n + 1) = i + 1 + n := by omega
          dsimp only
          rw [element_succ, shift, ih (by omega)]

theorem writes_own (n i : Nat) (tot : Int) (s : σ) : (writes c iov n i tot s).stray = false := by
  induction n generalizing i tot s with
  | zero => rfl
  | succ n ih =>
      rw [writes]
      cases c.copyin s (element iov i) with
      | none => rfl
      | some v => exact ih ..

/-- Behind the writes in a row `sys_writev` goes on with the other buffers, from a sum that is too
small by what the last write answered below zero. -/
theorem writes_run (m i : Nat) (tot : Int) (s : σ) {run : Run σ}
    (run_eq : sequential c c.filewrite iov m i tot s = run) :
    ∃ k e, run.next + k = i + m ∧ e ≤ 0 ∧
      writes c iov m i tot s = writes c iov k run.next (run.total + e) run.state ∧
      (run.failed = true → e < 0 ∨ 0 < k ∧ c.copyin run.state (element iov run.next) = none) ∧
      (run.failed = false → e = 0) := by
  subst run_eq
  induction m generalizing i tot s with
  | zero => exact ⟨0, 0, rfl, le_rfl, by rw [sequential, add_zero], nofun, fun _ => rfl⟩
  | succ m ih =>
      cases copies : c.copyin s (element iov i) with
      | none =>
          rw [sequential, copies]
          exact ⟨m + 1, 0, rfl, le_rfl,
            by rw [add_zero], fun _ => .inr ⟨Nat.succ_pos m, copies⟩, nofun⟩
      | some v =>
          have shift : i + 1 + m = i + (m + 1) := by omega
          obtain ⟨r, s', wrote⟩ : ∃ r s', c.filewrite s v.base v.count = (r, s') := ⟨_, _, rfl⟩
          rw [sequential, writes, copies]
          simp only [wrote]
          rcases lt_or_ge r 0 with negative | nonneg
          · rw [if_pos negative]
            exact ⟨m, r, shift, negative.le, rfl, fun _ => .inl negative, nofun⟩
          · rw [if_neg nonneg.not_gt]
            by_cases short : r < v.len.toNat
            · rw [if_pos short]
              exact ⟨m, 0, shift, le_rfl, by rw [add_zero], nofun, fun _ => rfl⟩
            · rw [if_neg short, ← shift]
              exact ih (i + 1) (tot + r) s'

/-- What was transferred stays in the sum. -/
theorem le_total (io : σ → UInt64 → Int32 → Int × σ) (n i : Nat) (tot : Int) (s : σ) :
    tot ≤ (sequential c io iov n i tot s).total := by
  induction n generalizing i tot s with
  | zero => exact le_rfl
  | succ n ih =>
      rw [sequential]
      cases c.copyin s (element iov i) with
      | none => exact le_rfl
      | some v =>
          dsimp only
          split
          · exact le_rfl
          · next nonneg =>
              have more : tot ≤ tot + (io s v.base v.count).1 := by omega
              split
              · exact more
              · exact more.trans (ih ..)

theorem Idle.tail {i n : Nat} (idle : Idle c iov s i n)
    (there : c.copyin s (element iov i) ≠ none) :
    Idle c iov s (i + 1) n := by
  intro j lower upper earlier
  refine idle j (by omega) upper fun k first behind => ?_
  rcases first.eq_or_lt with rfl | later
  · exact there
  · exact earlier k later behind

/-- Idle writes change nothing, and do not raise the sum. -/
theorem writes_idle {n i : Nat} {tot : Int} (idle : Idle c iov s i (i + n)) :
    (writes c iov n i tot s).state = s ∧
      ((writes c iov n i tot s).value = -eio ∨ (writes c iov n i tot s).value ≤ tot) := by
  induction n generalizing i tot with
  | zero => exact ⟨rfl, .inr le_rfl⟩
  | succ n ih =>
      rw [writes]
      cases copies : c.copyin s (element iov i) with
      | none => exact ⟨rfl, .inl rfl⟩
      | some v =>
          obtain ⟨nothing, same⟩ := idle i le_rfl (by omega) (fun k _ _ => by omega) v copies
          have rest := idle.tail (by rw [copies]; exact Option.some_ne_none v)
          rw [show i + (n + 1) = i + 1 + n by omega] at rest
          obtain ⟨r, s', wrote⟩ : ∃ r s', c.filewrite s v.base v.count = (r, s') := ⟨_, _, rfl⟩
          simp only [wrote] at nothing same ⊢
          rw [same]
          obtain ⟨state, value⟩ := @ih (i + 1) (tot + r) rest
          exact ⟨state, value.imp_right fun small => by omega⟩

/-- Silent writes change neither the state nor the sum. -/
theorem writes_silent {n i : Nat} (tot : Int) (silent : Silent c iov s i (i + n)) :
    writes c iov n i tot s = ⟨tot, s, false⟩ := by
  induction n generalizing i with
  | zero => rfl
  | succ n ih =>
      obtain ⟨v, copies, wrote⟩ := silent i le_rfl (by omega)
      rw [writes, copies]
      simp only [wrote, add_zero]
      exact ih fun j lower upper => silent j (by omega) (by omega)

theorem later_writes {version : σ → Nat} (lasts : ∀ s base count,
    0 < (c.filewrite s base count).1 ∨ (c.filewrite s base count).2 ≠ s →
      version s < version (c.filewrite s base count).2) (n i : Nat) (tot : Int) (s : σ) :
    version s ≤ version (writes c iov n i tot s).state := by
  induction n generalizing i tot s with
  | zero => exact le_rfl
  | succ n ih =>
      rw [writes]
      cases c.copyin s (element iov i) with
      | none => exact le_rfl
      | some v =>
          refine le_trans ?_ (ih ..)
          by_cases same : (c.filewrite s v.base v.count).2 = s
          · rw [same]
          · exact (lasts _ _ _ (.inr same)).le

/-- Where no write brings an earlier state back, writes that leave the state as it was are idle. -/
theorem Lasting.idle (lasting : Lasting c) {n i : Nat} {tot : Int}
    (kept : (writes c iov n i tot s).state = s) : Idle c iov s i (i + n) := by
  obtain ⟨version, lasts⟩ := lasting
  induction n generalizing i tot with
  | zero =>
      intro j lower upper
      omega
  | succ n ih =>
      rw [writes] at kept
      cases copies : c.copyin s (element iov i) with
      | none =>
          intro j lower upper earlier v there
          rcases lower.eq_or_lt with rfl | later
          · rw [copies] at there
            cases there
          · exact absurd copies (earlier i le_rfl later)
      | some v =>
          rw [copies] at kept
          dsimp only at kept
          have final := @later_writes _ c iov version lasts n (i + 1)
            (tot + (c.filewrite s v.base v.count).1) (c.filewrite s v.base v.count).2
          rw [kept] at final
          have first :
            ¬(0 < (c.filewrite s v.base v.count).1 ∨ (c.filewrite s v.base v.count).2 ≠ s) :=
            fun changes => (lasts _ _ _ changes).not_ge final
          obtain ⟨nothing, same⟩ := not_or.mp first
          rw [not_not.mp same] at kept
          intro j lower upper earlier w there
          rcases lower.eq_or_lt with rfl | later
          · rw [copies] at there
            cases there
            exact ⟨not_lt.mp nothing, not_not.mp same⟩
          · exact ih kept j later (by omega) (fun k lower => earlier k (by omega)) w there

/-- Idle writes that keep the sum are silent. -/
theorem Idle.silent {n i : Nat} {tot : Int} (idle : Idle c iov s i (i + n)) (nonneg : 0 ≤ tot)
    (value : (writes c iov n i tot s).value = tot) : Silent c iov s i (i + n) := by
  have error : eio = 5 := rfl
  induction n generalizing i with
  | zero =>
      intro j lower upper
      omega
  | succ n ih =>
      rw [writes] at value
      cases copies : c.copyin s (element iov i) with
      | none =>
          rw [copies] at value
          change -eio = tot at value
          omega
      | some v =>
          obtain ⟨nothing, same⟩ := idle i le_rfl (by omega) (fun k _ _ => by omega) v copies
          have rest := idle.tail (by rw [copies]; exact Option.some_ne_none v)
          rw [show i + (n + 1) = i + 1 + n by omega] at rest
          obtain ⟨r, s', wrote⟩ : ∃ r s', c.filewrite s v.base v.count = (r, s') := ⟨_, _, rfl⟩
          rw [copies] at value
          simp only [wrote] at nothing same value
          rw [same] at wrote value
          obtain rfl : r = 0 := by
            have small := (@writes_idle _ c iov s n (i + 1) (tot + r) rest).2
            omega
          rw [add_zero] at value
          intro j lower upper
          rcases lower.eq_or_lt with rfl | later
          · exact ⟨v, copies, wrote⟩
          · exact ih rest value j later (by omega)

/-- The condition is enough. -/
theorem writes_vectored {n : Nat}
    (condition : WritesAll c iov n (sequential c c.filewrite iov n 0 0 s)) :
    Vectored (sequential c c.filewrite iov n 0 0 s) (writes c iov n 0 0 s) := by
  have negative : -eio < 0 := by decide
  generalize run_eq : sequential c c.filewrite iov n 0 0 s = run at condition ⊢
  obtain ⟨k, e, reach, below, going, failed_iff, short_iff⟩ := writes_run n 0 0 s run_eq
  rw [Nat.zero_add] at reach
  rw [WritesAll, ← reach] at condition
  rw [going]
  by_cases failed : run.failed = true
  · rw [if_pos failed] at condition
    obtain ⟨none_written, idle⟩ := condition
    obtain ⟨state, value⟩ := @writes_idle _ c iov run.state k run.next (run.total + e) idle
    refine ⟨state, (if_pos ⟨failed, none_written⟩).mpr ?_, writes_own ..⟩
    rcases failed_iff failed with less | ⟨left, copies⟩
    · omega
    · obtain ⟨k, rfl⟩ := Nat.exists_eq_succ_of_ne_zero left.ne'
      rw [writes, copies]
      exact negative
  · have sum := short_iff (Bool.eq_false_of_not_eq_true failed)
    rw [if_neg failed] at condition
    rw [sum, add_zero, writes_silent _ condition]
    exact ⟨rfl, (if_neg fun both => failed both.1).mpr rfl, rfl⟩

/-- The condition is needed where no write brings an earlier state back. -/
theorem Vectored.writesAll (lasting : Lasting c) {n : Nat}
    (vectored : Vectored (sequential c c.filewrite iov n 0 0 s) (writes c iov n 0 0 s)) :
    WritesAll c iov n (sequential c c.filewrite iov n 0 0 s) := by
  have error : eio = 5 := rfl
  have nonneg := @le_total _ c iov c.filewrite n 0 0 s
  generalize run_eq : sequential c c.filewrite iov n 0 0 s = run at vectored nonneg ⊢
  obtain ⟨k, e, reach, below, going, failed_iff, short_iff⟩ := writes_run n 0 0 s run_eq
  rw [Nat.zero_add] at reach
  rw [going] at vectored
  have idle := lasting.idle vectored.state
  have value := vectored.value
  rw [WritesAll, ← reach]
  by_cases failed : run.failed = true
  · rw [if_pos failed]
    refine ⟨by_contra fun written => ?_, idle⟩
    rw [Fits, if_neg fun both => written both.2] at value
    have small := (@writes_idle _ c iov run.state k run.next (run.total + e) idle).2
    rcases failed_iff failed with less | ⟨left, copies⟩
    · omega
    · obtain ⟨k, rfl⟩ := Nat.exists_eq_succ_of_ne_zero left.ne'
      rw [writes, copies] at value
      change -eio = run.total at value
      omega
  · have sum := short_iff (Bool.eq_false_of_not_eq_true failed)
    rw [sum, add_zero] at value
    rw [Fits, if_neg fun both => failed both.1] at value
    rw [if_neg failed]
    exact idle.silent nonneg value

/-! ## Reads -/

theorem element_zero (iov : UInt64) : element iov 0 = iov := by
  rw [element]
  exact UInt64.add_zero iov

/-- A descriptor that is not the user's stays one. -/
theorem readvLoop_strayed (stack : Nat → Iovec) (first : Option Iovec) (n i : Nat) (tot : Int)
    (s : σ) : (readvLoop c stack first n i tot true s).stray = true := by
  induction n generalizing i tot s with
  | zero => rfl
  | succ n ih =>
      rw [readvLoop.eq_def]
      dsimp only
      split_ifs
      · rfl
      · rfl
      · exact ih ..

/-- The stack is used from the second descriptor on, and from the first one on without an array. -/
theorem readvLoop_stack (stack : Nat → Iovec) {first : Option Iovec} {i : Nat}
    (foreign : i ≠ 0 ∨ first = none) (n : Nat) (tot : Int) (stray : Bool) (s : σ) :
    (readvLoop c stack first (n + 1) i tot stray s).stray = true := by
  have taken : current stack first i = (stack i, false) := by
    cases first with
    | none => rfl
    | some v =>
        cases foreign with
        | inl later => exact if_neg later
        | inr none_there => cases none_there
  rw [readvLoop, taken]
  simp only [Bool.not_false, Bool.or_true]
  split_ifs
  · rfl
  · rfl
  · exact readvLoop_strayed ..

variable {p : Space}

theorem argptr_eq_none : argptr c p s iov = none ↔
    iov ≠ 0 ∧ (inUser p iov.toNat 16 = false ∨ c.copyin s iov = none) := by
  rw [argptr]
  rcases eq_or_ne iov 0 with null | not_null
  · simp [null]
  · rw [if_neg not_null]
    cases inUser p iov.toNat 16 with
    | true => simp [not_null]
    | false => simp [not_null]

theorem argptr_eq_some {first : Option Iovec} (arg : argptr c p s iov = some first) :
    (iov = 0 ∧ first = none) ∨ iov ≠ 0 ∧ inUser p iov.toNat 16 = true ∧
      ∃ v, c.copyin s iov = some v ∧ first = some v := by
  rw [argptr] at arg
  split at arg
  · next null => exact Or.inl ⟨null, (Option.some.inj arg).symm⟩
  · next not_null =>
      split at arg
      · next inside =>
          obtain ⟨v, copies, same⟩ := Option.map_eq_some_iff.mp arg
          exact Or.inr ⟨not_null, inside, v, copies, same.symm⟩
      · cases arg

theorem vectored_nothing {run : Run σ} {t : σ} :
    Vectored run ⟨0, t, false⟩ ↔ ∃ next, run = ⟨0, false, next, t⟩ := by
  obtain ⟨total, failed, next, state⟩ := run
  constructor
  · rintro ⟨rfl, value, -⟩
    simp only [Fits] at value
    split at value
    · exact absurd value (lt_irrefl 0)
    · next fits =>
        subst value
        exact ⟨next, by rw [Bool.eq_false_of_not_eq_true fun failed_eq => fits ⟨failed_eq, rfl⟩]⟩
  · rintro ⟨next, same⟩
    cases same
    exact ⟨rfl, (if_neg (fun both => Bool.false_ne_true both.1)).mpr rfl, rfl⟩

/-- An error code is right if nothing was transferred before a failure. -/
theorem vectored_error {run : Run σ} (nonneg : 0 ≤ run.total) :
    Vectored run ⟨-einval, s, false⟩ ↔ ∃ next, run = ⟨0, true, next, s⟩ := by
  have error : einval = 22 := rfl
  obtain ⟨total, failed, next, state⟩ := run
  constructor
  · rintro ⟨rfl, value, -⟩
    simp only [Fits] at value nonneg
    split at value
    · next both =>
        obtain ⟨rfl, rfl⟩ := both
        exact ⟨next, rfl⟩
    · omega
  · rintro ⟨next, same⟩
    cases same
    have negative : -einval < 0 := by omega
    exact ⟨rfl, (if_pos ⟨rfl, rfl⟩).mpr negative, rfl⟩

/-- The calls on a first buffer whose descriptor can be copied, and on the ones behind it. -/
theorem sequential_first {v : Iovec} {r : Int} {s' : σ} {n : Nat} (copies : c.copyin s iov = some v)
    (read : c.fileread s v.base v.count = (r, s')) :
    sequential c c.fileread iov (n + 1) 0 0 s =
      if r < 0 then ⟨0, true, 1, s'⟩ else if r < v.len.toNat then ⟨r, false, 1, s'⟩
      else sequential c c.fileread iov n 1 r s' := by
  rw [sequential, element_zero, copies]
  simp only [read, zero_add]

/-- The reads in a row where `sys_readv` refuses a descriptor that can be copied. -/
theorem refused_iff {v : Iovec} {r : Int} {s' : σ} {n : Nat} (copies : c.copyin s iov = some v)
    (read : c.fileread s v.base v.count = (r, s')) :
    Vectored (sequential c c.fileread iov (n + 1) 0 0 s) ⟨-einval, s, false⟩ ↔
      r < 0 ∧ s' = s ∨ r = 0 ∧ v.len = 0 ∧
        ∃ next, sequential c c.fileread iov n 1 0 s' = ⟨0, true, next, s⟩ := by
  rw [vectored_error (le_total ..), sequential_first copies read]
  rcases lt_or_ge r 0 with negative | nonneg
  · rw [if_pos negative]
    constructor
    · rintro ⟨next, same⟩
      cases same
      exact .inl ⟨negative, rfl⟩
    · rintro (⟨-, rfl⟩ | ⟨zero, -⟩)
      · exact ⟨1, rfl⟩
      · omega
  · rw [if_neg nonneg.not_gt]
    split
    · next short =>
        refine iff_of_false ?_ ?_
        · rintro ⟨next, same⟩
          cases same
        · rintro (⟨negative, -⟩ | ⟨rfl, empty, -⟩)
          · omega
          · rw [empty] at short
            exact lt_irrefl _ short
    · next whole =>
        constructor
        · rintro ⟨next, same⟩
          have more := @le_total _ c iov c.fileread n 1 r s'
          rw [same] at more
          obtain rfl : r = 0 := le_antisymm more nonneg
          have empty : v.len = 0 := by
            apply UInt64.toNat_inj.mp
            rw [UInt64.toNat_zero]
            omega
          exact .inr ⟨rfl, empty, next, same⟩
        · rintro (⟨negative, -⟩ | ⟨rfl, -, fails⟩)
          · omega
          · exact fails

/-- The reads in a row where `sys_readv` has the first descriptor. -/
theorem taken_iff (stack : Nat → Iovec) {v : Iovec} {r : Int} {s' : σ} {n : Nat}
    (copies : c.copyin s iov = some v) (read : c.fileread s v.base v.count = (r, s')) :
    Vectored (sequential c c.fileread iov (n + 1) 0 0 s)
        (readvLoop c stack (some v) (n + 1) 0 0 false s) ↔
      r < 0 ∨ n = 0 ∨ r = 0 ∧
        (v.len ≠ 0 ∨ ∃ next, sequential c c.fileread iov n 1 0 s' = ⟨0, false, next, s'⟩) := by
  have negative_error : ∀ r : Int, r < 0 → Fits true 0 r := fun r negative =>
    (if_pos ⟨rfl, rfl⟩).mpr negative
  have no_error : ∀ r : Int, Fits false r r := fun r =>
    (if_neg (fun both => Bool.false_ne_true both.1)).mpr rfl
  rw [sequential_first copies read, readvLoop]
  simp only [current, if_true, read, zero_add, Bool.not_true, Bool.or_false]
  rcases lt_trichotomy r 0 with negative | rfl | positive
  · rw [if_pos negative, if_pos negative]
    exact iff_of_true ⟨rfl, negative_error r negative, rfl⟩ (.inl negative)
  · rw [if_neg (lt_irrefl 0), if_neg (lt_irrefl 0), if_pos rfl]
    split
    · next some_room =>
        refine iff_of_true ⟨rfl, no_error 0, rfl⟩ (.inr (.inr ⟨rfl, .inl ?_⟩))
        rintro empty
        rw [empty] at some_room
        exact lt_irrefl _ some_room
    · next no_room =>
        have empty : v.len = 0 := by
          apply UInt64.toNat_inj.mp
          rw [UInt64.toNat_zero]
          omega
        rw [vectored_nothing]
        constructor
        · exact fun nothing => .inr (.inr ⟨rfl, .inr nothing⟩)
        · rintro (negative | rfl | ⟨-, some_room | nothing⟩)
          · exact absurd negative (lt_irrefl 0)
          · exact ⟨1, rfl⟩
          · exact absurd empty some_room
          · exact nothing
  · rw [if_neg positive.not_gt, if_neg positive.not_gt, if_neg positive.ne']
    cases n with
    | zero =>
        refine iff_of_true ?_ (.inr (.inl rfl))
        split
        · exact ⟨rfl, no_error r, rfl⟩
        · exact ⟨rfl, no_error r, rfl⟩
    | succ n =>
        refine iff_of_false (fun vectored => ?_) ?_
        · have stray : (readvLoop c stack (some v) (n + 1) 1 r false s').stray = true :=
            readvLoop_stack stack (.inl one_ne_zero) n r false s'
          exact Bool.false_ne_true (vectored.own.symm.trans stray)
        · rintro (negative | none_left | ⟨zero, -⟩)
          · omega
          · cases none_left
          · omega

theorem readv_iff (p : Space) (stack : Nat → Iovec) (iovcnt : Int32) :
    Vectored (sequential c c.fileread iov iovcnt.toInt.toNat 0 0 s)
        (sysReadv c p stack s iov iovcnt) ↔
      ReadsOne c p iov s iovcnt.toInt.toNat := by
  rw [sysReadv]
  generalize iovcnt.toInt.toNat = n
  cases arg : argptr c p s iov with
  | none =>
      obtain ⟨not_null, refused⟩ := argptr_eq_none.mp arg
      cases n with
      | zero =>
          refine iff_of_false (fun vectored => ?_) ?_
          · obtain ⟨next, same⟩ := (vectored_error le_rfl).mp vectored
            cases same
          · rintro (null | ⟨inside, copies⟩)
            · exact not_null null
            · rw [inside] at refused
              exact refused.elim nofun copies
      | succ n =>
          cases copies : c.copyin s iov with
          | none =>
              refine iff_of_true ?_ ⟨not_null, fun v there => ?_⟩
              · rw [vectored_error (le_total ..), sequential, element_zero, copies]
                exact ⟨0, rfl⟩
              · rw [copies] at there
                cases there
          | some v =>
              have outside : inUser p iov.toNat 16 = false :=
                refused.resolve_right (by rw [copies]; exact Option.some_ne_none v)
              obtain ⟨r, s', read⟩ : ∃ r s', c.fileread s v.base v.count = (r, s') := ⟨_, _, rfl⟩
              rw [ReadsOne, outside, copies, refused_iff copies read]
              simp only [Option.some.injEq, forall_eq', read, Bool.false_eq_true, if_false]
              exact (and_iff_right not_null).symm
  | some first =>
      cases n with
      | zero =>
          refine iff_of_true ⟨rfl, ?_, rfl⟩ ?_
          · exact (if_neg (fun both => Bool.false_ne_true both.1)).mpr rfl
          · rcases argptr_eq_some arg with ⟨null, -⟩ | ⟨-, inside, v, copies, -⟩
            · exact .inl null
            · exact .inr ⟨inside, by rw [copies]; exact Option.some_ne_none v⟩
      | succ n =>
          rcases argptr_eq_some arg with ⟨null, rfl⟩ | ⟨not_null, inside, v, copies, rfl⟩
          · refine iff_of_false (fun vectored => ?_) (fun reads => reads.1 null)
            have stray : (readvLoop c stack none (n + 1) 0 0 false s).stray = true :=
              readvLoop_stack stack (.inr rfl) n 0 false s
            exact Bool.false_ne_true (vectored.own.symm.trans stray)
          · obtain ⟨r, s', read⟩ : ∃ r s', c.fileread s v.base v.count = (r, s') := ⟨_, _, rfl⟩
            rw [ReadsOne, inside, copies]
            simp only [Option.some.injEq, forall_eq', read, if_true]
            exact (taken_iff stack copies read).trans (and_iff_right not_null).symm

/-! ## Both calls -/

/-- The end of the array. -/
theorem finish_eq {iovcnt : Int32} (nonneg : 0 ≤ iovcnt.toInt) (iov : UInt64) :
    iov + 16 * iovcnt.toInt64.toUInt64 = element iov iovcnt.toInt.toNat := by
  have count : iovcnt.toInt64.toUInt64 = UInt64.ofNat iovcnt.toInt.toNat := by
    have word : (0 : Int64) ≤ iovcnt.toInt64 := by
      rwa [Int64.le_iff_toInt_le, Int32.toInt_toInt64]
    apply UInt64.toNat_inj.mp
    have low := Int32.toInt_lt iovcnt
    rw [Int64.toNat_toUInt64_of_le word, Int64.toNatClampNeg, Int32.toInt_toInt64,
      UInt64.toNat_ofNat_of_lt']
    rw [UInt64.size]
    omega
  rw [count, element]

theorem toInt_ne_zero {iovcnt : Int32} (nonneg : 0 ≤ iovcnt.toInt) (some_left : iovcnt ≠ 0) :
    0 < iovcnt.toInt.toNat := by
  have differ : iovcnt.toInt ≠ 0 := fun zero => some_left (Int32.toInt_inj.mp zero)
  omega

theorem sysWritev_eq {iovcnt : Int32} (nonneg : 0 ≤ iovcnt.toInt)
    (fits : iov.toNat + 16 * iovcnt.toInt.toNat < 2 ^ 64) :
    sysWritev c s iov iovcnt = writes c iov iovcnt.toInt.toNat 0 0 s := by
  rw [sysWritev]
  split
  · next none_left =>
      rw [none_left]
      rfl
  · next some_left =>
      have loop : writevLoop c (element iov (0 + iovcnt.toInt.toNat)) iovcnt.toInt.toNat
          (element iov 0) 0 s = _ := writevLoop_eq (by rwa [zero_add])
      rw [zero_add, element_zero] at loop
      rw [finish_eq nonneg, loop]

/-- An array that wraps around is not looked at. -/
theorem sysWritev_wraps {iovcnt : Int32} (nonneg : 0 ≤ iovcnt.toInt)
    (wraps : 2 ^ 64 ≤ iov.toNat + 16 * iovcnt.toInt.toNat) :
    sysWritev c s iov iovcnt = ⟨0, s, false⟩ := by
  rw [sysWritev]
  split
  · rfl
  · next some_left =>
      have low := Int32.toInt_lt iovcnt
      obtain ⟨n, n_eq⟩ : ∃ n, iovcnt.toInt.toNat = n + 1 :=
        Nat.exists_eq_succ_of_ne_zero (toInt_ne_zero nonneg some_left).ne'
      have before : ¬iov < element iov iovcnt.toInt.toNat := by
        rw [UInt64.lt_iff_toNat_lt, element, UInt64.toNat_add, UInt64.toNat_mul,
          UInt64.toNat_ofNat_of_lt' (by rw [UInt64.size]; omega),
          show (16 : UInt64).toNat = 16 from rfl]
        have word := iov.toNat_lt
        omega
      rw [finish_eq nonneg, n_eq, writevLoop, ← n_eq, if_neg before]

theorem writev_fits {iovcnt : Int32} (nonneg : 0 ≤ iovcnt.toInt)
    (vectored : Vectored (sequential c c.filewrite iov iovcnt.toInt.toNat 0 0 s)
      (sysWritev c s iov iovcnt)) : iov.toNat + 16 * iovcnt.toInt.toNat < 2 ^ 64 := by
  by_contra not_fits
  have wraps := Nat.not_lt.mp not_fits
  have low := Int32.toInt_lt iovcnt
  have word := iov.toNat_lt
  obtain ⟨n, n_eq⟩ : ∃ n, iovcnt.toInt.toNat = n + 1 :=
    Nat.exists_eq_succ_of_ne_zero (by omega)
  have unmapped : c.copyin s iov = none := by
    apply c.high
    rw [show maxva = 2 ^ 38 by decide]
    omega
  rw [sysWritev_wraps nonneg wraps, vectored_nothing, n_eq, sequential, element_zero,
    unmapped] at vectored
  obtain ⟨next, same⟩ := vectored
  cases same

/-- `sys_readv` does what reads in a row do exactly in these cases, and so does `sys_writev` what
writes in a row do, as far as no write brings an earlier state of the file back. -/
theorem vectored_exact_iff (p : Space) (stack : Nat → Iovec) (iovcnt : Int32)
    (nonneg : 0 ≤ iovcnt.toInt) :
    (Vectored (sequential c c.fileread iov iovcnt.toInt.toNat 0 0 s)
        (sysReadv c p stack s iov iovcnt) ↔
      ReadsOne c p iov s iovcnt.toInt.toNat) ∧
    (iov.toNat + 16 * iovcnt.toInt.toNat < 2 ^ 64 ∧
        WritesAll c iov iovcnt.toInt.toNat
          (sequential c c.filewrite iov iovcnt.toInt.toNat 0 0 s) →
      Vectored (sequential c c.filewrite iov iovcnt.toInt.toNat 0 0 s)
        (sysWritev c s iov iovcnt)) ∧
    (Lasting c →
      Vectored (sequential c c.filewrite iov iovcnt.toInt.toNat 0 0 s)
        (sysWritev c s iov iovcnt) →
      iov.toNat + 16 * iovcnt.toInt.toNat < 2 ^ 64 ∧
        WritesAll c iov iovcnt.toInt.toNat
          (sequential c c.filewrite iov iovcnt.toInt.toNat 0 0 s)) := by
  refine ⟨readv_iff p stack iovcnt, ?_, fun lasting vectored => ?_⟩
  · rintro ⟨fits, condition⟩
    rw [sysWritev_eq nonneg fits]
    exact writes_vectored condition
  · have fits := writev_fits nonneg vectored
    rw [sysWritev_eq nonneg fits] at vectored
    exact ⟨fits, vectored.writesAll lasting⟩

/-- A file of six bytes, by its position, and an array of two buffers of three bytes each. -/
def sixBytes : Calls Nat where
  fileread off _ n := (min n.toInt (6 - off), off + (min n.toInt (6 - off)).toNat)
  filewrite off _ n := if 0 ≤ n.toInt then (n.toInt, off + n.toInt.toNat) else (-1, off)
  copyin _ addr :=
    if addr = 0x10000 then some ⟨0x20000, 3⟩
    else if addr = 0x10010 then some ⟨0x30000, 3⟩
    else none
  high off addr past := by
    have top : (0x10010 : UInt64).toNat < maxva := by decide
    rw [if_neg, if_neg]
    · rintro rfl
      omega
    · rintro rfl
      exact absurd past (by decide)

/-- A program without mapped regions. -/
def program : Space := ⟨0x40000, []⟩

/-- `readv` with both buffers reads three bytes, two reads read six. -/
theorem readv_stops : (sysReadv sixBytes program (fun _ => ⟨0, 0⟩) 0 0x10000 2).value = 3 ∧
    (sequential sixBytes sixBytes.fileread 0x10000 2 0 0 0).total = 6 ∧
    ¬Vectored (sequential sixBytes sixBytes.fileread 0x10000 2 0 0 0)
      (sysReadv sixBytes program (fun _ => ⟨0, 0⟩) 0 0x10000 2) := by
  have stray : (sysReadv sixBytes program (fun _ => ⟨0, 0⟩) 0 0x10000 2).stray = true := by decide
  refine ⟨by decide, by decide, fun vectored => ?_⟩
  exact Bool.false_ne_true (vectored.own.symm.trans stray)

theorem sixBytes_lasting : Lasting sixBytes := by
  refine ⟨id, fun off base count changes => ?_⟩
  simp only [sixBytes, id] at changes ⊢
  split at changes
  · next nonneg =>
      rw [if_pos nonneg]
      change off < off + count.toInt.toNat
      rcases changes with some_bytes | moved
      · change 0 < count.toInt at some_bytes
        omega
      · change off + count.toInt.toNat ≠ off at moved
        omega
  · rcases changes with some_bytes | moved
    · change (0 : Int) < -1 at some_bytes
      omega
    · exact absurd rfl moved

/-- `readv` with the first of them reads three bytes, and `writev` with both writes six. -/
theorem vectored_buffers :
    (Vectored (sequential sixBytes sixBytes.fileread 0x10000 1 0 0 0)
      (sysReadv sixBytes program (fun _ => ⟨0, 0⟩) 0 0x10000 1) ∧
      (sysReadv sixBytes program (fun _ => ⟨0, 0⟩) 0 0x10000 1).value = 3) ∧
    Vectored (sequential sixBytes sixBytes.filewrite 0x10000 2 0 0 0)
      (sysWritev sixBytes 0 0x10000 2) ∧ (sysWritev sixBytes 0 0x10000 2).value = 6 ∧
    WritesAll sixBytes 0x10000 2 (sequential sixBytes sixBytes.filewrite 0x10000 2 0 0 0) := by
  obtain ⟨reads, -⟩ := @vectored_exact_iff Nat sixBytes 0x10000 0 program (fun _ => ⟨0, 0⟩) 1
    (by decide)
  obtain ⟨-, writes, conversely⟩ := @vectored_exact_iff Nat sixBytes 0x10000 0 program
    (fun _ => ⟨0, 0⟩) 2 (by decide)
  have two : (2 : Int32).toInt.toNat = 2 := by decide
  rw [two] at writes conversely
  have both := writes ⟨by decide, fun j lower upper => by change 2 ≤ j at lower; omega⟩
  exact ⟨⟨reads.mpr ⟨by decide, fun v _ => .inr (.inl rfl)⟩, by decide⟩, both, by decide,
    (conversely sixBytes_lasting both).2⟩

end Vfs
end Xv6Duo
