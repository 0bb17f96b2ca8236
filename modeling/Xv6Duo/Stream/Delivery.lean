import Xv6Duo.Stream.Pipe
import Xv6Duo.Stream.Console
import Mathlib.Data.List.GetD

/-!
# Reads into user memory

`piperead` and `consoleread` with the copies of single bytes to user memory, which fail where the
memory cannot be written. Both take a byte from the buffer before they store it.
-/

namespace Xv6Duo
namespace Delivery

open RingBuffer

/-! ## User memory -/

/-- The memory of a process. -/
structure UserMemory where
  /-- Bytes. -/
  bytes : UInt64 → UInt8
  /-- A byte can be stored at the address. -/
  writable : UInt64 → Bool

/-- `copyout` of one byte. -/
def UserMemory.copyout (mem : UserMemory) (dst : UInt64) (c : UInt8) : Option UserMemory :=
  if mem.writable dst then some { mem with bytes := Function.update mem.bytes dst c } else none

/-- The memory with a list of bytes from an address on. -/
def UserMemory.store (mem : UserMemory) (dst : UInt64) (source : List UInt8) : UserMemory :=
  { mem with bytes := fun a => source.getD (a - dst).toNat (mem.bytes a) }

/-- The first bytes from an address on can be stored. -/
def UserMemory.Accepts (mem : UserMemory) (dst : UInt64) (count : Nat) : Prop :=
  ∀ k < count, mem.writable (dst + UInt64.ofNat k) = true

variable {mem : UserMemory} {dst : UInt64} {c : UInt8}

theorem store_nil (mem : UserMemory) (dst : UInt64) : mem.store dst [] = mem := rfl

theorem copyout_of_writable (writable : mem.writable dst = true) :
    mem.copyout dst c = some (mem.store dst [c]) := by
  rw [UserMemory.copyout, if_pos writable, UserMemory.store]
  congr 2
  funext a
  cases Decidable.em (a = dst) with
  | inl same => simp [same]
  | inr differ =>
      have apart : (a - dst).toNat ≠ 0 := by
        have := UInt64.toNat_inj.not.mpr differ
        have := dst.toNat_lt
        have := a.toNat_lt
        rw [UInt64.toNat_sub]
        omega
      rw [Function.update_of_ne differ, List.getD_eq_default]
      simp only [List.length_singleton]
      omega

theorem copyout_eq_some {after : UserMemory} (stored : mem.copyout dst c = some after) :
    mem.writable dst = true ∧ after = mem.store dst [c] := by
  cases writable : mem.writable dst with
  | false => simp [UserMemory.copyout, writable] at stored
  | true =>
      rw [copyout_of_writable writable] at stored
      exact ⟨rfl, (Option.some.inj stored).symm⟩

/-- A byte and then the bytes behind it. -/
theorem store_cons {source : List UInt8} (fits : source.length < 2 ^ 64 - 1) :
    (mem.store dst [c]).store (dst + 1) source = mem.store dst (c :: source) := by
  simp only [UserMemory.store]
  congr 1
  funext a
  cases Decidable.em (a = dst) with
  | inl same =>
      have wraps : (a - (dst + 1)).toNat = 2 ^ 64 - 1 := by
        rw [same, UInt64.toNat_sub, UInt64.toNat_add, show (1 : UInt64).toNat = 1 from rfl]
        have := dst.toNat_lt
        omega
      rw [List.getD_eq_default _ _ (by omega), same]
      simp
  | inr differ =>
      have next : (a - dst).toNat = (a - (dst + 1)).toNat + 1 := by
        have apart : a.toNat ≠ dst.toNat := UInt64.toNat_inj.not.mpr differ
        rw [UInt64.toNat_sub, UInt64.toNat_sub, UInt64.toNat_add,
          show (1 : UInt64).toNat = 1 from rfl]
        have := dst.toNat_lt
        have := a.toNat_lt
        omega
      rw [next, List.getD_cons_succ, List.getD_cons_succ, List.getD_nil]

theorem accepts_zero : mem.Accepts dst 0 := fun _ no => absurd no (Nat.not_lt_zero _)

/-- The first byte and the others. -/
theorem accepts_succ {count : Nat} :
    mem.Accepts dst (count + 1) ↔
      mem.writable dst = true ∧ (mem.store dst [c]).Accepts (dst + 1) count := by
  have shift (k : Nat) : dst + UInt64.ofNat (k + 1) = dst + 1 + UInt64.ofNat k := by
    rw [UInt64.ofNat_add, UInt64.add_comm (UInt64.ofNat k), UInt64.add_assoc]
    rfl
  constructor
  · intro accepts
    refine ⟨?_, fun k k_lt => ?_⟩
    · simpa using accepts 0 (Nat.succ_pos count)
    · have writable := accepts (k + 1) (by omega)
      rwa [shift] at writable
  · rintro ⟨first, rest⟩ k k_lt
    cases k with
    | zero => simpa using first
    | succ k =>
        rw [shift]
        exact rest k (by omega)

/-- What a read that returns should do: a count that is not negative is the number of bytes taken
from the front of what was buffered and stored in order, and an error takes nothing. -/
structure Exact (mem : UserMemory) (dst : UInt64) (buffered : List UInt8) (result : Int)
    (left : List UInt8) (after : UserMemory) : Prop where
  /-- The bytes are taken and stored. -/
  count : 0 ≤ result → result.toNat ≤ buffered.length ∧ left = buffered.drop result.toNat ∧
    after = mem.store dst (buffered.take result.toNat)
  /-- Nothing is taken. -/
  error : result < 0 → left = buffered ∧ after = mem

/-! ## Pipes -/

open Xv6Duo.Stream (Pipe)

/-- The second loop of `piperead`: the count, the pipe and the memory. -/
def pipeLoop (addr : UInt64) : Nat → Nat → Pipe → UserMemory → Nat × Pipe × UserMemory
  | 0, i, pi, mem => (i, pi, mem)
  | rest + 1, i, pi, mem =>
      if pi.nread = pi.nwrite then (i, pi, mem)
      else
        let ch := pi.data (pi.nread.toNat % Stream.pipesize)
        let pi := { pi with nread := pi.nread + 1 }
        match mem.copyout (addr + UInt64.ofNat i) ch with
        | none => (i, pi, mem)
        | some mem => pipeLoop addr rest (i + 1) pi mem

/-- `piperead` from the test of its first loop on: the result, the pipe and the memory, unless it
goes to sleep; then it comes back to the test with the pipe of that time. -/
def piperead (killed : Bool) (pi : Pipe) (mem : UserMemory) (addr : UInt64) (n : Int32) :
    Option (Int × Pipe × UserMemory) :=
  if pi.nread = pi.nwrite ∧ pi.writeopen = true then
    if killed then some (-1, pi, mem) else none
  else
    let (i, pi, mem) := pipeLoop addr n.toInt.toNat 0 pi mem
    some (i, pi, mem)

/-- How the loop ends: all bytes are taken and stored, or one is taken that cannot be stored. -/
inductive PipeEnd (pi : Pipe) (mem : UserMemory) (dst : UInt64) (rest i : Nat) :
    Nat × Pipe × UserMemory → Prop
  /-- All bytes are stored. -/
  | stored {after : Pipe} (accepts : mem.Accepts dst (min rest pi.contents.length))
      (contents : after.contents = pi.contents.drop (min rest pi.contents.length)) :
      PipeEnd pi mem dst rest i (i + min rest pi.contents.length, after,
        mem.store dst (pi.contents.take (min rest pi.contents.length)))
  /-- A byte is lost. -/
  | lost {k : Nat} {after : Pipe} {left : UserMemory} (below : k < min rest pi.contents.length)
      (fails : ¬mem.Accepts dst (min rest pi.contents.length))
      (contents : after.contents = pi.contents.drop (k + 1)) :
      PipeEnd pi mem dst rest i (i + k, after, left)

theorem pipeEnd_of_none {pi : Pipe} {rest : Nat} (none : min rest pi.contents.length = 0)
    (i : Nat) :
    PipeEnd pi mem dst rest i (i, pi, mem) := by
  have ended : PipeEnd pi mem dst rest i (i + min rest pi.contents.length, pi,
      mem.store dst (pi.contents.take (min rest pi.contents.length))) :=
    .stored (none ▸ accepts_zero) (by rw [none, List.drop_zero])
  rwa [none, List.take_zero, store_nil] at ended

/-- A byte is stored before the loop goes on. -/
theorem pipeEnd_of_next {pi next : Pipe} {rest i : Nat} {result : Nat × Pipe × UserMemory}
    (rest_lt : rest < 2 ^ 32) (popped : pi.contents = c :: next.contents)
    (writable : mem.writable dst = true)
    (ended : PipeEnd next (mem.store dst [c]) (dst + 1) rest (i + 1) result) :
    PipeEnd pi mem dst (rest + 1) i result := by
  have more : min (rest + 1) pi.contents.length = min rest next.contents.length + 1 := by
    rw [popped, List.length_cons]
    omega
  cases ended with
  | stored accepts contents =>
      rename_i after
      have whole : PipeEnd pi mem dst (rest + 1) i (i + min (rest + 1) pi.contents.length, after,
          mem.store dst (pi.contents.take (min (rest + 1) pi.contents.length))) :=
        .stored (more ▸ accepts_succ.mpr ⟨writable, accepts⟩)
          (by rw [more, popped, List.drop_succ_cons, contents])
      have short : (next.contents.take (min rest next.contents.length)).length < 2 ^ 64 - 1 := by
        rw [List.length_take]
        omega
      rw [store_cons short]
      rwa [more, popped, List.take_succ_cons, show i + (min rest next.contents.length + 1) =
        i + 1 + min rest next.contents.length by omega] at whole
  | lost below fails contents =>
      rename_i k after left
      have whole : PipeEnd pi mem dst (rest + 1) i (i + (k + 1), after, left) :=
        .lost (by omega) (fun accepts => fails (accepts_succ.mp (more ▸ accepts)).2)
          (by rw [popped, List.drop_succ_cons, contents])
      rwa [show i + (k + 1) = i + 1 + k by omega] at whole

theorem pipeLoop_end (addr : UInt64) {rest : Nat} (rest_lt : rest < 2 ^ 32) (i : Nat) (pi : Pipe)
    (mem : UserMemory) :
    PipeEnd pi mem (addr + UInt64.ofNat i) rest i (pipeLoop addr rest i pi mem) := by
  induction rest generalizing i pi mem with
  | zero => exact pipeEnd_of_none (Nat.zero_min _) i
  | succ rest ih =>
      rw [pipeLoop]
      split
      · next empty =>
          refine pipeEnd_of_none ?_ i
          rw [Pipe.contents, empty, contents_self]
          exact Nat.min_zero _
      · next differs =>
          have popped : pi.contents = pi.data (pi.nread.toNat % Stream.pipesize) ::
              Pipe.contents { pi with nread := pi.nread + 1 } :=
            contents_pop Stream.pipesize_dvd pi.data (Ne.symm differs)
          cases writable : mem.writable (addr + UInt64.ofNat i) with
          | false =>
              simp only [UserMemory.copyout, writable, Bool.false_eq_true, if_false]
              have some_byte : 0 < min (rest + 1) pi.contents.length := by
                rw [popped, List.length_cons]
                omega
              refine .lost (k := 0) some_byte (fun accepts => ?_) ?_
              · have first := accepts 0 some_byte
                rw [show UInt64.ofNat 0 = 0 from rfl, UInt64.add_zero, writable] at first
                cases first
              · rw [popped]
                rfl
          | true =>
              simp only [copyout_of_writable writable]
              have at_next : addr + UInt64.ofNat (i + 1) = addr + UInt64.ofNat i + 1 := by
                rw [UInt64.ofNat_add, ← UInt64.add_assoc]
                rfl
              have ended := ih (by omega) (i + 1) { pi with nread := pi.nread + 1 }
                (mem.store (addr + UInt64.ofNat i) [pi.data (pi.nread.toNat % Stream.pipesize)])
              rw [at_next] at ended
              exact pipeEnd_of_next (by omega) popped writable ended

/-- A read of a pipe that returns is exact if and only if all bytes that it reaches can be
stored. -/
theorem piperead_exact_iff {killed : Bool} {pi after : Pipe} {left : UserMemory} {addr : UInt64}
    {n : Int32} {result : Int} (run : piperead killed pi mem addr n = some (result, after, left)) :
    Exact mem addr pi.contents result after.contents left ↔
      mem.Accepts addr (min n.toInt.toNat pi.contents.length) := by
  rw [piperead] at run
  split at run
  · next waits =>
      have none : pi.contents = [] := by rw [Pipe.contents, waits.1, contents_self]
      split at run
      · obtain ⟨rfl, rest⟩ := Prod.mk.inj (Option.some.inj run)
        obtain ⟨rfl, rfl⟩ := Prod.mk.inj rest
        refine iff_of_true ⟨fun no => absurd no (by decide), fun _ => ⟨rfl, rfl⟩⟩ ?_
        rw [none]
        exact Nat.min_zero _ ▸ accepts_zero
      · cases run
  · have n_lt : n.toInt.toNat < 2 ^ 32 := by
      have := n.toInt_lt
      omega
    have ended := pipeLoop_end addr n_lt 0 pi mem
    rw [show UInt64.ofNat 0 = 0 from rfl, UInt64.add_zero] at ended
    obtain ⟨rfl, rest⟩ := Prod.mk.inj (Option.some.inj run)
    obtain ⟨rfl, rfl⟩ := Prod.mk.inj rest
    generalize pipeLoop addr n.toInt.toNat 0 pi mem = result at ended ⊢
    cases ended with
    | stored accepts contents =>
        refine iff_of_true ⟨fun _ => ?_, fun no => absurd no (by simp only; omega)⟩ accepts
        simp only [Nat.zero_add, Int.toNat_natCast]
        exact ⟨Nat.min_le_right _ _, contents, trivial⟩
    | lost below fails contents =>
        refine iff_of_false (fun exact => fails ?_) fails
        rename_i k after left
        have count := (exact.count (by simp only; omega)).2.1
        simp only [Nat.zero_add, Int.toNat_natCast, contents] at count
        have lengths := congrArg List.length count
        rw [List.length_drop, List.length_drop] at lengths
        omega

/-! ## The console -/

open Console (Cons ctrlD newline inputBufSize)

/-- The loop of `consoleread` with `n` of `target` bytes to go. The process wakes up with each
console of the list in turn, and when it would sleep once more it has been killed. A call that
returns before the last wake-up is another call. -/
def consoleLoop (target : Nat) (wakes : List Cons) (n : Nat) (dst : UInt64) (cons : Cons)
    (mem : UserMemory) : Option (Int × Cons × UserMemory) :=
  match n with
  | 0 => if wakes = [] then some (target, cons, mem) else none
  | n + 1 =>
      if cons.r = cons.w then
        match wakes with
        | [] => some (-1, cons, mem)
        | next :: wakes => consoleLoop target wakes (n + 1) dst next mem
      else
        let c := cons.buf (cons.r.toNat % inputBufSize)
        let next := { cons with r := cons.r + 1 }
        if c = ctrlD then
          if wakes = [] then
            some (target - (n + 1), if n + 1 < target then { next with r := next.r - 1 }
              else next, mem)
          else none
        else
          match mem.copyout dst c with
          | none => if wakes = [] then some (target - (n + 1), next, mem) else none
          | some mem =>
              if c = newline then if wakes = [] then some (target - n, next, mem) else none
              else consoleLoop target wakes n (dst + 1) next mem
termination_by (wakes.length, n)

/-- `consoleread`. -/
def consoleread (wakes : List Cons) (cons : Cons) (mem : UserMemory) (dst : UInt64) (n : Int32) :
    Option (Int × Cons × UserMemory) :=
  consoleLoop n.toInt.toNat wakes n.toInt.toNat dst cons mem

/-- What is in the buffer at the call and at each wake-up: a process that sleeps has emptied it. -/
def buffered (cons : Cons) (wakes : List Cons) : List UInt8 :=
  cons.waiting ++ wakes.flatMap Cons.waiting

/-- The bytes that a read of at most `n` bytes delivers. -/
def line : Nat → List UInt8 → List UInt8
  | 0, _ => []
  | _, [] => []
  | n + 1, c :: text => if c = ctrlD then [] else if c = newline then [c] else c :: line n text

/-- The text ends a read of at most `n` bytes. -/
def ends : Nat → List UInt8 → Bool
  | 0, _ => true
  | _, [] => false
  | n + 1, c :: text => c = ctrlD || c = newline || ends n text

/-- How a read with `n` of `target` bytes to go ends. -/
inductive ConsoleEnd (target n : Nat) (text : List UInt8) (mem : UserMemory) (dst : UInt64) :
    Int × Cons × UserMemory → Prop
  /-- All bytes are stored. -/
  | stored {after : Cons} (accepts : mem.Accepts dst (line n text).length)
      (stops : ends n text = true) (fresh : n = target → 0 < n → text.head? ≠ some ctrlD)
      (left : after.waiting = text.drop (line n text).length) :
      ConsoleEnd target n text mem dst
        ((target - n : Int) + (line n text).length, after, mem.store dst (line n text))
  /-- A byte is lost. -/
  | lost {k : Nat} {after : Cons} {mem' : UserMemory} (below : k < (line n text).length)
      (fails : ¬mem.Accepts dst (line n text).length) (left : after.waiting = text.drop (k + 1)) :
      ConsoleEnd target n text mem dst ((target - n : Int) + k, after, mem')
  /-- The end of file is taken. -/
  | eof {after : Cons} (fresh : n = target) (some_left : 0 < n) (first : text.head? = some ctrlD)
      (left : after.waiting = text.drop 1) : ConsoleEnd target n text mem dst (0, after, mem)
  /-- The process is killed. -/
  | killed {after : Cons} (goes : ends n text = false) (left : after.waiting = []) :
      ConsoleEnd target n text mem dst (-1, after, mem.store dst (line n text))

theorem length_line_le (n : Nat) (text : List UInt8) :
    (line n text).length ≤ n ∧ (line n text).length ≤ text.length := by
  induction text generalizing n with
  | nil => cases n <;> simp [line]
  | cons c text ih =>
      cases n with
      | zero => simp [line]
      | succ n =>
          have rest := ih n
          rw [line]
          split
          · simp
          · split
            · simp
            · simp only [List.length_cons]
              omega

theorem line_prefix (n : Nat) (text : List UInt8) :
    line n text = text.take (line n text).length := by
  induction text generalizing n with
  | nil => cases n <;> rfl
  | cons c text ih =>
      cases n with
      | zero => rfl
      | succ n =>
          rw [line]
          split
          · rfl
          · split
            · rfl
            · rw [List.length_cons, List.take_succ_cons, ← ih]

/-- A text that does not end a read is delivered as a whole. -/
theorem line_of_goes {n : Nat} {text : List UInt8} (goes : ends n text = false) :
    line n text = text := by
  induction text generalizing n with
  | nil => cases n <;> rfl
  | cons c text ih =>
      cases n with
      | zero => cases goes
      | succ n =>
          rw [ends, Bool.or_eq_false_iff, Bool.or_eq_false_iff] at goes
          obtain ⟨⟨inside, goes_on⟩, rest⟩ := goes
          rw [line, if_neg (by simpa using inside), if_neg (by simpa using goes_on), ih rest]

/-- A byte is stored before the loop goes on. -/
theorem consoleEnd_of_next {target n : Nat} {text : List UInt8} {result : Int × Cons × UserMemory}
    (n_lt : n < target) (target_lt : target < 2 ^ 32) (inside : c ≠ ctrlD) (goes_on : c ≠ newline)
    (writable : mem.writable dst = true)
    (ended : ConsoleEnd target n text (mem.store dst [c]) (dst + 1) result) :
    ConsoleEnd target (n + 1) (c :: text) mem dst result := by
  have line_eq : line (n + 1) (c :: text) = c :: line n text := by
    rw [line, if_neg inside, if_neg goes_on]
  have ends_eq : ends (n + 1) (c :: text) = ends n text := by
    rw [ends, decide_eq_false inside, decide_eq_false goes_on, Bool.false_or, Bool.false_or]
  have length_eq : (line (n + 1) (c :: text)).length = (line n text).length + 1 := by
    rw [line_eq, List.length_cons]
  have short : (line n text).length < 2 ^ 64 - 1 := by
    have := (length_line_le n text).1
    omega
  cases ended with
  | stored accepts stops fresh left =>
      rename_i after
      have whole : ConsoleEnd target (n + 1) (c :: text) mem dst
          ((target - (n + 1 : Nat) : Int) + (line (n + 1) (c :: text)).length, after,
            mem.store dst (line (n + 1) (c :: text))) := by
        refine .stored ?_ (ends_eq.trans stops) (fun _ _ => ?_) ?_
        · rw [length_eq]
          exact accepts_succ.mpr ⟨writable, accepts⟩
        · rw [List.head?_cons]
          exact fun same => inside (Option.some.inj same)
        · rw [length_eq, List.drop_succ_cons, left]
      rw [store_cons short, ← line_eq]
      rwa [length_eq, show (target - (n + 1 : Nat) : Int) + ((line n text).length + 1 : Nat) =
        target - n + (line n text).length by omega] at whole
  | lost below fails left =>
      rename_i k after mem'
      have whole : ConsoleEnd target (n + 1) (c :: text) mem dst
          ((target - (n + 1 : Nat) : Int) + (k + 1 : Nat), after, mem') := by
        refine .lost (by omega) (fun accepts => fails ?_) ?_
        · rw [length_eq] at accepts
          exact (accepts_succ.mp accepts).2
        · rw [List.drop_succ_cons, left]
      rwa [show (target - (n + 1 : Nat) : Int) + (k + 1 : Nat) = target - n + k by omega] at whole
  | eof fresh some_left first left => exact absurd fresh (Nat.ne_of_lt n_lt)
  | killed goes left =>
      rw [store_cons short, ← line_eq]
      exact .killed (ends_eq.trans goes) left

/-- An empty buffer is followed by that of the next wake-up. -/
theorem buffered_of_empty {cons next : Cons} {wakes : List Cons} (empty : cons.r = cons.w) :
    buffered cons (next :: wakes) = buffered next wakes := by
  rw [buffered, Cons.waiting, empty, contents_self, buffered, List.flatMap_cons, List.nil_append]

theorem buffered_of_ne {cons : Cons} (differs : cons.r ≠ cons.w) (wakes : List Cons) :
    buffered cons wakes = cons.buf (cons.r.toNat % inputBufSize) ::
      buffered { cons with r := cons.r + 1 } wakes := by
  have popped : cons.waiting = cons.buf (cons.r.toNat % inputBufSize) ::
      Cons.waiting { cons with r := cons.r + 1 } :=
    contents_pop Console.inputBufSize_dvd cons.buf (Ne.symm differs)
  rw [buffered, popped, buffered]
  rfl

theorem buffered_nil (cons : Cons) : buffered cons [] = cons.waiting := List.append_nil _

theorem consoleEnd_zero (target : Nat) {cons : Cons} :
    ConsoleEnd target 0 cons.waiting mem dst (target, cons, mem) := by
  have ended : ConsoleEnd target 0 cons.waiting mem dst ((target - (0 : Nat) : Int) +
      (line 0 cons.waiting).length, cons, mem.store dst (line 0 cons.waiting)) :=
    .stored accepts_zero rfl (fun _ no => absurd no (Nat.lt_irrefl 0)) rfl
  simpa [line, store_nil] using ended

theorem consoleEnd_killed (target n : Nat) {cons : Cons} (empty : cons.r = cons.w) :
    ConsoleEnd target (n + 1) cons.waiting mem dst (-1, cons, mem) := by
  have none : cons.waiting = [] := by rw [Cons.waiting, empty, contents_self]
  have ended : ConsoleEnd target (n + 1) [] mem dst (-1, cons, mem.store dst (line (n + 1) [])) :=
    .killed rfl none
  rwa [none]

/-- An end of file is taken if nothing has been delivered, else it is put back. -/
theorem consoleEnd_eof {target n : Nat} (n_le : n + 1 ≤ target) {cons : Cons} {text : List UInt8}
    (waiting : cons.waiting = ctrlD :: text)
    (next_waiting : Cons.waiting { cons with r := cons.r + 1 } = text) :
    ConsoleEnd target (n + 1) cons.waiting mem dst ((target - (n + 1 : Nat) : Int),
      if n + 1 < target then { cons with r := cons.r + 1 - 1 } else { cons with r := cons.r + 1 },
      mem) := by
  rw [waiting]
  have line_eq : line (n + 1) (ctrlD :: text) = [] := by rw [line, if_pos rfl]
  split
  · next started =>
      have back : ({ cons with r := cons.r + 1 - 1 } : Cons) = cons := by simp
      have ended : ConsoleEnd target (n + 1) (ctrlD :: text) mem dst
        ((target - (n + 1 : Nat) : Int) + (line (n + 1) (ctrlD :: text)).length, cons,
          mem.store dst (line (n + 1) (ctrlD :: text))) := by
        refine .stored ?_ rfl (fun same => absurd same (Nat.ne_of_lt started)) ?_
        · rw [line_eq]
          exact accepts_zero
        · rw [line_eq]
          exact waiting
      rw [back]
      simpa [line_eq, store_nil] using ended
  · next fresh =>
      have same : n + 1 = target := by omega
      rw [same, Int.sub_self]
      exact .eof rfl (by omega) rfl next_waiting

/-- A byte that cannot be stored is lost. -/
theorem consoleEnd_lost {target n : Nat} {text : List UInt8} {after : Cons} {mem' : UserMemory}
    (inside : c ≠ ctrlD) (fails : mem.writable dst = false) (left : after.waiting = text) :
    ConsoleEnd target (n + 1) (c :: text) mem dst
      ((target - (n + 1 : Nat) : Int), after, mem') := by
  have some_byte : 0 < (line (n + 1) (c :: text)).length := by
    rw [line, if_neg inside]
    split <;> simp
  have ended : ConsoleEnd target (n + 1) (c :: text) mem dst
      ((target - (n + 1 : Nat) : Int) + (0 : Nat), after, mem') := by
    refine .lost some_byte (fun accepts => ?_) left
    have first := accepts 0 some_byte
    rw [show UInt64.ofNat 0 = 0 from rfl, UInt64.add_zero, fails] at first
    cases first
  simpa using ended

/-- A newline is the last byte. -/
theorem consoleEnd_newline {target n : Nat} {text : List UInt8} {after : Cons}
    (writable : mem.writable dst = true) (left : after.waiting = text) :
    ConsoleEnd target (n + 1) (newline :: text) mem dst
      ((target - n : Int), after, mem.store dst [newline]) := by
  have line_eq : line (n + 1) (newline :: text) = [newline] := by
    rw [line, if_neg (by decide), if_pos rfl]
  have ended : ConsoleEnd target (n + 1) (newline :: text) mem dst
      ((target - (n + 1 : Nat) : Int) + (line (n + 1) (newline :: text)).length, after,
        mem.store dst (line (n + 1) (newline :: text))) := by
    refine .stored ?_ ?_ (fun _ _ => ?_) ?_
    · rw [line_eq]
      exact (accepts_succ (c := newline)).mpr ⟨writable, accepts_zero⟩
    · rw [ends]
      rfl
    · rw [List.head?_cons]
      decide
    · rw [line_eq]
      exact left
  rw [line_eq] at ended
  rwa [show (target - (n + 1 : Nat) : Int) + ([newline] : List UInt8).length = target - n by
    simp only [List.length_singleton]; omega] at ended

theorem consoleLoop_end {target : Nat} (target_lt : target < 2 ^ 32) {wakes : List Cons} {n : Nat}
    (n_le : n ≤ target) {cons : Cons} {result : Int × Cons × UserMemory}
    (run : consoleLoop target wakes n dst cons mem = some result) :
    ConsoleEnd target n (buffered cons wakes) mem dst result := by
  fun_induction consoleLoop target wakes n dst cons mem with
  | case1 dst cons mem =>
      obtain rfl := Option.some.inj run
      rw [buffered_nil]
      exact consoleEnd_zero target
  | case2 => cases run
  | case3 dst cons mem n empty =>
      obtain rfl := Option.some.inj run
      rw [buffered_nil]
      exact consoleEnd_killed target n empty
  | case4 dst cons mem n empty next wakes ih =>
      rw [buffered_of_empty empty]
      exact ih n_le run
  | case5 dst cons mem n differs c next ends_here =>
      obtain rfl := Option.some.inj run
      have waiting := buffered_of_ne differs []
      rw [buffered_nil, buffered_nil] at waiting
      rw [buffered_nil]
      exact consoleEnd_eof n_le (waiting.trans (congrArg (· :: _) ends_here)) rfl
  | case6 => cases run
  | case7 dst cons mem n differs c next inside fails =>
      obtain rfl := Option.some.inj run
      rw [buffered_of_ne differs, buffered_nil]
      refine consoleEnd_lost inside ?_ rfl
      cases writable : mem.writable dst with
      | false => rfl
      | true =>
          rw [copyout_of_writable writable] at fails
          cases fails
  | case8 => cases run
  | case9 dst cons mem n differs c next inside mem' stored is_newline =>
      obtain rfl := Option.some.inj run
      obtain ⟨writable, rfl⟩ := copyout_eq_some stored
      rw [buffered_of_ne differs, buffered_nil, show cons.buf _ = newline from is_newline]
      rw [show c = newline from is_newline]
      exact consoleEnd_newline writable rfl
  | case10 => cases run
  | case11 wakes dst cons mem n differs c next inside mem' stored goes_on ih =>
      obtain ⟨writable, rfl⟩ := copyout_eq_some stored
      rw [buffered_of_ne differs]
      exact consoleEnd_of_next (by omega) target_lt inside goes_on writable (ih (by omega) run)

/-- A read of the console that returns is exact if and only if all bytes of its line can be stored,
an end of file is not its first byte, and it is not killed after it has taken some. -/
theorem consoleread_exact_iff {wakes : List Cons} {cons after : Cons} {left : UserMemory}
    {n : Int32}
    {result : Int} (run : consoleread wakes cons mem dst n = some (result, after, left)) :
    Exact mem dst (buffered cons wakes) result after.waiting left ↔
      mem.Accepts dst (line n.toInt.toNat (buffered cons wakes)).length ∧
        (0 < n.toInt.toNat → (buffered cons wakes).head? ≠ some ctrlD) ∧
        (ends n.toInt.toNat (buffered cons wakes) = true ∨ buffered cons wakes = []) := by
  have n_lt : n.toInt.toNat < 2 ^ 32 := by
    have := n.toInt_lt
    omega
  have ended := consoleLoop_end n_lt le_rfl run
  generalize buffered cons wakes = text at ended ⊢
  generalize n.toInt.toNat = count at ended ⊢
  have bounds := length_line_le count text
  cases ended with
  | stored accepts stops fresh left_eq =>
      refine iff_of_true ⟨fun _ => ?_, fun no => absurd no (by omega)⟩
        ⟨accepts, fresh rfl, Or.inl stops⟩
      rw [Int.sub_self, Int.zero_add, Int.toNat_natCast]
      refine ⟨bounds.2, left_eq, ?_⟩
      rw [← line_prefix]
  | lost below fails left_eq =>
      rename_i k
      refine iff_of_false (fun exact => ?_) fun all => fails all.1
      have drop_eq := (exact.count (by omega)).2.1
      rw [left_eq, Int.sub_self, Int.zero_add, Int.toNat_natCast] at drop_eq
      have lengths := congrArg List.length drop_eq
      rw [List.length_drop, List.length_drop] at lengths
      omega
  | eof fresh some_left first left_eq =>
      refine iff_of_false (fun exact => ?_) fun all => all.2.1 some_left first
      have drop_eq := (exact.count le_rfl).2.1
      rw [left_eq, Int.toNat_zero] at drop_eq
      cases text with
      | nil => cases first
      | cons c rest =>
          have lengths := congrArg List.length drop_eq
          simp at lengths
  | killed goes left_eq =>
      rw [goes]
      cases text with
      | nil =>
          refine iff_of_true ⟨fun no => absurd no (by decide), fun _ => ⟨left_eq, ?_⟩⟩
            ⟨?_, ?_, Or.inr rfl⟩
          · rw [line_of_goes goes, store_nil]
          · rw [line_of_goes goes]
            exact accepts_zero
          · exact fun _ no => by cases no
      | cons c rest =>
          refine iff_of_false (fun exact => ?_) fun all => ?_
          · have same := (exact.error (by decide)).1
            rw [left_eq] at same
            cases same
          · cases all.2.2 with
            | inl no => cases no
            | inr no => cases no

/-! ## Both -/

/-- Reads of pipes and of the console are exact only as long as the bytes can be stored; a read of
the console also takes an end of file, and a process that is killed loses the bytes it has read. -/
theorem reads_exact_iff (mem left : UserMemory) (dst : UInt64) (n : Int32) (result : Int) :
    (∀ (killed : Bool) (pi after : Pipe),
      piperead killed pi mem dst n = some (result, after, left) →
      (Exact mem dst pi.contents result after.contents left ↔
        mem.Accepts dst (min n.toInt.toNat pi.contents.length))) ∧
    (∀ (wakes : List Cons) (cons after : Cons),
      consoleread wakes cons mem dst n = some (result, after, left) →
      (Exact mem dst (buffered cons wakes) result after.waiting left ↔
        mem.Accepts dst (line n.toInt.toNat (buffered cons wakes)).length ∧
          (0 < n.toInt.toNat → (buffered cons wakes).head? ≠ some ctrlD) ∧
          (ends n.toInt.toNat (buffered cons wakes) = true ∨ buffered cons wakes = []))) :=
  ⟨fun _ _ _ run => piperead_exact_iff run, fun _ _ _ run => consoleread_exact_iff run⟩

/-- A pipe with one byte. -/
def onePipe : Pipe := ⟨fun _ => 65, 0, 1, true, true⟩

/-- A console with one line. -/
def oneLine : Cons := ⟨fun _ => newline, 0, 1, 1⟩

/-- Memory that can be written from an address on. -/
def memoryFrom (start : UInt64) : UserMemory := ⟨fun _ => 0, fun a => start ≤ a⟩

/-- A read to memory that cannot be written answers `0` and takes the byte. -/
theorem onePipe_loses : ∃ after left,
    piperead false onePipe (memoryFrom 4096) 0 1 = some (0, after, left) ∧
      ¬Exact (memoryFrom 4096) 0 onePipe.contents 0 after.contents left := by
  refine ⟨_, _, rfl, fun exact => ?_⟩
  have lengths := congrArg List.length (exact.count le_rfl).2.1
  exact absurd lengths (by decide)

/-- A read of the pipe and one of the console are exact. -/
theorem reads_are_exact :
    (∃ after left, piperead false onePipe (memoryFrom 0) 0 1 = some (1, after, left) ∧
      Exact (memoryFrom 0) 0 onePipe.contents 1 after.contents left) ∧
    (∃ after left, consoleread [] oneLine (memoryFrom 0) 0 1 = some (1, after, left) ∧
      Exact (memoryFrom 0) 0 (buffered oneLine []) 1 after.waiting left) := by
  have accepts (count : Nat) : (memoryFrom 0).Accepts 0 count := fun _ _ => by
    simp [memoryFrom]
  constructor
  · refine ⟨_, _, rfl, ?_⟩
    exact ((reads_exact_iff (memoryFrom 0) _ 0 1 1).1 false onePipe _ rfl).mpr (accepts _)
  · have run : consoleread [] oneLine (memoryFrom 0) 0 1 =
        some (1, { oneLine with r := 1 }, (memoryFrom 0).store 0 [newline]) := by
      have stored : (memoryFrom 0).copyout 0 newline = some ((memoryFrom 0).store 0 [newline]) :=
        copyout_of_writable rfl
      rw [consoleread, show (1 : Int32).toInt.toNat = 1 from rfl, consoleLoop]
      simp only [oneLine, stored]
      rfl
    refine ⟨_, _, run, ?_⟩
    exact ((reads_exact_iff (memoryFrom 0) _ 0 1 1).2 [] oneLine _ run).mpr
      ⟨accepts _, fun _ => by decide, Or.inl rfl⟩

end Delivery
end Xv6Duo
