import Xv6Duo.Fault
import Xv6Duo.Library.GuardedRun
import Xv6Duo.Library.RingBuffer

/-!
# Output through the UART

`uartputc`, `uartstart`, `uartintr` and `uartputc_sync` of `kernel/uart.c`. A step is a section
under `uart_tx_lock`, from its acquisition to its release or to `sleep`, a read of `ISR`, or the
device finishing a byte. Any number of processes print. The input half of `uartintr` is left out.

The bytes put into the queue and those handed to the device from it are recorded beside the queue.
-/

namespace Xv6Duo
namespace Uart

open RingBuffer

/-! ## Data -/

/-- `UART_TX_BUF_SIZE`. -/
def uartTxBufSize : Nat := 32

/-- The transmit output buffer. -/
structure Queue where
  /-- `uart_tx_buf`. -/
  txBuf : Nat → UInt8
  /-- `uart_tx_w`. -/
  txW : UInt64
  /-- `uart_tx_r`. -/
  txR : UInt64

/-- Where a process stands. A call that is not asleep waits for `uart_tx_lock`. -/
inductive Thread
  /-- In no call of `uartputc`. -/
  | idle
  /-- In `uartputc(c)`; asleep on `uart_tx_r` or not. -/
  | writer (asleep : Bool) (c : UInt32)

/-- The queue, the device, the processes and the record. -/
structure World (ι : Type) where
  /-- The transmit output buffer. -/
  queue : Queue
  /-- The holding register is not empty: `LSR_TX_IDLE` is clear. -/
  busy : Bool
  /-- The device asks for an interrupt because its holding register became empty. -/
  pending : Bool
  /-- Calls of `uartintr` that have read `ISR` and not yet called `uartstart`. -/
  handlers : Nat
  /-- `panicked`. -/
  panicked : Bool
  /-- Processes. -/
  thread : ι → Thread
  /-- Bytes put into the queue so far. -/
  put : List UInt8
  /-- Bytes written from the queue to `THR` so far. -/
  sent : List UInt8

/-! ## The device -/

variable {ι : Type}

/-- The device takes the byte out of its holding register and asks for an interrupt. -/
def World.drain (w : World ι) : World ι :=
  if w.busy = true then { w with busy := false, pending := true } else w

/-- The device when `LSR` is read, which finishes its byte just before or not. -/
def World.readLsr (drained : Bool) (w : World ι) : World ι := if drained = true then w.drain else w

/-- `ReadReg(ISR)`, which withdraws the request. -/
def World.readIsr (w : World ι) : World ι := { w with pending := false }

/-- `WriteReg(THR, c)`, which withdraws the request. -/
def World.writeThr (w : World ι) : World ι := { w with busy := true, pending := false }

/-! ## Sections -/

/-- `wakeup(&uart_tx_r)` for one process. -/
def wakeup : Thread → Thread
  | .writer _ c => .writer false c
  | .idle => .idle

/-- The end of the loop of `uartstart`: a byte goes from the queue to the device. -/
def World.transmit (w : World ι) : World ι :=
  { w.writeThr with
    queue := { w.queue with txR := w.queue.txR + 1 }
    thread := wakeup ∘ w.thread
    sent := w.sent ++ [w.queue.txBuf (w.queue.txR.toNat % uartTxBufSize)] }

/-- The loop of `uartstart` from round `i` on, for at most `rest` rounds. The device finishes its
byte before `LSR` is read in the rounds that `drained` says. -/
def uartstartLoop (drained : Nat → Bool) : Nat → Nat → World ι → World ι
  | 0, _, w => w
  | rest + 1, i, w =>
      if w.queue.txW = w.queue.txR then w.readIsr
      else
        let w := w.readLsr (drained i)
        if w.busy = true then w else uartstartLoop drained rest (i + 1) w.transmit

/-- `uartstart`. Every round but the last takes a byte out of the queue. -/
def uartstart (drained : Nat → Bool) (w : World ι) : World ι :=
  uartstartLoop drained ((w.queue.txW - w.queue.txR).toNat + 1) 0 w

/-- `uartintr` before it calls `uartstart`. -/
def World.enterUartintr (w : World ι) : World ι := { w.readIsr with handlers := w.handlers + 1 }

section

variable [DecidableEq ι]

/-- `uartputc` behind the test of `panicked`. -/
def uartputcSection (w : World ι) (p : ι) (c : UInt32) (drained : Nat → Bool) : World ι :=
  if w.queue.txW = w.queue.txR + UInt64.ofNat uartTxBufSize then
    { w with thread := Function.update w.thread p (.writer true c) }
  else
    uartstart drained { w with
      queue := { w.queue with
        txBuf := Function.update w.queue.txBuf (w.queue.txW.toNat % uartTxBufSize) c.toUInt8
        txW := w.queue.txW + 1 }
      put := w.put ++ [c.toUInt8]
      thread := Function.update w.thread p .idle }

/-! ## Runs -/

/-- What the processes, the interrupt handler and the device do. -/
inductive Label (ι : Type)
  /-- A process calls `uartputc`. -/
  | putc (p : ι) (c : UInt32) (drained : Nat → Bool)
  /-- A process that was woken goes on. -/
  | resume (p : ι) (drained : Nat → Bool)
  /-- `uartputc_sync` finds the holding register empty and fills it. -/
  | sync
  /-- The device finishes its byte. -/
  | drain
  /-- `uartintr` is called because the holding register became empty, and reads `ISR`. -/
  | interrupt
  /-- `uartintr` is called because input arrived, and reads `ISR`. -/
  | input
  /-- `uartintr` calls `uartstart`. -/
  | handle (drained : Nat → Bool)
  /-- The kernel panics. -/
  | panic

/-- One step. -/
def perform (w : World ι) : Label ι → Except Fault (World ι)
  | .putc p c drained =>
      if w.panicked = true then .error .loops else .ok (uartputcSection w p c drained)
  | .resume p drained =>
      match w.thread p with
      | .writer false c => .ok (uartputcSection w p c drained)
      | _ => .error .sleeps
  | .sync => if w.panicked = true ∨ w.busy = true then .error .loops else .ok w.writeThr
  | .drain => .ok w.drain
  | .interrupt => .ok w.enterUartintr
  | .input => .ok w.enterUartintr
  | .handle drained => .ok (uartstart drained { w with handlers := w.handlers - 1 })
  | .panic => .ok { w with panicked := true }

end

/-- A process that starts a call is in none, the device interrupts when it has asked to, and a
handler that goes on has read `ISR`. -/
def Permits (w : World ι) : Label ι → Prop
  | .putc p _ _ => w.thread p = .idle
  | .interrupt => w.pending = true
  | .handle _ => 0 < w.handlers
  | _ => True

/-- Behind `uartinit`, with a buffer of any content. The device may ask for bytes as soon as
interrupts are enabled. -/
def World.initial (ι : Type) (page : Nat → UInt8) (pending : Bool) : World ι where
  queue := ⟨page, 0, 0⟩
  busy := false
  pending := pending
  handlers := 0
  panicked := false
  thread _ := .idle
  put := []
  sent := []

/-! ## The queue -/

/-- The bytes in the queue. The size divides `2 ^ 32`, so the low halves of the counters say where
they are. -/
def Queue.contents (q : Queue) : List UInt8 :=
  RingBuffer.contents uartTxBufSize q.txBuf q.txR.toUInt32 q.txW.toUInt32

/-- There are not more bytes than fit. -/
def Queue.Fits (q : Queue) : Prop := (q.txW - q.txR).toNat ≤ uartTxBufSize

/-- The queue is full. -/
def Queue.Full (q : Queue) : Prop := q.txW = q.txR + UInt64.ofNat uartTxBufSize

variable {q : Queue}

theorem uartTxBufSize_dvd : uartTxBufSize ∣ 2 ^ 32 := by decide

theorem cell_low (n : UInt64) : n.toUInt32.toNat % uartTxBufSize = n.toNat % uartTxBufSize := by
  rw [UInt64.toNat_toUInt32]
  exact Nat.mod_mod_of_dvd n.toNat uartTxBufSize_dvd

/-- The counters run ahead of each other by the number of bytes. -/
theorem Queue.Fits.length (fits : q.Fits) :
    q.contents.length = (q.txW - q.txR).toNat := by
  have small : (q.txW - q.txR).toNat < 2 ^ 32 := fits.trans_lt (by decide)
  rw [Queue.contents, length_contents, distance, ← UInt64.toUInt32_sub, UInt64.toNat_toUInt32,
    Nat.mod_eq_of_lt small]

theorem Queue.Fits.length_le (fits : q.Fits) : q.contents.length ≤ uartTxBufSize := by
  rw [fits.length]
  exact fits

theorem ahead_iff {stop start more : UInt64} :
    stop = start + more ↔ (stop - start).toNat = more.toNat := by
  rw [UInt64.toNat_inj, UInt64.add_comm]
  constructor
  · rintro rfl
    exact UInt64.add_sub_cancel more start
  · rintro rfl
    exact (UInt64.sub_add_cancel stop start).symm

theorem Queue.Fits.full_iff (fits : q.Fits) : q.Full ↔ q.contents.length = uartTxBufSize := by
  rw [Queue.Full, ahead_iff, fits.length]
  rfl

theorem Queue.Fits.empty_iff (fits : q.Fits) : q.txW = q.txR ↔ q.contents = [] := by
  rw [← List.length_eq_zero_iff, fits.length, ← UInt64.add_zero q.txR, ahead_iff, UInt64.add_zero]
  rfl

/-- A byte is put into a queue that is not full. -/
theorem Queue.Fits.push (fits : q.Fits) (room : ¬ q.Full) (c : UInt8) :
    Queue.Fits ⟨Function.update q.txBuf (q.txW.toNat % uartTxBufSize) c, q.txW + 1, q.txR⟩ ∧
      Queue.contents ⟨Function.update q.txBuf (q.txW.toNat % uartTxBufSize) c, q.txW + 1, q.txR⟩ =
        q.contents ++ [c] := by
  rw [fits.full_iff] at room
  have below : q.contents.length < uartTxBufSize := lt_of_le_of_ne fits.length_le room
  constructor
  · rw [fits.length] at below
    have ahead : q.txW + 1 - q.txR = q.txW - q.txR + 1 := by grind
    rw [Queue.Fits, ahead, UInt64.toNat_add, show (1 : UInt64).toNat = 1 from rfl]
    exact (Nat.mod_le _ _).trans below
  · rw [Queue.contents, length_contents] at below
    rw [Queue.contents, Queue.contents, UInt64.toUInt32_add, ← cell_low]
    exact contents_push uartTxBufSize_dvd q.txBuf below (below.trans (by decide)) c

/-- The first byte is taken out of a queue that is not empty. -/
theorem Queue.Fits.pop (fits : q.Fits) (differs : q.txW ≠ q.txR) :
    Queue.Fits { q with txR := q.txR + 1 } ∧
      q.contents = q.txBuf (q.txR.toNat % uartTxBufSize) ::
        Queue.contents { q with txR := q.txR + 1 } := by
  have nonempty : q.contents.length ≠ 0 := by
    rw [Ne, List.length_eq_zero_iff, ← fits.empty_iff]
    exact differs
  constructor
  · have behind : q.txW - (q.txR + 1) = q.txW - q.txR - 1 := by grind
    rw [fits.length] at nonempty
    have positive : (1 : UInt64) ≤ q.txW - q.txR := by
      rw [UInt64.le_iff_toNat_le]
      exact Nat.one_le_iff_ne_zero.mpr nonempty
    rw [Queue.Fits, behind, UInt64.toNat_sub_of_le _ _ positive]
    exact (Nat.sub_le _ _).trans fits
  · rw [Queue.contents, length_contents, Ne, distance_eq_zero_iff] at nonempty
    rw [Queue.contents, Queue.contents, UInt64.toUInt32_add, ← cell_low]
    exact contents_pop uartTxBufSize_dvd q.txBuf nonempty

/-! ## The invariant -/

/-- The bytes handed to the device are the first of those put into the queue, and a process sleeps
only while the queue is full. -/
structure Sound (w : World ι) : Prop where
  /-- The bytes fit. -/
  fits : w.queue.Fits
  /-- First in, first out. -/
  fifo : w.put = w.sent ++ w.queue.contents
  /-- A process sleeps on a full queue. -/
  writers : ∀ p c, w.thread p = .writer true c → w.queue.Full

/-- While there are bytes in the queue, the device is about to ask for more, has asked, or is being
answered. -/
def World.Attended (w : World ι) : Prop :=
  w.queue.contents ≠ [] → w.busy = true ∨ w.pending = true ∨ 0 < w.handlers

variable {w : World ι}

theorem wakeup_ne_asleep (thread : Thread) (c : UInt32) : wakeup thread ≠ .writer true c := by
  cases thread <;> simp [wakeup]

theorem Sound.initial (page : Nat → UInt8) (pending : Bool) :
    Sound (World.initial ι page pending) where
  fits := by simp [World.initial, Queue.Fits]
  fifo := by simp [World.initial, Queue.contents]
  writers _ _ asleep := by cases asleep

theorem Sound.drain (sound : Sound w) : Sound w.drain := by
  rw [World.drain]
  split
  · exact ⟨sound.fits, sound.fifo, sound.writers⟩
  · exact sound

theorem World.readLsr_queue (drained : Bool) (w : World ι) :
    (w.readLsr drained).queue = w.queue := by
  rw [World.readLsr]
  split
  · rw [World.drain]
    split <;> rfl
  · rfl

theorem World.readLsr_busy {drained : Bool} (busy : (w.readLsr drained).busy = true) :
    drained = false := by
  cases drained with
  | false => rfl
  | true =>
      rw [World.readLsr, if_pos rfl, World.drain] at busy
      split at busy
      · cases busy
      · contradiction

theorem Sound.readLsr (sound : Sound w) (drained : Bool) : Sound (w.readLsr drained) := by
  rw [World.readLsr]
  split
  · exact sound.drain
  · exact sound

theorem World.Attended.drain (attended : w.Attended) : w.drain.Attended := by
  rw [World.drain]
  split
  · exact fun _ => Or.inr (Or.inl rfl)
  · exact attended

/-- A byte handed to the device leaves the queue, and nobody stays asleep. -/
theorem Sound.transmit (sound : Sound w) (differs : w.queue.txW ≠ w.queue.txR) :
    Sound w.transmit := by
  obtain ⟨fits, taken⟩ := sound.fits.pop differs
  constructor
  case fits => exact fits
  case fifo =>
    calc
      w.put = w.sent ++ w.queue.contents := sound.fifo
      _ = w.transmit.sent ++ w.transmit.queue.contents := by
        rw [taken, World.transmit, List.append_assoc]
        rfl
  case writers =>
    intro p c asleep
    exact absurd asleep (wakeup_ne_asleep _ c)

theorem Sound.uartstartLoop (sound : Sound w) (drained : Nat → Bool) (rest i : Nat) :
    Sound (uartstartLoop drained rest i w) := by
  induction rest generalizing i w with
  | zero => exact sound
  | succ rest ih =>
      rw [Uart.uartstartLoop]
      split
      · exact ⟨sound.fits, sound.fifo, sound.writers⟩
      · next differs =>
          have waited := sound.readLsr (drained i)
          rw [← w.readLsr_queue (drained i)] at differs
          dsimp only
          split
          · exact waited
          · exact ih (waited.transmit differs) (i + 1)

/-- `uartstart` leaves bytes in the queue only behind a byte that the device has not finished. -/
theorem uartstartLoop_stops {drained : Nat → Bool} {rest i : Nat} (fits : w.queue.Fits)
    (enough : w.queue.contents.length < rest)
    (remains : (uartstartLoop drained rest i w).queue.contents ≠ []) :
    (uartstartLoop drained rest i w).busy = true ∧ ∃ j, drained j = false := by
  induction rest generalizing i w with
  | zero => cases enough
  | succ rest ih =>
      rw [uartstartLoop] at remains ⊢
      by_cases empty : w.queue.txW = w.queue.txR
      · rw [if_pos empty] at remains
        exact absurd (fits.empty_iff.mp empty) remains
      · rw [if_neg empty] at remains ⊢
        have same := w.readLsr_queue (drained i)
        rw [← same] at fits empty enough
        dsimp only at remains ⊢
        by_cases busy : (w.readLsr (drained i)).busy = true
        · rw [if_pos busy]
          exact ⟨busy, i, World.readLsr_busy busy⟩
        · rw [if_neg busy] at remains ⊢
          obtain ⟨next_fits, taken⟩ := fits.pop empty
          rw [taken, List.length_cons] at enough
          exact ih next_fits (Nat.lt_of_succ_lt_succ enough) remains

theorem uartstart_stops {drained : Nat → Bool} (fits : w.queue.Fits)
    (remains : (uartstart drained w).queue.contents ≠ []) :
    (uartstart drained w).busy = true ∧ ∃ j, drained j = false := by
  have enough : w.queue.contents.length < (w.queue.txW - w.queue.txR).toNat + 1 := by
    rw [fits.length]
    exact Nat.lt_succ_self _
  exact uartstartLoop_stops fits enough remains

theorem Sound.uartstart (sound : Sound w) (drained : Nat → Bool) :
    Sound (uartstart drained w) ∧ (uartstart drained w).Attended :=
  ⟨sound.uartstartLoop drained _ 0, fun remains => Or.inl (uartstart_stops sound.fits remains).1⟩

variable [DecidableEq ι]

theorem Sound.uartputcSection (sound : Sound w) (attended : w.Attended) (p : ι) (c : UInt32)
    (drained : Nat → Bool) :
    Sound (uartputcSection w p c drained) ∧ (uartputcSection w p c drained).Attended := by
  rw [Uart.uartputcSection]
  split
  · next full => exact ⟨⟨sound.fits, sound.fifo, fun _ _ _ => full⟩, attended⟩
  · next room =>
      obtain ⟨fits, pushed⟩ := sound.fits.push room c.toUInt8
      apply Sound.uartstart
      constructor
      case fits => exact fits
      case fifo => rw [pushed, sound.fifo, List.append_assoc]
      case writers =>
        intro q d asleep
        dsimp only at asleep
        by_cases same : q = p
        · rw [same, Function.update_self] at asleep
          cases asleep
        · rw [Function.update_of_ne same] at asleep
          exact absurd (sound.writers q d asleep) room

/-- One step keeps the invariant. -/
theorem Sound.perform (sound : Sound w) (attended : w.Attended) {label : Label ι} {next : World ι}
    (succeeds : perform w label = .ok next) : Sound next ∧ next.Attended := by
  have unchanged : ∀ {after : World ι}, after.queue = w.queue → after.put = w.put →
      after.sent = w.sent → after.thread = w.thread → Sound after := by
    intro after queue put sent thread
    constructor
    case fits => rw [queue]; exact sound.fits
    case fifo => rw [queue, put, sent]; exact sound.fifo
    case writers => rw [queue, thread]; exact sound.writers
  cases label with
  | putc p c drained =>
      rw [Uart.perform] at succeeds
      split at succeeds
      · cases succeeds
      · cases succeeds
        exact sound.uartputcSection attended p c drained
  | resume p drained =>
      rw [Uart.perform] at succeeds
      split at succeeds
      · cases succeeds
        exact sound.uartputcSection attended p _ drained
      · cases succeeds
  | sync =>
      rw [Uart.perform] at succeeds
      split at succeeds
      · cases succeeds
      · cases succeeds
        exact ⟨unchanged rfl rfl rfl rfl, fun _ => Or.inl rfl⟩
  | drain =>
      cases succeeds
      exact ⟨sound.drain, attended.drain⟩
  | interrupt =>
      cases succeeds
      exact ⟨unchanged rfl rfl rfl rfl, fun _ => Or.inr (Or.inr (Nat.succ_pos _))⟩
  | input =>
      cases succeeds
      exact ⟨unchanged rfl rfl rfl rfl, fun _ => Or.inr (Or.inr (Nat.succ_pos _))⟩
  | handle drained =>
      cases succeeds
      have entered : Sound { w with handlers := w.handlers - 1 } := unchanged rfl rfl rfl rfl
      exact entered.uartstart drained
  | panic =>
      cases succeeds
      exact ⟨unchanged rfl rfl rfl rfl, attended⟩

theorem sound_of_reached {page : Nat → UInt8} {pending : Bool}
    (reached : GuardedRun.Reaches Permits perform (World.initial ι page pending) w) :
    Sound w ∧ w.Attended :=
  reached.invariant (fun w => Sound w ∧ w.Attended)
    ⟨Sound.initial page pending, fun nonempty => absurd (RingBuffer.contents_self page 0) nonempty⟩
    fun holds _ succeeds => holds.1.perform holds.2 succeeds

/-- In every run the bytes written to `THR` from the queue are the first of those put into it, the
others are in the queue, at most `UART_TX_BUF_SIZE` of them, a process sleeps only while that many
are, and while there is one the device holds a byte, has asked for an interrupt or is being
answered. -/
theorem output_in_order {page : Nat → UInt8} {pending : Bool}
    (reached : GuardedRun.Reaches Permits perform (World.initial ι page pending) w) :
    w.put = w.sent ++ w.queue.contents ∧
      w.queue.contents.length ≤ uartTxBufSize ∧
      (∀ p c, w.thread p = .writer true c → w.queue.contents.length = uartTxBufSize) ∧
      (w.queue.contents ≠ [] → w.busy = true ∨ w.pending = true ∨ 0 < w.handlers) := by
  obtain ⟨sound, attended⟩ := sound_of_reached reached
  refine ⟨sound.fifo, sound.fits.length_le, ?_, attended⟩
  intro p c asleep
  exact sound.fits.full_iff.mp (sound.writers p c asleep)

/-- Two processes print a byte each; the device takes the first and holds it. -/
def twoBytes : World Bool :=
  let one := uartputcSection (World.initial Bool (fun _ => 0) false) false 104 fun _ => false
  uartputcSection one true 105 fun _ => false

theorem twoBytes_reached :
    GuardedRun.Reaches Permits perform (World.initial Bool (fun _ => 0) false) twoBytes := by
  have first : GuardedRun.Reaches Permits perform (World.initial Bool (fun _ => 0) false)
      (uartputcSection (World.initial Bool (fun _ => 0) false) false 104 fun _ => false) :=
    .tail .refl (show Permits _ (.putc false 104 fun _ => false) from rfl) rfl
  exact .tail first (show Permits _ (.putc true 105 fun _ => false) from rfl) rfl

theorem output_in_order_twoBytes :
    twoBytes.put = [104, 105] ∧ twoBytes.sent = [104] ∧ twoBytes.queue.contents = [105] ∧
      (twoBytes.busy = true ∨ twoBytes.pending = true ∨ 0 < twoBytes.handlers) :=
  ⟨by decide, by decide, by decide, (output_in_order twoBytes_reached).2.2.2 (by decide)⟩

/-! ## Draining -/

/-- A step of the device or of the handler that it calls. -/
def Label.Answers : Label ι → Prop
  | .drain | .interrupt | .handle _ => True
  | _ => False

/-- The device and its handler can send what was put into the queue and wake every process. -/
def World.Clears (w : World ι) : Prop :=
  ∃ labels next, (∀ label ∈ labels, label.Answers) ∧
    GuardedRun.Trace Permits perform w labels next ∧
    next.sent = w.put ∧ ∀ p c, next.thread p ≠ .writer true c

omit [DecidableEq ι] in
theorem uartstartLoop_put (drained : Nat → Bool) (rest i : Nat) :
    (uartstartLoop drained rest i w).put = w.put := by
  induction rest generalizing i w with
  | zero => rfl
  | succ rest ih =>
      have waited : (w.readLsr (drained i)).put = w.put := by
        rw [World.readLsr]
        split
        · rw [World.drain]
          split <;> rfl
        · rfl
      rw [uartstartLoop]
      split
      · rfl
      · dsimp only
        split
        · exact waited
        · calc
            _ = (w.readLsr (drained i)).transmit.put := ih (i + 1)
            _ = w.put := waited

omit [DecidableEq ι] in
/-- Nothing is left to send and nobody sleeps once the queue is empty. -/
theorem Sound.quiet (sound : Sound w) (empty : w.queue.contents = []) :
    w.sent = w.put ∧ ∀ p c, w.thread p ≠ .writer true c := by
  constructor
  · rw [sound.fifo, empty, List.append_nil]
  · intro p c asleep
    have full := sound.fits.full_iff.mp (sound.writers p c asleep)
    rw [empty] at full
    cases full

theorem World.Clears.cons (label : Label ι) {next : World ι} (clears : next.Clears)
    (answers : label.Answers) (permits : Permits w label) (succeeds : perform w label = .ok next)
    (same : next.put = w.put) : w.Clears := by
  obtain ⟨labels, last, all, run, sent, awake⟩ := clears
  refine ⟨label :: labels, last, ?_, .cons permits succeeds run, sent.trans same, awake⟩
  exact List.forall_mem_cons.mpr ⟨answers, all⟩

/-- A handler that finds the device ready whenever it asks empties the queue. -/
theorem Sound.clears_of_handler (sound : Sound w) (waiting : 0 < w.handlers) : w.Clears := by
  have entered : Sound { w with handlers := w.handlers - 1 } :=
    ⟨sound.fits, sound.fifo, sound.writers⟩
  set next := Uart.uartstart (fun _ => true) { w with handlers := w.handlers - 1 } with next_eq
  have empty : next.queue.contents = [] := by
    by_contra remains
    obtain ⟨-, j, never⟩ := uartstart_stops entered.fits remains
    cases never
  obtain ⟨sent, awake⟩ := (entered.uartstart fun _ => true).1.quiet empty
  have put : next.put = w.put := uartstartLoop_put _ _ 0
  refine ⟨[.handle fun _ => true], next, ?_, .cons waiting rfl (.nil next), sent.trans put, awake⟩
  exact List.forall_mem_singleton.mpr trivial

theorem Sound.clears_of_pending (sound : Sound w) (pending : w.pending = true) : w.Clears := by
  have entered : Sound w.enterUartintr := ⟨sound.fits, sound.fifo, sound.writers⟩
  exact (entered.clears_of_handler (Nat.succ_pos _)).cons .interrupt trivial pending rfl rfl

theorem Sound.clears_of_busy (sound : Sound w) (busy : w.busy = true) : w.Clears := by
  have finished : w.drain = { w with busy := false, pending := true } := if_pos busy
  have asked : w.drain.pending = true := by rw [finished]
  have put : w.drain.put = w.put := by rw [finished]
  exact (sound.drain.clears_of_pending asked).cons .drain trivial trivial rfl put

/-- From every state of every run the device and its interrupt handler alone can send all that was
put into the queue and wake every process that sleeps on it. -/
theorem output_drains {page : Nat → UInt8} {pending : Bool}
    (reached : GuardedRun.Reaches Permits perform (World.initial ι page pending) w) :
    ∃ labels next, (∀ label ∈ labels, label.Answers) ∧
      GuardedRun.Trace Permits perform w labels next ∧
      next.sent = w.put ∧ ∀ p c, next.thread p ≠ .writer true c := by
  obtain ⟨sound, attended⟩ := sound_of_reached reached
  by_cases empty : w.queue.contents = []
  · exact ⟨[], w, nofun, .nil w, sound.quiet empty⟩
  · rcases attended empty with busy | pending | waiting
    · exact sound.clears_of_busy busy
    · exact sound.clears_of_pending pending
    · exact sound.clears_of_handler waiting

theorem output_drains_twoBytes :
    ∃ labels next, (∀ label ∈ labels, Label.Answers label) ∧
      GuardedRun.Trace Permits perform twoBytes labels next ∧ next.sent = [104, 105] := by
  obtain ⟨labels, next, answers, run, sent, -⟩ := output_drains twoBytes_reached
  exact ⟨labels, next, answers, run, sent⟩

end Uart
end Xv6Duo
