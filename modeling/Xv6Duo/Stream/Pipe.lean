import Xv6Duo.Fault
import Xv6Duo.Library.GuardedRun
import Xv6Duo.Library.RingBuffer

/-!
# Pipes

`pipewrite`, `piperead` and `pipeclose` of `kernel/pipe.c` with the sleeping and waking of
`kernel/proc.c`. A step is a section under `pi->lock`, from its acquisition to its release or to
`sleep`. Any number of processes read and write; they are not killed, and the copies between user
memory and the pipe succeed.

The bytes stored and delivered and the calls that returned are recorded beside the pipe.
-/

namespace Xv6Duo
namespace Stream

open RingBuffer

/-! ## Data -/

/-- `PIPESIZE`. -/
def pipesize : Nat := 512

/-- `struct pipe` without its lock. -/
structure Pipe where
  /-- Bytes. -/
  data : Nat → UInt8
  /-- Bytes read. -/
  nread : UInt32
  /-- Bytes written. -/
  nwrite : UInt32
  /-- The read end is open. -/
  readopen : Bool
  /-- The write end is open. -/
  writeopen : Bool

/-- Where a process stands. A call that is not asleep waits for `pi->lock`. -/
inductive Thread
  /-- In no call on the pipe. -/
  | idle
  /-- In `pipewrite`, `i` bytes done; asleep on `nwrite` or not. -/
  | writer (asleep : Bool) (src : Nat → UInt8) (n : Int) (i : Nat) (moved : List UInt8)
  /-- In the first loop of `piperead`; asleep on `nread` or not. -/
  | reader (asleep : Bool) (n : Int)

/-- A call that returned, with the bytes that it moved. -/
structure Return (ι : Type) where
  /-- Caller. -/
  proc : ι
  /-- Return value. -/
  value : Int
  /-- Bytes. -/
  moved : List UInt8

/-- The pipe, the processes and the record. -/
structure World (ι : Type) where
  /-- The pipe. -/
  pipe : Pipe
  /-- Processes. -/
  thread : ι → Thread
  /-- Bytes stored so far. -/
  stored : List UInt8
  /-- Bytes delivered so far. -/
  delivered : List UInt8
  /-- Calls that returned. -/
  returns : List (Return ι)

/-! ## Sections -/

/-- How a section of `pipewrite` ends. -/
inductive WriteEnd
  /-- The read end is closed. -/
  | broken
  /-- The pipe is full. -/
  | full (i : Nat)
  /-- Everything is written. -/
  | done (i : Nat)

/-- The loop of `pipewrite` at byte `i`, with `rest` bytes to go: how it ends, the bytes it stores
and the pipe. -/
def writeLoop (src : Nat → UInt8) : Nat → Nat → Pipe → WriteEnd × List UInt8 × Pipe
  | 0, i, pi => (.done i, [], pi)
  | rest + 1, i, pi =>
      if pi.readopen = false then (.broken, [], pi)
      else if pi.nwrite = pi.nread + UInt32.ofNat pipesize then (.full i, [], pi)
      else
        let next := { pi with
          data := Function.update pi.data (pi.nwrite.toNat % pipesize) (src i)
          nwrite := pi.nwrite + 1 }
        let (stop, stored, pi) := writeLoop src rest (i + 1) next
        (stop, src i :: stored, pi)

/-- The second loop of `piperead`, with `rest` bytes to go: the count, the bytes it takes and the
pipe. -/
def readLoop : Nat → Nat → Pipe → Nat × List UInt8 × Pipe
  | 0, i, pi => (i, [], pi)
  | rest + 1, i, pi =>
      if pi.nread = pi.nwrite then (i, [], pi)
      else
        let ch := pi.data (pi.nread.toNat % pipesize)
        let (count, taken, pi) := readLoop rest (i + 1) { pi with nread := pi.nread + 1 }
        (count, ch :: taken, pi)

/-- `wakeup(&pi->nread)` for one process. -/
def wakeReader : Thread → Thread
  | .reader _ n => .reader false n
  | thread => thread

/-- `wakeup(&pi->nwrite)` for one process. -/
def wakeWriter : Thread → Thread
  | .writer _ src n i moved => .writer false src n i moved
  | thread => thread

variable {ι : Type} [DecidableEq ι]

/-- A section of `pipewrite`. -/
def writeSection (w : World ι) (p : ι) (src : Nat → UInt8) (n : Int) (i : Nat)
    (moved : List UInt8) : World ι :=
  let (stop, stored, pi) := writeLoop src (n.toNat - i) i w.pipe
  let next := { w with pipe := pi, stored := w.stored ++ stored }
  match stop with
  | .broken =>
      { next with
        thread := Function.update w.thread p .idle
        returns := ⟨p, -1, moved ++ stored⟩ :: w.returns }
  | .full i =>
      { next with
        thread := Function.update (wakeReader ∘ w.thread) p
          (.writer true src n i (moved ++ stored)) }
  | .done i =>
      { next with
        thread := Function.update (wakeReader ∘ w.thread) p .idle
        returns := ⟨p, i, moved ++ stored⟩ :: w.returns }

/-- A section of `piperead`. -/
def readSection (w : World ι) (p : ι) (n : Int) : World ι :=
  if w.pipe.nread = w.pipe.nwrite ∧ w.pipe.writeopen = true then
    { w with thread := Function.update w.thread p (.reader true n) }
  else
    let (count, taken, pi) := readLoop n.toNat 0 w.pipe
    { w with
      pipe := pi
      delivered := w.delivered ++ taken
      thread := Function.update (wakeWriter ∘ w.thread) p .idle
      returns := ⟨p, count, taken⟩ :: w.returns }

/-- `pipeclose`. -/
def pipeclose (w : World ι) (writable : Bool) : World ι :=
  if writable then
    { w with pipe := { w.pipe with writeopen := false }, thread := wakeReader ∘ w.thread }
  else
    { w with pipe := { w.pipe with readopen := false }, thread := wakeWriter ∘ w.thread }

/-! ## Runs -/

/-- The sections that the processes run. -/
inductive Label (ι : Type)
  /-- A process calls `pipewrite`. -/
  | write (p : ι) (src : Nat → UInt8) (n : Int)
  /-- A process calls `piperead`. -/
  | read (p : ι) (n : Int)
  /-- A process that was woken goes on. -/
  | resume (p : ι)
  /-- `pipeclose`. -/
  | close (writable : Bool)

/-- One section. -/
def perform (w : World ι) : Label ι → Except Fault (World ι)
  | .write p src n => .ok (writeSection w p src n 0 [])
  | .read p n => .ok (readSection w p n)
  | .resume p =>
      match w.thread p with
      | .writer false src n i moved => .ok (writeSection w p src n i moved)
      | .reader false n => .ok (readSection w p n)
      | _ => .error .sleeps
  | .close writable => .ok (pipeclose w writable)

/-- The pipe has not been freed, and a process that starts a call is in none. -/
def Permits (w : World ι) : Label ι → Prop
  | .write p _ _ => (w.pipe.readopen ∨ w.pipe.writeopen) ∧ w.thread p = .idle
  | .read p _ => (w.pipe.readopen ∨ w.pipe.writeopen) ∧ w.thread p = .idle
  | .resume _ => w.pipe.readopen ∨ w.pipe.writeopen
  | .close _ => w.pipe.readopen ∨ w.pipe.writeopen

/-- A pipe made by `pipealloc` in a page of any content. -/
def World.initial (ι : Type) (page : Nat → UInt8) : World ι where
  pipe := ⟨page, 0, 0, true, true⟩
  thread _ := .idle
  stored := []
  delivered := []
  returns := []

/-! ## Loops -/

/-- The bytes in the pipe. -/
def Pipe.contents (pi : Pipe) : List UInt8 :=
  RingBuffer.contents pipesize pi.data pi.nread pi.nwrite

/-- There are not more bytes than fit. -/
def Pipe.Fits (pi : Pipe) : Prop := distance pi.nwrite pi.nread ≤ pipesize

/-- The pipe is full. -/
def Pipe.Full (pi : Pipe) : Prop := pi.nwrite = pi.nread + UInt32.ofNat pipesize

theorem pipesize_dvd : pipesize ∣ 2 ^ 32 := by decide

theorem full_iff {pi : Pipe} : pi.Full ↔ distance pi.nwrite pi.nread = pipesize :=
  Iff.symm (@distance_eq_iff pi.nwrite pi.nread (UInt32.ofNat pipesize))

/-- What the loop of `pipewrite` does to the pipe. -/
structure Written (pi after : Pipe) (i : Nat) (stop : WriteEnd) (stored : List UInt8) : Prop where
  /-- The bytes fit. -/
  fits : after.Fits
  /-- The bytes are appended. -/
  contents : after.contents = pi.contents ++ stored
  /-- The other end of the pipe is not touched. -/
  nread : after.nread = pi.nread
  /-- The ends stay as they are. -/
  readopen : after.readopen = pi.readopen
  /-- The ends stay as they are. -/
  writeopen : after.writeopen = pi.writeopen
  /-- Nothing is stored without a reader. -/
  broken : stop = .broken → pi.readopen = false ∧ after = pi
  /-- The writer sleeps on a full pipe. -/
  full : ∀ j, stop = .full j → after.Full ∧ pi.readopen = true ∧ j = i + stored.length
  /-- The count. -/
  done : ∀ j, stop = .done j → j = i + stored.length

theorem writeLoop_written (src : Nat → UInt8) (rest i : Nat) {pi : Pipe} (fits : pi.Fits) :
    Written pi (writeLoop src rest i pi).2.2 i (writeLoop src rest i pi).1
      (writeLoop src rest i pi).2.1 := by
  induction rest generalizing i pi with
  | zero => exact ⟨fits, by simp [writeLoop], rfl, rfl, rfl, nofun, nofun, by simp [writeLoop]⟩
  | succ rest ih =>
      rw [writeLoop]
      split
      · next closed => exact ⟨fits, by simp, rfl, rfl, rfl, fun _ => ⟨closed, rfl⟩, nofun, nofun⟩
      · next opened =>
          rw [Bool.not_eq_false] at opened
          split
          · next full =>
              refine ⟨fits, by simp, rfl, rfl, rfl, nofun, ?_, nofun⟩
              intro j same
              cases same
              exact ⟨full, opened, rfl⟩
          · next room =>
              -- One more byte fits, and the rest of the loop starts with it in the pipe.
              have room : distance pi.nwrite pi.nread < pipesize :=
                lt_of_le_of_ne fits fun same => room (full_iff.mpr same)
              have short : distance pi.nwrite pi.nread < 2 ^ 32 - 1 :=
                room.trans (by decide)
              set next : Pipe := { pi with
                data := Function.update pi.data (pi.nwrite.toNat % pipesize) (src i)
                nwrite := pi.nwrite + 1 } with next_eq
              have next_fits : next.Fits := by
                rw [Pipe.Fits, next_eq]
                dsimp only
                rw [distance_add_one short]
                exact room
              have pushed : next.contents = pi.contents ++ [src i] :=
                contents_push pipesize_dvd pi.data room short (src i)
              have written := ih (i + 1) next_fits
              dsimp only
              generalize writeLoop src rest (i + 1) next = result at *
              obtain ⟨stop, stored, after⟩ := result
              refine ⟨written.fits, ?_, written.nread, written.readopen, written.writeopen,
                ?_, ?_, ?_⟩
              · rw [written.contents, pushed, List.append_assoc]
                rfl
              · intro broken
                have closed := (written.broken broken).1
                rw [next_eq, opened] at closed
                cases closed
              · intro j full
                obtain ⟨is_full, -, count⟩ := written.full j full
                refine ⟨is_full, opened, ?_⟩
                dsimp only at count ⊢
                rw [count, List.length_cons]
                omega
              · intro j done
                have count := written.done j done
                dsimp only at count ⊢
                rw [count, List.length_cons]
                omega

/-- What the loop of `piperead` does to the pipe. -/
structure Taken (pi after : Pipe) (i count : Nat) (taken : List UInt8) : Prop where
  /-- The bytes come from the front. -/
  contents : pi.contents = taken ++ after.contents
  /-- The bytes fit. -/
  fits : after.Fits
  /-- The ends stay as they are. -/
  readopen : after.readopen = pi.readopen
  /-- The ends stay as they are. -/
  writeopen : after.writeopen = pi.writeopen
  /-- The count. -/
  count : count = i + taken.length

theorem readLoop_taken (rest i : Nat) {pi : Pipe} (fits : pi.Fits) :
    Taken pi (readLoop rest i pi).2.2 i (readLoop rest i pi).1 (readLoop rest i pi).2.1 := by
  induction rest generalizing i pi with
  | zero => exact ⟨rfl, fits, rfl, rfl, rfl⟩
  | succ rest ih =>
      rw [readLoop]
      split
      · exact ⟨rfl, fits, rfl, rfl, rfl⟩
      · next differs =>
          set next : Pipe := { pi with nread := pi.nread + 1 } with next_eq
          have shorter : distance pi.nwrite pi.nread = distance next.nwrite next.nread + 1 :=
            distance_of_ne (Ne.symm differs)
          have next_fits : next.Fits := by
            rw [Pipe.Fits] at *
            omega
          have popped : pi.contents = pi.data (pi.nread.toNat % pipesize) :: next.contents :=
            contents_pop pipesize_dvd pi.data (Ne.symm differs)
          have taken := ih (i + 1) next_fits
          dsimp only
          generalize readLoop rest (i + 1) next = result at *
          obtain ⟨count, bytes, after⟩ := result
          refine ⟨?_, taken.fits, taken.readopen, taken.writeopen, ?_⟩
          · rw [popped, taken.contents]
            rfl
          · have count_eq := taken.count
            dsimp only at count_eq ⊢
            rw [count_eq, List.length_cons]
            omega

/-! ## The invariant -/

/-- The bytes in the pipe are those stored and not yet delivered, nobody sleeps without a reason,
and calls have counted their bytes. -/
structure Sound (w : World ι) : Prop where
  /-- The bytes fit. -/
  fits : w.pipe.Fits
  /-- First in, first out. -/
  fifo : w.stored = w.delivered ++ w.pipe.contents
  /-- A reader sleeps on an empty pipe with a writer. -/
  readers : ∀ p n, w.thread p = .reader true n →
    w.pipe.nread = w.pipe.nwrite ∧ w.pipe.writeopen = true
  /-- A writer sleeps on a full pipe with a reader. -/
  writers : ∀ p src n i moved, w.thread p = .writer true src n i moved →
    w.pipe.Full ∧ w.pipe.readopen = true
  /-- A writer has counted its bytes. -/
  counts : ∀ p asleep src n i moved, w.thread p = .writer asleep src n i moved → moved.length = i
  /-- A call that succeeded returned the number of its bytes. -/
  returns : ∀ r ∈ w.returns, 0 ≤ r.value → r.value = r.moved.length

variable {w : World ι}

omit [DecidableEq ι] in
theorem wakeReader_ne_asleep (thread : Thread) (n : Int) :
    wakeReader thread ≠ .reader true n := by
  cases thread <;> simp [wakeReader]

omit [DecidableEq ι] in
theorem wakeWriter_ne_asleep (thread : Thread) (src : Nat → UInt8) (n : Int) (i : Nat)
    (moved : List UInt8) : wakeWriter thread ≠ .writer true src n i moved := by
  cases thread <;> simp [wakeWriter]

/-- One process has moved. -/
theorem of_update {threads : ι → Thread} {p q : ι} {thread other : Thread}
    (moved : Function.update threads p thread q = other) : thread = other ∨ threads q = other := by
  by_cases same : q = p
  · subst same
    rw [Function.update_self] at moved
    exact Or.inl moved
  · rw [Function.update_of_ne same] at moved
    exact Or.inr moved

/-- `wakeup(&pi->nread)` does not change writers. -/
theorem of_wakeReader {thread : Thread} {asleep : Bool} {src : Nat → UInt8} {n : Int} {i : Nat}
    {moved : List UInt8} (woken : wakeReader thread = .writer asleep src n i moved) :
    thread = .writer asleep src n i moved := by
  cases thread with
  | idle => cases woken
  | writer => exact woken
  | reader => cases woken

/-- `wakeup(&pi->nwrite)` does not change readers. -/
theorem of_wakeWriter {thread : Thread} {asleep : Bool} {n : Int}
    (woken : wakeWriter thread = .reader asleep n) : thread = .reader asleep n := by
  cases thread with
  | idle => cases woken
  | writer => cases woken
  | reader => exact woken

/-- `wakeup(&pi->nwrite)` keeps the counts of writers. -/
theorem writer_of_wakeWriter {thread : Thread} {asleep : Bool} {src : Nat → UInt8} {n : Int}
    {i : Nat} {moved : List UInt8} (woken : wakeWriter thread = .writer asleep src n i moved) :
    ∃ before, thread = .writer before src n i moved := by
  cases thread with
  | idle => cases woken
  | writer before =>
      cases woken
      exact ⟨before, rfl⟩
  | reader => cases woken

omit [DecidableEq ι] in
theorem Sound.initial (page : Nat → UInt8) : Sound (World.initial ι page) where
  fits := by simp [World.initial, Pipe.Fits]
  fifo := by simp [World.initial, Pipe.contents]
  readers _ _ asleep := by cases asleep
  writers _ _ _ _ _ asleep := by cases asleep
  counts _ _ _ _ _ _ writing := by cases writing
  returns _ member := by cases member

/-- A full pipe stays full while writers run. -/
theorem Written.stays_full {pi after : Pipe} {i : Nat} {stop : WriteEnd} {stored : List UInt8}
    (written : Written pi after i stop stored) (full : pi.Full) : after.Full := by
  rw [full_iff] at *
  have longer : distance after.nwrite after.nread = distance pi.nwrite pi.nread +
    stored.length := by
    have := congrArg List.length written.contents
    simpa [Pipe.contents] using this
  have := written.fits
  rw [Pipe.Fits] at this
  omega

theorem Sound.writeSection (sound : Sound w) (p : ι) (src : Nat → UInt8) (n : Int)
    {i : Nat} {moved : List UInt8} (count : moved.length = i) :
    Sound (writeSection w p src n i moved) := by
  have written := writeLoop_written src (n.toNat - i) i sound.fits
  rw [Stream.writeSection]
  generalize writeLoop src (n.toNat - i) i w.pipe = result at *
  obtain ⟨stop, stored, pi⟩ := result
  dsimp only at *
  have fifo : w.stored ++ stored = w.delivered ++ pi.contents := by
    rw [written.contents, sound.fifo, List.append_assoc]
  have still_full : ∀ q src n i moved, w.thread q = .writer true src n i moved →
      pi.Full ∧ pi.readopen = true := by
    intro q src n i moved asleep
    obtain ⟨full, opened⟩ := sound.writers q src n i moved asleep
    exact ⟨written.stays_full full, written.readopen.trans opened⟩
  cases stop with
  | broken =>
      dsimp only
      obtain ⟨closed, rfl⟩ := written.broken rfl
      constructor
      case fits => exact written.fits
      case fifo => exact fifo
      case readers =>
        intro q n asleep
        cases of_update asleep with
        | inl here => cases here
        | inr asleep => exact sound.readers q n asleep
      case writers =>
        intro q src n i moved asleep
        cases of_update asleep with
        | inl here => cases here
        | inr asleep => exact sound.writers q src n i moved asleep
      case counts =>
        intro q asleep src n i moved writing
        cases of_update writing with
        | inl here => cases here
        | inr writing => exact sound.counts q asleep src n i moved writing
      case returns =>
        intro r member positive
        cases member with
        | head => exact absurd positive (by simp)
        | tail _ earlier => exact sound.returns r earlier positive
  | full j =>
      dsimp only
      obtain ⟨full, opened, count_eq⟩ := written.full j rfl
      constructor
      case fits => exact written.fits
      case fifo => exact fifo
      case readers =>
        intro q n asleep
        cases of_update asleep with
        | inl here => cases here
        | inr asleep => exact absurd asleep (wakeReader_ne_asleep _ n)
      case writers =>
        intro q src n i moved _
        exact ⟨full, written.readopen.trans opened⟩
      case counts =>
        intro q asleep src n k bytes writing
        cases of_update writing with
        | inl here =>
            cases here
            rw [List.length_append, count, count_eq]
        | inr writing => exact sound.counts q asleep src n k bytes (of_wakeReader writing)
      case returns => exact sound.returns
  | done j =>
      dsimp only
      constructor
      case fits => exact written.fits
      case fifo => exact fifo
      case readers =>
        intro q n asleep
        cases of_update asleep with
        | inl here => cases here
        | inr asleep => exact absurd asleep (wakeReader_ne_asleep _ n)
      case writers =>
        intro q src n i moved asleep
        cases of_update asleep with
        | inl here => cases here
        | inr asleep => exact still_full q src n i moved (of_wakeReader asleep)
      case counts =>
        intro q asleep src n k bytes writing
        cases of_update writing with
        | inl here => cases here
        | inr writing => exact sound.counts q asleep src n k bytes (of_wakeReader writing)
      case returns =>
        intro r member positive
        cases member with
        | head =>
            rw [written.done j rfl]
            simp [count]
        | tail _ earlier => exact sound.returns r earlier positive

theorem Sound.readSection (sound : Sound w) (p : ι) (n : Int) : Sound (readSection w p n) := by
  rw [Stream.readSection]
  split
  · next empty =>
      refine { sound with readers := ?_, writers := ?_, counts := ?_ }
      · intro q n asleep
        exact empty
      · intro q src n i moved asleep
        cases of_update asleep with
        | inl here => cases here
        | inr asleep => exact sound.writers q src n i moved asleep
      · intro q asleep src n i moved writing
        cases of_update writing with
        | inl here => cases here
        | inr writing => exact sound.counts q asleep src n i moved writing
  · next awake =>
      have taken := readLoop_taken n.toNat 0 sound.fits
      generalize readLoop n.toNat 0 w.pipe = result at *
      obtain ⟨count, bytes, pi⟩ := result
      dsimp only at *
      constructor
      case fits => exact taken.fits
      case fifo => rw [sound.fifo, taken.contents, List.append_assoc]
      case readers =>
        -- A reader that slept would have kept this one asleep.
        intro q n asleep
        cases of_update asleep with
        | inl here => cases here
        | inr asleep => exact absurd (sound.readers q n (of_wakeWriter asleep)) awake
      case writers =>
        intro q src n i moved asleep
        cases of_update asleep with
        | inl here => cases here
        | inr asleep => exact absurd asleep (wakeWriter_ne_asleep _ src n i moved)
      case counts =>
        intro q asleep src n i moved writing
        cases of_update writing with
        | inl here => cases here
        | inr writing =>
            obtain ⟨before, writing⟩ := writer_of_wakeWriter writing
            exact sound.counts q before src n i moved writing
      case returns =>
        intro r member positive
        cases member with
        | head =>
            rw [taken.count]
            simp
        | tail _ earlier => exact sound.returns r earlier positive

omit [DecidableEq ι] in
theorem Sound.pipeclose (sound : Sound w) (writable : Bool) : Sound (pipeclose w writable) := by
  cases writable with
  | true =>
      constructor
      case fits => exact sound.fits
      case fifo => exact sound.fifo
      case readers =>
        intro q n asleep
        exact absurd asleep (wakeReader_ne_asleep _ n)
      case writers =>
        intro q src n i moved asleep
        exact sound.writers q src n i moved (of_wakeReader asleep)
      case counts =>
        intro q asleep src n i moved writing
        exact sound.counts q asleep src n i moved (of_wakeReader writing)
      case returns => exact sound.returns
  | false =>
      constructor
      case fits => exact sound.fits
      case fifo => exact sound.fifo
      case readers =>
        intro q n asleep
        exact sound.readers q n (of_wakeWriter asleep)
      case writers =>
        intro q src n i moved asleep
        exact absurd asleep (wakeWriter_ne_asleep _ src n i moved)
      case counts =>
        intro q asleep src n i moved writing
        obtain ⟨before, writing⟩ := writer_of_wakeWriter writing
        exact sound.counts q before src n i moved writing
      case returns => exact sound.returns

/-- One section keeps the invariant. -/
theorem Sound.perform (sound : Sound w) {label : Label ι} {next : World ι}
    (succeeds : perform w label = .ok next) : Sound next := by
  cases label with
  | write p src n =>
      cases succeeds
      exact sound.writeSection p src n rfl
  | read p n =>
      cases succeeds
      exact sound.readSection p n
  | resume p =>
      rw [Stream.perform] at succeeds
      split at succeeds
      · next src n i moved writing =>
          cases succeeds
          exact sound.writeSection p src n (sound.counts p false src n i moved writing)
      · cases succeeds
        exact sound.readSection p _
      · cases succeeds
  | close writable =>
      cases succeeds
      exact sound.pipeclose writable

/-- In every run the counters are at most `PIPESIZE` apart, the bytes delivered are the first of the
bytes stored, calls that succeed return the number of bytes they moved, and a process sleeps only on
an empty pipe that can be written or on a full pipe that can be read. -/
theorem pipe_is_fifo {page : Nat → UInt8}
    (reached : GuardedRun.Reaches Permits perform (World.initial ι page) w) :
    (w.pipe.nwrite - w.pipe.nread).toNat ≤ pipesize ∧
      w.delivered <+: w.stored ∧
      (∀ r ∈ w.returns, 0 ≤ r.value → r.value = r.moved.length) ∧
      (∀ p n, w.thread p = .reader true n →
        w.pipe.nread = w.pipe.nwrite ∧ w.pipe.writeopen = true) ∧
      ∀ p src n i moved, w.thread p = .writer true src n i moved →
        w.pipe.nwrite = w.pipe.nread + UInt32.ofNat pipesize ∧ w.pipe.readopen = true := by
  have sound : Sound w := reached.invariant Sound (Sound.initial page)
    fun sound _ succeeds => sound.perform succeeds
  refine ⟨sound.fits, ⟨w.pipe.contents, sound.fifo.symm⟩, sound.returns, sound.readers, ?_⟩
  exact sound.writers

set_option maxRecDepth 4000 in
/-- A reader falls asleep on the empty pipe, three bytes are written, the writing end is closed, and
the reader goes on with two of them. -/
theorem pipe_is_fifo_two_of_three : ∃ slept w : World Bool,
    GuardedRun.Reaches Permits perform (World.initial Bool fun _ => 0) slept ∧
      slept.thread true = .reader true 2 ∧
      (slept.pipe.nread = slept.pipe.nwrite ∧ slept.pipe.writeopen = true) ∧
      GuardedRun.Reaches Permits perform (World.initial Bool fun _ => 0) w ∧
      w.pipe.writeopen = false ∧ w.delivered = [7, 8] ∧ w.stored = [7, 8, 9] ∧
      w.delivered <+: w.stored ∧ w.returns.map Return.value = [2, 3] := by
  let slept := readSection (World.initial Bool fun _ => 0) true 2
  let written := writeSection slept false (fun k => UInt8.ofNat (7 + k)) 3 0 []
  let closed := pipeclose written true
  have sleeps : GuardedRun.Reaches Permits perform (World.initial Bool fun _ => 0) slept :=
    .tail .refl (show Permits _ (.read true 2) from ⟨Or.inl rfl, rfl⟩) rfl
  have writes : GuardedRun.Reaches Permits perform (World.initial Bool fun _ => 0) written :=
    .tail sleeps (show Permits _ (.write false _ 3) from ⟨Or.inl rfl, rfl⟩) rfl
  have closes : GuardedRun.Reaches Permits perform (World.initial Bool fun _ => 0) closed :=
    .tail writes (show Permits _ (.close true) from Or.inl (by decide)) rfl
  have woken : closed.thread true = .reader false 2 := rfl
  have goes_on : GuardedRun.Reaches Permits perform (World.initial Bool fun _ => 0)
      (readSection closed true 2) :=
    .tail closes (show Permits _ (.resume true) from Or.inl (by decide))
      (by simp only [perform, woken])
  exact ⟨slept, _, sleeps, rfl, (pipe_is_fifo sleeps).2.2.2.1 true 2 rfl, goes_on,
    by decide +kernel, by decide +kernel, by decide +kernel, (pipe_is_fifo goes_on).2.1,
    by decide +kernel⟩

end Stream
end Xv6Duo
