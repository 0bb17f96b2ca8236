import Xv6Duo.Fault
import Xv6Duo.Library.GuardedRun
import Xv6Duo.Library.RingBuffer

/-!
# The console

`consoleintr` and `consoleread` of `kernel/console.c`. A step is a section under `cons.lock`, from
its acquisition to its release or to `sleep`. Any number of processes read; they are not killed, and
the copies to user memory succeed. The echo is left out.

`Text` says what the line discipline is for: the committed text and the line being edited. It, the
bytes consumed and delivered and the reads that returned are recorded beside the console.
-/

namespace Xv6Duo
namespace Console

open RingBuffer

/-! ## Data -/

/-- `INPUT_BUF_SIZE`. -/
def inputBufSize : Nat := 128

/-- `C('D')`, end of file. -/
def ctrlD : UInt8 := 4

/-- `C('H')`, backspace. -/
def ctrlH : UInt8 := 8

/-- Newline. -/
def newline : UInt8 := 10

/-- Carriage return. -/
def carriageReturn : UInt8 := 13

/-- `C('P')`, print the process list. -/
def ctrlP : UInt8 := 16

/-- `C('U')`, kill the line. -/
def ctrlU : UInt8 := 21

/-- The delete key. -/
def delete : UInt8 := 127

/-- `cons` without its lock. -/
structure Cons where
  /-- Input. -/
  buf : Nat → UInt8
  /-- Read index. -/
  r : UInt32
  /-- Write index. -/
  w : UInt32
  /-- Edit index. -/
  e : UInt32

/-- Where a process stands. A read that is not asleep waits for `cons.lock`. -/
inductive Thread
  /-- In no read of the console. -/
  | idle
  /-- In `consoleread`, `n` of `target` bytes to go; asleep on `cons.r` or not. -/
  | reader (asleep : Bool) (target n : Nat) (moved : List UInt8)
  deriving DecidableEq

/-- Why the loop of `consoleread` stops. -/
inductive Stop
  /-- The buffer is empty. -/
  | empty
  /-- The buffer of the caller is full. -/
  | count
  /-- A newline was delivered. -/
  | line
  /-- An end of file was met, and put back or not. -/
  | eof (kept : Bool)
  deriving DecidableEq

/-- A read that returned, with the bytes that it delivered. -/
structure Return (ι : Type) where
  /-- Caller. -/
  proc : ι
  /-- Return value. -/
  value : Nat
  /-- Bytes. -/
  moved : List UInt8
  /-- Why it returned. -/
  stop : Stop
  /-- The place in the committed text that follows the bytes. -/
  position : Nat

/-- The committed text and the line being edited. -/
structure Text where
  /-- Committed. -/
  committed : List UInt8
  /-- Uncommitted. -/
  line : List UInt8

/-- The console, the processes and the record. -/
structure World (ι : Type) where
  /-- The console. -/
  cons : Cons
  /-- Processes. -/
  thread : ι → Thread
  /-- What was typed. -/
  text : Text
  /-- Characters of the committed text that reads have taken. -/
  consumed : List UInt8
  /-- Bytes delivered, with the reader. -/
  delivered : List (ι × UInt8)
  /-- Reads that returned, the last one first. -/
  returns : List (Return ι)

/-! ## Sections -/

/-- The loop of `consoleintr` for `^U`, with fuel. -/
def kill : Nat → Cons → Cons
  | 0, cons => cons
  | fuel + 1, cons =>
      if cons.e ≠ cons.w ∧ cons.buf ((cons.e - 1).toNat % inputBufSize) ≠ newline then
        kill fuel { cons with e := cons.e - 1 }
      else cons

/-- `consoleintr`: the console, and whether readers are woken. -/
def consoleintr (cons : Cons) (c : UInt8) : Cons × Bool :=
  if c = ctrlP then (cons, false)
  else if c = ctrlU then (kill (distance cons.e cons.w) cons, false)
  else if c = ctrlH ∨ c = delete then
    if cons.e ≠ cons.w then ({ cons with e := cons.e - 1 }, false) else (cons, false)
  else if c ≠ 0 ∧ cons.e - cons.r < UInt32.ofNat inputBufSize then
    let c := if c = carriageReturn then newline else c
    let cons := { cons with
      buf := Function.update cons.buf (cons.e.toNat % inputBufSize) c
      e := cons.e + 1 }
    if c = newline ∨ c = ctrlD ∨ cons.e - cons.r = UInt32.ofNat inputBufSize then
      ({ cons with w := cons.e }, true)
    else (cons, false)
  else (cons, false)

/-- The loop of `consoleread` with `n` of `target` bytes to go: why it stops, the bytes to go, the
bytes it delivers and the console. -/
def readLoop (target : Nat) : Nat → Cons → Stop × Nat × List UInt8 × Cons
  | 0, cons => (.count, 0, [], cons)
  | n + 1, cons =>
      if cons.r = cons.w then (.empty, n + 1, [], cons)
      else
        let c := cons.buf (cons.r.toNat % inputBufSize)
        let next := { cons with r := cons.r + 1 }
        if c = ctrlD then
          if n + 1 < target then (.eof true, n + 1, [], { next with r := next.r - 1 })
          else (.eof false, n + 1, [], next)
        else if c = newline then (.line, n, [c], next)
        else
          let (stop, n, moved, cons) := readLoop target n next
          (stop, n, c :: moved, cons)

/-- The end of file that a read takes. -/
def Stop.taken : Stop → List UInt8
  | .eof false => [ctrlD]
  | _ => []

/-- `wakeup(&cons.r)` for one process. -/
def wake : Thread → Thread
  | .idle => .idle
  | .reader _ target n moved => .reader false target n moved

/-- What a character does to the text, with `waiting` committed characters in the buffer. -/
def Text.key (text : Text) (waiting : Nat) (c : UInt8) : Text :=
  if c = ctrlP then text
  else if c = ctrlU then { text with line := [] }
  else if c = ctrlH ∨ c = delete then { text with line := text.line.dropLast }
  else if c = 0 ∨ waiting + text.line.length = inputBufSize then text
  else
    let c := if c = carriageReturn then newline else c
    let line := text.line ++ [c]
    if c = newline ∨ c = ctrlD ∨ waiting + line.length = inputBufSize then
      ⟨text.committed ++ line, []⟩
    else { text with line := line }

variable {ι : Type} [DecidableEq ι]

/-- A section of `consoleread`. -/
def readSection (w : World ι) (p : ι) (target n : Nat) (moved : List UInt8) : World ι :=
  let (stop, n, more, cons) := readLoop target n w.cons
  let next := { w with
    cons := cons
    consumed := w.consumed ++ more ++ stop.taken
    delivered := w.delivered ++ more.map fun c => (p, c) }
  match stop with
  | .empty =>
      { next with thread := Function.update w.thread p (.reader true target n (moved ++ more)) }
  | stop =>
      { next with
        thread := Function.update w.thread p .idle
        returns := ⟨p, target - n, moved ++ more, stop, w.consumed.length + more.length⟩ ::
          w.returns }

omit [DecidableEq ι] in
/-- A section of `consoleintr`. -/
def intrSection (w : World ι) (c : UInt8) : World ι :=
  let (cons, woken) := consoleintr w.cons c
  { w with
    cons := cons
    thread := if woken then wake ∘ w.thread else w.thread
    text := w.text.key (w.text.committed.length - w.consumed.length) c }

/-! ## Runs -/

/-- The sections that run. -/
inductive Label (ι : Type)
  /-- A character arrives. -/
  | intr (c : UInt8)
  /-- A process calls `consoleread`. -/
  | read (p : ι) (n : Nat)
  /-- A process that was woken goes on. -/
  | resume (p : ι)

/-- One section. -/
def perform (w : World ι) : Label ι → Except Fault (World ι)
  | .intr c => .ok (intrSection w c)
  | .read p n => .ok (readSection w p n n [])
  | .resume p =>
      match w.thread p with
      | .reader false target n moved => .ok (readSection w p target n moved)
      | _ => .error .sleeps

/-- A process that starts a read is in none and asks for some bytes. -/
def Permits (w : World ι) : Label ι → Prop
  | .intr _ => True
  | .read p n => w.thread p = .idle ∧ 0 < n
  | .resume _ => True

instance (w : World ι) : ∀ label : Label ι, Decidable (Permits w label)
  | .intr _ => inferInstanceAs (Decidable True)
  | .read p n => inferInstanceAs (Decidable (w.thread p = .idle ∧ 0 < n))
  | .resume _ => inferInstanceAs (Decidable True)

/-- An empty console. -/
def World.initial (ι : Type) (buf : Nat → UInt8) (start : UInt32) : World ι where
  cons := ⟨buf, start, start, start⟩
  thread _ := .idle
  text := ⟨[], []⟩
  consumed := []
  delivered := []
  returns := []

/-! ## The buffer -/

/-- The committed characters in the buffer. -/
def Cons.waiting (cons : Cons) : List UInt8 := contents inputBufSize cons.buf cons.r cons.w

/-- The uncommitted characters in the buffer. -/
def Cons.editing (cons : Cons) : List UInt8 := contents inputBufSize cons.buf cons.w cons.e

/-- The indices follow each other, and there are not more characters than fit. -/
structure Cons.Ordered (cons : Cons) : Prop where
  /-- The write index is between the other two. -/
  between : distance cons.e cons.r = distance cons.w cons.r + distance cons.e cons.w
  /-- The characters fit. -/
  fits : distance cons.e cons.r ≤ inputBufSize

theorem inputBufSize_dvd : inputBufSize ∣ 2 ^ 32 := by decide

/-- The last uncommitted character. -/
theorem editing_last {cons : Cons} (differs : cons.e ≠ cons.w) :
    cons.editing = contents inputBufSize cons.buf cons.w (cons.e - 1) ++
      [cons.buf ((cons.e - 1).toNat % inputBufSize)] := by
  rw [Cons.editing, contents, distance_sub_one differs, window_succ,
    ← cell_stop inputBufSize_dvd (cons.e - 1) cons.w, contents]

/-- A character is erased. -/
theorem Cons.Ordered.erase {cons : Cons} (ordered : cons.Ordered) (differs : cons.e ≠ cons.w) :
    Cons.Ordered { cons with e := cons.e - 1 } := by
  have edited := distance_sub_one differs
  have between := ordered.between
  have fits := ordered.fits
  have ahead : cons.e ≠ cons.r := by
    intro same
    rw [same, distance_self] at between
    rw [same] at edited
    omega
  have buffered := distance_sub_one ahead
  constructor
  · dsimp only
    omega
  · dsimp only
    omega

/-- Nothing is uncommitted. -/
theorem Cons.eq_of_same {cons : Cons} (same : cons.e = cons.w) :
    ({ cons with e := cons.w } : Cons) = cons := by
  cases cons
  exact congrArg _ same.symm

/-- `^U` erases the line that is being edited. -/
theorem kill_line {cons : Cons} {fuel : Nat} (ordered : cons.Ordered)
    (enough : distance cons.e cons.w ≤ fuel) (line : newline ∉ cons.editing) :
    kill fuel cons = { cons with e := cons.w } := by
  induction fuel generalizing cons with
  | zero =>
      have same : cons.e = cons.w := distance_eq_zero_iff.mp (Nat.le_zero.mp enough)
      rw [kill, Cons.eq_of_same same]
  | succ fuel ih =>
      rw [kill]
      split
      · next more =>
          have shorter := distance_sub_one more.1
          refine ih (ordered.erase more.1) ?_ ?_
          · dsimp only
            omega
          · rw [editing_last more.1] at line
            intro member
            exact line (List.mem_append_left _ member)
      · next stop =>
          have same : cons.e = cons.w := by
            by_contra differs
            apply stop
            refine ⟨differs, ?_⟩
            intro ends
            rw [editing_last differs, ends] at line
            exact line (List.mem_append_right _ (List.mem_singleton_self _))
          rw [Cons.eq_of_same same]

/-- What the loop of `consoleread` does to the console. -/
structure Taken (target n : Nat) (cons : Cons) (stop : Stop) (rest : Nat) (moved : List UInt8)
    (after : Cons) : Prop where
  /-- The characters come from the front. -/
  waiting : cons.waiting = moved ++ stop.taken ++ after.waiting
  /-- The indices stay in order. -/
  ordered : after.Ordered
  /-- The write index is not touched. -/
  w : after.w = cons.w
  /-- The line that is being edited is not touched. -/
  editing : after.editing = cons.editing
  /-- The bytes are counted. -/
  count : moved.length + rest = n
  /-- An end of file is not delivered. -/
  eof : ctrlD ∉ moved
  /-- A newline is the last byte. -/
  line : newline ∉ moved.dropLast
  /-- The loop goes to sleep on an empty buffer. -/
  empty : stop = .empty → after.r = after.w ∧ 0 < rest ∧ newline ∉ moved
  /-- The caller's buffer is full. -/
  full : stop = .count → rest = 0
  /-- A newline is delivered. -/
  ended : stop = .line → moved ≠ []
  /-- An end of file is put back. -/
  kept : stop = .eof true → rest < target ∧ after.waiting.head? = some ctrlD
  /-- An end of file is taken. -/
  taken : stop = .eof false → target ≤ rest

/-- A character is taken. -/
theorem Cons.Ordered.take {cons : Cons} (ordered : cons.Ordered) (differs : cons.r ≠ cons.w) :
    Cons.Ordered { cons with r := cons.r + 1 } := by
  have between := ordered.between
  have fits := ordered.fits
  have shorter := distance_of_ne (Ne.symm differs)
  have ahead : cons.e ≠ cons.r := by
    intro same
    rw [same, distance_self] at between
    omega
  have buffered := distance_of_ne ahead
  constructor
  · dsimp only
    omega
  · dsimp only
    omega

theorem readLoop_taken (target n : Nat) {cons : Cons} (ordered : cons.Ordered) :
    Taken target n cons (readLoop target n cons).1 (readLoop target n cons).2.1
      (readLoop target n cons).2.2.1 (readLoop target n cons).2.2.2 := by
  induction n generalizing cons with
  | zero =>
      exact ⟨rfl, ordered, rfl, rfl, rfl, by simp [readLoop], by simp [readLoop], nofun,
        fun _ => rfl, nofun, nofun, nofun⟩
  | succ n ih =>
      rw [readLoop]
      split
      · next empty =>
          exact ⟨rfl, ordered, rfl, rfl, by simp, by simp, by simp,
            fun _ => ⟨empty, n.succ_pos, by simp⟩, nofun, nofun, nofun, nofun⟩
      · next differs =>
          set next : Cons := { cons with r := cons.r + 1 } with next_eq
          have next_ordered : next.Ordered := ordered.take differs
          have popped : cons.waiting = cons.buf (cons.r.toNat % inputBufSize) :: next.waiting :=
            contents_pop inputBufSize_dvd cons.buf (Ne.symm differs)
          dsimp only
          split
          · next ends =>
              rw [ends] at popped
              split
              · next started =>
                  -- The end of file goes back to where it was.
                  have back : ({ next with r := next.r - 1 } : Cons) = cons := by
                    rw [next_eq]
                    simp
                  rw [back]
                  exact ⟨rfl, ordered, rfl, rfl, by simp, by simp, by simp, nofun, nofun, nofun,
                    fun _ => ⟨started, by rw [popped]; rfl⟩, nofun⟩
              · next fresh =>
                  exact ⟨popped, next_ordered, rfl, rfl, by simp, by simp, by simp, nofun, nofun,
                    nofun, nofun, fun _ => Nat.le_of_not_lt fresh⟩
          · next inside =>
              split
              · next ends =>
                  refine ⟨?_, next_ordered, rfl, rfl, by simp [Nat.add_comm], ?_, by simp, nofun,
                    nofun, by simp, nofun, nofun⟩
                  · rw [popped]
                    rfl
                  · rw [List.mem_singleton]
                    exact Ne.symm inside
              · next goes =>
                  have taken := ih next_ordered
                  generalize readLoop target n next = result at *
                  obtain ⟨stop, rest, moved, after⟩ := result
                  dsimp only at *
                  refine ⟨?_, taken.ordered, taken.w, taken.editing, ?_, ?_, ?_, ?_, taken.full,
                    by simp, taken.kept, taken.taken⟩
                  · rw [popped, taken.waiting]
                    rfl
                  · have count := taken.count
                    rw [List.length_cons]
                    omega
                  · rw [List.mem_cons, not_or]
                    exact ⟨Ne.symm inside, taken.eof⟩
                  · cases moved with
                    | nil => simp
                    | cons head tail =>
                        rw [List.dropLast_cons_cons, List.mem_cons, not_or]
                        exact ⟨Ne.symm goes, taken.line⟩
                  · intro stops
                    obtain ⟨empty, left, lines⟩ := taken.empty stops
                    rw [List.mem_cons, not_or]
                    exact ⟨empty, left, Ne.symm goes, lines⟩

/-- What `consoleintr` does to the console and to the text. -/
structure Keyed (cons : Cons) (text : Text) (after : Cons) (next : Text) (woken : Bool) :
    Prop where
  /-- The indices stay in order. -/
  ordered : after.Ordered
  /-- The read index is not touched. -/
  r : after.r = cons.r
  /-- The line is in the buffer. -/
  editing : after.editing = next.line
  /-- The line has no end. -/
  line : newline ∉ next.line
  /-- Characters are committed at the end of the text. -/
  committed : ∃ more, next.committed = text.committed ++ more ∧ after.waiting = cons.waiting ++ more
  /-- Readers are woken when characters are committed. -/
  wakes : woken = false → after.w = cons.w

/-- Nothing is committed. -/
theorem Keyed.edit {cons : Cons} {text : Text} {after : Cons} {line : List UInt8} {woken : Bool}
    (ordered : after.Ordered) (r : after.r = cons.r) (w : after.w = cons.w)
    (waiting : after.waiting = cons.waiting) (editing : after.editing = line)
    (plain : newline ∉ line) : Keyed cons text after { text with line := line } woken :=
  ⟨ordered, r, editing, plain, ⟨[], by simp, by simp [waiting]⟩, fun _ => w⟩

/-- A character is stored behind the others. -/
theorem Cons.Ordered.store {cons : Cons} (ordered : cons.Ordered)
    (room : distance cons.e cons.r < inputBufSize) (c : UInt8) :
    let after := { cons with
      buf := Function.update cons.buf (cons.e.toNat % inputBufSize) c
      e := cons.e + 1 }
    after.Ordered ∧ after.waiting = cons.waiting ∧ after.editing = cons.editing ++ [c] := by
  have between := ordered.between
  have small : inputBufSize < 2 ^ 32 - 1 := by decide
  have buffered : distance (cons.e + 1) cons.r = distance cons.e cons.r + 1 :=
    distance_add_one (by omega)
  have edited : distance (cons.e + 1) cons.w = distance cons.e cons.w + 1 :=
    distance_add_one (by omega)
  have behind : distance cons.w cons.r ≤ distance cons.e cons.r := by omega
  have line_room : distance cons.e cons.w < inputBufSize := by omega
  refine ⟨⟨?_, ?_⟩, ?_, ?_⟩
  · dsimp only
    omega
  · dsimp only
    omega
  · exact contents_update inputBufSize_dvd cons.buf behind room c
  · exact contents_push inputBufSize_dvd cons.buf line_room (line_room.trans small) c

theorem consoleintr_keyed {cons : Cons} {text : Text} (ordered : cons.Ordered)
    (editing : cons.editing = text.line) (line : newline ∉ text.line) (c : UInt8) :
    Keyed cons text (consoleintr cons c).1 (text.key cons.waiting.length c)
      (consoleintr cons c).2 := by
  have waits : cons.waiting.length = distance cons.w cons.r := length_contents _ _ _
  have edits : text.line.length = distance cons.e cons.w := by
    rw [← editing]
    exact length_contents _ _ _
  have between := ordered.between
  have fits := ordered.fits
  rw [consoleintr, Text.key]
  split
  · exact .edit ordered rfl rfl rfl editing line
  split
  · rw [kill_line ordered le_rfl (by rwa [editing])]
    refine .edit ⟨?_, ?_⟩ rfl rfl rfl (contents_self _ _) (List.not_mem_nil)
    · simp
    · dsimp only
      omega
  split
  · split
    · next more =>
        have erased : Cons.editing { cons with e := cons.e - 1 } = text.line.dropLast := by
          rw [← editing]
          exact contents_sub_one cons.buf more
        refine .edit (ordered.erase more) rfl rfl rfl erased ?_
        intro member
        exact line (List.mem_of_mem_dropLast member)
    · next same =>
        rw [not_not] at same
        have empty : text.line = [] := by
          rw [← List.length_eq_zero_iff, edits, same, distance_self]
        rw [empty, List.dropLast_nil, ← empty]
        exact .edit ordered rfl rfl rfl editing line
  have room_iff : cons.e - cons.r < UInt32.ofNat inputBufSize ↔
      distance cons.e cons.r < inputBufSize := Iff.rfl
  split
  · next stored =>
      have room : distance cons.e cons.r < inputBufSize := room_iff.mp stored.2
      have kept : ¬(c = 0 ∨ cons.waiting.length + text.line.length = inputBufSize) := by
        rw [not_or]
        exact ⟨stored.1, by omega⟩
      rw [if_neg kept]
      generalize (if c = carriageReturn then newline else c) = c
      obtain ⟨after_ordered, waiting, after_editing⟩ := ordered.store room c
      dsimp only at *
      set after : Cons := { cons with
        buf := Function.update cons.buf (cons.e.toNat % inputBufSize) c
        e := cons.e + 1 } with after_eq
      rw [editing] at after_editing
      have length : cons.waiting.length + (text.line ++ [c]).length = distance after.e after.r := by
        rw [after_ordered.between, ← waiting, ← after_editing, Cons.waiting, length_contents,
          Cons.editing, length_contents]
      have full_iff : after.e - after.r = UInt32.ofNat inputBufSize ↔
          cons.waiting.length + (text.line ++ [c]).length = inputBufSize := by
        rw [length, distance, ← UInt32.toNat_inj]
        rfl
      by_cases ends : c = newline ∨ c = ctrlD ∨
          cons.waiting.length + (text.line ++ [c]).length = inputBufSize
      · -- The line is committed with the character that ends it.
        have commits : c = newline ∨ c = ctrlD ∨
            after.e - after.r = UInt32.ofNat inputBufSize := by rwa [full_iff]
        rw [if_pos ends, if_pos commits]
        refine ⟨⟨?_, after_ordered.fits⟩, rfl, contents_self _ _, List.not_mem_nil,
          ⟨text.line ++ [c], rfl, ?_⟩, fun no => by cases no⟩
        · simp
        · rw [← waiting, ← after_editing]
          exact contents_append inputBufSize_dvd after.buf after_ordered.between
      · have goes : ¬(c = newline ∨ c = ctrlD ∨
            after.e - after.r = UInt32.ofNat inputBufSize) := by rwa [full_iff]
        rw [if_neg ends, if_neg goes]
        refine .edit after_ordered rfl rfl waiting after_editing ?_
        rw [not_or] at goes
        rw [List.mem_append, List.mem_singleton, not_or]
        exact ⟨line, Ne.symm goes.1⟩
  · next dropped =>
      have ignored : c = 0 ∨ cons.waiting.length + text.line.length = inputBufSize := by
        rw [room_iff] at dropped
        by_cases zero : c = 0
        · exact Or.inl zero
        · right
          have full : ¬distance cons.e cons.r < inputBufSize := fun room => dropped ⟨zero, room⟩
          omega
      rw [if_pos ignored]
      exact .edit ordered rfl rfl rfl editing line

/-! ## The record -/

/-- The places of the ends of file in a text. -/
def endings (text : List UInt8) : List Nat :=
  (List.range text.length).filter fun k => text[k]? = some ctrlD

/-- Text without an end of file is appended. -/
theorem endings_append {text more : List UInt8} (plain : ctrlD ∉ more) :
    endings (text ++ more) = endings text := by
  induction more using List.reverseRecOn with
  | nil => simp
  | append_singleton more c ih =>
      rw [List.mem_append, List.mem_singleton, not_or] at plain
      have before : endings (text ++ more ++ [c]) = endings (text ++ more) := by
        rw [endings, endings, List.length_append, List.length_singleton, List.range_succ,
          List.filter_append]
        have last : ¬(text ++ more ++ [c])[(text ++ more).length]? = some ctrlD := by
          rw [List.getElem?_concat_length]
          exact fun same => plain.2 (Option.some.inj same).symm
        rw [List.filter_singleton, decide_eq_false last, cond_false, List.append_nil]
        apply List.filter_congr
        intro k member
        rw [List.getElem?_append_left (List.mem_range.mp member)]
      rw [← List.append_assoc, before, ih plain.1]

/-- An end of file is appended. -/
theorem endings_concat (text : List UInt8) :
    endings (text ++ [ctrlD]) = endings text ++ [text.length] := by
  rw [endings, endings, List.length_append, List.length_singleton, List.range_succ,
    List.filter_append]
  congr 1
  · apply List.filter_congr
    intro k member
    rw [List.getElem?_append_left (List.mem_range.mp member)]
  · rw [List.filter_singleton, decide_eq_true (List.getElem?_concat_length), cond_true]

/-- The bytes that a process has in a read that has not returned. -/
def Thread.moved : Thread → List UInt8
  | .idle => []
  | .reader _ _ _ moved => moved

/-- What a read that returned has done. -/
structure Return.Fair (committed : List UInt8) (r : Return ι) : Prop where
  /-- It returns the number of its bytes. -/
  value : r.value = r.moved.length
  /-- A newline is the last byte. -/
  line : newline ∉ r.moved.dropLast
  /-- An end of file is not delivered. -/
  eof : ctrlD ∉ r.moved
  /-- An end of file is put back by a read that has bytes. -/
  ends : ∀ kept, r.stop = .eof kept →
    committed[r.position]? = some ctrlD ∧ (kept = true ↔ r.moved ≠ [])
  /-- Any other read has bytes. -/
  some : (∀ kept, r.stop ≠ .eof kept) → r.moved ≠ []

/-- The buffer holds what was typed and not yet taken, and reads have taken and delivered the
committed text in order. -/
structure Lined (w : World ι) : Prop where
  /-- The indices are in order. -/
  ordered : w.cons.Ordered
  /-- The committed text is taken from its front. -/
  waiting : w.text.committed = w.consumed ++ w.cons.waiting
  /-- The line is in the buffer. -/
  editing : w.cons.editing = w.text.line
  /-- The line has no end. -/
  line : newline ∉ w.text.line
  /-- What is taken is delivered, but for the ends of file. -/
  delivered : w.delivered.map Prod.snd = w.consumed.filter (· ≠ ctrlD)
  /-- Readers have counted their bytes, and sleep on an empty buffer. -/
  readers : ∀ p asleep target n moved, w.thread p = .reader asleep target n moved →
    moved.length + n = target ∧ 0 < n ∧ newline ∉ moved ∧ ctrlD ∉ moved ∧
      (asleep = true → w.cons.r = w.cons.w)
  /-- A process has received the bytes of its reads. -/
  shares : ∀ p, (w.delivered.filter (·.1 = p)).map Prod.snd =
    (w.returns.reverse.filter (·.proc = p)).flatMap Return.moved ++ (w.thread p).moved
  /-- Reads that returned have done what they should. -/
  returns : ∀ r ∈ w.returns, r.Fair w.text.committed
  /-- A read returns nothing at an end of file that it takes. -/
  ends : ((w.returns.filter (·.value = 0)).map Return.position).reverse = endings w.consumed

variable {w : World ι}

theorem Lined.initial (buf : Nat → UInt8) (start : UInt32) :
    Lined (World.initial ι buf start) where
  ordered := ⟨by simp [World.initial], by simp [World.initial]⟩
  waiting := by simp [World.initial, Cons.waiting]
  editing := by simp [World.initial, Cons.editing]
  line := by simp [World.initial]
  delivered := rfl
  readers _ _ _ _ _ reading := by cases reading
  shares _ := rfl
  returns _ member := by cases member
  ends := rfl

omit [DecidableEq ι] in
/-- More text is committed. -/
theorem Return.Fair.append {committed : List UInt8} {r : Return ι} (fair : r.Fair committed)
    (more : List UInt8) : r.Fair (committed ++ more) := by
  refine { fair with ends := ?_ }
  intro kept stops
  obtain ⟨ended, has⟩ := fair.ends kept stops
  refine ⟨?_, has⟩
  have inside : r.position < committed.length := by
    by_contra outside
    rw [List.getElem?_eq_none (Nat.le_of_not_lt outside)] at ended
    cases ended
  rw [List.getElem?_append_left inside, ended]

@[simp]
theorem Thread.moved_idle : Thread.idle.moved = [] := rfl

@[simp]
theorem Thread.moved_reader (asleep : Bool) (target n : Nat) (moved : List UInt8) :
    (Thread.reader asleep target n moved).moved = moved := rfl

@[simp]
theorem wake_moved (thread : Thread) : (wake thread).moved = thread.moved := by
  cases thread <;> rfl

omit [DecidableEq ι] in
/-- The characters that wait are those committed and not taken. -/
theorem Lined.length_waiting [DecidableEq ι] (lined : Lined w) :
    w.text.committed.length - w.consumed.length = w.cons.waiting.length := by
  rw [lined.waiting, List.length_append]
  omega

theorem Lined.intrSection (lined : Lined w) (c : UInt8) : Lined (intrSection w c) := by
  have keyed := consoleintr_keyed lined.ordered lined.editing lined.line c
  rw [Console.intrSection, lined.length_waiting]
  generalize consoleintr w.cons c = result at *
  obtain ⟨cons, woken⟩ := result
  dsimp only at *
  obtain ⟨more, committed, waiting⟩ := keyed.committed
  constructor
  case ordered => exact keyed.ordered
  case waiting =>
    dsimp only
    rw [committed, waiting, lined.waiting, List.append_assoc]
  case editing => exact keyed.editing
  case line => exact keyed.line
  case delivered => exact lined.delivered
  case readers =>
    intro p asleep target n moved reading
    cases woken with
    | true =>
        -- Nobody is asleep after a wakeup.
        have awake : ∃ before, asleep = false ∧
            w.thread p = .reader before target n moved := by
          change wake (w.thread p) = _ at reading
          cases slept : w.thread p with
          | idle =>
              rw [slept] at reading
              cases reading
          | reader before =>
              rw [slept] at reading
              cases reading
              exact ⟨before, rfl, rfl⟩
        obtain ⟨before, rfl, was⟩ := awake
        obtain ⟨count, left, lines, ends, _⟩ := lined.readers p before target n moved was
        exact ⟨count, left, lines, ends, nofun⟩
    | false =>
        obtain ⟨count, left, lines, ends, empty⟩ := lined.readers p asleep target n moved reading
        refine ⟨count, left, lines, ends, ?_⟩
        intro sleeps
        rw [keyed.r, keyed.wakes rfl, empty sleeps]
  case shares =>
    intro p
    dsimp only
    rw [lined.shares p]
    cases woken with
    | true => simp
    | false => simp
  case returns =>
    intro r member
    dsimp only
    rw [committed]
    exact (lined.returns r member).append more
  case ends => exact lined.ends

omit [DecidableEq ι] in
/-- One process has moved. -/
theorem of_update [DecidableEq ι] {threads : ι → Thread} {p q : ι} {thread other : Thread}
    (moved : Function.update threads p thread q = other) :
    (q = p ∧ thread = other) ∨ (q ≠ p ∧ threads q = other) := by
  by_cases same : q = p
  · subst same
    rw [Function.update_self] at moved
    exact Or.inl ⟨rfl, moved⟩
  · rw [Function.update_of_ne same] at moved
    exact Or.inr ⟨same, moved⟩

/-- The bytes that one process receives. -/
theorem filter_delivered (delivered : List (ι × UInt8)) (p q : ι) (more : List UInt8) :
    ((delivered ++ more.map fun c => (p, c)).filter (·.1 = q)).map Prod.snd =
      (delivered.filter (·.1 = q)).map Prod.snd ++ if q = p then more else [] := by
  rw [List.filter_append, List.map_append]
  congr 1
  split
  · next same =>
      rw [same, List.filter_eq_self.mpr (by simp), List.map_map]
      exact List.map_id more
  · next other =>
      rw [List.filter_eq_nil_iff.mpr (by simp [Ne.symm other])]
      rfl

section reading

variable {p : ι} {target n rest : Nat} {moved more : List UInt8} {stop : Stop} {cons : Cons}

/-- Nothing waits. -/
theorem waiting_eq_nil_iff : cons.waiting = [] ↔ cons.r = cons.w := by
  rw [← List.length_eq_zero_iff, Cons.waiting, length_contents, distance_eq_zero_iff, eq_comm]

omit [DecidableEq ι] in
/-- An empty buffer stays empty. -/
theorem Taken.stays_empty (taken : Taken target n w.cons stop rest more cons)
    (empty : w.cons.r = w.cons.w) : cons.r = cons.w := by
  have none := waiting_eq_nil_iff.mpr empty
  rw [taken.waiting, List.append_eq_nil_iff] at none
  exact waiting_eq_nil_iff.mp none.2

omit [DecidableEq ι] in
/-- What is taken is delivered, but for the ends of file. -/
theorem Taken.filter (taken : Taken target n w.cons stop rest more cons) :
    (more ++ stop.taken).filter (· ≠ ctrlD) = more := by
  have plain : more.filter (· ≠ ctrlD) = more := by
    rw [List.filter_eq_self]
    intro c member
    rw [decide_eq_true_iff]
    rintro rfl
    exact taken.eof member
  have none : stop.taken.filter (· ≠ ctrlD) = [] := by
    cases stop with
    | eof kept => cases kept <;> rfl
    | _ => rfl
  rw [List.filter_append, plain, none, List.append_nil]

omit [DecidableEq ι] in
/-- A read that returns has done what it should. -/
theorem Taken.fair {before : List UInt8} (taken : Taken target n w.cons stop rest more cons)
    (count : moved.length + n = target) (left : 0 < n) (lines : newline ∉ moved)
    (plain : ctrlD ∉ moved) (stops : stop ≠ .empty) :
    Return.Fair (before ++ w.cons.waiting)
      ⟨p, target - rest, moved ++ more, stop, before.length + more.length⟩ := by
  have counted := taken.count
  have length : (moved ++ more).length + rest = target := by
    rw [List.length_append]
    omega
  have some_iff : moved ++ more ≠ [] ↔ rest < target := by
    rw [← List.length_pos_iff]
    omega
  constructor
  case value =>
    dsimp only
    omega
  case line =>
    dsimp only
    cases more with
    | nil =>
        rw [List.append_nil]
        exact fun member => lines (List.mem_of_mem_dropLast member)
    | cons head tail =>
        rw [List.dropLast_append_of_ne_nil (List.cons_ne_nil head tail), List.mem_append, not_or]
        exact ⟨lines, taken.line⟩
  case eof =>
    rw [List.mem_append, not_or]
    exact ⟨plain, taken.eof⟩
  case ends =>
    intro kept ended
    dsimp only at *
    subst ended
    rw [taken.waiting, some_iff, List.append_assoc, ← List.append_assoc,
      List.getElem?_append_right (by simp), List.length_append, Nat.sub_self]
    cases kept with
    | true =>
        obtain ⟨started, head⟩ := taken.kept rfl
        rw [← List.head?_eq_getElem?]
        exact ⟨head, by simp [started]⟩
    | false => exact ⟨rfl, by simp [taken.taken rfl]⟩
  case some =>
    intro other
    dsimp only at *
    rw [some_iff]
    cases stop with
    | empty => exact absurd rfl stops
    | count =>
        rw [taken.full rfl]
        omega
    | line =>
        have some := List.length_pos_iff.mpr (taken.ended rfl)
        omega
    | eof kept => exact absurd rfl (other kept)

/-- A section takes bytes and delivers them. -/
theorem Lined.took (lined : Lined w) (taken : Taken target n w.cons stop rest more cons) :
    w.text.committed = w.consumed ++ more ++ stop.taken ++ cons.waiting ∧
      (w.delivered ++ more.map fun c => (p, c)).map Prod.snd =
        (w.consumed ++ more ++ stop.taken).filter (· ≠ ctrlD) := by
  constructor
  · simp [lined.waiting, taken.waiting]
  · rw [List.map_append, lined.delivered, List.append_assoc, List.filter_append, taken.filter,
      List.map_map]
    exact congrArg _ (List.map_id more)

/-- A read returns. -/
theorem Lined.returned (lined : Lined w) (taken : Taken target n w.cons stop rest more cons)
    (current : (w.thread p).moved = moved) (count : moved.length + n = target) (left : 0 < n)
    (lines : newline ∉ moved) (plain : ctrlD ∉ moved) (stops : stop ≠ .empty) :
    Lined { w with
      cons := cons
      consumed := w.consumed ++ more ++ stop.taken
      delivered := w.delivered ++ more.map fun c => (p, c)
      thread := Function.update w.thread p .idle
      returns := ⟨p, target - rest, moved ++ more, stop, w.consumed.length + more.length⟩ ::
        w.returns } := by
  have fair : Return.Fair w.text.committed
      ⟨p, target - rest, moved ++ more, stop, w.consumed.length + more.length⟩ := by
    rw [lined.waiting]
    exact taken.fair count left lines plain stops
  constructor
  case ordered => exact taken.ordered
  case waiting => exact (lined.took (p := p) taken).1
  case editing => exact taken.editing.trans lined.editing
  case line => exact lined.line
  case delivered => exact (lined.took taken).2
  case readers =>
    intro q asleep target' n' moved' reading
    rcases of_update reading with ⟨_, here⟩ | ⟨_, reading⟩
    · cases here
    · obtain ⟨count, left, lines, ends, empty⟩ := lined.readers q asleep target' n' moved' reading
      exact ⟨count, left, lines, ends, fun sleeps => taken.stays_empty (empty sleeps)⟩
  case shares =>
    intro q
    dsimp only
    rw [filter_delivered, lined.shares q, List.reverse_cons, List.filter_append,
      List.flatMap_append]
    by_cases same : q = p
    · subst same
      simp [current]
    · simp [same, Ne.symm same]
  case returns =>
    intro r member
    rw [List.mem_cons] at member
    rcases member with rfl | earlier
    · exact fair
    · exact lined.returns r earlier
  case ends =>
    -- The read returns nothing exactly when it takes an end of file.
    dsimp only
    by_cases takes : stop = .eof false
    · subst takes
      have nothing : target - rest = 0 := Nat.sub_eq_zero_of_le (taken.taken rfl)
      rw [List.filter_cons_of_pos (by simp [nothing]), List.map_cons, List.reverse_cons, lined.ends,
        Stop.taken, endings_concat, endings_append taken.eof, List.length_append]
    · have some : target - rest ≠ 0 := by
        have value := fair.value
        dsimp only at value
        rw [value, Ne, List.length_eq_zero_iff]
        by_cases ended : ∃ kept, stop = .eof kept
        · obtain ⟨kept, ended⟩ := ended
          cases kept with
          | true => exact ((fair.ends true ended).2.mp rfl)
          | false => exact absurd ended takes
        · exact fair.some (not_exists.mp ended)
      have none : stop.taken = [] := by
        cases stop with
        | eof kept =>
            cases kept with
            | true => rfl
            | false => exact absurd rfl takes
        | _ => rfl
      rw [List.filter_cons_of_neg (by simp [some]), lined.ends, none, List.append_nil,
        endings_append taken.eof]

/-- A read goes on with the bytes it has. -/
theorem Lined.readSection (lined : Lined w) (current : (w.thread p).moved = moved)
    (count : moved.length + n = target) (left : 0 < n) (lines : newline ∉ moved)
    (plain : ctrlD ∉ moved) : Lined (readSection w p target n moved) := by
  have taken := readLoop_taken target n lined.ordered
  rw [Console.readSection]
  generalize readLoop target n w.cons = result at *
  obtain ⟨stop, rest, more, cons⟩ := result
  dsimp only at *
  cases stop with
  | empty =>
      obtain ⟨empty, rest_pos, more_lines⟩ := taken.empty rfl
      have counted := taken.count
      constructor
      case ordered => exact taken.ordered
      case waiting => exact (lined.took (p := p) taken).1
      case editing => exact taken.editing.trans lined.editing
      case line => exact lined.line
      case delivered => exact (lined.took taken).2
      case readers =>
        intro q asleep target' n' moved' reading
        rcases of_update reading with ⟨_, here⟩ | ⟨_, reading⟩
        · cases here
          refine ⟨?_, rest_pos, ?_, ?_, fun _ => empty⟩
          · rw [List.length_append]
            omega
          · rw [List.mem_append, not_or]
            exact ⟨lines, more_lines⟩
          · rw [List.mem_append, not_or]
            exact ⟨plain, taken.eof⟩
        · obtain ⟨count, left, lines, ends, slept⟩ :=
            lined.readers q asleep target' n' moved' reading
          exact ⟨count, left, lines, ends, fun _ => empty⟩
      case shares =>
        intro q
        dsimp only
        rw [filter_delivered, lined.shares q, List.append_assoc]
        by_cases same : q = p
        · subst same
          simp [current]
        · simp [same]
      case returns => exact lined.returns
      case ends =>
        dsimp only
        rw [lined.ends, Stop.taken, List.append_nil, endings_append taken.eof]
        nofun
  | count => exact lined.returned taken current count left lines plain nofun
  | line => exact lined.returned taken current count left lines plain nofun
  | eof kept => exact lined.returned taken current count left lines plain nofun

end reading

/-- One section keeps the invariant. -/
theorem Lined.perform (lined : Lined w) {label : Label ι} {next : World ι}
    (permitted : Permits w label) (succeeds : perform w label = .ok next) : Lined next := by
  cases label with
  | intr c =>
      cases succeeds
      exact lined.intrSection c
  | read p n =>
      cases succeeds
      obtain ⟨idle, some⟩ := permitted
      have current : (w.thread p).moved = [] := by
        rw [idle]
        rfl
      exact lined.readSection current (by simp) some List.not_mem_nil List.not_mem_nil
  | resume p =>
      rw [Console.perform] at succeeds
      split at succeeds
      · next target n moved reading =>
          cases succeeds
          obtain ⟨count, left, lines, plain, _⟩ := lined.readers p false target n moved reading
          have current : (w.thread p).moved = moved := by
            rw [reading]
            rfl
          exact lined.readSection current count left lines plain
      · cases succeeds

/-- Nothing committed is erased, and nothing delivered is delivered again. -/
theorem Lined.grows (lined : Lined w) {label : Label ι} {next : World ι}
    (succeeds : Console.perform w label = .ok next) :
    w.text.committed <+: next.text.committed ∧ w.delivered <+: next.delivered := by
  have section_grows : ∀ p target n moved,
      w.text.committed <+: (Console.readSection w p target n moved).text.committed ∧
        w.delivered <+: (Console.readSection w p target n moved).delivered := by
    intro p target n moved
    rw [Console.readSection]
    generalize readLoop target n w.cons = result
    obtain ⟨stop, rest, more, cons⟩ := result
    cases stop <;> exact ⟨List.prefix_refl _, List.prefix_append _ _⟩
  cases label with
  | intr c =>
      cases succeeds
      have keyed := consoleintr_keyed lined.ordered lined.editing lined.line c
      obtain ⟨more, committed, _⟩ := keyed.committed
      refine ⟨⟨more, ?_⟩, List.prefix_refl _⟩
      rw [Console.intrSection, lined.length_waiting]
      exact committed.symm
  | read p n =>
      cases succeeds
      exact section_grows p n n []
  | resume p =>
      rw [Console.perform] at succeeds
      split at succeeds
      · cases succeeds
        exact section_grows p _ _ _
      · cases succeeds

/-- In every run the indices follow each other over at most `INPUT_BUF_SIZE` characters. Reads take
the committed text from its front and deliver it but for its ends of file, each process receives the
bytes of its reads, and what is committed or delivered stays so. A read delivers nothing behind a
newline. The reads that return nothing are those that take an end of file, one for each, in the
order of the text; a read that has bytes when it meets one returns these and leaves it to the next
read. -/
theorem console_delivers_lines {buf : Nat → UInt8} {start : UInt32}
    (reached : GuardedRun.Reaches Permits perform (World.initial ι buf start) w) :
    ((w.cons.w - w.cons.r).toNat ≤ (w.cons.e - w.cons.r).toNat ∧
      (w.cons.e - w.cons.r).toNat ≤ inputBufSize) ∧
    (w.consumed <+: w.text.committed ∧
      w.delivered.map Prod.snd = w.consumed.filter (· ≠ ctrlD)) ∧
    (∀ p, (w.delivered.filter (·.1 = p)).map Prod.snd =
      (w.returns.reverse.filter (·.proc = p)).flatMap Return.moved ++ (w.thread p).moved) ∧
    (∀ label next, perform w label = .ok next →
      w.text.committed <+: next.text.committed ∧ w.delivered <+: next.delivered) ∧
    (∀ r ∈ w.returns, r.value = r.moved.length ∧ newline ∉ r.moved.dropLast ∧ ctrlD ∉ r.moved) ∧
    ((w.returns.filter (·.value = 0)).map Return.position).reverse = endings w.consumed ∧
    (∀ r ∈ w.returns, ∀ kept, r.stop = .eof kept →
      w.text.committed[r.position]? = some ctrlD ∧ (kept = true ↔ r.moved ≠ [])) ∧
    ∀ p target n moved, w.thread p = .reader true target n moved → w.cons.r = w.cons.w := by
  have lined : Lined w := reached.invariant Lined (Lined.initial buf start)
    fun lined permitted succeeds => lined.perform permitted succeeds
  refine ⟨⟨?_, lined.ordered.fits⟩, ⟨⟨w.cons.waiting, lined.waiting.symm⟩, lined.delivered⟩,
    lined.shares, fun _ _ => lined.grows, ?_, lined.ends, ?_, ?_⟩
  · have between := lined.ordered.between
    rw [distance, distance] at between
    omega
  · intro r member
    have fair := lined.returns r member
    exact ⟨fair.value, fair.line, fair.eof⟩
  · intro r member
    exact (lined.returns r member).ends
  · intro p target n moved reading
    exact (lined.readers p true target n moved reading).2.2.2.2 rfl

/-- A process reads a line in which a character was erased. -/
theorem console_delivers_lines_hi : ∃ w : World Bool,
    GuardedRun.Reaches Permits perform (World.initial Bool (fun _ => 0) 0) w ∧
      w.delivered.map Prod.snd = [104, 105, newline] ∧ w.consumed <+: w.text.committed := by
  obtain ⟨w, reached, delivered⟩ :=
    GuardedRun.exists_reaches_of_replay Permits perform (World.initial Bool (fun _ => 0) 0)
      [.read false 10, .intr 104, .intr 106, .intr ctrlH, .intr 105, .intr carriageReturn,
        .resume false]
      (fun w => w.delivered.map Prod.snd = [104, 105, newline]) (by decide +kernel)
  exact ⟨w, reached, of_decide_eq_true delivered, (console_delivers_lines reached).2.1.1⟩

/-- Two reads that have bytes from a full buffer return at one end of file. -/
theorem two_reads_return_at_one_eof :
    ¬∀ w : World Bool, GuardedRun.Reaches Permits perform (World.initial Bool (fun _ => 0) 0) w →
      ∀ k, (w.returns.filter fun r => r.stop = .eof true ∧ r.position = k).length ≤ 1 := by
  intro once
  obtain ⟨w, reached, twice⟩ :=
    GuardedRun.exists_reaches_of_replay Permits perform (World.initial Bool (fun _ => 0) 0)
      (List.replicate 128 (.intr 97) ++ [.read false 200] ++ List.replicate 128 (.intr 97) ++
        [.read true 200, .intr ctrlD, .resume false, .resume true])
      (fun w =>
        (w.returns.filter fun r => r.stop = .eof true ∧ r.position = 256).length = 2)
      (by decide +kernel)
  have one := once w reached 256
  have two := of_decide_eq_true twice
  omega

end Console
end Xv6Duo
