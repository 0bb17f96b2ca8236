import Mathlib.Data.Fintype.Card
import Xv6Duo.Descriptor.Model

/-!
# Copies of a descriptor

`dup`, `dup3` and `fcntl` with `F_DUPFD`. A copy refers to the same open file, takes a reference
and carries its own close-on-exec bit; a call that fails changes nothing. The calls take the
reference before they know of a slot, and index the table before they compare the number.
-/

namespace Xv6Duo
namespace Descriptor

open Vfs (FdType nfile nofile ninode)

/-! ## Bits -/

theorem bitRemove_eq_iff (p : UInt32) (n : Fin nofile) :
    bitRemove p n = p ↔ bitTest p n = false := by
  rw [bitRemove, bitTest, decide_eq_false_iff_not, not_not]
  generalize (1 : UInt32) <<< UInt32.ofNat n.val = bit
  constructor
  · intro same
    rw [← same, UInt32.and_assoc, UInt32.not_and_self, UInt32.and_zero]
  · intro clear
    have split : p &&& (bit ||| ~~~bit) = p &&& bit ||| p &&& ~~~bit :=
      UInt32.toBitVec_inj.mp BitVec.and_or_distrib_left
    rw [UInt32.or_not_self, UInt32.and_neg_one, clear, UInt32.zero_or] at split
    exact split.symm

/-! ## What a copy is -/

/-- A descriptor is open. -/
def Open (w : World) (fd : Int) (f : Fin nfile) : Prop :=
  ∃ slot : Fin nofile, (slot.val : Int) = fd ∧ w.ofile slot = some f

/-- The first free descriptor from `start` on. -/
structure LeastFree (w : World) (start : Int) (slot : Fin nofile) : Prop where
  /-- It is not below. -/
  above : start ≤ slot.val
  /-- It is free. -/
  free : w.ofile slot = none
  /-- Those between are not. -/
  least : ∀ other : Fin nofile, start ≤ other.val → w.ofile other = none → slot ≤ other

/-- A descriptor refers to a file, with another reference and with its own bit. -/
def World.refer (w : World) (slot : Fin nofile) (f : Fin nfile) (cloexec : Bool) : World :=
  { w with
    ofile := Function.update w.ofile slot (some f)
    ftable := Function.update w.ftable f { w.ftable f with ref := (w.ftable f).ref + 1 }
    fdflag := if cloexec then bitAdd w.fdflag slot else bitRemove w.fdflag slot }

/-- A call that makes a copy. -/
inductive Call
  /-- `dup`. -/
  | dup (fd : Int)
  /-- `fcntl` with `F_DUPFD`. -/
  | dupfd (fd : Int) (start : Int32)
  /-- `dup3`. -/
  | dup3 (fd target : Int) (flags : UInt32)

/-- The source of a call. -/
def Call.source : Call → Int
  | .dup fd => fd
  | .dupfd fd _ => fd
  | .dup3 fd _ _ => fd

/-- The first descriptor that a call may take. -/
def Call.start : Call → Option Int
  | .dup _ => some 0
  | .dupfd _ start => some start.toInt
  | .dup3 _ _ _ => none

/-- Run a call. -/
def Call.run (w : World) : Call → Except Fault (Int × World)
  | .dup fd => sysDup w fd
  | .dupfd fd start => sysFcntl w fd 0 start
  | .dup3 fd target flags => sysDup3 w fd target flags

/-- Why a call may fail. -/
inductive Refusable (w : World) : Call → Prop
  /-- The source is not open. -/
  | closed (call : Call) (closed : ¬∃ f, Open w call.source f) : Refusable w call
  /-- The first descriptor is out of range. -/
  | start (call : Call) (start : Int) (takes : call.start = some start)
      (outside : start < 0 ∨ nofile ≤ start) : Refusable w call
  /-- The table is full. -/
  | full (call : Call) (start : Int) (takes : call.start = some start)
      (full : ¬∃ slot, LeastFree w start slot) : Refusable w call
  /-- The target is out of range. -/
  | target (fd target : Int) (flags : UInt32) (outside : target < 0 ∨ nofile ≤ target) :
      Refusable w (.dup3 fd target flags)
  /-- The target is the source. -/
  | same (fd : Int) (flags : UInt32) : Refusable w (.dup3 fd fd flags)
  /-- There are other flags than `O_CLOEXEC`. -/
  | flags (fd target : Int) (flags : UInt32) (bad : flags &&& ~~~oCloexec ≠ 0) :
      Refusable w (.dup3 fd target flags)

/-- A call makes a copy, or fails and changes nothing. -/
inductive DupExact (w : World) : Call → Except Fault (Int × World) → Prop
  /-- The first free descriptor is the copy. -/
  | least (call : Call) (start : Int) (takes : call.start = some start) (nonneg : 0 ≤ start)
      (f : Fin nfile) (source : Open w call.source f) (slot : Fin nofile)
      (least : LeastFree w start slot) : DupExact w call (.ok (slot.val, w.refer slot f false))
  /-- The target is the copy, after what it held is closed. -/
  | target (fd : Int) (slot : Fin nofile) (flags : UInt32) (f : Fin nfile) (source : Open w fd f)
      (closed : World) (closes : vacate w slot = .ok closed) :
      DupExact w (.dup3 fd slot.val flags)
        (.ok (slot.val, closed.refer slot f (flags &&& oCloexec ≠ 0)))
  /-- The call fails. -/
  | refused (call : Call) (reason : Refusable w call) (code : Int) (negative : code < 0) :
      DupExact w call (.ok (code, w))

/-! ## Tables -/

variable {w w' : World} {f old : Fin nfile} {slot : Fin nofile}

/-- Each descriptor holds a reference, and files have inodes. -/
structure Counted (w : World) : Prop where
  /-- References. -/
  refs : ∀ f, ((Finset.univ.filter fun slot => w.ofile slot = some f).card : Int) ≤ (w.ftable f).ref
  /-- Inodes. -/
  inodes : ∀ f, (w.ftable f).type = .inode ∨ (w.ftable f).type = .device → (w.ftable f).ip ≠ none

theorem Counted.one_le (counted : Counted w) (held : w.ofile slot = some f) :
    1 ≤ (w.ftable f).ref := by
  have member : slot ∈ Finset.univ.filter fun slot => w.ofile slot = some f := by
    rw [Finset.mem_filter]
    exact ⟨Finset.mem_univ slot, held⟩
  have positive := Finset.card_pos.mpr ⟨slot, member⟩
  have refs := counted.refs f
  omega

theorem Counted.two_le (counted : Counted w) {other : Fin nofile} (differ : slot ≠ other)
    (held : w.ofile slot = some f) (other_held : w.ofile other = some f) :
    2 ≤ (w.ftable f).ref := by
  have members : {slot, other} ⊆ Finset.univ.filter fun slot => w.ofile slot = some f := by
    intro fd mem
    rw [Finset.mem_filter]
    rw [Finset.mem_insert, Finset.mem_singleton] at mem
    cases mem with
    | inl is_slot => exact ⟨Finset.mem_univ fd, is_slot ▸ held⟩
    | inr is_other => exact ⟨Finset.mem_univ fd, is_other ▸ other_held⟩
  have two := Finset.card_le_card members
  rw [Finset.card_pair differ] at two
  have refs := counted.refs f
  omega

theorem freeFd_eq_some {start : Int} : freeFd w start = some slot ↔ LeastFree w start slot := by
  rw [freeFd, List.find?_eq_some_iff_getElem]
  simp only [decide_eq_true_eq, Bool.not_eq_true', decide_eq_false_iff_not, List.getElem_finRange]
  constructor
  · rintro ⟨⟨above, free⟩, i, i_lt, rfl, least⟩
    refine ⟨above, free, fun other other_above other_free => ?_⟩
    refine Fin.not_lt.mp fun before => least other.val before ⟨other_above, other_free⟩
  · rintro ⟨above, free, least⟩
    refine ⟨⟨above, free⟩, slot.val, by simp, rfl, fun j before found => ?_⟩
    exact absurd (least _ found.1 found.2) (Fin.not_le.mpr before)

theorem freeFd_eq_none {start : Int} : freeFd w start = none ↔ ¬∃ slot, LeastFree w start slot := by
  rw [Option.eq_none_iff_forall_ne_some]
  constructor
  · rintro none_found ⟨slot, least⟩
    exact none_found slot (freeFd_eq_some.mpr least)
  · intro none_free slot found
    exact none_free ⟨slot, freeFd_eq_some.mp found⟩

/-- `fileclose` takes one reference away and leaves the descriptors alone. -/
theorem fileclose_spec (positive : 1 ≤ (w.ftable old).ref)
    (has_inode : (w.ftable old).type = .inode ∨ (w.ftable old).type = .device →
      (w.ftable old).ip ≠ none) :
    ∃ w', fileclose w old = .ok w' ∧ w'.ofile = w.ofile ∧ w'.fdflag = w.fdflag ∧
      (w'.ftable old).ref = (w.ftable old).ref - 1 ∧
      ∀ other, other ≠ old → w'.ftable other = w.ftable other := by
  have others (file : File) (other : Fin nfile) (differ : other ≠ old) :
      Function.update w.ftable old file other = w.ftable other :=
    Function.update_of_ne differ _ _
  unfold fileclose
  dsimp only
  rw [if_neg (by omega)]
  split
  · refine ⟨_, rfl, rfl, rfl, ?_, others _⟩
    exact congrArg File.ref (Function.update_self old _ w.ftable)
  · next last =>
      have zero (file : File) (no_ref : file.ref = 0) :
          (Function.update w.ftable old file old).ref = (w.ftable old).ref - 1 := by
        rw [Function.update_self, no_ref]
        omega
      split
      · exact ⟨_, rfl, rfl, rfl, zero _ rfl, others _⟩
      · exact ⟨_, rfl, rfl, rfl, zero _ rfl, others _⟩
      all_goals
        next type =>
          cases ip : (w.ftable old).ip with
          | none => exact absurd ip (has_inode (by simp [type]))
          | some ip => exact ⟨_, rfl, rfl, rfl, zero _ rfl, others _⟩

/-! ## The calls -/

/-- A number is an index of the table. -/
def InTable (fd : Int) : Prop := 0 ≤ fd ∧ fd.toNat < nofile

theorem open_iff {fd : Int} (inside : InTable fd) :
    Open w fd f ↔ w.ofile ⟨fd.toNat, inside.2⟩ = some f := by
  constructor
  · rintro ⟨slot, rfl, held⟩
    exact held
  · intro held
    exact ⟨⟨fd.toNat, inside.2⟩, Int.toNat_of_nonneg inside.1, held⟩

theorem Open.inTable {fd : Int} (is_open : Open w fd f) : InTable fd := by
  obtain ⟨slot, rfl, -⟩ := is_open
  exact ⟨Int.natCast_nonneg _, slot.isLt⟩

/-- Another reference to an open file. -/
def World.addRef (w : World) (f : Fin nfile) : World :=
  w.setFile f { w.ftable f with ref := (w.ftable f).ref + 1 }

theorem filedup_of_positive (positive : 1 ≤ (w.ftable f).ref) :
    filedup w (some f) = .ok (w.addRef f) := by
  rw [filedup, if_neg (by omega)]
  rfl

/-- What `dupfd` does. -/
inductive DupfdRun (w : World) (fd start : Int) : Except Fault (Int × World) → Prop
  /-- The table is read out of bounds. -/
  | outside (outside : ¬InTable fd) : DupfdRun w fd start (.error .badPointer)
  /-- The source is not open. -/
  | closed (inside : InTable fd) (closed : ¬∃ f, Open w fd f) :
      DupfdRun w fd start (.ok (-ebadf, w))
  /-- The search starts before the table. -/
  | below (f : Fin nfile) (source : Open w fd f) (negative : start < 0) :
      DupfdRun w fd start (.error .badPointer)
  /-- The table is full; the reference stays. -/
  | full (f : Fin nfile) (source : Open w fd f) (nonneg : 0 ≤ start)
      (full : ¬∃ slot, LeastFree w start slot) : DupfdRun w fd start (.ok (-ebadf, w.addRef f))
  /-- There is a copy. -/
  | copied (f : Fin nfile) (source : Open w fd f) (nonneg : 0 ≤ start) (slot : Fin nofile)
      (least : LeastFree w start slot) :
      DupfdRun w fd start (.ok (slot.val, (w.addRef f).setFd slot (some f)))

theorem dupfd_run (counted : Counted w) (fd start : Int) :
    DupfdRun w fd start (dupfd w fd start) := by
  unfold dupfd ofile
  split
  · next inside =>
      simp only [Except.ok_bind]
      split
      · next free =>
          refine DupfdRun.closed inside ?_
          rintro ⟨f, source⟩
          rw [open_iff inside, free] at source
          cases source
      · next f held =>
          have source : Open w fd f := (open_iff inside).mpr held
          simp only [filedup_of_positive (counted.one_le held), Except.ok_bind, fdalloc]
          split
          · next negative => exact DupfdRun.below f source negative
          · next not_negative =>
              have nonneg : 0 ≤ start := Int.not_lt.mp not_negative
              have same : freeFd (w.addRef f) start = freeFd w start := rfl
              rw [same]
              split
              · next slot found =>
                  exact DupfdRun.copied f source nonneg slot (freeFd_eq_some.mp found)
              · next none_found =>
                  exact DupfdRun.full f source nonneg (freeFd_eq_none.mp none_found)
  · next outside => exact DupfdRun.outside outside

/-- What `sys_dup3` does. -/
inductive Dup3Run (w : World) (fd target : Int) (flags : UInt32) :
    Except Fault (Int × World) → Prop
  /-- The arguments are refused. -/
  | refused (reason : Refusable w (.dup3 fd target flags)) (code : Int) (negative : code < 0)
      (early : flags &&& ~~~oCloexec ≠ 0 ∨ fd = target ∨ ¬InTable fd ∨ ¬InTable target) :
      Dup3Run w fd target flags (.ok (code, w))
  /-- The source is not open, and a null pointer is followed. -/
  | closed (closed : ¬∃ f, Open w fd f) (good : flags &&& ~~~oCloexec = 0) (differ : fd ≠ target)
      (inside : InTable fd) (target_inside : InTable target) :
      Dup3Run w fd target flags (.error .badPointer)
  /-- The target is a copy. -/
  | copied (slot : Fin nofile) (slot_eq : (slot.val : Int) = target) (f : Fin nfile)
      (source : Open w fd f) (good : flags &&& ~~~oCloexec = 0) (differ : fd ≠ target)
      (closed : World) (closes : vacate w slot = .ok closed) (same : closed.fdflag = w.fdflag)
      (after : World) (after_eq : after = { closed.addRef f with
        fdflag := if flags &&& oCloexec ≠ 0 then bitAdd closed.fdflag slot else closed.fdflag }) :
      Dup3Run w fd target flags (.ok (target, after.setFd slot (some f)))

theorem vacate_spec (counted : Counted w) (slot : Fin nofile) :
    ∃ closed, vacate w slot = .ok closed ∧ closed.fdflag = w.fdflag ∧
      ∀ f other, other ≠ slot → w.ofile other = some f → 1 ≤ (closed.ftable f).ref := by
  cases held : w.ofile slot with
  | none =>
      refine ⟨w, by rw [vacate, held], rfl, ?_⟩
      intro f other _ other_held
      exact counted.one_le other_held
  | some old =>
      obtain ⟨closed, run, -, same, less, frame⟩ :=
        fileclose_spec (counted.one_le held) (counted.inodes old)
      refine ⟨closed, by rw [vacate, held]; exact run, same, ?_⟩
      intro f other differ other_held
      rcases eq_or_ne f old with rfl | another
      · have two := counted.two_le differ other_held held
        omega
      · rw [frame f another]
        exact counted.one_le other_held

theorem not_inTable {fd : Int} (outside : ¬InTable fd) : fd < 0 ∨ nofile ≤ fd := by
  rw [InTable] at outside
  omega

theorem sysDup3_run (counted : Counted w) (fd target : Int) (flags : UInt32) :
    Dup3Run w fd target flags (sysDup3 w fd target flags) := by
  unfold sysDup3
  split
  · next bad =>
      exact Dup3Run.refused (Refusable.flags fd target flags bad) _ (by decide) (Or.inl bad)
  · next good =>
      rw [not_not] at good
      split
      · next same =>
          rw [same]
          refine Dup3Run.refused (Refusable.same target flags) _ (by decide) (Or.inr (Or.inl rfl))
      · next differ =>
          split
          · next in1 =>
              have inside : InTable fd := in1
              split
              · next in2 =>
                  have slot_eq : ((⟨target.toNat, in2.2⟩ : Fin nofile).val : Int) = target :=
                    Int.toNat_of_nonneg in2.1
                  generalize (⟨target.toNat, in2.2⟩ : Fin nofile) = slot at slot_eq ⊢
                  obtain ⟨closed, closes, same, positive⟩ := vacate_spec counted slot
                  simp only [closes, Except.ok_bind]
                  cases held : w.ofile ⟨fd.toNat, in1.2⟩ with
                  | none =>
                      refine Dup3Run.closed ?_ good differ inside in2
                      rintro ⟨f, source⟩
                      rw [open_iff inside, held] at source
                      cases source
                  | some f =>
                      have apart : (⟨fd.toNat, in1.2⟩ : Fin nofile) ≠ slot := by
                        intro same_slot
                        rw [← same_slot] at slot_eq
                        exact differ ((Int.toNat_of_nonneg in1.1).symm.trans slot_eq)
                      rw [filedup_of_positive (positive f _ apart held)]
                      refine Dup3Run.copied slot slot_eq f ((open_iff inside).mpr held) good differ
                        closed closes same _ ?_
                      split
                      · rfl
                      · rfl
              · next outside =>
                  refine Dup3Run.refused (Refusable.target fd target flags (not_inTable outside)) _
                    (by decide) (Or.inr (Or.inr (Or.inr outside)))
          · next outside =>
              refine Dup3Run.refused (Refusable.closed _ ?_) _ (by decide)
                (Or.inr (Or.inr (Or.inl outside)))
              rintro ⟨f, source⟩
              exact outside source.inTable

/-! ## When the calls are exact -/

/-- The first free descriptor has no close-on-exec bit left over. -/
def Clean (w : World) (start : Int) : Prop :=
  ∃ slot, LeastFree w start slot ∧ bitTest w.fdflag slot = false

/-- The source is compared with the table, there is a slot, and no bit is left over. -/
def Provided (w : World) : Call → Prop
  | .dup fd => InTable fd ∧ ∀ f, Open w fd f → Clean w 0
  | .dupfd fd start => ∀ f, Open w fd f → 0 ≤ start.toInt ∧ Clean w start.toInt
  | .dup3 fd target flags =>
      flags &&& ~~~oCloexec ≠ 0 ∨ fd = target ∨ ¬InTable fd ∨ ¬InTable target ∨
        ((∃ f, Open w fd f) ∧
          (flags &&& oCloexec ≠ 0 ∨
            ∀ slot : Fin nofile, (slot.val : Int) = target → bitTest w.fdflag slot = false))

theorem LeastFree.unique {start : Int} {other : Fin nofile} (least : LeastFree w start slot)
    (other_least : LeastFree w start other) : slot = other :=
  le_antisymm (least.least other other_least.above other_least.free)
    (other_least.least slot least.above least.free)

/-- A call that answers in this way is exact when it failed and changed nothing, or when it made
one of the two kinds of copies. -/
theorem DupExact.of_ok {call : Call} {code : Int} (exact : DupExact w call (.ok (code, w'))) :
    (code < 0 ∧ w' = w) ∨
      (∃ start f, call.start = some start ∧ ∃ slot, code = slot.val ∧ w' = w.refer slot f false) ∨
      ∃ fd flags f closed slot, call = .dup3 fd slot.val flags ∧ code = slot.val ∧
        vacate w slot = .ok closed ∧ w' = closed.refer slot f (flags &&& oCloexec ≠ 0) := by
  cases exact with
  | least call start takes nonneg f source slot least =>
      exact Or.inr (Or.inl ⟨start, f, takes, slot, rfl, rfl⟩)
  | target fd slot flags f source closed closes =>
      exact Or.inr (Or.inr ⟨fd, flags, f, closed, slot, rfl, rfl, closes, rfl⟩)
  | refused call reason code negative => exact Or.inl ⟨negative, rfl⟩

theorem refer_of_clean (clean : bitTest w.fdflag slot = false) :
    w.refer slot f false = (w.addRef f).setFd slot (some f) := by
  have same := (bitRemove_eq_iff w.fdflag slot).mpr clean
  rw [World.refer, if_neg Bool.false_ne_true, same]
  rfl

/-- `dup` and `fcntl` share this part. -/
theorem dupfd_exact_iff (call : Call) {fd start : Int} (source_eq : call.source = fd)
    (start_eq : call.start = some start) {result : Except Fault (Int × World)}
    (run : DupfdRun w fd start result) :
    DupExact w call result ↔ InTable fd ∧ ∀ f, Open w fd f → 0 ≤ start ∧ Clean w start := by
  cases run with
  | outside outside =>
      constructor
      · intro exact
        cases exact
      · intro provided
        exact absurd provided.1 outside
  | closed inside closed =>
      constructor
      · intro _
        exact ⟨inside, fun f source => absurd ⟨f, source⟩ closed⟩
      · intro _
        exact DupExact.refused call (Refusable.closed call (source_eq ▸ closed)) _ (by decide)
  | below f source negative =>
      constructor
      · intro exact
        cases exact
      · intro provided
        exact absurd (provided.2 f source).1 (Int.not_le.mpr negative)
  | full f source nonneg full =>
      constructor
      · intro exact
        rcases exact.of_ok with ⟨-, same⟩ | ⟨_, _, -, slot, code, -⟩ |
          ⟨_, _, _, _, slot, -, code, -⟩
        · have refs := congrArg (fun w : World => (w.ftable f).ref) same
          simp only [World.addRef, World.setFile, Function.update_self] at refs
          omega
        · rw [ebadf] at code
          omega
        · rw [ebadf] at code
          omega
      · intro provided
        obtain ⟨-, slot, least, -⟩ := provided.2 f source
        exact absurd ⟨slot, least⟩ full
  | copied f source nonneg slot least =>
      constructor
      · intro exact
        refine ⟨source.inTable, fun _ _ => ⟨nonneg, slot, least, ?_⟩⟩
        rcases exact.of_ok with ⟨negative, -⟩ | ⟨_, _, -, other, code, world⟩ |
          ⟨_, _, _, _, _, is_dup3, -⟩
        · omega
        · have other_eq : slot = other := Fin.ext (Int.ofNat_inj.mp code)
          rw [← bitRemove_eq_iff]
          rw [← other_eq] at world
          exact (congrArg World.fdflag world).symm
        · rw [is_dup3, Call.start] at start_eq
          cases start_eq
      · intro provided
        obtain ⟨-, other, other_least, clean⟩ := provided.2 f source
        rw [← least.unique other_least] at clean
        rw [← refer_of_clean clean]
        exact DupExact.least call start start_eq nonneg f (source_eq ▸ source) slot least

theorem dup3_exact_iff {fd target : Int} {flags : UInt32} {result : Except Fault (Int × World)}
    (run : Dup3Run w fd target flags result) :
    DupExact w (.dup3 fd target flags) result ↔ Provided w (.dup3 fd target flags) := by
  cases run with
  | refused reason code negative early =>
      constructor
      · intro _
        rcases early with bad | same | outside | outside
        · exact Or.inl bad
        · exact Or.inr (Or.inl same)
        · exact Or.inr (Or.inr (Or.inl outside))
        · exact Or.inr (Or.inr (Or.inr (Or.inl outside)))
      · intro _
        exact DupExact.refused _ reason code negative
  | closed closed good differ inside target_inside =>
      constructor
      · intro exact
        cases exact
      · rintro (bad | same | outside | outside | ⟨source, -⟩)
        · exact absurd good bad
        · exact absurd same differ
        · exact absurd inside outside
        · exact absurd target_inside outside
        · exact absurd source closed
  | copied slot slot_eq f source good differ closed closes same after after_eq =>
      subst slot_eq
      have fdflag : (after.setFd slot (some f)).fdflag =
          if flags &&& oCloexec ≠ 0 then bitAdd w.fdflag slot else w.fdflag := by
        rw [after_eq, ← same]
        rfl
      constructor
      · intro exact
        refine Or.inr (Or.inr (Or.inr (Or.inr ⟨⟨f, source⟩, ?_⟩)))
        rcases eq_or_ne (flags &&& oCloexec) 0 with plain | cloexec
        swap
        · exact Or.inl cloexec
        refine Or.inr fun other other_eq => ?_
        rw [Fin.ext (Int.ofNat_inj.mp other_eq)]
        rcases exact.of_ok with ⟨negative, -⟩ | ⟨_, _, takes, -⟩ |
          ⟨_, _, _, closed', slot', is_call, -, closes', world⟩
        · omega
        · cases takes
        · obtain ⟨-, slot_eq, flags_eq⟩ := Call.dup3.inj is_call
          rw [← Fin.ext (Int.ofNat_inj.mp slot_eq)] at world closes'
          rw [closes] at closes'
          have bits := congrArg World.fdflag world
          rw [fdflag, if_neg (not_not.mpr plain), ← flags_eq, World.refer, plain,
            ← Except.ok.inj closes', same] at bits
          exact (bitRemove_eq_iff _ _).mp bits.symm
      · intro provided
        have world : after.setFd slot (some f) = closed.refer slot f (flags &&& oCloexec ≠ 0) := by
          rcases eq_or_ne (flags &&& oCloexec) 0 with plain | cloexec
          · have clean : bitTest closed.fdflag slot = false := by
              rw [same]
              rcases provided with bad | is_source | outside | outside | ⟨-, cloexec | clean⟩
              · exact absurd good bad
              · exact absurd is_source differ
              · exact absurd source.inTable outside
              · exact absurd ⟨Int.natCast_nonneg _, slot.isLt⟩ outside
              · exact absurd plain cloexec
              · exact clean slot rfl
            rw [after_eq, plain]
            exact (refer_of_clean clean).symm
          · rw [after_eq, if_pos cloexec, World.refer, decide_eq_true cloexec]
            rfl
        rw [world]
        exact DupExact.target fd slot flags f source closed closes

theorem argfd_cases (w : World) (fd : Int) :
    ((¬∃ f, Open w fd f) ∧ argfd w fd = none) ∨
      ∃ f slot, Open w fd f ∧ argfd w fd = some (slot, f) := by
  rw [argfd]
  split
  · next inside =>
      have is_open : ∀ f, Open w fd f ↔ w.ofile ⟨fd.toNat, inside.2⟩ = some f :=
        fun _ => open_iff inside
      cases held : w.ofile ⟨fd.toNat, inside.2⟩ with
      | none =>
          refine Or.inl ⟨?_, rfl⟩
          rintro ⟨f, source⟩
          rw [is_open, held] at source
          cases source
      | some f => exact Or.inr ⟨f, _, (is_open f).mpr held, rfl⟩
  · next outside =>
      refine Or.inl ⟨?_, rfl⟩
      rintro ⟨f, source⟩
      exact outside source.inTable

/-- A call is exact when its number is in the table or compared with it, a slot is free behind a
reference that is taken, and the slot has no bit left over. -/
theorem dup_exact_iff (counted : Counted w) (call : Call) :
    DupExact w call (call.run w) ↔ Provided w call := by
  cases call with
  | dup fd =>
      have shared := dupfd_exact_iff (.dup fd) rfl rfl (dupfd_run counted fd 0)
      simp only [le_refl, true_and] at shared
      exact shared
  | dupfd fd start =>
      rcases argfd_cases w fd with ⟨closed, found⟩ | ⟨f, slot, source, found⟩
      · rw [Call.run, sysFcntl, found]
        constructor
        · intro _ f source
          exact absurd ⟨f, source⟩ closed
        · intro _
          exact DupExact.refused _ (Refusable.closed _ closed) _ (by decide)
      · have run : Call.run w (.dupfd fd start) = dupfd w fd start.toInt := by
          rw [Call.run, sysFcntl, found]
          rfl
        rw [run, dupfd_exact_iff (.dupfd fd start) rfl rfl
          (dupfd_run counted fd start.toInt)]
        exact and_iff_right source.inTable
  | dup3 fd target flags => exact dup3_exact_iff (sysDup3_run counted fd target flags)

/-- One open file, the console, at some descriptors. -/
def console (ofile : Fin nofile → Bool) (ref : Int) : World where
  ofile fd := if ofile fd then some ⟨0, Vfs.nfile_pos⟩ else none
  fdflag := 0
  ftable f :=
    if f.val = 0 then ⟨.device, ref, 0, some ⟨0, Vfs.ninode_pos⟩, 0, 2, true, true⟩
    else ⟨.none, 0, 0, none, 0, 0, false, false⟩
  pipes _ := ⟨fun _ => 0, 0, 0, false, false⟩
  pages := []
  user := ⟨fun _ => none, fun _ => 0⟩
  puts := []

/-- `dup` with all descriptors in use fails and keeps the reference that it took. -/
theorem dup_leaks : Counted (console (fun _ => true) 16) ∧
    (Call.dup 0).run (console (fun _ => true) 16) =
      .ok (-ebadf, (console (fun _ => true) 16).addRef ⟨0, by decide⟩) ∧
    ¬DupExact (console (fun _ => true) 16) (.dup 0)
      ((Call.dup 0).run (console (fun _ => true) 16)) := by
  have counted : Counted (console (fun _ => true) 16) := ⟨by decide +kernel, by decide +kernel⟩
  refine ⟨counted, rfl, ?_⟩
  intro exact
  have provided := (dupfd_exact_iff (.dup 0) rfl rfl (dupfd_run counted 0 0)).mp exact
  obtain ⟨-, slot, least, -⟩ := provided.2 ⟨0, by decide⟩ ⟨⟨0, by decide⟩, rfl, rfl⟩
  cases least.free

/-- `dup` of the first descriptor gives the second. -/
theorem dup_second : DupExact (console (fun fd => fd.val = 0) 1) (.dup 0)
    ((Call.dup 0).run (console (fun fd => fd.val = 0) 1)) := by
  have counted : Counted (console (fun fd => fd.val = 0) 1) :=
    ⟨by decide +kernel, by decide +kernel⟩
  refine (dup_exact_iff counted (.dup 0)).mpr ⟨⟨le_rfl, by decide⟩, fun f source => ?_⟩
  exact ⟨⟨1, by decide⟩, ⟨by decide, rfl, by decide +kernel⟩, by decide⟩

end Descriptor
end Xv6Duo
