import Xv6Duo.Descriptor.Duplicate

/-!
# Descriptors for a pipe

`pipe2` takes two open files, a page, two descriptors and two words of user memory, and gives back
what it has when one of them is missing. It looks at the flags after `pipealloc`, and gives back
close-on-exec bits that it has not set.
-/

namespace Xv6Duo
namespace Descriptor

open Vfs (FdType nfile nofile ninode)

variable {w w' : World} {f rf wf : Fin nfile} {pi : Nat} {flags : UInt32}

/-! ## What `pipe2` is for -/

/-- The descriptors, the references and the free pages are as before. -/
structure Unchanged (w w' : World) : Prop where
  /-- Descriptors. -/
  ofile : w'.ofile = w.ofile
  /-- Close-on-exec bits. -/
  fdflag : w'.fdflag = w.fdflag
  /-- References. -/
  refs : ∀ f, (w'.ftable f).ref = (w.ftable f).ref
  /-- Free pages. -/
  pages : ∀ page, page ∈ w'.pages ↔ page ∈ w.pages

/-- Two open files are the ends of a pipe. -/
structure Ends (w : World) (rf wf : Fin nfile) (pi : Nat) : Prop where
  /-- They are two. -/
  differ : rf ≠ wf
  /-- The read end. -/
  reader : (w.ftable rf).type = .pipe ∧ (w.ftable rf).ref = 1 ∧ (w.ftable rf).pipe = pi ∧
    (w.ftable rf).readable = true ∧ (w.ftable rf).writable = false
  /-- The write end. -/
  writer : (w.ftable wf).type = .pipe ∧ (w.ftable wf).ref = 1 ∧ (w.ftable wf).pipe = pi ∧
    (w.ftable wf).readable = false ∧ (w.ftable wf).writable = true
  /-- Both are open. -/
  ends_open : (w.pipes pi).readopen = true ∧ (w.pipes pi).writeopen = true

/-- Two new descriptors share a pipe. -/
structure Paired (w w' : World) (flags : UInt32) (fd0 fd1 : Fin nofile) (rf wf : Fin nfile)
    (pi : Nat) : Prop where
  /-- The descriptors were free. -/
  fresh : fd0 ≠ fd1 ∧ w.ofile fd0 = none ∧ w.ofile fd1 = none
  /-- They are the only new ones. -/
  ofile : w'.ofile = Function.update (Function.update w.ofile fd0 (some rf)) fd1 (some wf)
  /-- The open files were free, and the page was. -/
  taken : (w.ftable rf).ref = 0 ∧ (w.ftable wf).ref = 0 ∧ pi ∈ w.pages
  /-- They are the ends of the pipe. -/
  ends : Ends w' rf wf pi
  /-- The close-on-exec bits are the ones asked for. -/
  bits : bitTest w'.fdflag fd0 = decide (flags &&& oCloexec ≠ 0) ∧
    bitTest w'.fdflag fd1 = decide (flags &&& oCloexec ≠ 0)

/-- `pipe2` makes a pipe, or fails and changes nothing. -/
inductive Pipe2Exact (w : World) (flags : UInt32) : Except Fault (Int × World) → Prop
  /-- There is a pipe. -/
  | paired (w' : World) (fd0 fd1 : Fin nofile) (rf wf : Fin nfile) (pi : Nat)
      (paired : Paired w w' flags fd0 fd1 rf wf pi) : Pipe2Exact w flags (.ok (0, w'))
  /-- The call fails. -/
  | failed (code : Int) (negative : code < 0) (w' : World) (unchanged : Unchanged w w') :
      Pipe2Exact w flags (.ok (code, w'))

/-! ## Files -/

/-- A free entry has no type, and no page is free twice. -/
structure Tidy (w : World) : Prop where
  /-- Free entries. -/
  closed : ∀ f, (w.ftable f).ref = 0 → (w.ftable f).type = .none
  /-- Free pages. -/
  distinct : w.pages.Nodup

/-- `filealloc` takes a free entry. -/
theorem filealloc_cases (w : World) :
    ((∀ f, (w.ftable f).ref ≠ 0) ∧ filealloc w = none) ∨
      ∃ f, (w.ftable f).ref = 0 ∧
        filealloc w = some (f, w.setFile f { w.ftable f with ref := 1 }) := by
  rw [filealloc]
  cases found : (List.finRange nfile).find? fun f => (w.ftable f).ref = 0 with
  | none =>
      rw [List.find?_eq_none] at found
      refine Or.inl ⟨fun f free => ?_, rfl⟩
      exact found f (List.mem_finRange f) (decide_eq_true free)
  | some f =>
      have free := List.find?_some found
      exact Or.inr ⟨f, of_decide_eq_true free, rfl⟩

/-- `fileclose` of a file that `filealloc` has just given. -/
theorem fileclose_fresh {v : World} (free : (w.ftable f).ref = 0)
    (no_type : (w.ftable f).type = .none) (rest : v.setFile f (w.ftable f) = w)
    (fresh : v.ftable f = { w.ftable f with ref := 1 }) : fileclose v f = .ok w := by
  have same : ({ w.ftable f with ref := 0, type := .none } : File) = w.ftable f := by
    rw [← free, ← no_type]
  rw [fileclose, fresh]
  simp only [no_type]
  rw [if_neg (by decide), if_neg (by decide), same, rest]

theorem setFile_setFile (w : World) (f : Fin nfile) (file : File) :
    (w.setFile f file).setFile f (w.ftable f) = w := by
  simp only [World.setFile, Function.update_idem, Function.update_eq_self]

theorem openPipe_ends (differ : rf ≠ wf) (rf_ref : (w.ftable rf).ref = 1)
    (wf_ref : (w.ftable wf).ref = 1) (flags : UInt32) :
    Ends (openPipe w rf wf pi flags) rf wf pi := by
  have reader : (openPipe w rf wf pi flags).ftable rf = { w.ftable rf with
      type := .pipe, readable := true, writable := false, pipe := pi
      flags := flags &&& pipe2Flags, off := 0 } := by
    refine (Function.update_of_ne differ _ _).trans ?_
    exact Function.update_self _ _ _
  have writer : (openPipe w rf wf pi flags).ftable wf = { w.ftable wf with
      type := .pipe, readable := false, writable := true, pipe := pi
      flags := oWronly ||| oAppend ||| flags &&& pipe2Flags, off := 0 } := by
    have inner (file : File) : Function.update w.ftable rf file wf = w.ftable wf :=
      Function.update_of_ne differ.symm _ _
    refine (Function.update_self _ _ _).trans ?_
    simp only [World.setFile, inner]
  have pipe : (openPipe w rf wf pi flags).pipes pi =
      { w.pipes pi with nread := 0, nwrite := 0, readopen := true, writeopen := true } :=
    Function.update_self _ _ _
  refine ⟨differ, ?_, ?_, ?_⟩
  · rw [reader]
    exact ⟨rfl, rf_ref, rfl, rfl, rfl⟩
  · rw [writer]
    exact ⟨rfl, wf_ref, rfl, rfl, rfl⟩
  · rw [pipe]
    exact ⟨rfl, rfl⟩

theorem openPipe_others (not_rf : f ≠ rf) (not_wf : f ≠ wf) :
    (openPipe w rf wf pi flags).ftable f = w.ftable f :=
  (Function.update_of_ne not_wf _ _).trans (Function.update_of_ne not_rf _ _)

/-- What `pipealloc` needs. -/
def Supplies (w : World) : Prop :=
  (∃ rf wf, rf ≠ wf ∧ (w.ftable rf).ref = 0 ∧ (w.ftable wf).ref = 0) ∧ w.pages ≠ []

/-- What `pipealloc` does. -/
inductive PipeallocRun (w : World) (flags : UInt32) :
    Except Fault (Option (Fin nfile × Fin nfile) × World) → Prop
  /-- Something is missing. -/
  | none (short : ¬Supplies w) : PipeallocRun w flags (.ok (none, w))
  /-- There is a pipe. -/
  | some (rf wf : Fin nfile) (pi : Nat) (rest : List Nat) (differ : rf ≠ wf)
      (rf_free : (w.ftable rf).ref = 0) (wf_free : (w.ftable wf).ref = 0)
      (pages : w.pages = pi :: rest) (after : World)
      (ends : Ends after rf wf pi) (ofile : after.ofile = w.ofile)
      (fdflag : after.fdflag = w.fdflag)
      (others : ∀ f, f ≠ rf → f ≠ wf → after.ftable f = w.ftable f) (left : after.pages = rest)
      (user : after.user = w.user) : PipeallocRun w flags (.ok (some (rf, wf), after))

theorem pipealloc_run (tidy : Tidy w) (flags : UInt32) :
    PipeallocRun w flags (pipealloc w flags) := by
  unfold pipealloc
  rcases filealloc_cases w with ⟨none_free, run⟩ | ⟨rf, rf_free, run⟩
  · rw [run]
    refine PipeallocRun.none ?_
    rintro ⟨⟨rf, -, -, free, -⟩, -⟩
    exact none_free rf free
  rw [run]
  set v := w.setFile rf { w.ftable rf with ref := 1 } with v_eq
  have v_rf : v.ftable rf = { w.ftable rf with ref := 1 } := Function.update_self _ _ _
  have v_others (f : Fin nfile) (other : f ≠ rf) : v.ftable f = w.ftable f :=
    Function.update_of_ne other _ _
  have close_rf : fileclose v rf = .ok w :=
    fileclose_fresh rf_free (tidy.closed rf rf_free) (setFile_setFile w rf _) v_rf
  dsimp only
  rcases filealloc_cases v with ⟨none_free, run'⟩ | ⟨wf, wf_free, run'⟩
  · rw [run']
    simp only [close_rf, Except.ok_bind]
    refine PipeallocRun.none ?_
    rintro ⟨⟨f, g, differ, f_free, g_free⟩, -⟩
    rcases eq_or_ne f rf with rfl | other
    · exact none_free g (by rw [v_others g differ.symm, g_free])
    · exact none_free f (by rw [v_others f other, f_free])
  rw [run']
  have differ : rf ≠ wf := by
    rintro rfl
    rw [v_rf] at wf_free
    exact absurd wf_free one_ne_zero
  rw [v_others wf differ.symm] at wf_free
  set u := v.setFile wf { v.ftable wf with ref := 1 } with u_eq
  dsimp only
  cases pages : w.pages with
  | nil =>
      have empty : kalloc u = none := by
        rw [kalloc, show u.pages = w.pages from rfl, pages]
      set x := w.setFile wf { w.ftable wf with ref := 1 } with x_eq
      have x_wf : x.ftable wf = { w.ftable wf with ref := 1 } := Function.update_self _ _ _
      have x_rf : x.ftable rf = w.ftable rf := Function.update_of_ne differ _ _
      have close_both : fileclose u rf = .ok x := by
        refine fileclose_fresh (by rw [x_rf, rf_free]) (by rw [x_rf, tidy.closed rf rf_free]) ?_ ?_
        · rw [x_rf, x_eq, u_eq, v_others wf differ.symm, v_eq]
          simp only [World.setFile, Function.update_comm differ, Function.update_idem]
          rw [Function.update_comm differ.symm, Function.update_eq_self]
        · rw [x_rf, u_eq, ← v_rf]
          exact Function.update_of_ne differ _ _
      have close_wf : fileclose x wf = .ok w :=
        fileclose_fresh wf_free (tidy.closed wf wf_free) (setFile_setFile w wf _) x_wf
      rw [empty]
      simp only [close_both, close_wf, Except.ok_bind]
      exact PipeallocRun.none fun supplies => supplies.2 pages
  | cons pi rest =>
      have page : kalloc u = some (pi, { u with pages := rest }) := by
        rw [kalloc, show u.pages = w.pages from rfl, pages]
      rw [page]
      refine PipeallocRun.some rf wf pi rest differ rf_free wf_free pages _ ?_ rfl rfl ?_ rfl rfl
      · refine openPipe_ends differ ?_ ?_ flags
        · rw [← show (v.ftable rf).ref = 1 by rw [v_rf]]
          exact congrArg File.ref (Function.update_of_ne differ _ _)
        · have u_wf : u.ftable wf = { v.ftable wf with ref := 1 } := Function.update_self _ _ _
          exact congrArg File.ref u_wf
      · intro f not_rf not_wf
        rw [openPipe_others not_rf not_wf, ← v_others f not_rf]
        exact Function.update_of_ne not_wf _ _

theorem fileclose_pipe {writable : Bool} (is_pipe : (w.ftable f).type = .pipe)
    (last : (w.ftable f).ref = 1) (pipe : (w.ftable f).pipe = pi)
    (end_eq : (w.ftable f).writable = writable) :
    fileclose w f =
      .ok (pipeclose (w.setFile f { w.ftable f with ref := 0, type := .none }) pi writable) := by
  subst pipe end_eq
  unfold fileclose
  dsimp only
  rw [if_neg (by omega), if_neg (by omega), is_pipe]

/-- `fileclose` of both ends frees the page. -/
theorem Ends.close (ends : Ends w rf wf pi) :
    ∃ w₁ w₂, fileclose w rf = .ok w₁ ∧ fileclose w₁ wf = .ok w₂ ∧ w₂.ofile = w.ofile ∧
      w₂.fdflag = w.fdflag ∧ w₂.pages = pi :: w.pages ∧ (w₂.ftable rf).ref = 0 ∧
      (w₂.ftable wf).ref = 0 ∧ ∀ f, f ≠ rf → f ≠ wf → w₂.ftable f = w.ftable f := by
  obtain ⟨differ, ⟨rf_type, rf_ref, rf_pipe, -, rf_writable⟩, ⟨wf_type, wf_ref, wf_pipe, -,
    wf_writable⟩, readopen, writeopen⟩ := ends
  set w₁ := pipeclose (w.setFile rf { w.ftable rf with ref := 0, type := .none }) pi false
    with w₁_eq
  have run₁ : fileclose w rf = .ok w₁ := fileclose_pipe rf_type rf_ref rf_pipe rf_writable
  have w₁_wf : w₁.ftable wf = w.ftable wf := Function.update_of_ne differ.symm _ _
  have w₁_pipe : w₁.pipes pi = { w.pipes pi with readopen := false } := Function.update_self _ _ _
  have w₁_pages : w₁.pages = w.pages := by
    have still : ¬({ w.pipes pi with readopen := false } : Stream.Pipe).writeopen = false := by
      simp only [writeopen, Bool.true_eq_false, not_false_eq_true]
    exact if_neg fun both => still both.2
  set w₂ := pipeclose (w₁.setFile wf { w.ftable wf with ref := 0, type := .none }) pi true
    with w₂_eq
  have run₂ : fileclose w₁ wf = .ok w₂ := by
    rw [w₂_eq, ← w₁_wf]
    rw [← w₁_wf] at wf_type wf_ref wf_pipe wf_writable
    exact fileclose_pipe wf_type wf_ref wf_pipe wf_writable
  have w₂_pages : w₂.pages = pi :: w.pages := by
    rw [← w₁_pages]
    have readable : (w₁.pipes pi).readopen = false := by rw [w₁_pipe]
    exact if_pos ⟨readable, rfl⟩
  refine ⟨w₁, w₂, run₁, run₂, rfl, rfl, w₂_pages, ?_, ?_, ?_⟩
  · have w₂_rf : w₂.ftable rf = w₁.ftable rf := Function.update_of_ne differ _ _
    have w₁_rf : w₁.ftable rf = { w.ftable rf with ref := 0, type := .none } :=
      Function.update_self _ _ _
    rw [w₂_rf, w₁_rf]
  · have w₂_wf : w₂.ftable wf = { w.ftable wf with ref := 0, type := .none } :=
      Function.update_self _ _ _
    rw [w₂_wf]
  · intro f not_rf not_wf
    exact (Function.update_of_ne not_wf _ _).trans (Function.update_of_ne not_rf _ _)

/-! ## User memory -/

theorem allocCowPage_suffix (user : UserMemory) (pages : List Nat) (va : Nat) :
    (allocCowPage user pages va).2.2 <:+ pages := by
  unfold allocCowPage
  split_ifs
  · exact List.suffix_refl pages
  split
  · exact List.suffix_refl pages
  split_ifs
  · exact List.suffix_refl pages
  · exact List.suffix_refl pages
  · split
    · exact List.suffix_refl _
    · exact List.suffix_cons _ _
  · exact List.suffix_refl pages
  · exact List.suffix_refl pages

theorem copyoutLoop_suffix (data : Nat → UInt8) (fuel : Nat) (user : UserMemory) (pages : List Nat)
    (dst src len : Nat) : (copyoutLoop data fuel user pages dst src len).2.2 <:+ pages := by
  induction fuel generalizing user pages dst src len with
  | zero => exact List.suffix_refl pages
  | succ fuel ih =>
      rw [copyoutLoop]
      dsimp only
      have taken := allocCowPage_suffix user pages (dst / Vm.pgsize * Vm.pgsize)
      split_ifs
      · exact taken
      · exact taken
      · exact (ih ..).trans taken
      · exact List.suffix_refl pages

/-- `copyout` takes pages and gives none back. -/
theorem copyoutPair_suffix (user : UserMemory) (pages : List Nat) (fdarray : UInt64)
    (fd0 fd1 : Fin nofile) : (copyoutPair user pages fdarray fd0 fd1).2.2 <:+ pages := by
  rw [copyoutPair]
  dsimp only
  split_ifs
  · exact copyoutLoop_suffix ..
  · exact (copyoutLoop_suffix ..).trans (copyoutLoop_suffix ..)

/-! ## One call -/

/-- The first two free descriptors. -/
structure FirstTwo (w : World) (fd0 fd1 : Fin nofile) : Prop where
  /-- The first one. -/
  first : LeastFree w 0 fd0
  /-- The other one is free. -/
  other : fd1 ≠ fd0 ∧ w.ofile fd1 = none
  /-- There is none between. -/
  next : ∀ fd, fd ≠ fd0 → w.ofile fd = none → fd1 ≤ fd

theorem leastFree_setFd {fd0 fd1 : Fin nofile} :
    LeastFree (w.setFd fd0 (some f)) 0 fd1 ↔
      (fd1 ≠ fd0 ∧ w.ofile fd1 = none) ∧ ∀ fd, fd ≠ fd0 → w.ofile fd = none → fd1 ≤ fd := by
  have free_iff (fd : Fin nofile) :
      (w.setFd fd0 (some f)).ofile fd = none ↔ fd ≠ fd0 ∧ w.ofile fd = none := by
    rw [World.setFd]
    rcases eq_or_ne fd fd0 with rfl | other
    · simp only [Function.update_self, ne_eq, not_true, false_and, reduceCtorEq]
    · simp only [Function.update_of_ne other, other, ne_eq, not_false_eq_true, true_and]
  constructor
  · rintro ⟨-, free, least⟩
    refine ⟨(free_iff fd1).mp free, fun fd other fd_free => ?_⟩
    exact least fd (Int.natCast_nonneg _) ((free_iff fd).mpr ⟨other, fd_free⟩)
  · rintro ⟨free, least⟩
    refine ⟨Int.natCast_nonneg _, (free_iff fd1).mpr free, fun fd _ fd_free => ?_⟩
    exact least fd ((free_iff fd).mp fd_free).1 ((free_iff fd).mp fd_free).2

/-- What the stores into the array answer. -/
def stored (w : World) (fdarray : UInt64) (fd0 fd1 : Fin nofile) : Int × UserMemory × List Nat :=
  copyoutPair w.user w.pages.tail fdarray fd0 fd1

/-- What `sys_pipe2` does. -/
inductive Pipe2Run (w : World) (fdarray : UInt64) (flags : UInt32) :
    Except Fault (Int × World) → Prop
  /-- There is no pipe. -/
  | short (short : ¬Supplies w) : Pipe2Run w fdarray flags (.ok (-enfile, w))
  /-- The flags are refused; the pipe stays. -/
  | flags (supplies : Supplies w) (bad : flags &&& ~~~pipe2Flags ≠ 0) (rf : Fin nfile)
      (free : (w.ftable rf).ref = 0) (w' : World) (left : (w'.ftable rf).ref = 1) :
      Pipe2Run w fdarray flags (.ok (-einval, w'))
  /-- There are not two descriptors. -/
  | full (good : flags &&& ~~~pipe2Flags = 0) (full : ¬∃ fd0 fd1, FirstTwo w fd0 fd1) (w' : World)
      (unchanged : Unchanged w w') : Pipe2Run w fdarray flags (.ok (-emfile, w'))
  /-- The array cannot be written. -/
  | fault (supplies : Supplies w) (good : flags &&& ~~~pipe2Flags = 0) (fd0 fd1 : Fin nofile)
      (two : FirstTwo w fd0 fd1) (fails : (stored w fdarray fd0 fd1).1 < 0) (w' : World)
      (ofile : w'.ofile = w.ofile) (fdflag : w'.fdflag = bitRemove (bitRemove w.fdflag fd0) fd1)
      (refs : ∀ f, (w'.ftable f).ref = (w.ftable f).ref)
      (pages : ∃ pi, w.pages = pi :: w.pages.tail ∧
        w'.pages = pi :: (stored w fdarray fd0 fd1).2.2) :
      Pipe2Run w fdarray flags (.ok (-efault, w'))
  /-- There is a pipe. -/
  | paired (supplies : Supplies w) (good : flags &&& ~~~pipe2Flags = 0) (fd0 fd1 : Fin nofile)
      (two : FirstTwo w fd0 fd1) (stores : 0 ≤ (stored w fdarray fd0 fd1).1) (w' : World)
      (rf wf : Fin nfile) (pi : Nat) (ends : Ends w' rf wf pi)
      (taken : (w.ftable rf).ref = 0 ∧ (w.ftable wf).ref = 0 ∧ pi ∈ w.pages)
      (ofile : w'.ofile = Function.update (Function.update w.ofile fd0 (some rf)) fd1 (some wf))
      (fdflag : w'.fdflag =
        if flags &&& oCloexec ≠ 0 then bitAdd (bitAdd w.fdflag fd0) fd1 else w.fdflag) :
      Pipe2Run w fdarray flags (.ok (0, w'))

theorem fdalloc_zero (w : World) (f : Fin nfile) :
    (¬(∃ fd, LeastFree w 0 fd) ∧ fdalloc w f 0 = .ok (none, w)) ∨
      ∃ fd, LeastFree w 0 fd ∧ fdalloc w f 0 = .ok (some fd, w.setFd fd (some f)) := by
  rw [fdalloc, if_neg (lt_irrefl 0)]
  cases found : freeFd w 0 with
  | none => exact Or.inl ⟨freeFd_eq_none.mp found, rfl⟩
  | some fd => exact Or.inr ⟨fd, freeFd_eq_some.mp found, rfl⟩

theorem Ends.congr (ends : Ends w rf wf pi) (ftable : w'.ftable = w.ftable)
    (pipes : w'.pipes = w.pipes) : Ends w' rf wf pi := by
  obtain ⟨differ, reader, writer, ends_open⟩ := ends
  rw [← ftable] at reader writer
  rw [← pipes] at ends_open
  exact ⟨differ, reader, writer, ends_open⟩

theorem LeastFree.congr {start : Int} {fd : Fin nofile} (least : LeastFree w start fd)
    (same : w'.ofile = w.ofile) : LeastFree w' start fd := by
  obtain ⟨above, free, least⟩ := least
  rw [← same] at free least
  exact ⟨above, free, least⟩

theorem setFd_setFd {fd : Fin nofile} (free : w.ofile fd = none) :
    ((w.setFd fd (some f)).setFd fd none).ofile = w.ofile := by
  simp only [World.setFd, Function.update_idem]
  rw [← free, Function.update_eq_self]

theorem setFd_undone {fd0 fd1 : Fin nofile} (differ : fd1 ≠ fd0) (free0 : w.ofile fd0 = none)
    (free1 : w.ofile fd1 = none) :
    Function.update (Function.update ((w.setFd fd0 (some rf)).setFd fd1 (some wf)).ofile fd0 none)
      fd1 none = w.ofile := by
  simp only [World.setFd]
  rw [Function.update_comm differ, Function.update_idem, Function.update_idem, ← free0,
    Function.update_eq_self, free0, ← free1, Function.update_eq_self]

/-- Closing both ends gives back the references and the page. -/
theorem Ends.undo {x : World} (ends : Ends x rf wf pi) (rf_free : (w.ftable rf).ref = 0)
    (wf_free : (w.ftable wf).ref = 0)
    (others : ∀ f, f ≠ rf → f ≠ wf → x.ftable f = w.ftable f) :
    ∃ x₁ x₂, fileclose x rf = .ok x₁ ∧ fileclose x₁ wf = .ok x₂ ∧ x₂.ofile = x.ofile ∧
      x₂.fdflag = x.fdflag ∧ x₂.pages = pi :: x.pages ∧
      ∀ f, (x₂.ftable f).ref = (w.ftable f).ref := by
  obtain ⟨x₁, x₂, run₁, run₂, ofile, fdflag, pages, rf_ref, wf_ref, rest⟩ := ends.close
  refine ⟨x₁, x₂, run₁, run₂, ofile, fdflag, pages, fun f => ?_⟩
  rcases eq_or_ne f rf with rfl | not_rf
  · rw [rf_ref, rf_free]
  rcases eq_or_ne f wf with rfl | not_wf
  · rw [wf_ref, wf_free]
  rw [rest f not_rf not_wf, others f not_rf not_wf]

theorem sysPipe2_run (tidy : Tidy w) (fdarray : UInt64) (flags : UInt32) :
    Pipe2Run w fdarray flags (sysPipe2 w fdarray flags) := by
  unfold sysPipe2
  have alloc := pipealloc_run tidy flags
  generalize pipealloc w flags = outcome at alloc
  cases alloc with
  | none short => exact Pipe2Run.short short
  | some rf wf pi rest differ rf_free wf_free pages after ends ofile fdflag others left user =>
      have supplies : Supplies w := by
        refine ⟨⟨rf, wf, differ, rf_free, wf_free⟩, ?_⟩
        rw [pages]
        exact List.cons_ne_nil pi rest
      simp only [Except.ok_bind]
      split
      · next bad => exact Pipe2Run.flags supplies bad rf rf_free after ends.reader.2.1
      next good =>
      rw [not_not] at good
      rcases fdalloc_zero after rf with ⟨no_fd, run⟩ | ⟨fd0, first, run⟩
      · obtain ⟨x₁, x₂, run₁, run₂, x_ofile, x_fdflag, x_pages, refs⟩ :=
          ends.undo rf_free wf_free others
        simp only [run, run₁, run₂, Except.ok_bind]
        refine Pipe2Run.full good ?_ x₂ ⟨?_, ?_, refs, fun page => ?_⟩
        · rintro ⟨fd0, fd1, two⟩
          exact no_fd ⟨fd0, two.first.congr ofile⟩
        · rw [x_ofile, ofile]
        · rw [x_fdflag, fdflag]
        · rw [x_pages, left, pages]
      have w_first : LeastFree w 0 fd0 := first.congr ofile.symm
      set v := after.setFd fd0 (some rf) with v_eq
      rcases fdalloc_zero v wf with ⟨no_fd, run'⟩ | ⟨fd1, next, run'⟩
      · have undone : Ends (v.setFd fd0 none) rf wf pi := ends.congr rfl rfl
        obtain ⟨x₁, x₂, run₁, run₂, x_ofile, x_fdflag, x_pages, refs⟩ :=
          undone.undo rf_free wf_free others
        simp only [run, run', run₁, run₂, Except.ok_bind]
        refine Pipe2Run.full good ?_ x₂ ⟨?_, ?_, refs, fun page => ?_⟩
        · rintro ⟨fd, fd1, two⟩
          rw [two.first.unique w_first] at two
          refine no_fd ⟨fd1, leastFree_setFd.mpr ?_⟩
          rw [ofile]
          exact ⟨two.other, two.next⟩
        · rw [x_ofile, ← ofile]
          exact setFd_setFd first.free
        · rw [x_fdflag]
          exact fdflag
        · rw [x_pages, pages, ← left]
          rfl
      · have two : FirstTwo w fd0 fd1 := by
          obtain ⟨other, least⟩ := leastFree_setFd.mp next
          rw [ofile] at other least
          exact ⟨w_first, other, least⟩
        set u := v.setFd fd1 (some wf) with u_eq
        have stored_eq : copyoutPair u.user u.pages fdarray fd0 fd1 = stored w fdarray fd0 fd1 := by
          rw [stored, ← user, pages, List.tail_cons, ← left]
          rfl
        simp only [run, run', Except.ok_bind, stored_eq]
        split
        · next fails =>
            set y : World := { (({ u with
              user := (stored w fdarray fd0 fd1).2.1
              pages := (stored w fdarray fd0 fd1).2.2 } : World).setFd fd0 none).setFd fd1 none with
              fdflag := bitRemove (bitRemove after.fdflag fd0) fd1 } with y_eq
            have undone : Ends y rf wf pi := ends.congr rfl rfl
            have y_ofile : y.ofile = w.ofile := by
              have cleared : Function.update (Function.update u.ofile fd0 none) fd1 none =
                  after.ofile := setFd_undone two.other.1 first.free (by rw [ofile, two.other.2])
              rw [← ofile]
              exact cleared
            obtain ⟨x₁, x₂, run₁, run₂, x_ofile, x_fdflag, x_pages, refs⟩ :=
              undone.undo rf_free wf_free others
            have closes : (fileclose y rf >>= fun x => fileclose x wf >>= fun x =>
                (Except.ok (-efault, x) : Except Fault (Int × World))) = .ok (-efault, x₂) := by
              rw [run₁, Except.ok_bind, run₂, Except.ok_bind]
            have answer : Pipe2Run w fdarray flags (.ok (-efault, x₂)) := by
              refine Pipe2Run.fault supplies good fd0 fd1 two fails x₂ (x_ofile.trans y_ofile) ?_
                refs ⟨pi, ?_, x_pages⟩
              · rw [x_fdflag, y_eq, fdflag]
              · rw [pages, List.tail_cons]
            rw [← closes] at answer
            exact answer
        · next stores =>
            have taken : (w.ftable rf).ref = 0 ∧ (w.ftable wf).ref = 0 ∧ pi ∈ w.pages := by
              refine ⟨rf_free, wf_free, ?_⟩
              rw [pages]
              exact List.mem_cons_self
            have u_ofile : u.ofile =
                Function.update (Function.update w.ofile fd0 (some rf)) fd1 (some wf) := by
              rw [← ofile]
              rfl
            split
            · next cloexec =>
                refine Pipe2Run.paired supplies good fd0 fd1 two (Int.not_lt.mp stores) _ rf wf pi
                  (ends.congr rfl rfl) taken u_ofile ?_
                rw [if_pos cloexec, ← fdflag]
                rfl
            · next plain =>
                refine Pipe2Run.paired supplies good fd0 fd1 two (Int.not_lt.mp stores) _ rf wf pi
                  (ends.congr rfl rfl) taken u_ofile ?_
                rw [if_neg plain, ← fdflag]
                rfl

/-! ## Bits -/

theorem or_absorbs (p bit : UInt32) : (p ||| bit) &&& bit = bit := by
  apply UInt32.toBitVec_inj.mp
  ext i i_lt
  rw [UInt32.toBitVec_and, UInt32.toBitVec_or, BitVec.getElem_and, BitVec.getElem_or]
  cases p.toBitVec[i] <;> cases bit.toBitVec[i] <;> rfl

theorem bitTest_bitAdd (p : UInt32) (n : Fin nofile) : bitTest (bitAdd p n) n = true := by
  have some_bit : ∀ n : Fin nofile, (1 : UInt32) <<< UInt32.ofNat n.val ≠ 0 := by decide
  rw [bitTest, bitAdd, or_absorbs, decide_eq_true_eq]
  exact some_bit n

theorem bitTest_bitAdd_of_set {p : UInt32} {m n : Fin nofile} (set : bitTest p n = true) :
    bitTest (bitAdd p m) n = true := by
  rw [bitTest, decide_eq_true_eq] at set ⊢
  rw [bitAdd]
  generalize (1 : UInt32) <<< UInt32.ofNat m.val = other
  generalize (1 : UInt32) <<< UInt32.ofNat n.val = bit at set ⊢
  intro clear
  apply set
  rw [← or_absorbs other p, UInt32.or_comm other p, UInt32.and_comm _ p, UInt32.and_assoc, clear,
    UInt32.and_zero]

/-- `bit_remove` of two bits changes nothing when both are clear, and only then. -/
theorem bitRemove_two_iff (p : UInt32) (m n : Fin nofile) :
    bitRemove (bitRemove p m) n = p ↔ bitTest p m = false ∧ bitTest p n = false := by
  constructor
  · intro same
    rw [bitRemove, bitRemove] at same
    simp only [bitTest, decide_eq_false_iff_not, not_not]
    generalize (1 : UInt32) <<< UInt32.ofNat m.val = a at same ⊢
    generalize (1 : UInt32) <<< UInt32.ofNat n.val = b at same ⊢
    constructor
    · rw [← same, UInt32.and_assoc, UInt32.and_comm (~~~b) a, ← UInt32.and_assoc,
        UInt32.and_assoc p, UInt32.not_and_self, UInt32.and_zero, UInt32.zero_and]
    · rw [← same, UInt32.and_assoc, UInt32.not_and_self, UInt32.and_zero]
  · rintro ⟨m_clear, n_clear⟩
    rw [(bitRemove_eq_iff p m).mpr m_clear, (bitRemove_eq_iff p n).mpr n_clear]

/-! ## When `pipe2` is exact -/

/-- The descriptors have no close-on-exec bit left over. -/
def BothClear (w : World) (fd0 fd1 : Fin nofile) : Prop :=
  bitTest w.fdflag fd0 = false ∧ bitTest w.fdflag fd1 = false

/-- When there is a pipe to take, the flags are good. When there are two descriptors as well, they
have no bits left over, unless the call sets them, and a store that fails has not taken a page. -/
def Keeps (w : World) (fdarray : UInt64) (flags : UInt32) : Prop :=
  Supplies w → flags &&& ~~~pipe2Flags = 0 ∧ ∀ fd0 fd1, FirstTwo w fd0 fd1 →
    ((stored w fdarray fd0 fd1).1 < 0 →
      BothClear w fd0 fd1 ∧ (stored w fdarray fd0 fd1).2.2 = w.pages.tail) ∧
    (0 ≤ (stored w fdarray fd0 fd1).1 → flags &&& oCloexec ≠ 0 ∨ BothClear w fd0 fd1)

theorem FirstTwo.unique {fd0 fd1 fd2 fd3 : Fin nofile} (two : FirstTwo w fd0 fd1)
    (other : FirstTwo w fd2 fd3) : fd2 = fd0 ∧ fd3 = fd1 := by
  have first := other.first.unique two.first
  subst first
  refine ⟨rfl, le_antisymm ?_ ?_⟩
  · exact other.next fd1 two.other.1 two.other.2
  · exact two.next fd3 other.other.1 other.other.2

/-- Fewer pages are other pages. -/
theorem suffix_eq_of_mem {α : Type} {left right : List α} {a : α} (suffix : left <:+ right)
    (distinct : (a :: right).Nodup) (same : ∀ x, x ∈ a :: left ↔ x ∈ a :: right) :
    left = right := by
  obtain ⟨taken, rfl⟩ := suffix
  cases taken with
  | nil => rfl
  | cons x taken =>
      rw [List.cons_append, List.nodup_cons, List.nodup_cons] at distinct
      obtain ⟨a_new, x_new, -⟩ := distinct
      have there := (same x).mpr (List.mem_cons_of_mem a List.mem_cons_self)
      cases List.mem_cons.mp there with
      | inl is_a => exact absurd (is_a ▸ List.mem_cons_self) a_new
      | inr kept => exact absurd (List.mem_append_right taken kept) x_new

theorem Pipe2Exact.of_negative {code : Int} (negative : code < 0)
    (exact : Pipe2Exact w flags (.ok (code, w'))) : Unchanged w w' := by
  cases exact with
  | paired fd0 fd1 rf wf pi paired => exact absurd negative (lt_irrefl 0)
  | failed code negative w' unchanged => exact unchanged

/-- The bit of a new descriptor. -/
theorem Pipe2Exact.bits {fd : Fin nofile} (exact : Pipe2Exact w flags (.ok (0, w')))
    (free : w.ofile fd = none) (held : w'.ofile fd ≠ none) :
    bitTest w'.fdflag fd = decide (flags &&& oCloexec ≠ 0) := by
  cases exact with
  | paired w' fd0 fd1 rf wf pi paired =>
      rcases eq_or_ne fd fd0 with rfl | not_fd0
      · exact paired.bits.1
      rcases eq_or_ne fd fd1 with rfl | not_fd1
      · exact paired.bits.2
      rw [paired.ofile, Function.update_of_ne not_fd1, Function.update_of_ne not_fd0] at held
      exact absurd free held
  | failed code negative w' unchanged => exact absurd negative (lt_irrefl 0)

/-- `pipe2` changes nothing when it fails, and makes a pipe otherwise, exactly under `Keeps`. -/
theorem pipe2_exact_iff (tidy : Tidy w) (fdarray : UInt64) (flags : UInt32) :
    Pipe2Exact w flags (sysPipe2 w fdarray flags) ↔ Keeps w fdarray flags := by
  have run := sysPipe2_run tidy fdarray flags
  generalize sysPipe2 w fdarray flags = outcome at run
  cases run with
  | short short =>
      constructor
      · intro _ supplies
        exact absurd supplies short
      · intro _
        exact Pipe2Exact.failed _ (by decide) w ⟨rfl, rfl, fun _ => rfl, fun _ => Iff.rfl⟩
  | flags supplies bad rf free w' left =>
      constructor
      · intro exact
        have refs := (exact.of_negative (by decide)).refs rf
        omega
      · intro keeps
        exact absurd (keeps supplies).1 bad
  | full good full w' unchanged =>
      constructor
      · intro _ _
        exact ⟨good, fun fd0 fd1 two => absurd ⟨fd0, fd1, two⟩ full⟩
      · intro _
        exact Pipe2Exact.failed _ (by decide) w' unchanged
  | fault supplies good fd0 fd1 two fails w' ofile fdflag refs pages =>
      obtain ⟨pi, before, after⟩ := pages
      constructor
      · intro exact
        have unchanged := exact.of_negative (by decide)
        refine fun _ => ⟨good, fun fd2 fd3 other => ?_⟩
        obtain ⟨rfl, rfl⟩ := two.unique other
        refine ⟨fun _ => ⟨?_, ?_⟩, fun stores => absurd fails (Int.not_lt.mpr stores)⟩
        · exact (bitRemove_two_iff _ _ _).mp (fdflag.symm.trans unchanged.fdflag)
        · have distinct := tidy.distinct
          rw [before] at distinct
          refine suffix_eq_of_mem (copyoutPair_suffix ..) distinct fun page => ?_
          rw [← before, ← unchanged.pages page, after]
      · intro keeps
        obtain ⟨clear, same⟩ := ((keeps supplies).2 fd0 fd1 two).1 fails
        refine Pipe2Exact.failed _ (by decide) w' ⟨ofile, ?_, refs, fun page => ?_⟩
        · rw [fdflag]
          exact (bitRemove_two_iff _ _ _).mpr clear
        · rw [after, same, ← before]
  | paired supplies good fd0 fd1 two stores w' rf wf pi ends taken ofile fdflag =>
      constructor
      · intro exact
        refine fun _ => ⟨good, fun fd2 fd3 other => ?_⟩
        obtain ⟨rfl, rfl⟩ := two.unique other
        refine ⟨fun fails => absurd fails (Int.not_lt.mpr stores), fun _ => ?_⟩
        rcases eq_or_ne (flags &&& oCloexec) 0 with plain | cloexec
        swap
        · exact Or.inl cloexec
        rw [if_neg (not_not.mpr plain)] at fdflag
        have clear (fd : Fin nofile) (free : w.ofile fd = none) (held : w'.ofile fd ≠ none) :
            bitTest w.fdflag fd = false := by
          rw [← fdflag, exact.bits free held, plain]
          rfl
        refine Or.inr ⟨clear fd2 two.first.free ?_, clear fd3 two.other.2 ?_⟩
        · rw [ofile, Function.update_of_ne two.other.1.symm, Function.update_self]
          exact Option.some_ne_none rf
        · rw [ofile, Function.update_self]
          exact Option.some_ne_none wf
      · intro keeps
        have clear := ((keeps supplies).2 fd0 fd1 two).2 stores
        refine Pipe2Exact.paired w' fd0 fd1 rf wf pi
          ⟨⟨two.other.1.symm, two.first.free, two.other.2⟩, ofile, taken, ends, ?_⟩
        rw [fdflag]
        rcases eq_or_ne (flags &&& oCloexec) 0 with plain | cloexec
        · rw [if_neg (not_not.mpr plain), plain]
          cases clear with
          | inl cloexec => exact absurd plain cloexec
          | inr clear => exact clear
        · rw [if_pos cloexec, decide_eq_true cloexec]
          exact ⟨bitTest_bitAdd_of_set (bitTest_bitAdd _ _), bitTest_bitAdd _ _⟩

/-- No descriptors, one free page, and one page of user memory. -/
def onePage : World :=
  { console (fun _ => false) 1 with
    pages := [0x80001000]
    user := ⟨fun page => if page = 1 then some ⟨true, false, 1⟩ else none, fun _ => 0⟩ }

theorem onePage_tidy : Tidy onePage := ⟨by decide +kernel, by decide⟩

/-- With a flag that it does not know `pipe2` fails, and keeps two open files and the page. -/
theorem pipe2_leaks : Tidy onePage ∧
    (∃ w', sysPipe2 onePage 0x1000 1 = .ok (-einval, w') ∧
      (w'.ftable ⟨1, by decide⟩).ref = 1 ∧ w'.pages = []) ∧
    ¬Pipe2Exact onePage 1 (sysPipe2 onePage 0x1000 1) := by
  have run : ∃ w', sysPipe2 onePage 0x1000 1 = .ok (-einval, w') ∧
      (w'.ftable ⟨1, by decide⟩).ref = 1 ∧ w'.pages = [] := ⟨_, rfl, rfl, rfl⟩
  refine ⟨onePage_tidy, run, ?_⟩
  obtain ⟨w', run, ref, -⟩ := run
  rw [run]
  intro exact
  have refs := (exact.of_negative (by decide)).refs ⟨1, by decide⟩
  rw [ref] at refs
  exact absurd refs (by decide)

/-- With `O_CLOEXEC` it makes a pipe there. -/
theorem pipe2_cloexec : Pipe2Exact onePage oCloexec (sysPipe2 onePage 0x1000 oCloexec) := by
  refine (pipe2_exact_iff onePage_tidy 0x1000 oCloexec).mpr fun _ =>
    ⟨by decide, fun fd0 fd1 _ => ?_⟩
  have stores : (stored onePage 0x1000 fd0 fd1).1 = 0 := rfl
  rw [stores]
  exact ⟨fun fails => absurd fails (lt_irrefl 0), fun _ => Or.inl (by decide)⟩

end Descriptor
end Xv6Duo
