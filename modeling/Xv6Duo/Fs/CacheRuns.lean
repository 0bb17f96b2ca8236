import Xv6Duo.Fs.Coherence
import Xv6Duo.Fs.FileArray

/-!
# Runs of file system operations

The operations of `kernel/fs.c` on any inodes, in any order, from any card and with any memory. As
long as no source of `writei` ends inside a block and no truncated inode has blocks below an
indirect block, the cache is nothing but a copy of the card.
-/

namespace Xv6Duo
namespace Fs
namespace Volume

open ByteBlock Except

variable (sb : Superblock)

/-- An operation of `kernel/fs.c` on a locked inode. -/
inductive Operation
  /-- `readi`. -/
  | readi (i : UInt32) (userDst : Bool) (mem : Memory) (dst : Nat) (off n : UInt32)
  /-- `writei`. -/
  | writei (i : UInt32) (userSrc : Bool) (mem : Memory) (src : Nat) (off n : UInt32)
  /-- `bmap`. -/
  | bmap (i : UInt32) (bn : Nat)
  /-- `balloc`. -/
  | balloc
  /-- `bfree`. -/
  | bfree (b : UInt32)
  /-- `itrunc`. -/
  | itrunc (i : UInt32)
  /-- `ialloc`. -/
  | ialloc (type : UInt16)
  /-- `iupdate` after a change of the fields of an inode. -/
  | iupdate (i : UInt32) (ip : Inode)
  /-- The part of `ilock` that reads the inode from the card. -/
  | ilock (i : UInt32)
  /-- `dirlookup`. -/
  | dirlookup (i : UInt32) (name : Bytes)
  /-- `dirlink`. -/
  | dirlink (i : UInt32) (name : Bytes) (inum : UInt32) (type : UInt16)
  /-- `unlink`. -/
  | unlink (i : UInt32) (off : UInt32)

/-- Store the state and one inode. -/
def store (v : Volume) (i : UInt32) (ip : Inode) (s : State) : Volume :=
  ⟨s, Function.update v.inodes i ip⟩

/-- One operation on the in-memory inode. -/
def perform (v : Volume) : Operation → Except Fault Volume
  | .readi i userDst mem dst off n => do
      let (_, _, ip, s) ← Fs.readi sb v.state (v.inodes i) userDst mem dst off n
      return v.store i ip s
  | .writei i userSrc mem src off n => do
      let (_, ip, s) ← Fs.writei sb v.state (v.inodes i) userSrc mem src off n
      return v.store i ip s
  | .bmap i bn => do
      let (_, ip, s) ← Fs.bmap sb v.state (v.inodes i) bn
      return v.store i ip s
  | .balloc => do
      let (_, s) ← Fs.balloc sb v.state
      return { v with state := s }
  | .bfree b => do
      let s ← Fs.bfree sb v.state b
      return { v with state := s }
  | .itrunc i => do
      let (s, ip) ← Fs.itrunc sb v.state (v.inodes i)
      return v.store i ip s
  | .ialloc type => do
      let (_, s) ← Fs.ialloc sb v.state type
      return { v with state := s }
  | .iupdate i ip => do
      let s ← Fs.iupdate sb v.state ip
      return v.store i ip s
  | .ilock i => do
      let (ip, s) ← readInode sb v.state i
      return v.store i ip s
  | .dirlookup i name => do
      let (_, ip, s) ← Fs.dirlookup sb v.state (v.inodes i) name
      return v.store i ip s
  | .dirlink i name inum type => do
      let (_, ip, s) ← Fs.dirlink sb v.state (v.inodes i) name inum type
      return v.store i ip s
  | .unlink i off => do
      let (_, ip, s) ← Fs.unlink sb v.state (v.inodes i) off
      return v.store i ip s

/-- The operation is no `writei` whose user source ends inside a block of the file, and no `itrunc`
of an inode with a block below an indirect block. -/
def WritesThrough (v : Volume) : Operation → Prop
  | .writei i userSrc mem src off n =>
      userSrc = true → off.toNat ≤ (v.inodes i).size.toNat → off.toNat + n.toNat < 2 ^ 32 →
        ¬Midway mem src off.toNat n.toNat
  | .itrunc i => DirectOnly sb v.state (v.inodes i)
  | _ => True

variable {sb} {v : Volume}

/-- An operation that writes through keeps the cache a copy of the card. -/
theorem perform_coherent (coherent : Coherent v.state) {operation : Operation}
    (through : v.WritesThrough sb operation) :
    (v.perform sb operation).Ensures fun w => Coherent w.state := by
  cases operation with
  | readi i userDst mem dst off n =>
      apply (coherent.readi_ensures ..).bind
      rintro ⟨r, mem, ip, s⟩ coherent_s
      exact ensures_ok coherent_s
  | writei i userSrc mem src off n =>
      apply (coherent.writei_ensures (v.inodes i) through).bind
      rintro ⟨r, ip, s⟩ coherent_s
      exact ensures_ok coherent_s
  | bmap i bn =>
      apply (coherent.bmap_ensures ..).bind
      rintro ⟨addr, ip, s⟩ coherent_s
      exact ensures_ok coherent_s
  | balloc =>
      apply coherent.balloc_ensures.bind
      rintro ⟨addr, s⟩ coherent_s
      exact ensures_ok coherent_s
  | bfree b =>
      apply (coherent.bfree_ensures b).bind
      rintro s ⟨coherent_s, -⟩
      exact ensures_ok coherent_s
  | itrunc i =>
      apply (coherent.itrunc_ensures through).bind
      rintro ⟨s, ip⟩ coherent_s
      exact ensures_ok coherent_s
  | ialloc type =>
      apply (coherent.iallocLoop_ensures ..).bind
      rintro ⟨inum, s⟩ coherent_s
      exact ensures_ok coherent_s
  | iupdate i ip =>
      apply (coherent.iupdate_ensures ip).bind
      intro s coherent_s
      exact ensures_ok coherent_s
  | ilock i =>
      apply (coherent.readInode_ensures i).bind
      rintro ⟨ip, s⟩ coherent_s
      exact ensures_ok coherent_s
  | dirlookup i name =>
      apply (coherent.dirlookup_ensures ..).bind
      rintro ⟨found, ip, s⟩ coherent_s
      exact ensures_ok coherent_s
  | dirlink i name inum type =>
      apply (coherent.dirlink_ensures ..).bind
      rintro ⟨r, ip, s⟩ coherent_s
      exact ensures_ok coherent_s
  | unlink i off =>
      apply (coherent.unlink_ensures ..).bind
      rintro ⟨r, ip, s⟩ coherent_s
      exact ensures_ok coherent_s

theorem reaches_coherent {disk : UInt32 → Bytes} {inodes : UInt32 → Inode}
    (reached : GuardedRun.Reaches (WritesThrough sb) (perform sb) ⟨binit disk, inodes⟩ v) :
    Coherent v.state := by
  refine reached.invariant (fun w => Coherent w.state) (coherent_binit disk) ?_
  intro w next operation coherent through succeeds
  exact (perform_coherent coherent through).of_ok succeeds

/-- Along every run of operations that write through, each buffer that nobody holds has the bytes
of its block, and reading any block gives the bytes of the card. -/
theorem cache_copies_card {disk : UInt32 → Bytes} {inodes : UInt32 → Inode}
    (reached : GuardedRun.Reaches (WritesThrough sb) (perform sb) ⟨binit disk, inodes⟩ v) :
    (∀ b, (v.state.bufs b).busy = false → (v.state.bufs b).valid = true →
      (v.state.bufs b).data = v.state.disk (v.state.bufs b).blockno) ∧
    ∀ bno b t, bread sb v.state bno = .ok (b, t) →
      (t.bufs b).data = v.state.disk (sb.sector bno) := by
  have coherent := reaches_coherent reached
  constructor
  · exact coherent.data
  · intro bno b t run
    exact ((coherent.bread_ensures bno).of_ok run).data

/-- A file whose first block below the indirect block is missing. -/
def elevenBlocks : Inode :=
  { emptyFile with
    size := 11 * 4096
    addrs := fun a => if a.val < 12 then UInt32.ofNat (42 + a.val) else 0 }

/-- A user memory with one page. -/
def onePage : Memory := ⟨fun a => UInt8.ofNat (a + 1), fun page => page == 0, fun _ => false⟩

/-- The write of one byte that allocates the twelfth block of the file. -/
def writeByte : Operation := .writei 2 true onePage 0 45056 1

theorem writeByte_through (v : Volume) : v.WritesThrough sb writeByte := by
  intro _ _ _ midway
  obtain ⟨c, c_lt, -, -, positive, -⟩ := midway
  rw [show (1 : UInt32).toNat = 1 from rfl] at c_lt
  omega

/-- One write that writes through. -/
theorem elevenBlocks_copies_card : ∃ v,
    (ofFile elevenBlocks 54).perform mkfsSuper writeByte = .ok v ∧
      ∀ b, (v.state.bufs b).busy = false → (v.state.bufs b).valid = true →
        (v.state.bufs b).data = v.state.disk (v.state.bufs b).blockno := by
  have succeeds : ((ofFile elevenBlocks 54).perform mkfsSuper writeByte).toOption.any
      (fun _ => true) = true := by decide +kernel
  obtain ⟨v, run, -⟩ := exists_of_any succeeds
  exact ⟨v, run, (cache_copies_card (.tail .refl (writeByte_through _) run)).1⟩

/-- No buffer is busy, and one that is valid differs from its block. -/
def Stale (v : Volume) : Prop :=
  (∀ b, (v.state.bufs b).busy = false) ∧
    ∃ b, (v.state.bufs b).valid = true ∧
      (v.state.bufs b).data ≠ v.state.disk (v.state.bufs b).blockno

/-- No buffer is busy, and one that is valid differs from its block in the first byte. -/
def staleByte (v : Volume) : Bool :=
  ((List.finRange nbuf).all fun b => !(v.state.bufs b).busy) &&
    (List.finRange nbuf).any fun b =>
      (v.state.bufs b).valid && (v.state.bufs b).data 0 != v.state.disk (v.state.bufs b).blockno 0

theorem stale_of_staleByte (stale : v.staleByte = true) : v.Stale := by
  rw [staleByte, Bool.and_eq_true, List.all_eq_true, List.any_eq_true] at stale
  obtain ⟨idle, b, -, differs⟩ := stale
  rw [Bool.and_eq_true, bne_iff_ne] at differs
  refine ⟨fun a => by simpa using idle a (List.mem_finRange a), b, differs.1, ?_⟩
  exact fun same => differs.2 (congrFun same 0)

/-- A second write whose source ends after two of its three bytes, and a truncation, leave a buffer
that differs from its block. -/
theorem faulting_write_stale :
    (∃ v w, (ofFile elevenBlocks 54).perform mkfsSuper writeByte = .ok v ∧
      v.perform mkfsSuper (.writei 2 true onePage 4094 45056 3) = .ok w ∧ w.Stale) ∧
    ∃ v w, (ofFile elevenBlocks 54).perform mkfsSuper writeByte = .ok v ∧
      v.perform mkfsSuper (.itrunc 2) = .ok w ∧ w.Stale := by
  have stays : ∀ {operation : Operation},
      ((ofFile elevenBlocks 54).perform mkfsSuper writeByte >>= fun v =>
        v.perform mkfsSuper operation).toOption.any staleByte = true →
      ∃ v w, (ofFile elevenBlocks 54).perform mkfsSuper writeByte = .ok v ∧
        v.perform mkfsSuper operation = .ok w ∧ w.Stale := by
    intro operation passes
    obtain ⟨w, run, stale⟩ := exists_of_any passes
    obtain ⟨v, first, second⟩ := bind_eq_ok.mp run
    exact ⟨v, w, first, second, stale_of_staleByte stale⟩
  constructor
  · apply stays
    decide +kernel
  · apply stays
    decide +kernel

end Volume
end Fs
end Xv6Duo
