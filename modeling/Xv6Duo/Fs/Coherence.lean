import Xv6Duo.Fs.Dirent
import Xv6Duo.Fs.Content
import Xv6Duo.Fs.Truncate
import Xv6Duo.Library.Ensures

/-!
# Write-through coherence

What the card and the cache have in common while calls run: a buffer that nobody holds has the
bytes of its block. No call needs a well-formed volume to keep it so, and every call but two keeps
it: `itrunc` clears the pointers of an indirect block in the cache alone, and `writei` drops the
bytes it has copied when the source faults in the middle of a block.
-/

namespace Xv6Duo
namespace Fs

open ByteBlock Except

/-! ## Buffers -/

/-- A buffer that nobody holds has the bytes of its block. -/
structure Coherent (s : State) : Prop where
  /-- The list has every buffer. -/
  complete : ∀ b, b ∈ s.clink
  /-- A block has at most one buffer. -/
  unique : ∀ a b, (s.bufs a).dev = rootDev → (s.bufs b).dev = rootDev →
    (s.bufs a).blockno = (s.bufs b).blockno → a = b
  /-- A buffer in use belongs to the root device. -/
  rooted : ∀ b, (s.bufs b).busy = true ∨ (s.bufs b).valid = true → (s.bufs b).dev = rootDev
  /-- Writes do not wait. -/
  clean : ∀ b, (s.bufs b).dirty = false
  /-- The bytes of a free buffer are those on the card. -/
  data : ∀ b, (s.bufs b).busy = false → (s.bufs b).valid = true →
    (s.bufs b).data = s.disk (s.bufs b).blockno

/-- The buffer has the bytes of its block. -/
def Matches (s : State) (b : Fin nbuf) : Prop := (s.bufs b).data = s.disk (s.bufs b).blockno

/-- The outcome of `bread`. -/
structure Read (sb : Superblock) (s t : State) (bno : UInt32) (b : Fin nbuf) : Prop where
  /-- The cache stays coherent. -/
  coherent : Coherent t
  /-- The buffer caches the block. -/
  blockno : (t.bufs b).blockno = sb.sector bno
  /-- The buffer has the bytes of the card. -/
  data : (t.bufs b).data = s.disk (sb.sector bno)
  /-- The card is untouched. -/
  disk : t.disk = s.disk

theorem Read.matches {sb : Superblock} {s t : State} {bno : UInt32} {b : Fin nbuf}
    (read : Read sb s t bno b) : Matches t b := by
  rw [Matches, read.data, read.disk, read.blockno]

theorem coherent_binit (disk : UInt32 → Bytes) : Coherent (binit disk) where
  complete b := List.mem_finRange b
  unique _ _ root := absurd root (show (0 : UInt32) ≠ 1 by decide)
  rooted b used := by simp [binit] at used
  clean _ := rfl
  data b _ valid := by simp [binit] at valid

namespace Coherent

variable {sb : Superblock} {s : State}

/-- A buffer that caches the block on its own becomes busy with the bytes of the card. -/
theorem acquire (coherent : Coherent s) {b : Fin nbuf} {bno : UInt32}
    (alone : ∀ c, c ≠ b → (s.bufs c).dev = rootDev → (s.bufs c).blockno ≠ sb.sector bno) :
    Read sb s (s.setBuf b ⟨true, true, false, rootDev, sb.sector bno, s.disk (sb.sector bno)⟩)
      bno b where
  coherent :=
    { complete := coherent.complete
      unique := by
        intro a c root_a root_c same
        simp only [State.setBuf_bufs] at root_a root_c same
        by_cases eq_a : a = b
        · by_cases eq_c : c = b
          · rw [eq_a, eq_c]
          · simp only [eq_a, Function.update_self, Function.update_of_ne eq_c] at root_c same
            exact absurd same.symm (alone c eq_c root_c)
        · by_cases eq_c : c = b
          · simp only [eq_c, Function.update_self, Function.update_of_ne eq_a] at root_a same
            exact absurd same (alone a eq_a root_a)
          · simp only [Function.update_of_ne eq_a, Function.update_of_ne eq_c] at root_a root_c same
            exact coherent.unique a c root_a root_c same
      rooted := by
        intro a used
        by_cases eq : a = b
        · simp [eq]
        · simp only [State.setBuf_bufs, Function.update_of_ne eq] at used ⊢
          exact coherent.rooted a used
      clean := by
        intro a
        by_cases eq : a = b
        · simp [eq]
        · simpa [Function.update_of_ne eq] using coherent.clean a
      data := by
        intro a free valid
        by_cases eq : a = b
        · simp [eq] at free
        · simp only [State.setBuf_bufs, Function.update_of_ne eq, State.setBuf_disk] at *
          exact coherent.data a free valid }
  blockno := by simp
  data := by simp
  disk := rfl

/-- `bread` gives the bytes of the card. -/
theorem bread_ensures (coherent : Coherent s) (bno : UInt32) :
    (bread sb s bno).Ensures fun r => Read sb s r.2 bno r.1 := by
  cases found : s.clink.find? fun b =>
      (s.bufs b).dev == rootDev && (s.bufs b).blockno == sb.sector bno with
  | some b =>
      have chosen := List.find?_some found
      simp only [Bool.and_eq_true, beq_iff_eq] at chosen
      have alone : ∀ c, c ≠ b → (s.bufs c).dev = rootDev → (s.bufs c).blockno ≠ sb.sector bno :=
        fun c differ root key =>
          differ (coherent.unique c b root chosen.1 (key.trans chosen.2.symm))
      have acquired := coherent.acquire alone
      have not_dirty := coherent.clean b
      cases busy : (s.bufs b).busy with
      | true => simp [bread, bget, found, busy, ensures_error]
      | false =>
          cases valid : (s.bufs b).valid with
          | true =>
              have same := coherent.data b busy valid
              have target : { s.bufs b with busy := true } =
                  (⟨true, true, false, rootDev, sb.sector bno, s.disk (sb.sector bno)⟩ : Buf) := by
                ext1 <;> simp [chosen, not_dirty, valid, same]
              simp only [bread, bget, found, busy, Bool.false_eq_true, if_false, ok_bind, target,
                State.setBuf_bufs, Function.update_self, if_true, pure_eq_ok]
              exact ensures_ok acquired
          | false =>
              have run : bread sb s bno = .ok (b, s.setBuf b
                  ⟨true, true, false, rootDev, sb.sector bno, s.disk (sb.sector bno)⟩) := by
                simp [bread, bget, found, busy, valid, sdRw, not_dirty, chosen, State.setBuf]
              rw [run]
              exact ensures_ok acquired
  | none =>
      have alone : ∀ c, (s.bufs c).dev = rootDev → (s.bufs c).blockno ≠ sb.sector bno := by
        intro c root key
        have missing := List.find?_eq_none.mp found c (coherent.complete c)
        simp [root, key] at missing
      cases free : s.clink.reverse.find? fun b => !(s.bufs b).busy && !(s.bufs b).dirty with
      | none => simp [bread, bget, found, free, ensures_error]
      | some b =>
          rw [bread_of_uncached alone free]
          exact ensures_ok (coherent.acquire fun c _ root => alone c root)

/-- `bwrite` after a change of the bytes puts them on the card. -/
theorem store_ensures (coherent : Coherent s) (b : Fin nbuf) (data : Bytes) :
    (bwrite (s.setData b data) b).Ensures fun t =>
      Coherent t ∧ Matches t b ∧ t.disk = Function.update s.disk (s.bufs b).blockno data := by
  cases busy : (s.bufs b).busy with
  | false => simp [bwrite, busy, ensures_error]
  | true =>
      have run : bwrite (s.setData b data) b =
          .ok { s.setBuf b ⟨true, true, false, (s.bufs b).dev, (s.bufs b).blockno, data⟩ with
            disk := Function.update s.disk (s.bufs b).blockno data } := by
        simp [bwrite, sdRw, busy, State.setBuf]
      have root := coherent.rooted b (Or.inl busy)
      rw [run]
      apply ensures_ok
      refine ⟨⟨coherent.complete, ?_, ?_, ?_, ?_⟩, by simp [Matches], rfl⟩
      · have dev : ∀ a, (Function.update s.bufs b
            ⟨true, true, false, (s.bufs b).dev, (s.bufs b).blockno, data⟩ a).dev =
              (s.bufs a).dev := by
          intro a
          by_cases eq : a = b <;> simp [eq]
        have key : ∀ a, (Function.update s.bufs b
            ⟨true, true, false, (s.bufs b).dev, (s.bufs b).blockno, data⟩ a).blockno =
              (s.bufs a).blockno := by
          intro a
          by_cases eq : a = b <;> simp [eq]
        intro a c root_a root_c same
        simp only [State.setBuf_bufs, dev, key] at root_a root_c same
        exact coherent.unique a c root_a root_c same
      · intro a used
        by_cases eq : a = b
        · simp [eq, root]
        · simp only [State.setBuf_bufs, Function.update_of_ne eq] at used ⊢
          exact coherent.rooted a used
      · intro a
        by_cases eq : a = b
        · simp [eq]
        · simpa [Function.update_of_ne eq] using coherent.clean a
      · intro a free valid
        by_cases eq : a = b
        · simp [eq] at free
        · simp only [State.setBuf_bufs, Function.update_of_ne eq] at free valid ⊢
          have other : (s.bufs a).blockno ≠ (s.bufs b).blockno := fun same =>
            eq (coherent.unique a b (coherent.rooted a (Or.inr valid)) root same)
          rw [Function.update_of_ne other]
          exact coherent.data a free valid

/-- `brelse` of a buffer with the bytes of its block. -/
theorem brelse_ensures (coherent : Coherent s) {b : Fin nbuf} (same : Matches s b) :
    (brelse s b).Ensures fun t => Coherent t ∧ t.disk = s.disk := by
  cases busy : (s.bufs b).busy with
  | false => simp [brelse, busy, ensures_error]
  | true =>
      have fields : ∀ a, (Function.update s.bufs b { s.bufs b with busy := false } a) =
          { s.bufs a with busy := (s.bufs a).busy && a ≠ b } := by
        intro a
        by_cases eq : a = b <;> simp [eq]
      simp only [brelse, busy, if_true]
      apply ensures_ok
      refine ⟨⟨?_, ?_, ?_, ?_, ?_⟩, rfl⟩
      · intro a
        by_cases eq : a = b
        · simp [eq]
        · simp [List.mem_erase_of_ne eq, coherent.complete a]
      · intro a c
        simp only [State.setBuf_bufs, fields]
        exact coherent.unique a c
      · intro a used
        simp only [State.setBuf_bufs, fields, Bool.and_eq_true] at used ⊢
        exact coherent.rooted a (used.imp_left And.left)
      · intro a
        simp only [State.setBuf_bufs, fields]
        exact coherent.clean a
      · intro a free valid
        simp only [State.setBuf_bufs, fields, Bool.and_eq_false_iff] at free valid ⊢
        by_cases eq : a = b
        · rw [eq]
          exact same
        · exact coherent.data a (free.resolve_right (by simp [eq])) valid

/-- A block that is read, changed, written and released. -/
theorem rewrite_ensures (coherent : Coherent s) (bno : UInt32) (edit : Bytes → Bytes) :
    (do
      let (bp, s) ← bread sb s bno
      let s ← bwrite (s.setData bp (edit (s.bufs bp).data)) bp
      brelse s bp).Ensures fun t =>
        Coherent t ∧
          t.disk = Function.update s.disk (sb.sector bno) (edit (s.disk (sb.sector bno))) := by
  apply (coherent.bread_ensures bno).bind
  rintro ⟨bp, t⟩ read
  apply (read.coherent.store_ensures bp _).bind
  rintro u ⟨coherent_u, same, disk⟩
  apply (coherent_u.brelse_ensures same).mono
  rintro v ⟨coherent_v, disk_v⟩
  exact ⟨coherent_v, by rw [disk_v, disk, read.data, read.blockno, read.disk]⟩

theorem iupdate_ensures (coherent : Coherent s) (ip : Inode) :
    (iupdate sb s ip).Ensures Coherent :=
  (coherent.rewrite_ensures _ fun data => storeDinode data ip).mono fun _ result => result.1

theorem bzero_ensures (coherent : Coherent s) (bno : UInt32) : (bzero sb s bno).Ensures Coherent :=
  (coherent.rewrite_ensures bno fun _ => zeros).mono fun _ result => result.1

/-! ## Blocks -/

theorem ballocLoop_ensures (fuel : Nat) (b : Nat) (coherent : Coherent s) :
    (ballocLoop sb b fuel s).Ensures fun r => Coherent r.2 := by
  induction fuel generalizing b s with
  | zero => exact ensures_error
  | succ fuel ih =>
      rw [ballocLoop]
      apply Ensures.ite
      · intro _
        apply (coherent.bread_ensures _).bind
        rintro ⟨bp, t⟩ read
        dsimp only
        cases freeBit sb (t.bufs bp).data b 0 bpb.toNat with
        | none =>
            apply (read.coherent.brelse_ensures read.matches).bind
            rintro u ⟨coherent_u, -⟩
            exact ih _ coherent_u
        | some bi =>
            apply (read.coherent.store_ensures bp _).bind
            rintro u ⟨coherent_u, same, -⟩
            apply (coherent_u.brelse_ensures same).bind
            rintro v ⟨coherent_v, -⟩
            apply (coherent_v.bzero_ensures _).bind
            intro w coherent_w
            exact ensures_ok coherent_w
      · intro _
        exact ensures_ok coherent

theorem balloc_ensures (coherent : Coherent s) : (balloc sb s).Ensures fun r => Coherent r.2 :=
  ballocLoop_ensures _ _ coherent

/-- `bfree` leaves zero words of blocks zero. -/
theorem bfree_ensures (coherent : Coherent s) (b : UInt32) :
    (bfree sb s b).Ensures fun t => Coherent t ∧
      ∀ c j, getWord (s.disk c) j = 0 → getWord (t.disk c) j = 0 := by
  apply (coherent.bread_ensures _).bind
  rintro ⟨bp, t⟩ read
  apply Ensures.ite
  · intro _
    apply (read.coherent.store_ensures bp _).bind
    rintro u ⟨coherent_u, same, disk⟩
    apply (coherent_u.brelse_ensures same).mono
    rintro v ⟨coherent_v, disk_v⟩
    refine ⟨coherent_v, fun c j zero => ?_⟩
    rw [disk_v, disk, read.disk, read.blockno, read.data]
    by_cases eq : c = sb.sector (bblock sb b)
    · rw [eq] at zero ⊢
      rw [Function.update_self]
      exact getWord_clearBit_of_zero _ zero
    · rw [Function.update_of_ne eq]
      exact zero
  · intro _
    exact ensures_error

theorem bmapEntry_ensures (coherent : Coherent s) (bno : UInt32) (i : Nat) :
    (bmapEntry sb s bno i).Ensures fun r => Coherent r.2 := by
  apply (coherent.bread_ensures bno).bind
  rintro ⟨bp, t⟩ read
  apply Ensures.ite
  · intro _
    apply read.coherent.balloc_ensures.bind
    rintro ⟨addr, u⟩ coherent_u
    apply Ensures.ite
    · intro _
      exact ensures_ok coherent_u
    · intro _
      apply (coherent_u.store_ensures bp _).bind
      rintro v ⟨coherent_v, same, -⟩
      apply (coherent_v.brelse_ensures same).bind
      rintro w ⟨coherent_w, -⟩
      exact ensures_ok coherent_w
  · intro _
    apply (read.coherent.brelse_ensures read.matches).bind
    rintro u ⟨coherent_u, -⟩
    exact ensures_ok coherent_u

theorem bmapAddr_ensures (coherent : Coherent s) (ip : Inode) (i : Fin 13) :
    (bmapAddr sb s ip i).Ensures fun r => Coherent r.2.2 := by
  apply Ensures.ite
  · intro _
    apply coherent.balloc_ensures.bind
    rintro ⟨addr, t⟩ coherent_t
    exact ensures_ok coherent_t
  · intro _
    exact ensures_ok coherent

theorem bmap_ensures (coherent : Coherent s) (ip : Inode) (bn : Nat) :
    (bmap sb s ip bn).Ensures fun r => Coherent r.2.2 := by
  rw [bmap]
  split
  · exact coherent.bmapAddr_ensures _ _
  · apply Ensures.ite
    · intro _
      apply (coherent.bmapAddr_ensures ip indirectSlot).bind
      rintro ⟨addr, ip, t⟩ coherent_t
      apply Ensures.ite
      · intro _
        exact ensures_ok coherent_t
      · intro _
        apply (coherent_t.bmapEntry_ensures _ _).bind
        rintro ⟨addr, u⟩ coherent_u
        exact ensures_ok coherent_u
    · intro _
      apply Ensures.ite
      · intro _
        apply (coherent.bmapAddr_ensures ip indirect2Slot).bind
        rintro ⟨addr, ip, t⟩ coherent_t
        apply Ensures.ite
        · intro _
          exact ensures_ok coherent_t
        · intro _
          apply (coherent_t.bmapEntry_ensures _ _).bind
          rintro ⟨addr, u⟩ coherent_u
          apply Ensures.ite
          · intro _
            exact ensures_ok coherent_u
          · intro _
            apply (coherent_u.bmapEntry_ensures _ _).bind
            rintro ⟨addr, v⟩ coherent_v
            exact ensures_ok coherent_v
      · intro _
        exact ensures_error

/-! ## Reading -/

theorem readLoop_ensures (fuel : Nat) {userDst : Bool} {n : UInt32} (coherent : Coherent s)
    (ip : Inode) (mem : Memory) (dst : Nat) (off tot : UInt32) :
    (readLoop sb userDst n fuel s ip mem dst off tot).Ensures fun r => Coherent r.2.2.2 := by
  induction fuel generalizing s ip mem dst off tot with
  | zero => exact ensures_error
  | succ fuel ih =>
      rw [readLoop]
      apply Ensures.ite
      · intro _
        apply (coherent.bmap_ensures ip _).bind
        rintro ⟨addr, ip, t⟩ coherent_t
        apply Ensures.ite
        · intro _
          exact ensures_ok coherent_t
        · intro _
          apply (coherent_t.bread_ensures addr).bind
          rintro ⟨bp, u⟩ read
          apply (read.coherent.brelse_ensures read.matches).bind
          rintro v ⟨coherent_v, -⟩
          apply Ensures.ite
          · intro _
            exact ih coherent_v ..
          · intro _
            exact ensures_ok coherent_v
      · intro _
        exact ensures_ok coherent

theorem readi_ensures (coherent : Coherent s) (ip : Inode) (userDst : Bool) (mem : Memory)
    (dst : Nat) (off n : UInt32) :
    (readi sb s ip userDst mem dst off n).Ensures fun r => Coherent r.2.2.2 := by
  apply Ensures.ite
  · intro _
    exact ensures_ok coherent
  · intro _
    apply (coherent.readLoop_ensures ..).bind
    rintro ⟨tot, mem, ip, t⟩ coherent_t
    exact ensures_ok coherent_t

theorem readInode_ensures (coherent : Coherent s) (inum : UInt32) :
    (readInode sb s inum).Ensures fun r => Coherent r.2 := by
  apply (coherent.bread_ensures _).bind
  rintro ⟨bp, t⟩ read
  apply (read.coherent.brelse_ensures read.matches).bind
  rintro u ⟨coherent_u, -⟩
  apply Ensures.ite
  · intro _
    exact ensures_error
  · intro _
    exact ensures_ok coherent_u

theorem iallocLoop_ensures (fuel i : Nat) {type : UInt16} (coherent : Coherent s) :
    (iallocLoop sb type fuel i s).Ensures fun r => Coherent r.2 := by
  induction fuel generalizing i s with
  | zero => exact ensures_error
  | succ fuel ih =>
      rw [iallocLoop]
      apply Ensures.ite
      · intro _
        apply (coherent.bread_ensures _).bind
        rintro ⟨bp, t⟩ read
        apply Ensures.ite
        · intro _
          apply (read.coherent.store_ensures bp _).bind
          rintro u ⟨coherent_u, same, -⟩
          apply (coherent_u.brelse_ensures same).bind
          rintro v ⟨coherent_v, -⟩
          exact ensures_ok coherent_v
        · intro _
          apply (read.coherent.brelse_ensures read.matches).bind
          rintro u ⟨coherent_u, -⟩
          exact ih _ coherent_u
      · intro _
        exact ensures_ok coherent

end Coherent

/-! ## Writing -/

/-- The pages of the source end inside a block of the file: the request runs into an unreadable
page after it has copied a part of the block. -/
def Midway (mem : Memory) (src off n : Nat) : Prop :=
  ∃ c < n, PagesIn mem.readable src c ∧ mem.readable ((src + c) / pgSize) = false ∧ 0 < c ∧
    (off + c) % bsize ≠ 0

/-- A copy that fails stops at the first unreadable page. -/
theorem copyinLoop_fails (fuel : Nat) {mem : Memory} {data after : Bytes} {dst src len : Nat}
    (enough : len ≤ fuel) (fails : copyinLoop mem fuel data dst src len = (false, after)) :
    ∃ c < len, PagesIn mem.readable src c ∧ mem.readable ((src + c) / pgSize) = false ∧
      after = copyRange data dst mem.bytes src c := by
  induction fuel generalizing data dst src len with
  | zero => simp [copyinLoop] at fails
  | succ fuel ih =>
      rw [copyinLoop] at fails
      split at fails
      · simp at fails
      · next rest =>
          split at fails
          · next first =>
              simp only [pgSize] at *
              by_cases last : len ≤ 4096 - src % 4096
              · rw [min_eq_right last, Nat.sub_self] at fails
                obtain ⟨c, c_lt, -⟩ := ih (by omega) fails
                omega
              · have next : src / 4096 * 4096 + 4096 = src + (4096 - src % 4096) := by omega
                rw [min_eq_left (by omega), next] at fails
                obtain ⟨c, c_lt, before, stops, copied⟩ := ih (by omega) fails
                refine ⟨4096 - src % 4096 + c, by omega, ?_, by rwa [← Nat.add_assoc], ?_⟩
                · intro a lower upper
                  by_cases page : a < src + (4096 - src % 4096)
                  · rw [show a / pgSize = src / 4096 by simp only [pgSize]; omega]
                    exact first
                  · exact before a (by omega) (by omega)
                · rw [copied, copyRange_copyRange]
          · next first =>
              rw [Prod.mk.injEq] at fails
              refine ⟨0, by omega, fun a lower upper => by omega, ?_, ?_⟩
              · simpa using first
              · rw [copyRange_zero]
                exact fails.2.symm

/-- A copy that succeeds has found every page. -/
theorem copyinLoop_succeeds (fuel : Nat) {mem : Memory} {data after : Bytes} {dst src len : Nat}
    (enough : len ≤ fuel) (succeeds : copyinLoop mem fuel data dst src len = (true, after)) :
    PagesIn mem.readable src len := by
  induction fuel generalizing data dst src len with
  | zero =>
      intro a lower upper
      omega
  | succ fuel ih =>
      rw [copyinLoop] at succeeds
      intro a lower upper
      split at succeeds
      · omega
      · next rest =>
          split at succeeds
          · next first =>
              simp only [pgSize] at *
              by_cases page : a < src + (4096 - src % 4096)
              · rw [show a / 4096 = src / 4096 by omega]
                exact first
              · have next : src / 4096 * 4096 + 4096 = src + (4096 - src % 4096) := by omega
                rw [min_eq_left (by omega), next] at succeeds
                exact ih (by omega) succeeds a (by omega) (by omega)
          · simp at succeeds

/-- What is left of a request after a chunk runs into no page that the request does not run into. -/
theorem Midway.of_rest {mem : Memory} {src off n m : Nat} (m_le : m ≤ n)
    (chunk : PagesIn mem.readable src m) (rest : Midway mem (src + m) (off + m) (n - m)) :
    Midway mem src off n := by
  obtain ⟨c, c_lt, before, stops, positive, inside⟩ := rest
  refine ⟨m + c, by omega, ?_, by rwa [← Nat.add_assoc], by omega, by rwa [← Nat.add_assoc]⟩
  intro a lower upper
  by_cases first : a < src + m
  · exact chunk a lower first
  · exact before a (by omega) (by omega)

namespace Coherent

variable {sb : Superblock} {s : State}

theorem writeLoop_ensures (fuel : Nat) {userSrc : Bool} {mem : Memory} {n : UInt32}
    (coherent : Coherent s) (ip : Inode) (src : Nat) {off tot : UInt32}
    (tot_le : tot.toNat ≤ n.toNat) (fits : off.toNat + (n.toNat - tot.toNat) < 2 ^ 32)
    (whole : userSrc = true → ¬Midway mem src off.toNat (n.toNat - tot.toNat)) :
    (writeLoop sb userSrc mem n fuel s ip src off tot).Ensures fun r => Coherent r.2.2.2 := by
  induction fuel generalizing s ip src off tot with
  | zero => exact ensures_error
  | succ fuel ih =>
      rw [writeLoop]
      apply Ensures.ite
      · intro more
        rw [UInt32.lt_iff_toNat_lt] at more
        apply (coherent.bmap_ensures ip _).bind
        rintro ⟨addr, ip, t⟩ coherent_t
        apply Ensures.ite
        · intro _
          exact ensures_ok coherent_t
        · intro _
          apply (coherent_t.bread_ensures addr).bind
          rintro ⟨bp, u⟩ read
          have chunk_eq := chunk_toNat off tot_le
          dsimp only
          set m := chunk n tot off with m_eq
          cases copy : eitherCopyin (u.bufs bp).data (off.toNat % bsize) userSrc mem src
            m.toNat with
          | mk copied data =>
              cases copied with
              | true =>
                  apply (read.coherent.store_ensures bp data).bind
                  rintro v ⟨coherent_v, same, -⟩
                  apply (coherent_v.brelse_ensures same).bind
                  rintro w ⟨coherent_w, -⟩
                  have next_tot : (tot + m).toNat = tot.toNat + m.toNat := by
                    rw [UInt32.toNat_add, Nat.mod_eq_of_lt (by have := n.toNat_lt; omega)]
                  have next_off : (off + m).toNat = off.toNat + m.toNat := by
                    rw [UInt32.toNat_add, Nat.mod_eq_of_lt (by omega)]
                  apply ih coherent_w
                  · omega
                  · omega
                  · intro user rest
                    subst user
                    simp only [eitherCopyin, if_true] at copy
                    have found := copyinLoop_succeeds m.toNat le_rfl copy
                    refine whole rfl (Midway.of_rest (m := m.toNat) (by omega) found ?_)
                    rwa [next_off, next_tot, ← Nat.sub_sub] at rest
              | false =>
                  have unchanged : data = (u.bufs bp).data := by
                    cases userSrc with
                    | false => simp [eitherCopyin] at copy
                    | true =>
                        simp only [eitherCopyin, if_true] at copy
                        obtain ⟨c, c_lt, before, stops, copied⟩ :=
                          copyinLoop_fails m.toNat le_rfl copy
                        have still : c = 0 → data = (u.bufs bp).data := fun zero => by
                          rw [copied, zero, copyRange_zero]
                        by_contra changed
                        refine whole rfl ⟨c, by omega, before, stops, ?_, ?_⟩
                        · exact Nat.pos_of_ne_zero fun zero => changed (still zero)
                        · have : c ≠ 0 := fun zero => changed (still zero)
                          simp only [bsize]
                          omega
                  have same : u.setData bp data = u := by
                    rw [unchanged, State.setData, State.setBuf, Function.update_eq_self]
                  simp only [same, Bool.false_eq_true, if_false]
                  apply (read.coherent.brelse_ensures read.matches).bind
                  rintro v ⟨coherent_v, -⟩
                  exact ensures_ok coherent_v
      · intro _
        exact ensures_ok coherent

/-- `writei` whose source does not fault in the middle of a block. -/
theorem writei_ensures (coherent : Coherent s) (ip : Inode) {userSrc : Bool} {mem : Memory}
    {src : Nat} {off n : UInt32}
    (whole : userSrc = true → off.toNat ≤ ip.size.toNat → off.toNat + n.toNat < 2 ^ 32 →
      ¬Midway mem src off.toNat n.toNat) :
    (writei sb s ip userSrc mem src off n).Ensures fun r => Coherent r.2.2 := by
  apply Ensures.ite
  · intro _
    exact ensures_ok coherent
  · intro accepted
    apply Ensures.ite
    · intro _
      exact ensures_ok coherent
    · intro _
      have fits : off.toNat ≤ ip.size.toNat ∧ off.toNat + n.toNat < 2 ^ 32 := by
        have := n.toNat_lt
        have := off.toNat_lt
        simp only [gt_iff_lt, UInt32.lt_iff_toNat_lt, UInt32.toNat_add] at accepted
        omega
      apply (coherent.writeLoop_ensures _ ip src (Nat.zero_le _) fits.2
        fun user => whole user fits.1 fits.2).bind
      rintro ⟨tot, off, ip, t⟩ coherent_t
      apply (coherent_t.iupdate_ensures _).bind
      intro u coherent_u
      exact ensures_ok coherent_u

/-! ## Directories -/

theorem readDirent_ensures (coherent : Coherent s) (dp : Inode) (off : UInt32) :
    (readDirent sb s dp off).Ensures fun r => Coherent r.2.2.2 := by
  apply (coherent.readi_ensures ..).bind
  rintro ⟨r, mem, dp, t⟩ coherent_t
  exact ensures_ok coherent_t

theorem writeDirent_ensures (coherent : Coherent s) (dp : Inode) (entry : Bytes) (off : UInt32) :
    (writeDirent sb s dp entry off).Ensures fun r => Coherent r.2.2 :=
  coherent.writei_ensures dp (by simp)

theorem dirlookupLoop_ensures (fuel : Nat) {name : Bytes} (coherent : Coherent s) (dp : Inode)
    (off : UInt32) : (dirlookupLoop sb name fuel s dp off).Ensures fun r => Coherent r.2.2 := by
  induction fuel generalizing s dp off with
  | zero => exact ensures_error
  | succ fuel ih =>
      rw [dirlookupLoop]
      apply Ensures.ite
      · intro _
        apply (coherent.readDirent_ensures dp off).bind
        rintro ⟨r, entry, dp, t⟩ coherent_t
        apply Ensures.ite
        · intro _
          exact ensures_error
        · intro _
          apply Ensures.ite
          · intro _
            exact ih coherent_t ..
          · intro _
            apply Ensures.ite
            · intro _
              exact ensures_ok coherent_t
            · intro _
              exact ih coherent_t ..
      · intro _
        exact ensures_ok coherent

theorem dirlookup_ensures (coherent : Coherent s) (dp : Inode) (name : Bytes) :
    (dirlookup sb s dp name).Ensures fun r => Coherent r.2.2 := by
  apply Ensures.ite
  · intro _
    exact ensures_error
  · intro _
    exact coherent.dirlookupLoop_ensures ..

theorem emptyDirentLoop_ensures (fuel : Nat) (coherent : Coherent s) (dp : Inode) (off : UInt32) :
    (emptyDirentLoop sb fuel s dp off).Ensures fun r => Coherent r.2.2 := by
  induction fuel generalizing s dp off with
  | zero => exact ensures_error
  | succ fuel ih =>
      rw [emptyDirentLoop]
      apply Ensures.ite
      · intro _
        apply (coherent.readDirent_ensures dp off).bind
        rintro ⟨r, entry, dp, t⟩ coherent_t
        apply Ensures.ite
        · intro _
          exact ensures_error
        · intro _
          apply Ensures.ite
          · intro _
            exact ensures_ok coherent_t
          · intro _
            exact ih coherent_t ..
      · intro _
        exact ensures_ok coherent

theorem dirlink_ensures (coherent : Coherent s) (dp : Inode) (name : Bytes) (inum : UInt32)
    (type : UInt16) : (dirlink sb s dp name inum type).Ensures fun r => Coherent r.2.2 := by
  apply (coherent.dirlookup_ensures dp name).bind
  rintro ⟨found, dp, t⟩ coherent_t
  apply Ensures.ite
  · intro _
    exact ensures_ok coherent_t
  · intro _
    apply (coherent_t.emptyDirentLoop_ensures ..).bind
    rintro ⟨off, dp, u⟩ coherent_u
    apply (coherent_u.writeDirent_ensures ..).bind
    rintro ⟨r, dp, v⟩ coherent_v
    exact ensures_ok coherent_v

theorem unlink_ensures (coherent : Coherent s) (dp : Inode) (off : UInt32) :
    (unlink sb s dp off).Ensures fun r => Coherent r.2.2 := by
  apply (coherent.writeDirent_ensures ..).bind
  rintro ⟨r, dp, t⟩ coherent_t
  exact ensures_ok coherent_t

end Coherent

/-! ## Truncation -/

/-- There is no such block, or every block number in it is zero. -/
def NoEntries (sb : Superblock) (s : State) (addr : UInt32) : Prop :=
  addr = 0 ∨ ∀ j < nindirect, getWord (s.disk (sb.sector addr)) j = 0

/-- The inode has no block below an indirect or double indirect block. -/
def DirectOnly (sb : Superblock) (s : State) (ip : Inode) : Prop :=
  NoEntries sb s (ip.addrs indirectSlot) ∧ NoEntries sb s (ip.addrs indirect2Slot)

namespace Coherent

variable {sb : Superblock} {s : State}

/-- Freeing the direct blocks leaves zero words of blocks zero. -/
theorem freeAddrs_ensures (coherent : Coherent s) (ip : Inode) :
    (directSlots.foldlM (freeAddr sb) (s, ip)).Ensures fun r => Coherent r.1 ∧
      (∀ c j, getWord (s.disk c) j = 0 → getWord (r.1.disk c) j = 0) ∧
      r.2.addrs indirectSlot = ip.addrs indirectSlot ∧
      r.2.addrs indirect2Slot = ip.addrs indirect2Slot := by
  apply Ensures.foldlM directSlots
  · rintro ⟨t, current⟩ i mem ⟨coherent_t, zero, single, double⟩
    apply Ensures.ite
    · intro _
      exact ensures_ok ⟨coherent_t, zero, single, double⟩
    · intro _
      apply (coherent_t.bfree_ensures _).bind
      rintro u ⟨coherent_u, zero_u⟩
      obtain ⟨not_single, not_double⟩ := mem_directSlots.mp mem
      apply ensures_ok
      refine ⟨coherent_u, fun c j before => zero_u c j (zero c j before), ?_, ?_⟩
      · simpa [Inode.setAddr, Function.update_of_ne (Ne.symm not_single)] using single
      · simpa [Inode.setAddr, Function.update_of_ne (Ne.symm not_double)] using double
  · exact ⟨coherent, fun _ _ zero => zero, rfl, rfl⟩

/-- Dropping a block without entries. -/
theorem truncIndirect_ensures (coherent : Coherent s) (ip : Inode)
    (none : NoEntries sb s (ip.addrs indirectSlot)) :
    (truncIndirect sb s ip).Ensures fun r => Coherent r.1 ∧
      (∀ c j, getWord (s.disk c) j = 0 → getWord (r.1.disk c) j = 0) ∧
      r.2.addrs indirect2Slot = ip.addrs indirect2Slot := by
  apply Ensures.ite
  · intro _
    exact ensures_ok ⟨coherent, fun _ _ zero => zero, rfl⟩
  · intro present
    have zero := none.resolve_left present
    apply (coherent.bread_ensures _).bind
    rintro ⟨bp, t⟩ read
    have loop : ((List.range nindirect).foldlM (freeEntry sb bp) t).Ensures fun u => u = t := by
      apply Ensures.foldlM
      · rintro u j mem rfl
        rw [freeEntry, if_pos]
        · exact ensures_ok rfl
        · rw [read.data]
          exact zero j (List.mem_range.mp mem)
      · rfl
    apply loop.bind
    rintro u rfl
    apply (read.coherent.brelse_ensures read.matches).bind
    rintro v ⟨coherent_v, disk_v⟩
    apply (coherent_v.bfree_ensures _).bind
    rintro w ⟨coherent_w, zero_w⟩
    apply ensures_ok
    refine ⟨coherent_w, fun c j before => zero_w c j ?_, ?_⟩
    · rwa [disk_v, read.disk]
    · simp [Inode.setAddr, indirectSlot, indirect2Slot]

theorem truncIndirect2_ensures (coherent : Coherent s) (ip : Inode)
    (none : NoEntries sb s (ip.addrs indirect2Slot)) :
    (truncIndirect2 sb s ip).Ensures fun r => Coherent r.1 := by
  apply Ensures.ite
  · intro _
    exact ensures_ok coherent
  · intro present
    have zero := none.resolve_left present
    apply (coherent.bread_ensures _).bind
    rintro ⟨root, t⟩ read
    have loop : ((List.range nindirect).foldlM (freeTable sb root) (t, root)).Ensures
        fun run => run = (t, root) := by
      apply Ensures.foldlM
      · rintro run j mem rfl
        rw [freeTable, if_pos]
        · exact ensures_ok rfl
        · rw [read.data]
          exact zero j (List.mem_range.mp mem)
      · rfl
    apply loop.bind
    rintro run rfl
    apply (read.coherent.brelse_ensures read.matches).bind
    rintro v ⟨coherent_v, -⟩
    apply (coherent_v.bfree_ensures _).bind
    rintro w ⟨coherent_w, -⟩
    exact ensures_ok coherent_w

/-- `itrunc` of an inode without indirect blocks in use. -/
theorem itrunc_ensures (coherent : Coherent s) {ip : Inode} (direct : DirectOnly sb s ip) :
    (itrunc sb s ip).Ensures fun r => Coherent r.1 := by
  have still : ∀ {t : State} {addr : UInt32}, NoEntries sb s addr →
      (∀ c j, getWord (s.disk c) j = 0 → getWord (t.disk c) j = 0) → NoEntries sb t addr :=
    fun before keeps => before.imp_right fun zero j j_lt => keeps _ j (zero j j_lt)
  apply (coherent.freeAddrs_ensures ip).bind
  rintro ⟨t, first⟩ ⟨coherent_t, zero_t, single, double⟩
  apply (coherent_t.truncIndirect_ensures first (single ▸ still direct.1 zero_t)).bind
  rintro ⟨u, second⟩ ⟨coherent_u, zero_u, double_u⟩
  have none : NoEntries sb u (second.addrs indirect2Slot) :=
    double_u ▸ double ▸ still direct.2 fun c j before => zero_u c j (zero_t c j before)
  apply (coherent_u.truncIndirect2_ensures second none).bind
  rintro ⟨v, third⟩ coherent_v
  apply (coherent_v.iupdate_ensures _).bind
  intro w coherent_w
  exact ensures_ok coherent_w

end Coherent

end Fs
end Xv6Duo
