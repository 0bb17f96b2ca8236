import Xv6Duo.Fs.Tree

/-!
# Allocating a block

`balloc` walks the bitmap block by block and bit by bit, marks the first free block and zeroes it.
While a free block exists it returns one, over any cache and with buffers of other blocks busy.
-/

namespace Xv6Duo
namespace Fs

open ByteBlock

variable {sb : Superblock} {s t : State} {held : Finset (Fin nbuf)} {trusted : Set UInt32}

/-! ## The scan of one bitmap block -/

theorem freeBit_some {data : Bytes} {b bi fuel r : Nat}
    (found : freeBit sb data b bi fuel = some r) :
    bi ≤ r ∧ r < bi + fuel ∧ b + r < sb.size.toNat ∧ getBit data r = false := by
  induction fuel generalizing bi with
  | zero => simp [freeBit] at found
  | succ fuel ih =>
      rw [freeBit] at found
      split at found
      · next inside =>
          split at found
          · obtain ⟨lower, upper, inside_r, clear⟩ := ih found
            exact ⟨by omega, by omega, inside_r, clear⟩
          · next clear =>
              obtain rfl := Option.some.inj found
              exact ⟨le_rfl, by omega, inside, by simpa using clear⟩
      · simp at found

theorem freeBit_none {data : Bytes} {b bi fuel r : Nat}
    (missing : freeBit sb data b bi fuel = none) (lower : bi ≤ r) (upper : r < bi + fuel)
    (inside : b + r < sb.size.toNat) : getBit data r = true := by
  induction fuel generalizing bi with
  | zero => omega
  | succ fuel ih =>
      rw [freeBit, if_pos (by omega)] at missing
      split at missing
      · next set_bit =>
          by_cases first : r = bi
          · rw [first]
            exact set_bit
          · exact ih missing (by omega) (by omega)
      · simp at missing

/-- The bit `r` of the bitmap block that starts at block `b` belongs to block `b + r`. -/
theorem used_scan {b r : Nat} (aligned : b % 32768 = 0) (r_lt : r < 32768)
    (inside : b + r < sb.size.toNat) :
    used sb s (UInt32.ofNat (b + r)) = getBit (s.view sb (bblock sb (UInt32.ofNat b))) r := by
  have size_le := sb.size_le
  have value : (UInt32.ofNat (b + r)).toNat = b + r := by
    rw [UInt32.toNat_ofNat', Nat.mod_eq_of_lt (by omega)]
  have base : (UInt32.ofNat b).toNat = b := by
    rw [UInt32.toNat_ofNat', Nat.mod_eq_of_lt (by omega)]
  have block_eq : bblock sb (UInt32.ofNat (b + r)) = bblock sb (UInt32.ofNat b) := by
    apply UInt32.toNat_inj.mp
    rw [bblock_toNat (by rw [InRange, value]; exact inside),
      bblock_toNat (by rw [InRange, base]; omega), value, base]
    omega
  have bit_eq : bitIndex (UInt32.ofNat (b + r)) = r := by
    rw [bitIndex, UInt32.toNat_mod, value, show bpb.toNat = 32768 from rfl]
    omega
  rw [used, block_eq, bit_eq]

/-! ## The whole allocation -/

/-- The effect of `balloc` on the card: one free block is marked and zeroed. -/
structure Balloced (sb : Superblock) (s t : State) (b : UInt32) : Prop where
  /-- The block is in range. -/
  inRange : InRange sb b
  /-- The block was free. -/
  unmarked : used sb s b = false
  /-- Its bit is set, the others are as before. -/
  bits : ∀ c, InRange sb c → (used sb t c = true ↔ used sb s c = true ∨ c = b)
  /-- The block is zero. -/
  zero : t.view sb b = zeros
  /-- The other blocks outside the bitmap are as before. -/
  view : ∀ bno, InRange sb bno → bno ∉ bitmapBlocks sb → bno ≠ b → t.view sb bno = s.view sb bno

theorem balloced_of_disk {b : UInt32} (b_range : InRange sb b)
    (outside : b ∉ bitmapBlocks sb) (unmarked : used sb s b = false)
    (disk : t.disk = Function.update
      (Function.update s.disk (sb.sector (bblock sb b))
        (setBit (s.view sb (bblock sb b)) (bitIndex b))) (sb.sector b) zeros) :
    Balloced sb s t b where
  inRange := b_range
  unmarked := unmarked
  bits c c_range := by
    have apart : sb.sector (bblock sb c) ≠ sb.sector b := by
      intro same
      have := Superblock.sector_inj (bblock_inRange c_range).lt b_range.lt same
      exact outside (this ▸ ⟨c, c_range, rfl⟩)
    rw [used, State.view, disk, Function.update_of_ne apart]
    by_cases same : bblock sb c = bblock sb b
    · rw [same, Function.update_self, getBit_setBit]
      have bit_iff : bitIndex c = bitIndex b ↔ c = b :=
        ⟨fun bit_eq => bit_inj c_range b_range same bit_eq, fun eq => by rw [eq]⟩
      simp only [Bool.or_eq_true, decide_eq_true_eq, bit_iff, used, same, or_comm]
    · have differ : sb.sector (bblock sb c) ≠ sb.sector (bblock sb b) := fun eq =>
        same (Superblock.sector_inj (bblock_inRange c_range).lt (bblock_inRange b_range).lt eq)
      have ne : c ≠ b := fun eq => same (by rw [eq])
      rw [Function.update_of_ne differ]
      simp [used, State.view, ne]
  zero := by rw [State.view, disk, Function.update_self]
  view bno bno_range not_bitmap ne := by
    have apart : sb.sector bno ≠ sb.sector b := fun eq =>
      ne (Superblock.sector_inj bno_range.lt b_range.lt eq)
    have differ : sb.sector bno ≠ sb.sector (bblock sb b) := by
      intro eq
      have := Superblock.sector_inj bno_range.lt (bblock_inRange b_range).lt eq
      exact not_bitmap (this ▸ ⟨b, b_range, rfl⟩)
    rw [State.view, disk, Function.update_of_ne apart, Function.update_of_ne differ]
    rfl

theorem Balloced.congr {u : State} {b : UInt32} (balloced : Balloced sb t u b)
    (disk : t.disk = s.disk) : Balloced sb s u b where
  inRange := balloced.inRange
  unmarked := (used_congr disk b).symm.trans balloced.unmarked
  bits c c_range := by rw [balloced.bits c c_range, used_congr disk]
  zero := balloced.zero
  view bno bno_range outside ne := by
    rw [balloced.view bno bno_range outside ne, view_congr disk]

/-- `bzero` zeroes a block that no held buffer caches. -/
theorem bzero_spec (good : Good sb s held trusted) {bno : UInt32}
    (free : Unheld s held (sb.sector bno)) (few : held.card < nbuf) :
    ∃ t, bzero sb s bno = .ok t ∧ Good sb t held (insert bno trusted) ∧
      t.disk = Function.update s.disk (sb.sector bno) zeros ∧ Frame sb s t held {bno} := by
  obtain ⟨bp, t, read, -, -, edit⟩ := access_spec good free few
  obtain ⟨u, v, wrote, released, good_v, disk_v, frame⟩ := edit zeros
  exact ⟨v, by simp [bzero, read, wrote, released], good_v, disk_v, frame⟩

/-- The outer loop of `balloc` reaches the first bitmap block with a free bit. -/
theorem ballocLoop_spec (fuel : Nat) {b : Nat} (good : Good sb s held trusted)
    (trusts : bitmapBlocks sb ⊆ trusted) (free : BitmapFree sb s held) (few : held.card < nbuf)
    (unheld : ∀ c, InRange sb c → used sb s c = false → Unheld s held (sb.sector c))
    (apart : ∀ c, InRange sb c → used sb s c = false → c ∉ bitmapBlocks sb)
    (aligned : b % 32768 = 0) (enough : sb.size.toNat < b + fuel * 32768)
    (some_free : ∃ c, InRange sb c ∧ b ≤ c.toNat ∧ used sb s c = false) :
    ∃ c t, ballocLoop sb b fuel s = .ok (c, t) ∧ Balloced sb s t c ∧
      Good sb t held (insert c trusted) ∧ Frame sb s t held Set.univ := by
  obtain ⟨c, c_range, b_le, c_free⟩ := some_free
  have b_lt : b < sb.size.toNat := b_le.trans_lt c_range
  have size_le := sb.size_le
  induction fuel generalizing s b with
  | zero => omega
  | succ fuel ih =>
      have base : (UInt32.ofNat b).toNat = b := by
        rw [UInt32.toNat_ofNat', Nat.mod_eq_of_lt (by omega)]
      have base_range : InRange sb (UInt32.ofNat b) := by rwa [InRange, base]
      have bitmap : bblock sb (UInt32.ofNat b) ∈ bitmapBlocks sb := ⟨_, base_range, rfl⟩
      obtain ⟨bp, t, read, data, ⟨u, released, good_u, disk_u, frame_u⟩, edit⟩ :=
        access_spec good (free _ bitmap) few
      have data_eq : (t.bufs bp).data = s.view sb (bblock sb (UInt32.ofNat b)) :=
        data (trusts bitmap)
      cases scan : freeBit sb (t.bufs bp).data b 0 bpb.toNat with
      | some bi =>
          obtain ⟨-, bi_lt, inside, clear⟩ := freeBit_some scan
          rw [Nat.zero_add, show bpb.toNat = 32768 from rfl] at bi_lt
          set d := UInt32.ofNat (b + bi) with d_eq
          have value : d.toNat = b + bi := by
            rw [d_eq, UInt32.toNat_ofNat', Nat.mod_eq_of_lt (by omega)]
          have d_range : InRange sb d := by rwa [InRange, value]
          have d_free : used sb s d = false := by
            rw [d_eq, used_scan aligned bi_lt inside, ← data_eq]
            exact clear
          have block_eq : bblock sb d = bblock sb (UInt32.ofNat b) := by
            apply UInt32.toNat_inj.mp
            rw [bblock_toNat d_range, bblock_toNat base_range, value, base]
            omega
          have bit_eq : bitIndex d = bi := by
            rw [bitIndex, UInt32.toNat_mod, value, show bpb.toNat = 32768 from rfl]
            omega
          obtain ⟨v, w, wrote, released_w, good_w, disk_w, frame_w⟩ :=
            edit (setBit (t.bufs bp).data bi)
          obtain ⟨x, zeroed, good_x, disk_x, frame_x⟩ := bzero_spec good_w
            (frame_w.unheld (unheld d d_range d_free)) few
          refine ⟨d, x, ?_, ?_, ?_, ?_⟩
          · simp only [ballocLoop, b_lt, if_true, read, Except.ok_bind, scan, wrote, released_w,
              ← d_eq, zeroed, Except.pure_eq_ok]
          · refine balloced_of_disk d_range (apart d d_range d_free) d_free ?_
            rw [disk_x, disk_w, data_eq, block_eq, bit_eq]
          · refine good_x.mono ?_
            rintro bno (rfl | mem)
            · exact Set.mem_insert _ _
            · exact Or.inr (Or.inr mem)
          · exact (frame_w.mono (Set.subset_univ _)).trans (frame_x.mono (Set.subset_univ _))
      | none =>
          have later : b + 32768 ≤ c.toNat := by
            by_contra near
            have c_eq : UInt32.ofNat (b + (c.toNat - b)) = c := by
              rw [Nat.add_sub_cancel' b_le, UInt32.ofNat_toNat]
            have set_bit := freeBit_none (r := c.toNat - b) scan (Nat.zero_le _)
              (by rw [show bpb.toNat = 32768 from rfl]; omega)
              (by rw [InRange] at c_range; omega)
            rw [data_eq, ← used_scan aligned (by omega) (by rw [InRange] at c_range; omega),
              c_eq, c_free] at set_bit
            exact absurd set_bit (by simp)
          obtain ⟨d, x, loop, balloced, good_x, frame_x⟩ := ih (b := b + 32768) good_u
            (frame_u.bitmapFree free)
            (fun e e_range e_free => frame_u.unheld
              (unheld e e_range ((used_congr disk_u e).symm.trans e_free)))
            (fun e e_range e_free => apart e e_range ((used_congr disk_u e).symm.trans e_free))
            (by omega) (by omega) later ((used_congr disk_u c).trans c_free)
            (by rw [InRange] at c_range; omega)
          refine ⟨d, x, ?_, balloced.congr disk_u, good_x,
            (frame_u.mono (Set.subset_univ _)).trans frame_x⟩
          simp only [ballocLoop, b_lt, if_true, read, Except.ok_bind, scan, released]
          exact loop

/-- `balloc` returns a block while there is a free one. -/
theorem balloc_spec (good : Good sb s held trusted) (trusts : bitmapBlocks sb ⊆ trusted)
    (free : BitmapFree sb s held) (few : held.card < nbuf)
    (unheld : ∀ c, InRange sb c → used sb s c = false → Unheld s held (sb.sector c))
    (apart : ∀ c, InRange sb c → used sb s c = false → c ∉ bitmapBlocks sb)
    (some_free : ∃ c, InRange sb c ∧ used sb s c = false) :
    ∃ c t, balloc sb s = .ok (c, t) ∧ Balloced sb s t c ∧
      Good sb t held (insert c trusted) ∧ Frame sb s t held Set.univ := by
  obtain ⟨c, c_range, c_free⟩ := some_free
  refine ballocLoop_spec _ good trusts free few unheld apart rfl ?_
    ⟨c, c_range, Nat.zero_le _, c_free⟩
  rw [show bpb.toNat = 32768 from rfl]
  omega

end Fs
end Xv6Duo
