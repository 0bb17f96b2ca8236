import Xv6Duo.Exec.Model

/-!
# Segments

`loadseg` stores the bytes of a file at the addresses of a segment. A round ends at the end of a
page or of the segment, so the rounds of two adjacent ranges store one range.
-/

namespace Xv6Duo
namespace Exec

open Vm Mmap Mapping

variable {sb : Fs.Superblock} {k k₁ k' : Kernel} {root va len fuel : Nat} {inum offset : UInt32}
  {tables : List Nat} {memory : Vm.Memory} {before middle after : ByteBlock.Bytes}
  {source : Nat → UInt8}

/-! ## Stores to user addresses -/

/-- The bytes of `source` are stored at the user addresses from `va` on, and nothing else
changes. -/
structure Stored (memory : Vm.Memory) (root : Nat) (before after : ByteBlock.Bytes)
    (source : Nat → UInt8) (va len : Nat) : Prop where
  /-- The other bytes. -/
  frame : ∀ x, Apart memory root va len x → after x = before x
  /-- The addressed bytes. -/
  content : Distinct memory root va len → ∀ i < len, ∀ pa flags,
    lookup memory root (va + i) = some (pa, flags) → after (pa + (va + i) % pgsize) = source i

theorem Stored.refl : Stored memory root before before source va 0 where
  frame _ _ := rfl
  content _ i impossible := absurd impossible (Nat.not_lt_zero i)

/-- Two addresses of a range on distinct frames are at different places. -/
theorem place_ne {a b pa pb flags_a flags_b : Nat} (distinct : Distinct memory root va len)
    (low : va + len ≤ 2 ^ 64) (a_lower : va ≤ a) (a_upper : a < va + len) (b_lower : va ≤ b)
    (b_upper : b < va + len) (differ : a ≠ b) (at_a : lookup memory root a = some (pa, flags_a))
    (at_b : lookup memory root b = some (pb, flags_b)) : pa + a % pgsize ≠ pb + b % pgsize := by
  intro same
  have a_offset : a % pgsize < pgsize := Nat.mod_lt a (by decide)
  have b_offset : b % pgsize < pgsize := Nat.mod_lt b (by decide)
  have frames : pa = pb := by
    obtain ⟨m, pa_eq⟩ := (lookup_isFrame at_a).1.1
    obtain ⟨n, pb_eq⟩ := (lookup_isFrame at_b).1.1
    rw [show pgsize = 4096 from rfl] at *
    omega
  subst frames
  have pages := distinct a b a_lower a_upper b_lower b_upper pa flags_a flags_b at_a at_b
  have a_split := sub_pgrounddown (show a < 2 ^ 64 by omega)
  have b_split := sub_pgrounddown (show b < 2 ^ 64 by omega)
  have a_around := pgrounddown_lt (show a < 2 ^ 64 by omega)
  have b_around := pgrounddown_lt (show b < 2 ^ 64 by omega)
  omega

/-- Two adjacent ranges are one. -/
theorem Stored.trans {n m : Nat} (first : Stored memory root before middle source va n)
    (second : Stored memory root middle after (fun i => source (n + i)) (va + n) m)
    (low : va + n + m ≤ 2 ^ 64) : Stored memory root before after source va (n + m) where
  frame x apart := by
    rw [second.frame x fun a lower upper => apart a (by omega) (by omega),
      first.frame x fun a lower upper => apart a lower (by omega)]
  content distinct i i_lt pa flags found := by
    rcases Nat.lt_or_ge i n with earlier | later
    · have kept : after (pa + (va + i) % pgsize) = middle (pa + (va + i) % pgsize) := by
        refine second.frame _ fun b lower upper pb flags_b found_b => ?_
        exact place_ne distinct (by omega) (by omega) (by omega) (by omega) (by omega)
          (by omega) found found_b
      rw [kept]
      exact first.content (fun a b a_lower a_upper b_lower b_upper =>
        distinct a b a_lower (by omega) b_lower (by omega)) i earlier pa flags found
    · have position : va + i = va + n + (i - n) := by omega
      rw [position] at found ⊢
      rw [second.content (fun a b a_lower a_upper b_lower b_upper =>
        distinct a b (by omega) (by omega) (by omega) (by omega)) (i - n) (by omega) pa flags found,
        Nat.add_sub_cancel' later]

/-- A store inside a page. -/
theorem Stored.page {pa flags n : Nat} (low : va < maxva)
    (present : lookup memory root va = some (pa, flags)) (inside : va % pgsize + n ≤ pgsize) :
    Stored memory root before (ByteBlock.copyRange before (pa + va % pgsize) source 0 n) source
      va n := by
  have bound : maxva = 2 ^ 38 := by decide
  have fits : va < 2 ^ 64 := low.trans (by decide)
  have here (i : Nat) (i_lt : i < n) :
      lookup memory root (va + i) = some (pa, flags) ∧ (va + i) % pgsize = va % pgsize + i := by
    have i_fits : va + i < 2 ^ 64 := by
      rw [show pgsize = 4096 from rfl] at inside
      omega
    obtain ⟨same_page, offset⟩ :=
      pgrounddown_add fits (show va % pgsize + i < pgsize by omega) i_fits
    rw [← lookup_pgrounddown i_fits, same_page, lookup_pgrounddown fits]
    exact ⟨present, offset⟩
  constructor
  · intro x apart
    refine if_neg fun between => ?_
    obtain ⟨found, offset⟩ := here (x - (pa + va % pgsize)) (by omega)
    refine apart _ (Nat.le_add_right va _) (by omega) pa flags found ?_
    rw [offset]
    omega
  · intro _ i i_lt pa' flags' found
    obtain ⟨found', offset⟩ := here i i_lt
    cases found.symm.trans found'
    rw [offset, ByteBlock.copyRange, if_pos (by omega)]
    congr 1
    omega

/-! ## `loadseg` -/

/-- The pages of a range are pages of the user, in the memory of the machine. -/
def UserRange (memory : Vm.Memory) (root va len : Nat) : Prop :=
  ∀ i < len, va + i < maxva ∧ ∃ pa flags, lookup memory root (va + i) = some (pa, flags) ∧
    flags &&& pteU ≠ 0 ∧ kernbase ≤ pa ∧ pa < phystop

/-- What `loadseg` leaves: the bytes of the file from `offset` on are at the addresses of the
segment. -/
structure Filled (sb : Fs.Superblock) (k k' : Kernel) (root : Nat) (inum : UInt32)
    (va offset len : Nat) : Prop where
  /-- Only bytes and buffers change. -/
  same : k' = { k with bytes := k'.bytes, volume := k'.volume }
  /-- The files. -/
  files : SameFiles sb k.volume k'.volume
  /-- The bytes. -/
  stored : Stored k.memory root k.bytes k'.bytes
    (fun i => fileByte sb k.volume inum (offset + i)) va len

theorem Filled.refl (mounted : Mounted sb k.volume) {offset : Nat} :
    Filled sb k k root inum va offset 0 :=
  ⟨rfl, SameFiles.refl mounted.wellFormed mounted.idle, Stored.refl⟩

theorem Filled.trans {n m offset : Nat} (first : Filled sb k k₁ root inum va offset n)
    (second : Filled sb k₁ k' root inum (va + n) (offset + n) m) (low : va + n + m ≤ 2 ^ 64) :
    Filled sb k k' root inum va offset (n + m) := by
  have memory : k₁.memory = k.memory := by rw [first.same]
  refine ⟨?_, first.files.trans second.files, first.stored.trans ?_ low⟩
  · calc
      k' = { k₁ with bytes := k'.bytes, volume := k'.volume } := second.same
      _ = { k with bytes := k'.bytes, volume := k'.volume } := by rw [first.same]
  · have stored := second.stored
    rw [memory] at stored
    simp only [first.files.fileByte, Nat.add_assoc] at stored
    exact stored

/-- The call of `readi` in a round of `loadseg`. -/
theorem readi_round {n : UInt32} {pa flags : Nat} (mounted : Mounted sb k.volume)
    (live : k.volume.Live sb inum) (low : va < maxva)
    (present : lookup k.memory root va = some (pa, flags)) (inside : va % pgsize + n.toNat ≤ pgsize)
    (holds : offset.toNat + n.toNat ≤ (k.volume.inodes inum).size.toNat) :
    ∃ mem ip state, Fs.readi sb k.volume.state (k.volume.inodes inum) false
        ⟨k.bytes, fun _ => true, fun _ => true⟩ (pa + va % pgsize) offset n =
          .ok ((n.toNat : Int), mem, ip, state) ∧
      Filled sb k { k with
        bytes := mem.bytes
        volume := ⟨state, Function.update k.volume.inodes inum ip⟩ } root inum va offset.toNat
          n.toNat := by
  have page : pgsize = 4096 := rfl
  have size_lt := (k.volume.inodes inum).size.toNat_lt
  have count : k.volume.readable inum offset n = n.toNat := by
    rw [Fs.Volume.readable]
    omega
  obtain ⟨t, run, idle, disk⟩ := @Fs.Volume.readi_spec sb k.volume inum mounted.wellFormed
    mounted.idle live false ⟨k.bytes, fun _ => true, fun _ => true⟩ (pa + va % pgsize) offset n
    (by omega) (fun impossible => absurd impossible (by decide))
  have answer : Fs.asInt (UInt32.ofNat (k.volume.readable inum offset n)) = n.toNat := by
    rw [count, Fs.asInt, UInt32.toNat_ofNat', Nat.mod_eq_of_lt (by omega), if_pos (by omega)]
  rw [answer, count] at run
  refine ⟨_, _, t, run, rfl, ?_, ?_⟩
  · rw [Function.update_eq_self]
    exact SameFiles.recache mounted.wellFormed idle disk
  · have store : Stored k.memory root k.bytes (ByteBlock.copyRange k.bytes (pa + va % pgsize)
        (fun i => fileByte sb k.volume inum (offset.toNat + i)) 0 n.toNat)
        (fun i => fileByte sb k.volume inum (offset.toNat + i)) va n.toNat :=
      Stored.page low present inside
    have same : ByteBlock.copyRange k.bytes (pa + va % pgsize)
        (fun i => fileByte sb k.volume inum (offset.toNat + i)) 0 n.toNat =
        ByteBlock.copyRange k.bytes (pa + va % pgsize)
          (fun i => k.volume.byte sb inum (offset.toNat + i)) 0 n.toNat := by
      apply ByteBlock.copyRange_congr
      intro i i_lt
      exact fileByte_inside (by omega)
    rw [same] at store
    exact store

theorem UserRange.drop {n m : Nat} (range : UserRange memory root va (n + m)) :
    UserRange memory root (va + n) m := by
  intro i i_lt
  rw [Nat.add_assoc]
  exact range (n + i) (by omega)

/-- A round of `loadseg` that stores `n` bytes. -/
theorem loadsegLoop_round (fuel : Nat) (offset : UInt32) {addr n : Nat} {i sz count sz' : UInt32}
    (mounted : Mounted sb k.volume) (live : k.volume.Live sb inum)
    (range : UserRange k.memory root va n) (more : i < sz)
    (round : ∀ pa, loadsegRound pa addr i sz = (count, pa + va % pgsize, sz'))
    (count_eq : count.toNat = n) (some : 0 < n) (inside : va % pgsize + n ≤ pgsize)
    (holds : offset.toNat + n ≤ (k.volume.inodes inum).size.toNat) :
    ∃ k₁, loadsegLoop sb root inum (fuel + 1) k va addr i sz offset =
        loadsegLoop sb root inum fuel k₁ (va + n) 0 (i + UInt32.ofNat pgsize) sz' (offset + count) ∧
      Filled sb k k₁ root inum va offset.toNat n := by
  have bound : maxva = 2 ^ 38 := by decide
  have page : pgsize = 4096 := rfl
  obtain ⟨low, pa, flags, present, user, lower, -⟩ := range 0 some
  rw [Nat.add_zero] at low present
  have nonzero : pa ≠ 0 := by
    rw [show kernbase = 0x80200000 from rfl] at lower
    omega
  subst count_eq
  obtain ⟨mem, ip, state, run, filled⟩ := readi_round mounted live low present inside holds
  have no_wrap : (va + count.toNat) % 2 ^ 64 = va + count.toNat := Nat.mod_eq_of_lt (by omega)
  have answer : UInt32.ofInt (count.toNat : Int) = count := by
    rw [ofInt_natCast, UInt32.ofNat_toNat]
  refine ⟨_, ?_, filled⟩
  rw [loadsegLoop, if_pos more, walkaddr_user low present user]
  dsimp only
  rw [if_neg nonzero, round]
  dsimp only
  rw [run, Except.ok_bind]
  dsimp only
  rw [answer, if_neg (not_not.mpr rfl), no_wrap]

/-- The loop of `loadseg` from the start of a page on. -/
theorem loadsegLoop_spec {i sz : UInt32} (mounted : Mounted sb k.volume)
    (live : k.volume.Live sb inum) (range : UserRange k.memory root va len)
    (aligned : len = 0 ∨ pgsize ∣ va) (more : 0 < len → sz.toNat = i.toNat + len)
    (ended : len = 0 → sz ≤ i) (small : sz.toNat + pgsize ≤ 2 ^ 32) (i_page : pgsize ∣ i.toNat)
    (holds : offset.toNat + len ≤ (k.volume.inodes inum).size.toNat)
    (enough : pageCount len < fuel) :
    ∃ k', loadsegLoop sb root inum fuel k va 0 i sz offset = .ok (0, k') ∧
      Filled sb k k' root inum va offset.toNat len := by
  have page : pgsize = 4096 := rfl
  have bound : maxva = 2 ^ 38 := by decide
  induction fuel generalizing k va len i offset with
  | zero => exact absurd enough (Nat.not_lt_zero _)
  | succ fuel ih =>
      rcases Nat.eq_zero_or_pos len with rfl | some
      · refine ⟨k, ?_, Filled.refl mounted⟩
        rw [loadsegLoop, if_neg (UInt32.not_lt.mpr (ended rfl))]
      · have va_page := aligned.resolve_left some.ne'
        have start : va % pgsize = 0 := Nat.mod_eq_zero_of_dvd va_page
        have sz_eq := more some
        have size_lt := (k.volume.inodes inum).size.toNat_lt
        have i_lt : i < sz := by
          rw [UInt32.lt_iff_toNat_lt]
          omega
        have rest_eq : (sz - i).toNat = len := by
          rw [UInt32.toNat_sub_of_le _ _ (UInt32.le_iff_toNat_le.mpr (by omega))]
          omega
        have next_i : (i + UInt32.ofNat pgsize).toNat = i.toNat + pgsize := by
          rw [UInt32.toNat_add, show (UInt32.ofNat pgsize).toNat = pgsize from rfl]
          exact Nat.mod_eq_of_lt (by rw [page] at i_page small ⊢; omega)
        have next_page : pgsize ∣ (i + UInt32.ofNat pgsize).toNat := by
          rw [next_i]
          exact i_page.add (dvd_refl pgsize)
        rcases Nat.lt_or_ge len pgsize with last | whole
        · have round (pa : Nat) : loadsegRound pa 0 i sz = (sz - i, pa + va % pgsize, sz) := by
            rw [loadsegRound, if_neg (Nat.lt_irrefl 0), if_pos (by rw [rest_eq]; exact last), start,
              Nat.add_zero]
          obtain ⟨k₁, run, filled⟩ := loadsegLoop_round fuel offset mounted live range i_lt round
            rest_eq some (by omega) holds
          refine ⟨k₁, ?_, filled⟩
          obtain ⟨fuel', rfl⟩ : ∃ fuel', fuel = fuel' + 1 := by
            refine Nat.exists_eq_succ_of_ne_zero ?_
            rw [pageCount, page] at enough
            omega
          rw [run, loadsegLoop, if_neg]
          rw [UInt32.lt_iff_toNat_lt, next_i]
          omega
        · have round (pa : Nat) : loadsegRound pa 0 i sz =
              (UInt32.ofNat pgsize, pa + va % pgsize, sz) := by
            rw [loadsegRound, if_neg (Nat.lt_irrefl 0), if_neg (by rw [rest_eq]; omega), start,
              Nat.add_zero]
          have split_eq : len = pgsize + (len - pgsize) := by omega
          have first_range : UserRange k.memory root va pgsize := fun i i_lt => range i (by omega)
          obtain ⟨k₁, run, filled⟩ := loadsegLoop_round fuel offset mounted live
            first_range i_lt round rfl (by omega) (by omega) (by omega)
          have offset_eq : (offset + UInt32.ofNat pgsize).toNat = offset.toNat + pgsize := by
            rw [UInt32.toNat_add, show (UInt32.ofNat pgsize).toNat = pgsize from rfl]
            exact Nat.mod_eq_of_lt (by omega)
          have memory : k₁.memory = k.memory := by rw [filled.same]
          have rest_range : UserRange k₁.memory root (va + pgsize) (len - pgsize) := by
            rw [memory]
            rw [split_eq] at range
            exact range.drop
          obtain ⟨k', run', filled'⟩ := @ih k₁ (va + pgsize) (len - pgsize) (offset +
              UInt32.ofNat pgsize) (i + UInt32.ofNat pgsize) filled.files.mounted
                ((filled.files.live inum).mpr live) rest_range
            (Or.inr (va_page.add (dvd_refl pgsize))) (fun _ => by rw [next_i]; omega)
            (fun none => by rw [UInt32.le_iff_toNat_le, next_i]; omega) next_page
            (by rw [offset_eq, filled.files.size]; omega)
            (by rw [pageCount, page] at enough ⊢; omega)
          rw [offset_eq] at filled'
          have top := (range (len - 1) (by omega)).1
          refine ⟨k', run.trans run', ?_⟩
          rw [split_eq]
          exact filled.trans filled' (by omega)

/-- `loadseg` of a segment that ends below 4 GiB from the start of its first page. -/
theorem loadseg_spec (offset sz : UInt32) (mounted : Mounted sb k.volume)
    (live : k.volume.Live sb inum) (range : UserRange k.memory root va sz.toNat)
    (small : va % pgsize + sz.toNat + pgsize ≤ 2 ^ 32)
    (holds : offset.toNat + sz.toNat ≤ (k.volume.inodes inum).size.toNat) :
    ∃ k', loadseg sb k root va inum offset sz = .ok (0, k') ∧
      Filled sb k k' root inum va offset.toNat sz.toNat := by
  have page : pgsize = 4096 := rfl
  have bound : maxva = 2 ^ 38 := by decide
  have size_lt := (k.volume.inodes inum).size.toNat_lt
  have page_word : (UInt32.ofNat pgsize).toNat = pgsize := rfl
  rw [loadseg]
  rcases Nat.eq_zero_or_pos (va % pgsize) with start | unaligned
  · rw [start]
    refine loadsegLoop_spec mounted live range (Or.inr (Nat.dvd_of_mod_eq_zero start))
      (fun _ => (Nat.zero_add _).symm) (fun none => ?_) (by omega) (dvd_zero pgsize) holds ?_
    · rw [UInt32.le_iff_toNat_le, none]
      exact Nat.zero_le _
    · rw [pageCount, page]
      omega
  · rcases Nat.eq_zero_or_pos sz.toNat with none | some
    · rw [none]
      refine ⟨k, ?_, Filled.refl mounted⟩
      rw [loadsegLoop, if_neg]
      rw [UInt32.lt_iff_toNat_lt, none]
      exact Nat.not_lt_zero _
    · have offset_lt : va % pgsize < pgsize := Nat.mod_lt va (by decide)
      -- The first round: up to the end of the page, or the whole segment.
      obtain ⟨count, count_eq, count_le, first_inside, rounds⟩ : ∃ count : UInt32,
          0 < count.toNat ∧ count.toNat ≤ sz.toNat ∧ va % pgsize + count.toNat ≤ pgsize ∧
          (count.toNat < sz.toNat → va % pgsize + count.toNat = pgsize) ∧
          ∀ pa, loadsegRound pa (va % pgsize) 0 sz =
            (count, pa + va % pgsize, sz + UInt32.ofNat pgsize - count) := by
        rcases Nat.lt_or_ge sz.toNat (pgsize - va % pgsize) with short | long
        · refine ⟨sz, some, le_rfl, by omega, fun impossible => absurd impossible (lt_irrefl _),
            fun pa => ?_⟩
          rw [loadsegRound, if_pos unaligned, if_pos short]
        · have word : (UInt32.ofNat (pgsize - va % pgsize)).toNat = pgsize - va % pgsize := by
            rw [UInt32.toNat_ofNat', Nat.mod_eq_of_lt (by omega)]
          refine ⟨UInt32.ofNat (pgsize - va % pgsize),
            by omega, by omega, by omega, fun _ => by omega, fun pa => ?_⟩
          rw [loadsegRound, if_pos unaligned, if_neg (Nat.not_lt.mpr long)]
      obtain ⟨to_end, round⟩ := rounds
      have more : (0 : UInt32) < sz := by
        rw [UInt32.lt_iff_toNat_lt]
        exact some
      have split_eq : sz.toNat = count.toNat + (sz.toNat - count.toNat) := by omega
      have first_range : UserRange k.memory root va count.toNat := fun i i_lt => range i (by omega)
      obtain ⟨k₁, run, filled⟩ := loadsegLoop_round (sz.toNat / pgsize + 2) offset
        mounted live first_range more round rfl count_eq first_inside (by omega)
      have memory : k₁.memory = k.memory := by rw [filled.same]
      have rest_range : UserRange k₁.memory root (va + count.toNat) (sz.toNat - count.toNat) := by
        rw [memory]
        rw [split_eq] at range
        exact range.drop
      have sz_word : (sz + UInt32.ofNat pgsize - count).toNat =
          pgsize + (sz.toNat - count.toNat) := by
        have sum : (sz + UInt32.ofNat pgsize).toNat = sz.toNat + pgsize := by
          rw [UInt32.toNat_add, page_word, Nat.mod_eq_of_lt (by omega)]
        rw [UInt32.toNat_sub_of_le _ _ (UInt32.le_iff_toNat_le.mpr (by omega)), sum]
        omega
      have offset_eq : (offset + count).toNat = offset.toNat + count.toNat := by
        rw [UInt32.toNat_add, Nat.mod_eq_of_lt (by omega)]
      have next_i : ((0 : UInt32) + UInt32.ofNat pgsize).toNat = pgsize := rfl
      have aligned : sz.toNat - count.toNat = 0 ∨ pgsize ∣ va + count.toNat := by
        rcases count_le.lt_or_eq with before_end | whole
        · have at_end := to_end before_end
          refine Or.inr ?_
          rw [page] at at_end ⊢
          omega
        · exact Or.inl (by omega)
      have fits : (sz + UInt32.ofNat pgsize - count).toNat + pgsize ≤ 2 ^ 32 := by
        rw [sz_word]
        rcases count_le.lt_or_eq with before_end | whole
        · have at_end := to_end before_end
          omega
        · omega
      have ended (none : sz.toNat - count.toNat = 0) :
          sz + UInt32.ofNat pgsize - count ≤ 0 + UInt32.ofNat pgsize := by
        rw [UInt32.le_iff_toNat_le, sz_word, next_i, none, Nat.add_zero]
      have holds' : (offset + count).toNat + (sz.toNat - count.toNat) ≤
          (k₁.volume.inodes inum).size.toNat := by
        rw [offset_eq, filled.files.size]
        omega
      have enough : pageCount (sz.toNat - count.toNat) < sz.toNat / pgsize + 2 := by
        rw [pageCount, page]
        omega
      obtain ⟨k', run', filled'⟩ := loadsegLoop_spec (i := 0 + UInt32.ofNat pgsize)
        filled.files.mounted ((filled.files.live inum).mpr live) rest_range aligned
        (fun _ => sz_word.trans (by rw [next_i])) ended fits (dvd_refl pgsize) holds' enough
      rw [offset_eq] at filled'
      have top := (range (sz.toNat - 1) (by omega)).1
      refine ⟨k', run.trans run', ?_⟩
      rw [split_eq]
      exact filled.trans filled' (by omega)

/-- The pages of a range on distinct frames are fewer than the pages of the machine. -/
theorem range_in_ram (range : UserRange memory root va len)
    (distinct : Distinct memory root va len) :
    va % pgsize + len ≤ phystop := by
  have bound : maxva = 2 ^ 38 := by decide
  have page : pgsize = 4096 := rfl
  have ram : phystop = 589312 * pgsize := by decide
  rcases Nat.eq_zero_or_pos len with rfl | some
  · have offset_lt : va % pgsize < pgsize := Nat.mod_lt va (by decide)
    omega
  · -- Each page of the range is named by its first address in the range.
    let address (p : Nat) : Nat := Nat.max va (p * pgsize)
    have top := (range (len - 1) (by omega)).1
    have in_range (p : Nat) (inside : p ∈ Finset.Ico (va / pgsize) ((va + len - 1) / pgsize + 1)) :
        va ≤ address p ∧ address p < va + len ∧ pgrounddown (address p) = p * pgsize := by
      obtain ⟨lower, upper⟩ := Finset.mem_Ico.mp inside
      have upper_bound : Nat.max va (p * pgsize) < va + len := by
        rw [page] at *
        rcases Nat.le_total va (p * 4096) with later | earlier
        · rw [show Nat.max va (p * 4096) = p * 4096 from max_eq_right later]
          omega
        · rw [show Nat.max va (p * 4096) = va from max_eq_left earlier]
          omega
      refine ⟨Nat.le_max_left .., upper_bound, ?_⟩
      change pgrounddown (Nat.max va (p * pgsize)) = _
      rw [pgrounddown_eq (by omega)]
      rw [page] at *
      rcases Nat.le_total va (p * 4096) with later | earlier
      · rw [show Nat.max va (p * 4096) = p * 4096 from max_eq_right later]
        omega
      · rw [show Nat.max va (p * 4096) = va from max_eq_left earlier]
        omega
    have found (p : Nat) (inside : p ∈ Finset.Ico (va / pgsize) ((va + len - 1) / pgsize + 1)) :
        ∃ pa flags, lookup memory root (address p) = Option.some (pa, flags) ∧
          walkaddr memory root (address p) = pa ∧ pa < phystop := by
      obtain ⟨lower, upper, -⟩ := in_range p inside
      obtain ⟨low, pa, flags, present, user, -, in_memory⟩ := range (address p - va) (by omega)
      rw [Nat.add_sub_cancel' lower] at low present
      exact ⟨pa, flags, present, walkaddr_user low present user, in_memory⟩
    have few : (Finset.Ico (va / pgsize) ((va + len - 1) / pgsize + 1)).card ≤
        (Finset.range 589312).card := by
      apply Finset.card_le_card_of_injOn fun p => walkaddr memory root (address p) / pgsize
      · intro p inside
        obtain ⟨pa, flags, -, frame, in_memory⟩ := found p inside
        rw [Finset.mem_coe, Finset.mem_range]
        dsimp only
        rw [frame]
        rw [ram] at in_memory
        exact Nat.div_lt_of_lt_mul (by rwa [Nat.mul_comm])
      · intro p p_inside q q_inside same
        obtain ⟨pa, flags_p, at_p, frame_p, -⟩ := found p p_inside
        obtain ⟨qa, flags_q, at_q, frame_q, -⟩ := found q q_inside
        obtain ⟨p_lower, p_upper, p_page⟩ := in_range p p_inside
        obtain ⟨q_lower, q_upper, q_page⟩ := in_range q q_inside
        dsimp only at same
        rw [frame_p, frame_q] at same
        have frames : pa = qa := by
          rw [← Nat.div_mul_cancel (lookup_isFrame at_p).1.1,
            ← Nat.div_mul_cancel (lookup_isFrame at_q).1.1, same]
        subst frames
        have pages := distinct (address p) (address q) p_lower p_upper q_lower q_upper pa flags_p
          flags_q at_p at_q
        rw [p_page, q_page] at pages
        exact Nat.eq_of_mul_eq_mul_right (by decide) pages
    rw [Nat.card_Ico, Finset.card_range] at few
    rw [ram]
    rw [page] at few ⊢
    omega

/-! ## `uvmalloc` -/

/-- Zero pages have been mapped from `base` on, each on a frame of its own. -/
structure Allotted (sb : Fs.Superblock) (k k₁ : Kernel) (root base n : Nat) (tables₁ : List Nat)
    (flags : Nat) : Prop where
  /-- The pages. -/
  loaded : Loaded sb k k₁ root base n tables₁ flags fun _ _ => 0
  /-- Their frames are distinct. -/
  distinct : ∀ i < n, ∀ j < n, ∀ pa f f', lookup k₁.memory root (base + i * pgsize) = some (pa, f) →
    lookup k₁.memory root (base + j * pgsize) = some (pa, f') → i = j
  /-- Their frames are pages of `kalloc`. -/
  origin : ∀ i < n, ∀ pa f, lookup k₁.memory root (base + i * pgsize) = some (pa, f) → pa ∈ k.pages

theorem Allotted.start {base flags : Nat} (mounted : Mounted sb k.volume)
    (sound : Mapping.Sound k root tables) : Allotted sb k k root base 0 tables flags where
  loaded := Loaded.start mounted sound
  distinct i impossible := absurd impossible (Nat.not_lt_zero i)
  origin i impossible := absurd impossible (Nat.not_lt_zero i)

/-- One more page. -/
theorem Allotted.step {base n flags : Nat} {tables₁ tables' : List Nat}
    (allotted : Allotted sb k k₁ root base n tables₁ flags) (base_page : pgsize ∣ base)
    (below : base + (n + 1) * pgsize ≤ maxva)
    (page : PageMapped k₁ k' root (base + n * pgsize) tables' flags fun _ => 0)
    (loads : Loads sb k₁ k') : Allotted sb k k' root base (n + 1) tables' flags := by
  obtain ⟨new, new_page, at_new, -⟩ := page.mapped
  have earlier (i : Nat) (i_lt : i < n) :
      lookup k'.memory root (base + i * pgsize) = lookup k₁.memory root (base + i * pgsize) := by
    refine page.others _ (dvd_page base_page i) ?_ ?_
    · rw [show pgsize = 4096 from rfl] at below ⊢
      omega
    · rw [show pgsize = 4096 from rfl]
      omega
  have other (i : Nat) (i_lt : i < n) (f : Nat) :
      lookup k'.memory root (base + i * pgsize) ≠ some (new, f) := by
    rw [earlier i i_lt]
    intro found
    refine allotted.loaded.sound.fresh _ new f (dvd_page base_page i) ?_ found new_page
    rw [show pgsize = 4096 from rfl] at below ⊢
    omega
  refine ⟨allotted.loaded.step base_page below page loads, ?_, ?_⟩
  · intro i i_lt j j_lt pa f f' at_i at_j
    rcases Nat.lt_succ_iff_lt_or_eq.mp i_lt with i_old | rfl
    · rcases Nat.lt_succ_iff_lt_or_eq.mp j_lt with j_old | rfl
      · rw [earlier i i_old] at at_i
        rw [earlier j j_old] at at_j
        exact allotted.distinct i i_old j j_old pa f f' at_i at_j
      · cases at_new.symm.trans at_j
        exact absurd at_i (other i i_old f)
    · rcases Nat.lt_succ_iff_lt_or_eq.mp j_lt with j_old | same
      · cases at_new.symm.trans at_i
        exact absurd at_j (other j j_old f')
      · exact same.symm
  · intro i i_lt pa f found
    rcases Nat.lt_succ_iff_lt_or_eq.mp i_lt with i_old | rfl
    · rw [earlier i i_old] at found
      exact allotted.origin i i_old pa f found
    · cases at_new.symm.trans found
      exact allotted.loaded.loads.suffix.subset new_page

/-- The loop of `uvmalloc` maps the pages, or `kalloc` has none. -/
theorem uvmallocLoop_allots {base n count newsz xperm : Nat} {tables₁ : List Nat}
    (is_perm : IsFlags (pteRo ||| pteU ||| xperm)) (base_page : pgsize ∣ base)
    (last : ∀ i, base + i * pgsize < newsz ↔ i < count) (below : base + count * pgsize ≤ maxva)
    (clear : ∀ i < count, lookup k.memory root (base + i * pgsize) = none) (n_le : n ≤ count)
    (allotted : Allotted sb k k₁ root base n tables₁ (mappedFlags (pteRo ||| pteU ||| xperm)))
    (enough : k₁.pages.length < fuel) :
    uvmallocLoop root base newsz xperm fuel k₁ (base + n * pgsize) = .error .outOfMemory ∨
      ∃ k' tables', uvmallocLoop root base newsz xperm fuel k₁ (base + n * pgsize) =
        .ok (newsz, k') ∧
        Allotted sb k k' root base count tables' (mappedFlags (pteRo ||| pteU ||| xperm)) := by
  have page : pgsize = 4096 := rfl
  have page_pos : 0 < pgsize := by decide
  have address_space : maxva < 2 ^ 64 := by decide
  induction fuel generalizing k₁ tables₁ n with
  | zero => exact absurd enough (Nat.not_lt_zero _)
  | succ fuel ih =>
      unfold uvmallocLoop
      split
      · next more =>
          have n_lt : n < count := (last n).mp more
          have next_below : base + (n + 1) * pgsize ≤ maxva :=
            (Nat.add_le_add_left (Nat.mul_le_mul_right pgsize n_lt) base).trans below
          have next_eq : base + n * pgsize + pgsize = base + (n + 1) * pgsize := by
            rw [Nat.succ_mul, Nat.add_assoc]
          have here_low : base + n * pgsize < maxva :=
            (Nat.lt_add_of_pos_right page_pos).trans_le (next_eq.le.trans next_below)
          have no_wrap : (base + n * pgsize + pgsize) % 2 ^ 64 = base + (n + 1) * pgsize := by
            rw [next_eq]
            exact Nat.mod_eq_of_lt (next_below.trans_lt address_space)
          cases pages_eq : k₁.pages with
          | nil =>
              have empty : k₁.kalloc = .error .outOfMemory := by simp only [Kernel.kalloc, pages_eq]
              rw [empty]
              exact Or.inl rfl
          | cons mem rest =>
              have taken : k₁.kalloc = .ok (mem, { k₁ with
                  pages := rest
                  refcnt := Function.update k₁.refcnt mem 1 }) := by
                simp only [Kernel.kalloc, pages_eq]
              rw [taken, Except.ok_bind]
              simp only [Kernel.clearPage]
              have filled : ∀ j < pgsize,
                  ByteBlock.copyRange k₁.bytes mem ByteBlock.zeros 0 pgsize (mem + j) = 0 := by
                intro j j_lt
                rw [ByteBlock.copyRange, if_pos (by omega)]
                rfl
              have frame : ∀ a, ¬(mem ≤ a ∧ a < mem + pgsize) →
                  ByteBlock.copyRange k₁.bytes mem ByteBlock.zeros 0 pgsize a = k₁.bytes a :=
                fun a outside => if_neg outside
              have mem_page : mem ∈ k₁.pages := by
                rw [pages_eq]
                exact List.mem_cons_self
              rcases map_fresh (l := { k₁ with
                pages := rest
                refcnt := Function.update k₁.refcnt mem 1
                bytes := ByteBlock.copyRange k₁.bytes mem ByteBlock.zeros 0 pgsize })
                allotted.loaded.sound pages_eq rfl rfl filled frame (dvd_page base_page n) here_low
                (by decide) (Nat.le_refl pgsize) is_perm with ⟨-, run⟩ | ⟨mapped, -⟩ |
                  ⟨after, left, tables', run, -, new⟩
              · rw [run]
                exact Or.inl rfl
              · refine absurd ?_ mapped
                rw [allotted.loaded.others _ (dvd_page base_page n) here_low (by omega)]
                exact clear n n_lt
              · rw [run, Except.ok_bind, no_wrap]
                have loads : Loads sb k₁ { k₁ with
                    pages := left
                    refcnt := Function.update k₁.refcnt mem 1
                    bytes := ByteBlock.copyRange k₁.bytes mem ByteBlock.zeros 0 pgsize
                    memory := after } := by
                  refine ⟨?_, fun _ => rfl, new.suffix, ?_⟩
                  · exact SameFiles.refl allotted.loaded.loads.volume.wellFormed
                      allotted.loaded.loads.volume.idle
                  · intro a outside
                    exact frame a (outside mem mem_page)
                have shorter : left.length < k₁.pages.length := new.shorter
                exact ih n_lt (allotted.step base_page next_below new loads) (by
                  change left.length < fuel
                  omega)
      · next over_end =>
          have n_eq : n = count := by
            have upper := mt (last n).mpr over_end
            omega
          rw [← n_eq]
          exact Or.inr ⟨k₁, tables₁, rfl, allotted⟩

/-- `uvmalloc` maps zero pages, or `kalloc` has none. -/
theorem uvmalloc_allots {oldsz newsz xperm : Nat} (mounted : Mounted sb k.volume)
    (sound : Mapping.Sound k root tables) (is_perm : IsFlags (pteRo ||| pteU ||| xperm))
    (larger : oldsz ≤ newsz) (low : newsz ≤ maxva)
    (clear : ∀ a, pgsize ∣ a → extent oldsz ≤ a → a < newsz → lookup k.memory root a = none) :
    uvmalloc k root oldsz newsz xperm = .error .outOfMemory ∨
      ∃ k' tables', uvmalloc k root oldsz newsz xperm = .ok (newsz, k') ∧
        Allotted sb k k' root (extent oldsz) (newPages oldsz newsz) tables'
          (mappedFlags (pteRo ||| pteU ||| xperm)) := by
  have bound : maxva = 2 ^ 38 := by decide
  have page : pgsize = 4096 := rfl
  have last (i : Nat) : extent oldsz + i * pgsize < newsz ↔ i < newPages oldsz newsz := by
    rw [newPages, extent, extent, page]
    omega
  have below : extent oldsz + newPages oldsz newsz * pgsize ≤ maxva := by
    rw [newPages, extent, extent, page]
    omega
  rw [uvmalloc, if_neg (Nat.not_lt.mpr larger), pgroundup_eq_extent (larger.trans low)]
  have loop := uvmallocLoop_allots (n := 0) is_perm (Nat.dvd_mul_left pgsize _) last below
    (fun i i_lt => clear _ (dvd_page (Nat.dvd_mul_left pgsize _) i) (Nat.le_add_right _ _)
      ((last i).mpr i_lt))
    (Nat.zero_le _) (Allotted.start mounted sound) (Nat.lt_succ_self _)
  rw [Nat.zero_mul, Nat.add_zero] at loop
  exact loop

/-! ## The segments of a program -/

theorem flags2perm_isFlags (flags : Nat) : IsFlags (pteRo ||| pteU ||| flags2perm flags) := by
  unfold flags2perm
  split <;> split <;> split <;> decide

theorem flags2perm_user (flags : Nat) :
    mappedFlags (pteRo ||| pteU ||| flags2perm flags) &&& pteU ≠ 0 := by
  refine and_bit.mpr ?_
  rw [mappedFlags_testBit _ (by decide), Nat.testBit_or, Nat.testBit_or,
    show pteU.testBit 4 = true by decide, Bool.or_true, Bool.true_or]

/-- A segment is in memory: the bytes of the file, and zeros behind them. -/
def Placed (sb : Fs.Superblock) (v : Fs.Volume) (k : Kernel) (root : Nat) (inum : UInt32)
    (ph : Proghdr) : Prop :=
  ∀ i < ph.memsz, ph.vaddr + i < maxva ∧ ∃ pa flags,
    lookup k.memory root (ph.vaddr + i) = some (pa, flags) ∧ flags &&& pteU ≠ 0 ∧
    k.bytes (pa + (ph.vaddr + i) % pgsize) =
      if i < ph.filesz then fileByte sb v inum (ph.off + i) else 0

/-- The pages that are mapped keep their frames and their bytes. -/
def PagesKept (k k' : Kernel) (root : Nat) : Prop :=
  ∀ va pa flags, pgsize ∣ va → va < maxva → lookup k.memory root va = some (pa, flags) →
    lookup k'.memory root va = some (pa, flags) ∧ ∀ j < pgsize, k'.bytes (pa + j) = k.bytes (pa + j)

theorem Placed.kept {v : Fs.Volume} {ph : Proghdr} (placed : Placed sb v k root inum ph)
    (kept : PagesKept k k' root) : Placed sb v k' root inum ph := by
  intro i i_lt
  obtain ⟨low, pa, flags, present, user, byte⟩ := placed i i_lt
  have fits : ph.vaddr + i < 2 ^ 64 := low.trans (by decide)
  have at_page := present
  rw [← lookup_pgrounddown fits] at at_page
  obtain ⟨present', bytes⟩ := kept _ pa flags (pgrounddown_page fits) (pgrounddown_low low) at_page
  rw [lookup_pgrounddown fits] at present'
  refine ⟨low, pa, flags, present', user, ?_⟩
  rw [bytes _ (Nat.mod_lt _ (by decide)), byte]

/-- The contents of the files decide what is in memory. -/
theorem Placed.of_files {v v' : Fs.Volume} {ph : Proghdr} (placed : Placed sb v' k root inum ph)
    (files : SameFiles sb v v') : Placed sb v k root inum ph := by
  intro i i_lt
  obtain ⟨low, pa, flags, present, user, byte⟩ := placed i i_lt
  rw [files.fileByte] at byte
  exact ⟨low, pa, flags, present, user, byte⟩

/-- The header of a segment of the file that ends below `limit`. -/
structure Loadable (size : UInt32) (limit : Nat) (ph : Proghdr) : Prop where
  /-- The segment is not shorter than its part of the file. -/
  fits : ph.filesz ≤ ph.memsz
  /-- Its addresses. -/
  below : ph.vaddr + ph.memsz ≤ limit
  /-- The file holds its bytes. -/
  holds : ph.off + ph.filesz ≤ size.toNat

/-- What the loop over the headers works on: pages from `base` up to `limit` are not mapped. -/
structure Loading (sb : Fs.Superblock) (k : Kernel) (root : Nat) (inum : UInt32) (tables : List Nat)
    (base limit : Nat) : Prop where
  /-- The files can be used. -/
  mounted : Mounted sb k.volume
  /-- The program is one of them. -/
  live : k.volume.Live sb inum
  /-- The page table. -/
  sound : Mapping.Sound k root tables
  /-- `kalloc` hands out pages of the machine. -/
  ram : ∀ page ∈ k.pages, kernbase ≤ page ∧ page < phystop
  /-- The addresses are user addresses. -/
  low : limit ≤ maxva
  /-- There are no pages above the segments. -/
  clear : ∀ va, pgsize ∣ va → base ≤ va → va < limit → lookup k.memory root va = none

section

variable {base n limit flags : Nat} {tables₁ : List Nat} {ph : Proghdr} {size : UInt32}

/-- The pages that `uvmalloc` has mapped are those of the segment. -/
def Covers (base n : Nat) (ph : Proghdr) : Prop :=
  pgsize ∣ base ∧ base ≤ ph.vaddr / pgsize * pgsize ∧ ph.vaddr + ph.memsz ≤ base + n * pgsize ∧
    base + n * pgsize ≤ maxva

/-- The page of an address of the segment. -/
theorem Covers.page {i : Nat} (covers : Covers base n ph) (i_lt : i < ph.memsz) :
    ph.vaddr + i < maxva ∧ ∃ q < n, pgrounddown (ph.vaddr + i) = base + q * pgsize := by
  obtain ⟨base_page, lower, upper, top⟩ := covers
  have low : ph.vaddr + i < maxva := by omega
  have fits : ph.vaddr + i < 2 ^ 64 := low.trans (by decide)
  have around := pgrounddown_lt fits
  refine ⟨low, page_in_range base_page (pgrounddown_page fits) ?_ (by omega)⟩
  rw [pgrounddown_eq fits]
  exact lower.trans (Nat.mul_le_mul_right pgsize (Nat.div_le_div_right (Nat.le_add_right _ _)))

/-- An address of the segment after `uvmalloc`. -/
theorem Allotted.at_address {i : Nat} (allotted : Allotted sb k k₁ root base n tables₁ flags)
    (covers : Covers base n ph) (i_lt : i < ph.memsz) : ∃ pa,
      lookup k₁.memory root (ph.vaddr + i) = some (pa, flags) ∧ pa ∈ k.pages ∧
      k₁.bytes (pa + (ph.vaddr + i) % pgsize) = 0 := by
  obtain ⟨low, q, q_lt, page_eq⟩ := covers.page i_lt
  obtain ⟨pa, present, zero⟩ := allotted.loaded.mapped q q_lt
  refine ⟨pa, ?_, allotted.origin q q_lt pa flags present, zero _ (Nat.mod_lt _ (by decide))⟩
  rw [← lookup_pgrounddown (low.trans (by decide)), page_eq, present]

/-- The pages of the segment are on distinct frames. -/
theorem Allotted.distinct_range (allotted : Allotted sb k k₁ root base n tables₁ flags)
    (covers : Covers base n ph) : Distinct k₁.memory root ph.vaddr ph.memsz := by
  intro a b a_lower a_upper b_lower b_upper pa f f' at_a at_b
  obtain ⟨a_low, p, p_lt, a_page⟩ := covers.page (i := a - ph.vaddr) (by omega)
  obtain ⟨b_low, q, q_lt, b_page⟩ := covers.page (i := b - ph.vaddr) (by omega)
  rw [Nat.add_sub_cancel' a_lower] at a_low a_page
  rw [Nat.add_sub_cancel' b_lower] at b_low b_page
  rw [← lookup_pgrounddown (a_low.trans (by decide)), a_page] at at_a
  rw [← lookup_pgrounddown (b_low.trans (by decide)), b_page] at at_b
  rw [a_page, b_page, allotted.distinct p p_lt q q_lt pa f f' at_a at_b]

/-- The pages of the segment belong to the machine. -/
theorem Allotted.userRange (allotted : Allotted sb k k₁ root base n tables₁ flags)
    (covers : Covers base n ph) (user : flags &&& pteU ≠ 0)
    (ram : ∀ page ∈ k.pages, kernbase ≤ page ∧ page < phystop) :
    UserRange k₁.memory root ph.vaddr ph.memsz := by
  intro i i_lt
  obtain ⟨pa, present, page, -⟩ := allotted.at_address covers i_lt
  exact ⟨(covers.page i_lt).1, pa, flags, present, user, ram pa page⟩

/-- The segment is in memory when its part of the file is. -/
theorem Allotted.placed (allotted : Allotted sb k k₁ root base n tables₁ flags)
    (covers : Covers base n ph) (user : flags &&& pteU ≠ 0) (fits : ph.filesz ≤ ph.memsz)
    (filled : Filled sb k₁ k' root inum ph.vaddr ph.off ph.filesz) :
    Placed sb k.volume k' root inum ph := by
  have bound : maxva = 2 ^ 38 := by decide
  have memory : k'.memory = k₁.memory := by rw [filled.same]
  have distinct := allotted.distinct_range covers
  intro i i_lt
  obtain ⟨low, -⟩ := covers.page i_lt
  obtain ⟨pa, present, -, zero⟩ := allotted.at_address covers i_lt
  refine ⟨low, pa, flags, memory ▸ present, user, ?_⟩
  split
  · next inside =>
      rw [filled.stored.content (fun a b a_lower a_upper b_lower b_upper =>
        distinct a b a_lower (by omega) b_lower (by omega)) i inside pa flags present,
        allotted.loaded.loads.volume.fileByte]
  · next outside =>
      rw [← zero]
      refine filled.stored.frame _ fun b lower upper pb f found => ?_
      have last := (covers.page (i := ph.memsz - 1) (by omega)).1
      exact place_ne distinct (by omega) (Nat.le_add_right _ _) (by omega) lower (by omega)
        (by omega) present found

/-- The pages that were mapped before stay. -/
theorem Allotted.pagesKept (allotted : Allotted sb k k₁ root base n tables₁ flags)
    (covers : Covers base n ph) (sound : Mapping.Sound k root tables) (fits : ph.filesz ≤ ph.memsz)
    (filled : Filled sb k₁ k' root inum ph.vaddr ph.off ph.filesz) : PagesKept k k' root := by
  have memory : k'.memory = k₁.memory := by rw [filled.same]
  intro va pa f va_page low present
  have outside : ¬(base ≤ va ∧ va < base + n * pgsize) := by
    rintro ⟨lower, upper⟩
    obtain ⟨q, q_lt, rfl⟩ := page_in_range covers.1 va_page lower upper
    rw [allotted.loaded.unmapped q q_lt] at present
    cases present
  refine ⟨?_, ?_⟩
  · rw [memory, allotted.loaded.others va va_page low outside, present]
  · intro j j_lt
    rw [← allotted.loaded.loads.kept sound va_page low present j_lt]
    refine filled.stored.frame _ fun b lower upper pb f' found same => ?_
    obtain ⟨pb', found', new, -⟩ := allotted.at_address covers (i := b - ph.vaddr) (by omega)
    rw [Nat.add_sub_cancel' lower, found] at found'
    cases found'
    have differ : pa ≠ pb := by
      rintro rfl
      exact sound.fresh va pa f va_page low present new
    have offset : b % pgsize < pgsize := Nat.mod_lt b (by decide)
    refine page_apart (lookup_isFrame present).1.1 (lookup_isFrame found).1.1 differ j_lt ⟨?_, ?_⟩
    · rw [same]
      exact Nat.le_add_right _ _
    · rw [same]
      exact Nat.add_lt_add_left offset _

end

/-- The loop body of `execve` for a segment above the others. For an empty segment at the address 0,
`uvmalloc` answers with the size 0, which is taken for an error. -/
theorem loadHeader_spec {sz nph base limit : Nat} {ph : Proghdr}
    (loading : Loading sb k root inum tables base limit)
    (ok : Loadable (k.volume.inodes inum).size limit ph)
    (base_eq : base = extent (if nph = 0 then ph.vaddr else sz))
    (first : nph = 0 → pgsize ∣ ph.vaddr) (above : base ≤ ph.vaddr / pgsize * pgsize) :
    loadHeader sb k root inum sz nph ph = .error .outOfMemory ∨
      (ph.vaddr + ph.memsz = 0 ∧
        ∃ sz' k', loadHeader sb k root inum sz nph ph = .ok (-enomem, sz', k')) ∨
      ∃ k' tables', 0 < ph.vaddr + ph.memsz ∧
        loadHeader sb k root inum sz nph ph = .ok (0, ph.vaddr + ph.memsz, k') ∧
        Loading sb k' root inum tables' (extent (ph.vaddr + ph.memsz)) limit ∧
        SameFiles sb k.volume k'.volume ∧ Placed sb k.volume k' root inum ph ∧
        PagesKept k k' root := by
  have bound : maxva = 2 ^ 38 := by decide
  have page : pgsize = 4096 := rfl
  have low := ok.below.trans loading.low
  have size_lt := (k.volume.inodes inum).size.toNat_lt
  have holds := ok.holds
  have start : ph.vaddr / pgsize * pgsize ≤ ph.vaddr := Nat.div_mul_le_self ..
  have no_wrap : (ph.vaddr + ph.memsz) % 2 ^ 64 = ph.vaddr + ph.memsz := Nat.mod_eq_of_lt (by omega)
  have aligned : ¬(nph = 0 ∧ (if nph = 0 then ph.vaddr else sz) % pgsize ≠ 0) := by
    rintro ⟨zero, unaligned⟩
    rw [if_pos zero] at unaligned
    exact unaligned (Nat.mod_eq_zero_of_dvd (first zero))
  rw [loadHeader, if_neg (Nat.not_lt.mpr ok.fits), no_wrap, if_neg (by omega)]
  dsimp only
  rw [if_neg aligned]
  generalize (if nph = 0 then ph.vaddr else sz) = oldsz at base_eq
  have old_le : oldsz ≤ base := by
    rw [base_eq, extent, page]
    omega
  rcases uvmalloc_allots loading.mounted loading.sound (flags2perm_isFlags ph.flags)
    (show oldsz ≤ ph.vaddr + ph.memsz by omega) low (fun a a_page lower upper =>
      loading.clear a a_page (base_eq ▸ lower) (upper.trans_le ok.below)) with
    run | ⟨k₁, tables₁, run, allotted⟩
  · rw [run]
    exact Or.inl rfl
  · rw [run, Except.ok_bind]
    dsimp only
    rcases Nat.eq_zero_or_pos (ph.vaddr + ph.memsz) with none | some
    · exact Or.inr (Or.inl ⟨none, oldsz, k₁, by rw [if_pos none]; rfl⟩)
    · have covered : base + newPages oldsz (ph.vaddr + ph.memsz) * pgsize =
          extent (ph.vaddr + ph.memsz) := by
        rw [base_eq, newPages, extent, extent, page]
        omega
      rw [← base_eq] at allotted
      have covers : Covers base (newPages oldsz (ph.vaddr + ph.memsz)) ph := by
        refine ⟨?_, above, ?_, ?_⟩
        · rw [base_eq]
          exact Nat.dvd_mul_left pgsize _
        · rw [covered, extent, page]
          omega
        · rw [covered, extent, page]
          omega
      have user := flags2perm_user ph.flags
      have range := allotted.userRange covers user loading.ram
      have distinct := allotted.distinct_range covers
      have sizes := allotted.loaded.loads.volume.size inum
      have fits := ok.fits
      have off_word : (UInt32.ofNat ph.off).toNat = ph.off := by
        rw [UInt32.toNat_ofNat', Nat.mod_eq_of_lt (by omega)]
      have filesz_word : (UInt32.ofNat ph.filesz).toNat = ph.filesz := by
        rw [UInt32.toNat_ofNat', Nat.mod_eq_of_lt (by omega)]
      have part : UserRange k₁.memory root ph.vaddr ph.filesz := fun i i_lt => range i (by omega)
      have few := range_in_ram part fun a b a_lower a_upper b_lower b_upper =>
        distinct a b a_lower (by omega) b_lower (by omega)
      have ram : phystop + pgsize ≤ 2 ^ 32 := by decide
      obtain ⟨k', fills, filled⟩ := loadseg_spec (UInt32.ofNat ph.off)
        (UInt32.ofNat ph.filesz) allotted.loaded.loads.volume.mounted
        ((allotted.loaded.loads.volume.live inum).mpr loading.live) (by rwa [filesz_word])
        (by rw [filesz_word]; omega) (by rw [off_word, filesz_word, sizes]; exact holds)
      rw [off_word, filesz_word] at filled
      have memory : k'.memory = k₁.memory := by rw [filled.same]
      have pages : k'.pages = k₁.pages := by rw [filled.same]
      have files := allotted.loaded.loads.volume.trans filled.files
      refine Or.inr
        (Or.inr ⟨k', tables₁, some, ?_, ⟨files.mounted, (files.live inum).mpr loading.live,
        allotted.loaded.sound.congr memory pages, ?_, loading.low, ?_⟩, files,
        allotted.placed covers user fits filled,
        allotted.pagesKept covers loading.sound fits filled⟩)
      · rw [if_neg some.ne', fills]
        rfl
      · intro page_address member
        rw [pages] at member
        exact loading.ram page_address (allotted.loaded.loads.suffix.subset member)
      · intro va va_page lower upper
        rw [memory, allotted.loaded.others va va_page (upper.trans_le loading.low) (by omega)]
        refine loading.clear va va_page ?_ upper
        omega

/-- The segments are in order, and on pages of their own. -/
def Ordered : Nat → List Proghdr → Prop
  | _, [] => True
  | base, ph :: rest =>
      base ≤ ph.vaddr / pgsize * pgsize ∧ Ordered (extent (ph.vaddr + ph.memsz)) rest

/-- The segments behind the first. -/
theorem loadHeaders_rest {sz nph limit : Nat} {phs : List Proghdr}
    (loading : Loading sb k root inum tables (extent sz) limit) (later : nph ≠ 0)
    (some_size : 0 < sz) (ok : ∀ ph ∈ phs, Loadable (k.volume.inodes inum).size limit ph)
    (ordered : Ordered (extent sz) phs) :
    loadHeaders sb root inum phs k sz nph = .error .outOfMemory ∨
      ∃ sz' k', loadHeaders sb root inum phs k sz nph = .ok (0, sz', k') ∧
        (∀ ph ∈ phs, Placed sb k.volume k' root inum ph) ∧ PagesKept k k' root := by
  induction phs generalizing k tables sz nph with
  | nil =>
      refine Or.inr ⟨sz, k, rfl, fun ph impossible => absurd impossible List.not_mem_nil, ?_⟩
      exact fun va pa flags _ _ present => ⟨present, fun _ _ => rfl⟩
  | cons ph phs ih =>
      obtain ⟨above, ordered⟩ := ordered
      rw [loadHeaders]
      rcases @loadHeader_spec _ _ _ _ _ sz nph _ _ _ loading (ok ph List.mem_cons_self)
        (by rw [if_neg later]) (fun zero => absurd zero later) above with
        run | ⟨none, -⟩ | ⟨k₁, tables₁, some_size₁, run, loading₁, files, placed, kept⟩
      · rw [run]
        exact Or.inl rfl
      · have behind := le_extent sz
        have start := Nat.div_mul_le_self ph.vaddr pgsize
        omega
      · rw [run]
        have ok₁ (other : Proghdr) (member : other ∈ phs) :
            Loadable (k₁.volume.inodes inum).size limit other := by
          rw [files.size inum]
          exact ok other (List.mem_cons_of_mem ph member)
        rcases ih loading₁ (Nat.succ_ne_zero nph) some_size₁ ok₁ ordered with rest |
            ⟨sz', k', rest, all, kept'⟩
        · exact Or.inl rest
        · refine Or.inr ⟨sz', k', rest, ?_, ?_⟩
          · intro other member
            rcases List.mem_cons.mp member with rfl | member
            · exact placed.kept kept'
            · exact (all other member).of_files files
          · intro va pa flags va_page low present
            obtain ⟨present₁, bytes₁⟩ := kept va pa flags va_page low present
            obtain ⟨present', bytes'⟩ := kept' va pa flags va_page low present₁
            exact ⟨present', fun j j_lt => (bytes' j j_lt).trans (bytes₁ j j_lt)⟩

/-- What segment loading leaves at the addresses of the user. -/
structure SegmentsExact (sb : Fs.Superblock) (k : Kernel) (root : Nat) (inum : UInt32) : Prop where
  /-- `loadseg` stores the bytes of the file, and no others. -/
  stores : ∀ va offset sz, UserRange k.memory root va sz.toNat →
    Distinct k.memory root va sz.toNat →
    offset.toNat + sz.toNat ≤ (k.volume.inodes inum).size.toNat →
    ∃ k', loadseg sb k root va inum offset sz = .ok (0, k') ∧
      k' = { k with bytes := k'.bytes, volume := k'.volume } ∧ SameFiles sb k.volume k'.volume ∧
      (∀ i < sz.toNat,
        (k'.user root).bytes (va + i) = fileByte sb k.volume inum (offset.toNat + i)) ∧
      ∀ x, Apart k.memory root va sz.toNat x → k'.bytes x = k.bytes x
  /-- Behind its part of the file a segment reads as zeros, unless `kalloc` has no page or the first
  segment is empty and at the address 0. -/
  zeros : ∀ tables limit ph rest, Loading sb k root inum tables ph.vaddr limit → pgsize ∣ ph.vaddr →
    (∀ h ∈ ph :: rest, Loadable (k.volume.inodes inum).size limit h) →
    Ordered (extent (ph.vaddr + ph.memsz)) rest →
    loadHeaders sb root inum (ph :: rest) k 0 0 = .error .outOfMemory ∨
      (ph.vaddr + ph.memsz = 0 ∧
        ∃ sz' k', loadHeaders sb root inum (ph :: rest) k 0 0 = .ok (-enomem, sz', k')) ∨
      ∃ sz' k', loadHeaders sb root inum (ph :: rest) k 0 0 = .ok (0, sz', k') ∧
        ∀ h ∈ ph :: rest, ∀ i < h.memsz, (k'.user root).bytes (h.vaddr + i) =
          if i < h.filesz then fileByte sb k.volume inum (h.off + i) else 0

/-- The bytes of a segment, read through the page table. -/
theorem Placed.read {v : Fs.Volume} {ph : Proghdr} {i : Nat} (placed : Placed sb v k root inum ph)
    (inside : i < ph.memsz) : (k.user root).bytes (ph.vaddr + i) =
      if i < ph.filesz then fileByte sb v inum (ph.off + i) else 0 := by
  obtain ⟨low, pa, flags, present, user, byte⟩ := placed i inside
  rw [user_byte low present user, byte]

/-- The segments of a program, the first of which begins at a page. -/
theorem loadHeaders_spec {limit : Nat} {ph : Proghdr} {rest : List Proghdr}
    (loading : Loading sb k root inum tables ph.vaddr limit) (start : pgsize ∣ ph.vaddr)
    (ok : ∀ h ∈ ph :: rest, Loadable (k.volume.inodes inum).size limit h)
    (ordered : Ordered (extent (ph.vaddr + ph.memsz)) rest) :
    loadHeaders sb root inum (ph :: rest) k 0 0 = .error .outOfMemory ∨
      (ph.vaddr + ph.memsz = 0 ∧
        ∃ sz' k', loadHeaders sb root inum (ph :: rest) k 0 0 = .ok (-enomem, sz', k')) ∨
      ∃ sz' k', loadHeaders sb root inum (ph :: rest) k 0 0 = .ok (0, sz', k') ∧
        ∀ h ∈ ph :: rest, Placed sb k.volume k' root inum h := by
  have base_eq : ph.vaddr = extent (if 0 = 0 then ph.vaddr else 0) := by
    obtain ⟨m, vaddr_eq⟩ := start
    rw [if_pos rfl, extent, vaddr_eq, show pgsize = 4096 from rfl]
    omega
  have above : ph.vaddr ≤ ph.vaddr / pgsize * pgsize := (Nat.div_mul_cancel start).ge
  rw [loadHeaders]
  rcases loadHeader_spec loading (ok ph List.mem_cons_self) base_eq (fun _ => start) above with
    run | ⟨none, sz', k', run⟩ | ⟨k₁, tables₁, some_size, run, loading₁, files, placed, -⟩
  · rw [run]
    exact Or.inl rfl
  · rw [run]
    exact Or.inr (Or.inl ⟨none, sz', k', rfl⟩)
  · rw [run]
    have ok₁ (h : Proghdr) (member : h ∈ rest) :
        Loadable (k₁.volume.inodes inum).size limit h := by
      rw [files.size inum]
      exact ok h (List.mem_cons_of_mem ph member)
    rcases loadHeaders_rest loading₁ (Nat.succ_ne_zero 0) some_size ok₁ ordered with run' |
        ⟨sz', k', run', all, kept⟩
    · exact Or.inl run'
    · refine Or.inr (Or.inr ⟨sz', k', run', ?_⟩)
      intro h member
      rcases List.mem_cons.mp member with rfl | member
      · exact placed.kept kept
      · exact (all h member).of_files files

/-- Segment loading is exact. -/
theorem segments_exact (mounted : Mounted sb k.volume) (live : k.volume.Live sb inum) :
    SegmentsExact sb k root inum where
  stores va offset sz range distinct holds := by
    have ram : phystop + pgsize ≤ 2 ^ 32 := by decide
    have small := (Nat.add_le_add_right (range_in_ram range distinct) pgsize).trans ram
    obtain ⟨k', run, filled⟩ := loadseg_spec offset sz mounted live range small holds
    refine ⟨k', run, filled.same, filled.files, ?_, filled.stored.frame⟩
    intro i i_lt
    obtain ⟨low, pa, flags, present, user, -⟩ := range i i_lt
    have memory : k'.memory = k.memory := by rw [filled.same]
    rw [user_byte low (memory ▸ present) user,
      filled.stored.content distinct i i_lt pa flags present]
  zeros tables limit ph rest loading start ok ordered := by
    rcases loadHeaders_spec loading start ok ordered with no_memory | empty | ⟨sz', k', run, placed⟩
    · exact Or.inl no_memory
    · exact Or.inr (Or.inl empty)
    · exact Or.inr (Or.inr ⟨sz', k', run, fun h member i i_lt => (placed h member).read i_lt⟩)

/-- A kernel with an empty page table and a program of five bytes. -/
def programKernel : Kernel :=
  blank [0x80201000, 0x80202000, 0x80203000, 0x80204000, 0x80205000] (volumeOf 1 5)
    ⟨.none, none, 0, false, false⟩

/-- A segment of the program that goes on behind its page. -/
def programHeader : Proghdr := ⟨pfR ||| pfW, 1, 0x1000, 4, 5000⟩

theorem programKernel_loading : Loading Fs.mkfsSuper programKernel 0x80000000 2 [0x80000000] 0x1000
    0x3000 where
  mounted := volumeOf_mounted (by decide) (by decide)
  live := (volumeOf_live_iff 2).mpr rfl
  sound := (blank_sound (by decide)).1
  ram := by decide
  low := by decide
  clear va _ _ _ := (blank_sound (by decide)).2 va

theorem programKernel_size : (programKernel.volume.inodes 2).size = 5 := by
  change ((volumeOf 1 5).inodes 2).size = 5
  rw [volumeOf_inode]
  rfl

/-- The segment is loaded, and reads as zeros behind the file. -/
theorem segments_exact_program : ∃ sz' k',
    loadHeaders Fs.mkfsSuper 0x80000000 2 [programHeader] programKernel 0 0 = .ok (0, sz', k') ∧
      ∀ i < 5000, (k'.user 0x80000000).bytes (0x1000 + i) =
        if i < 4 then fileByte Fs.mkfsSuper programKernel.volume 2 (1 + i) else 0 := by
  have succeeds : (loadHeaders Fs.mkfsSuper 0x80000000 2 [programHeader] programKernel 0
      0).toOption.any (fun result => decide (result.1 = 0)) = true := by
    decide +kernel
  obtain ⟨⟨errno, sz', k'⟩, run, test⟩ := Except.exists_of_any succeeds
  have errno_eq : errno = 0 := of_decide_eq_true test
  have ok (h : Proghdr) (member : h ∈ [programHeader]) :
      Loadable (programKernel.volume.inodes 2).size 0x3000 h := by
    rw [List.mem_singleton.mp member, programKernel_size]
    constructor <;> decide
  have loads : SegmentsExact Fs.mkfsSuper programKernel 0x80000000 2 :=
    segments_exact programKernel_loading.mounted programKernel_loading.live
  rcases loads.zeros [0x80000000] 0x3000 programHeader [] programKernel_loading
    (by decide) ok trivial with failed | ⟨empty, -⟩ | ⟨sz'', k'', loaded, reads⟩
  · cases run.symm.trans failed
  · cases empty
  · exact ⟨sz'', k'', loaded, reads programHeader List.mem_cons_self⟩

end Exec
end Xv6Duo
