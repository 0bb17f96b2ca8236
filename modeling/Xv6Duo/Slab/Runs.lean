import Xv6Duo.Library.PointerChain
import Xv6Duo.Slab.Layout

/-!
# Runs of a slab cache

The free objects of a slab are the indices that `header->free` leads to through the array of object
numbers, and every slab is on one of the two lists. `Sound` says this beside the live objects; it
holds after every sequence of calls.
-/

namespace Xv6Duo
namespace Slab

open PointerChain

/-! ## Object numbers -/

/-- An object number, unless it is the number behind the last object. -/
def number? (limit value : UInt32) : Option UInt32 := if value = limit then none else some value

theorem number?_limit (limit : UInt32) : number? limit limit = none := if_pos rfl

theorem number?_of_ne {limit value : UInt32} (differs : value ≠ limit) :
    number? limit value = some value := if_neg differs

theorem number?_eq_none {limit value : UInt32} (none_left : number? limit value = none) :
    value = limit := by
  by_contra differs
  rw [number?_of_ne differs] at none_left
  cases none_left

theorem number?_eq_some {limit value index : UInt32} (found : number? limit value = some index) :
    value = index ∧ value ≠ limit := by
  rw [number?] at found
  split at found
  · cases found
  · next differs =>
      cases found
      exact ⟨rfl, differs⟩

/-- Following `header->free` through the array of object numbers lists the free objects, and ends at
the mark behind the last object. -/
structure Numbered (s : State) (slab : Nat) (free : List UInt32) : Prop where
  /-- The numbers lead through the list. -/
  chain : IsChain (fun k => number? (slabMaxObjectNum s.shape) (s.freeList slab k))
    (number? (slabMaxObjectNum s.shape) (s.header slab).free) free
  /-- No number is repeated. -/
  nodup : free.Nodup
  /-- They are numbers of objects. -/
  inside : ∀ k ∈ free, k.toNat < s.shape.count
  /-- The mark. -/
  last : s.freeList slab (slabMaxObjectNum s.shape) = slabFreeEnd

theorem toNat_ofNat_of_lt {i : Nat} (small : i < 2 ^ 32) : (UInt32.ofNat i).toNat = i := by
  rw [UInt32.toNat_ofNat']
  exact Nat.mod_eq_of_lt small

/-- The loop of `slab_new`. -/
theorem numberObjects_eq (numbers : UInt32 → UInt32) {n : Nat} (small : n < 2 ^ 32) (k : UInt32) :
    numberObjects numbers n k = if k.toNat < n then UInt32.ofNat (k.toNat + 1) else numbers k := by
  induction n with
  | zero => rfl
  | succ n ih =>
      rw [numberObjects]
      have here : (UInt32.ofNat n).toNat = n := toNat_ofNat_of_lt (by omega)
      by_cases same : k = UInt32.ofNat n
      · rw [same, Function.update_self, here, if_pos n.lt_succ_self]
      · have differs : k.toNat ≠ n := by
          intro equal
          apply same
          rw [← UInt32.toNat_inj, here, equal]
        rw [Function.update_of_ne same, ih (by omega)]
        by_cases less : k.toNat < n
        · rw [if_pos less, if_pos (by omega)]
        · rw [if_neg less, if_neg (by omega)]

/-- The numbers of all objects. -/
def allNumbers (count : Nat) : List UInt32 := (List.range count).map UInt32.ofNat

theorem mem_allNumbers {count : Nat} (small : count < 2 ^ 32) {k : UInt32} :
    k ∈ allNumbers count ↔ k.toNat < count := by
  rw [allNumbers, List.mem_map]
  constructor
  · rintro ⟨i, member, rfl⟩
    rw [List.mem_range] at member
    rw [toNat_ofNat_of_lt (member.trans small)]
    exact member
  · intro less
    refine ⟨k.toNat, List.mem_range.mpr less, ?_⟩
    rw [← UInt32.toNat_inj, toNat_ofNat_of_lt k.toNat_lt]

theorem nodup_allNumbers {count : Nat} (small : count < 2 ^ 32) : (allNumbers count).Nodup := by
  apply List.Nodup.map_on _ List.nodup_range
  intro i i_mem j j_mem same
  rw [List.mem_range] at i_mem j_mem
  rw [← UInt32.toNat_inj, toNat_ofNat_of_lt (i_mem.trans small),
    toNat_ofNat_of_lt (j_mem.trans small)] at same
  exact same

/-- The numbers of a new slab lead from each object to the next. -/
theorem chain_allNumbers {numbers : UInt32 → UInt32} {limit : UInt32}
    (follow : ∀ k : UInt32, k.toNat < limit.toNat → numbers k = UInt32.ofNat (k.toNat + 1))
    (left start : Nat) (total : start + left = limit.toNat) :
    IsChain (fun k => number? limit (numbers k)) (number? limit (UInt32.ofNat start))
      ((List.range' start left).map UInt32.ofNat) := by
  have bounded := limit.toNat_lt
  induction left generalizing start with
  | zero =>
      have same : UInt32.ofNat start = limit := by
        rw [← UInt32.toNat_inj, toNat_ofNat_of_lt (by omega)]
        exact total
      rw [same]
      exact number?_limit limit
  | succ left ih =>
      have here : (UInt32.ofNat start).toNat = start := toNat_ofNat_of_lt (by omega)
      have differs : UInt32.ofNat start ≠ limit := by
        intro same
        rw [← UInt32.toNat_inj, here] at same
        omega
      rw [List.range'_succ, List.map_cons]
      have next_eq : numbers (UInt32.ofNat start) = UInt32.ofNat (start + 1) := by
        rw [follow (UInt32.ofNat start) (by omega), here]
      refine ⟨number?_of_ne differs, ?_⟩
      dsimp only
      rw [next_eq]
      exact ih (start + 1) (by omega)

namespace Numbered

variable {s : State} {slab : Nat} {free : List UInt32}

/-- The number after a free object is not the mark. -/
theorem ne_end (numbered : Numbered s slab free) (roomy : s.shape.Roomy) {k : UInt32}
    (member : k ∈ free) : s.freeList slab k ≠ slabFreeEnd := by
  rcases numbered.chain.next_mem member with ends | ⟨other, inside, leads⟩
  · rw [number?_eq_none ends]
    exact roomy.count_ne_end
  · intro marked
    obtain ⟨same, _⟩ := number?_eq_some leads
    have less := numbered.inside other inside
    rw [← same, marked] at less
    have small := less.trans roomy.count_lt
    exact absurd small (by decide)

/-- The first free object, or none. -/
theorem free_cases (numbered : Numbered s slab free) :
    (free = [] ∧ (s.header slab).free = slabMaxObjectNum s.shape) ∨
      ∃ rest, free = (s.header slab).free :: rest := by
  cases free with
  | nil => exact Or.inl ⟨rfl, number?_eq_none numbered.chain⟩
  | cons index rest =>
      obtain ⟨same, _⟩ := number?_eq_some numbered.chain.1
      exact Or.inr ⟨rest, by rw [same]⟩

/-- Only the numbers and the head of the slab count. -/
theorem congr {t : State} (numbered : Numbered s slab free) (shape : t.shape = s.shape)
    (numbers : t.freeList slab = s.freeList slab)
    (head : (t.header slab).free = (s.header slab).free) : Numbered t slab free := by
  constructor
  · rw [shape, numbers, head]
    exact numbered.chain
  · exact numbered.nodup
  · rw [shape]
    exact numbered.inside
  · rw [shape, numbers]
    exact numbered.last

/-- The first free object is taken. -/
theorem take {t : State} {index : UInt32} {rest : List UInt32}
    (numbered : Numbered s slab (index :: rest)) (shape : t.shape = s.shape)
    (numbers : t.freeList slab = Function.update (s.freeList slab) index slabFreeEnd)
    (head : (t.header slab).free = s.freeList slab index) : Numbered t slab rest := by
  obtain ⟨fresh, nodup⟩ := List.nodup_cons.mp numbered.nodup
  have index_lt := numbered.inside index List.mem_cons_self
  have not_limit : slabMaxObjectNum s.shape ≠ index := by
    rintro rfl
    exact lt_irrefl _ index_lt
  constructor
  · rw [shape, numbers, head]
    refine numbered.chain.2.congr ?_
    intro k member
    rw [Function.update_of_ne]
    rintro rfl
    exact fresh member
  · exact nodup
  · rw [shape]
    exact fun k member => numbered.inside k (List.mem_cons_of_mem _ member)
  · rw [shape, numbers, Function.update_of_ne not_limit]
    exact numbered.last

/-- An object is put in front of the free ones. -/
theorem put {t : State} {index : UInt32} (numbered : Numbered s slab free)
    (shape : t.shape = s.shape) (index_lt : index.toNat < s.shape.count) (fresh : index ∉ free)
    (numbers : t.freeList slab =
      Function.update (s.freeList slab) index (s.header slab).free)
    (head : (t.header slab).free = index) : Numbered t slab (index :: free) := by
  have not_limit : slabMaxObjectNum s.shape ≠ index := by
    rintro rfl
    exact lt_irrefl _ index_lt
  constructor
  · rw [shape, numbers, head]
    refine ⟨number?_of_ne (Ne.symm not_limit), ?_⟩
    dsimp only
    rw [Function.update_self]
    refine numbered.chain.congr ?_
    intro k member
    rw [Function.update_of_ne]
    rintro rfl
    exact fresh member
  · exact List.nodup_cons.mpr ⟨fresh, numbered.nodup⟩
  · rw [shape]
    intro k member
    rcases List.mem_cons.mp member with rfl | member
    · exact index_lt
    · exact numbered.inside k member
  · rw [shape, numbers, Function.update_of_ne not_limit]
    exact numbered.last

end Numbered

/-! ## The invariant -/

/-- The object that the next allocation from a slab takes. -/
def State.first (s : State) (slab : Nat) : Nat := s.address slab (s.header slab).free

/-- Slabs, lists, free objects and live objects. -/
structure Sound (w : World) (fulls partials : List Nat) (free : Nat → List UInt32) : Prop where
  /-- The sizes. -/
  roomy : w.state.shape.Roomy
  /-- `slabs_full` leads through its slabs. -/
  full : IsChain (fun slab => (w.state.header slab).next) w.state.slabsFull fulls
  /-- `slabs_partial` leads through its slabs. -/
  some_free : IsChain (fun slab => (w.state.header slab).next) w.state.slabsPartial partials
  /-- No slab is on both lists or repeated. -/
  nodup : (fulls ++ partials).Nodup
  /-- The slabs are those on the lists. -/
  slabs : ∀ slab, slab ∈ w.state.slabs ↔ slab ∈ fulls ∨ slab ∈ partials
  /-- Slabs do not overlap. -/
  apart : ∀ a ∈ w.state.slabs, ∀ b ∈ w.state.slabs, a ≠ b →
    a + w.state.shape.slabSize.toNat ≤ b ∨ b + w.state.shape.slabSize.toNat ≤ a
  /-- Slabs are whole pages below 4 GB and know where their objects are. -/
  placed : ∀ slab ∈ w.state.slabs, pageSize ∣ slab ∧
    slab + w.state.shape.slabSize.toNat ≤ 2 ^ 32 ∧
    (w.state.header slab).object = objectStart w.state.shape slab
  /-- The free objects. -/
  numbered : ∀ slab ∈ w.state.slabs, Numbered w.state slab (free slab)
  /-- A slab is full when it has no free object. -/
  full_iff : ∀ slab ∈ w.state.slabs, slab ∈ fulls ↔ free slab = []
  /-- No object is handed out twice. -/
  live_nodup : w.live.Nodup
  /-- The live objects are those that are not free. -/
  live_iff : ∀ obj, obj ∈ w.live ↔ ∃ slab ∈ w.state.slabs, ∃ k : UInt32,
    k.toNat < w.state.shape.count ∧ k ∉ free slab ∧ obj = w.state.address slab k

namespace Sound

variable {w : World} {fulls partials : List Nat} {free : Nat → List UInt32}

/-- The place of an object. -/
theorem address_eq (sound : Sound w fulls partials free) {slab : Nat}
    (member : slab ∈ w.state.slabs) {k : UInt32} (k_lt : k.toNat < w.state.shape.count) :
    w.state.address slab k = objectStart w.state.shape slab +
      w.state.shape.objectSize.toNat * k.toNat := by
  rw [State.address, sound.roomy.offset_eq k_lt, (sound.placed slab member).2.2]

/-- An object lies in its slab, behind the numbers. -/
theorem address_inside (sound : Sound w fulls partials free) {slab : Nat}
    (member : slab ∈ w.state.slabs) {k : UInt32} (k_lt : k.toNat < w.state.shape.count) :
    slab + slabHeaderBytes + 4 * (w.state.shape.count + 1) ≤ w.state.address slab k ∧
      w.state.address slab k + w.state.shape.objectSize.toNat ≤
        slab + w.state.shape.slabSize.toNat := by
  obtain ⟨_, below, _⟩ := sound.placed slab member
  obtain ⟨lower, upper⟩ := sound.roomy.objectStart_bounds below
  have whole := Nat.mul_le_mul_right w.state.shape.objectSize.toNat (Nat.succ_le_of_lt k_lt)
  rw [Nat.succ_mul, Nat.mul_comm] at whole
  rw [sound.address_eq member k_lt]
  omega

/-- An object belongs to one slab and has one number there. -/
theorem address_inj (sound : Sound w fulls partials free) {a b : Nat}
    (a_mem : a ∈ w.state.slabs) (b_mem : b ∈ w.state.slabs) {k l : UInt32}
    (k_lt : k.toNat < w.state.shape.count) (l_lt : l.toNat < w.state.shape.count)
    (same : w.state.address a k = w.state.address b l) : a = b ∧ k = l := by
  have some := sound.roomy.object_positive
  have slab_eq : a = b := by
    by_contra differs
    have first := sound.address_inside a_mem k_lt
    have second := sound.address_inside b_mem l_lt
    rcases sound.apart a a_mem b b_mem differs with before | after
    · omega
    · omega
  subst slab_eq
  refine ⟨rfl, ?_⟩
  rw [sound.address_eq a_mem k_lt, sound.address_eq a_mem l_lt] at same
  rw [← UInt32.toNat_inj]
  exact Nat.eq_of_mul_eq_mul_left some (Nat.add_left_cancel same)

/-- `page_find_head` finds the slab of an object. -/
theorem pageFindHead_eq (sound : Sound w fulls partials free) {slab obj : Nat}
    (member : slab ∈ w.state.slabs) (lower : slab ≤ obj)
    (upper : obj < slab + w.state.shape.slabSize.toNat) :
    pageFindHead w.state obj = some slab := by
  cases found : pageFindHead w.state obj with
  | none =>
      rw [pageFindHead, List.find?_eq_none] at found
      exact absurd (decide_eq_true ⟨lower, upper⟩) (found slab member)
  | some other =>
      have inside := List.mem_of_find?_eq_some found
      rw [pageFindHead] at found
      have contains := List.find?_some found
      rw [decide_eq_true_iff] at contains
      by_contra differs
      have apart := sound.apart other inside slab member fun same => differs (congrArg some same)
      omega

/-- `slab_new` puts a slab with only free objects on the empty list of partly used slabs. -/
theorem slabNew (sound : Sound w fulls [] free) {fresh : Nat} (is_fresh : Fresh w.state fresh) :
    Sound ⟨{ Slab.slabNew w.state fresh with slabsPartial := some fresh }, w.live⟩ fulls
      [fresh] (Function.update free fresh (allNumbers w.state.shape.count)) := by
  obtain ⟨pages, below, disjoint⟩ := is_fresh
  have roomy := sound.roomy
  have room := roomy.room
  have positive := roomy.object_positive
  have count_small : w.state.shape.count < 2 ^ 32 := roomy.count_lt.trans (by decide)
  have not_slab : fresh ∉ w.state.slabs := by
    intro member
    have apart := disjoint fresh member
    omega
  have not_full : fresh ∉ fulls := fun member => not_slab ((sound.slabs fresh).mpr (Or.inl member))
  have other : ∀ slab ∈ w.state.slabs, slab ≠ fresh := by
    rintro slab member rfl
    exact not_slab member
  have address_other : ∀ slab ∈ w.state.slabs, ∀ k,
      State.address { Slab.slabNew w.state fresh with slabsPartial := some fresh } slab k =
        w.state.address slab k := by
    intro slab member k
    simp only [State.address, Slab.slabNew, Function.update_of_ne (other slab member)]
  constructor
  case roomy => exact roomy
  case full =>
    refine sound.full.congr ?_
    intro slab member
    have differs := other slab ((sound.slabs slab).mpr (Or.inl member))
    simp only [Slab.slabNew, Function.update_of_ne differs]
  case some_free =>
    refine ⟨rfl, ?_⟩
    simp [Slab.slabNew]
  case nodup =>
    have nodup := sound.nodup
    rw [List.append_nil] at nodup
    rw [List.nodup_append]
    refine ⟨nodup, List.nodup_singleton fresh, ?_⟩
    intro slab member last is_last same
    rw [List.mem_singleton] at is_last
    exact not_full (is_last ▸ same ▸ member)
  case slabs =>
    intro slab
    have before := sound.slabs slab
    simp only [Slab.slabNew, List.mem_cons, List.not_mem_nil, or_false] at before ⊢
    rw [before]
    tauto
  case apart =>
    intro a a_mem b b_mem differs
    rcases List.mem_cons.mp a_mem with rfl | a_old
    · rcases List.mem_cons.mp b_mem with rfl | b_old
      · exact absurd rfl differs
      · exact disjoint b b_old
    · rcases List.mem_cons.mp b_mem with rfl | b_old
      · exact (disjoint a a_old).symm
      · exact sound.apart a a_old b b_old differs
  case placed =>
    intro slab member
    rcases List.mem_cons.mp member with rfl | member
    · refine ⟨pages, below, ?_⟩
      simp [Slab.slabNew]
    · have before := sound.placed slab member
      simpa [Slab.slabNew, Function.update_of_ne (other slab member)] using before
  case numbered =>
    intro slab member
    rcases List.mem_cons.mp member with rfl | member
    · rw [Function.update_self]
      have limit_lt := (slabMaxObjectNum w.state.shape).toNat_lt
      constructor
      · have follow : ∀ k : UInt32, k.toNat < (slabMaxObjectNum w.state.shape).toNat →
            Function.update (numberObjects (w.state.freeList slab)
              (slabMaxObjectNum w.state.shape).toNat) (slabMaxObjectNum w.state.shape)
              slabFreeEnd k = UInt32.ofNat (k.toNat + 1) := by
          intro k k_lt
          have differs : k ≠ slabMaxObjectNum w.state.shape := by
            rintro rfl
            exact lt_irrefl _ k_lt
          rw [Function.update_of_ne differs, numberObjects_eq _ limit_lt, if_pos k_lt]
        have chain := chain_allNumbers follow (slabMaxObjectNum w.state.shape).toNat 0
          (Nat.zero_add _)
        rw [← List.range_eq_range'] at chain
        simpa [Slab.slabNew, allNumbers, Shape.count] using chain
      · exact nodup_allNumbers count_small
      · intro k k_mem
        exact (mem_allNumbers count_small).mp k_mem
      · simp [Slab.slabNew]
    · have differs := other slab member
      rw [Function.update_of_ne differs]
      refine (sound.numbered slab member).congr rfl ?_ ?_
      · simp [Slab.slabNew, Function.update_of_ne differs]
      · simp [Slab.slabNew, Function.update_of_ne differs]
  case full_iff =>
    intro slab member
    rcases List.mem_cons.mp member with rfl | member
    · rw [Function.update_self]
      have some := roomy.count_fits.1
      have nonempty : allNumbers w.state.shape.count ≠ [] := by
        rw [← List.length_pos_iff]
        simpa [allNumbers] using some
      exact iff_of_false not_full nonempty
    · rw [Function.update_of_ne (other slab member)]
      exact sound.full_iff slab member
  case live_nodup => exact sound.live_nodup
  case live_iff =>
    intro obj
    rw [sound.live_iff obj]
    constructor
    · rintro ⟨slab, member, k, k_lt, taken, rfl⟩
      refine ⟨slab, List.mem_cons_of_mem _ member, k, k_lt, ?_, (address_other slab member k).symm⟩
      rw [Function.update_of_ne (other slab member)]
      exact taken
    · rintro ⟨slab, member, k, k_lt, taken, rfl⟩
      rcases List.mem_cons.mp member with rfl | member
      · rw [Function.update_self, mem_allNumbers count_small] at taken
        exact absurd k_lt taken
      · rw [Function.update_of_ne (other slab member)] at taken
        exact ⟨slab, member, k, k_lt, taken, address_other slab member k⟩

/-- The numbers of one slab, the lists and the live objects change. -/
theorem change (sound : Sound w fulls partials free) {slab : Nat} {t : State}
    {live fulls' partials' : List Nat} {free' : List UInt32}
    (shape : t.shape = w.state.shape) (slabs : t.slabs = w.state.slabs)
    (object : ∀ b, (t.header b).object = (w.state.header b).object)
    (others : ∀ b, b ≠ slab → t.freeList b = w.state.freeList b ∧
      (t.header b).free = (w.state.header b).free)
    (full : IsChain (fun b => (t.header b).next) t.slabsFull fulls')
    (some_free : IsChain (fun b => (t.header b).next) t.slabsPartial partials')
    (nodup : (fulls' ++ partials').Nodup)
    (lists : ∀ b, (b ∈ fulls' ∨ b ∈ partials') ↔ (b ∈ fulls ∨ b ∈ partials))
    (full_other : ∀ b, b ≠ slab → (b ∈ fulls' ↔ b ∈ fulls))
    (full_here : slab ∈ fulls' ↔ free' = []) (numbered : Numbered t slab free')
    (live_nodup : live.Nodup)
    (live_iff : ∀ obj, obj ∈ live ↔ ∃ b ∈ w.state.slabs, ∃ k : UInt32,
      k.toNat < w.state.shape.count ∧ k ∉ Function.update free slab free' b ∧
        obj = w.state.address b k) :
    Sound ⟨t, live⟩ fulls' partials' (Function.update free slab free') := by
  constructor
  case roomy =>
    rw [shape]
    exact sound.roomy
  case full => exact full
  case some_free => exact some_free
  case nodup => exact nodup
  case slabs =>
    intro b
    rw [slabs, sound.slabs b, lists b]
  case apart =>
    rw [slabs, shape]
    exact sound.apart
  case placed =>
    rw [slabs, shape]
    intro b member
    dsimp only
    rw [object b]
    exact sound.placed b member
  case numbered =>
    intro b member
    dsimp only at member
    rw [slabs] at member
    by_cases same : b = slab
    · rw [same, Function.update_self]
      exact numbered
    · rw [Function.update_of_ne same]
      exact (sound.numbered b member).congr shape (others b same).1 (others b same).2
  case full_iff =>
    intro b member
    dsimp only at member
    rw [slabs] at member
    by_cases same : b = slab
    · rw [same, Function.update_self]
      exact full_here
    · rw [Function.update_of_ne same, full_other b same]
      exact sound.full_iff b member
  case live_nodup => exact live_nodup
  case live_iff =>
    intro obj
    dsimp only
    rw [live_iff obj, slabs, shape]
    have address : ∀ b k, t.address b k = w.state.address b k := by
      intro b k
      rw [State.address, State.address, object b, shape]
    simp only [address]

/-- An object that is taken was free, and is live from now on. -/
theorem live_take (sound : Sound w fulls partials free) {slab : Nat} {index : UInt32}
    {others : List UInt32} (member : slab ∈ w.state.slabs) (cons : free slab = index :: others) :
    (w.state.address slab index :: w.live).Nodup ∧
      ∀ obj, obj ∈ w.state.address slab index :: w.live ↔ ∃ b ∈ w.state.slabs, ∃ k : UInt32,
        k.toNat < w.state.shape.count ∧ k ∉ Function.update free slab others b ∧
          obj = w.state.address b k := by
  have numbered := sound.numbered slab member
  rw [cons] at numbered
  have index_lt := numbered.inside index List.mem_cons_self
  obtain ⟨fresh, _⟩ := List.nodup_cons.mp numbered.nodup
  have not_live : w.state.address slab index ∉ w.live := by
    intro live
    obtain ⟨b, b_mem, k, k_lt, taken, same⟩ := (sound.live_iff _).mp live
    obtain ⟨rfl, rfl⟩ := sound.address_inj member b_mem index_lt k_lt same
    rw [cons] at taken
    exact taken List.mem_cons_self
  refine ⟨List.nodup_cons.mpr ⟨not_live, sound.live_nodup⟩, ?_⟩
  intro obj
  rw [List.mem_cons, sound.live_iff obj]
  constructor
  · rintro (rfl | ⟨b, b_mem, k, k_lt, taken, rfl⟩)
    · refine ⟨slab, member, index, index_lt, ?_, rfl⟩
      rw [Function.update_self]
      exact fresh
    · refine ⟨b, b_mem, k, k_lt, ?_, rfl⟩
      by_cases same : b = slab
      · subst same
        rw [Function.update_self]
        rw [cons] at taken
        exact fun inside => taken (List.mem_cons_of_mem _ inside)
      · rw [Function.update_of_ne same]
        exact taken
  · rintro ⟨b, b_mem, k, k_lt, taken, rfl⟩
    by_cases same : b = slab
    · subst same
      rw [Function.update_self] at taken
      by_cases first : k = index
      · exact Or.inl (by rw [first])
      · refine Or.inr ⟨b, b_mem, k, k_lt, ?_, rfl⟩
        rw [cons, List.mem_cons, not_or]
        exact ⟨first, taken⟩
    · rw [Function.update_of_ne same] at taken
      exact Or.inr ⟨b, b_mem, k, k_lt, taken, rfl⟩

/-- `slab_cache_alloc` takes the first free object of the first partly used slab. -/
theorem takeObject {slab : Nat} {rest : List Nat}
    (sound : Sound w fulls (slab :: rest) free) :
    (Slab.takeObject w.state slab).1 = w.state.address slab (w.state.header slab).free ∧
      ∃ fulls' partials' free',
        Sound ⟨(Slab.takeObject w.state slab).2, (Slab.takeObject w.state slab).1 :: w.live⟩
          fulls' partials' free' := by
  have member : slab ∈ w.state.slabs := (sound.slabs slab).mpr (Or.inr List.mem_cons_self)
  have numbered := sound.numbered slab member
  have not_full : slab ∉ fulls := by
    have nodup := sound.nodup
    rw [List.nodup_append] at nodup
    intro inside
    exact nodup.2.2 slab inside slab List.mem_cons_self rfl
  have not_rest : slab ∉ rest := by
    have nodup := (List.nodup_append.mp sound.nodup).2.1
    exact (List.nodup_cons.mp nodup).1
  have nonempty : free slab ≠ [] := fun empty => not_full ((sound.full_iff slab member).mpr empty)
  obtain ⟨others, cons⟩ : ∃ others, free slab = (w.state.header slab).free :: others := by
    rcases numbered.free_cases with ⟨empty, _⟩ | some
    · exact absurd empty nonempty
    · exact some
  set index := (w.state.header slab).free with index_eq
  rw [cons] at numbered
  have index_lt := numbered.inside index List.mem_cons_self
  obtain ⟨live_nodup, live_iff⟩ := sound.live_take member cons
  set taken : State := { w.state with
    freeList := Function.update w.state.freeList slab
      (Function.update (w.state.freeList slab) index slabFreeEnd)
    header := Function.update w.state.header slab
      { w.state.header slab with free := w.state.freeList slab index } } with taken_eq
  have numbers : taken.freeList slab = Function.update (w.state.freeList slab) index
    slabFreeEnd := by
    simp [taken_eq]
  have mark_iff : taken.freeList slab (w.state.freeList slab index) = slabFreeEnd ↔
    others = [] := by
    have left := numbered.take (t := taken) rfl numbers (by simp [taken_eq])
    rcases left.free_cases with ⟨empty, ends⟩ | ⟨more, some⟩
    · have last := left.last
      have head : (taken.header slab).free = w.state.freeList slab index := by simp [taken_eq]
      rw [head] at ends
      rw [ends]
      exact iff_of_true last empty
    · have head : (taken.header slab).free = w.state.freeList slab index := by simp [taken_eq]
      rw [head] at some
      have first : w.state.freeList slab index ∈ others := by
        rw [some]
        exact List.mem_cons_self
      refine iff_of_false (left.ne_end sound.roomy first) ?_
      rw [some]
      exact List.cons_ne_nil _ _
  by_cases empty : others = []
  · -- The slab moves to the full ones.
    set moved : State := { (taken.setNext slab w.state.slabsFull) with
      slabsPartial := (taken.header slab).next
      slabsFull := some slab } with moved_eq
    have result : Slab.takeObject w.state slab = (moved.address slab index, moved) := by
      rw [Slab.takeObject, if_pos (mark_iff.mpr empty)]
    have nexts : (fun b => (moved.header b).next) =
        Function.update (fun b => (w.state.header b).next) slab w.state.slabsFull := by
      funext b
      by_cases same : b = slab
      · simp [moved_eq, State.setNext, same]
      · simp [moved_eq, taken_eq, State.setNext, same]
    have object : ∀ b, (moved.header b).object = (w.state.header b).object := by
      intro b
      by_cases same : b = slab
      · simp [moved_eq, taken_eq, State.setNext, same]
      · simp [moved_eq, taken_eq, State.setNext, same]
    have address : moved.address slab index = w.state.address slab index := by
      rw [State.address, State.address, object slab]
      rfl
    rw [result]
    refine ⟨address, slab :: fulls, rest, Function.update free slab others, ?_⟩
    rw [address]
    have here : moved.freeList slab = Function.update (w.state.freeList slab) index slabFreeEnd ∧
        (moved.header slab).free = w.state.freeList slab index := by
      simp [moved_eq, taken_eq, State.setNext]
    apply sound.change (show moved.shape = _ from rfl) (show moved.slabs = _ from rfl) object
    · intro b differs
      simp [moved_eq, taken_eq, State.setNext, differs]
    · rw [nexts]
      exact sound.full.push not_full
    · have next_eq : moved.slabsPartial = (w.state.header slab).next := by
        simp [moved_eq, taken_eq]
      rw [nexts, next_eq]
      exact sound.some_free.2.update not_rest
    · exact (List.perm_middle.nodup_iff).mp sound.nodup
    · intro b
      rw [List.mem_cons, List.mem_cons]
      tauto
    · intro b differs
      rw [List.mem_cons]
      exact or_iff_right differs
    · exact iff_of_true List.mem_cons_self empty
    · exact numbered.take rfl here.1 here.2
    · exact live_nodup
    · exact live_iff
  · have result : Slab.takeObject w.state slab = (taken.address slab index, taken) := by
      rw [Slab.takeObject, if_neg (mark_iff.not.mpr empty)]
    have nexts : (fun b => (taken.header b).next) = fun b => (w.state.header b).next := by
      funext b
      by_cases same : b = slab
      · simp [taken_eq, same]
      · simp [taken_eq, same]
    have object : ∀ b, (taken.header b).object = (w.state.header b).object := by
      intro b
      by_cases same : b = slab
      · simp [taken_eq, same]
      · simp [taken_eq, same]
    have address : taken.address slab index = w.state.address slab index := by
      rw [State.address, State.address, object slab]
    rw [result]
    refine ⟨address, fulls, slab :: rest, Function.update free slab others, ?_⟩
    rw [address]
    apply sound.change (show taken.shape = _ from rfl) (show taken.slabs = _ from rfl) object
    · intro b differs
      simp [taken_eq, differs]
    · rw [nexts]
      exact sound.full
    · rw [nexts]
      exact sound.some_free
    · exact sound.nodup
    · exact fun b => Iff.rfl
    · exact fun b _ => Iff.rfl
    · exact iff_of_false not_full empty
    · exact numbered.take rfl numbers (by simp [taken_eq])
    · exact live_nodup
    · exact live_iff

/-- `slab_cache_alloc`. -/
theorem alloc (sound : Sound w fulls partials free) {fresh : Nat}
    (is_fresh : Fresh w.state fresh) :
    (∀ slab, w.state.slabsPartial = some slab → (slabCacheAlloc w.state fresh).1 =
        w.state.first slab) ∧
      ∃ fulls' partials' free',
        Sound ⟨(slabCacheAlloc w.state fresh).2, (slabCacheAlloc w.state fresh).1 :: w.live⟩
          fulls' partials' free' := by
  cases partials with
  | nil =>
      have none_partial : w.state.slabsPartial = none := sound.some_free
      obtain ⟨_, after⟩ := (sound.slabNew is_fresh).takeObject
      rw [slabCacheAlloc, none_partial]
      exact ⟨nofun, after⟩
  | cons slab rest =>
      have first : w.state.slabsPartial = some slab := sound.some_free.1
      obtain ⟨address, after⟩ := sound.takeObject
      rw [slabCacheAlloc, first]
      refine ⟨?_, after⟩
      intro other same
      cases same
      exact address

/-! ## Release -/

/-- What the search of `slab_cache_free` does when it finds the slab behind `before`. -/
def moveSlab (s : State) (before : Option Nat) (slab : Nat) : State :=
  let unlinked := storeLink s before (s.header slab).next
  { (unlinked.setNext slab unlinked.slabsPartial) with slabsPartial := some slab }

/-- The search finds a slab on the list. -/
theorem moveLoop_eq {s : State} {slab : Nat} {front back done : List Nat} {head : Option Nat}
    {fuel : Nat} (chain : IsChain (fun b => (s.header b).next) head (front ++ slab :: back))
    (fresh : slab ∉ front) (enough : front.length < fuel) :
    moveLoop s slab fuel done.getLast? head = .ok (moveSlab s (done ++ front).getLast? slab) := by
  induction front generalizing head done fuel with
  | nil =>
      cases fuel with
      | zero => cases enough
      | succ fuel =>
          rw [chain.1, moveLoop, if_pos rfl, List.append_nil]
          rfl
  | cons first front ih =>
      cases fuel with
      | zero => cases enough
      | succ fuel =>
          obtain ⟨head_eq, chain⟩ := chain
          rw [List.mem_cons, not_or] at fresh
          rw [head_eq, moveLoop, if_neg (Ne.symm fresh.1)]
          have last : some first = (done ++ [first]).getLast? := by simp
          rw [last, ih chain fresh.2 (by simpa using enough), List.append_assoc]
          rfl

/-- The links after the slab has moved. -/
theorem moveSlab_links {s : State} {slab : Nat} {front back partials : List Nat}
    (full : IsChain (fun b => (s.header b).next) s.slabsFull (front ++ slab :: back))
    (some_free : IsChain (fun b => (s.header b).next) s.slabsPartial partials)
    (nodup : (front ++ slab :: back ++ partials).Nodup) :
    IsChain (fun b => ((moveSlab s front.getLast? slab).header b).next)
        (moveSlab s front.getLast? slab).slabsFull (front ++ back) ∧
      IsChain (fun b => ((moveSlab s front.getLast? slab).header b).next)
        (moveSlab s front.getLast? slab).slabsPartial (slab :: partials) := by
  obtain ⟨full_nodup, _, apart⟩ := List.nodup_append.mp nodup
  have middle : (slab :: (front ++ back)).Nodup := List.perm_middle.nodup_iff.mp full_nodup
  have not_full : slab ∉ front ++ back := (List.nodup_cons.mp middle).1
  have not_partial : slab ∉ partials := by
    intro inside
    exact apart slab (List.mem_append_right _ List.mem_cons_self) slab inside rfl
  rcases List.eq_nil_or_concat' front with rfl | ⟨first, before, rfl⟩
  · have nexts : (fun b => ((moveSlab s ([] : List Nat).getLast? slab).header b).next) =
        Function.update (fun b => (s.header b).next) slab s.slabsPartial := by
      funext b
      by_cases same : b = slab
      · simp [moveSlab, storeLink, State.setNext, same]
      · simp [moveSlab, storeLink, State.setNext, same]
    rw [nexts]
    exact ⟨full.2.update not_full, some_free.push not_partial⟩
  · rw [show first ++ [before] ++ slab :: back = first ++ before :: slab :: back by simp]
      at full full_nodup
    have differs : before ≠ slab := by
      rintro rfl
      exact not_full (by simp)
    have before_partial : before ∉ partials := by
      intro inside
      exact apart before (by simp) before inside rfl
    have nexts : (fun b => ((moveSlab s (first ++ [before]).getLast? slab).header b).next) =
        Function.update (Function.update (fun b => (s.header b).next) before (s.header slab).next)
          slab s.slabsPartial := by
      funext b
      by_cases same : b = slab
      · simp [moveSlab, storeLink, State.setNext, same]
      · by_cases here : b = before
        · subst here
          simp [moveSlab, storeLink, State.setNext, same]
        · simp [moveSlab, storeLink, State.setNext, same, here]
    have head : (moveSlab s (first ++ [before]).getLast? slab).slabsFull = s.slabsFull := by
      simp [moveSlab, storeLink, State.setNext]
    have unlinked := full.unlink full_nodup
    rw [show first ++ before :: back = first ++ [before] ++ back by simp] at unlinked
    rw [nexts, head]
    exact ⟨unlinked.update not_full, (some_free.update before_partial).push not_partial⟩

/-- An object that is put back was not free, and is live no more. -/
theorem live_put (sound : Sound w fulls partials free) {slab : Nat} {index : UInt32}
    (member : slab ∈ w.state.slabs) (index_lt : index.toNat < w.state.shape.count) :
    ∀ obj, obj ∈ w.live.erase (w.state.address slab index) ↔ ∃ b ∈ w.state.slabs, ∃ k : UInt32,
      k.toNat < w.state.shape.count ∧
        k ∉ Function.update free slab (index :: free slab) b ∧ obj = w.state.address b k := by
  intro obj
  rw [sound.live_nodup.mem_erase_iff, sound.live_iff obj]
  constructor
  · rintro ⟨other, b, b_mem, k, k_lt, taken, rfl⟩
    refine ⟨b, b_mem, k, k_lt, ?_, rfl⟩
    by_cases same : b = slab
    · subst same
      rw [Function.update_self, List.mem_cons, not_or]
      refine ⟨?_, taken⟩
      rintro rfl
      exact other rfl
    · rw [Function.update_of_ne same]
      exact taken
  · rintro ⟨b, b_mem, k, k_lt, taken, rfl⟩
    by_cases same : b = slab
    · subst same
      rw [Function.update_self, List.mem_cons, not_or] at taken
      refine ⟨?_, b, b_mem, k, k_lt, taken.2, rfl⟩
      intro equal
      exact taken.1 (sound.address_inj b_mem member k_lt index_lt equal).2
    · rw [Function.update_of_ne same] at taken
      refine ⟨?_, b, b_mem, k, k_lt, taken, rfl⟩
      intro equal
      exact same (sound.address_inj b_mem member k_lt index_lt equal).1

/-- `slab_cache_free` finds the slab and the number of a live object. -/
theorem find_object (sound : Sound w fulls partials free) {slab : Nat} {index : UInt32}
    (member : slab ∈ w.state.slabs) (index_lt : index.toNat < w.state.shape.count) :
    pageFindHead w.state (w.state.address slab index) = some slab ∧
      UInt32.ofNat ((w.state.address slab index - (w.state.header slab).object) /
        w.state.shape.objectSize.toNat) = index := by
  have some := sound.roomy.object_positive
  obtain ⟨lower, upper⟩ := sound.address_inside member index_lt
  constructor
  · apply sound.pageFindHead_eq member
    · omega
    · omega
  · rw [sound.address_eq member index_lt, (sound.placed slab member).2.2, Nat.add_sub_cancel_left,
      Nat.mul_div_cancel_left _ some, UInt32.ofNat_toNat]

/-- `slab_cache_free` of a live object puts it in front of the free ones of its slab, and releases
`slab_lock` when that slab had none. -/
theorem release (sound : Sound w fulls partials free) {obj : Nat} (live : obj ∈ w.live) :
    ∃ slab ∈ w.state.slabs, ∃ index : UInt32, index.toNat < w.state.shape.count ∧
      obj = w.state.address slab index ∧ ∃ exit t,
        slabCacheFree w.state obj = .ok (exit, t) ∧ (exit = .slabLock ↔ free slab = []) ∧
        t.shape = w.state.shape ∧ t.first slab = obj ∧
        (∀ b, b ≠ slab → t.first b = w.state.first b) ∧
        ∃ fulls' partials' free', Sound ⟨t, w.live.erase obj⟩ fulls' partials' free' := by
  obtain ⟨slab, member, index, index_lt, not_free, rfl⟩ := (sound.live_iff obj).mp live
  refine ⟨slab, member, index, index_lt, rfl, ?_⟩
  obtain ⟨found, number⟩ := sound.find_object member index_lt
  have numbered := sound.numbered slab member
  set freed : State := { w.state with
    freeList := Function.update w.state.freeList slab
      (Function.update (w.state.freeList slab) index (w.state.header slab).free)
    header := Function.update w.state.header slab
      { w.state.header slab with free := index } } with freed_eq
  have numbers : freed.freeList slab =
      Function.update (w.state.freeList slab) index (w.state.header slab).free := by
    simp [freed_eq]
  have limit_ne : slabMaxObjectNum w.state.shape ≠ index := by
    rintro rfl
    exact lt_irrefl _ index_lt
  have mark_iff : freed.freeList slab (w.state.header slab).free = slabFreeEnd ↔
      free slab = [] := by
    rw [numbers]
    rcases numbered.free_cases with ⟨empty, ends⟩ | ⟨more, some⟩
    · rw [ends, Function.update_of_ne limit_ne, numbered.last]
      exact iff_of_true rfl empty
    · have first : (w.state.header slab).free ∈ free slab := by
        rw [some]
        exact List.mem_cons_self
      have differs : (w.state.header slab).free ≠ index := by
        intro same
        exact not_free (same ▸ first)
      rw [Function.update_of_ne differs]
      refine iff_of_false (numbered.ne_end sound.roomy first) ?_
      rw [some]
      exact List.cons_ne_nil _ _
  have live_nodup := sound.live_nodup.erase (w.state.address slab index)
  have live_iff := sound.live_put member index_lt
  have nexts : (fun b => (freed.header b).next) = fun b => (w.state.header b).next := by
    funext b
    by_cases same : b = slab
    · simp [freed_eq, same]
    · simp [freed_eq, same]
  have object : ∀ b, (freed.header b).object = (w.state.header b).object := by
    intro b
    by_cases same : b = slab
    · simp [freed_eq, same]
    · simp [freed_eq, same]
  by_cases empty : free slab = []
  · -- The slab was full and is looked up.
    have in_full : slab ∈ fulls := (sound.full_iff slab member).mpr empty
    obtain ⟨front, back, split⟩ := List.append_of_mem in_full
    have full := sound.full
    have nodup := sound.nodup
    rw [← nexts, split] at full
    rw [split] at nodup
    have some_free := sound.some_free
    rw [← nexts] at some_free
    have full_nodup := (List.nodup_append.mp nodup).1
    have fresh : slab ∉ front := by
      have middle := List.perm_middle.nodup_iff.mp full_nodup
      exact fun inside => (List.nodup_cons.mp middle).1 (List.mem_append_left _ inside)
    have enough : front.length < w.state.slabs.length + 1 := by
      have fewer : (front ++ slab :: back).length ≤ w.state.slabs.length := by
        apply (List.subperm_of_subset full_nodup _).length_le
        intro b inside
        exact (sound.slabs b).mpr (Or.inl (split ▸ inside))
      rw [List.length_append] at fewer
      omega
    have search := @moveLoop_eq freed slab front back [] _ _ full fresh enough
    obtain ⟨full_after, some_after⟩ := moveSlab_links full some_free nodup
    set moved := moveSlab freed front.getLast? slab with moved_eq
    have fields : ∀ b, (moved.header b).free = (freed.header b).free ∧
        (moved.header b).object = (freed.header b).object := by
      intro b
      rw [moved_eq, moveSlab]
      cases front.getLast? with
      | none =>
          by_cases same : b = slab
          · simp [storeLink, State.setNext, same]
          · simp [storeLink, State.setNext, same]
      | some before =>
          by_cases same : b = slab
          · subst same
            by_cases here : b = before
            · simp [storeLink, State.setNext, here]
            · simp [storeLink, State.setNext, here]
          · by_cases here : b = before
            · subst here
              simp [storeLink, State.setNext, same]
            · simp [storeLink, State.setNext, same, here]
    have rest : moved.shape = w.state.shape ∧ moved.slabs = w.state.slabs ∧
        moved.freeList = freed.freeList := by
      rw [moved_eq, moveSlab]
      cases front.getLast? with
      | none => exact ⟨rfl, rfl, rfl⟩
      | some before => exact ⟨rfl, rfl, rfl⟩
    have head : (moved.header slab).free = index := by
      rw [(fields slab).1]
      simp [freed_eq]
    refine ⟨.slabLock, moved, ?_, iff_of_true rfl empty, rest.1, ?_, ?_, front ++ back,
      slab :: partials, Function.update free slab (index :: free slab), ?_⟩
    · simp only [slabCacheFree, found, number]
      rw [if_pos (mark_iff.mpr empty)]
      simp only [List.getLast?_nil, List.nil_append] at search
      rw [search]
      rfl
    · rw [State.first, head, State.address, State.address, (fields slab).2, object slab, rest.1]
    · intro b differs
      have free_eq : (freed.header b).free = (w.state.header b).free := by
        simp [freed_eq, differs]
      rw [State.first, State.first, State.address, State.address, (fields b).1, (fields b).2,
        object b, rest.1, free_eq]
    · apply sound.change rest.1 rest.2.1
      · intro b
        rw [(fields b).2, object b]
      · intro b differs
        rw [(fields b).1, rest.2.2]
        simp [freed_eq, differs]
      · exact full_after
      · exact some_after
      · have rotated : (slab :: (front ++ back) ++ partials).Nodup :=
          (List.perm_middle.append_right partials).nodup_iff.mp nodup
        exact List.perm_middle.nodup_iff.mpr rotated
      · intro b
        rw [split]
        simp only [List.mem_append, List.mem_cons]
        tauto
      · intro b differs
        rw [split]
        simp [differs]
      · have middle := List.perm_middle.nodup_iff.mp full_nodup
        exact iff_of_false (List.nodup_cons.mp middle).1 (List.cons_ne_nil _ _)
      · refine numbered.put rest.1 index_lt not_free ?_ head
        rw [rest.2.2, numbers]
      · exact live_nodup
      · exact live_iff
  · refine ⟨.cacheLock, freed, ?_, iff_of_false (fun same => by cases same) empty, rfl, ?_, ?_,
      fulls, partials, Function.update free slab (index :: free slab), ?_⟩
    · simp only [slabCacheFree, found, number]
      rw [if_neg (mark_iff.not.mpr empty)]
      rfl
    · rw [State.first, State.address, State.address, object slab]
      simp [freed_eq]
    · intro b differs
      simp [State.first, State.address, freed_eq, differs]
    · apply sound.change (show freed.shape = _ from rfl) (show freed.slabs = _ from rfl) object
      · intro b differs
        simp [freed_eq, differs]
      · rw [nexts]
        exact sound.full
      · rw [nexts]
        exact sound.some_free
      · exact sound.nodup
      · exact fun b => Iff.rfl
      · exact fun b _ => Iff.rfl
      · have not_full : slab ∉ fulls := fun inside => empty ((sound.full_iff slab member).mp inside)
        exact iff_of_false not_full (List.cons_ne_nil _ _)
      · exact numbered.put rfl index_lt not_free numbers (by simp [freed_eq])
      · exact live_nodup
      · exact live_iff

/-! ## Objects -/

/-- An allocation leaves the sizes alone. -/
theorem takeObject_shape (s : State) (slab : Nat) : (Slab.takeObject s slab).2.shape = s.shape := by
  rw [Slab.takeObject]
  dsimp only
  split <;> rfl

theorem slabCacheAlloc_shape (s : State) (fresh : Nat) :
    (slabCacheAlloc s fresh).2.shape = s.shape := by
  rw [slabCacheAlloc]
  split
  · exact takeObject_shape s _
  · exact takeObject_shape _ _

/-- Two objects do not overlap. -/
theorem address_apart (sound : Sound w fulls partials free) {a b : Nat}
    (a_mem : a ∈ w.state.slabs) (b_mem : b ∈ w.state.slabs) {k l : UInt32}
    (k_lt : k.toNat < w.state.shape.count) (l_lt : l.toNat < w.state.shape.count)
    (differs : w.state.address a k ≠ w.state.address b l) :
    w.state.address a k + w.state.shape.objectSize.toNat ≤ w.state.address b l ∨
      w.state.address b l + w.state.shape.objectSize.toNat ≤ w.state.address a k := by
  by_cases same : a = b
  · subst same
    have numbers : k.toNat ≠ l.toNat := by
      intro equal
      exact differs (by rw [UInt32.toNat_inj.mp equal])
    rw [sound.address_eq a_mem k_lt, sound.address_eq a_mem l_lt]
    rcases Nat.lt_or_gt_of_ne numbers with less | greater
    · left
      have step := Nat.mul_le_mul_left w.state.shape.objectSize.toNat (Nat.succ_le_of_lt less)
      rw [Nat.mul_succ] at step
      omega
    · right
      have step := Nat.mul_le_mul_left w.state.shape.objectSize.toNat (Nat.succ_le_of_lt greater)
      rw [Nat.mul_succ] at step
      omega
  · have first := sound.address_inside a_mem k_lt
    have second := sound.address_inside b_mem l_lt
    rcases sound.apart a a_mem b b_mem same with before | after
    · omega
    · omega

/-- Live objects do not overlap. -/
theorem live_apart {size : UInt32} (sound : Sound w fulls partials free)
    (valid : w.state.shape.Valid size) :
    w.live.Pairwise fun a b => a + size.toNat ≤ b ∨ b + size.toNat ≤ a := by
  apply sound.live_nodup.pairwise_of_forall_ne
  intro x x_mem y y_mem differs
  have size_le := valid.size_le
  obtain ⟨a, a_mem, k, k_lt, _, rfl⟩ := (sound.live_iff x).mp x_mem
  obtain ⟨b, b_mem, l, l_lt, _, rfl⟩ := (sound.live_iff y).mp y_mem
  rcases sound.address_apart a_mem b_mem k_lt l_lt differs with before | after
  · left
    omega
  · right
    omega

/-- A live object is aligned and lies in the object area of its slab. -/
theorem live_inside {size : UInt32} (sound : Sound w fulls partials free)
    (valid : w.state.shape.Valid size) {obj : Nat} (live : obj ∈ w.live) :
    (effective w.state.shape.alignment).toNat ∣ obj ∧ ∃ slab ∈ w.state.slabs,
      slab + slabHeaderBytes + 4 * (w.state.shape.count + 1) ≤ (w.state.header slab).object ∧
      (w.state.header slab).object ≤ obj ∧
      obj + size.toNat ≤ (w.state.header slab).object +
        w.state.shape.count * w.state.shape.objectSize.toNat ∧
      (w.state.header slab).object + w.state.shape.count * w.state.shape.objectSize.toNat ≤
        slab + w.state.shape.slabSize.toNat := by
  obtain ⟨slab, member, k, k_lt, _, rfl⟩ := (sound.live_iff obj).mp live
  obtain ⟨pages, below, object⟩ := sound.placed slab member
  obtain ⟨lower, upper⟩ := sound.roomy.objectStart_bounds below
  have aligned := valid.objectStart_dvd pages below
  have size_le := valid.size_le
  have whole := Nat.mul_le_mul_right w.state.shape.objectSize.toNat (Nat.succ_le_of_lt k_lt)
  rw [Nat.succ_mul, Nat.mul_comm] at whole
  rw [sound.address_eq member k_lt]
  constructor
  · exact Nat.dvd_add aligned (valid.aligned.trans (Nat.dvd_mul_right _ _))
  · refine ⟨slab, member, ?_⟩
    rw [object]
    omega

theorem initial {length : Nat} {size alignment : UInt32} {s : State}
    (created : slabCacheCreate length size alignment = some s) (roomy : s.shape.Roomy) :
    Sound ⟨s, []⟩ [] [] fun _ => [] := by
  obtain ⟨no_full, no_partial, no_slabs⟩ := slabCacheCreate_empty created
  constructor
  case roomy => exact roomy
  case full => exact no_full
  case some_free => exact no_partial
  case nodup => exact List.nodup_nil
  case live_nodup => exact List.nodup_nil
  all_goals simp [no_slabs]

/-- One call keeps the invariant and the sizes. -/
theorem step (sound : Sound w fulls partials free) {call : Call} {next : World}
    (permitted : w.Permits call) (succeeds : w.step call = .ok next) :
    next.state.shape = w.state.shape ∧
      ∃ fulls' partials' free', Sound next fulls' partials' free' := by
  cases call with
  | alloc fresh =>
      cases succeeds
      exact ⟨slabCacheAlloc_shape w.state fresh, (sound.alloc permitted).2⟩
  | free obj =>
      obtain ⟨_, _, _, _, _, exit, t, freed, _, shape, _, _, after⟩ := sound.release permitted
      rw [World.step, freed] at succeeds
      cases succeeds
      exact ⟨shape, after⟩

end Sound

/-- Taking an object of another slab. -/
theorem takeObject_first {s : State} {slab b : Nat} (differs : b ≠ slab) :
    (takeObject s slab).2.first b = s.first b := by
  rw [takeObject]
  dsimp only
  split
  · simp [State.first, State.address, State.setNext, differs]
  · simp [State.first, State.address, differs]

/-- An allocation from another slab. -/
theorem slabCacheAlloc_first {s : State} {fresh b : Nat} (other : s.slabsPartial ≠ some b)
    (apart : b ≠ fresh) : (slabCacheAlloc s fresh).2.first b = s.first b := by
  rw [slabCacheAlloc]
  split
  · next slab found =>
      apply takeObject_first
      rintro rfl
      exact other found
  · rw [takeObject_first apart]
    simp [State.first, State.address, slabNew, apart]

/-- In every run of a cache made for an alignment that is zero or a power of two and for a size that
does not wrap, live objects are apart, aligned and inside the object area of a slab; the free
objects of a slab are enumerated from `header->free` to the mark behind the last number; a slab is
on `slabs_full` when it has none and on `slabs_partial` otherwise; `slab_cache_free` succeeds, and
what it puts back is what the next allocation from the slab takes. -/
theorem slab_cache_sound {length : Nat} {size alignment : UInt32} {s : State}
    (sized : Sized size alignment) (created : slabCacheCreate length size alignment = some s)
    {w : World} (reached : GuardedRun.Reaches World.Permits World.step ⟨s, []⟩ w) :
    (w.live.Pairwise fun a b => a + size.toNat ≤ b ∨ b + size.toNat ≤ a) ∧
    (∀ obj ∈ w.live, (effective alignment).toNat ∣ obj ∧ ∃ slab ∈ w.state.slabs,
      slab + slabHeaderBytes + 4 * (w.state.shape.count + 1) ≤ (w.state.header slab).object ∧
      (w.state.header slab).object ≤ obj ∧
      obj + size.toNat ≤ (w.state.header slab).object +
        w.state.shape.count * w.state.shape.objectSize.toNat ∧
      (w.state.header slab).object + w.state.shape.count * w.state.shape.objectSize.toNat ≤
        slab + w.state.shape.slabSize.toNat) ∧
    (∃ (fulls partials : List Nat) (free : Nat → List UInt32),
      (∀ slab ∈ w.state.slabs, Numbered w.state slab (free slab) ∧
        (∀ k : UInt32, k.toNat < w.state.shape.count →
          (k ∈ free slab ↔ w.state.address slab k ∉ w.live)) ∧
        (slab ∈ fulls ↔ free slab = []) ∧ (slab ∈ partials ↔ free slab ≠ [])) ∧
      IsChain (fun slab => (w.state.header slab).next) w.state.slabsFull fulls ∧
      IsChain (fun slab => (w.state.header slab).next) w.state.slabsPartial partials ∧
      (fulls ++ partials).Nodup ∧ ∀ slab, slab ∈ w.state.slabs ↔ slab ∈ fulls ∨ slab ∈ partials) ∧
    (∀ obj ∈ w.live, ∃ slab ∈ w.state.slabs, slab ≤ obj ∧
      obj < slab + w.state.shape.slabSize.toNat ∧ ∃ next, w.step (.free obj) = .ok next ∧
        next.state.first slab = obj ∧
        ∀ b ∈ w.state.slabs, b ≠ slab → next.state.first b = w.state.first b) ∧
    ∀ fresh, Fresh w.state fresh →
      (∀ slab, w.state.slabsPartial = some slab →
        (slabCacheAlloc w.state fresh).1 = w.state.first slab) ∧
      ∀ b ∈ w.state.slabs, w.state.slabsPartial ≠ some b →
        (slabCacheAlloc w.state fresh).2.first b = w.state.first b := by
  have invariant : w.state.shape = s.shape ∧
      ∃ fulls partials free, Sound w fulls partials free := by
    refine reached.invariant (fun w => w.state.shape = s.shape ∧
      ∃ fulls partials free, Sound w fulls partials free) ⟨rfl, _, _, _,
        Sound.initial created (slabCacheCreate_valid sized created).roomy⟩ ?_
    rintro state next call ⟨shape, fulls, partials, free, sound⟩ permitted succeeds
    obtain ⟨same, after⟩ := sound.step permitted succeeds
    exact ⟨same.trans shape, after⟩
  obtain ⟨shape, fulls, partials, free, sound⟩ := invariant
  have valid : w.state.shape.Valid size := by
    rw [shape]
    exact slabCacheCreate_valid sized created
  have asked : w.state.shape.alignment = alignment := by
    rw [shape]
    rw [slabCacheCreate] at created
    split at created
    · cases created
    · split at created
      · cases created
      · rw [Option.map_eq_some_iff] at created
        obtain ⟨slabSize, _, rfl⟩ := created
        rfl
  refine ⟨sound.live_apart valid, ?_, ⟨fulls, partials, free, ?_, sound.full, sound.some_free,
    sound.nodup, sound.slabs⟩, ?_, ?_⟩
  · intro obj live
    rw [← asked]
    exact sound.live_inside valid live
  · intro slab member
    refine ⟨sound.numbered slab member, ?_, sound.full_iff slab member, ?_⟩
    · intro k k_lt
      rw [sound.live_iff]
      constructor
      · rintro is_free ⟨b, b_mem, l, l_lt, taken, same⟩
        obtain ⟨rfl, rfl⟩ := sound.address_inj member b_mem k_lt l_lt same
        exact taken is_free
      · intro not_live
        by_contra taken
        exact not_live ⟨slab, member, k, k_lt, taken, rfl⟩
    · rw [Ne, ← sound.full_iff slab member]
      have listed := (sound.slabs slab).mp member
      constructor
      · intro here full
        have apart := (List.nodup_append.mp sound.nodup).2.2
        exact apart slab full slab here rfl
      · intro not_full
        exact listed.resolve_left not_full
  · intro obj live
    obtain ⟨slab, member, index, index_lt, obj_eq, exit, t, freed, _, t_shape, first, others, _⟩ :=
      sound.release live
    have inside := sound.address_inside member index_lt
    have some := sound.roomy.object_positive
    rw [← obj_eq] at inside
    refine ⟨slab, member, by omega, by omega, ⟨t, w.live.erase obj⟩, ?_, first, ?_⟩
    · rw [World.step, freed]
      rfl
    · exact fun b _ differs => others b differs
  · intro fresh is_fresh
    refine ⟨(sound.alloc is_fresh).1, ?_⟩
    intro b member other
    apply slabCacheAlloc_first other
    rintro rfl
    have apart := is_fresh.2.2 b member
    have room := sound.roomy.room
    have positive := sound.roomy.object_positive
    omega

/-- A cache for objects of 88 bytes: two objects are taken, the first one is put back and taken
again. -/
theorem slab_cache_sound_reuse : ∃ s w, slabCacheCreate 11 88 0 = some s ∧
    GuardedRun.Reaches World.Permits World.step ⟨s, []⟩ w ∧
      w.live = [0x806000CC, 0x80600124] ∧
      w.live.Pairwise fun a b => a + (88 : UInt32).toNat ≤ b ∨ b + (88 : UInt32).toNat ≤ a := by
  have sized : Sized 88 0 := ⟨Or.inl rfl, by decide⟩
  obtain ⟨s, created⟩ :=
    Option.isSome_iff_exists.mp (show (slabCacheCreate 11 88 0).isSome from rfl)
  have same : (slabCacheCreate 11 88 0).get rfl = s := by simp only [created, Option.get_some]
  obtain ⟨w, reached, passes⟩ :=
    GuardedRun.exists_reaches_of_replay World.Permits World.step
      ⟨(slabCacheCreate 11 88 0).get rfl, []⟩
      [.alloc 0x80600000, .alloc 0x80601000, .free 0x806000CC, .alloc 0x80602000]
      (fun w => w.live = [0x806000CC, 0x80600124]) (by decide +kernel)
  rw [same] at reached
  exact ⟨s, w, created, reached, of_decide_eq_true passes,
    (slab_cache_sound sized created reached).1⟩

/-- A size that wraps when it is rounded up makes a cache of empty objects, which all have one
address. -/
theorem wrapped_size_overlaps : ∃ s w, slabCacheCreate 4 0xFFFFFFFF 0 = some s ∧
    GuardedRun.Reaches World.Permits World.step ⟨s, []⟩ w ∧
      ¬w.live.Pairwise fun a b =>
        a + (0xFFFFFFFF : UInt32).toNat ≤ b ∨ b + (0xFFFFFFFF : UInt32).toNat ≤ a := by
  obtain ⟨s, created⟩ :=
    Option.isSome_iff_exists.mp (show (slabCacheCreate 4 0xFFFFFFFF 0).isSome from rfl)
  have same : (slabCacheCreate 4 0xFFFFFFFF 0).get rfl = s := by
    simp only [created, Option.get_some]
  obtain ⟨w, reached, passes⟩ :=
    GuardedRun.exists_reaches_of_replay World.Permits World.step
      ⟨(slabCacheCreate 4 0xFFFFFFFF 0).get rfl, []⟩
      [.alloc 0x80600000, .alloc 0x80601000]
      (fun w => w.live = [0x80601000, 0x80601000]) (by decide +kernel)
  rw [same] at reached
  refine ⟨s, w, created, reached, ?_⟩
  rw [of_decide_eq_true passes]
  decide

end Slab
end Xv6Duo
