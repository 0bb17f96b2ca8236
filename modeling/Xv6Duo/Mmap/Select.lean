import Mathlib.Tactic
import Xv6Duo.Library.IntervalMap
import Xv6Duo.Mmap.Model
import Xv6Duo.Vm.Pte

/-!
# Where `mmap` puts a region

Without `MAP_FIXED` the scan for an address ends in a gap of the list, which is the one that the
hint points to if it is large enough. The scan that links the region finds the same gap, so the list
stays sorted.
-/

namespace Xv6Duo
namespace Mmap

open Vm IntervalMap

/-- The first address behind a region. -/
def MmapRegion.stop (region : MmapRegion) : Nat := region.addr + region.length

/-- A list of regions in order, apart from each other, of whole pages below `USERTOP`. -/
structure Sound (regions : List MmapRegion) : Prop where
  /-- Each region ends before the next one begins. -/
  ordered : Ordered (fun region : MmapRegion => region.addr) MmapRegion.stop regions
  /-- Regions begin at pages. -/
  addr_page : ∀ region ∈ regions, pgsize ∣ region.addr
  /-- Regions are of whole pages. -/
  length_page : ∀ region ∈ regions, pgsize ∣ region.length
  /-- Regions are not empty. -/
  nonempty : ∀ region ∈ regions, 0 < region.length
  /-- Regions are for the user. -/
  below : ∀ region ∈ regions, region.stop ≤ usertop

theorem pgroundup_eq {sz : Nat} (fits : sz + pgsize - 1 < 2 ^ 64) :
    pgroundup sz = (sz + pgsize - 1) / pgsize * pgsize := by
  have rounded := pgrounddown_eq fits
  rw [pgrounddown] at rounded
  rw [pgroundup, Nat.mod_eq_of_lt fits, rounded]

theorem usertop_eq : usertop = 2 ^ 38 - 3 * 4096 := by decide

variable {node region : MmapRegion} {rest regions passed before after : List MmapRegion}
  {addr size : Nat}

theorem Sound.tail (sound : Sound (node :: rest)) : Sound rest where
  ordered := (ordered_cons.mp sound.ordered).2
  addr_page r mem := sound.addr_page r (List.mem_cons_of_mem node mem)
  length_page r mem := sound.length_page r (List.mem_cons_of_mem node mem)
  nonempty r mem := sound.nonempty r (List.mem_cons_of_mem node mem)
  below r mem := sound.below r (List.mem_cons_of_mem node mem)

theorem Sound.finish_eq (sound : Sound regions) (mem : region ∈ regions) :
    region.finish = region.stop := by
  have below := sound.below region mem
  rw [usertop_eq] at below
  rw [MmapRegion.finish]
  exact Nat.mod_eq_of_lt (Nat.lt_of_le_of_lt below (by decide))

/-- An address before the first region is before all of them. -/
theorem Sound.le_addr (sound : Sound regions) {limit : Nat}
    (first : ∀ head ∈ regions.head?, limit ≤ head.addr) (mem : region ∈ regions) :
    limit ≤ region.addr := by
  cases regions with
  | nil => exact absurd mem List.not_mem_nil
  | cons node rest =>
      have least := first node rfl
      rcases List.mem_cons.mp mem with rfl | later
      · exact least
      · have apart := (ordered_cons.mp sound.ordered).1 region later
        exact least.trans ((Nat.le_add_right _ _).trans apart)

/-! ## The scan for an address -/

/-- The regions before an address and those behind a range that starts there. -/
structure Gap (regions : List MmapRegion) (addr size : Nat) (before after : List MmapRegion) :
    Prop where
  /-- Together they are the list. -/
  split : regions = before ++ after
  /-- Those before end there. -/
  left : ∀ region ∈ before, region.stop ≤ addr
  /-- Those behind begin behind the range. -/
  right : ∀ region ∈ after, addr + size ≤ region.addr

/-- The scan ends in a gap, at its start or at the end of a region. -/
theorem selectAddr_gap (sound : Sound regions) (low : addr ≤ usertop) (small : size ≤ 2 ^ 63) :
    ∃ before after, Gap regions (selectAddr size regions addr) size before after ∧
      addr ≤ selectAddr size regions addr ∧
      (selectAddr size regions addr = addr ∨
        ∃ region ∈ regions, selectAddr size regions addr = region.stop) := by
  induction regions generalizing addr with
  | nil => exact ⟨[], [], ⟨rfl, by simp, by simp⟩, le_refl addr, Or.inl rfl⟩
  | cons node rest ih =>
      have top := usertop_eq
      have fits : (addr + size) % 2 ^ 64 = addr + size := Nat.mod_eq_of_lt (by omega)
      have finish := sound.finish_eq List.mem_cons_self
      have below := sound.below node List.mem_cons_self
      rw [selectAddr, fits, finish]
      split
      · next free =>
          refine ⟨[], node :: rest, ⟨rfl, by simp, fun r mem => ?_⟩, le_refl addr, Or.inl rfl⟩
          apply sound.le_addr _ mem
          rintro _ ⟨⟩
          exact free
      · split
        · next free =>
            refine ⟨[node], rest, ⟨rfl, ?_, fun r mem => ?_⟩, le_refl addr, Or.inl rfl⟩
            · intro r mem
              rw [List.mem_singleton.mp mem]
              exact free.1
            · exact sound.tail.le_addr free.2 mem
        · have next_low : (if addr ≤ node.stop then node.stop else addr) ≤ usertop := by
            split_ifs
            · exact below
            · exact low
          obtain ⟨before, after, gap, least, chosen⟩ := ih sound.tail next_low
          refine ⟨node :: before, after, ⟨?_, ?_, gap.right⟩, ?_, ?_⟩
          · rw [List.cons_append, ← gap.split]
          · intro r mem
            rcases List.mem_cons.mp mem with rfl | later
            · refine le_trans ?_ least
              split_ifs <;> omega
            · exact gap.left r later
          · refine le_trans ?_ least
            split_ifs <;> omega
          · rcases chosen with start | ⟨r, mem, same⟩
            · rw [start]
              split_ifs
              · exact Or.inr ⟨node, List.mem_cons_self, rfl⟩
              · exact Or.inl rfl
            · exact Or.inr ⟨r, List.mem_cons_of_mem node mem, same⟩

/-- The scan keeps a hint whose range is free. -/
theorem selectAddr_hint (sound : Sound regions) (low : addr ≤ usertop) (small : size ≤ 2 ^ 63)
    (free : ∀ region ∈ regions, region.stop ≤ addr ∨ addr + size ≤ region.addr) :
    selectAddr size regions addr = addr := by
  induction regions with
  | nil => rfl
  | cons node rest ih =>
      have top := usertop_eq
      have fits : (addr + size) % 2 ^ 64 = addr + size := Nat.mod_eq_of_lt (by omega)
      have rest_free := ih sound.tail fun r mem => free r (List.mem_cons_of_mem node mem)
      rw [selectAddr, fits, sound.finish_eq List.mem_cons_self]
      split
      · rfl
      · next overlaps =>
          split
          · rfl
          · have passed : node.stop ≤ addr := by
              rcases free node List.mem_cons_self with left | right
              · exact left
              · exact absurd right overlaps
            have stays : (if addr ≤ node.stop then node.stop else addr) = addr := by
              split_ifs <;> omega
            rw [stays, rest_free]

/-! ## The scan for the place in the list -/

/-- The new region is linked between those before and those behind it. -/
theorem insertLoop_eq (left : ∀ r ∈ before, r.addr < region.addr)
    (right : ∀ r ∈ after, region.addr < r.addr) (some_region : before ++ after ≠ [])
    (kept : before ≠ [] ∨ passed = []) :
    insertLoop region passed (before ++ after) = passed ++ before ++ region :: after := by
  induction before generalizing passed with
  | nil =>
      have nothing : passed = [] := by simpa using kept
      subst nothing
      cases after with
      | nil => exact absurd rfl some_region
      | cons node rest =>
          rw [List.nil_append, insertLoop, if_pos (right node List.mem_cons_self)]
          rfl
  | cons node before ih =>
      have node_left := left node List.mem_cons_self
      rw [List.cons_append, insertLoop, if_neg (Nat.lt_asymm node_left)]
      cases before with
      | nil =>
          cases after with
          | nil =>
              have last : [] ++ [] = ([] : List MmapRegion) := rfl
              have none : ¬∃ next ∈ ([] ++ [] : List MmapRegion).head?,
                region.addr < next.addr := by
                simp
              rw [if_neg fun both => none both.2, if_pos last]
              simp
          | cons next rest =>
              rw [if_pos ⟨node_left, next, rfl, right next List.mem_cons_self⟩]
              simp
      | cons next before =>
          have next_left := left next (List.mem_cons_of_mem node List.mem_cons_self)
          rw [if_neg, if_neg (by simp)]
          · rw [ih (fun r mem => left r (List.mem_cons_of_mem node mem)) (by simp)
              (Or.inl (by simp))]
            simp
          · rintro ⟨-, r, same, less⟩
            cases same
            exact Nat.lt_asymm less next_left

theorem insertRegion_eq (left : ∀ r ∈ before, r.addr < region.addr)
    (right : ∀ r ∈ after, region.addr < r.addr) :
    insertRegion region (before ++ after) = before ++ region :: after := by
  rw [insertRegion]
  split
  · next none =>
      obtain ⟨rfl, rfl⟩ := List.append_eq_nil_iff.mp none
      rfl
  · next some_region => exact insertLoop_eq left right some_region (Or.inr rfl)

/-! ## The whole call -/

/-- The part of `mmap` behind the choice of an address, where it does not fail. -/
theorem mapRegion_returns {env : Env} {length prot flags offset : Nat} {f : Option File}
    {value : Int} {regions' : List MmapRegion}
    (call : mapRegion env regions addr length prot flags f offset = (value, regions'))
    (succeeds : 0 ≤ value) :
    (addr + pgroundup length) % 2 ^ 64 ≤ usertop ∧ value = addr ∧
      regions' = insertRegion ⟨⟨addr, pgroundup length, flags⟩, offset, f, prot⟩ regions := by
  rw [mapRegion] at call
  have failed : ¬(0 : Int) ≤ -enomem := by decide
  have invalid : ¬(0 : Int) ≤ -einval := by decide
  split_ifs at call with high node both fails
  · cases call
    exact absurd succeeds failed
  · cases call
    exact absurd succeeds invalid
  · cases call
    exact absurd succeeds (Int.not_le_of_gt fails)
  · cases call
    exact ⟨Nat.le_of_not_lt high, rfl, rfl⟩
  · cases call
    exact absurd succeeds failed

theorem pgsize_dvd_pgroundup {sz : Nat} (fits : sz + pgsize - 1 < 2 ^ 64) :
    pgsize ∣ pgroundup sz := by
  rw [pgroundup_eq fits]
  exact Nat.dvd_mul_left pgsize _

theorem le_pgroundup {sz : Nat} (fits : sz + pgsize - 1 < 2 ^ 64) : sz ≤ pgroundup sz := by
  rw [pgroundup_eq fits]
  have whole := Nat.div_add_mod (sz + pgsize - 1) pgsize
  have less := Nat.mod_lt (sz + pgsize - 1) (show 0 < pgsize by decide)
  rw [Nat.mul_comm] at whole
  omega

theorem pgroundup_le {sz : Nat} (fits : sz < 2 ^ 63) : pgroundup sz ≤ 2 ^ 63 := by
  have page : pgsize = 4096 := rfl
  rw [pgroundup_eq (by omega), page]
  omega

/-- The regions with a new one in a gap. -/
theorem Sound.insert (sound : Sound (before ++ after))
    (gap : Gap (before ++ after) addr size before after)
    (here : region.addr = addr) (long : region.length = size) (page : pgsize ∣ addr)
    (pages : pgsize ∣ size) (positive : 0 < size) (below : addr + size ≤ usertop) :
    Sound (before ++ region :: after) := by
  have each {P : MmapRegion → Prop} (old : ∀ r ∈ before ++ after, P r) (new : P region) :
      ∀ r ∈ before ++ region :: after, P r := by
    intro r mem
    rcases List.mem_append.mp mem with earlier | later
    · exact old r (List.mem_append_left after earlier)
    · rcases List.mem_cons.mp later with rfl | last
      · exact new
      · exact old r (List.mem_append_right before last)
  have stop : region.stop = addr + size := by rw [MmapRegion.stop, here, long]
  constructor
  · apply sound.ordered.insert
    · intro r mem
      rw [here]
      exact gap.left r mem
    · intro r mem
      rw [stop]
      exact gap.right r mem
  · exact each sound.addr_page (by rwa [here])
  · exact each sound.length_page (by rwa [long])
  · exact each sound.nonempty (by rwa [long])
  · exact each sound.below (by rwa [stop])


/-- The bytes of the pages of a range. -/
def extent (length : Nat) : Nat := (length + pgsize - 1) / pgsize * pgsize

/-- Nothing covers the points of a range. -/
def Unused (regions : List MmapRegion) (addr size : Nat) : Prop :=
  ∀ region ∈ regions, ∀ point, addr ≤ point → point < addr + size →
    ¬Covers (fun r : MmapRegion => r.addr) MmapRegion.stop region point

theorem unused_iff (sound : Sound regions) (positive : 0 < size) :
    Unused regions addr size ↔
      ∀ region ∈ regions, region.stop ≤ addr ∨ addr + size ≤ region.addr := by
  constructor
  · intro unused r mem
    by_contra crossing
    have long := sound.nonempty r mem
    have stop : r.stop = r.addr + r.length := rfl
    have inside : Covers (fun r : MmapRegion => r.addr) MmapRegion.stop r (max addr r.addr) :=
      ⟨le_max_right _ _, by omega⟩
    exact unused r mem (max addr r.addr) (le_max_left _ _) (by omega) inside
  · intro apart r mem point above below covers
    have from_start : r.addr ≤ point := covers.1
    have to_stop : point < r.stop := covers.2
    rcases apart r mem with left | right <;> omega

/-- What `mmap` is for: a new region at a page, in a part of the user's addresses that is not in
use, where the hint points to if that is possible. -/
structure Placed (hint : Nat) (regions : List MmapRegion) (region : MmapRegion)
    (regions' : List MmapRegion) : Prop where
  /-- The region begins at a page. -/
  page : pgsize ∣ region.addr
  /-- Its range was not in use. -/
  unused : Unused regions region.addr region.length
  /-- It ends below `USERTOP`. -/
  below : region.stop ≤ usertop
  /-- A hint is followed if its range is not in use. -/
  hinted : hint ≠ 0 → Unused regions (pgrounddown hint) region.length →
    region.addr = pgrounddown hint
  /-- It is linked between the others. -/
  linked : ∃ before after, regions = before ++ after ∧ regions' = before ++ region :: after
  /-- The list is sorted and the regions are disjoint. -/
  sound : Sound regions'

/-- A region that is linked at the address of a gap. -/
theorem Placed.of_gap {hint : Nat} (sound : Sound regions)
    (gap : Gap regions addr size before after) (here : region.addr = addr)
    (long : region.length = size) (page : pgsize ∣ addr) (pages : pgsize ∣ size)
    (positive : 0 < size) (below : addr + size ≤ usertop)
    (hinted : hint ≠ 0 → Unused regions (pgrounddown hint) size → addr = pgrounddown hint) :
    Placed hint regions region (insertRegion region regions) := by
  have split := gap.split
  have left (r : MmapRegion) (mem : r ∈ before) : r.addr < region.addr := by
    have ends := gap.left r mem
    have some_bytes := sound.nonempty r (split ▸ List.mem_append_left after mem)
    have stop : r.stop = r.addr + r.length := rfl
    omega
  have right (r : MmapRegion) (mem : r ∈ after) : region.addr < r.addr := by
    have starts := gap.right r mem
    omega
  subst split
  rw [insertRegion_eq left right]
  constructor
  · rwa [here]
  · rw [here, long, unused_iff sound positive]
    intro r mem
    rcases List.mem_append.mp mem with earlier | later
    · exact Or.inl (gap.left r earlier)
    · exact Or.inr (gap.right r later)
  · rwa [MmapRegion.stop, here, long]
  · rw [here, long]
    exact hinted
  · exact ⟨before, after, rfl, rfl⟩
  · exact sound.insert gap here long page pages positive below

theorem Sound.stop_page (sound : Sound regions) (mem : region ∈ regions) :
    pgsize ∣ region.stop :=
  (Nat.dvd_add_right (sound.addr_page region mem)).mpr (sound.length_page region mem)

/-- The candidate that the scan starts from. -/
def candidate (regions : List MmapRegion) (hint : Nat) : Nat :=
  if hint ≠ 0 then pgrounddown hint
  else match regions with
    | [] => mmapbase
    | region :: _ => region.addr

theorem candidate_page (sound : Sound regions) {hint : Nat} (low : hint < usertop) :
    pgsize ∣ candidate regions hint ∧ candidate regions hint ≤ usertop := by
  have top := usertop_eq
  unfold candidate
  split_ifs
  · rw [pgrounddown_eq (by omega)]
    refine ⟨Nat.dvd_mul_left pgsize _, ?_⟩
    exact (Nat.div_mul_le_self hint pgsize).trans low.le
  · cases regions with
    | nil => exact ⟨by decide, by decide⟩
    | cons node rest =>
        have below := sound.below node List.mem_cons_self
        exact ⟨sound.addr_page node List.mem_cons_self, (Nat.le_add_right _ _).trans below⟩

/-- Without `MAP_FIXED` there is one path through `mmap` that does not fail. -/
theorem mmap_returns {env : Env} {hint length prot flags offset : Nat} {f : Option File}
    {value : Int} {regions' : List MmapRegion} (floating : flags &&& mapFixed = 0)
    (call : mmap env regions hint length prot flags f offset = (value, regions'))
    (succeeds : 0 ≤ value) :
    mapRegion env regions (selectAddr (pgroundup length) regions (candidate regions hint)) length
      prot flags f offset = (value, regions') := by
  have invalid : ¬(0 : Int) ≤ -einval := by decide
  unfold mmap at call
  unfold candidate
  split_ifs at call ⊢ with given high fixed
  · cases call
    exact absurd succeeds invalid
  all_goals first | exact absurd floating ‹_› | exact call

/-- A call of `mmap` without `MAP_FIXED` that does not fail puts a region of the requested length
where it should, if and only if the length is one that `sys_mmap` accepts. For a length that a
header of an interpreter may name, the end of the range wraps around. -/
theorem mmap_places_iff {env : Env} {hint length prot flags offset : Nat} {f : Option File}
    {value : Int} {regions' : List MmapRegion} (sound : Sound regions)
    (floating : flags &&& mapFixed = 0) (low : hint < usertop) (positive : 0 < length)
    (call : mmap env regions hint length prot flags f offset = (value, regions'))
    (succeeds : 0 ≤ value) :
    (∃ addr : Nat, value = addr ∧
      Placed hint regions ⟨⟨addr, extent length, flags⟩, offset, f, prot⟩ regions') ↔
      length < 2 ^ 63 := by
  have top := usertop_eq
  have page_size : pgsize = 4096 := rfl
  constructor
  · rintro ⟨addr, -, placed⟩
    have stop : addr + extent length ≤ usertop := placed.below
    rw [extent, page_size] at stop
    omega
  · intro small
    obtain ⟨fits, same, rfl⟩ :=
      mapRegion_returns (mmap_returns floating call succeeds) succeeds
    have bounded : length + pgsize - 1 < 2 ^ 64 := by omega
    have size_eq : pgroundup length = extent length := pgroundup_eq bounded
    obtain ⟨start_page, start_low⟩ := candidate_page sound low
    have size_small := pgroundup_le small
    obtain ⟨before, after, gap, -, chosen⟩ := selectAddr_gap sound start_low size_small
    have page : pgsize ∣ selectAddr (pgroundup length) regions (candidate regions hint) := by
      rcases chosen with start | ⟨r, mem, stop⟩
      · rwa [start]
      · rw [stop]
        exact sound.stop_page mem
    have chosen_low : selectAddr (pgroundup length) regions (candidate regions hint) ≤ usertop := by
      rcases chosen with start | ⟨r, mem, stop⟩
      · rwa [start]
      · rw [stop]
        exact sound.below r mem
    have some_bytes := positive.trans_le (le_pgroundup bounded)
    rw [Nat.mod_eq_of_lt (by omega)] at fits
    refine ⟨_, same, ?_⟩
    rw [← size_eq]
    apply Placed.of_gap sound gap rfl rfl page (pgsize_dvd_pgroundup bounded) some_bytes fits
    intro given unused
    have start : candidate regions hint = pgrounddown hint := if_pos given
    rw [start] at start_low ⊢
    exact selectAddr_hint sound start_low size_small ((unused_iff sound some_bytes).mp unused)

/-- A hint in a gap that is large enough. -/
theorem mmap_places_between :
    ∃ addr : Nat, (0x2000002000 : Int) = addr ∧
      Placed 0x2000002010
        [⟨⟨0x2000000000, 0x2000, mapPrivate⟩, 0, none, 1⟩,
          ⟨⟨0x2000003000, 0x1000, mapPrivate⟩, 0, none, 1⟩]
        ⟨⟨addr, extent 100, mapPrivate ||| mapAnonymous⟩, 0, none, 1⟩
        [⟨⟨0x2000000000, 0x2000, mapPrivate⟩, 0, none, 1⟩,
          ⟨⟨0x2000002000, 0x1000, mapPrivate ||| mapAnonymous⟩, 0, none, 1⟩,
          ⟨⟨0x2000003000, 0x1000, mapPrivate⟩, 0, none, 1⟩] := by
  have sound : Sound [⟨⟨0x2000000000, 0x2000, mapPrivate⟩, 0, none, 1⟩,
      ⟨⟨0x2000003000, 0x1000, mapPrivate⟩, 0, none, 1⟩] := by
    constructor
    · exact List.pairwise_pair.mpr (by decide)
    all_goals decide
  have call : mmap ⟨true, true, 0⟩ [⟨⟨0x2000000000, 0x2000, mapPrivate⟩, 0, none, 1⟩,
      ⟨⟨0x2000003000, 0x1000, mapPrivate⟩, 0, none, 1⟩] 0x2000002010 100 1
        (mapPrivate ||| mapAnonymous) none 0 =
      (0x2000002000, [⟨⟨0x2000000000, 0x2000, mapPrivate⟩, 0, none, 1⟩,
        ⟨⟨0x2000002000, 0x1000, mapPrivate ||| mapAnonymous⟩, 0, none, 1⟩,
        ⟨⟨0x2000003000, 0x1000, mapPrivate⟩, 0, none, 1⟩]) := by decide +kernel
  exact (mmap_places_iff sound (by decide) (by decide) (by decide) call (by decide)).mpr (by decide)

/-- The length of a segment of an interpreter may be so large that the check of the end passes. -/
theorem mmap_wraps :
    mmap ⟨true, true, 0⟩ [] 0x100000000 (2 ^ 64 - 4096) 5 mapShared
        (some ⟨0x80000000, true, false, 100⟩) 0 =
      (0x100000000, [⟨⟨0x100000000, 2 ^ 64 - 4096, mapShared⟩, 0,
        some ⟨0x80000000, true, false, 100⟩, 5⟩]) ∧
    ¬∃ addr : Nat, (0x100000000 : Int) = addr ∧
      Placed 0x100000000 [] ⟨⟨addr, extent (2 ^ 64 - 4096), mapShared⟩, 0,
          some ⟨0x80000000, true, false, 100⟩, 5⟩
        [⟨⟨0x100000000, 2 ^ 64 - 4096, mapShared⟩, 0, some ⟨0x80000000, true, false, 100⟩, 5⟩] := by
  constructor
  · decide +kernel
  · rintro ⟨addr, -, placed⟩
    have large : usertop < extent (2 ^ 64 - 4096) := by decide +kernel
    have stop : addr + extent (2 ^ 64 - 4096) ≤ usertop := placed.below
    omega

end Mmap
end Xv6Duo
