import Xv6Duo.Mmap.Select

/-!
# Fixed addresses

`is_usable` goes through the regions for a reason to accept or to refuse a range. It accepts as soon
as some region begins behind the range, and does not look at the regions that were passed before.
Where it is right, a call with `MAP_FIXED` leaves the regions in order.
-/

namespace Xv6Duo
namespace Mmap

open Vm IntervalMap

/-- A list of regions in order, apart from each other. -/
structure Sorted (regions : List MmapRegion) : Prop where
  /-- Each region ends before the next one begins. -/
  ordered : Ordered (fun region : MmapRegion => region.addr) MmapRegion.stop regions
  /-- Regions are not empty. -/
  nonempty : ∀ region ∈ regions, 0 < region.length
  /-- Addresses have 64 bits. -/
  fits : ∀ region ∈ regions, region.stop < 2 ^ 64

variable {node region : MmapRegion} {rest regions : List MmapRegion} {addr length size : Nat}

theorem Sorted.tail (sorted : Sorted (node :: rest)) : Sorted rest where
  ordered := (ordered_cons.mp sorted.ordered).2
  nonempty r mem := sorted.nonempty r (List.mem_cons_of_mem node mem)
  fits r mem := sorted.fits r (List.mem_cons_of_mem node mem)

theorem Sorted.stop_le (sorted : Sorted (node :: rest)) (mem : region ∈ rest) :
    node.stop ≤ region.addr :=
  (ordered_cons.mp sorted.ordered).1 region mem

theorem Sorted.addr_lt_stop (sorted : Sorted regions) (mem : region ∈ regions) :
    region.addr < region.stop :=
  Nat.lt_add_of_pos_right (sorted.nonempty region mem)

/-- What the scan of `is_usable` accepts. -/
theorem isUsableLoop_iff (sorted : Sorted regions) (some_region : regions ≠ [])
    (fits : addr + length < 2 ^ 64) (positive : 0 < length) :
    isUsableLoop addr length regions = true ↔ (∀ region ∈ regions, region.addr ≠ addr) ∧
      ((∃ region ∈ regions, addr + length ≤ region.addr) ∨
        ∀ region ∈ regions, region.stop ≤ addr) := by
  induction regions with
  | nil => exact absurd rfl some_region
  | cons node rest ih =>
      have node_fits := sorted.fits node List.mem_cons_self
      have node_long := sorted.addr_lt_stop List.mem_cons_self
      have finish : node.finish = node.stop := Nat.mod_eq_of_lt node_fits
      rw [isUsableLoop, Nat.mod_eq_of_lt fits, finish]
      split
      · next same =>
          constructor
          · exact fun impossible => absurd impossible Bool.false_ne_true
          · rintro ⟨starts, -⟩
            exact absurd same.symm (starts node List.mem_cons_self)
      · next differ =>
          split
          · next before =>
              refine ⟨fun _ => ⟨?_, Or.inl ⟨node, List.mem_cons_self, before⟩⟩, fun _ => rfl⟩
              intro region mem
              rcases List.mem_cons.mp mem with rfl | later
              · exact Ne.symm differ
              · have behind := sorted.stop_le later
                omega
          · next reaches =>
              split
              · next between =>
                  refine ⟨fun _ => ⟨?_, ?_⟩, fun _ => rfl⟩
                  · intro region mem
                    rcases List.mem_cons.mp mem with rfl | later
                    · exact Ne.symm differ
                    · cases rest with
                      | nil => exact absurd later List.not_mem_nil
                      | cons next rest =>
                          have next_behind := between.2 next rfl
                          rcases List.mem_cons.mp later with rfl | last
                          · omega
                          · have apart := sorted.tail.stop_le last
                            have long := sorted.tail.addr_lt_stop List.mem_cons_self
                            omega
                  · cases rest with
                    | nil =>
                        refine Or.inr fun region mem => ?_
                        rw [List.mem_singleton.mp mem]
                        exact between.1
                    | cons next rest =>
                        exact Or.inl ⟨next, List.mem_cons_of_mem node List.mem_cons_self,
                          between.2 next rfl⟩
              · next blocked =>
                  cases rest with
                  | nil =>
                      have crossing : ¬node.stop ≤ addr := fun ends =>
                        blocked ⟨ends, fun next impossible => by cases impossible⟩
                      rw [isUsableLoop]
                      simp only [List.mem_singleton, forall_eq, exists_eq_left]
                      simp [reaches, crossing]
                  | cons next rest =>
                      rw [ih sorted.tail (List.cons_ne_nil next rest)]
                      constructor
                      · rintro ⟨starts, accepted⟩
                        refine ⟨?_, ?_⟩
                        · intro region mem
                          rcases List.mem_cons.mp mem with rfl | later
                          · exact Ne.symm differ
                          · exact starts region later
                        · rcases accepted with ⟨region, mem, behind⟩ | all_before
                          · exact Or.inl ⟨region, List.mem_cons_of_mem node mem, behind⟩
                          · refine Or.inr fun region mem => ?_
                            rcases List.mem_cons.mp mem with rfl | later
                            · have apart :=
                                sorted.stop_le (List.mem_cons_self (a := next) (l := rest))
                              have ends := all_before next List.mem_cons_self
                              have long := sorted.tail.addr_lt_stop
                                (List.mem_cons_self (a := next) (l := rest))
                              omega
                            · exact all_before region later
                      · rintro ⟨starts, accepted⟩
                        refine ⟨fun region mem => starts region (List.mem_cons_of_mem node mem), ?_⟩
                        rcases accepted with ⟨region, mem, behind⟩ | all_before
                        · rcases List.mem_cons.mp mem with rfl | later
                          · exact absurd behind reaches
                          · exact Or.inl ⟨region, later, behind⟩
                        · exact Or.inr fun region mem =>
                            all_before region (List.mem_cons_of_mem node mem)

/-- What `is_usable` accepts. -/
theorem isUsable_iff (sorted : Sorted regions) (low : elfEtDynBase ≤ addr)
    (fits : addr + length ≤ usertop) (positive : 0 < length) :
    isUsable regions addr length = true ↔ (∀ region ∈ regions, region.addr ≠ addr) ∧
      ((∃ region ∈ regions, addr + length ≤ region.addr) ∨
        ∀ region ∈ regions, region.stop ≤ addr) := by
  have top := usertop_eq
  rw [isUsable, if_neg (by omega)]
  split
  · next none =>
      subst none
      simp
  · next some_region => exact isUsableLoop_iff sorted some_region (by omega) positive

/-- A region meets the range. -/
def Meets (region : MmapRegion) (addr size : Nat) : Prop :=
  region.addr < addr + size ∧ addr < region.stop

instance (region : MmapRegion) (addr size : Nat) : Decidable (Meets region addr size) :=
  inferInstanceAs (Decidable (_ ∧ _))

theorem Sorted.unused_iff (sorted : Sorted regions) :
    Unused regions addr size ↔ size = 0 ∨ ∀ region ∈ regions, ¬Meets region addr size := by
  constructor
  · intro unused
    by_contra crossing
    rw [not_or] at crossing
    obtain ⟨positive, meeting⟩ := crossing
    apply meeting
    rintro region mem ⟨starts, ends⟩
    have long := sorted.addr_lt_stop mem
    have inside : Covers (fun r : MmapRegion => r.addr) MmapRegion.stop region
        (max addr region.addr) := ⟨le_max_right _ _, by omega⟩
    exact unused region mem (max addr region.addr) (le_max_left _ _) (by omega) inside
  · intro apart region mem point above below covers
    have from_start : region.addr ≤ point := covers.1
    have to_stop : point < region.stop := covers.2
    rcases apart with empty | none
    · omega
    · exact none region mem ⟨by omega, by omega⟩

/-- The range that `is_usable` takes by mistake: it meets a region that does not begin with it, and
another region begins behind it. -/
def Straddles (regions : List MmapRegion) (addr length : Nat) : Prop :=
  (∀ region ∈ regions, region.addr ≠ addr) ∧
    (∃ region ∈ regions, Meets region addr (extent length)) ∧
    ∃ region ∈ regions, addr + length ≤ region.addr

instance (regions : List MmapRegion) (addr length : Nat) :
    Decidable (Straddles regions addr length) :=
  inferInstanceAs (Decidable (_ ∧ _ ∧ _))

theorem le_extent (length : Nat) : length ≤ extent length := by
  rw [extent, show pgsize = 4096 from rfl]
  omega

theorem extent_le {length : Nat} : extent length < length + pgsize := by
  rw [extent, show pgsize = 4096 from rfl]
  omega

theorem extent_pos (positive : 0 < length) : 0 < extent length :=
  positive.trans_le (le_extent length)

/-- The scan is exact but for ranges that it takes by mistake. -/
theorem isUsable_unused_iff (sorted : Sorted regions) (low : elfEtDynBase ≤ addr)
    (fits : addr + extent length ≤ usertop) (positive : 0 < length) :
    (isUsable regions addr length = true ↔ Unused regions addr (extent length)) ↔
      ¬Straddles regions addr length := by
  have long := le_extent length
  have some_bytes := extent_pos positive
  have unused : Unused regions addr (extent length) ↔
      ∀ region ∈ regions, ¬Meets region addr (extent length) := by
    rw [sorted.unused_iff, or_iff_right (by omega)]
  rw [isUsable_iff sorted low (by omega) positive, unused]
  constructor
  · rintro exact_scan ⟨starts, ⟨region, mem, meets⟩, behind⟩
    exact exact_scan.mp ⟨starts, Or.inl behind⟩ region mem meets
  · intro clear
    constructor
    · rintro ⟨starts, accepted⟩ region mem meets
      rcases accepted with behind | before
      · exact clear ⟨starts, ⟨region, mem, meets⟩, behind⟩
      · exact absurd (before region mem) (Nat.not_le_of_lt meets.2)
    · intro apart
      constructor
      · intro region mem same
        have longer := sorted.addr_lt_stop mem
        exact apart region mem ⟨by omega, by omega⟩
      · by_cases ends : ∀ region ∈ regions, region.stop ≤ addr
        · exact Or.inr ends
        · push Not at ends
          obtain ⟨region, mem, crosses⟩ := ends
          refine Or.inl ⟨region, mem, ?_⟩
          by_contra starts
          exact apart region mem ⟨by omega, crosses⟩

/-! ## Regions stay in order -/

/-- A range that meets no region lies in a gap of the list. -/
theorem Sorted.gap (sorted : Sorted regions)
    (apart : ∀ r ∈ regions, ¬Meets r addr size) :
    ∃ before after, Gap regions addr size before after := by
  induction regions with
  | nil => exact ⟨[], [], rfl, by simp, by simp⟩
  | cons node rest ih =>
      have node_apart := apart node List.mem_cons_self
      by_cases left : node.stop ≤ addr
      · obtain ⟨before, after, split, before_left, after_right⟩ :=
          ih sorted.tail fun r mem => apart r (List.mem_cons_of_mem node mem)
        refine ⟨node :: before, after, by rw [split]; rfl, ?_, after_right⟩
        intro r mem
        rcases List.mem_cons.mp mem with rfl | earlier
        · exact left
        · exact before_left r earlier
      · have right : addr + size ≤ node.addr := by
          by_contra reaches
          exact node_apart ⟨by omega, by omega⟩
        refine ⟨[], node :: rest, rfl, by simp, ?_⟩
        intro r mem
        rcases List.mem_cons.mp mem with rfl | later
        · exact right
        · have behind := sorted.stop_le later
          have long := sorted.addr_lt_stop List.mem_cons_self
          omega

/-- A region that meets no other is linked between them. -/
theorem Sorted.insert (sorted : Sorted regions) (apart : ∀ r ∈ regions, ¬Meets r addr size)
    (positive : 0 < size) (here : region.addr = addr) (short : region.length ≤ size) :
    Ordered (fun r : MmapRegion => r.addr) MmapRegion.stop (insertRegion region regions) := by
  obtain ⟨before, after, rfl, left, right⟩ := Sorted.gap sorted apart
  have stop : region.stop = region.addr + region.length := rfl
  rw [insertRegion_eq]
  · apply sorted.ordered.insert
    · intro r mem
      rw [here]
      exact left r mem
    · intro r mem
      have behind := right r mem
      omega
  · intro r mem
    have ends := left r mem
    have long := sorted.addr_lt_stop (List.mem_append_left after mem)
    omega
  · intro r mem
    have behind := right r mem
    omega

/-- The part of `mmap` behind the choice of an address, for a range that meets no region. -/
theorem mapRegion_ordered {env : Env} {prot flags offset : Nat} {f : Option File} {value : Int}
    {regions' : List MmapRegion} (sorted : Sorted regions)
    (apart : ∀ r ∈ regions, ¬Meets r addr (extent length)) (positive : 0 < length)
    (fits : addr + extent length ≤ usertop)
    (call : mapRegion env regions addr length prot flags f offset = (value, regions')) :
    Ordered (fun r : MmapRegion => r.addr) MmapRegion.stop regions' := by
  have top := usertop_eq
  have long := le_extent length
  have rounded : pgroundup length = extent length := by
    apply pgroundup_eq
    rw [show pgsize = 4096 from rfl]
    omega
  have some_bytes := extent_pos positive
  unfold mapRegion at call
  split at call
  · cases call
    exact sorted.ordered
  · split at call
    · cases call
      exact sorted.ordered
    · split at call
      · cases call
        exact sorted.ordered
      · dsimp only at call
        split at call
        · cases call
          exact sorted.insert apart some_bytes rfl long
        · cases call
          exact sorted.insert apart some_bytes rfl rounded.le

/-- A call of `mmap` with `MAP_FIXED` leaves the regions in order if `is_usable` takes the range
only where it meets none of them. -/
theorem mmap_fixed_ordered {env : Env} {prot flags offset : Nat} {f : Option File} {value : Int}
    {regions' : List MmapRegion} (sorted : Sorted regions)
    (apart : isUsable regions addr length = true → ∀ r ∈ regions, ¬Meets r addr (extent length))
    (some_addr : addr ≠ 0) (fixed : flags &&& mapFixed ≠ 0) (positive : 0 < length)
    (fits : addr + extent length ≤ usertop)
    (call : mmap env regions addr length prot flags f offset = (value, regions')) :
    Ordered (fun r : MmapRegion => r.addr) MmapRegion.stop regions' := by
  unfold mmap at call
  rw [if_pos some_addr] at call
  split at call
  · cases call
    exact sorted.ordered
  · split at call
    · cases call
      exact sorted.ordered
    · split at call
      · split at call
        · cases call
          exact sorted.ordered
        · cases call
          exact sorted.ordered
      · split at call
        · cases call
          exact sorted.ordered
        · next usable =>
            exact mapRegion_ordered sorted (apart (not_not.mp usable)) positive fits call

end Mmap
end Xv6Duo
