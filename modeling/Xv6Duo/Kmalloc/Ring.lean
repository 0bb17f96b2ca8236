import Mathlib.Tactic
import Xv6Duo.Kmalloc.Model
import Xv6Duo.Library.Cycle

/-!
# The ring of free blocks

The free blocks of `kmalloc` form a circle of headers through `base`, in the order of addresses with
one wrap, and no block ends where the next one begins. `kmfree` finds the place of a block in the
circle and joins it with its neighbours.
-/

namespace Xv6Duo
namespace Kmalloc

open LinkCycle

/-- A circle of free blocks, listed by address. -/
structure Ring (base : Nat) (h : Heap) (nodes : List Nat) : Prop where
  /-- The links lead round. -/
  cycle : IsCycle h.ptr nodes
  /-- A block ends before the next one begins. -/
  gaps : nodes.Pairwise fun x y => x + headerSize * h.size x < y
  /-- The static header is in the circle. -/
  base_mem : base ∈ nodes
  /-- It heads an empty block. -/
  base_size : h.size base = 0
  /-- The other blocks have some headers. -/
  positive : ∀ x ∈ nodes, x ≠ base → 0 < h.size x
  /-- Headers are aligned. -/
  aligned : ∀ x ∈ nodes, headerSize ∣ x
  /-- Headers have addresses of 64 bits. -/
  below : ∀ x ∈ nodes, x < 2 ^ 64

/-- The bytes of the listed blocks. -/
def Covered (h : Heap) (nodes : List Nat) (u : Nat) : Prop :=
  ∃ x ∈ nodes, x ≤ u ∧ u < x + headerSize * h.size x

variable {base : Nat} {h : Heap} {nodes : List Nat}

theorem Ring.sorted (ring : Ring base h nodes) : nodes.Pairwise (· < ·) :=
  ring.gaps.imp fun gap => by omega

theorem Ring.nodup (ring : Ring base h nodes) : nodes.Nodup := ring.sorted.imp fun less => less.ne

/-- A circle has not more headers than memory. -/
theorem Ring.length_lt (ring : Ring base h nodes) : nodes.length < manyHeaders := by
  have numbers : (nodes.map (· / headerSize)).Nodup := by
    apply List.Nodup.map_on _ ring.nodup
    intro x x_mem y y_mem same
    obtain ⟨k, rfl⟩ := ring.aligned x x_mem
    obtain ⟨l, rfl⟩ := ring.aligned y y_mem
    rw [headerSize] at *
    omega
  have inside : nodes.map (· / headerSize) ⊆ List.range (2 ^ 60) := by
    intro number member
    obtain ⟨x, x_mem, rfl⟩ := List.mem_map.mp member
    have below := ring.below x x_mem
    rw [List.mem_range, headerSize]
    omega
  have fewer := (List.subperm_of_subset numbers inside).length_le
  rw [List.length_map, List.length_range] at fewer
  rw [manyHeaders]
  omega

/-! ## The place of a block -/

/-- The block belongs between `p` and the next header. -/
def Place (h : Heap) (bp p : Nat) : Prop :=
  (p < bp ∧ bp < h.ptr p) ∨ (h.ptr p ≤ p ∧ (p < bp ∨ bp < h.ptr p))

/-- The loop of `kmfree` finds a place if there is one on its way. -/
theorem findPlace_path {bp start finish fuel : Nat} {others : List Nat}
    (path : Path h.ptr start others finish) (some_place : ∃ p ∈ start :: others, Place h bp p)
    (enough : others.length < fuel) :
    ∃ p ∈ start :: others, findPlace h bp fuel start = .ok p ∧ Place h bp p := by
  induction others generalizing start fuel with
  | nil =>
      obtain ⟨fuel, rfl⟩ : ∃ rest, fuel = rest + 1 := ⟨fuel - 1, by omega⟩
      obtain ⟨p, member, place⟩ := some_place
      rw [List.mem_singleton] at member
      subst member
      refine ⟨p, List.mem_singleton_self p, ?_, place⟩
      rw [findPlace]
      rcases place with inner | wrap
      · rw [if_pos inner]
      · split
        · rfl
        · rfl
  | cons next others ih =>
      obtain ⟨fuel, rfl⟩ : ∃ rest, fuel = rest + 1 := ⟨fuel - 1, by omega⟩
      rw [findPlace]
      split
      · next inner => exact ⟨start, List.mem_cons_self, rfl, Or.inl inner⟩
      · next not_inner =>
          split
          · next wrap => exact ⟨start, List.mem_cons_self, rfl, Or.inr wrap⟩
          · next not_wrap =>
              obtain ⟨p, member, place⟩ := some_place
              have further : p ∈ next :: others := by
                rcases List.mem_cons.mp member with rfl | further
                · exact absurd place (not_or.mpr ⟨not_inner, not_wrap⟩)
                · exact further
              rw [path.1]
              obtain ⟨found, found_mem, found_eq, holds⟩ :=
                ih path.2 ⟨p, further, place⟩ (by simpa using enough)
              exact ⟨found, List.mem_cons_of_mem _ found_mem, found_eq, holds⟩

/-- A header lies behind or before each of sorted ones. -/
theorem exists_split {bp : Nat} (sorted : nodes.Pairwise (· < ·)) (fresh : bp ∉ nodes) :
    ∃ front back, nodes = front ++ back ∧ (∀ x ∈ front, x < bp) ∧ ∀ y ∈ back, bp < y := by
  induction nodes with
  | nil => exact ⟨[], [], rfl, nofun, nofun⟩
  | cons x nodes ih =>
      obtain ⟨below, sorted⟩ := List.pairwise_cons.mp sorted
      rw [List.mem_cons, not_or] at fresh
      by_cases less : x < bp
      · obtain ⟨front, back, rfl, smaller, larger⟩ := ih sorted fresh.2
        refine ⟨x :: front, back, rfl, ?_, larger⟩
        intro y member
        rcases List.mem_cons.mp member with rfl | member
        · exact less
        · exact smaller y member
      · refine ⟨[], x :: nodes, rfl, nofun, ?_⟩
        intro y member
        rcases List.mem_cons.mp member with rfl | member
        · omega
        · have := below y member
          omega

/-- The circle, turned so that it begins behind the place of a block. -/
structure Turned (h : Heap) (bp p : Nat) (nodes front back : List Nat) : Prop where
  /-- The headers before and behind the block. -/
  split : nodes = front ++ back
  /-- Those before it. -/
  smaller : ∀ x ∈ front, x < bp
  /-- Those behind it. -/
  larger : ∀ y ∈ back, bp < y
  /-- The place is the last header before the block. -/
  last : (back ++ front).getLast? = some p
  /-- It leads to the first one behind the block. -/
  head : (back ++ front).head? = some (h.ptr p)

/-- A block that is not in the circle has a place in it. -/
theorem Ring.exists_place (ring : Ring base h nodes) {bp : Nat} (fresh : bp ∉ nodes) :
    ∃ p ∈ nodes, Place h bp p := by
  obtain ⟨front, back, split, smaller, larger⟩ := exists_split ring.sorted fresh
  have cycle : IsCycle h.ptr (back ++ front) := (split ▸ ring.cycle).rotate
  have sorted := ring.sorted
  rw [split] at sorted
  obtain ⟨front_sorted, back_sorted, _⟩ := List.pairwise_append.mp sorted
  cases whole : back ++ front with
  | nil =>
      rw [whole] at cycle
      exact absurd cycle id
  | cons q rest =>
      rw [whole] at cycle
      obtain ⟨p, is_last⟩ : ∃ p, (q :: rest).getLast? = some p :=
        ⟨_, List.getLast?_eq_some_getLast (List.cons_ne_nil q rest)⟩
      have leads : h.ptr p = q := cycle.link_last is_last
      have p_mem : p ∈ back ++ front := by
        rw [whole]
        exact List.mem_of_getLast? is_last
      refine ⟨p, ?_, ?_⟩
      · rw [split]
        simpa [or_comm] using p_mem
      · rw [Place, leads]
        rw [← whole] at is_last
        -- The last header is the largest of those before the block, if there are any.
        cases front_case : front with
        | nil =>
            rw [front_case, List.append_nil] at is_last whole
            have q_mem : q ∈ back := by
              rw [whole]
              exact List.mem_cons_self
            have behind := larger q q_mem
            have le : q ≤ p := by
              rw [whole] at back_sorted is_last
              rcases List.mem_cons.mp (List.mem_of_getLast? is_last) with same | member
              · omega
              · exact ((List.pairwise_cons.mp back_sorted).1 p member).le
            exact Or.inr ⟨le, Or.inr behind⟩
        | cons first more =>
            have last_front : front.getLast? = some p := by
              rw [List.getLast?_append_of_ne_nil _ (by rw [front_case]; exact List.cons_ne_nil _ _)]
                at is_last
              exact is_last
            have before := smaller p (List.mem_of_getLast? last_front)
            cases back_case : back with
            | nil =>
                rw [back_case, List.nil_append] at whole
                have le : q ≤ p := by
                  rw [whole] at front_sorted last_front
                  rcases List.mem_cons.mp (List.mem_of_getLast? last_front) with same | member
                  · omega
                  · exact ((List.pairwise_cons.mp front_sorted).1 p member).le
                exact Or.inr ⟨le, Or.inl before⟩
            | cons second others =>
                rw [back_case, List.cons_append] at whole
                have same : second = q := (List.cons.inj whole).1
                have behind := larger second (by rw [back_case]; exact List.mem_cons_self)
                exact Or.inl ⟨before, by omega⟩

/-- The circle turned at a place. -/
theorem Ring.turned (ring : Ring base h nodes) {bp p : Nat} (member : p ∈ nodes)
    (place : Place h bp p) : ∃ front back, Turned h bp p nodes front back := by
  obtain ⟨front, back, rfl⟩ := List.append_of_mem member
  have sorted := ring.sorted
  obtain ⟨_, back_sorted, cross⟩ := List.pairwise_append.mp sorted
  obtain ⟨behind, _⟩ := List.pairwise_cons.mp back_sorted
  cases back with
  | nil =>
      -- The place is the last header.
      have le_last : ∀ x ∈ front ++ [p], x ≤ p := by
        intro x x_mem
        rcases List.mem_append.mp x_mem with in_front | in_back
        · exact (cross x in_front p (List.mem_singleton_self p)).le
        · exact (List.mem_singleton.mp in_back).le
      have head : (front ++ [p]).head? = some (h.ptr p) := by
        cases whole : front ++ [p] with
        | nil => simp at whole
        | cons q rest =>
            have cycle := ring.cycle
            have last : (front ++ [p]).getLast? = some p := List.getLast?_concat
            rw [whole] at cycle last
            rw [cycle.link_last last]
            rfl
      have first_le : ∀ x ∈ front ++ [p], h.ptr p ≤ x := by
        intro x x_mem
        cases whole : front ++ [p] with
        | nil => simp at whole
        | cons q rest =>
            rw [whole] at head sorted x_mem
            have same : q = h.ptr p := Option.some.inj head
            rcases List.mem_cons.mp x_mem with rfl | in_rest
            · exact same.ge
            · exact same ▸ ((List.pairwise_cons.mp sorted).1 x in_rest).le
      have wraps := first_le p member
      rcases place with inner | ⟨_, before | after⟩
      · omega
      · refine ⟨front ++ [p], [], by simp, ?_, nofun, by simp, by simpa using head⟩
        intro x x_mem
        exact (le_last x x_mem).trans_lt before
      · refine ⟨[], front ++ [p], by simp, nofun, ?_, by simp, by simpa using head⟩
        intro y y_mem
        exact after.trans_le (first_le y y_mem)
  | cons q back =>
      have leads : h.ptr p = q := by
        have turned : IsCycle h.ptr ((p :: q :: back) ++ front) := ring.cycle.rotate
        exact turned.1
      have less := behind q List.mem_cons_self
      rcases place with ⟨before, after⟩ | ⟨wraps, _⟩
      · refine ⟨front ++ [p], q :: back, by simp, ?_, ?_, ?_, ?_⟩
        · intro x x_mem
          rcases List.mem_append.mp x_mem with in_front | in_back
          · exact (cross x in_front p List.mem_cons_self).trans before
          · exact (List.mem_singleton.mp in_back) ▸ before
        · intro y y_mem
          rcases List.mem_cons.mp y_mem with rfl | in_back
          · omega
          · have later := (List.pairwise_cons.mp (List.pairwise_cons.mp back_sorted).2).1 y in_back
            omega
        · rw [← List.append_assoc, List.getLast?_concat]
        · rw [leads]
          rfl
      · omega

/-! ## Putting a block in -/

/-- A block that is to be put in: it has headers, lies apart from the free ones and does not end at
the static header. -/
structure Apart (base : Nat) (h : Heap) (nodes : List Nat) (bp : Nat) : Prop where
  /-- It has some headers. -/
  positive : 0 < h.size bp
  /-- It is aligned. -/
  aligned : headerSize ∣ bp
  /-- It has an address of 64 bits. -/
  below : bp < 2 ^ 64
  /-- It overlaps no free block. -/
  apart : ∀ x ∈ nodes, (x < bp ∧ x + headerSize * h.size x ≤ bp) ∨ bp + headerSize * h.size bp ≤ x
  /-- It does not end at the static header. -/
  not_base : bp + headerSize * h.size bp ≠ base

theorem Apart.fresh {bp : Nat} (apart : Apart base h nodes bp) : bp ∉ nodes := by
  intro member
  have positive := apart.positive
  have position := apart.apart bp member
  rw [headerSize] at position
  omega

/-- The heap after the first store of `kmfree`, with the link to the block added. -/
structure Upper (h : Heap) (bp p : Nat) (front back back' : List Nat) (n : Nat) : Prop where
  /-- The sizes. -/
  size : (joinUpper h bp p).size = Function.update h.size bp n
  /-- The circle. -/
  cycle : IsCycle (Function.update (joinUpper h bp p).ptr p bp) (bp :: (back' ++ front))
  /-- The block ends before the next one begins. -/
  gap : ∀ y ∈ back', bp + headerSize * n < y
  /-- The place is still in the circle. -/
  last : (back' ++ front).getLast? = some p
  /-- The block is joined to the first one behind it or to none. -/
  joined : (back' = back ∧ n = h.size bp) ∨ ∃ q, back = q :: back' ∧ n = h.size bp + h.size q ∧
    q = bp + headerSize * h.size bp

theorem Turned.upper {bp p : Nat} {front back : List Nat} (ring : Ring base h nodes)
    (apart : Apart base h nodes bp) (turned : Turned h bp p nodes front back) :
    ∃ back' n, Upper h bp p front back back' n := by
  have cycle : IsCycle h.ptr (back ++ front) := (turned.split ▸ ring.cycle).rotate
  have nodup : (back ++ front).Nodup := by
    have nodup := ring.nodup
    rw [turned.split] at nodup
    exact List.nodup_append_comm.mp nodup
  have fresh : bp ∉ back ++ front := by
    have fresh := apart.fresh
    rw [turned.split] at fresh
    simpa [or_comm] using fresh
  have gaps := ring.gaps
  rw [turned.split] at gaps
  have back_gaps := (List.pairwise_append.mp gaps).2.1
  have back_apart : ∀ y ∈ back, bp + headerSize * h.size bp ≤ y := by
    intro y member
    have position := apart.apart y (by rw [turned.split]; exact List.mem_append_right _ member)
    have behind := turned.larger y member
    omega
  have p_mem : p ∈ back ++ front := List.mem_of_getLast? turned.last
  have bp_ne : bp ≠ p := by
    rintro rfl
    exact fresh p_mem
  by_cases joins : bp + headerSize * h.size bp = h.ptr p
  · -- The block behind is not the static header, so other headers remain.
    have q_behind : bp < h.ptr p := by
      have positive := apart.positive
      rw [headerSize] at joins
      omega
    cases back with
    | nil =>
        have head := turned.head
        rw [List.nil_append] at head
        have before := turned.smaller (h.ptr p) (List.mem_of_head? head)
        omega
    | cons q back' =>
        have head : q = h.ptr p := Option.some.inj turned.head
        have q_not_base : q ≠ base := by
          rw [head, ← joins]
          exact apart.not_base
        obtain ⟨r, rest, whole⟩ : ∃ r rest, back' ++ front = r :: rest := by
          apply List.exists_cons_of_ne_nil
          intro none_left
          have base_mem := ring.base_mem
          rw [List.append_eq_nil_iff] at none_left
          rw [turned.split, none_left.1, none_left.2] at base_mem
          exact q_not_base (List.mem_singleton.mp base_mem).symm
        have last := turned.last
        rw [List.cons_append, whole] at cycle nodup fresh
        rw [List.cons_append, whole, List.getLast?_cons_cons] at last
        have removed := cycle.remove nodup last
        have rest_nodup := (List.nodup_cons.mp nodup).2
        have rest_fresh : bp ∉ r :: rest := fun member => fresh (List.mem_cons_of_mem _ member)
        have inserted := removed.insert rest_nodup last rest_fresh
        have next_q : h.ptr q = r := cycle.1
        refine ⟨back', h.size bp + h.size q, ?_, ?_, ?_, ?_, ?_⟩
        · rw [joinUpper, if_pos joins, head]
        · have links : (joinUpper h bp p).ptr = Function.update h.ptr bp r := by
            rw [joinUpper, if_pos joins, ← head, next_q]
          rw [links, whole]
          rw [Function.update_comm bp_ne.symm, Function.update_idem] at inserted
          exact inserted
        · intro y member
          have later := (List.pairwise_cons.mp back_gaps).1 y member
          rw [Nat.mul_add]
          omega
        · rw [whole]
          exact last
        · exact Or.inr ⟨q, rfl, rfl, head.trans joins.symm⟩
  · refine ⟨back, h.size bp, ?_, ?_, ?_, turned.last, Or.inl ⟨rfl, rfl⟩⟩
    · rw [joinUpper, if_neg joins, Function.update_eq_self]
    · have links : (joinUpper h bp p).ptr = Function.update h.ptr bp (h.ptr p) := by
        rw [joinUpper, if_neg joins]
      rw [links]
      cases whole : back ++ front with
      | nil =>
          rw [whole] at cycle
          exact absurd cycle id
      | cons q rest =>
          have head := turned.head
          have last := turned.last
          rw [whole] at cycle nodup fresh head last
          rw [← Option.some.inj head]
          exact cycle.insert nodup last fresh
    · intro y member
      have le := back_apart y member
      -- The first header behind the block is the one that `p` leads to.
      cases back with
      | nil => cases member
      | cons q others =>
          have head : q = h.ptr p := Option.some.inj turned.head
          rcases List.mem_cons.mp member with rfl | later
          · omega
          · have first := back_apart q List.mem_cons_self
            have gap := (List.pairwise_cons.mp back_gaps).1 y later
            omega

section Bytes

variable {u : Nat}

@[simp]
theorem covered_nil : ¬ Covered h [] u := by
  rintro ⟨x, member, _⟩
  cases member

@[simp]
theorem covered_cons {x : Nat} :
    Covered h (x :: nodes) u ↔ (x ≤ u ∧ u < x + headerSize * h.size x) ∨ Covered h nodes u := by
  simp [Covered]

@[simp]
theorem covered_append {front back : List Nat} :
    Covered h (front ++ back) u ↔ Covered h front u ∨ Covered h back u := by
  simp [Covered, or_and_right, exists_or]

/-- The bytes depend on the sizes of the listed blocks. -/
theorem covered_congr {t : Heap} (agree : ∀ x ∈ nodes, t.size x = h.size x) :
    Covered t nodes u ↔ Covered h nodes u := by
  constructor
  · rintro ⟨x, member, low, high⟩
    exact ⟨x, member, low, agree x member ▸ high⟩
  · rintro ⟨x, member, low, high⟩
    exact ⟨x, member, low, (agree x member).symm ▸ high⟩

end Bytes

/-- The result of `kmfree`: the circle has the block in addition. -/
structure Joined (base : Nat) (h t : Heap) (bp : Nat) (nodes nodes' : List Nat) : Prop where
  /-- It is a circle again. -/
  ring : Ring base t nodes'
  /-- Its headers are old ones or that of the block. -/
  headers : nodes' ⊆ bp :: nodes
  /-- The bytes of the block are free now. -/
  bytes : ∀ u, Covered t nodes' u ↔ Covered h nodes u ∨ (bp ≤ u ∧ u < bp + headerSize * h.size bp)
  /-- Its headers are counted. -/
  total : (nodes'.map t.size).sum = (nodes.map h.size).sum + h.size bp
  /-- Some free block is as large. -/
  large : ∃ x ∈ nodes', h.size bp ≤ t.size x
  /-- Other headers keep their sizes. -/
  frame : ∀ x, x ∉ nodes → x ≠ bp → t.size x = h.size x

section Stores

variable {bp p n : Nat} {front back back' : List Nat}

theorem Upper.sublist (upper : Upper h bp p front back back' n) : back'.Sublist back := by
  rcases upper.joined with ⟨rfl, _⟩ | ⟨q, rfl, _⟩
  · exact List.Sublist.refl _
  · exact List.sublist_cons_self q back'

/-- The headers of the circle after the first store are distinct. -/
theorem Upper.nodup (ring : Ring base h nodes) (apart : Apart base h nodes bp)
    (turned : Turned h bp p nodes front back) (upper : Upper h bp p front back back' n) :
    (bp :: (back' ++ front)).Nodup := by
  have nodup := ring.nodup
  have fresh := apart.fresh
  rw [turned.split] at nodup fresh
  rw [List.mem_append, not_or] at fresh
  rw [List.nodup_cons, List.mem_append, not_or]
  refine ⟨⟨fun member => fresh.2 (upper.sublist.subset member), fresh.1⟩, ?_⟩
  exact (List.nodup_append_comm.mp nodup).sublist (upper.sublist.append_right front)

/-- The static header stays in the circle. -/
theorem Upper.base_mem (ring : Ring base h nodes) (apart : Apart base h nodes bp)
    (turned : Turned h bp p nodes front back) (upper : Upper h bp p front back back' n) :
    base ∈ front ++ back' := by
  have base_mem := ring.base_mem
  rw [turned.split] at base_mem
  rcases upper.joined with ⟨rfl, _⟩ | ⟨q, rfl, _, ends⟩
  · exact base_mem
  · have q_ne : base ≠ q := fun same => apart.not_base (ends.symm.trans same.symm)
    simpa [q_ne] using base_mem

theorem Upper.total (upper : Upper h bp p front back back' n) :
    (back'.map h.size).sum + n = (back.map h.size).sum + h.size bp := by
  rcases upper.joined with ⟨rfl, rfl⟩ | ⟨q, rfl, rfl, _⟩
  · rfl
  · rw [List.map_cons, List.sum_cons]
    omega

theorem Upper.le (upper : Upper h bp p front back back' n) : h.size bp ≤ n := by
  rcases upper.joined with ⟨_, rfl⟩ | ⟨q, _, rfl, _⟩
  · exact Nat.le_refl _
  · exact Nat.le_add_right ..

theorem Upper.bytes (upper : Upper h bp p front back back' n) (u : Nat) :
    (bp ≤ u ∧ u < bp + headerSize * n) ∨ Covered h back' u ↔
      Covered h back u ∨ (bp ≤ u ∧ u < bp + headerSize * h.size bp) := by
  rcases upper.joined with ⟨rfl, rfl⟩ | ⟨q, rfl, rfl, ends⟩
  · exact or_comm
  · rw [covered_cons, Nat.mul_add, ends]
    constructor
    · rintro (inside | free)
      · by_cases lower : u < bp + headerSize * h.size bp
        · exact Or.inr ⟨inside.1, lower⟩
        · exact Or.inl (Or.inl (by omega))
      · exact Or.inl (Or.inr free)
    · rintro ((inside | free) | inside)
      · exact Or.inl (by omega)
      · exact Or.inr free
      · exact Or.inl (by omega)

/-- The blocks of a turned circle before and behind the place of a block. -/
theorem Turned.gaps (ring : Ring base h nodes) (turned : Turned h bp p nodes front back) :
    (front.Pairwise fun x y => x + headerSize * h.size x < y) ∧
      (back.Pairwise fun x y => x + headerSize * h.size x < y) ∧
      ∀ x ∈ front, ∀ y ∈ back, x + headerSize * h.size x < y := by
  have gaps := ring.gaps
  rw [turned.split] at gaps
  exact List.pairwise_append.mp gaps

/-- The place is the last header before the block, if there are any. -/
theorem Turned.last_front (turned : Turned h bp p nodes front back) (some_front : front ≠ []) :
    front.getLast? = some p := by
  have last := turned.last
  rwa [List.getLast?_append_of_ne_nil _ some_front] at last

/-- The heap after the second store of `kmfree`: the block, joined to the free one before it or to
none, has the header `m` and `k` headers. -/
structure Lower (h t : Heap) (bp n : Nat) (front back' low : List Nat) (m k : Nat) : Prop where
  /-- Its size. -/
  size : t.size m = k
  /-- The other sizes. -/
  other : ∀ x, x ≠ m → x ≠ bp → t.size x = h.size x
  /-- The circle. -/
  cycle : IsCycle t.ptr (low ++ m :: back')
  /-- The blocks before it end before it begins. -/
  gap : ∀ x ∈ low, x + headerSize * h.size x < m
  /-- The block is joined to the last one before it or to none. -/
  joined : (low = front ∧ m = bp ∧ k = n) ∨
    (front = low ++ [m] ∧ k = h.size m + n ∧ m + headerSize * h.size m = bp)

theorem Turned.place_mem (turned : Turned h bp p nodes front back) : p ∈ nodes := by
  have member := List.mem_of_getLast? turned.last
  rw [turned.split]
  simpa [or_comm] using member

/-- The second store of `kmfree` if the block begins where the free one before it ends. -/
theorem Upper.lower_joined (ring : Ring base h nodes) (apart : Apart base h nodes bp)
    (turned : Turned h bp p nodes front back) (upper : Upper h bp p front back back' n)
    (touches : p + headerSize * h.size p = bp) :
    ∃ low, Lower h (joinLower (joinUpper h bp p) bp p) bp n front back' low p
      (h.size p + n) := by
  have p_mem := turned.place_mem
  have bp_ne : bp ≠ p := fun same => apart.fresh (same ▸ p_mem)
  have size_p : (joinUpper h bp p).size p = h.size p := by
    rw [upper.size, Function.update_of_ne bp_ne.symm]
  have size : (joinLower (joinUpper h bp p) bp p).size =
      Function.update (Function.update h.size bp n) p (h.size p + n) := by
    rw [joinLower, if_pos (size_p.symm ▸ touches), size_p, upper.size, Function.update_self]
  have ptr : (joinLower (joinUpper h bp p) bp p).ptr =
      Function.update (joinUpper h bp p).ptr p ((joinUpper h bp p).ptr bp) := by
    rw [joinLower, if_pos (size_p.symm ▸ touches)]
  have in_front : p ∈ front := by
    rw [turned.split] at p_mem
    rcases List.mem_append.mp p_mem with in_front | in_back
    · exact in_front
    · have behind := turned.larger p in_back
      omega
  obtain ⟨low, shape⟩ :=
    List.getLast?_eq_some_iff.mp (turned.last_front (List.ne_nil_of_mem in_front))
  have front_gaps := (turned.gaps ring).1
  rw [shape] at front_gaps
  refine ⟨low, ?_, ?_, ?_, ?_, Or.inr ⟨shape, rfl, touches⟩⟩
  · rw [size, Function.update_self]
  · intro x not_p not_bp
    rw [size, Function.update_of_ne not_p, Function.update_of_ne not_bp]
  · -- The header of the block leaves the circle again.
    have cycle := upper.cycle
    have nodup := upper.nodup ring apart turned
    have last : (back' ++ (low ++ [p])).getLast? = some p := by
      rw [← List.append_assoc, List.getLast?_concat]
    rw [shape] at cycle nodup
    cases whole : back' ++ (low ++ [p]) with
    | nil => simp at whole
    | cons r rest =>
        rw [whole] at cycle nodup last
        have removed := cycle.remove nodup last
        have leads : (joinUpper h bp p).ptr bp = r := by
          have first := cycle.1
          rwa [Function.update_of_ne bp_ne] at first
        rw [Function.update_idem, ← leads, ← ptr, leads, ← whole] at removed
        simpa using removed.rotate
  · exact fun x member => (List.pairwise_append.mp front_gaps).2.2 x member p
      (List.mem_singleton_self p)

/-- The second store of `kmfree` if the block does not begin where the free one before it ends. -/
theorem Upper.lower_apart (ring : Ring base h nodes) (apart : Apart base h nodes bp)
    (turned : Turned h bp p nodes front back) (upper : Upper h bp p front back back' n)
    (touches_not : p + headerSize * h.size p ≠ bp) :
    Lower h (joinLower (joinUpper h bp p) bp p) bp n front back' front bp n := by
  have p_mem := turned.place_mem
  have bp_ne : bp ≠ p := fun same => apart.fresh (same ▸ p_mem)
  have size_p : (joinUpper h bp p).size p = h.size p := by
    rw [upper.size, Function.update_of_ne bp_ne.symm]
  have step : joinLower (joinUpper h bp p) bp p =
      { joinUpper h bp p with ptr := Function.update (joinUpper h bp p).ptr p bp } := by
    rw [joinLower, if_neg (size_p.symm ▸ touches_not)]
  rw [step]
  refine ⟨?_, ?_, ?_, ?_, Or.inl ⟨rfl, rfl, rfl⟩⟩
  · exact (congrFun upper.size bp).trans (Function.update_self ..)
  · intro x not_bp _
    exact (congrFun upper.size x).trans (Function.update_of_ne not_bp ..)
  · have cycle : IsCycle (Function.update (joinUpper h bp p).ptr p bp) ((bp :: back') ++ front) :=
      upper.cycle
    exact cycle.rotate
  · intro x member
    have smaller := turned.smaller x member
    have position := apart.apart x (by rw [turned.split]; exact List.mem_append_left _ member)
    have last := turned.last_front (List.ne_nil_of_mem member)
    obtain ⟨low, shape⟩ := List.getLast?_eq_some_iff.mp last
    have front_gaps := (turned.gaps ring).1
    rw [shape] at member front_gaps
    rcases List.mem_append.mp member with in_low | is_p
    · have gap := (List.pairwise_append.mp front_gaps).2.2 x in_low p (List.mem_singleton_self p)
      have p_smaller := turned.smaller p (List.mem_of_getLast? last)
      omega
    · rw [List.mem_singleton.mp is_p] at position smaller ⊢
      omega

section Result

variable {t : Heap} {low : List Nat} {m k : Nat}

theorem Lower.subset (lower : Lower h t bp n front back' low m k) : low ⊆ front := by
  rcases lower.joined with ⟨rfl, _⟩ | ⟨rfl, _⟩
  · exact List.Subset.refl _
  · exact List.subset_append_left _ _

theorem Lower.total (lower : Lower h t bp n front back' low m k) :
    (low.map h.size).sum + k = (front.map h.size).sum + n := by
  rcases lower.joined with ⟨rfl, _, rfl⟩ | ⟨rfl, rfl, _⟩
  · rfl
  · rw [List.map_append, List.sum_append, List.map_singleton, List.sum_singleton]
    omega

theorem Lower.le (lower : Lower h t bp n front back' low m k) : n ≤ k := by
  rcases lower.joined with ⟨_, _, rfl⟩ | ⟨_, rfl, _⟩
  · exact Nat.le_refl _
  · exact Nat.le_add_left ..

theorem Lower.bytes (lower : Lower h t bp n front back' low m k) (u : Nat) :
    Covered h low u ∨ (m ≤ u ∧ u < m + headerSize * k) ↔
      Covered h front u ∨ (bp ≤ u ∧ u < bp + headerSize * n) := by
  rcases lower.joined with ⟨rfl, rfl, rfl⟩ | ⟨rfl, rfl, ends⟩
  · exact Iff.rfl
  · have merged : (m ≤ u ∧ u < m + headerSize * (h.size m + n)) ↔
        (m ≤ u ∧ u < m + headerSize * h.size m) ∨ (bp ≤ u ∧ u < bp + headerSize * n) := by
      rw [Nat.mul_add]
      omega
    simp only [covered_append, covered_cons, covered_nil, or_false, merged, or_assoc]

/-- The header is that of the block or an old one before it. -/
theorem Lower.header (lower : Lower h t bp n front back' low m k) : m = bp ∨ m ∈ front := by
  rcases lower.joined with ⟨_, rfl, _⟩ | ⟨rfl, _⟩
  · exact Or.inl rfl
  · exact Or.inr (by simp)

theorem Lower.le_block (lower : Lower h t bp n front back' low m k) : m ≤ bp := by
  rcases lower.joined with ⟨_, rfl, _⟩ | ⟨_, _, ends⟩
  · exact Nat.le_refl _
  · omega

theorem Lower.ends (lower : Lower h t bp n front back' low m k) :
    m + headerSize * k = bp + headerSize * n := by
  rcases lower.joined with ⟨_, rfl, rfl⟩ | ⟨_, rfl, ends⟩
  · rfl
  · rw [Nat.mul_add]
    omega

/-- What the two stores make of the circle. -/
theorem Lower.result (ring : Ring base h nodes) (apart : Apart base h nodes bp)
    (turned : Turned h bp p nodes front back) (upper : Upper h bp p front back back' n)
    (lower : Lower h t bp n front back' low m k) :
    Joined base h t bp nodes (low ++ m :: back') := by
  obtain ⟨front_gaps, back_gaps, cross⟩ := turned.gaps ring
  have le_bp := lower.le_block
  have in_low : ∀ x ∈ low, t.size x = h.size x := by
    intro x member
    have gap := lower.gap x member
    exact lower.other x (by omega) (by omega)
  have in_back : ∀ y ∈ back', t.size y = h.size y := by
    intro y member
    have larger := turned.larger y (upper.sublist.subset member)
    exact lower.other y (by omega) (by omega)
  have subset : low ++ m :: back' ⊆ bp :: nodes := by
    intro x member
    rw [turned.split, List.mem_cons, List.mem_append]
    rcases List.mem_append.mp member with in_low | in_rest
    · exact Or.inr (Or.inl (lower.subset in_low))
    · rcases List.mem_cons.mp in_rest with rfl | in_back
      · rcases lower.header with is_bp | in_front
        · exact Or.inl is_bp
        · exact Or.inr (Or.inl in_front)
      · exact Or.inr (Or.inr (upper.sublist.subset in_back))
  have size_le := upper.le
  have le_size := lower.le
  have positive := apart.positive
  constructor
  · constructor
    · exact lower.cycle
    · rw [List.pairwise_append, List.pairwise_cons]
      refine ⟨?_, ⟨?_, ?_⟩, ?_⟩
      · refine (front_gaps.sublist ?_).imp_of_mem ?_
        · rcases lower.joined with ⟨rfl, _⟩ | ⟨rfl, _⟩
          · exact List.Sublist.refl _
          · exact List.sublist_append_left _ _
        · intro x y x_mem _ gap
          rwa [in_low x x_mem]
      · intro y y_mem
        rw [lower.size, lower.ends]
        exact upper.gap y y_mem
      · refine (back_gaps.sublist upper.sublist).imp_of_mem ?_
        intro x y x_mem _ gap
        rwa [in_back x x_mem]
      · intro x x_mem y y_mem
        rw [in_low x x_mem]
        rcases List.mem_cons.mp y_mem with rfl | y_back
        · exact lower.gap x x_mem
        · exact cross x (lower.subset x_mem) y (upper.sublist.subset y_back)
    · have base_mem := upper.base_mem ring apart turned
      rcases lower.joined with ⟨rfl, _⟩ | ⟨rfl, _⟩
      · exact (List.mem_append.mp base_mem).elim (List.mem_append_left _)
          fun member => List.mem_append_right _ (List.mem_cons_of_mem m member)
      · simpa using base_mem
    · rw [lower.other base, ring.base_size]
      · rintro rfl
        rcases lower.joined with ⟨_, same, _⟩ | ⟨_, _, ends⟩
        · exact apart.fresh (same ▸ ring.base_mem)
        · rw [ring.base_size] at ends
          exact apart.fresh (ends ▸ ring.base_mem)
      · rintro rfl
        exact apart.fresh ring.base_mem
    · intro x member not_base
      by_cases is_m : x = m
      · rw [is_m, lower.size]
        omega
      · by_cases is_bp : x = bp
        · rcases List.mem_append.mp member with x_low | x_rest
          · have gap := lower.gap x x_low
            omega
          · have x_back := (List.mem_cons.mp x_rest).resolve_left is_m
            have larger := turned.larger x (upper.sublist.subset x_back)
            omega
        · rw [lower.other x is_m is_bp]
          exact ring.positive x ((List.mem_cons.mp (subset member)).resolve_left is_bp) not_base
    · intro x member
      rcases List.mem_cons.mp (subset member) with rfl | old
      · exact apart.aligned
      · exact ring.aligned x old
    · intro x member
      rcases List.mem_cons.mp (subset member) with rfl | old
      · exact apart.below
      · exact ring.below x old
  · exact subset
  · intro u
    have upper_bytes := upper.bytes u
    have lower_bytes := lower.bytes u
    rw [turned.split]
    simp only [covered_append, covered_cons, covered_congr in_low, covered_congr in_back,
      lower.size]
    rw [← or_assoc, lower_bytes, or_assoc, upper_bytes, or_assoc]
  · have upper_total := upper.total
    have lower_total := lower.total
    rw [turned.split]
    simp only [List.map_append, List.map_cons, List.sum_append, List.sum_cons,
      List.map_congr_left in_low, List.map_congr_left in_back, lower.size]
    omega
  · refine ⟨m, by simp, ?_⟩
    rw [lower.size]
    omega
  · intro x not_node not_bp
    refine lower.other x ?_ not_bp
    rintro rfl
    rcases lower.header with is_bp | in_front
    · exact not_bp is_bp
    · rw [turned.split] at not_node
      exact not_node (List.mem_append_left _ in_front)

end Result

end Stores

/-- `kmfree` puts a block into the circle, and leaves `freep` in it. -/
theorem kmfree_spec {ap freep : Nat} (ring : Ring base h nodes) (start : h.freep = some freep)
    (member : freep ∈ nodes) (apart : Apart base h nodes (ap - headerSize)) :
    ∃ t nodes' p, kmfree h ap = .ok t ∧ Joined base h t (ap - headerSize) nodes nodes' ∧
      t.freep = some p ∧ p ∈ nodes' := by
  obtain ⟨front, back, rfl⟩ := List.append_of_mem member
  have path : Path h.ptr freep (back ++ front) freep := ring.cycle.rotate
  have enough : (back ++ front).length < manyHeaders := by
    have fewer := ring.length_lt
    simp only [List.length_append, List.length_cons] at fewer ⊢
    omega
  have some_place : ∃ p ∈ freep :: (back ++ front), Place h (ap - headerSize) p := by
    obtain ⟨p, p_mem, place⟩ := ring.exists_place apart.fresh
    refine ⟨p, ?_, place⟩
    simp only [List.mem_append, List.mem_cons] at p_mem ⊢
    tauto
  obtain ⟨p, p_mem, found, place⟩ := findPlace_path path some_place enough
  have p_node : p ∈ front ++ freep :: back := by
    simp only [List.mem_append, List.mem_cons] at p_mem ⊢
    tauto
  obtain ⟨front', back', turned⟩ := ring.turned p_node place
  obtain ⟨back'', n, upper⟩ := turned.upper ring apart
  have returns : kmfree h ap = .ok { joinLower (joinUpper h (ap - headerSize) p) (ap - headerSize) p
      with freep := some p } := by
    simp only [kmfree, start, found]
    rfl
  have change_freep : ∀ {t : Heap} {others : List Nat},
      Joined base h t (ap - headerSize) (front ++ freep :: back) others →
      Joined base h { t with freep := some p } (ap - headerSize) (front ++ freep :: back) others :=
    fun joined => ⟨⟨joined.ring.cycle, joined.ring.gaps, joined.ring.base_mem,
      joined.ring.base_size, joined.ring.positive, joined.ring.aligned, joined.ring.below⟩,
      joined.headers, joined.bytes, joined.total, joined.large, joined.frame⟩
  by_cases touches : p + headerSize * h.size p = ap - headerSize
  · obtain ⟨low, lower⟩ := upper.lower_joined ring apart turned touches
    exact ⟨_, _, p, returns, change_freep (lower.result ring apart turned upper), rfl, by simp⟩
  · have lower := upper.lower_apart ring apart turned touches
    refine ⟨_, _, p, returns, change_freep (lower.result ring apart turned upper), rfl, ?_⟩
    have stays : p ∈ back'' ++ front' := List.mem_of_getLast? upper.last
    simp only [List.mem_append, List.mem_cons] at stays ⊢
    tauto

end Kmalloc
end Xv6Duo
