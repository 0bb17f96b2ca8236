import Mathlib.Tactic
import Xv6Duo.Kmalloc.Ring

/-!
# Free and handed out blocks

The blocks of the circle and those that were handed out share no byte and fill the pages that came
from `kalloc`. Releasing a block, putting in a new page and taking a block keep this up.
-/

namespace Xv6Duo
namespace Kmalloc

open LinkCycle

/-- A byte of a page. -/
def Inside (taken : List Nat) (u : Nat) : Prop :=
  ∃ page ∈ taken, page ≤ u ∧ u < page + pgsize

/-- The circle `nodes`, the blocks `heads` that were handed out, and the pages `taken`. -/
structure Layout (base : Nat) (h : Heap) (nodes heads taken : List Nat) : Prop where
  /-- The circle. -/
  ring : Ring base h nodes
  /-- A block that was handed out has some headers. -/
  positive : ∀ x ∈ heads, 0 < h.size x
  /-- Its header is aligned. -/
  aligned : ∀ x ∈ heads, headerSize ∣ x
  /-- Such blocks share no byte. -/
  separate : heads.Pairwise fun x y => ∀ u, Covered h [x] u → ¬ Covered h [y] u
  /-- None is free. -/
  unshared : ∀ u, Covered h nodes u → ¬ Covered h heads u
  /-- The blocks lie in the pages. -/
  inside : ∀ u, Covered h nodes u ∨ Covered h heads u → Inside taken u
  /-- The pages. -/
  pages : ∀ page ∈ taken, PageOk base page
  /-- The blocks fill the pages. -/
  total : (nodes.map h.size).sum + (heads.map h.size).sum = pgsize / headerSize * taken.length

variable {base : Nat} {h : Heap} {nodes heads taken : List Nat}

theorem covered_first {x : Nat} (member : x ∈ nodes) (positive : 0 < h.size x) :
    Covered h nodes x := by
  refine ⟨x, member, Nat.le_refl x, ?_⟩
  rw [headerSize]
  omega

/-- Pages that share a byte are the same. -/
theorem PageOk.eq {page other u : Nat} (page_ok : PageOk base page) (other_ok : PageOk base other)
    (inside : page ≤ u ∧ u < page + pgsize) (inside_other : other ≤ u ∧ u < other + pgsize) :
    page = other := by
  obtain ⟨k, rfl⟩ := page_ok.1
  obtain ⟨l, rfl⟩ := other_ok.1
  rw [pgsize] at *
  omega

/-- No page has a byte of the static header, nor is the header's first byte behind one. -/
theorem Inside.ne_base {u : Nat} (inside : Inside taken u)
    (pages : ∀ page ∈ taken, PageOk base page) :
    u + 1 ≠ base ∧ ¬ (base ≤ u ∧ u < base + headerSize) := by
  obtain ⟨page, member, low, high⟩ := inside
  have page_ok := (pages page member).2.2.2
  rw [pgsize, headerSize] at *
  omega

/-- A block that was handed out lies apart from the circle. -/
theorem Layout.apart (layout : Layout base h nodes heads taken) {bp : Nat} (member : bp ∈ heads) :
    Apart base h nodes bp := by
  have positive := layout.positive bp member
  have byte : ∀ u, bp ≤ u → u < bp + headerSize * h.size bp → Covered h heads u :=
    fun u low high => ⟨bp, member, low, high⟩
  have inside : ∀ u, bp ≤ u → u < bp + headerSize * h.size bp → Inside taken u :=
    fun u low high => layout.inside u (Or.inr (byte u low high))
  have nonempty : bp < bp + headerSize * h.size bp := by
    rw [headerSize]
    omega
  refine ⟨positive, layout.aligned bp member, ?_, ?_, ?_⟩
  · obtain ⟨page, page_mem, _, high⟩ := inside bp (Nat.le_refl bp) nonempty
    have page_ok := (layout.pages page page_mem).2.2.1
    omega
  · intro x x_mem
    by_cases is_base : x = base
    · subst is_base
      rw [layout.ring.base_size]
      by_cases within : bp ≤ x ∧ x < bp + headerSize * h.size bp
      · have off := (inside x within.1 within.2).ne_base layout.pages
        rw [headerSize] at off
        omega
      · omega
    · have x_positive := layout.ring.positive x x_mem is_base
      by_contra overlap
      by_cases less : x < bp
      · have both : Covered h nodes bp := ⟨x, x_mem, less.le, by omega⟩
        exact layout.unshared bp both (byte bp (Nat.le_refl bp) nonempty)
      · have both : Covered h nodes x := covered_first x_mem x_positive
        exact layout.unshared x both (byte x (by omega) (by omega))
  · have last := inside (bp + headerSize * h.size bp - 1) (by omega) (by omega)
    have off := last.ne_base layout.pages
    omega

/-- The header of a block that was handed out is in no other block. -/
theorem Layout.head_fresh (layout : Layout base h nodes heads taken) {bp : Nat}
    (member : bp ∈ heads) : bp ∉ nodes ∧ ¬ Covered h nodes bp := by
  refine ⟨(layout.apart member).fresh, ?_⟩
  intro free
  exact layout.unshared bp free (covered_first member (layout.positive bp member))

theorem Layout.heads_nodup (layout : Layout base h nodes heads taken) : heads.Nodup := by
  refine layout.separate.imp_of_mem ?_
  rintro x y x_mem _ separate rfl
  have first := covered_first (List.mem_singleton_self x) (layout.positive x x_mem)
  exact separate x first first

/-- The order of the blocks that were handed out does not matter. -/
theorem Layout.perm {heads' : List Nat} (layout : Layout base h nodes heads taken)
    (perm : heads.Perm heads') : Layout base h nodes heads' taken := by
  have covered : ∀ u, Covered h heads' u ↔ Covered h heads u := by
    intro u
    constructor
    · rintro ⟨x, member, block⟩
      exact ⟨x, perm.mem_iff.mpr member, block⟩
    · rintro ⟨x, member, block⟩
      exact ⟨x, perm.mem_iff.mp member, block⟩
  constructor
  · exact layout.ring
  · exact fun x member => layout.positive x (perm.mem_iff.mpr member)
  · exact fun x member => layout.aligned x (perm.mem_iff.mpr member)
  · refine (perm.pairwise_iff ?_).mp layout.separate
    exact fun apart u in_y in_x => apart u in_x in_y
  · intro u free
    rw [covered]
    exact layout.unshared u free
  · intro u
    rw [covered]
    exact layout.inside u
  · exact layout.pages
  · rw [← (perm.map h.size).sum_eq]
    exact layout.total

/-- The blocks other than the first share no byte with it. -/
theorem Layout.first_separate {bp u : Nat} (layout : Layout base h nodes (bp :: heads) taken)
    (first : Covered h [bp] u) : ¬ Covered h heads u := by
  rintro ⟨x, member, block⟩
  have separate := (List.pairwise_cons.mp layout.separate).1 x member
  exact separate u first ⟨x, List.mem_singleton_self x, block⟩

theorem covered_one {t : Heap} {x u : Nat} (agree : t.size x = h.size x) :
    Covered t [x] u ↔ Covered h [x] u := by
  rw [covered_cons, covered_cons, agree, or_iff_left covered_nil, or_iff_left covered_nil]

/-- Blocks that keep their sizes stay separate. -/
theorem separate_congr {t : Heap} (agree : ∀ x ∈ heads, t.size x = h.size x)
    (separate : heads.Pairwise fun x y => ∀ u, Covered h [x] u → ¬ Covered h [y] u) :
    heads.Pairwise fun x y => ∀ u, Covered t [x] u → ¬ Covered t [y] u := by
  refine separate.imp_of_mem ?_
  intro x y x_mem y_mem apart u
  rw [covered_one (agree x x_mem), covered_one (agree y y_mem)]
  exact apart u

/-- `kmfree` of a block that was handed out. -/
theorem Layout.release {bp freep : Nat} (layout : Layout base h nodes (bp :: heads) taken)
    (start : h.freep = some freep) (member : freep ∈ nodes) :
    ∃ t nodes' p, kmfree h (bp + headerSize) = .ok t ∧ Layout base t nodes' heads taken ∧
      t.freep = some p ∧ p ∈ nodes' ∧ (∀ x ∈ heads, t.size x = h.size x) ∧
      ∃ x ∈ nodes', h.size bp ≤ t.size x := by
  have apart : Apart base h nodes (bp + headerSize - headerSize) := by
    rw [Nat.add_sub_cancel]
    exact layout.apart List.mem_cons_self
  obtain ⟨t, nodes', p, returns, joined, leads, p_mem⟩ := kmfree_spec layout.ring start member apart
  rw [Nat.add_sub_cancel] at joined
  have agree : ∀ x ∈ heads, t.size x = h.size x := by
    intro x x_mem
    refine joined.frame x (layout.head_fresh (List.mem_cons_of_mem bp x_mem)).1 ?_
    rintro rfl
    exact (List.nodup_cons.mp layout.heads_nodup).1 x_mem
  have block : ∀ u, Covered h [bp] u ↔ bp ≤ u ∧ u < bp + headerSize * h.size bp := by
    intro u
    rw [covered_cons, or_iff_left covered_nil]
  have bytes : ∀ u, Covered t nodes' u ↔ Covered h nodes u ∨ Covered h [bp] u := by
    intro u
    rw [joined.bytes, block]
  have old : ∀ {u}, Covered h heads u → Covered h (bp :: heads) u :=
    fun ⟨x, x_mem, inner⟩ => ⟨x, List.mem_cons_of_mem bp x_mem, inner⟩
  refine ⟨t, nodes', p, returns, ⟨joined.ring, ?_, ?_, ?_, ?_, ?_, layout.pages, ?_⟩, leads, p_mem,
    agree, joined.large⟩
  · intro x x_mem
    rw [agree x x_mem]
    exact layout.positive x (List.mem_cons_of_mem bp x_mem)
  · exact fun x x_mem => layout.aligned x (List.mem_cons_of_mem bp x_mem)
  · exact separate_congr agree (List.pairwise_cons.mp layout.separate).2
  · intro u free
    rw [covered_congr agree]
    rcases (bytes u).mp free with was_free | of_block
    · exact fun live => layout.unshared u was_free (old live)
    · exact layout.first_separate of_block
  · intro u
    rw [covered_congr agree, bytes]
    rintro ((was_free | of_block) | live)
    · exact layout.inside u (Or.inl was_free)
    · exact layout.inside u (Or.inr (covered_cons.mpr (Or.inl ((block u).mp of_block))))
    · exact layout.inside u (Or.inr (old live))
  · have total := layout.total
    rw [List.map_cons, List.sum_cons] at total
    rw [joined.total, List.map_congr_left agree]
    omega

/-- `morecore` clears a page that holds no header of a block. -/
theorem Layout.page {page : Nat} (layout : Layout base h nodes heads taken)
    (page_ok : PageOk base page) (fresh : page ∉ taken) :
    Layout base (clearPage h page) nodes (page :: heads) (page :: taken) ∧
      ∀ x, x ∈ nodes ∨ x ∈ heads → (clearPage h page).size x = h.size x := by
  have not_inside : ∀ u, Inside taken u → ¬ (page ≤ u ∧ u < page + pgsize) := by
    rintro u ⟨other, other_mem, inside_other⟩ inside
    exact fresh (page_ok.eq (layout.pages other other_mem) inside inside_other ▸ other_mem)
  have outside : ∀ x, x ∈ nodes ∨ x ∈ heads → ¬ (page ≤ x ∧ x < page + pgsize) := by
    intro x member
    by_cases is_base : x = base
    · have apart := page_ok.2.2.2
      rw [headerSize] at apart
      omega
    · refine not_inside x (layout.inside x ?_)
      rcases member with in_nodes | in_heads
      · exact Or.inl (covered_first in_nodes (layout.ring.positive x in_nodes is_base))
      · exact Or.inr (covered_first in_heads (layout.positive x in_heads))
  have size : ∀ x, x ∈ nodes ∨ x ∈ heads → (clearPage h page).size x = h.size x := by
    intro x member
    have off := outside x member
    have differs : x ≠ page := by
      rintro rfl
      exact off ⟨Nat.le_refl x, by rw [pgsize]; omega⟩
    rw [clearPage]
    dsimp only
    rw [Function.update_of_ne differs, if_neg off]
  have size_page : (clearPage h page).size page = pgsize / headerSize := by
    simp [clearPage]
  have agree : ∀ x ∈ heads, (clearPage h page).size x = h.size x := fun x member =>
    size x (Or.inr member)
  have agree_nodes : ∀ x ∈ nodes, (clearPage h page).size x = h.size x := fun x member =>
    size x (Or.inl member)
  have units : headerSize * (pgsize / headerSize) = pgsize := by decide
  have block : ∀ u, Covered (clearPage h page) [page] u ↔ page ≤ u ∧ u < page + pgsize := by
    intro u
    rw [covered_cons, or_iff_left covered_nil, size_page, units]
  have bytes : ∀ u, Covered (clearPage h page) (page :: heads) u ↔
      (page ≤ u ∧ u < page + pgsize) ∨ Covered h heads u := by
    intro u
    rw [covered_cons, size_page, units, covered_congr agree]
  refine ⟨⟨⟨?_, ?_, layout.ring.base_mem, ?_, ?_, layout.ring.aligned, layout.ring.below⟩,
    ?_, ?_, ?_, ?_, ?_, ?_, ?_⟩, size⟩
  · refine layout.ring.cycle.congr ?_
    intro x member
    exact if_neg (outside x (Or.inl member))
  · refine layout.ring.gaps.imp_of_mem ?_
    intro x y x_mem _ gap
    rwa [agree_nodes x x_mem]
  · rw [agree_nodes base layout.ring.base_mem]
    exact layout.ring.base_size
  · intro x member not_base
    rw [agree_nodes x member]
    exact layout.ring.positive x member not_base
  · intro x member
    rcases List.mem_cons.mp member with rfl | old
    · rw [size_page]
      decide
    · rw [agree x old]
      exact layout.positive x old
  · intro x member
    rcases List.mem_cons.mp member with rfl | old
    · exact dvd_trans (by decide) page_ok.1
    · exact layout.aligned x old
  · refine List.pairwise_cons.mpr ⟨?_, separate_congr agree layout.separate⟩
    intro x member u in_page in_block
    rw [covered_one (agree x member)] at in_block
    refine not_inside u (layout.inside u (Or.inr ?_)) ((block u).mp in_page)
    obtain ⟨_, is_x, inner⟩ := in_block
    rw [List.mem_singleton.mp is_x] at inner
    exact ⟨x, member, inner⟩
  · intro u free
    rw [covered_congr agree_nodes] at free
    rw [bytes]
    rintro (in_page | live)
    · exact not_inside u (layout.inside u (Or.inl free)) in_page
    · exact layout.unshared u free live
  · intro u
    rw [covered_congr agree_nodes, bytes]
    rintro (free | in_page | live)
    · obtain ⟨other, member, inner⟩ := layout.inside u (Or.inl free)
      exact ⟨other, List.mem_cons_of_mem page member, inner⟩
    · exact ⟨page, List.mem_cons_self, in_page⟩
    · obtain ⟨other, member, inner⟩ := layout.inside u (Or.inr live)
      exact ⟨other, List.mem_cons_of_mem page member, inner⟩
  · intro other member
    rcases List.mem_cons.mp member with rfl | old
    · exact page_ok
    · exact layout.pages other old
  · have total := layout.total
    rw [List.map_congr_left agree_nodes, List.map_cons, List.sum_cons, size_page,
      List.map_congr_left agree, List.length_cons, Nat.mul_succ]
    omega

/-! ## Taking a block -/

/-- Free blocks share no byte. -/
theorem Ring.separate (ring : Ring base h nodes) :
    nodes.Pairwise fun x y => ∀ u, Covered h [x] u → ¬ Covered h [y] u := by
  refine ring.gaps.imp ?_
  intro x y gap u in_x in_y
  rw [covered_cons, or_iff_left covered_nil] at in_x in_y
  omega

/-- The circle without a block that is not the static header. -/
theorem Ring.unlink {prevp p : Nat} (ring : Ring base h nodes) (member : prevp ∈ nodes)
    (leads : h.ptr prevp = p) (positive : 0 < h.size p) :
    ∃ nodes', Ring base { h with
      ptr := Function.update h.ptr prevp (h.ptr p)
      freep := some prevp } nodes' ∧ prevp ∈ nodes' ∧ nodes.Perm (p :: nodes') := by
  obtain ⟨front, back, split, last, head⟩ := ring.cycle.split_after member
  have cycle : IsCycle h.ptr (back ++ front) := (split ▸ ring.cycle).rotate
  have nodup : (back ++ front).Nodup := List.nodup_append_comm.mp (split ▸ ring.nodup)
  have not_base : base ≠ p := by
    rintro rfl
    rw [ring.base_size] at positive
    exact absurd positive (Nat.lt_irrefl 0)
  have p_mem : p ∈ nodes := leads ▸ ring.cycle.link_mem member
  have others : ∃ nodes', nodes'.Sublist nodes ∧ nodes.Perm (p :: nodes') ∧
      ∃ front' back', nodes' = front' ++ back' ∧ back ++ front = p :: (back' ++ front') := by
    rw [split]
    cases back with
    | nil =>
        cases front with
        | nil => cases head
        | cons first front' =>
            have same : first = p := leads ▸ Option.some.inj head
            subst same
            exact ⟨front', by simp, by simp, front', [], by simp, by simp⟩
    | cons first back' =>
        have same : first = p := leads ▸ Option.some.inj head
        subst same
        exact ⟨front ++ back', (List.sublist_cons_self _ _).append_left front,
          List.perm_middle, front, back', rfl, rfl⟩
  obtain ⟨nodes', sublist, perm, front', back', split', turned⟩ := others
  have base_mem : base ∈ nodes' :=
    (List.mem_cons.mp (perm.mem_iff.mp ring.base_mem)).resolve_left not_base
  rw [turned] at cycle nodup last
  cases rest : back' ++ front' with
  | nil =>
      rw [List.append_eq_nil_iff] at rest
      rw [split', rest.1, rest.2] at base_mem
      cases base_mem
  | cons second others =>
      rw [rest] at cycle nodup last
      rw [List.getLast?_cons_cons] at last
      have next : h.ptr p = second := cycle.1
      have removed := cycle.remove nodup last
      rw [← next, next, ← rest] at removed
      refine ⟨nodes', ⟨?_, ring.gaps.sublist sublist, base_mem, ring.base_size, ?_, ?_, ?_⟩, ?_,
        perm⟩
      · rw [split', next]
        exact removed.rotate
      · exact fun x x_mem => ring.positive x (sublist.subset x_mem)
      · exact fun x x_mem => ring.aligned x (sublist.subset x_mem)
      · exact fun x x_mem => ring.below x (sublist.subset x_mem)
      · have in_rest := List.mem_of_getLast? last
        rw [← rest] at in_rest
        rw [split']
        simpa [or_comm] using in_rest

/-- A whole block is taken from the circle. -/
theorem Layout.take_whole {prevp p : Nat} (layout : Layout base h nodes heads taken)
    (member : prevp ∈ nodes) (leads : h.ptr prevp = p) (positive : 0 < h.size p) :
    ∃ nodes', Layout base { h with
      ptr := Function.update h.ptr prevp (h.ptr p)
      freep := some prevp } nodes' (p :: heads) taken ∧ prevp ∈ nodes' := by
  obtain ⟨nodes', ring, stays, perm⟩ := layout.ring.unlink member leads positive
  have p_mem : p ∈ nodes := leads ▸ layout.ring.cycle.link_mem member
  have separate := (perm.pairwise_iff (fun apart u in_y in_x => apart u in_x in_y)).mp
    layout.ring.separate
  have free_of : ∀ {u}, Covered h nodes' u → Covered h nodes u :=
    fun ⟨x, x_mem, inner⟩ => ⟨x, perm.mem_iff.mpr (List.mem_cons_of_mem p x_mem), inner⟩
  have block_of : ∀ {u}, Covered h [p] u → Covered h nodes u := by
    rintro u ⟨x, x_mem, inner⟩
    exact ⟨x, (List.mem_singleton.mp x_mem) ▸ p_mem, inner⟩
  have bytes : ∀ u, Covered h (p :: heads) u ↔ Covered h [p] u ∨ Covered h heads u := by
    intro u
    rw [covered_cons, covered_cons, or_iff_left covered_nil]
  refine ⟨nodes', ⟨ring, ?_, ?_, ?_, ?_, ?_, layout.pages, ?_⟩, stays⟩
  · intro x x_mem
    rcases List.mem_cons.mp x_mem with rfl | old
    · exact positive
    · exact layout.positive x old
  · intro x x_mem
    rcases List.mem_cons.mp x_mem with rfl | old
    · exact layout.ring.aligned x p_mem
    · exact layout.aligned x old
  · refine List.pairwise_cons.mpr ⟨?_, layout.separate⟩
    rintro x x_mem u in_p ⟨y, is_x, inner⟩
    exact layout.unshared u (block_of in_p) ⟨x, x_mem, (List.mem_singleton.mp is_x) ▸ inner⟩
  · intro u free live
    rcases (bytes u).mp live with in_p | in_heads
    · obtain ⟨x, x_mem, inner⟩ := free
      exact (List.pairwise_cons.mp separate).1 x x_mem u in_p ⟨x, List.mem_singleton_self x, inner⟩
    · exact layout.unshared u (free_of free) in_heads
  · rintro u (free | live)
    · exact layout.inside u (Or.inl (free_of free))
    · rcases (bytes u).mp live with in_p | in_heads
      · exact layout.inside u (Or.inl (block_of in_p))
      · exact layout.inside u (Or.inr in_heads)
  · have total := layout.total
    have sum := (perm.map h.size).sum_eq
    rw [List.map_cons, List.sum_cons] at sum ⊢
    dsimp only
    omega

/-- The sizes after the upper part of a block is taken. -/
def Shrunk (h t : Heap) (p upper nunits : Nat) : Prop :=
  t.size = Function.update (Function.update h.size p (h.size p - nunits)) upper nunits

section Shrink

variable {t : Heap} {p upper nunits : Nat}

theorem Ring.upper_fresh (ring : Ring base h nodes) (p_mem : p ∈ nodes) (low : p < upper)
    (high : upper < p + headerSize * h.size p) : upper ∉ nodes := by
  intro member
  obtain ⟨front, back, rfl⟩ := List.append_of_mem p_mem
  obtain ⟨_, back_gaps, cross⟩ := List.pairwise_append.mp ring.gaps
  rcases List.mem_append.mp member with in_front | in_rest
  · have gap := cross upper in_front p List.mem_cons_self
    omega
  · rcases List.mem_cons.mp in_rest with is_p | in_back
    · omega
    · have gap := (List.pairwise_cons.mp back_gaps).1 upper in_back
      omega

/-- The circle keeps the lower part. -/
theorem Ring.shrink (ring : Ring base h nodes) (p_mem : p ∈ nodes) (some_units : 0 < nunits)
    (larger : nunits < h.size p) (ends : upper + headerSize * nunits = p + headerSize * h.size p)
    (same_ptr : t.ptr = h.ptr) (shrunk : Shrunk h t p upper nunits) :
    Ring base t nodes ∧ (nodes.map t.size).sum + nunits = (nodes.map h.size).sum ∧
      ∀ u, Covered h nodes u ↔
        Covered t nodes u ∨ (upper ≤ u ∧ u < upper + headerSize * nunits) := by
  have above : p < upper := by
    rw [headerSize] at ends
    omega
  have upper_fresh : upper ∉ nodes := by
    apply ring.upper_fresh p_mem above
    rw [← ends, headerSize]
    omega
  have size_p : t.size p = h.size p - nunits := by
    rw [shrunk, Function.update_of_ne above.ne, Function.update_self]
  have size_other : ∀ x ∈ nodes, x ≠ p → t.size x = h.size x := by
    intro x member differs
    have not_upper : x ≠ upper := fun same => upper_fresh (same ▸ member)
    rw [shrunk, Function.update_of_ne not_upper, Function.update_of_ne differs]
  have size_le : ∀ x ∈ nodes, t.size x ≤ h.size x := by
    intro x member
    by_cases is_p : x = p
    · rw [is_p, size_p]
      exact Nat.sub_le ..
    · exact (size_other x member is_p).le
  have base_not_p : base ≠ p := by
    rintro rfl
    rw [ring.base_size] at larger
    exact Nat.not_lt_zero _ larger
  refine ⟨⟨same_ptr ▸ ring.cycle, ?_, ring.base_mem, ?_, ?_, ring.aligned, ring.below⟩, ?_, ?_⟩
  · refine ring.gaps.imp_of_mem ?_
    intro x y x_mem _ gap
    have le := Nat.mul_le_mul_left headerSize (size_le x x_mem)
    omega
  · rw [size_other base ring.base_mem base_not_p]
    exact ring.base_size
  · intro x member not_base
    by_cases is_p : x = p
    · rw [is_p, size_p]
      omega
    · rw [size_other x member is_p]
      exact ring.positive x member not_base
  · obtain ⟨front, back, rfl⟩ := List.append_of_mem p_mem
    have nodup := ring.nodup
    obtain ⟨_, back_nodup, disjoint⟩ := List.nodup_append.mp nodup
    have front_same : ∀ x ∈ front, t.size x = h.size x := fun x member =>
      size_other x (List.mem_append_left _ member) (disjoint x member p List.mem_cons_self)
    have back_same : ∀ x ∈ back, t.size x = h.size x := by
      intro x member
      refine size_other x (List.mem_append_right _ (List.mem_cons_of_mem p member)) ?_
      rintro rfl
      exact (List.nodup_cons.mp back_nodup).1 member
    simp only [List.map_append, List.map_cons, List.sum_append, List.sum_cons,
      List.map_congr_left front_same, List.map_congr_left back_same, size_p]
    omega
  · intro u
    constructor
    · rintro ⟨x, member, low, high⟩
      by_cases is_p : x = p
      · subst is_p
        by_cases lower : u < upper
        · refine Or.inl ⟨x, member, low, ?_⟩
          rw [size_p, Nat.mul_sub]
          omega
        · exact Or.inr ⟨by omega, by omega⟩
      · exact Or.inl ⟨x, member, low, by rwa [size_other x member is_p]⟩
    · rintro (⟨x, member, low, high⟩ | ⟨low, high⟩)
      · have le := Nat.mul_le_mul_left headerSize (size_le x member)
        exact ⟨x, member, low, by omega⟩
      · exact ⟨p, p_mem, by omega, by omega⟩

/-- The upper part is not in the circle any more. -/
theorem Ring.shrink_apart (ring : Ring base h nodes) (p_mem : p ∈ nodes) (above : p < upper)
    (some_units : 0 < nunits)
    (ends : upper + headerSize * nunits = p + headerSize * h.size p)
    (shrunk : Shrunk h t p upper nunits) {u : Nat} (free : Covered t nodes u) :
    ¬ (upper ≤ u ∧ u < upper + headerSize * nunits) := by
  rintro ⟨from_upper, to_end⟩
  obtain ⟨x, x_mem, low, high⟩ := free
  have size_p : t.size p = h.size p - nunits := by
    rw [shrunk, Function.update_of_ne above.ne, Function.update_self]
  by_cases is_p : x = p
  · rw [is_p, size_p, Nat.mul_sub] at high
    omega
  · have upper_fresh : upper ∉ nodes := by
      apply ring.upper_fresh p_mem above
      rw [← ends, headerSize]
      omega
    have not_upper : x ≠ upper := fun same => upper_fresh (same ▸ x_mem)
    rw [shrunk, Function.update_of_ne not_upper, Function.update_of_ne is_p] at high
    obtain ⟨front, back, rfl⟩ := List.append_of_mem p_mem
    obtain ⟨_, back_gaps, cross⟩ := List.pairwise_append.mp ring.gaps
    rcases List.mem_append.mp x_mem with in_front | in_rest
    · have gap := cross x in_front p List.mem_cons_self
      omega
    · have in_back := (List.mem_cons.mp in_rest).resolve_left is_p
      have gap := (List.pairwise_cons.mp back_gaps).1 x in_back
      omega

/-- The upper part of a block is taken. -/
theorem Layout.take_upper (layout : Layout base h nodes heads taken) (p_mem : p ∈ nodes)
    (some_units : 0 < nunits) (larger : nunits < h.size p)
    (place : upper = p + headerSize * (h.size p - nunits))
    (shrunk : Shrunk h t p upper nunits) (same_ptr : t.ptr = h.ptr) :
    Layout base t nodes (upper :: heads) taken ∧ ∀ x ∈ heads, t.size x = h.size x := by
  have above : p < upper := by
    rw [place, headerSize]
    omega
  have ends : upper + headerSize * nunits = p + headerSize * h.size p := by
    rw [place, Nat.mul_sub]
    have le := Nat.mul_le_mul_left headerSize larger.le
    omega
  obtain ⟨ring, sum, bytes⟩ := layout.ring.shrink p_mem some_units larger ends same_ptr shrunk
  have size_upper : t.size upper = nunits := by
    rw [shrunk, Function.update_self]
  have upper_free : ∀ u, upper ≤ u → u < upper + headerSize * nunits → Covered h nodes u :=
    fun u low high => (bytes u).mpr (Or.inr ⟨low, high⟩)
  have not_upper : ∀ x ∈ heads, x ≠ upper := by
    rintro x member rfl
    have first := upper_free x (Nat.le_refl x) (by rw [headerSize]; omega)
    exact layout.unshared x first (covered_first member (layout.positive x member))
  have agree : ∀ x ∈ heads, t.size x = h.size x := by
    intro x member
    have not_p : x ≠ p := fun same => (layout.head_fresh member).1 (same ▸ p_mem)
    rw [shrunk, Function.update_of_ne (not_upper x member), Function.update_of_ne not_p]
  have live_bytes : ∀ u, Covered t (upper :: heads) u ↔
      (upper ≤ u ∧ u < upper + headerSize * nunits) ∨ Covered h heads u := by
    intro u
    rw [covered_cons, size_upper, covered_congr agree]
  refine ⟨⟨ring, ?_, ?_, ?_, ?_, ?_, layout.pages, ?_⟩, agree⟩
  · intro x member
    rcases List.mem_cons.mp member with rfl | old
    · rw [size_upper]
      exact some_units
    · rw [agree x old]
      exact layout.positive x old
  · intro x member
    rcases List.mem_cons.mp member with rfl | old
    · rw [place]
      exact (layout.ring.aligned p p_mem).add (Nat.dvd_mul_right ..)
    · exact layout.aligned x old
  · refine List.pairwise_cons.mpr ⟨?_, separate_congr agree layout.separate⟩
    intro x member u in_upper in_x
    rw [covered_cons, or_iff_left covered_nil, size_upper] at in_upper
    rw [covered_one (agree x member)] at in_x
    obtain ⟨_, is_x, inner⟩ := in_x
    rw [List.mem_singleton.mp is_x] at inner
    exact layout.unshared u (upper_free u in_upper.1 in_upper.2) ⟨x, member, inner⟩
  · intro u free live
    rcases (live_bytes u).mp live with in_upper | old
    · exact layout.ring.shrink_apart p_mem above some_units ends shrunk free in_upper
    · exact layout.unshared u ((bytes u).mpr (Or.inl free)) old
  · rintro u (free | live)
    · exact layout.inside u (Or.inl ((bytes u).mpr (Or.inl free)))
    · rcases (live_bytes u).mp live with in_upper | old
      · exact layout.inside u (Or.inl (upper_free u in_upper.1 in_upper.2))
      · exact layout.inside u (Or.inr old)
  · have total := layout.total
    rw [List.map_cons, List.sum_cons, size_upper, List.map_congr_left agree]
    omega

end Shrink

/-- `kmalloc` takes a block that is large enough. -/
theorem Layout.take {nunits prevp : Nat} (layout : Layout base h nodes heads taken)
    (member : prevp ∈ nodes) (some_units : 0 < nunits) (fits : nunits ≤ h.size (h.ptr prevp)) :
    ∃ bp nodes' t, takeBlock h nunits prevp (h.ptr prevp) = (bp + headerSize, t) ∧
      Layout base t nodes' (bp :: heads) taken ∧ t.freep = some prevp ∧ prevp ∈ nodes' ∧
      t.size bp = nunits ∧ ∀ x ∈ heads, t.size x = h.size x := by
  have p_mem := layout.ring.cycle.link_mem member
  rw [takeBlock]
  split
  · next whole =>
      obtain ⟨nodes', taken_whole, stays⟩ :=
        layout.take_whole member rfl (by omega : 0 < h.size (h.ptr prevp))
      exact ⟨_, nodes', _, rfl, taken_whole, rfl, stays, whole, fun x _ => rfl⟩
  · next other =>
      have larger : nunits < h.size (h.ptr prevp) := by omega
      have same_size : Shrunk h { h with
          size := Function.update (Function.update h.size (h.ptr prevp)
            (h.size (h.ptr prevp) - nunits))
              (h.ptr prevp + headerSize * (h.size (h.ptr prevp) - nunits)) nunits
          freep := some prevp } (h.ptr prevp)
            (h.ptr prevp + headerSize * (h.size (h.ptr prevp) - nunits)) nunits := rfl
      obtain ⟨taken_upper, agree⟩ :=
        layout.take_upper p_mem some_units larger rfl same_size rfl
      exact ⟨_, nodes, _, rfl, taken_upper, rfl, member, Function.update_self .., agree⟩

end Kmalloc
end Xv6Duo
