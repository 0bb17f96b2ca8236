import Mathlib.Tactic
import Xv6Duo.Kmalloc.Blocks

/-!
# Runs of the small block allocator

`kmalloc` goes once round the circle, takes a page if no block is large enough, and then finds one
in the second round. The layout of the blocks and the sizes asked for are kept by all runs.
-/

namespace Xv6Duo
namespace Kmalloc

open LinkCycle GuardedRun

variable {base nunits : Nat} {h : Heap} {nodes heads taken pages : List Nat}

/-- What the loop of `kmalloc` does at `freep`. -/
def refill (nunits fuel : Nat) (h : Heap) (pages : List Nat) :
    Except Fault (Option Nat × Heap × List Nat) := do
  match ← morecore h pages with
  | none => return (none, h, pages)
  | some (h, pages) =>
      match h.freep with
      | none => .error .badPointer
      | some p => searchLoop nunits fuel p (h.ptr p) h pages

/-- One round of the loop finds a block that is large enough, or none is. -/
theorem searchLoop_path {start finish prevp freep fuel : Nat} {others : List Nat} (nunits : Nat)
    (pages : List Nat) (path : Path h.ptr start others finish)
    (last : (start :: others).getLast? = some freep) (nodup : (start :: others).Nodup)
    (leads : h.ptr prevp = start) (at_freep : h.freep = some freep)
    (enough : others.length < fuel) :
    (∃ prev ∈ prevp :: start :: others, nunits ≤ h.size (h.ptr prev) ∧
      searchLoop nunits fuel prevp start h pages =
        .ok (some (takeBlock h nunits prev (h.ptr prev)).1,
          (takeBlock h nunits prev (h.ptr prev)).2, pages)) ∨
    ((∀ x ∈ start :: others, h.size x < nunits) ∧ ∃ rest, fuel ≤ rest + others.length + 1 ∧
      searchLoop nunits fuel prevp start h pages = refill nunits rest h pages) := by
  obtain ⟨fuel, rfl⟩ : ∃ rest, fuel = rest + 1 := ⟨fuel - 1, by omega⟩
  by_cases fits : nunits ≤ h.size start
  · refine Or.inl ⟨prevp, List.mem_cons_self, leads.symm ▸ fits, ?_⟩
    rw [searchLoop, if_pos fits, leads]
  · induction others generalizing start prevp fuel with
    | nil =>
        have is_freep : start = freep := Option.some.inj last
        refine Or.inr ⟨?_, fuel, by simp, ?_⟩
        · intro x member
          rw [List.mem_singleton.mp member]
          omega
        · rw [searchLoop, if_neg fits, if_pos (is_freep ▸ at_freep.symm)]
          rfl
    | cons next others ih =>
        rw [List.getLast?_cons_cons] at last
        obtain ⟨fresh, nodup⟩ := List.nodup_cons.mp nodup
        have not_freep : ¬ some start = h.freep := by
          rw [at_freep]
          intro same
          exact fresh (Option.some.inj same ▸ List.mem_of_getLast? last)
        have unfolds : searchLoop nunits (fuel + 1) prevp start h pages =
            searchLoop nunits fuel start next h pages := by
          rw [searchLoop, if_neg fits, if_neg not_freep, path.1]
        rw [unfolds]
        simp only [List.length_cons] at enough
        obtain ⟨fuel, rfl⟩ : ∃ rest, fuel = rest + 1 := ⟨fuel - 1, by omega⟩
        by_cases next_fits : nunits ≤ h.size next
        · refine Or.inl ⟨start, by simp, path.1.symm ▸ next_fits, ?_⟩
          rw [searchLoop, if_pos next_fits, path.1]
        · rcases ih path.2 last nodup path.1 fuel (by omega) next_fits with
            ⟨prev, member, large, returns⟩ | ⟨small, rest, fewer, returns⟩
          · exact Or.inl ⟨prev, List.mem_cons_of_mem prevp member, large, returns⟩
          · refine Or.inr ⟨?_, rest, ?_, returns⟩
            · intro x member
              rcases List.mem_cons.mp member with rfl | later
              · omega
              · exact small x later
            · rw [List.length_cons]
              omega

/-- The heap after `kmalloc` has handed out the block at `bp`. -/
def Granted (base nunits : Nat) (h t : Heap) (heads taken : List Nat) (bp : Nat) : Prop :=
  ∃ nodes p, Layout base t nodes (bp :: heads) taken ∧ t.freep = some p ∧ p ∈ nodes ∧
    t.size bp = nunits ∧ ∀ x ∈ heads, t.size x = h.size x

/-- One round of the loop. -/
theorem Layout.scan {freep fuel : Nat} (layout : Layout base h nodes heads taken) (pages : List Nat)
    (at_freep : h.freep = some freep) (member : freep ∈ nodes) (some_units : 0 < nunits)
    (enough : manyHeaders ≤ fuel) :
    (∃ bp t, searchLoop nunits fuel freep (h.ptr freep) h pages =
        .ok (some (bp + headerSize), t, pages) ∧ Granted base nunits h t heads taken bp) ∨
    ((∀ x ∈ nodes, h.size x < nunits) ∧ ∃ rest, fuel ≤ rest + manyHeaders ∧
      searchLoop nunits fuel freep (h.ptr freep) h pages = refill nunits rest h pages) := by
  obtain ⟨front, back, split, last, head⟩ := layout.ring.cycle.split_after member
  have cycle : IsCycle h.ptr (back ++ front) := (split ▸ layout.ring.cycle).rotate
  have nodup : (back ++ front).Nodup := List.nodup_append_comm.mp (split ▸ layout.ring.nodup)
  have same : ∀ x, x ∈ nodes ↔ x ∈ back ++ front := by
    intro x
    rw [split, List.mem_append, List.mem_append, or_comm]
  have short : (back ++ front).length < manyHeaders := by
    have short := layout.ring.length_lt
    rw [split] at short
    rwa [List.length_append, Nat.add_comm, ← List.length_append]
  cases whole : back ++ front with
  | nil =>
      rw [whole] at cycle
      exact absurd cycle id
  | cons start others =>
      rw [whole] at cycle nodup last head short
      rw [List.length_cons] at short
      have leads : h.ptr freep = start := (Option.some.inj head).symm
      rcases searchLoop_path nunits pages cycle last nodup leads at_freep
        (by omega : others.length < fuel) with
        ⟨prev, prev_mem, large, returns⟩ | ⟨small, rest, fewer, returns⟩
      · have prev_node : prev ∈ nodes := by
          rcases List.mem_cons.mp prev_mem with rfl | later
          · exact member
          · rw [same, whole]
            exact later
        obtain ⟨bp, nodes', t, result, taken_block, at_prev, stays, size, agree⟩ :=
          layout.take prev_node some_units large
        rw [result] at returns
        exact Or.inl
          ⟨bp, t, leads ▸ returns, nodes', prev, taken_block, at_prev, stays, size, agree⟩
      · refine Or.inr ⟨?_, rest, by omega, leads ▸ returns⟩
        intro x x_mem
        apply small x
        rw [← whole, ← same]
        exact x_mem

/-- `kalloc` hands out pages that it has not handed out before. -/
def Supplied (base : Nat) (taken pages : List Nat) : Prop :=
  ∀ page ∈ pages, PageOk base page ∧ page ∉ taken

/-- `morecore` puts a page into the circle. -/
theorem Layout.morecore {page freep : Nat} (layout : Layout base h nodes heads taken)
    (at_freep : h.freep = some freep) (member : freep ∈ nodes)
    (supplied : Supplied base taken (page :: pages)) :
    ∃ t nodes' p, morecore h (page :: pages) = .ok (some (t, pages)) ∧
      Layout base t nodes' heads (page :: taken) ∧ t.freep = some p ∧ p ∈ nodes' ∧
      (∀ x ∈ heads, t.size x = h.size x) ∧ ∃ x ∈ nodes', pgsize / headerSize ≤ t.size x := by
  obtain ⟨page_ok, fresh⟩ := supplied page List.mem_cons_self
  obtain ⟨cleared, same⟩ := layout.page page_ok fresh
  obtain ⟨t, nodes', p, returns, freed, leads, stays, agree, large⟩ :=
    cleared.release at_freep member
  have size_page : (clearPage h page).size page = pgsize / headerSize := by
    simp [clearPage]
  rw [size_page] at large
  refine ⟨t, nodes', p, ?_, freed, leads, stays, ?_, large⟩
  · rw [Kmalloc.morecore, returns]
    rfl
  · intro x x_mem
    rw [agree x x_mem, same x (Or.inr x_mem)]

/-- The loop of `kmalloc` hands out a block and takes at most one page for it, or `kalloc` fails. -/
theorem Layout.search {freep : Nat} (layout : Layout base h nodes heads taken)
    (at_freep : h.freep = some freep) (member : freep ∈ nodes) (some_units : 0 < nunits)
    (at_most : nunits ≤ pgsize / headerSize) (supplied : Supplied base taken pages) :
    (pages = [] ∧ searchLoop nunits (2 * manyHeaders) freep (h.ptr freep) h pages =
      .ok (none, h, [])) ∨
    ∃ bp t used left, pages = used ++ left ∧ used.length ≤ 1 ∧
      searchLoop nunits (2 * manyHeaders) freep (h.ptr freep) h pages =
        .ok (some (bp + headerSize), t, left) ∧
      Granted base nunits h t heads (used ++ taken) bp := by
  rcases layout.scan pages at_freep member some_units
    (by omega : manyHeaders ≤ 2 * manyHeaders) with
    ⟨bp, t, returns, granted⟩ | ⟨_, rest, fewer, returns⟩
  · exact Or.inr ⟨bp, t, [], pages, rfl, Nat.zero_le 1, returns, granted⟩
  · cases pages with
    | nil => exact Or.inl ⟨rfl, returns⟩
    | cons page pages =>
        obtain ⟨t, nodes', p, more, refilled, leads, stays, agree, x, x_mem, large⟩ :=
          layout.morecore at_freep member supplied
        have continues : refill nunits rest h (page :: pages) =
            searchLoop nunits rest p (t.ptr p) t pages := by
          rw [refill, more]
          simp only [Except.ok_bind, leads]
        rcases refilled.scan pages leads stays some_units
          (by omega : manyHeaders ≤ rest) with
          ⟨bp, t', found, granted⟩ | ⟨small, _⟩
        · obtain ⟨nodes'', p', handed_out, leads', stays', size, agree'⟩ := granted
          refine Or.inr ⟨bp, t', [page], pages, rfl, Nat.le_refl 1, ?_, nodes'', p', handed_out,
            leads', stays', size, ?_⟩
          · rw [returns, continues, found]
          · intro y y_mem
            rw [agree' y y_mem, agree y y_mem]
        · -- The new page is large enough, so the second round does not come to `freep`.
          have too_small := small x x_mem
          omega

/-! ## Runs -/

/-- The header of a live result. -/
def header (a : Nat × Nat) : Nat := a.1 - headerSize

/-- The invariant after the first call of `kmalloc`. -/
structure Kept (base : Nat) (w : World) (nodes : List Nat) : Prop where
  /-- The blocks. -/
  layout : Layout base w.heap nodes (w.live.map header) w.pages
  /-- `freep` is in the circle. -/
  freep : ∃ p ∈ nodes, w.heap.freep = some p
  /-- A result lies behind its header, and its block has the bytes asked for. -/
  request : ∀ a ∈ w.live, headerSize ≤ a.1 ∧
    a.2 + headerSize ≤ headerSize * w.heap.size (header a)
  /-- No page came twice. -/
  pages : w.pages.Nodup

theorem Kept.of_first (h : Heap) (aligned : headerSize ∣ base) (below : base < 2 ^ 64) :
    Kept base ⟨firstHeap base h, [], []⟩ [base] := by
  have size : (firstHeap base h).size base = 0 := Function.update_self ..
  have nothing : ∀ u, ¬ Covered (firstHeap base h) [base] u := by
    intro u
    rw [covered_cons, or_iff_left covered_nil, size]
    omega
  refine ⟨⟨⟨?_, List.pairwise_singleton .., List.mem_singleton_self base, size, ?_, ?_, ?_⟩,
    nofun, nofun, List.Pairwise.nil, ?_, ?_, nofun, ?_⟩, ⟨base, List.mem_singleton_self base, rfl⟩,
    nofun, List.nodup_nil⟩
  · exact Function.update_self ..
  · intro x member not_base
    exact absurd (List.mem_singleton.mp member) not_base
  · intro x member
    exact (List.mem_singleton.mp member) ▸ aligned
  · intro x member
    exact (List.mem_singleton.mp member) ▸ below
  · exact fun u free => absurd free (nothing u)
  · rintro u (free | live)
    · exact absurd free (nothing u)
    · exact absurd live covered_nil
  · simp [size]

/-- The first call begins with the static header alone. -/
theorem kmalloc_first {n : Nat} (untouched : h.freep = none) :
    kmalloc base h n pages = kmalloc base (firstHeap base h) n pages := by
  rw [kmalloc, kmalloc, untouched]
  rfl

theorem Kept.kmalloc {w : World} {n : Nat} (kept : Kept base w nodes) (small : n ≤ 4080)
    (supplied : Supplied base w.pages pages) :
    ∃ w' nodes', w.step base (.kmalloc n pages) = .ok w' ∧ Kept base w' nodes' ∧
      (w'.pages = w.pages ∨ ∃ page ∈ pages, w'.pages = page :: w.pages) ∧
      (pages ≠ [] → ∃ ap, w'.live = (ap, n) :: w.live) := by
  obtain ⟨freep, member, at_freep⟩ := kept.freep
  have not_too_big : ¬ pgsize - headerSize < n := by
    rw [pgsize, headerSize]
    omega
  have unfolds : Kmalloc.kmalloc base w.heap n pages =
      searchLoop ((n + headerSize - 1) / headerSize + 1) (2 * manyHeaders) freep
        (w.heap.ptr freep) w.heap pages := by
    rw [Kmalloc.kmalloc, if_neg not_too_big, at_freep]
  have enough : n + headerSize ≤ headerSize * ((n + headerSize - 1) / headerSize + 1) := by
    rw [headerSize]
    omega
  have at_most : (n + headerSize - 1) / headerSize + 1 ≤ pgsize / headerSize := by
    rw [headerSize, pgsize]
    omega
  generalize (n + headerSize - 1) / headerSize + 1 = nunits at *
  have some_units : 0 < nunits := by
    rw [headerSize] at enough
    omega
  rcases kept.layout.search at_freep member some_units at_most supplied with
    ⟨rfl, fails⟩ | ⟨bp, t, used, left, rfl, at_most_one, returns, granted⟩
  · refine ⟨w, nodes, ?_, kept, Or.inl rfl, fun some_page => absurd rfl some_page⟩
    rw [World.step, unfolds, fails]
    rfl
  · obtain ⟨nodes', p, layout, leads, stays, size, agree⟩ := granted
    have taken_eq : (used ++ left).take ((used ++ left).length - left.length) = used := by
      rw [List.length_append, Nat.add_sub_cancel, List.take_left]
    refine ⟨⟨t, (bp + headerSize, n) :: w.live, used ++ w.pages⟩, nodes', ?_,
      ⟨?_, ⟨p, stays, leads⟩, ?_, ?_⟩, ?_, fun _ => ⟨bp + headerSize, rfl⟩⟩
    · rw [World.step, unfolds, returns]
      simp only [Except.ok_bind, taken_eq]
      rfl
    · have head : header (bp + headerSize, n) = bp := Nat.add_sub_cancel ..
      rw [List.map_cons, head]
      exact layout
    · intro a a_mem
      rcases List.mem_cons.mp a_mem with rfl | old
      · refine ⟨Nat.le_add_left .., ?_⟩
        have head : header (bp + headerSize, n) = bp := Nat.add_sub_cancel ..
        rw [head, size]
        exact enough
      · obtain ⟨behind, large⟩ := kept.request a old
        refine ⟨behind, ?_⟩
        rw [agree (header a) (List.mem_map_of_mem old)]
        exact large
    · cases used with
      | nil => exact kept.pages
      | cons page used =>
          have none_more : used = [] := List.eq_nil_of_length_eq_zero (by simpa using at_most_one)
          subst none_more
          exact List.nodup_cons.mpr ⟨(supplied page (by simp)).2, kept.pages⟩
    · cases used with
      | nil => exact Or.inl rfl
      | cons page used =>
          have none_more : used = [] := List.eq_nil_of_length_eq_zero (by simpa using at_most_one)
          subst none_more
          exact Or.inr ⟨page, by simp, rfl⟩

theorem Kept.kmfree {w : World} {ap : Nat} (kept : Kept base w nodes)
    (live : ap ∈ w.live.map Prod.fst) :
    ∃ w' nodes', w.step base (.kmfree ap) = .ok w' ∧ Kept base w' nodes' ∧
      w'.pages = w.pages := by
  obtain ⟨freep, member, at_freep⟩ := kept.freep
  obtain ⟨a, a_mem, rfl⟩ := List.mem_map.mp live
  obtain ⟨front, back, split⟩ := List.append_of_mem a_mem
  have behind : header a + headerSize = a.1 := Nat.sub_add_cancel (kept.request a a_mem).1
  have turned : (w.live.map header).Perm (header a :: (front ++ back).map header) := by
    rw [split, List.map_append, List.map_append, List.map_cons]
    exact List.perm_middle
  have layout := kept.layout.perm turned
  obtain ⟨t, nodes', p, returns, freed, leads, stays, agree, _⟩ := layout.release at_freep member
  rw [behind] at returns
  -- No other live result has this address, since its header would be the same.
  have fresh := (List.nodup_cons.mp layout.heads_nodup).1
  have others : ∀ b ∈ front ++ back, b.1 ≠ a.1 := by
    intro b b_mem same
    refine fresh (List.mem_map.mpr ⟨b, b_mem, ?_⟩)
    rw [header, header, same]
  have filtered : w.live.filter (·.1 ≠ a.1) = front ++ back := by
    rw [split, List.filter_append, List.filter_cons]
    simp only [ne_eq, not_true_eq_false, decide_false, Bool.false_eq_true, if_false]
    rw [← List.filter_append, List.filter_eq_self]
    intro b b_mem
    exact decide_eq_true (others b b_mem)
  refine ⟨⟨t, front ++ back, w.pages⟩, nodes', ?_, ⟨freed, ⟨p, stays, leads⟩, ?_, kept.pages⟩, rfl⟩
  · rw [World.step, returns, filtered]
    rfl
  · intro b b_mem
    have old : b ∈ w.live := by
      rw [← filtered] at b_mem
      exact List.mem_of_mem_filter b_mem
    obtain ⟨b_behind, large⟩ := kept.request b old
    refine ⟨b_behind, ?_⟩
    rw [agree (header b) (List.mem_map_of_mem b_mem)]
    exact large

/-- A byte of the block of a live result, header included. -/
def InBlock (h : Heap) (a : Nat × Nat) (u : Nat) : Prop :=
  header a ≤ u ∧ u < header a + headerSize * h.size (header a)

/-- Blocks, circle and pages after some calls. -/
structure Sound (base : Nat) (w : World) (nodes : List Nat) : Prop where
  /-- The free blocks form a circle through `base`, in the order of addresses with one wrap. -/
  ring : Ring base w.heap nodes
  /-- `freep` is in it. -/
  freep : ∃ p ∈ nodes, w.heap.freep = some p
  /-- No free block ends where another one begins. -/
  coalesced : ∀ x ∈ nodes, ∀ y ∈ nodes, x ≠ y → x + headerSize * w.heap.size x ≠ y
  /-- Results are aligned. -/
  aligned : ∀ a ∈ w.live, headerSize ∣ a.1
  /-- The bytes asked for are bytes of the block. -/
  usable : ∀ a ∈ w.live, ∀ u, a.1 ≤ u → u < a.1 + a.2 → InBlock w.heap a u
  /-- Live blocks share no byte. -/
  separate : w.live.Pairwise fun a b => ∀ u, InBlock w.heap a u → ¬ InBlock w.heap b u
  /-- They have no byte of a header or of a block in the circle. -/
  unshared : ∀ a ∈ w.live, ∀ u, InBlock w.heap a u →
    ¬ Covered w.heap nodes u ∧ ∀ x ∈ nodes, ¬ (x ≤ u ∧ u < x + headerSize)
  /-- Free and live blocks fill the pages. -/
  units : (nodes.map w.heap.size).sum + (w.live.map fun a => w.heap.size (header a)).sum =
    256 * w.pages.length
  /-- No page came twice. -/
  pages : w.pages.Nodup

theorem Ring.coalesced (ring : Ring base h nodes) :
    ∀ x ∈ nodes, ∀ y ∈ nodes, x ≠ y → x + headerSize * h.size x ≠ y := by
  intro x x_mem y y_mem differs touches
  obtain ⟨front, back, rfl⟩ := List.append_of_mem x_mem
  obtain ⟨_, back_gaps, cross⟩ := List.pairwise_append.mp ring.gaps
  rcases List.mem_append.mp y_mem with in_front | in_rest
  · have gap := cross y in_front x List.mem_cons_self
    omega
  · have in_back := (List.mem_cons.mp in_rest).resolve_left differs.symm
    have gap := (List.pairwise_cons.mp back_gaps).1 y in_back
    omega

theorem Kept.sound {w : World} (kept : Kept base w nodes) : Sound base w nodes := by
  have covered : ∀ {a}, a ∈ w.live → ∀ u, InBlock w.heap a u →
      Covered w.heap (w.live.map header) u :=
    fun a_mem u inner => ⟨_, List.mem_map_of_mem a_mem, inner⟩
  refine ⟨kept.layout.ring, kept.freep, kept.layout.ring.coalesced, ?_, ?_, ?_, ?_, ?_, kept.pages⟩
  · intro a a_mem
    have behind : header a + headerSize = a.1 := Nat.sub_add_cancel (kept.request a a_mem).1
    rw [← behind]
    exact (kept.layout.aligned _ (List.mem_map_of_mem a_mem)).add (Nat.dvd_refl _)
  · intro a a_mem u low high
    obtain ⟨behind, large⟩ := kept.request a a_mem
    rw [InBlock]
    rw [header] at *
    omega
  · refine (List.pairwise_map.mp kept.layout.separate).imp ?_
    intro a b apart u in_a in_b
    exact apart u ⟨_, List.mem_singleton_self _, in_a⟩ ⟨_, List.mem_singleton_self _, in_b⟩
  · intro a a_mem u inner
    have live := covered a_mem u inner
    refine ⟨fun free => kept.layout.unshared u free live, ?_⟩
    rintro x x_mem in_header
    by_cases is_base : x = base
    · have off := (kept.layout.inside u (Or.inr live)).ne_base kept.layout.pages
      exact off.2 (is_base ▸ in_header)
    · have positive := kept.layout.ring.positive x x_mem is_base
      refine kept.layout.unshared u ⟨x, x_mem, in_header.1, ?_⟩ live
      have le := Nat.mul_le_mul_left headerSize positive
      omega
  · have total := kept.layout.total
    rwa [List.map_map] at total

/-- The invariant of all runs. -/
def World.Kept (base : Nat) (w : World) : Prop :=
  (w.heap.freep = none ∧ w.live = [] ∧ w.pages = []) ∨ ∃ nodes, Kmalloc.Kept base w nodes

/-- What a permitted call does. -/
theorem World.Kept.step {w : World} {call : Call} (aligned : headerSize ∣ base)
    (below : base < 2 ^ 64) (kept : w.Kept base) (permits : w.Permits base call) :
    ∃ w', w.step base call = .ok w' ∧ w'.Kept base ∧
      match call with
      | .kmfree _ => w'.pages = w.pages
      | .kmalloc n pages =>
          (w'.pages = w.pages ∨ ∃ page ∈ pages, w'.pages = page :: w.pages) ∧
            (pages ≠ [] → ∃ ap, w'.live = (ap, n) :: w.live) := by
  cases call with
  | kmfree ap =>
      rcases kept with ⟨_, none_live, _⟩ | ⟨nodes, kept⟩
      · have live : ap ∈ w.live.map Prod.fst := permits
        rw [none_live] at live
        cases live
      · obtain ⟨w', nodes', returns, kept', same⟩ := kept.kmfree permits
        exact ⟨w', returns, Or.inr ⟨nodes', kept'⟩, same⟩
  | kmalloc n pages =>
      obtain ⟨small, supplied⟩ := permits
      rcases kept with ⟨untouched, none_live, no_pages⟩ | ⟨nodes, kept⟩
      · have first := Kept.of_first w.heap aligned below
        have same : w.step base (.kmalloc n pages) =
            World.step base ⟨firstHeap base w.heap, [], []⟩ (.kmalloc n pages) := by
          rw [World.step, World.step, kmalloc_first untouched, none_live, no_pages]
        have supplied_first : Supplied base [] pages := fun page member =>
          ⟨(supplied page member).1, List.not_mem_nil⟩
        obtain ⟨w', nodes', returns, kept', grows, result⟩ := first.kmalloc small supplied_first
        refine ⟨w', same.trans returns, Or.inr ⟨nodes', kept'⟩, ?_⟩
        rw [none_live, no_pages]
        exact ⟨grows, result⟩
      · obtain ⟨w', nodes', returns, kept', grows, result⟩ := kept.kmalloc small supplied
        exact ⟨w', returns, Or.inr ⟨nodes', kept'⟩, grows, result⟩

/-- All runs of `kmalloc` and `kmfree`: the blocks are sound, every permitted call returns, a call
of `kmalloc` takes at most one page, and it fails only without one. -/
theorem kmalloc_runs_sound (ptr size : Nat → Nat) {w : World} (aligned : headerSize ∣ base)
    (below : base < 2 ^ 64)
    (reached : Reaches (World.Permits base) (World.step base) (World.initial ptr size) w) :
    ((w.heap.freep = none ∧ w.live = [] ∧ w.pages = []) ∨ ∃ nodes, Sound base w nodes) ∧
    (∀ ap, w.Permits base (.kmfree ap) →
      ∃ w', w.step base (.kmfree ap) = .ok w' ∧ w'.pages = w.pages) ∧
    ∀ n pages, w.Permits base (.kmalloc n pages) →
      ∃ w', w.step base (.kmalloc n pages) = .ok w' ∧
        (w'.pages = w.pages ∨ ∃ page ∈ pages, w'.pages = page :: w.pages) ∧
        (pages ≠ [] → ∃ ap, w'.live = (ap, n) :: w.live) := by
  have kept : w.Kept base := by
    refine reached.invariant (World.Kept base) (Or.inl ⟨rfl, rfl, rfl⟩) ?_
    intro state next call kept permits returns
    obtain ⟨w', steps, kept', _⟩ := kept.step aligned below permits
    rw [steps] at returns
    exact Except.ok.inj returns ▸ kept'
  refine ⟨?_, ?_, ?_⟩
  · rcases kept with untouched | ⟨nodes, kept⟩
    · exact Or.inl untouched
    · exact Or.inr ⟨nodes, kept.sound⟩
  · intro ap permits
    obtain ⟨w', steps, _, same⟩ := kept.step aligned below permits
    exact ⟨w', steps, same⟩
  · intro n pages permits
    obtain ⟨w', steps, _, grows, result⟩ := kept.step aligned below permits
    exact ⟨w', steps, grows, result⟩

/-- Two adjacent pages join into one free block, from which a third request is served. -/
theorem kmalloc_runs_sound_adjacent :
    ∃ w nodes, w.live = [(0x11fb0, 80)] ∧ w.pages = [0x11000, 0x10000] ∧ Sound 0x8000 w nodes := by
  obtain ⟨w, reached, test⟩ := exists_reaches_of_replay (World.Permits 0x8000)
    (World.step 0x8000) (World.initial (fun _ => 0) fun _ => 0)
    [.kmalloc 4080 [0x10000], .kmalloc 4000 [0x11000], .kmfree 0x10010, .kmfree 0x11060,
      .kmalloc 80 []]
    (fun w => w.live = [(0x11fb0, 80)] ∧ w.pages = [0x11000, 0x10000]) (by decide +kernel)
  have state : w.live = [(0x11fb0, 80)] ∧ w.pages = [0x11000, 0x10000] := of_decide_eq_true test
  rcases (kmalloc_runs_sound (fun _ => 0) (fun _ => 0) (by decide) (by decide) reached).1 with
    ⟨_, none_live, _⟩ | ⟨nodes, sound⟩
  · rw [none_live] at state
    cases state.1
  · exact ⟨w, nodes, state.1, state.2, sound⟩

end Kmalloc
end Xv6Duo
