import Mathlib.Tactic
import Xv6Duo.Vm.Map

/-!
# Runs of a page table

A page table starts with `uvmcreate` and changes by `walk`, `mappages` and `uvmunmap`, while the
other pages of memory change in any way. In all runs it is a tree, and so a finite map.
-/

namespace Xv6Duo
namespace Vm

open GuardedRun RadixTree

/-- A page table in memory. -/
structure World where
  /-- Memory. -/
  memory : Memory
  /-- The root. -/
  root : Nat
  /-- The pages that `kalloc` gave for tables. -/
  tables : List Nat

/-- Calls on the page table, with the pages that `kalloc` would hand out. -/
inductive Call
  /-- `walk`. -/
  | walk (va : Nat) (alloc : Bool) (pages : List Nat)
  /-- `mappages`. -/
  | mappages (va size pa perm : Nat) (pages : List Nat)
  /-- `uvmunmap`. -/
  | uvmunmap (va npages : Nat) (doFree : Bool)
  /-- A store to another page. -/
  | store (page : Nat) (words : Fin 512 → Nat)

/-- The world after a call that leaves some of the pages of `kalloc`. -/
def World.take (w : World) (memory : Memory) (pages left : List Nat) : World :=
  { w with
    memory := memory
    tables := (pages.take (pages.length - left.length)).reverse ++ w.tables }

/-- One call. -/
def World.step (w : World) : Call → Except Fault World
  | .walk va alloc pages => do
      let (_, memory, left) ← Vm.walk w.memory w.root va alloc pages
      return w.take memory pages left
  | .mappages va size pa perm pages => do
      let (_, memory, left) ← Vm.mappages w.memory w.root va size pa perm pages
      return w.take memory pages left
  | .uvmunmap va npages doFree => do
      let (memory, _) ← Vm.uvmunmap w.memory w.root va npages doFree
      return { w with memory := memory }
  | .store page words => return { w with memory := Function.update w.memory page words }

/-- `kalloc` hands out pages that are not in use, and other code does not write to the tables. -/
def World.Permits (w : World) : Call → Prop
  | .walk _ _ pages => Supplied w.tables pages
  | .mappages _ _ _ _ pages => Supplied w.tables pages
  | .uvmunmap _ _ _ => True
  | .store page _ => page ∉ w.tables

instance (tables pages : List Nat) : Decidable (Supplied tables pages) :=
  inferInstanceAs (Decidable (_ ∧ ∀ _ ∈ _, _ ∧ _ ∧ _))

instance (w : World) : ∀ call, Decidable (w.Permits call)
  | .walk _ _ pages => inferInstanceAs (Decidable (Supplied w.tables pages))
  | .mappages _ _ _ _ pages => inferInstanceAs (Decidable (Supplied w.tables pages))
  | .uvmunmap _ _ _ => inferInstanceAs (Decidable True)
  | .store page _ => inferInstanceAs (Decidable (page ∉ w.tables))

/-- The page table of a world is sound. -/
def World.Sound (w : World) : Prop := Vm.Sound w.memory w.root w.tables

theorem Kept.take {w : World} {memory : Memory} {pages left : List Nat}
    (kept : Kept w.memory memory w.root w.tables pages left) :
    (w.take memory pages left).Sound := by
  obtain ⟨used, rfl, sound, _⟩ := kept
  have used_eq : (used ++ left).take ((used ++ left).length - left.length) = used := by
    rw [List.length_append, Nat.add_sub_cancel, List.take_left]
  rw [World.Sound, World.take, used_eq]
  exact sound

/-- `uvmcreate` makes an empty map. -/
theorem sound_of_uvmcreate {memory memory' : Memory} {root : Nat} {pages left : List Nat}
    (created : uvmcreate memory pages = some (root, memory', left)) :
    Vm.Sound memory' root [root] ∧ ∀ va, lookup memory' root va = none := by
  cases pages with
  | nil => cases created
  | cons page pages =>
      cases created
      have nowhere : ∀ i path, tableAt child (clear memory root 0) root (i :: path) = none := by
        intro i path
        rw [tableAt, clear, Function.update_self]
        rfl
      have only_root : ∀ path table,
          tableAt child (clear memory root 0) root path = some table →
            path = [] ∧ table = root := by
        intro path table reached
        cases path with
        | nil => exact ⟨rfl, (Option.some.inj reached).symm⟩
        | cons i path =>
            rw [nowhere] at reached
            cases reached
      refine ⟨⟨⟨?_, ?_⟩, ?_⟩, ?_⟩
      · intro p q table _ _ p_reached q_reached
        rw [(only_root p table p_reached).1, (only_root q table q_reached).1]
      · intro path table _ reached
        rw [(only_root path table reached).2]
        exact List.mem_singleton_self root
      · intro path i pa flags full mapped
        cases path with
        | nil => cases full
        | cons j path =>
            rw [leafAt, entryAt, nowhere] at mapped
            cases mapped
      · intro va
        rw [lookup_eq, route, nowhere]
        rfl

theorem Sound.walk_kept {memory after : Memory} {root va : Nat} {tables pages left : List Nat}
    {alloc : Bool} {found : Option (Nat × Fin 512)} (sound : Vm.Sound memory root tables)
    (supplied : Supplied tables pages)
    (returns : walk memory root va alloc pages = .ok (found, after, left)) :
    Kept memory after root tables pages left := by
  have low : va < maxva := by
    rw [walk] at returns
    by_contra high
    rw [if_pos (by omega)] at returns
    cases returns
  cases alloc with
  | false =>
      rw [walk_find low] at returns
      cases returns
      exact Kept.refl sound supplied
  | true =>
      obtain ⟨_, _, used, _, walk_eq, split, extended, supplied', _⟩ :=
        sound.tree.walk_alloc supplied low
      rw [walk_eq] at returns
      cases returns
      exact ⟨used, split, Vm.Sound.extends sound extended, supplied', extended.frame⟩

/-- Every permitted call keeps the page table. -/
theorem World.Sound.step {w next : World} {call : Call} (sound : w.Sound) (permits : w.Permits call)
    (returns : w.step call = .ok next) : next.Sound := by
  cases call with
  | walk va alloc pages =>
      obtain ⟨result, walks, returns⟩ := Except.bind_eq_ok.mp returns
      cases returns
      exact (Vm.Sound.walk_kept sound permits walks).take
  | mappages va size pa perm pages =>
      obtain ⟨result, maps, returns⟩ := Except.bind_eq_ok.mp returns
      cases returns
      rw [Vm.mappages] at maps
      split at maps
      · cases maps
      · exact (mapLoop_kept sound permits maps).take
  | uvmunmap va npages doFree =>
      obtain ⟨result, unmaps, returns⟩ := Except.bind_eq_ok.mp returns
      cases returns
      rw [Vm.uvmunmap] at unmaps
      split at unmaps
      · cases unmaps
      · exact (unmapLoop_kept sound unmaps).1
  | store page words =>
      cases returns
      have agree : ∀ other ∈ w.tables, Function.update w.memory page words other =
          w.memory other := by
        intro other member
        rw [Function.update_of_ne]
        rintro rfl
        exact permits member
      refine ⟨sound.tree.congr agree, ?_⟩
      intro path i pa flags full mapped
      rw [sound.tree.leafAt_congr agree full.le] at mapped
      exact sound.used path i pa flags full mapped

/-- A page table that was built by these calls is a finite map, on which `mappages`, `uvmunmap` and
`walk` act page by page; and an entry gives back its page and its flags. -/
theorem page_table_is_map {memory memory' : Memory} {root : Nat} {pages left : List Nat} {w : World}
    (created : uvmcreate memory pages = some (root, memory', left))
    (reached : Reaches World.Permits World.step ⟨memory', root, [root]⟩ w) :
    (∀ va size pa perm pages, 0 < size → va + size ≤ maxva → pgsize ∣ pa →
      pa + (pgrounddown (va + size - 1) - pgrounddown va) < 2 ^ 56 → IsFlags perm →
      Supplied w.tables pages →
      (∀ a, pgsize ∣ a → pgrounddown va ≤ a → a ≤ pgrounddown (va + size - 1) →
        lookup w.memory w.root a = none) →
      ∃ code after left, mappages w.memory w.root va size pa perm pages = .ok (code, after, left) ∧
        (code = 0 ∨ code = -1) ∧
        (code = 0 → ∀ a, pgsize ∣ a → a < maxva → lookup after w.root a =
          if pgrounddown va ≤ a ∧ a ≤ pgrounddown (va + size - 1) then
            some (pa + (a - pgrounddown va), perm ||| pteV ||| pteA ||| pteD)
          else lookup w.memory w.root a)) ∧
    (∀ va npages doFree, pgsize ∣ va → va + npages * pgsize ≤ maxva →
      ∃ after, uvmunmap w.memory w.root va npages doFree =
          .ok (after, freedPages w.memory w.root va npages doFree) ∧
        ∀ a, pgsize ∣ a → a < maxva → lookup after w.root a =
          if va ≤ a ∧ a < va + npages * pgsize then none else lookup w.memory w.root a) ∧
    (∀ va pages, va < maxva →
      ∃ found, walk w.memory w.root va false pages = .ok (found, w.memory, pages) ∧
        lookup w.memory w.root va = found.bind fun pte => decode (w.memory pte.1 pte.2)) ∧
    ∀ pa flags, IsPage pa → IsFlags flags →
      pte2pa (pa2pte pa ||| flags) = pa ∧ pteFlags (pa2pte pa ||| flags) = flags := by
  have start : World.Sound ⟨memory', root, [root]⟩ := (sound_of_uvmcreate created).1
  have sound : w.Sound := reached.invariant World.Sound start World.Sound.step
  refine ⟨?_, ?_, ?_, ?_⟩
  · intro va size pa perm pages some_size below is_page pa_below is_perm supplied unmapped
    exact sound.tree.mappages supplied some_size below is_page pa_below is_perm unmapped
  · intro va npages doFree va_page below
    exact Sound.uvmunmap sound doFree va_page below
  · intro va pages low
    refine ⟨_, walk_find low, ?_⟩
    rw [lookup_eq]
    cases tableAt child w.memory w.root (route va 2) with
    | none => rfl
    | some t => rfl
  · intro pa flags is_page is_flags
    exact ⟨pte2pa_or is_page.isFrame is_flags, pteFlags_or is_page.isFrame is_flags⟩

/-- Two pages on both sides of a table boundary are mapped, and the second is taken out again. -/
theorem page_table_is_map_boundary :
    ∃ (w : World) (after : Memory), lookup w.memory w.root 0x200000 = some (0x80101000, 0xD7) ∧
      uvmunmap w.memory w.root 0x200000 1 true = .ok (after, [0x80101000]) ∧
      lookup after w.root 0x1FF000 = some (0x80100000, 0xD7) ∧
      lookup after w.root 0x200000 = none := by
  obtain ⟨w, reached, test⟩ := exists_reaches_of_replay World.Permits World.step
    ⟨clear (fun _ _ => 7) 0x80000000 0, 0x80000000, [0x80000000]⟩
    [.mappages 0x1FF000 0x2000 0x80100000 0x16 [0x80001000, 0x80002000, 0x80003000, 0x80004000]]
    (fun w => lookup w.memory w.root 0x1FF000 = some (0x80100000, 0xD7) ∧
      lookup w.memory w.root 0x200000 = some (0x80101000, 0xD7)) (by decide +kernel)
  have mapped : lookup w.memory w.root 0x1FF000 = some (0x80100000, 0xD7) ∧
      lookup w.memory w.root 0x200000 = some (0x80101000, 0xD7) := of_decide_eq_true test
  have created : uvmcreate (fun _ _ => 7) [0x80000000] =
      some (0x80000000, clear (fun _ _ => 7) 0x80000000 0, []) := rfl
  obtain ⟨after, returns, maps⟩ :=
    (page_table_is_map created reached).2.1 0x200000 1 true (by decide) (by decide)
  refine ⟨w, after, mapped.2, ?_, ?_, ?_⟩
  · simpa [freedPages, mappedPages, pagesFrom, mapped.2] using returns
  · rw [maps 0x1FF000 (by decide) (by decide), if_neg (by decide)]
    exact mapped.1
  · rw [maps 0x200000 (by decide) (by decide), if_pos (by decide)]

end Vm
end Xv6Duo
