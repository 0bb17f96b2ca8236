import Xv6Duo.Mapping.Position

/-!
# Regions without the memory

`mmap` and `munmap` are modelled twice: over the whole memory, and over the regions and page tables
alone. Each run over the memory is a run over the regions, so that what is proved of these calls
without the memory holds of them with it.
-/

namespace Xv6Duo
namespace Mapping

open Vm Mmap Except

variable {sb : Fs.Superblock} {device : OpenFile → Nat → Int} {k k' : Kernel} {p p' : Proc}
  {root addr length prot flags offset : Nat} {f : Option Mmap.File} {ret : Int}

/-! ## `mmap` -/

theorem mapRegion_regions
    (run : mapRegion sb device k p addr length prot flags f offset = .ok (ret, k', p')) :
    ∃ load, Mmap.mapRegion ⟨true, k.nodes ≠ 0, load⟩ p.regions addr length prot flags f offset =
      (ret, p'.regions) := by
  unfold mapRegion at run
  unfold Mmap.mapRegion
  split at run
  · next above =>
      cases run
      exact ⟨0, if_pos above⟩
  · next below =>
      simp only [if_neg below]
      split at run
      · next none =>
          cases run
          exact ⟨0, by simp [none]⟩
      · next some_node =>
          simp only [some_node, ne_eq, not_false_eq_true, decide_true, not_true_eq_false, if_false]
          split at run
          · next both =>
              cases run
              exact ⟨0, if_pos both⟩
          · next single =>
              simp only [if_neg single]
              obtain ⟨⟨load, x⟩, -, run⟩ := bind_eq_ok.mp run
              refine ⟨load, ?_⟩
              dsimp only at run
              split at run
              · next failed =>
                  cases run
                  exact if_pos failed
              · next loaded =>
                  cases run
                  exact if_neg loaded

/-- What `mmap` does with the regions is what it does in the model that leaves the memory out. -/
theorem mmap_regions
    (run : mmap sb device k p addr length prot flags f offset = .ok (ret, k', p')) :
    ∃ env, Mmap.mmap env p.regions addr length prot flags f offset = (ret, p'.regions) := by
  unfold mmap at run
  unfold Mmap.mmap
  split at run
  · next hint =>
      simp only [if_pos hint]
      split at run
      · next above =>
          cases run
          exact ⟨⟨true, true, 0⟩, if_pos above⟩
      · next below =>
          simp only [if_neg below]
          split at run
          · next fixed =>
              simp only [if_pos fixed]
              split at run
              · next odd =>
                  cases run
                  exact ⟨⟨true, true, 0⟩, if_pos odd⟩
              · next page =>
                  simp only [if_neg page]
                  split at run
                  · next deny =>
                      simp only [if_pos deny]
                      obtain ⟨x, -, run⟩ := bind_eq_ok.mp run
                      cases run
                      exact ⟨⟨true, true, 0⟩, rfl⟩
                  · next shown =>
                      simp only [if_neg shown]
                      split at run
                      · next taken =>
                          cases run
                          exact ⟨⟨true, true, 0⟩, if_pos taken⟩
                      · next usable =>
                          simp only [if_neg usable]
                          obtain ⟨load, same⟩ := mapRegion_regions run
                          exact ⟨_, same⟩
          · next moves =>
              simp only [if_neg moves]
              obtain ⟨load, same⟩ := mapRegion_regions run
              exact ⟨_, same⟩
  · next no_hint =>
      simp only [if_neg no_hint]
      obtain ⟨load, same⟩ := mapRegion_regions run
      exact ⟨_, same⟩

/-! ## `munmap` -/

/-- Page tables and reference counts are as before. -/
structure SameTables (k k' : Kernel) : Prop where
  /-- Page tables. -/
  memory : k'.memory = k.memory
  /-- Reference counts. -/
  refcnt : k'.refcnt = k.refcnt

theorem SameTables.refl (k : Kernel) : SameTables k k := ⟨rfl, rfl⟩

theorem SameTables.trans {l : Kernel} (first : SameTables k l) (second : SameTables l k') :
    SameTables k k' :=
  ⟨second.memory.trans first.memory, second.refcnt.trans first.refcnt⟩

theorem writeback_tables {off : Nat} (run : writeback sb k root f off addr = .ok (ret, k')) :
    SameTables k k' := by
  unfold writeback at run
  split at run
  · cases run
    exact .refl _
  · dsimp only at run
    split at run
    · cases run
      exact .refl _
    · obtain ⟨inum, -, rest⟩ := bind_eq_ok.mp run
      obtain ⟨⟨r, ip, state⟩, -, returns⟩ := bind_eq_ok.mp rest
      obtain rfl := (Prod.mk.inj (Except.ok.inj returns)).2
      exact ⟨rfl, rfl⟩

theorem writebackLoop_tables {region : MmapRegion} {finish fuel ra : Nat}
    (run : writebackLoop sb p region finish fuel k ra = .ok (ret, k')) : SameTables k k' := by
  induction fuel generalizing k ra with
  | zero => cases run
  | succ fuel ih =>
      rw [writebackLoop_succ] at run
      split at run
      · obtain ⟨⟨pte, memory, pages⟩, -, rest⟩ := bind_eq_ok.mp run
        dsimp only at rest
        split at rest
        · cases rest
        · next table i =>
            obtain ⟨⟨code, l⟩, writes, rest⟩ := bind_eq_ok.mp rest
            have same : SameTables k l := by
              unfold writeDirty at writes
              split at writes
              · exact writeback_tables writes
              · cases writes
                exact .refl _
            dsimp only at rest
            split at rest
            · cases rest
              exact same
            · obtain ⟨file, -, rest⟩ := bind_eq_ok.mp rest
              obtain ⟨inum, -, rest⟩ := bind_eq_ok.mp rest
              split at rest
              · cases rest
                exact same
              · exact same.trans (ih rest)
      · cases run
        exact .refl _

theorem writebackRegion_tables {region : MmapRegion}
    (run : writebackRegion sb k p region addr length = .ok (ret, k')) : SameTables k k' := by
  unfold writebackRegion at run
  split at run
  · exact writebackLoop_tables run
  · cases run
    exact .refl _

/-- The page tables and the regions of a process. -/
def Kernel.space (k : Kernel) (p : Proc) : Space := ⟨k.memory, p.pagetable, p.regions⟩

/-- What `munmap` does with page tables, regions and pages is what it does in the model that leaves
the files out, if writing back gives the same code there. -/
theorem munmap_regions {writes : Nat → Nat → Int}
    (written : ∀ region ∈ p.regions, ∀ length code x,
      writebackRegion sb k p region addr length = .ok (code, x) →
        Mmap.writebackRegion writes (k.space p) region addr length = .ok code)
    (run : munmap sb k p addr length = .ok (ret, k', p')) :
    ∃ freed, Mmap.munmap writes (k.space p) addr length = .ok (ret, k'.space p', freed) ∧
      k'.refcnt = freed.foldl Vm.kfree k.refcnt := by
  unfold munmap at run
  unfold Mmap.munmap
  split at run
  · next odd =>
      cases run
      exact ⟨[], if_pos odd, rfl⟩
  · next page =>
      rw [if_neg page]
      split at run
      · next none =>
          cases run
          exact ⟨[], by simp only [Kernel.space, none], rfl⟩
      · next i found =>
          obtain ⟨region, at_i, rest⟩ := bind_eq_ok.mp run
          obtain ⟨⟨code, l⟩, writes_back, rest⟩ := bind_eq_ok.mp rest
          have at_i := deref_eq_ok.mp at_i
          have wrote := written region (List.mem_of_getElem? at_i) _ _ _ writes_back
          have same := writebackRegion_tables writes_back
          simp only [Kernel.space] at wrote ⊢
          simp only [found, at_i, wrote, ok_bind]
          dsimp only at rest
          split at rest
          · next failed =>
              cases rest
              exact ⟨[], by rw [if_pos failed, same.memory]; rfl, same.refcnt⟩
          · next success =>
              simp only [if_neg success]
              split at rest
              · next whole =>
                  obtain ⟨⟨l', q⟩, deletes, returns⟩ := bind_eq_ok.mp rest
                  obtain ⟨l'', unmaps, deletes⟩ := bind_eq_ok.mp deletes
                  obtain ⟨⟨memory, freed⟩, unmapped, kept⟩ := bind_eq_ok.mp unmaps
                  cases kept
                  cases deletes
                  cases returns
                  rw [same.memory] at unmapped
                  refine ⟨freed, ?_, by rw [same.refcnt]⟩
                  simp only [if_pos whole, Mmap.deleteMmapNode, unmapped, ok_bind]
                  rfl
              · next part =>
                  obtain ⟨l', unmaps, returns⟩ := bind_eq_ok.mp rest
                  obtain ⟨⟨memory, freed⟩, unmapped, kept⟩ := bind_eq_ok.mp unmaps
                  cases kept
                  cases returns
                  rw [same.memory] at unmapped
                  refine ⟨freed, ?_, by rw [same.refcnt]⟩
                  simp only [if_neg part, unmapped, ok_bind]
                  rfl

/-- Without shared mappings of files nothing is written back. -/
theorem munmap_regions_private (writes : Nat → Nat → Int)
    (unshared : ∀ region ∈ p.regions, ¬(region.flags &&& mapAnonymous = 0 ∧
      region.flags &&& mapShared ≠ 0 ∧ region.prot &&& protWrite ≠ 0))
    (run : munmap sb k p addr length = .ok (ret, k', p')) :
    ∃ freed, Mmap.munmap writes (k.space p) addr length = .ok (ret, k'.space p', freed) ∧
      k'.refcnt = freed.foldl Vm.kfree k.refcnt := by
  refine munmap_regions (fun region mem length code x wrote => ?_) run
  rw [writebackRegion, if_neg (unshared region mem)] at wrote
  cases wrote
  rw [Mmap.writebackRegion, if_neg (unshared region mem)]

end Mapping
end Xv6Duo
