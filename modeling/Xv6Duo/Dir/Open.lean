import Xv6Duo.Dir.Links

/-!
# Opening

`fileopen` finds an inode, through symbolic links, or creates it, and hands it on with a reference.
-/

namespace Xv6Duo
namespace Dir

variable {strict : Prop} {t u : Nodes} {base : Nat → Nat}

/-! ## Inodes -/

/-- An inode that a call hands on is held and allocated. -/
def Hands (strict : Prop) (u : Nodes) (base : Nat → Nat) : Except Int Nat → Prop
  | .ok ip => Holds strict u base {ip} ∧ (u ip).type ≠ .free
  | .error _ => Holds strict u base 0

theorem openLoop_spec {p : Proc} {dirfd : Int} {flags : UInt32} (fuel : Nat)
    {path : Path} {opened : Except Int Nat} (holds : Holds strict t base 0)
    (refers : ∀ i, p.refers i → 0 < base i)
    (run : openLoop p dirfd flags fuel t path = .ok (opened, u)) : Hands strict u base opened := by
  induction fuel generalizing t path with
  | zero => simp [openLoop] at run
  | succ fuel ih =>
      simp only [openLoop, Except.bind_eq_ok] at run
      obtain ⟨⟨found, s⟩, walk, run⟩ := run
      have holds_s := (holds.namei refers walk).1
      cases found with
      | none =>
          simp only [Except.pure_eq_ok, Except.ok.injEq, Prod.mk.injEq] at run
          obtain ⟨rfl, rfl⟩ := run
          simpa [Hands] using holds_s
      | some ip =>
          replace holds_s : Holds strict s base {ip} := by simpa using holds_s
          simp only [Except.bind_eq_ok] at run
          obtain ⟨x, lock, run⟩ := run
          have holds_x := holds_s.ilock lock
          split at run
          · simp only [Except.pure_eq_ok, Except.ok.injEq, Prod.mk.injEq] at run
            obtain ⟨rfl, rfl⟩ := run
            exact holds_x.iput
          · split at run
            · split at run
              · simp only [Except.pure_eq_ok, Except.ok.injEq, Prod.mk.injEq] at run
                obtain ⟨rfl, rfl⟩ := run
                exact holds_x.iput
              · exact ih holds_x.iput run
            · simp only [Except.pure_eq_ok, Except.ok.injEq, Prod.mk.injEq] at run
              obtain ⟨rfl, rfl⟩ := run
              exact ⟨holds_x, holds_s.allocated lock⟩

theorem openInode_spec {fuel : Nat} {env : Env} {p : Proc} {path : Path}
    {dirfd : Int} {flags mode : UInt32} {opened : Except Int Nat}
    (holds : Holds strict t base 0) (refers : ∀ i, p.refers i → 0 < base i)
    (bound : ∀ i, (t i).type ≠ .free → (t i).nlink < 32767)
    (linked : strict → flags &&& oCreat ≠ 0 → StartsLinked t p path dirfd)
    (run : openInode fuel t env p path dirfd flags mode = .ok (opened, u)) :
    Hands strict u base opened := by
  rw [openInode] at run
  split at run
  · next creat =>
      simp only [Except.bind_eq_ok] at run
      obtain ⟨⟨found, s⟩, walk, run⟩ := run
      obtain ⟨holds_s, stays, same_names⟩ := holds.namei refers walk
      cases found with
      | some ip =>
          replace holds_s : Holds strict s base {ip} := by simpa using holds_s
          simp only at run
          split at run
          · simp only [Except.pure_eq_ok, Except.ok.injEq, Prod.mk.injEq] at run
            obtain ⟨rfl, rfl⟩ := run
            exact holds_s.iput
          · simp only [Except.bind_eq_ok, Except.pure_eq_ok, Except.ok.injEq, Prod.mk.injEq] at run
            obtain ⟨x, lock, rfl, rfl⟩ := run
            exact ⟨holds_s.ilock lock, holds_s.allocated lock⟩
      | none =>
          replace holds_s : Holds strict s base 0 := by simpa using holds_s
          simp only [Except.bind_eq_ok] at run
          obtain ⟨⟨made, x⟩, creating, run⟩ := run
          obtain ⟨holds_x, allocated⟩ := create_spec holds_s refers
            (fun i allocated => by
              have same := stays i allocated
              rw [same.nlink (same.type ▸ allocated)]
              exact bound i (same.type ▸ allocated))
            (by decide) (fun is_strict => (linked is_strict creat).congr (same_names is_strict))
            creating
          cases made with
          | inode ip =>
              simp only [Except.pure_eq_ok, Except.ok.injEq, Prod.mk.injEq] at run
              obtain ⟨rfl, rfl⟩ := run
              exact ⟨holds_x, allocated ip rfl⟩
          | null =>
              simp only [Except.pure_eq_ok, Except.ok.injEq, Prod.mk.injEq] at run
              obtain ⟨rfl, rfl⟩ := run
              exact holds_x
          | errno code => simp at run
  · exact openLoop_spec fuel holds refers run

end Dir
end Xv6Duo
