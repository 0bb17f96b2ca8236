import Xv6Duo.Dir.Sound

/-!
# Looking up names

`namex` takes and drops references along a path and changes nothing else, except that dropping the
last reference to an inode without links frees it. In a tidy tree a walk that starts at an inode
with a name never leaves those.
-/

namespace Xv6Duo
namespace Dir

variable {t u : Nodes} {base extra deficit : Nat → Nat} {held : Multiset Nat}

/-! ## Entries -/

/-- What `dirlookup` does. -/
theorem dirlookup_spec {dp : Nat} {name : Path} {found : Option (Nat × Nat)}
    (run : dirlookup t dp name = .ok (found, u)) :
    (t dp).type = .dir ∧
      ((found = none ∧ u = t ∧ findEntry (t dp).entries name = none) ∨
        ∃ k, found = some (k, inumAt (t dp).entries k) ∧ u = iget t (inumAt (t dp).entries k) ∧
          findEntry (t dp).entries name = some k) := by
  rw [dirlookup] at run
  split at run
  · next dir =>
      refine ⟨dir, ?_⟩
      cases lookup : findEntry (t dp).entries name with
      | none =>
          rw [lookup] at run
          simp only [Except.ok.injEq, Prod.mk.injEq] at run
          exact Or.inl ⟨run.1.symm, run.2.symm, rfl⟩
      | some k =>
          rw [lookup] at run
          simp only [Except.ok.injEq, Prod.mk.injEq] at run
          exact Or.inr ⟨k, run.1.symm, run.2.symm, rfl⟩
  · simp at run

/-- The directory above one with a name has a name itself in a tidy tree. -/
theorem Counted.linked_up (counted : Counted t extra deficit) (tidy : Tidy t) {d : Nat}
    (dir : (t d).type = .dir) (linked : Linked t d) : Linked t (t d).up := by
  obtain rfl | named := linked
  · exact Or.inl counted.root.2
  · obtain ⟨above, -, e, mem, used, rfl⟩ := exists_naming named
    obtain ⟨-, type_eq, -, parent⟩ := counted.named above e mem used
    rw [parent (type_eq.symm.trans dir)]
    by_contra removed
    have above_dir : (t above).type = .dir := by
      by_contra plain
      rw [Node.proper, counted.plain above plain] at mem
      simp at mem
    exact used (tidy above above_dir removed e mem)

/-- An entry behind the first two is proper. -/
theorem mem_proper {n : Node} {k : Nat} (k_lt : k < n.entries.length) (behind : 2 ≤ k) :
    n.entries[k] ∈ n.proper := by
  rw [Node.proper, List.mem_drop_iff_getElem]
  exact ⟨k - 2, by omega, by simp [Nat.add_sub_cancel' behind]⟩

/-- In a tidy tree the entries of a directory with a name lead to inodes with names. -/
theorem Counted.linked_entry (counted : Counted t extra deficit) (tidy : Tidy t) {d : Nat}
    (dir : (t d).type = .dir) (linked : Linked t d) {name : Path} {k : Nat}
    (found : findEntry (t d).entries name = some k) : Linked t (inumAt (t d).entries k) := by
  obtain ⟨k_lt, used, -⟩ := findEntry_some found
  obtain ⟨up, rest, -, entries⟩ := counted.dots d dir
  by_cases behind : 2 ≤ k
  · rw [inumAt_eq k_lt]
    exact Or.inr ((naming_pos (mem_proper k_lt behind) used).trans_le
      (naming_le_names t (counted.bounded d (by rw [dir]; decide)).2 _))
  · obtain rfl | rfl : k = 0 ∨ k = 1 := by omega
    · have self : inumAt (t d).entries 0 = d := by
        rw [entries]
        rfl
      rwa [self]
    · exact counted.linked_up tidy dir linked

/-! ## Paths -/

/-- The references of a call after a walk. -/
def afterWalk (found : Option (Nat × Path)) (held : Multiset Nat) : Multiset Nat :=
  (found.map Prod.fst).toList + held

/-- What a walk along a path does. -/
structure Walks (t u : Nodes) (base extra deficit : Nat → Nat) (held : Multiset Nat)
    (parent : Bool) (start : Nat) (found : Option (Nat × Path)) (extra' : Nat → Nat) : Prop where
  /-- The tree stays sound and the call holds the result. -/
  sound : Sound u base (afterWalk found held) extra' deficit
  /-- Only inodes without links are freed. -/
  settles : Settles t u extra extra'
  /-- The last directory of the path is one. -/
  dir : ∀ ip name, found = some (ip, name) → parent = true → (u ip).type = .dir
  /-- In a tidy tree the result has a name when the start has. -/
  linked : Tidy t → Linked t start → ∀ ip name, found = some (ip, name) → Linked u ip

theorem namexLoop_spec {parent : Bool} (fuel : Nat) {ip : Nat} {name path : Path}
    {found : Option (Nat × Path)} (sound : Sound t base (ip ::ₘ held) extra deficit)
    (run : namexLoop parent fuel t ip name path = .ok (found, u)) :
    ∃ extra', Walks t u base extra deficit held parent ip found extra' := by
  induction fuel generalizing t ip name path extra with
  | zero => simp [namexLoop] at run
  | succ fuel ih =>
      -- Putting the inode ends the walk without a result.
      have ends : ∀ {s : Nodes}, Sound s base (ip ::ₘ held) extra deficit →
          (∀ i, SameData (t i) (s i)) → found = none → iput s ip = u →
          ∃ extra', Walks t u base extra deficit held parent ip found extra' := by
        rintro s sound_s same rfl rfl
        obtain ⟨extra', sound_u, settles⟩ := iput_sound sound_s (Multiset.mem_cons_self ip held)
        rw [Multiset.erase_cons_head] at sound_u
        exact ⟨extra', by simpa [afterWalk] using sound_u, (Settles.of_same same).trans settles,
          by simp, by simp⟩
      rw [namexLoop] at run
      cases skip : skipelem path with
      | none =>
          rw [skip] at run
          cases parent with
          | true =>
              simp only [if_true, Except.ok.injEq, Prod.mk.injEq] at run
              exact ends sound (fun i => SameData.refl _) run.1.symm run.2
          | false =>
              simp only [Bool.false_eq_true, if_false, Except.ok.injEq, Prod.mk.injEq] at run
              obtain ⟨rfl, rfl⟩ := run
              refine ⟨extra, by simpa [afterWalk] using sound,
                Settles.of_same fun i => SameData.refl _, by simp, ?_⟩
              rintro - linked _ _ ⟨⟩
              exact linked
      | some next =>
          obtain ⟨elem, rest⟩ := next
          rw [skip] at run
          simp only [Except.bind_eq_ok] at run
          obtain ⟨s, locked, run⟩ := run
          have sound_s := ilock_sound sound locked
          have same := (ilock_spec locked).1
          split at run
          · simp only [Except.pure_eq_ok, Except.ok.injEq, Prod.mk.injEq] at run
            exact ends sound_s same run.1.symm run.2
          · next dir =>
              rw [not_not] at dir
              split at run
              · simp only [Except.pure_eq_ok, Except.ok.injEq, Prod.mk.injEq] at run
                obtain ⟨rfl, rfl⟩ := run
                refine ⟨extra, by simpa [afterWalk] using sound_s, Settles.of_same same, ?_, ?_⟩
                · rintro _ _ ⟨⟩ -
                  exact dir
                · rintro - linked _ _ ⟨⟩
                  exact (Linked.congr (names_of_same same)).mpr linked
              · simp only [Except.bind_eq_ok] at run
                obtain ⟨⟨hit, x⟩, looked, run⟩ := run
                obtain ⟨-, ⟨rfl, rfl, -⟩ | ⟨k, rfl, rfl, entry⟩⟩ := dirlookup_spec looked
                · simp only [Except.pure_eq_ok, Except.ok.injEq, Prod.mk.injEq] at run
                  exact ends sound_s same run.1.symm run.2
                · have sound_x := iget_sound sound_s (inumAt (s ip).entries k)
                  obtain ⟨extra₁, sound_y, settles⟩ := iput_sound sound_x
                    (Multiset.mem_cons_of_mem (Multiset.mem_cons_self ip held))
                  rw [Multiset.cons_swap, Multiset.erase_cons_head] at sound_y
                  have settles_y := (Settles.of_same same).trans
                    ((Settles.of_same (iget_same s _)).trans settles)
                  obtain ⟨extra₂, walks⟩ := ih sound_y run
                  refine ⟨extra₂, walks.sound, settles_y.trans walks.settles, walks.dir, ?_⟩
                  intro tidy linked
                  obtain ⟨tidy_y, -, names_y⟩ := settles_y.tidy tidy
                  refine walks.linked tidy_y ((Linked.congr names_y).mpr ?_)
                  have := sound_s.toCounted.linked_entry (tidy.congr same) dir
                    ((Linked.congr (names_of_same same)).mpr linked) entry
                  exact (Linked.congr (names_of_same same)).mp this

end Dir
end Xv6Duo
