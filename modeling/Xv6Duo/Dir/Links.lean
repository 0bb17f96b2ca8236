import Xv6Duo.Dir.Create

/-!
# Links

`filelink` counts the new link before it makes the entry and takes it back when it cannot,
`filesymlink` does not, and `fileunlink` clears the entry before it drops the link.
-/

namespace Xv6Duo
namespace Dir

variable {strict : Prop} {t u : Nodes} {base extra extra' deficit : Nat → Nat}
  {held : Multiset Nat}

/-! ## Entries -/

/-- What `dirlink` does. -/
theorem dirlink_spec {full done : Bool} {dp inum : Nat} {name : Path} {type : FileType}
    (run : dirlink t full dp name inum type = .ok (done, u)) :
    (done = true ∧ u = Function.update t dp { t dp with
        entries := placeEntry (t dp).entries ⟨inum, type, name.take dirSiz⟩ }) ∨
      (done = false ∧ (u = t ∨ ∃ i, u = iput (iget t i) i) ∧
        ¬(findEntry (t dp).entries name = none ∧ ¬Full full (t dp))) := by
  have run_eq := run
  simp only [dirlink, Except.bind_eq_ok] at run
  obtain ⟨⟨hit, x⟩, look, run⟩ := run
  obtain ⟨dir, ⟨rfl, rfl, absent⟩ | ⟨k, rfl, rfl, present⟩⟩ := dirlookup_spec look
  · by_cases is_full : Full full (x dp)
    · rw [dirlink_full dir absent is_full] at run_eq
      obtain ⟨rfl, rfl⟩ : false = done ∧ x = u := by simpa using run_eq
      exact Or.inr ⟨rfl, Or.inl rfl, fun room => room.2 is_full⟩
    · rw [dirlink_room dir absent is_full] at run_eq
      obtain ⟨rfl, rfl⟩ : true = done ∧ _ = u := by simpa using run_eq
      exact Or.inl ⟨rfl, rfl⟩
  · simp only [Except.pure_eq_ok, Except.ok.injEq, Prod.mk.injEq] at run
    refine Or.inr ⟨run.1.symm, Or.inr ⟨_, run.2.symm⟩, fun room => ?_⟩
    rw [room.1] at present
    simp at present

/-! ## A link without an entry -/

/-- The inode `ip` has a link for which there is no entry yet. -/
def Linking (strict : Prop) (t : Nodes) (base : Nat → Nat) (held : Multiset Nat)
    (ip : Nat) : Prop :=
  ∃ extra deficit, Sound t base held extra deficit ∧ (t ip).type ≠ .free ∧ (t ip).type ≠ .dir ∧
    1 ≤ extra ip ∧ (t ip).nlink ≤ 32767 ∧
    (strict → Tidy t ∧ (∀ i, extra i = if i = ip then 1 else 0) ∧ ∀ i, deficit i = 0)

/-- References come and go without touching the link. -/
theorem Linking.settle {ip : Nat} (sound : Sound t base held extra deficit)
    (allocated : (t ip).type ≠ .free) (plain : (t ip).type ≠ .dir) (one : 1 ≤ extra ip)
    (bound : (t ip).nlink ≤ 32767)
    (tidy : strict → Tidy t ∧ (∀ i, extra i = if i = ip then 1 else 0) ∧ ∀ i, deficit i = 0)
    {held' : Multiset Nat} (sound' : Sound u base held' extra' deficit)
    (settles : Settles t u extra extra') : Linking strict u base held' ip := by
  have links := sound.plainLinks ip allocated plain
  have same := settles.data ip allocated (by omega)
  have allocated' : (u ip).type ≠ .free := same.type ▸ allocated
  have plain' : (u ip).type ≠ .dir := same.type ▸ plain
  have links' := sound'.plainLinks ip allocated' plain'
  have fewer := settles.names_le ip
  rw [same.nlink allocated] at links'
  refine ⟨extra', deficit, sound', allocated', plain', by omega,
    by rwa [same.nlink allocated], fun is_strict => ?_⟩
  obtain ⟨tidy_t, single, none⟩ := tidy is_strict
  obtain ⟨tidy_u, rfl, -⟩ := settles.tidy tidy_t
  exact ⟨tidy_u, single, none⟩

theorem Linking.ilock {ip i : Nat} (linking : Linking strict t base held ip)
    (run : ilock t i = .ok u) : Linking strict u base held ip := by
  obtain ⟨extra, deficit, sound, allocated, plain, one, bound, tidy⟩ := linking
  exact Linking.settle sound allocated plain one bound tidy (ilock_sound sound run)
    (Settles.of_same (ilock_spec run).1)

theorem Linking.iget {ip : Nat} (linking : Linking strict t base held ip) (i : Nat) :
    Linking strict (iget t i) base (i ::ₘ held) ip := by
  obtain ⟨extra, deficit, sound, allocated, plain, one, bound, tidy⟩ := linking
  exact Linking.settle sound allocated plain one bound tidy (iget_sound sound i)
    (Settles.of_same (iget_same t i))

theorem Linking.iput {ip i : Nat} (linking : Linking strict t base (i ::ₘ held) ip) :
    Linking strict (iput t i) base held ip := by
  obtain ⟨extra, deficit, sound, allocated, plain, one, bound, tidy⟩ := linking
  obtain ⟨extra', sound', settles⟩ := iput_sound sound (Multiset.mem_cons_self i held)
  rw [Multiset.erase_cons_head] at sound'
  exact Linking.settle sound allocated plain one bound tidy sound' settles

/-- `filelink` counts the link. -/
theorem Holds.linking (holds : Holds strict t base held) {ip : Nat}
    (allocated : (t ip).type ≠ .free) (plain : (t ip).type ≠ .dir) (bound : (t ip).nlink < 32767) :
    Linking strict
      (Function.update t ip { t ip with nlink := short ((t ip).nlink + 1) }) base held ip := by
  obtain ⟨extra, deficit, sound, tidy⟩ := holds
  obtain ⟨ip_pos, ip_lt⟩ := sound.bounded ip allocated
  have links := sound.plainLinks ip allocated plain
  rw [short_eq (by omega) (by omega)]
  obtain ⟨sound', keeps⟩ := sound.relink (n := { t ip with nlink := (t ip).nlink + 1 })
    (e := extra ip + 1) ip_pos ip_lt plain (Or.inr rfl) allocated plain (sound.plain ip plain)
    (by simp only [links]; push_cast; ring) (fun _ _ => rfl) (sound.ref ip)
    (fun zero => by simp only at zero; omega)
  refine ⟨_, deficit, sound', ?_, ?_, ?_, ?_, fun is_strict => ?_⟩
  · rw [Function.update_self]
    exact allocated
  · rw [Function.update_self]
    exact plain
  · rw [Function.update_self]
    omega
  · rw [Function.update_self]
    simp only
    omega
  · obtain ⟨tidy_t, no_extra, no_deficit⟩ := tidy is_strict
    refine ⟨keeps tidy_t, fun i => ?_, no_deficit⟩
    by_cases same : i = ip
    · rw [if_pos same, same, Function.update_self, no_extra]
    · rw [if_neg same, Function.update_of_ne same, no_extra]

/-- `filelink` takes the link back. -/
theorem unlinkAgain_spec {ip : Nat} {code result : Int} (linking : Linking strict t base {ip} ip)
    (run : unlinkAgain t ip code = .ok (result, u)) :
    Holds strict u base 0 := by
  simp only [unlinkAgain, Except.bind_eq_ok, Except.pure_eq_ok, Except.ok.injEq,
    Prod.mk.injEq] at run
  obtain ⟨x, lock, -, rfl⟩ := run
  obtain ⟨-, -, valid, ref, -⟩ := ilock_spec lock
  obtain ⟨extra, deficit, sound, allocated, plain, one, bound, tidy⟩ := linking.ilock lock
  obtain ⟨ip_pos, ip_lt⟩ := sound.bounded ip allocated
  have links := sound.plainLinks ip allocated plain
  rw [short_eq (by omega) (by omega)]
  obtain ⟨sound', keeps⟩ := sound.relink (n := { x ip with nlink := (x ip).nlink - 1 })
    (e := extra ip - 1) ip_pos ip_lt plain (Or.inr rfl) allocated plain (sound.plain ip plain)
    (by simp only [links]; omega) (fun _ _ => rfl) (sound.ref ip) (fun _ => ⟨ref, valid⟩)
  have holds : Holds strict (Function.update x ip { x ip with nlink := (x ip).nlink - 1 }) base
      (ip ::ₘ 0) := by
    refine ⟨_, deficit, sound', fun is_strict => ?_⟩
    obtain ⟨tidy_x, single, none⟩ := tidy is_strict
    refine ⟨keeps tidy_x, fun i => ?_, none⟩
    by_cases eq : i = ip
    · rw [eq, Function.update_self, single, if_pos rfl]
    · rw [Function.update_of_ne eq, single, if_neg eq]
  exact holds.iput

/-- `filelink` makes the entry. -/
theorem Linking.place {ip dp : Nat} {name : Path} (linking : Linking strict t base held ip)
    (dir : (t dp).type = .dir) (valid : (t dp).valid = true) (ref : 0 < (t dp).ref)
    (linked : strict → Linked t dp) :
    Holds strict (Function.update t dp { t dp with
      entries := placeEntry (t dp).entries ⟨ip, (t ip).type, name⟩ }) base held := by
  obtain ⟨extra, deficit, sound, allocated, plain, one, bound, tidy⟩ := linking
  set m : Node := { t dp with entries := placeEntry (t dp).entries ⟨ip, (t ip).type, name⟩ }
  obtain ⟨counted, keeps⟩ := sound.toCounted.addName (m := m) allocated plain dir
    one dir rfl rfl
  have apart : ip ≠ dp := by
    rintro rfl
    exact plain dir
  have links := sound.plainLinks ip allocated plain
  have same : Function.update t ip (t ip) = t := Function.update_eq_self ip t
  have counted' : Counted (Function.update (Function.update t ip (t ip)) dp m)
      (Function.update extra ip (extra ip - 1)) deficit := by rwa [same]
  have sound' := sound.edited counted' apart (fun _ _ => rfl) allocated
    (sound.ref ip) (fun zero => absurd zero (by omega)) dir rfl ref valid
  rw [same] at sound'
  refine ⟨_, deficit, sound', fun is_strict => ?_⟩
  obtain ⟨tidy_t, single, none⟩ := tidy is_strict
  refine ⟨keeps tidy_t (linked is_strict), fun i => ?_, none⟩
  by_cases eq : i = ip
  · rw [eq, Function.update_self, single, if_pos rfl]
  · rw [Function.update_of_ne eq, single, if_neg eq]

theorem Linking.nameiparent {ip : Nat} (linking : Linking strict t base held ip) {p : Proc}
    (refers : ∀ i, p.refers i → 0 < base i) {path : Path} {dirfd : Int}
    {found : Option (Nat × Path)} (run : nameiparent t p path dirfd = .ok (found, u)) :
    Linking strict u base (afterWalk found held) ip ∧
      ∀ dp name, found = some (dp, name) → (u dp).type = .dir ∧
        (strict → StartsLinked t p path dirfd → Linked u dp) := by
  obtain ⟨extra, deficit, sound, allocated, plain, one, bound, tidy⟩ := linking
  obtain ⟨start, extra', walks, starts⟩ := namex_spec sound refers run
  refine ⟨Linking.settle sound allocated plain one bound tidy walks.sound walks.settles, ?_⟩
  intro dp name is_found
  exact ⟨walks.dir dp name is_found rfl, fun is_strict linked =>
    walks.linked (tidy is_strict).1 (starts linked) dp name is_found⟩

/-! ## Calls -/

theorem filelink_spec {env : Env} {p : Proc} {oldpath newpath : Path}
    {olddirfd newdirfd : Int} {code : Int} (holds : Holds strict t base 0)
    (refers : ∀ i, p.refers i → 0 < base i)
    (bound : ∀ i, (t i).type ≠ .free → (t i).nlink < 32767)
    (linked : strict → StartsLinked t p newpath newdirfd)
    (run : filelink t env p oldpath olddirfd newpath newdirfd = .ok (code, u)) :
    Holds strict u base 0 := by
  simp only [filelink, Except.bind_eq_ok] at run
  obtain ⟨⟨found, s⟩, walk, run⟩ := run
  obtain ⟨holds_s, stays, same_names⟩ := holds.namei refers walk
  cases found with
  | none =>
      simp only [Except.pure_eq_ok, Except.ok.injEq, Prod.mk.injEq] at run
      obtain ⟨-, rfl⟩ := run
      simpa using holds_s
  | some ip =>
      replace holds_s : Holds strict s base {ip} := by simpa using holds_s
      simp only [Except.bind_eq_ok] at run
      obtain ⟨x, lock, run⟩ := run
      have holds_x := holds_s.ilock lock
      have allocated := holds_s.allocated lock
      have same := (ilock_spec lock).1
      split at run
      · simp only [Except.pure_eq_ok, Except.ok.injEq, Prod.mk.injEq] at run
        obtain ⟨-, rfl⟩ := run
        exact holds_x.iput
      · next plain =>
          have data := (stays ip ((same ip).type ▸ allocated)).trans (same ip)
          have linking := holds_x.linking allocated plain (by
            rw [data.nlink (data.type ▸ allocated)]
            exact bound ip (data.type ▸ allocated))
          have starts : ∀ is_strict : strict, StartsLinked (Function.update x ip
              { x ip with nlink := short ((x ip).nlink + 1) }) p newpath newdirfd := by
            intro is_strict
            have entries : ∀ d, (Function.update x ip
                { x ip with nlink := short ((x ip).nlink + 1) } d).entries = (s d).entries := by
              intro d
              by_cases eq : d = ip
              · rw [eq, Function.update_self]
                exact (same ip).entries
              · rw [Function.update_of_ne eq]
                exact (same d).entries
            refine (linked is_strict).congr fun i => ?_
            rw [names_congr entries, same_names is_strict]
          simp only [Except.bind_eq_ok] at run
          obtain ⟨⟨parent, y⟩, walk_new, run⟩ := run
          obtain ⟨linking_y, directory⟩ := linking.nameiparent refers walk_new
          cases parent with
          | none => exact unlinkAgain_spec (by simpa [afterWalk] using linking_y) run
          | some parent =>
              obtain ⟨dp, name⟩ := parent
              obtain ⟨dir, linked_dp⟩ := directory dp name rfl
              replace linking_y : Linking strict y base (dp ::ₘ {ip}) ip := by
                simpa [afterWalk] using linking_y
              simp only [Except.bind_eq_ok] at run
              obtain ⟨z, lock_dp, ⟨done, v⟩, link, run⟩ := run
              have linking_z := linking_y.ilock lock_dp
              obtain ⟨same_z, -, valid, ref, -⟩ := ilock_spec lock_dp
              obtain ⟨rfl, rfl⟩ | ⟨rfl, unchanged | ⟨i, dropped⟩, -⟩ := dirlink_spec link
              · simp only [if_true, Except.pure_eq_ok, Except.ok.injEq, Prod.mk.injEq] at run
                obtain ⟨-, rfl⟩ := run
                refine (linking_z.place ((same_z dp).type.trans dir) valid ref ?_).iput.iput
                intro is_strict
                exact (Linked.congr (names_of_same same_z)).mpr
                  (linked_dp is_strict (starts is_strict))
              · subst unchanged
                exact unlinkAgain_spec linking_z.iput run
              · subst dropped
                exact unlinkAgain_spec (linking_z.iget i).iput.iput run

/-- The name of a new symbolic link does not exist and there is room for its entry. -/
def SymlinkFits (t : Nodes) (env : Env) (p : Proc) (path : Path) (dirfd : Int) :
    Prop :=
  ∀ dp name s, nameiparent t p path dirfd = .ok (some (dp, name), s) →
    findEntry (s dp).entries name = none ∧ ¬Full (env dp) (s dp)

theorem filesymlink_spec {env : Env} {p : Proc} {target linkpath : Path}
    {dirfd : Int} {code : Int} (holds : Holds strict t base 0)
    (refers : ∀ i, p.refers i → 0 < base i) (linked : strict → StartsLinked t p linkpath dirfd)
    (fits : strict → SymlinkFits t env p linkpath dirfd)
    (run : filesymlink t env p target linkpath dirfd = .ok (code, u)) :
    Holds strict u base 0 := by
  simp only [filesymlink, Except.bind_eq_ok] at run
  obtain ⟨⟨parent, s⟩, walk, run⟩ := run
  cases parent with
  | none =>
      simp only [Except.pure_eq_ok, Except.ok.injEq, Prod.mk.injEq] at run
      obtain ⟨-, rfl⟩ := run
      simpa [afterWalk] using (holds.namex refers walk).holds
  | some parent =>
      obtain ⟨dp, name⟩ := parent
      simp only [Except.bind_eq_ok] at run
      obtain ⟨x, lock, run⟩ := run
      have locks := holds.nameiparent refers walk lock
      have same := (ilock_spec lock).1
      generalize alloc : ialloc x .symlink = allocated at run
      cases allocated with
      | none =>
          simp only [Except.pure_eq_ok, Except.ok.injEq, Prod.mk.injEq] at run
          obtain ⟨-, rfl⟩ := run
          exact locks.holds.iput
      | some new =>
          obtain ⟨ip, y⟩ := new
          obtain ⟨extra, deficit, sound, tidy⟩ := locks.holds
          obtain ⟨free, ip_pos, ip_lt, idle, unheld, rfl⟩ :=
            ialloc_spec sound alloc (by simp [locks.dir])
          have apart : ip ≠ dp := by
            rintro rfl
            exact absurd (free.symm.trans locks.dir) (by decide)
          have ref : 0 < (x dp).ref := by
            rw [sound.ref, Multiset.count_singleton_self]
            omega
          simp only [Except.bind_eq_ok] at run
          obtain ⟨y, lock_ip, ⟨done, z⟩, link, run⟩ := run
          rw [ilock, Function.update_self] at lock_ip
          simp only [one_ne_zero, if_false, Bool.false_eq_true, reduceCtorEq,
            Function.update_idem, Except.ok.injEq] at lock_ip
          subst lock_ip
          simp only [Function.update_self, Function.update_idem] at link
          set n : Node := { x ip with
            type := .symlink, major := 0, minor := 0, nlink := 1, mode := 0o120777, uid := 0,
            gid := 0, content := [], entries := [], ref := 1, valid := true } with n_eq
          have same_dp : Function.update x ip n dp = x dp := Function.update_of_ne apart.symm _ _
          obtain ⟨rfl, rfl⟩ | ⟨rfl, failed, misfit⟩ := dirlink_spec link
          · have named : Holds strict (Function.update (Function.update x ip n) dp
                { x dp with
                  entries := placeEntry (x dp).entries ⟨ip, .symlink, name.take dirSiz⟩ }) base
                (ip ::ₘ {dp}) := by
              refine sound.create tidy free ip_pos ip_lt idle unheld locks.dir (by simp [n_eq]) rfl
                rfl rfl locks.dir rfl ref locks.valid (by simp [n_eq]) rfl ?_
              exact fun is_strict => locks.linked is_strict (linked is_strict)
            have swapped : (ip ::ₘ {dp} : Multiset Nat) = dp ::ₘ {ip} :=
              Multiset.cons_swap ip dp 0
            rw [swapped] at named
            rw [same_dp] at run
            simp only [not_true_eq_false, if_false, Except.pure_eq_ok, Except.ok.injEq,
              Prod.mk.injEq] at run
            obtain ⟨-, rfl⟩ := run
            exact (named.iput.content ip _).iput
          · have orphan : Holds strict (Function.update x ip n) base (dp ::ₘ {ip}) := by
              have sound' : Sound (Function.update x ip n) base (dp ::ₘ {ip})
                  (Function.update extra ip 1) deficit :=
                (sound.relink ip_pos ip_lt (by rw [free]; decide) (Or.inl free) (by simp [n_eq])
                  (by simp [n_eq]) rfl (by rw [sound.names_free free]; rfl)
                  (fun j differ => by simp [Multiset.count_cons, Multiset.count_singleton, differ])
                  (by rw [idle]; simp [n_eq, apart]) (by simp [n_eq])).1
              refine ⟨_, deficit, sound', fun is_strict => absurd ?_ misfit⟩
              rw [same_dp, (same dp).entries, Full, (same dp).entries]
              exact fits is_strict dp name s walk
            have dropped : Holds strict z base (dp ::ₘ {ip}) := by
              obtain rfl | ⟨i, rfl⟩ := failed
              · exact orphan
              · exact (orphan.iget i).iput
            simp only [Bool.false_eq_true, not_false_eq_true, if_true, Except.pure_eq_ok,
              Except.ok.injEq, Prod.mk.injEq] at run
            obtain ⟨-, rfl⟩ := run
            exact dropped.iput.iput

/-- An empty directory is only taken out of a directory that keeps a link or has no name. -/
def KeepsLink (t : Nodes) (p : Proc) (path : Path) (dirfd : Int) : Prop :=
  ∀ dp name s k, nameiparent t p path dirfd = .ok (some (dp, name), s) → name ≠ dot →
    name ≠ dotdot → findEntry (s dp).entries name = some k →
    (s (inumAt (s dp).entries k)).type = .dir →
    isdirempty (s (inumAt (s dp).entries k)) = true → Linked s dp → 2 ≤ (s dp).nlink

theorem iget_valid {i j : Nat} (valid : (t j).valid = true) (ref : 0 < (t j).ref) :
    (iget t i j).valid = true := by
  rw [iget]
  by_cases same : j = i
  · subst same
    rw [if_neg ref.ne', Function.update_self]
    exact valid
  · split <;> rw [Function.update_of_ne same] <;> exact valid

theorem iput_update {i d : Nat} (apart : i ≠ d) (n : Node) :
    Function.update (iput t d) i n = iput (Function.update t i n) d := by
  rw [iput, iput, Function.update_of_ne apart.symm]
  split <;> exact Function.update_comm apart.symm _ _ _

/-- The end of `fileunlink`: the entry and the link are gone. -/
theorem Sound.unlink {ip dp : Nat} (sound : Sound t base (ip ::ₘ {dp}) extra deficit)
    (tidy : strict → Tidy t ∧ (∀ i, extra i = 0) ∧ ∀ i, deficit i = 0) {n m : Node}
    (apart : ip ≠ dp)
    (counted : Counted (Function.update (Function.update t ip n) dp m) extra deficit)
    (keeps : Tidy t → Tidy (Function.update (Function.update t ip n) dp m))
    (n_type : n.type = (t ip).type) (allocated : (t ip).type ≠ .free)
    (n_ref : n.ref = (t ip).ref) (n_valid : n.valid = true) (n_pos : 0 < n.ref)
    (m_dir : m.type = .dir) (m_ref : m.ref = (t dp).ref) (m_valid : m.valid = true)
    (m_pos : 0 < m.ref) :
    Holds strict (iput (Function.update (iput (Function.update t dp m) dp) ip n) ip) base 0 := by
  have holds : Holds strict (Function.update (Function.update t ip n) dp m) base
      (dp ::ₘ {ip}) := by
    have swapped : (ip ::ₘ {dp} : Multiset Nat) = dp ::ₘ {ip} := Multiset.cons_swap ip dp 0
    rw [← swapped]
    refine ⟨extra, deficit, sound.edited counted apart (fun _ _ => rfl) (n_type ▸ allocated)
      (n_ref.trans (sound.ref ip)) (fun _ => ⟨n_pos, n_valid⟩) m_dir m_ref m_pos m_valid, ?_⟩
    intro is_strict
    obtain ⟨tidy_t, none⟩ := tidy is_strict
    exact ⟨keeps tidy_t, none⟩
  rw [iput_update apart, Function.update_comm apart.symm]
  exact holds.iput.iput

/-- `fileunlink` once every check has passed. -/
theorem unlink_holds {ip dp k : Nat} {name : Path} {w : Nodes}
    (holds : Holds strict t base (ip ::ₘ {dp})) (dir : (t dp).type = .dir)
    (valid_dp : (t dp).valid = true) (not_dot : name ≠ dot) (not_dotdot : name ≠ dotdot)
    (present : findEntry (t dp).entries name = some k) (is_ip : inumAt (t dp).entries k = ip)
    (allocated : (t ip).type ≠ .free) (valid_ip : (t ip).valid = true)
    (links : 1 ≤ (t ip).nlink) (bound : ∀ i, (t i).type ≠ .free → (t i).nlink < 32767)
    (removable : (t ip).type = .dir →
      isdirempty (t ip) = true ∧ (Linked t dp → 2 ≤ (t dp).nlink))
    (cleared : w = if (unlink t dp k ip).type = .dir then
        Function.update (unlink t dp k) dp { unlink t dp k dp with
          nlink := short ((unlink t dp k dp).nlink - 1) }
      else unlink t dp k) :
    Holds strict (iput (Function.update (iput w dp) ip { iput w dp ip with
      nlink := short ((iput w dp ip).nlink - 1) }) ip) base 0 := by
  obtain ⟨extra, deficit, sound, tidy⟩ := holds
  have ref_dp : 0 < (t dp).ref := by
    rw [sound.ref, Multiset.count_cons, Multiset.count_singleton_self]
    omega
  have ref_ip : 0 < (t ip).ref := by
    rw [sound.ref, Multiset.count_cons_self]
    omega
  have bound_ip := bound ip allocated
  have bound_dp := bound dp (by rw [dir]; decide)
  have nonneg := sound.toCounted.nlink_nonneg dir
  set n : Node := { t ip with nlink := (t ip).nlink - 1 } with n_eq
  by_cases is_dir : (t ip).type = .dir
  · obtain ⟨empty, enough⟩ := removable is_dir
    set m : Node := { t dp with
      entries := (t dp).entries.set k Dirent.none, nlink := (t dp).nlink - 1 } with m_eq
    obtain ⟨apart, -, counted, keeps⟩ := sound.toCounted.dropDir (n := n) (m := m) dir not_dot
      not_dotdot present is_ip is_dir empty is_dir rfl rfl dir rfl rfl enough
    have w_eq : w = Function.update t dp m := by
      rw [cleared, unlink, Function.update_of_ne apart, if_pos is_dir, Function.update_self,
        Function.update_idem, short_eq (by simp only; omega) (by simp only; omega)]
    have at_ip : iput w dp ip = t ip := by
      rw [iput_other w apart, w_eq, Function.update_of_ne apart]
    rw [at_ip, short_eq (by omega) (by omega), w_eq]
    exact sound.unlink tidy apart counted keeps rfl allocated rfl valid_ip ref_ip dir rfl valid_dp
      ref_dp
  · set m : Node := { t dp with entries := (t dp).entries.set k Dirent.none } with m_eq
    obtain ⟨counted, keeps⟩ := sound.toCounted.dropName (n := n) (m := m) dir not_dot not_dotdot
      present is_ip is_dir rfl rfl rfl dir rfl rfl
    have apart : ip ≠ dp := by
      intro same
      rw [same] at is_dir
      exact is_dir dir
    have w_eq : w = Function.update t dp m := by
      rw [cleared, unlink, Function.update_of_ne apart, if_neg is_dir]
    have at_ip : iput w dp ip = t ip := by
      rw [iput_other w apart, w_eq, Function.update_of_ne apart]
    rw [at_ip, short_eq (by omega) (by omega), w_eq]
    exact sound.unlink tidy apart counted keeps rfl allocated rfl valid_ip ref_ip dir rfl valid_dp
      ref_dp

theorem fileunlink_spec {p : Proc} {path : Path} {dirfd : Int} {removeDir : Bool}
    {code : Int} (holds : Holds strict t base 0) (refers : ∀ i, p.refers i → 0 < base i)
    (bound : ∀ i, (t i).type ≠ .free → (t i).nlink < 32767)
    (keeps_link : removeDir = true → KeepsLink t p path dirfd)
    (run : fileunlink t p path dirfd removeDir = .ok (code, u)) : Holds strict u base 0 := by
  simp only [fileunlink, Except.bind_eq_ok] at run
  obtain ⟨⟨parent, s⟩, walk, run⟩ := run
  cases parent with
  | none =>
      simp only [Except.pure_eq_ok, Except.ok.injEq, Prod.mk.injEq] at run
      obtain ⟨-, rfl⟩ := run
      simpa [afterWalk] using (holds.namex refers walk).holds
  | some parent =>
      obtain ⟨dp, name⟩ := parent
      simp only [Except.bind_eq_ok] at run
      obtain ⟨x, lock, run⟩ := run
      have locks := holds.nameiparent refers walk lock
      have same_x := (ilock_spec lock).1
      split at run
      · simp only [Except.pure_eq_ok, Except.ok.injEq, Prod.mk.injEq] at run
        obtain ⟨-, rfl⟩ := run
        exact locks.holds.iput
      · next proper =>
          rw [not_or] at proper
          simp only [Except.bind_eq_ok] at run
          obtain ⟨⟨hit, y⟩, look, run⟩ := run
          obtain ⟨-, ⟨rfl, rfl, -⟩ | ⟨k, rfl, rfl, present⟩⟩ := dirlookup_spec look
          · simp only [Except.pure_eq_ok, Except.ok.injEq, Prod.mk.injEq] at run
            obtain ⟨-, rfl⟩ := run
            exact locks.holds.iput
          · set ip := inumAt (x dp).entries k with ip_eq
            simp only [Except.bind_eq_ok] at run
            obtain ⟨y, lock_ip, run⟩ := run
            have holds_y := (locks.holds.iget ip).ilock lock_ip
            have allocated := (locks.holds.iget ip).allocated lock_ip
            obtain ⟨same_lock, -, valid_ip, -, keeps_valid⟩ := ilock_spec lock_ip
            have ref_dp := (ilock_spec lock).2.2.2.1
            have same : ∀ j, SameData (x j) (y j) :=
              fun j => (iget_same x ip j).trans (same_lock j)
            have drop : Holds strict (iput (iput y ip) dp) base 0 := holds_y.iput.iput
            split at run
            · simp only [Except.pure_eq_ok, Except.ok.injEq, Prod.mk.injEq] at run
              exact run.2 ▸ drop
            · next links =>
                split at run
                · simp only [Except.pure_eq_ok, Except.ok.injEq, Prod.mk.injEq] at run
                  exact run.2 ▸ drop
                · next no_file =>
                    split at run
                    · simp only [Except.pure_eq_ok, Except.ok.injEq, Prod.mk.injEq] at run
                      exact run.2 ▸ drop
                    · next not_full =>
                        split at run
                        · simp only [Except.pure_eq_ok, Except.ok.injEq, Prod.mk.injEq] at run
                          exact run.2 ▸ drop
                        · next no_dir =>
                            simp only [Except.pure_eq_ok, Except.ok.injEq, Prod.mk.injEq] at run
                            rw [← run.2]
                            refine unlink_holds holds_y ((same dp).type.trans locks.dir)
                              (keeps_valid dp (iget_valid locks.valid ref_dp)) proper.1 proper.2
                              ((same dp).entries ▸ present) ((same dp).entries ▸ rfl) allocated
                              valid_ip (by omega) ?_ ?_ rfl
                            · intro i allocated_i
                              have data := (locks.stays i ((same i).type ▸ allocated_i)).trans
                                (same i)
                              rw [data.nlink (data.type ▸ allocated_i)]
                              exact bound i (data.type ▸ allocated_i)
                            · intro is_dir
                              have removes : removeDir = true := by
                                cases removeDir with
                                | true => rfl
                                | false => exact absurd ⟨rfl, is_dir⟩ no_dir
                              have empty : isdirempty (y ip) = true := by
                                simpa [removes] using not_full
                              refine ⟨empty, fun linked => ?_⟩
                              have data : ∀ j, SameData (s j) (y j) :=
                                fun j => (same_x j).trans (same j)
                              have entries := (same_x dp).entries
                              rw [(data dp).nlink (by rw [← (same_x dp).type, locks.dir]; decide)]
                              refine keeps_link removes dp name s k walk proper.1 proper.2
                                (entries ▸ present) ?_ ?_
                                  ((Linked.congr (names_of_same data)).mp linked)
                              · rw [← entries, ← (data _).type]
                                exact is_dir
                              · rw [← entries, isdirempty, ← (data _).entries]
                                exact empty

end Dir
end Xv6Duo
