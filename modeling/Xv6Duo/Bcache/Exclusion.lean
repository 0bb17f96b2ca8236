import Xv6Duo.Bcache.Model

/-!
# One buffer for a block, one holder for a buffer

The invariant of the sections of `Bcache.Model`: no two buffers that were ever used stand for the
same block, a buffer is busy exactly while one process holds it, and the list is a ring of all
buffers.
-/

namespace Xv6Duo
namespace Bcache

open Fs (nbuf)
open Ring (Links IsRing)

/-! ## Lists -/

theorem listPushBack_ring {links : Links (Fin nbuf)} {nodes : List (Fin nbuf)} {b : Fin nbuf}
    (ring : IsRing links nodes) (fresh : b ∉ nodes) :
    IsRing (listPushBack links b) (nodes ++ [b]) :=
  ring.append fresh

theorem listDrop_ring {links : Links (Fin nbuf)} {front back : List (Fin nbuf)} {b : Fin nbuf}
    (ring : IsRing links (front ++ b :: back)) : IsRing (listDrop links b) (front ++ back) := by
  have removed := ring.remove
  have prev_eq : Function.update links.prev (links.next (some b)) (links.prev (some b)) (some b) =
      links.prev (some b) := by
    rw [Function.update_apply]
    split <;> rfl
  rw [listDrop]
  dsimp only
  rw [prev_eq]
  exact removed

theorem listInit_ring : IsRing listInit [] := ⟨List.nodup_nil, rfl, rfl⟩

/-- The links lead through every buffer once. -/
def Threads (links : Links (Fin nbuf)) (nodes : List (Fin nbuf)) : Prop :=
  IsRing links nodes ∧ ∀ b, b ∈ nodes

theorem binit_threads : Threads binit.clink (List.finRange nbuf) := by
  have general : ∀ (rest nodes : List (Fin nbuf)) (links : Links (Fin nbuf)), IsRing links nodes →
      (nodes ++ rest).Nodup → IsRing (rest.foldl listPushBack links) (nodes ++ rest) := by
    intro rest
    induction rest with
    | nil =>
        intro nodes links ring _
        simpa using ring
    | cons b rest ih =>
        intro nodes links ring distinct
        have fresh : b ∉ nodes := by
          intro mem
          exact (List.nodup_append.mp distinct).2.2 b mem b List.mem_cons_self rfl
        have distinct' : ((nodes ++ [b]) ++ rest).Nodup := by simpa using distinct
        have built := ih (nodes ++ [b]) _ (listPushBack_ring ring fresh) distinct'
        simpa using built
  refine ⟨?_, List.mem_finRange⟩
  exact general (List.finRange nbuf) [] listInit listInit_ring
    (by simpa using List.nodup_finRange nbuf)

/-- `brelse` moves a buffer to the end of the list. -/
theorem Threads.release {links : Links (Fin nbuf)} {nodes : List (Fin nbuf)}
    (threads : Threads links nodes) (b : Fin nbuf) :
    ∃ nodes', Threads (listPushBack (listDrop links b) b) nodes' := by
  obtain ⟨front, back, rfl⟩ := List.append_of_mem (threads.2 b)
  have distinct := threads.1.distinct
  have fresh : b ∉ front ++ back := (List.nodup_middle.mp distinct).notMem
  refine ⟨front ++ back ++ [b], listPushBack_ring (listDrop_ring threads.1) fresh, fun c => ?_⟩
  have mem := threads.2 c
  simp only [List.mem_append, List.mem_cons, List.not_mem_nil, or_false] at mem ⊢
  tauto

/-! ## Sections -/

variable {lba : UInt32 → UInt32}

/-- What `bget` does on a proper list. -/
theorem bget_eq {c : Cache} {nodes : List (Fin nbuf)} (threads : Threads c.clink nodes)
    (dev bno : UInt32) :
    bget lba c dev bno =
      match nodes.find? fun b => (c.bufs b).dev = dev ∧ (c.bufs b).blockno = sector lba dev bno with
      | some b =>
          if (c.bufs b).busy then .ok (.sleeps b, c)
          else .ok (.returned b, c.setBuf b
            { c.bufs b with busy := true, refcnt := (c.bufs b).refcnt + 1 })
      | none =>
          match nodes.reverse.find? fun b => ¬(c.bufs b).busy ∧ ¬(c.bufs b).dirty with
          | some b => .ok (.returned b, c.setBuf b ⟨true, false, false, dev, sector lba dev bno, 1⟩)
          | none => .error .noBuffers := by
  have enough : nodes.length < nbuf + 1 := by
    have bounded := threads.1.distinct.length_le_card
    rw [Fintype.card_fin] at bounded
    omega
  have enough_back : nodes.reverse.length < nbuf + 1 := by simpa using enough
  rw [bget]
  dsimp only
  rw [threads.1.forwards.walk_eq _ Fault.loops enough, Except.ok_bind]
  cases nodes.find? _ with
  | some b =>
      dsimp only
      split <;> rfl
  | none =>
      dsimp only
      rw [threads.1.backwards.walk_eq _ Fault.loops enough_back, Except.ok_bind]
      cases nodes.reverse.find? _ with
      | some b => rfl
      | none => rfl

/-- What `bget` returns stands for the block that was asked for, and no other buffer does. -/
structure Got (c c' : Cache) (dev blockno : UInt32) (b : Fin nbuf) : Prop where
  /-- The list stays. -/
  clink : c'.clink = c.clink
  /-- Other buffers stay. -/
  others : ∀ other, other ≠ b → c'.bufs other = c.bufs other
  /-- It was not busy. -/
  idle : (c.bufs b).busy = false
  /-- It is busy. -/
  busy : (c'.bufs b).busy = true
  /-- It is on the device. -/
  onDev : (c'.bufs b).dev = dev
  /-- It is the block. -/
  onBlock : (c'.bufs b).blockno = blockno
  /-- It stood for the block before, or no buffer did. -/
  kept : ((c.bufs b).dev = dev ∧ (c.bufs b).blockno = blockno) ∨
    ∀ other, ¬((c.bufs other).dev = dev ∧ (c.bufs other).blockno = blockno)

theorem bget_returned {c c' : Cache} {nodes : List (Fin nbuf)} (threads : Threads c.clink nodes)
    {dev bno : UInt32} {b : Fin nbuf} (run : bget lba c dev bno = .ok (.returned b, c')) :
    Got c c' dev (sector lba dev bno) b := by
  rw [bget_eq threads] at run
  cases cached : nodes.find? fun b =>
      (c.bufs b).dev = dev ∧ (c.bufs b).blockno = sector lba dev bno with
  | some found =>
      rw [cached] at run
      dsimp only at run
      split at run
      · simp at run
      · next idle =>
          simp only [Except.ok.injEq, Prod.mk.injEq, Found.returned.injEq] at run
          obtain ⟨rfl, rfl⟩ := run
          have same := List.find?_some cached
          simp only [decide_eq_true_eq] at same
          refine ⟨rfl, ?_, by simpa using idle, ?_, ?_, ?_, Or.inl same⟩
          · intro other differ
            exact Function.update_of_ne differ ..
          · simp [Cache.setBuf]
          · simp [Cache.setBuf, same.1]
          · simp [Cache.setBuf, same.2]
  | none =>
      rw [cached] at run
      dsimp only at run
      cases unused : nodes.reverse.find? fun b => ¬(c.bufs b).busy ∧ ¬(c.bufs b).dirty with
      | some found =>
          rw [unused] at run
          simp only [Except.ok.injEq, Prod.mk.injEq, Found.returned.injEq] at run
          obtain ⟨rfl, rfl⟩ := run
          have idle := List.find?_some unused
          simp only [Bool.not_eq_true, Bool.decide_and, Bool.and_eq_true, decide_eq_true_eq] at idle
          have missed := List.find?_eq_none.mp cached
          refine ⟨rfl, ?_, idle.1, ?_, ?_, ?_, Or.inr fun other => ?_⟩
          · intro other differ
            exact Function.update_of_ne differ ..
          · simp [Cache.setBuf]
          · simp [Cache.setBuf]
          · simp [Cache.setBuf]
          · simpa using missed other (threads.2 other)
      | none =>
          rw [unused] at run
          simp at run

theorem bget_sleeps {c c' : Cache} {nodes : List (Fin nbuf)} (threads : Threads c.clink nodes)
    {dev bno : UInt32} {b : Fin nbuf} (run : bget lba c dev bno = .ok (.sleeps b, c')) :
    c' = c := by
  rw [bget_eq threads] at run
  split at run
  · split at run
    · simp only [Except.ok.injEq, Prod.mk.injEq] at run
      exact run.2.symm
    · simp at run
  · split at run
    · simp at run
    · simp at run

/-! ## The invariant -/

variable {P : Type}

/-- The invariant of the sections. -/
structure Exclusive (w : World P) : Prop where
  /-- The list is a ring of all buffers. -/
  ring : ∃ nodes, Threads w.cache.clink nodes
  /-- Used buffers stand for different blocks. -/
  distinct : ∀ b b', (w.cache.bufs b).dev ≠ 0 → (w.cache.bufs b).dev = (w.cache.bufs b').dev →
    (w.cache.bufs b).blockno = (w.cache.bufs b').blockno → b = b'
  /-- Valid and busy buffers are used. -/
  used : ∀ b, (w.cache.bufs b).valid = true ∨ (w.cache.bufs b).busy = true →
    (w.cache.bufs b).dev ≠ 0
  /-- A busy buffer is held. -/
  held : ∀ b, (w.cache.bufs b).busy = true ↔ ∃ p, w.held p b = true
  /-- The holder got it last. -/
  last : ∀ p b, w.held p b = true → w.last b = some p
  /-- Sleeping processes wait for a block of a device. -/
  waits : ∀ p dev bno, w.waits p = some (dev, bno) → dev ≠ 0

theorem initial_exclusive : Exclusive (World.initial : World P) := by
  refine ⟨⟨_, binit_threads⟩, ?_, ?_, ?_, ?_, ?_⟩
  · intro b b' used
    exact absurd rfl used
  · intro b used
    simp [World.initial, binit] at used
  · intro b
    simp [World.initial, binit]
  · intro p b held
    simp [World.initial] at held
  · intro p dev bno waits
    simp [World.initial] at waits

theorem Exclusive.transfer {w : World P} (exclusive : Exclusive w) {p : P} {b : Fin nbuf}
    (holds : w.held p b = true) (valid dirty : Bool) :
    Exclusive { w with
      cache := w.cache.setBuf b { w.cache.bufs b with valid := valid, dirty := dirty } } := by
  have busy := (exclusive.held b).mpr ⟨p, holds⟩
  have same : ∀ c, (Function.update w.cache.bufs b
      { w.cache.bufs b with valid := valid, dirty := dirty } c).dev = (w.cache.bufs c).dev ∧
      (Function.update w.cache.bufs b
        { w.cache.bufs b with valid := valid, dirty := dirty } c).blockno =
          (w.cache.bufs c).blockno ∧
      (Function.update w.cache.bufs b
        { w.cache.bufs b with valid := valid, dirty := dirty } c).busy = (w.cache.bufs c).busy := by
    intro c
    by_cases is_b : c = b
    · subst is_b
      simp
    · simp [is_b]
  refine ⟨exclusive.ring, ?_, ?_, ?_, exclusive.last, exclusive.waits⟩
  · intro c c' used same_dev same_block
    simp only [Cache.setBuf, (same c).1, (same c').1, (same c).2.1, (same c').2.1]
      at used same_dev same_block
    exact exclusive.distinct c c' used same_dev same_block
  · intro c used
    simp only [Cache.setBuf, (same c).1, (same c).2.2] at used ⊢
    by_cases is_b : c = b
    · rw [is_b]
      exact exclusive.used b (Or.inr busy)
    · rw [Function.update_of_ne is_b] at used
      exact exclusive.used c used
  · intro c
    simp only [Cache.setBuf, (same c).2.2]
    exact exclusive.held c

variable [DecidableEq P]

/-- The end of a section of `bget` keeps the invariant. -/
theorem Exclusive.bget {w : World P} (exclusive : Exclusive w) {p : P} {dev bno : UInt32}
    (real : dev ≠ 0) {found : Found} {cache : Cache}
    (run : bget lba w.cache dev bno = .ok (found, cache)) :
    Exclusive (w.finish p dev bno found cache) := by
  obtain ⟨nodes, threads⟩ := exclusive.ring
  cases found with
  | sleeps b =>
      obtain rfl := bget_sleeps threads run
      refine ⟨⟨nodes, threads⟩, exclusive.distinct, exclusive.used, exclusive.held,
        exclusive.last, ?_⟩
      intro q dev' bno' waits
      simp only [World.finish, Function.update_apply] at waits
      split at waits
      · simp only [Option.some.injEq, Prod.mk.injEq] at waits
        exact waits.1 ▸ real
      · exact exclusive.waits q dev' bno' waits
  | returned b =>
      have got := bget_returned threads run
      have unheld : ∀ q, w.held q b = false := by
        intro q
        by_contra holds
        have busy := (exclusive.held b).mpr ⟨q, by simpa using holds⟩
        simp [got.idle] at busy
      refine ⟨⟨nodes, by simpa [World.finish, got.clink] using threads⟩, ?_, ?_, ?_, ?_, ?_⟩
      · intro c c' used same_dev same_block
        simp only [World.finish] at used same_dev same_block
        have alone : ∀ other, other ≠ b →
            ¬((w.cache.bufs other).dev = dev ∧
              (w.cache.bufs other).blockno = sector lba dev bno) := by
          intro other differ same
          rcases got.kept with kept | missed
          · refine differ (exclusive.distinct other b ?_ (same.1.trans kept.1.symm)
              (same.2.trans kept.2.symm))
            rw [same.1]
            exact real
          · exact missed other same
        by_cases is_b : c = b
        · by_cases is_b' : c' = b
          · rw [is_b, is_b']
          · rw [is_b, got.others c' is_b', got.onDev] at same_dev
            rw [is_b, got.others c' is_b', got.onBlock] at same_block
            exact absurd ⟨same_dev.symm, same_block.symm⟩ (alone c' is_b')
        · rw [got.others c is_b] at used same_dev same_block
          by_cases is_b' : c' = b
          · rw [is_b', got.onDev] at same_dev
            rw [is_b', got.onBlock] at same_block
            exact absurd ⟨same_dev, same_block⟩ (alone c is_b)
          · rw [got.others c' is_b'] at same_dev same_block
            exact exclusive.distinct c c' used same_dev same_block
      · intro c used
        simp only [World.finish] at used ⊢
        by_cases is_b : c = b
        · rw [is_b, got.onDev]
          exact real
        · rw [got.others c is_b] at used ⊢
          exact exclusive.used c used
      · intro c
        simp only [World.finish]
        by_cases is_b : c = b
        · subst is_b
          refine ⟨fun _ => ⟨p, by simp⟩, fun _ => got.busy⟩
        · rw [got.others c is_b, exclusive.held c]
          refine exists_congr fun q => ?_
          by_cases is_p : q = p
          · subst is_p
            simp [is_b]
          · simp [is_p]
      · intro q c holds
        simp only [World.finish, Function.update_apply] at holds ⊢
        by_cases is_b : c = b
        · subst is_b
          rw [if_pos rfl]
          by_cases is_p : q = p
          · rw [is_p]
          · rw [if_neg is_p, unheld q] at holds
            simp at holds
        · rw [if_neg is_b]
          refine exclusive.last q c ?_
          by_cases is_p : q = p
          · subst is_p
            simpa [is_b] using holds
          · simpa [is_p] using holds
      · intro q dev' bno' waits
        simp only [World.finish, Function.update_apply] at waits
        split at waits
        · simp at waits
        · exact exclusive.waits q dev' bno' waits

theorem Exclusive.brelse {w : World P} (exclusive : Exclusive w) {p : P} {b : Fin nbuf}
    (holds : w.held p b = true) {cache : Cache} (run : brelse w.cache b = .ok cache) :
    Exclusive { w with
      cache := cache, held := Function.update w.held p (Function.update (w.held p) b false) } := by
  obtain ⟨nodes, threads⟩ := exclusive.ring
  have busy := (exclusive.held b).mpr ⟨p, holds⟩
  rw [Bcache.brelse, if_pos busy, Except.ok.injEq] at run
  subst run
  have alone : ∀ q, w.held q b = true → q = p := by
    intro q holds_q
    exact Option.some.inj ((exclusive.last q b holds_q).symm.trans (exclusive.last p b holds))
  have same : ∀ c, ((w.cache.setBuf b { w.cache.bufs b with
      busy := false, refcnt := (w.cache.bufs b).refcnt - 1 }).bufs c).dev = (w.cache.bufs c).dev ∧
      ((w.cache.setBuf b { w.cache.bufs b with
        busy := false, refcnt := (w.cache.bufs b).refcnt - 1 }).bufs c).blockno =
          (w.cache.bufs c).blockno := by
    intro c
    by_cases is_b : c = b
    · subst is_b
      simp [Cache.setBuf]
    · simp [Cache.setBuf, is_b]
  refine ⟨threads.release b, ?_, ?_, ?_, ?_, exclusive.waits⟩
  · intro c c' used same_dev same_block
    dsimp only at used same_dev same_block
    rw [(same c).1] at used same_dev
    rw [(same c').1] at same_dev
    rw [(same c).2, (same c').2] at same_block
    exact exclusive.distinct c c' used same_dev same_block
  · intro c used
    dsimp only at used ⊢
    rw [(same c).1]
    by_cases is_b : c = b
    · rw [is_b]
      exact exclusive.used b (Or.inr busy)
    · simp only [Cache.setBuf, Function.update_of_ne is_b] at used
      exact exclusive.used c used
  · intro c
    by_cases is_b : c = b
    · subst is_b
      simp only [Cache.setBuf, Function.update_self, Bool.false_eq_true, false_iff, not_exists]
      intro q holds_q
      by_cases is_p : q = p
      · subst is_p
        simp at holds_q
      · rw [Function.update_of_ne is_p] at holds_q
        exact is_p (alone q holds_q)
    · simp only [Cache.setBuf, Function.update_of_ne is_b]
      rw [exclusive.held c]
      refine exists_congr fun q => ?_
      by_cases is_p : q = p
      · subst is_p
        simp [is_b]
      · simp [is_p]
  · intro q c holds_q
    refine exclusive.last q c ?_
    by_cases is_p : q = p
    · subst is_p
      by_cases is_b : c = b
      · simp [is_b] at holds_q
      · simpa [is_b] using holds_q
    · simpa [is_p] using holds_q

/-- One section keeps the invariant. -/
theorem Exclusive.perform {w w' : World P} (exclusive : Exclusive w) {act : Act P}
    (permitted : Permits w act) (run : perform lba w act = .ok w') : Exclusive w' := by
  cases act with
  | bget p dev bno =>
      simp only [Bcache.perform, Except.bind_eq_ok, Except.pure_eq_ok, Except.ok.injEq] at run
      obtain ⟨⟨found, cache⟩, section_eq, rfl⟩ := run
      exact exclusive.bget permitted.2 section_eq
  | retry p dev bno =>
      simp only [Bcache.perform, Except.bind_eq_ok, Except.pure_eq_ok, Except.ok.injEq] at run
      obtain ⟨⟨found, cache⟩, section_eq, rfl⟩ := run
      exact exclusive.bget (exclusive.waits p dev bno permitted) section_eq
  | brelse p b =>
      simp only [Bcache.perform, Except.bind_eq_ok, Except.pure_eq_ok, Except.ok.injEq] at run
      obtain ⟨cache, section_eq, rfl⟩ := run
      exact exclusive.brelse permitted section_eq
  | transfer p b valid dirty =>
      simp only [Bcache.perform, Except.ok.injEq] at run
      subst run
      exact exclusive.transfer permitted valid dirty

/-- In every interleaving at most one valid or busy buffer stands for a block, a busy buffer is held
by the one process whose `bget` returned it last, `bget` returns a buffer of the block that was
asked for, and the list is a ring of all buffers. -/
theorem buffers_exclusive {w : World P}
    (reached : GuardedRun.Reaches Permits (Bcache.perform lba) World.initial w) :
    (∀ b b', ((w.cache.bufs b).valid ∨ (w.cache.bufs b).busy) →
        ((w.cache.bufs b').valid ∨ (w.cache.bufs b').busy) →
        (w.cache.bufs b).dev = (w.cache.bufs b').dev →
        (w.cache.bufs b).blockno = (w.cache.bufs b').blockno → b = b') ∧
      (∀ b, (w.cache.bufs b).busy → ∃ p, w.last b = some p ∧ ∀ q, w.held q b = true ↔ q = p) ∧
      (∀ dev bno b cache, Bcache.bget lba w.cache dev bno = .ok (.returned b, cache) →
        (cache.bufs b).dev = dev ∧ (cache.bufs b).blockno = sector lba dev bno) ∧
      ∃ nodes, IsRing w.cache.clink nodes ∧ nodes.Nodup ∧ ∀ b, b ∈ nodes := by
  have exclusive : Exclusive w :=
    reached.invariant Exclusive initial_exclusive fun holds permitted run =>
      holds.perform permitted run
  obtain ⟨nodes, threads⟩ := exclusive.ring
  refine ⟨?_, ?_, ?_, nodes, threads.1, threads.1.distinct, threads.2⟩
  · intro b b' used _ same_dev same_block
    exact exclusive.distinct b b' (exclusive.used b used) same_dev same_block
  · intro b busy
    obtain ⟨p, holds⟩ := (exclusive.held b).mp busy
    refine ⟨p, exclusive.last p b holds, fun q => ⟨fun holds_q => ?_, fun same => same ▸ holds⟩⟩
    exact Option.some.inj ((exclusive.last q b holds_q).symm.trans (exclusive.last p b holds))
  · intro dev bno b cache run
    have got := bget_returned threads run
    exact ⟨got.onDev, got.onBlock⟩

/-- The last buffer of the list that `binit` makes. -/
def lastBuf : Fin nbuf := ⟨125, by decide⟩

/-- Two processes ask for one block of a fresh cache: the first gets the last buffer of the list and
the second sleeps, until the first releases the buffer. -/
theorem firstBget_exclusive :
    ∃ busy w : World Bool,
      GuardedRun.Reaches Permits (Bcache.perform fun _ => 2048) World.initial busy ∧
        (busy.cache.bufs lastBuf).blockno = 2088 ∧ busy.waits false = some (1, 5) ∧
        (∃ p, busy.last lastBuf = some p ∧ ∀ q, busy.held q lastBuf = true ↔ q = p) ∧
      GuardedRun.Reaches Permits (Bcache.perform fun _ => 2048) World.initial w ∧
        w.held true lastBuf = false ∧ w.waits false = some (1, 5) := by
  let taken : Cache := binit.setBuf lastBuf ⟨true, false, false, 1, 2088, 1⟩
  let first : World Bool := World.initial.finish true 1 5 (.returned lastBuf) taken
  let second : World Bool := first.finish false 1 5 (.sleeps lastBuf) taken
  have missed : (List.finRange nbuf).find? (fun b =>
      ((binit.bufs b).dev = 1 ∧ (binit.bufs b).blockno = 2088 : Bool)) = none := by
    decide +kernel
  have last : (List.finRange nbuf).reverse.find? (fun b =>
      (¬(binit.bufs b).busy ∧ ¬(binit.bufs b).dirty : Bool)) = some lastBuf := by
    decide +kernel
  have found : (List.finRange nbuf).find? (fun b =>
      ((taken.bufs b).dev = 1 ∧ (taken.bufs b).blockno = 2088 : Bool)) = some lastBuf := by
    decide +kernel
  have sector_eq : sector (fun _ => 2048) 1 5 = 2088 := by decide
  have takes : Bcache.bget (fun _ => 2048) binit 1 5 = .ok (.returned lastBuf, taken) := by
    rw [bget_eq binit_threads, sector_eq, missed, last]
  have sleeps : Bcache.bget (fun _ => 2048) taken 1 5 = .ok (.sleeps lastBuf, taken) := by
    rw [bget_eq (c := taken) binit_threads, sector_eq, found]
    rfl
  have reached_first : GuardedRun.Reaches Permits (Bcache.perform fun _ => 2048)
      World.initial first :=
    .tail .refl (show Permits _ (.bget true 1 5) from ⟨rfl, by decide⟩) (by
      rw [Bcache.perform, show (World.initial : World Bool).cache = binit from rfl, takes]
      rfl)
  have reached_second : GuardedRun.Reaches Permits (Bcache.perform fun _ => 2048)
      World.initial second :=
    .tail reached_first (show Permits _ (.bget false 1 5) from ⟨rfl, by decide⟩) (by
      rw [Bcache.perform, show first.cache = taken from rfl, sleeps]
      rfl)
  have is_busy : (taken.bufs lastBuf).busy = true := by decide +kernel
  have reached_third := reached_second.tail (show Permits _ (.brelse true lastBuf) from rfl)
    (show Bcache.perform (fun _ => 2048) second (.brelse true lastBuf) = .ok _ by
      rw [Bcache.perform, show second.cache = taken from rfl, Bcache.brelse, if_pos is_busy]
      rfl)
  refine ⟨second, _, reached_second, rfl, rfl, ?_, reached_third, rfl, rfl⟩
  exact (buffers_exclusive reached_second).2.1 lastBuf rfl

end Bcache
end Xv6Duo
