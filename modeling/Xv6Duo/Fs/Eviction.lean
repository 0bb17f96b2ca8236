import Xv6Duo.Fs.Tree

/-!
# Recycled buffers

`brelse` moves a buffer to the end of the list, and `bget` looks for a buffer to recycle from the
end on. The buffer that it finds is the one that was released last.
-/

namespace Xv6Duo
namespace Fs

open Except

variable {sb : Superblock}

/-- A call on the buffer cache. -/
inductive BufferCall
  /-- `bread`. -/
  | bread (bno : UInt32)
  /-- `brelse`. -/
  | brelse (b : Fin nbuf)

/-- The buffer cache with a history of its buffers. -/
structure Logged where
  /-- The buffer cache. -/
  state : State
  /-- How often a buffer was released. -/
  time : Nat
  /-- When each buffer was released last, `0` for never. -/
  released : Fin nbuf → Nat

namespace Logged

variable {l m : Logged}

/-- The cache after `binit`. -/
def start (disk : UInt32 → ByteBlock.Bytes) : Logged := ⟨binit disk, 0, fun _ => 0⟩

/-- One call. -/
def perform (sb : Superblock) (l : Logged) : BufferCall → Except Fault Logged
  | .bread bno => do
      let (_, s) ← Fs.bread sb l.state bno
      return { l with state := s }
  | .brelse b => do
      let s ← Fs.brelse l.state b
      return ⟨s, l.time + 1, Function.update l.released b (l.time + 1)⟩

/-- A buffer that `bget` may recycle. -/
def Eligible (l : Logged) (b : Fin nbuf) : Prop :=
  (l.state.bufs b).busy = false ∧ (l.state.bufs b).dirty = false

/-- No buffer that may be recycled was released before this one; a buffer that was never released
comes first. -/
structure IsOldest (l : Logged) (b : Fin nbuf) : Prop where
  /-- It may be recycled. -/
  eligible : l.Eligible b
  /-- The others were released later, or never. -/
  oldest : ∀ c, l.Eligible c → l.released b ≤ l.released c

/-! ## The order of the list -/

/-- The list holds every buffer once, those that were never released first and then the others in
the order of their last release. -/
structure Ordered (l : Logged) : Prop where
  /-- No buffer comes twice. -/
  nodup : l.state.clink.Nodup
  /-- Every buffer comes. -/
  mem : ∀ b, b ∈ l.state.clink
  /-- The order. -/
  sorted : l.state.clink.Pairwise fun b c =>
    l.released b < l.released c ∨ (l.released b = 0 ∧ l.released c = 0)
  /-- No release lies ahead. -/
  past : ∀ b, l.released b ≤ l.time

theorem ordered_start (disk : UInt32 → ByteBlock.Bytes) : (start disk).Ordered where
  nodup := List.nodup_finRange nbuf
  mem := List.mem_finRange
  sorted := List.pairwise_of_forall fun _ _ => Or.inr ⟨rfl, rfl⟩
  past _ := le_rfl

theorem bread_clink {s t : State} {bno : UInt32} {b : Fin nbuf}
    (run : Fs.bread sb s bno = .ok (b, t)) : t.clink = s.clink := by
  obtain ⟨⟨a, u⟩, gets, rest⟩ := bind_eq_ok.mp run
  have same : u.clink = s.clink := by
    unfold bget at gets
    dsimp only at gets
    split at gets
    · split at gets
      · cases gets
      · cases gets
        rfl
    · split at gets
      · cases gets
        rfl
      · cases gets
  dsimp only at rest
  split at rest
  · cases rest
    exact same
  · cases rest
    unfold sdRw
    dsimp only
    split <;> exact same

/-- A step keeps the order. -/
theorem Ordered.perform (ordered : l.Ordered) {call : BufferCall}
    (run : l.perform sb call = .ok m) : m.Ordered := by
  obtain ⟨nodup, mem, sorted, past⟩ := ordered
  cases call with
  | bread bno =>
      obtain ⟨⟨b, s⟩, reads, returns⟩ := bind_eq_ok.mp run
      cases returns
      have same := bread_clink reads
      exact ⟨same ▸ nodup, same ▸ mem, same ▸ sorted, past⟩
  | brelse b =>
      obtain ⟨s, releases, returns⟩ := bind_eq_ok.mp run
      cases returns
      unfold Fs.brelse at releases
      split at releases
      · cases releases
        have others : ∀ c ∈ l.state.clink.erase b, c ≠ b := fun c inside =>
          (nodup.mem_erase_iff.mp inside).1
        have kept (c : Fin nbuf) (other : c ≠ b) :
            Function.update l.released b (l.time + 1) c = l.released c :=
          Function.update_of_ne other _ _
        refine ⟨?_, ?_, ?_, ?_⟩
        · refine List.nodup_append.mpr ⟨nodup.erase b, List.nodup_singleton b, ?_⟩
          intro c inside d last
          rw [List.mem_singleton.mp last]
          exact others c inside
        · intro c
          by_cases same : c = b
          · exact List.mem_append_right _ (List.mem_singleton.mpr same)
          · exact List.mem_append_left _ (nodup.mem_erase_iff.mpr ⟨same, mem c⟩)
        · refine List.pairwise_append.mpr ⟨?_, List.pairwise_singleton _ _, ?_⟩
          · refine (sorted.sublist List.erase_sublist).imp_of_mem fun {c d} first second order => ?_
            dsimp only
            rwa [kept c (others c first), kept d (others d second)]
          · intro c inside d last
            dsimp only
            rw [List.mem_singleton.mp last, kept c (others c inside), Function.update_self]
            exact Or.inl (Nat.lt_succ_of_le (past c))
        · intro c
          dsimp only
          by_cases same : c = b
          · rw [same, Function.update_self]
          · rw [kept c same]
            exact (past c).trans (Nat.le_succ _)
      · cases releases

/-- A run keeps the order. -/
theorem Ordered.run {calls : List BufferCall} (ordered : l.Ordered)
    (run : calls.foldlM (Logged.perform sb) l = .ok m) : m.Ordered := by
  induction calls generalizing l with
  | nil =>
      cases run
      exact ordered
  | cons call calls ih =>
      obtain ⟨next, performs, rest⟩ := bind_eq_ok.mp run
      exact ih (ordered.perform performs) rest

/-! ## Recycling -/

/-- The block is in no buffer. -/
def Missing (sb : Superblock) (l : Logged) (bno : UInt32) : Prop :=
  ∀ c, ¬((l.state.bufs c).dev = rootDev ∧ (l.state.bufs c).blockno = sb.sector bno)

/-- The recycled buffer was released last. -/
theorem Ordered.recycles_newest (ordered : l.Ordered) {bno : UInt32} (missing : l.Missing sb bno)
    {b : Fin nbuf} {t : State} (run : Fs.bread sb l.state bno = .ok (b, t)) :
    l.Eligible b ∧ ∀ c, l.Eligible c → c ≠ b →
      l.released c < l.released b ∨ (l.released c = 0 ∧ l.released b = 0) := by
  obtain ⟨⟨a, u⟩, gets, rest⟩ := bind_eq_ok.mp run
  have same : a = b := by
    dsimp only at rest
    split at rest <;> cases rest <;> rfl
  subst same
  unfold bget at gets
  dsimp only at gets
  split at gets
  · next c found =>
      have hit := List.find?_some found
      rw [Bool.and_eq_true, beq_iff_eq, beq_iff_eq] at hit
      exact absurd hit (missing c)
  · split at gets
    · next c found =>
        cases gets
        obtain ⟨free, later, earlier, split, busy⟩ := List.find?_eq_some_iff_append.mp found
        have order : l.state.clink = earlier.reverse ++ a :: later.reverse := by
          rw [← List.reverse_reverse l.state.clink, split]
          simp
        simp only [Bool.and_eq_true, Bool.not_eq_true'] at free
        refine ⟨free, fun c eligible differ => ?_⟩
        have inside := ordered.mem c
        rw [order, List.mem_append, List.mem_cons, List.mem_reverse, List.mem_reverse] at inside
        rcases inside with before | here | after
        · have sorted := ordered.sorted
          rw [order] at sorted
          exact (List.pairwise_append.mp sorted).2.2 c (List.mem_reverse.mpr before) a
            List.mem_cons_self
        · exact absurd here differ
        · have taken := busy c after
          simp [eligible.1, eligible.2] at taken
    · cases gets

/-- In every run from `binit`, a buffer that `bget` recycles is the least recently released one if
and only if no buffer that may be recycled was ever released, or there is only one. -/
theorem oldest_recycled_iff {disk : UInt32 → ByteBlock.Bytes} {calls : List BufferCall}
    {bno : UInt32}
    {b : Fin nbuf} {t : State} (run : calls.foldlM (Logged.perform sb) (start disk) = .ok l)
    (missing : l.Missing sb bno) (recycled : Fs.bread sb l.state bno = .ok (b, t)) :
    l.IsOldest b ↔
      (∀ c, l.Eligible c → l.released c = 0) ∨ ∃ c, ∀ d, l.Eligible d ↔ d = c := by
  obtain ⟨eligible, newest⟩ := ((ordered_start disk).run run).recycles_newest missing recycled
  constructor
  · intro oldest
    by_cases unused : l.released b = 0
    · left
      intro c other
      by_cases same : c = b
      · rw [same, unused]
      · rcases newest c other same with before | ⟨never, -⟩
        · omega
        · exact never
    · right
      refine ⟨b, fun d => ⟨fun other => ?_, fun same => same ▸ eligible⟩⟩
      by_contra differ
      have later := oldest.oldest d other
      rcases newest d other differ with before | ⟨-, never⟩
      · omega
      · exact unused never
  · intro condition
    refine ⟨eligible, fun c other => ?_⟩
    rcases condition with unused | ⟨only, alone⟩
    · rw [unused b eligible]
      exact Nat.zero_le _
    · rw [(alone b).mp eligible, (alone c).mp other]

/-- `bcache.buf[0]`. -/
def headBuffer : Fin nbuf := ⟨0, nbuf_pos⟩

/-- `bcache.buf[NBUF - 1]`. -/
def tailBuffer : Fin nbuf := ⟨nbuf - 1, by decide⟩

/-- A block is read and released, and another block is missing. -/
def firstReads : List BufferCall := [.bread 0, .brelse tailBuffer]

theorem firstReads_run : ∃ l t, firstReads.foldlM (Logged.perform mkfsSuper)
    (start fun _ => ByteBlock.zeros) =
      .ok l ∧ l.Missing mkfsSuper 1 ∧ Fs.bread mkfsSuper l.state 1 = .ok (tailBuffer, t) ∧
      l.Eligible headBuffer ∧ l.released headBuffer = 0 ∧ l.released tailBuffer = 1 := by
  have succeeds : (firstReads.foldlM (Logged.perform mkfsSuper)
      (start fun _ => ByteBlock.zeros)).toOption.any (fun l => decide (
        (∀ c, ¬((l.state.bufs c).dev = rootDev ∧
          (l.state.bufs c).blockno = mkfsSuper.sector 1)) ∧
        (Fs.bread mkfsSuper l.state 1).toOption.any
          (fun result => decide (result.1 = tailBuffer)) = true ∧
        ((l.state.bufs headBuffer).busy = false ∧ (l.state.bufs headBuffer).dirty = false) ∧
        l.released headBuffer = 0 ∧ l.released tailBuffer = 1)) = true := by
    decide +kernel
  obtain ⟨l, run, test⟩ := Except.exists_of_any succeeds
  obtain ⟨missing, reads, eligible, never, once⟩ := of_decide_eq_true test
  obtain ⟨⟨b, t⟩, recycles, same⟩ := Except.exists_of_any reads
  obtain rfl : b = tailBuffer := of_decide_eq_true same
  exact ⟨l, t, run, missing, recycles, eligible, never, once⟩

/-- The buffer that has just been released is recycled, though others were never used. -/
theorem recycles_just_released : ∃ l t,
    firstReads.foldlM (Logged.perform mkfsSuper) (start fun _ => ByteBlock.zeros) = .ok l ∧
      l.Missing mkfsSuper 1 ∧ Fs.bread mkfsSuper l.state 1 = .ok (tailBuffer, t) ∧
        ¬l.IsOldest tailBuffer := by
  obtain ⟨l, t, run, missing, recycles, eligible, never, once⟩ := firstReads_run
  refine ⟨l, t, run, missing, recycles, fun oldest => ?_⟩
  have order := oldest.oldest headBuffer eligible
  omega

theorem firstReads_recycles : ∃ l t,
    firstReads.foldlM (Logged.perform mkfsSuper) (start fun _ => ByteBlock.zeros) = .ok l ∧
      l.Missing mkfsSuper 1 ∧ Fs.bread mkfsSuper l.state 1 = .ok (tailBuffer, t) ∧
      (l.IsOldest tailBuffer ↔
        (∀ c, l.Eligible c → l.released c = 0) ∨ ∃ c, ∀ d, l.Eligible d ↔ d = c) := by
  obtain ⟨l, t, run, missing, recycles, -⟩ := firstReads_run
  exact ⟨l, t, run, missing, recycles, oldest_recycled_iff run missing recycles⟩

end Logged

end Fs
end Xv6Duo
