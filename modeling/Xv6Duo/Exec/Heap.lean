import Mathlib.Data.Multiset.UnionInter
import Xv6Duo.Exec.Model
import Xv6Duo.Kmalloc.Runs

/-!
# The heap of the kernel in `execve`

`sys_execve` copies the strings of its vectors into blocks of `kmalloc`; `execve` has a block for
the name of the interpreter, and `padzero` one for zeros. The results of the other functions, which
decide where the calls end, are given, and so are the pages that `kalloc` hands out at each call.
-/

namespace Xv6Duo
namespace Exec

open GuardedRun
open Kmalloc (World)

/-! ## Data -/

/-- What `fetchaddr` and `fetchstr` return for an entry of a vector. -/
inductive Entry
  /-- `fetchaddr` fails. -/
  | unmapped
  /-- The address is zero. -/
  | last
  /-- `fetchstr` fails. -/
  | badString
  /-- `fetchstr` returns the length of a string. -/
  | string (ret : Fin maxpath)

/-- A program header, with the results of the functions called for it. -/
inductive Header
  /-- `readi` does not return the header. -/
  | unreadable
  /-- `PT_INTERP`: `filesz`, and whether `readi` returns the name. -/
  | interp (filesz : Nat) (readable : Bool)
  /-- `PT_LOAD`: the error of the checks, of `uvmalloc` or of `loadseg`, or 0. -/
  | segment (errno : Int)
  /-- Another type. -/
  | other

/-- What `load_interpreter` does. -/
inductive InterpreterLoad
  /-- It returns before `padzero`. -/
  | refused
  /-- It calls `padzero(bss_start)`, and then fails or returns the entry point. -/
  | padded (bssStart : Nat) (succeeds : Bool)

/-- What `execve` meets. -/
structure Program where
  /-- `namei` finds the path. -/
  resolves : Bool
  /-- The error of the ELF header or of `proc_pagetable`, or 0. -/
  header : Int
  /-- The program headers. -/
  headers : List Header
  /-- The interpreter. -/
  load : InterpreterLoad
  /-- The error of the stack, or 0. -/
  stack : Int

/-- What `sys_execve` meets. -/
structure Request where
  /-- `argstr` returns the path. -/
  path : Bool
  /-- `argv`, if it is not 0 or -1. -/
  argv : Option (Nat → Entry)
  /-- `envp`, if it is not 0 or -1. -/
  envp : Option (Nat → Entry)
  /-- The program. -/
  program : Program

/-- The heap, and the number of calls of `kmalloc`. -/
structure Machine where
  /-- The heap. -/
  world : World
  /-- Calls. -/
  calls : Nat

/-! ## Functions -/

section

variable (base : Nat) (supply : World → Nat → List Nat)

/-- `kmalloc`. -/
def kmalloc (m : Machine) (n : Nat) : Except Fault (Option Nat × Machine) := do
  let (result, _, _) ← Kmalloc.kmalloc base m.world.heap n (supply m.world m.calls)
  let world ← m.world.step base (.kmalloc n (supply m.world m.calls))
  return (result, ⟨world, m.calls + 1⟩)

/-- `kmfree`. -/
def kmfree (m : Machine) (ap : Nat) : Except Fault Machine := do
  let world ← m.world.step base (.kmfree ap)
  return ⟨world, m.calls⟩

/-- `kmfree` of one block after another. -/
def freeAll : List Nat → Machine → Except Fault Machine
  | [], m => .ok m
  | ap :: rest, m => do
      let m ← kmfree base m ap
      freeAll rest m

/-- The loop of `sys_execve` for a vector, from entry `argc` on, with the number of entries up to
the limit: `error` and the blocks. -/
def fetchVector (entries : Nat → Entry) :
    Nat → Nat → Machine → Except Fault (Int × List Nat × Machine)
  | 0, _, m => .ok (-e2big, [], m)
  | room + 1, argc, m =>
      match entries argc with
      | .unmapped => .ok (-efault, [], m)
      | .last => .ok (0, [], m)
      | .badString => .ok (-eio, [], m)
      | .string ret => do
          match ← kmalloc base supply m (ret + 1) with
          | (none, m) => return (-enomem, [], m)
          | (some block, m) => do
              let (error, blocks, m) ← fetchVector entries room (argc + 1) m
              return (error, block :: blocks, m)

/-- A vector of `sys_execve`. -/
def fetch (vector : Option (Nat → Entry)) (m : Machine) : Except Fault (Int × List Nat × Machine) :=
  match vector with
  | some entries => fetchVector base supply entries (maxarg - 1) 0 m
  | none => .ok (0, [], m)

/-- The loop of `execve` over the program headers, with `errno`, `interp` and `has_interp`: whether
it comes to its end, `errno` and `interp`. -/
def readHeaders : List Header → Int → Option Nat → Bool → Machine →
    Except Fault (Bool × Int × Option Nat × Machine)
  | [], errno, interp, _, m => .ok (true, errno, interp, m)
  | .unreadable :: _, _, interp, _, m => .ok (false, -eio, interp, m)
  | .interp filesz readable :: rest, errno, interp, has, m =>
      if has then .ok (false, -einval, interp, m)
      else if Vm.pgsize < filesz then .ok (false, -enametoolong, interp, m)
      else do
        match ← kmalloc base supply m filesz with
        | (none, m) => return (false, -enomem, none, m)
        | (some block, m) =>
            if readable then readHeaders rest errno (some block) true m
            else return (false, -eio, some block, m)
  | .segment e :: rest, _, interp, has, m =>
      if e = 0 then readHeaders rest (-enoexec) interp has m
      else .ok (false, e, interp, m)
  | .other :: rest, errno, interp, has, m => readHeaders rest errno interp has m

/-- `padzero`. -/
def padzero (m : Machine) (elfBss : Nat) : Except Fault Machine :=
  if elfBss % Vm.pgsize = 0 then .ok m
  else do
    match ← kmalloc base supply m (Vm.pgsize - elfBss % Vm.pgsize) with
    | (none, _) => .error .badPointer
    | (some buf, m) => kmfree base m buf

/-- `load_interpreter`: whether it returns an entry point. -/
def loadInterpreter (load : InterpreterLoad) (m : Machine) : Except Fault (Bool × Machine) :=
  match load with
  | .refused => .ok (false, m)
  | .padded bssStart succeeds => do
      let m ← padzero base supply m bssStart
      return (succeeds, m)

/-- The label `bad` of `execve`. -/
def bad (errno : Int) (interp : Option Nat) (m : Machine) : Except Fault (Int × Machine) :=
  match interp with
  | some block => do
      let m ← kmfree base m block
      return (errno, m)
  | none => .ok (errno, m)

/-- The part of `execve` behind the program headers. -/
def finish (program : Program) (argc : Nat) (errno : Int) (interp : Option Nat) (m : Machine) :
    Except Fault (Int × Machine) := do
  let (loaded, m) ← if interp.isSome then loadInterpreter base supply program.load m
    else .ok (true, m)
  if !loaded then bad base errno interp m
  else if program.stack ≠ 0 then bad base program.stack interp m
  else return (argc, m)

/-- `execve`. -/
def execve (program : Program) (argc : Nat) (m : Machine) : Except Fault (Int × Machine) :=
  if !program.resolves then .ok (-enoent, m)
  else if program.header ≠ 0 then bad base program.header none m
  else do
    let (whole, errno, interp, m) ← readHeaders base supply program.headers 0 none false m
    if !whole then bad base errno interp m
    else finish base supply program argc errno interp m

/-- `sys_execve`. -/
def sysExecve (request : Request) (m : Machine) : Except Fault (Int × Machine) :=
  if !request.path then .ok (-einval, m)
  else do
    let (error, argv, m) ← fetch base supply request.argv m
    if error ≠ 0 then
      let m ← freeAll base argv m
      return (error, m)
    let (error, envp, m) ← fetch base supply request.envp m
    if error ≠ 0 then
      let m ← freeAll base argv m
      let m ← freeAll base envp m
      return (error, m)
    let (ret, m) ← execve base supply request.program argv.length m
    let m ← freeAll base argv m
    let m ← freeAll base envp m
    return (ret, m)

end

/-! ## Ownership -/

variable {base : Nat} {supply : World → Nat → List Nat} {m m' : Machine} {w : World} {n ap : Nat}
  {owned others : Multiset Nat}

/-- The static header is aligned, and `kalloc` hands out pages that the heap does not have. -/
structure Supplied (base : Nat) (supply : World → Nat → List Nat) : Prop where
  /-- The header. -/
  aligned : Kmalloc.headerSize ∣ base
  /-- Its address. -/
  below : base < 2 ^ 64
  /-- The pages. -/
  fresh : ∀ w i, ∀ page ∈ supply w i, Kmalloc.Fresh base w page

/-- Permitted calls lead from `w` to a heap with the blocks of `w` and those of `owned`. -/
structure Owns (base : Nat) (w : World) (m : Machine) (owned : Multiset Nat) : Prop where
  /-- The heap. -/
  kept : m.world.Kept base
  /-- The calls. -/
  reached : Reaches (World.Permits base) (World.step base) w m.world
  /-- No block is owned twice. -/
  nodup : owned.Nodup
  /-- The owned blocks are live. -/
  live : ∀ block ∈ owned, block ∈ m.world.live.map Prod.fst
  /-- The other live blocks. -/
  others : m.world.live.filter (fun block => block.1 ∉ owned) = w.live

theorem live_nodup (kept : w.Kept base) : (w.live.map Prod.fst).Nodup := by
  rcases kept with ⟨-, none_live, -⟩ | ⟨nodes, kept⟩
  · rw [none_live]
    exact List.nodup_nil
  · have heads := kept.layout.heads_nodup
    have same : w.live.map Kmalloc.header = (w.live.map Prod.fst).map (· - Kmalloc.headerSize) := by
      rw [List.map_map]
      rfl
    rw [same] at heads
    exact heads.of_map

theorem Owns.refl (kept : m.world.Kept base) : Owns base m.world m 0 where
  kept := kept
  reached := .refl
  nodup := Multiset.nodup_zero
  live block impossible := absurd impossible (Multiset.notMem_zero block)
  others := List.filter_eq_self.mpr fun _ _ => decide_eq_true (Multiset.notMem_zero _)

/-- What a call of `kmalloc` does. -/
theorem kmalloc_cases {result : Option Nat} (run : kmalloc base supply m n = .ok (result, m')) :
    n ≤ 4080 ∧ m.world.step base (.kmalloc n (supply m.world m.calls)) = .ok m'.world ∧
      m'.world.live = (result.map (·, n)).toList ++ m.world.live := by
  rw [kmalloc] at run
  obtain ⟨⟨found, heap, left⟩, call, run⟩ := Except.bind_eq_ok.mp run
  obtain ⟨world, step, run⟩ := Except.bind_eq_ok.mp run
  cases run
  have step' := step
  rw [World.step, call] at step'
  refine ⟨?_, step, ?_⟩
  · refine Nat.le_of_not_lt fun large => ?_
    have too_big : Kmalloc.pgsize - Kmalloc.headerSize < n := large
    rw [Kmalloc.kmalloc, if_pos too_big] at call
    cases call
  · cases result with
    | none =>
        cases step'
        rfl
    | some block =>
        cases step'
        rfl

/-- A step of the allocator inside of a run. -/
theorem Owns.next {result : Option Nat} (owns : Owns base w m owned)
    (supplied : Supplied base supply) (run : kmalloc base supply m n = .ok (result, m')) :
    m'.world.Kept base ∧ Reaches (World.Permits base) (World.step base) w m'.world := by
  obtain ⟨small, step, -⟩ := kmalloc_cases run
  have permits : m.world.Permits base (.kmalloc n (supply m.world m.calls)) :=
    ⟨small, supplied.fresh m.world m.calls⟩
  obtain ⟨world, step', kept, -⟩ := owns.kept.step supplied.aligned supplied.below permits
  cases step.symm.trans step'
  exact ⟨kept, .tail owns.reached permits step⟩

/-- `kmalloc` fails. -/
theorem Owns.failed (owns : Owns base w m owned) (supplied : Supplied base supply)
    (run : kmalloc base supply m n = .ok (none, m')) : Owns base w m' owned := by
  obtain ⟨kept, reached⟩ := owns.next supplied run
  have live : m'.world.live = m.world.live := (kmalloc_cases run).2.2
  exact ⟨kept, reached, owns.nodup, live ▸ owns.live, live ▸ owns.others⟩

/-- `kmalloc` returns a block. -/
theorem Owns.taken (owns : Owns base w m owned) (supplied : Supplied base supply)
    (run : kmalloc base supply m n = .ok (some ap, m')) : Owns base w m' (ap ::ₘ owned) := by
  obtain ⟨kept, reached⟩ := owns.next supplied run
  have live : m'.world.live = (ap, n) :: m.world.live := (kmalloc_cases run).2.2
  have distinct := live_nodup kept
  rw [live, List.map_cons] at distinct
  have fresh : ap ∉ m.world.live.map Prod.fst := (List.nodup_cons.mp distinct).1
  refine ⟨kept, reached, Multiset.nodup_cons.mpr ⟨fun old => fresh (owns.live ap old), owns.nodup⟩,
    ?_, ?_⟩
  · intro block member
    rw [live, List.map_cons]
    rcases Multiset.mem_cons.mp member with rfl | member
    · exact List.mem_cons_self
    · exact List.mem_cons_of_mem _ (owns.live block member)
  · rw [live, List.filter_cons_of_neg (by simp), ← owns.others]
    refine List.filter_congr fun block member => ?_
    have differ : block.1 ≠ ap := by
      rintro rfl
      exact fresh (List.mem_map_of_mem member)
    rw [decide_eq_decide, Multiset.mem_cons, not_or, and_iff_right differ]

/-- `kmfree` of an owned block. -/
theorem Owns.freed (owns : Owns base w m (ap ::ₘ owned)) (supplied : Supplied base supply)
    (run : kmfree base m ap = .ok m') : Owns base w m' owned := by
  have permits : m.world.Permits base (.kmfree ap) := owns.live ap (Multiset.mem_cons_self ap owned)
  obtain ⟨world, step, kept, -⟩ := owns.kept.step supplied.aligned supplied.below permits
  rw [kmfree, step, Except.ok_bind] at run
  cases run
  obtain ⟨fresh, nodup⟩ := Multiset.nodup_cons.mp owns.nodup
  have live : world.live = m.world.live.filter (·.1 ≠ ap) := by
    rw [World.step] at step
    obtain ⟨heap, -, result⟩ := Except.bind_eq_ok.mp step
    cases result
    rfl
  refine ⟨kept, .tail owns.reached permits step, nodup, ?_, ?_⟩
  · intro block member
    obtain ⟨entry, entry_mem, rfl⟩ :=
      List.mem_map.mp (owns.live block (Multiset.mem_cons_of_mem member))
    dsimp only
    rw [live]
    refine List.mem_map_of_mem (List.mem_filter.mpr ⟨entry_mem, decide_eq_true ?_⟩)
    rintro rfl
    exact fresh member
  · dsimp only
    rw [live, List.filter_filter, ← owns.others]
    refine List.filter_congr fun block _ => ?_
    rw [← Bool.decide_and, decide_eq_decide, Multiset.mem_cons, not_or, and_comm]

/-- No block is left, or some. -/
theorem Owns.live_iff (owns : Owns base w m owned) :
    (∀ block, block ∈ m.world.live ↔ block ∈ w.live) ↔ owned = 0 := by
  constructor
  · intro same
    refine Multiset.eq_zero_of_forall_notMem fun ap member => ?_
    obtain ⟨entry, entry_mem, rfl⟩ := List.mem_map.mp (owns.live ap member)
    have old := (same entry).mp entry_mem
    rw [← owns.others, List.mem_filter] at old
    exact of_decide_eq_true old.2 member
  · rintro rfl block
    rw [← owns.others, List.mem_filter]
    exact ⟨fun member => ⟨member, decide_eq_true (Multiset.notMem_zero _)⟩, And.left⟩

theorem Owns.freeAll {blocks : List Nat} (owns : Owns base w m (↑blocks + owned))
    (supplied : Supplied base supply) (run : freeAll base blocks m = .ok m') :
    Owns base w m' owned := by
  induction blocks generalizing m with
  | nil =>
      cases run
      rwa [Multiset.coe_nil, zero_add] at owns
  | cons block rest ih =>
      rw [← Multiset.cons_coe, Multiset.cons_add] at owns
      obtain ⟨m₁, first, run⟩ := Except.bind_eq_ok.mp run
      exact ih (owns.freed supplied first) run

/-! ## Vectors -/

/-- Each of the calls of `kmalloc` returns a block. -/
def Served (base : Nat) (supply : World → Nat → List Nat) : Machine → List Nat → Machine → Prop
  | m, [], m' => m' = m
  | m, n :: rest, m' =>
      ∃ ap m₁, kmalloc base supply m n = .ok (some ap, m₁) ∧ Served base supply m₁ rest m'

theorem served_append {first second : List Nat} : Served base supply m (first ++ second) m' ↔
    ∃ m₁, Served base supply m first m₁ ∧ Served base supply m₁ second m' := by
  induction first generalizing m with
  | nil =>
      constructor
      · exact fun served => ⟨m, rfl, served⟩
      · rintro ⟨m₁, rfl, served⟩
        exact served
  | cons n rest ih =>
      constructor
      · rintro ⟨ap, m₁, call, served⟩
        obtain ⟨m₂, before, after⟩ := ih.mp served
        exact ⟨m₂, ⟨ap, m₁, call, before⟩, after⟩
      · rintro ⟨m₂, ⟨ap, m₁, call, before⟩, after⟩
        exact ⟨ap, m₁, call, ih.mpr ⟨m₂, before, after⟩⟩

theorem Served.unique {sizes : List Nat} {m₁ m₂ : Machine} (first : Served base supply m sizes m₁)
    (second : Served base supply m sizes m₂) : m₁ = m₂ := by
  induction sizes generalizing m with
  | nil => exact first.trans second.symm
  | cons n rest ih =>
      obtain ⟨ap, l, call, first⟩ := first
      obtain ⟨ap', l', call', second⟩ := second
      cases call.symm.trans call'
      exact ih first second

/-- The entries from `argc` on are strings with these lengths. -/
def Strings (entries : Nat → Entry) : Nat → List (Fin maxpath) → Prop
  | argc, [] => entries argc = .last
  | argc, ret :: rest => entries argc = .string ret ∧ Strings entries (argc + 1) rest

theorem Strings.unique {entries : Nat → Entry} {argc : Nat} {first second : List (Fin maxpath)}
    (left : Strings entries argc first) (right : Strings entries argc second) : first = second := by
  induction first generalizing argc second with
  | nil =>
      cases second with
      | nil => rfl
      | cons ret rest => cases left.symm.trans right.1
  | cons ret rest ih =>
      cases second with
      | nil => cases left.1.symm.trans right
      | cons ret' rest' =>
          cases left.1.symm.trans right.1
          rw [ih left.2 right.2]

/-- The requests for the copies of strings. -/
def sizes (lengths : List (Fin maxpath)) : List Nat := lengths.map fun ret => ret + 1

/-- The loop of `sys_execve` for a vector. -/
theorem fetchVector_spec {entries : Nat → Entry} {room argc : Nat} {error : Int} {blocks : List Nat}
    (owns : Owns base w m owned) (supplied : Supplied base supply)
    (run : fetchVector base supply entries room argc m = .ok (error, blocks, m')) :
    Owns base w m' (↑blocks + owned) ∧
      (error = 0 → ∃ lengths, lengths.length < room ∧ Strings entries argc lengths ∧
        Served base supply m (sizes lengths) m') ∧
      (error ≠ 0 → ∀ lengths, lengths.length < room → Strings entries argc lengths →
        ∀ m₁, ¬Served base supply m (sizes lengths) m₁) := by
  induction room generalizing argc m owned error blocks with
  | zero =>
      cases run
      refine ⟨by rwa [Multiset.coe_nil, zero_add], fun impossible =>
        absurd impossible (by decide), ?_⟩
      exact fun _ lengths impossible => absurd impossible (Nat.not_lt_zero _)
  | succ room ih =>
      -- An entry that is not a string or the last one ends every list of strings.
      have stops (other : ∀ ret, entries argc ≠ .string ret) (open_end : entries argc ≠ .last)
          (lengths : List (Fin maxpath)) : ¬Strings entries argc lengths := by
        intro strings
        cases lengths with
        | nil => exact open_end strings
        | cons ret rest => exact other ret strings.1
      rw [fetchVector] at run
      split at run
      · next at_argc =>
          cases run
          refine ⟨by rwa [Multiset.coe_nil, zero_add], fun impossible =>
            absurd impossible (by decide), ?_⟩
          intro _ lengths _ strings
          exact absurd strings (stops (by simp [at_argc]) (by simp [at_argc]) lengths)
      · next at_argc =>
          cases run
          refine ⟨by rwa [Multiset.coe_nil, zero_add], ?_, fun impossible => absurd rfl impossible⟩
          exact fun _ => ⟨[], Nat.succ_pos room, at_argc, rfl⟩
      · next at_argc =>
          cases run
          refine ⟨by rwa [Multiset.coe_nil, zero_add], fun impossible =>
            absurd impossible (by decide), ?_⟩
          intro _ lengths _ strings
          exact absurd strings (stops (by simp [at_argc]) (by simp [at_argc]) lengths)
      · next ret at_argc =>
          have first {lengths : List (Fin maxpath)} (strings : Strings entries argc lengths) :
              ∃ rest, lengths = ret :: rest ∧ Strings entries (argc + 1) rest := by
            cases lengths with
            | nil => cases at_argc.symm.trans strings
            | cons ret' rest =>
                cases at_argc.symm.trans strings.1
                exact ⟨rest, rfl, strings.2⟩
          obtain ⟨⟨result, m₁⟩, call, run⟩ := Except.bind_eq_ok.mp run
          cases result with
          | none =>
              cases run
              refine ⟨?_, fun impossible => absurd impossible (by decide), ?_⟩
              · rw [Multiset.coe_nil, zero_add]
                exact owns.failed supplied call
              · intro _ lengths _ strings m₂ served
                obtain ⟨rest, rfl, -⟩ := first strings
                obtain ⟨ap, l, call', -⟩ := served
                cases call.symm.trans call'
          | some block =>
              obtain ⟨⟨error', blocks', m₂⟩, others, run⟩ := Except.bind_eq_ok.mp run
              cases run
              obtain ⟨owns', succeeds, fails⟩ := ih (owns.taken supplied call) others
              refine ⟨?_, ?_, ?_⟩
              · rwa [← Multiset.cons_coe, Multiset.cons_add, ← Multiset.add_cons]
              · intro no_error
                obtain ⟨rest, few, strings, served⟩ := succeeds no_error
                exact ⟨ret :: rest, Nat.succ_lt_succ few, ⟨at_argc, strings⟩, block, m₁,
                  call, served⟩
              · intro some_error lengths few strings m₃ served
                obtain ⟨rest, rfl, later⟩ := first strings
                obtain ⟨ap, l, call', served⟩ := served
                cases call.symm.trans call'
                exact fails some_error rest (Nat.lt_of_succ_lt_succ few) later m₃ served

/-- A vector is accepted with strings of these lengths. -/
def Accepts (vector : Option (Nat → Entry)) (lengths : List (Fin maxpath)) : Prop :=
  match vector with
  | some entries => lengths.length < maxarg - 1 ∧ Strings entries 0 lengths
  | none => lengths = []

theorem Accepts.unique {vector : Option (Nat → Entry)} {first second : List (Fin maxpath)}
    (left : Accepts vector first) (right : Accepts vector second) : first = second := by
  cases vector with
  | none => exact left.trans right.symm
  | some entries => exact left.2.unique right.2

/-- A vector of `sys_execve`. -/
theorem fetch_spec {vector : Option (Nat → Entry)} {error : Int} {blocks : List Nat}
    (owns : Owns base w m owned) (supplied : Supplied base supply)
    (run : fetch base supply vector m = .ok (error, blocks, m')) :
    Owns base w m' (↑blocks + owned) ∧
      (error = 0 → ∃ lengths, Accepts vector lengths ∧ Served base supply m (sizes lengths) m') ∧
      (error ≠ 0 → ∀ lengths, Accepts vector lengths →
        ∀ m₁, ¬Served base supply m (sizes lengths) m₁) := by
  cases vector with
  | none =>
      cases run
      refine ⟨by rwa [Multiset.coe_nil, zero_add], fun _ => ⟨[], rfl, rfl⟩, ?_⟩
      exact fun impossible => absurd rfl impossible
  | some entries =>
      obtain ⟨owns', succeeds, fails⟩ := fetchVector_spec owns supplied run
      refine ⟨owns', fun no_error => ?_, fun some_error lengths accepts => ?_⟩
      · obtain ⟨lengths, few, strings, served⟩ := succeeds no_error
        exact ⟨lengths, ⟨few, strings⟩, served⟩
      · exact fails some_error lengths accepts.1 accepts.2

/-! ## Headers -/

/-- A header that does not end the loop, if it is the only one of an interpreter. -/
def Fine : Header → Prop
  | .unreadable => False
  | .interp filesz readable => filesz ≤ Vm.pgsize ∧ readable = true
  | .segment errno => errno = 0
  | .other => True

/-- `filesz` of the headers for interpreters. -/
def interpSizes (headers : List Header) : List Nat :=
  headers.filterMap fun header =>
    match header with
    | .interp filesz _ => some filesz
    | _ => none

/-- The headers behind that of an interpreter. -/
theorem readHeaders_after {headers : List Header} {errno errno' : Int} {block : Nat}
    {interp : Option Nat} {whole : Bool}
    (run : readHeaders base supply headers errno (some block) true m =
      .ok (whole, errno', interp, m')) :
    m' = m ∧ interp = some block ∧
      (whole = true ↔ (∀ header ∈ headers, Fine header) ∧ interpSizes headers = []) := by
  induction headers generalizing errno with
  | nil =>
      cases run
      exact ⟨rfl, rfl, fun _ => ⟨fun _ impossible => absurd impossible List.not_mem_nil, rfl⟩,
        fun _ => rfl⟩
  | cons header rest ih =>
      have skip (fine : Fine header) (none_here : interpSizes (header :: rest) = interpSizes rest) :
          (∀ h ∈ header :: rest, Fine h) ∧ interpSizes (header :: rest) = [] ↔
            (∀ h ∈ rest, Fine h) ∧ interpSizes rest = [] := by
        rw [none_here, List.forall_mem_cons, and_iff_right fine]
      cases header with
      | unreadable =>
          cases run
          refine ⟨rfl, rfl, fun impossible => absurd impossible (by decide), ?_⟩
          exact fun both => absurd (both.1 _ List.mem_cons_self) id
      | interp filesz readable =>
          cases run
          refine ⟨rfl, rfl, fun impossible => absurd impossible (by decide), ?_⟩
          exact fun both => absurd both.2 (List.cons_ne_nil _ _)
      | segment e =>
          rw [readHeaders] at run
          split at run
          · next loaded =>
              rw [skip loaded rfl]
              exact ih run
          · next failed =>
              cases run
              refine ⟨rfl, rfl, fun impossible => absurd impossible (by decide), ?_⟩
              exact fun both => absurd (both.1 _ List.mem_cons_self) failed
      | other =>
          rw [skip trivial rfl]
          exact ih run

/-- What the loop over the headers needs to come to its end with the name of an interpreter. -/
def Names (base : Nat) (supply : World → Nat → List Nat) (headers : List Header) (m : Machine)
    (block : Nat) (m' : Machine) : Prop :=
  (∀ header ∈ headers, Fine header) ∧
    ∃ filesz, interpSizes headers = [filesz] ∧ kmalloc base supply m filesz = .ok (some block, m')

/-- The loop over the headers. -/
theorem readHeaders_spec {headers : List Header} {errno errno' : Int} {interp : Option Nat}
    {whole : Bool} (owns : Owns base w m owned) (supplied : Supplied base supply)
    (run : readHeaders base supply headers errno none false m = .ok (whole, errno', interp, m')) :
    Owns base w m' (↑interp.toList + owned) ∧
      (whole = true → ∀ block, interp = some block → Names base supply headers m block m') ∧
      (whole = true ∧ interp ≠ none ∨ ∀ block m₁, ¬Names base supply headers m block m₁) := by
  induction headers generalizing errno with
  | nil =>
      cases run
      refine ⟨by rwa [Option.toList_none, Multiset.coe_nil, zero_add],
        fun _ _ impossible => absurd impossible (by simp), Or.inr ?_⟩
      rintro block m₁ ⟨-, filesz, sizes, -⟩
      cases sizes
  | cons header rest ih =>
      have no_block : Owns base w m (↑(none : Option Nat).toList + owned) := by
        rwa [Option.toList_none, Multiset.coe_nil, zero_add]
      have skip (fine : Fine header) (none_here : interpSizes (header :: rest) = interpSizes rest)
          (block : Nat) (m₁ : Machine) : Names base supply (header :: rest) m block m₁ ↔
            Names base supply rest m block m₁ := by
        rw [Names, Names, none_here, List.forall_mem_cons, and_iff_right fine]
      have ends (bad : ¬Fine header) (block : Nat) (m₁ : Machine) :
          ¬Names base supply (header :: rest) m block m₁ :=
        fun names => bad (names.1 header List.mem_cons_self)
      cases header with
      | unreadable =>
          cases run
          exact ⟨no_block, fun impossible => absurd impossible (by decide), Or.inr (ends id)⟩
      | interp filesz readable =>
          rw [readHeaders, if_neg Bool.false_ne_true] at run
          split at run
          · next long =>
              cases run
              refine ⟨no_block, fun impossible => absurd impossible (by decide), Or.inr (ends ?_)⟩
              exact fun fine => absurd fine.1 (Nat.not_le_of_lt long)
          · next short =>
              obtain ⟨⟨result, m₁⟩, call, run⟩ := Except.bind_eq_ok.mp run
              cases result with
              | none =>
                  cases run
                  refine ⟨?_, fun impossible => absurd impossible (by decide), Or.inr ?_⟩
                  · rw [Option.toList_none, Multiset.coe_nil, zero_add]
                    exact owns.failed supplied call
                  · rintro block m₂ ⟨-, size, one, call'⟩
                    obtain ⟨rfl, -⟩ := List.cons.inj one
                    cases call.symm.trans call'
              | some block =>
                  have taken : Owns base w m₁ (↑(some block).toList + owned) :=
                    owns.taken supplied call
                  dsimp only at run
                  split at run
                  · next named =>
                      obtain ⟨rfl, rfl, last⟩ := readHeaders_after run
                      have fine : Fine (.interp filesz readable) := ⟨Nat.le_of_not_lt short, named⟩
                      refine ⟨taken, fun through block' same => ?_, ?_⟩
                      · cases same
                        obtain ⟨others_fine, no_other⟩ := last.mp through
                        refine ⟨List.forall_mem_cons.mpr ⟨fine, others_fine⟩, filesz, ?_, call⟩
                        exact congrArg (filesz :: ·) no_other
                      · cases whole with
                        | true => exact Or.inl ⟨rfl, by simp⟩
                        | false =>
                            refine Or.inr ?_
                            rintro block' m₂ ⟨all_fine, size, one, -⟩
                            have no_other : interpSizes rest = [] := (List.cons.inj one).2
                            exact absurd (last.mpr ⟨(List.forall_mem_cons.mp all_fine).2, no_other⟩)
                              (by decide)
                  · next unnamed =>
                      cases run
                      refine ⟨taken, fun impossible => absurd impossible (by decide),
                        Or.inr (ends ?_)⟩
                      exact fun fine => absurd fine.2 unnamed
      | segment e =>
          rw [readHeaders] at run
          split at run
          · next loaded =>
              simp only [skip loaded rfl]
              exact ih run
          · next failed =>
              cases run
              exact ⟨no_block, fun impossible => absurd impossible (by decide),
                Or.inr (ends failed)⟩
      | other =>
          simp only [skip trivial rfl]
          exact ih run

/-! ## `execve` -/

theorem padzero_owns {elfBss : Nat} (owns : Owns base w m owned) (supplied : Supplied base supply)
    (run : padzero base supply m elfBss = .ok m') : Owns base w m' owned := by
  rw [padzero] at run
  split at run
  · cases run
    exact owns
  · obtain ⟨⟨result, m₁⟩, call, run⟩ := Except.bind_eq_ok.mp run
    cases result with
    | none => cases run
    | some buf => exact (owns.taken supplied call).freed supplied run

/-- `load_interpreter` returns an entry point. -/
def InterpreterLoad.loads : InterpreterLoad → Bool
  | .refused => false
  | .padded _ succeeds => succeeds

theorem loadInterpreter_owns {load : InterpreterLoad} {loaded : Bool} (owns : Owns base w m owned)
    (supplied : Supplied base supply)
    (run : loadInterpreter base supply load m = .ok (loaded, m')) :
    Owns base w m' owned ∧ loaded = load.loads := by
  cases load with
  | refused =>
      cases run
      exact ⟨owns, rfl⟩
  | padded bssStart succeeds =>
      obtain ⟨m₁, pads, run⟩ := Except.bind_eq_ok.mp run
      cases run
      exact ⟨padzero_owns owns supplied pads, rfl⟩

theorem bad_owns {errno ret : Int} {interp : Option Nat}
    (owns : Owns base w m (↑interp.toList + owned)) (supplied : Supplied base supply)
    (run : bad base errno interp m = .ok (ret, m')) : Owns base w m' owned := by
  cases interp with
  | none =>
      cases run
      rwa [Option.toList_none, Multiset.coe_nil, zero_add] at owns
  | some block =>
      obtain ⟨m₁, frees, run⟩ := Except.bind_eq_ok.mp run
      cases run
      exact Owns.freed owns supplied frees

/-- The part behind the headers keeps the name of an interpreter if the program runs. -/
theorem finish_spec {program : Program} {argc : Nat} {errno ret : Int} {interp : Option Nat}
    (owns : Owns base w m (↑interp.toList + owned)) (supplied : Supplied base supply)
    (run : finish base supply program argc errno interp m = .ok (ret, m')) :
    (∃ block, interp = some block ∧ program.load.loads = true ∧ program.stack = 0 ∧
        Owns base w m' (block ::ₘ owned)) ∨
      Owns base w m' owned ∧
        ¬(interp ≠ none ∧ program.load.loads = true ∧ program.stack = 0) := by
  cases interp with
  | none =>
      rw [finish, Option.isSome_none, if_neg Bool.false_ne_true, Except.ok_bind] at run
      refine Or.inr ⟨?_, fun both => both.1 rfl⟩
      dsimp only at run
      rw [if_neg (by decide)] at run
      split at run
      · exact bad_owns owns supplied run
      · cases run
        rwa [Option.toList_none, Multiset.coe_nil, zero_add] at owns
  | some block =>
      rw [finish, Option.isSome_some, if_pos rfl] at run
      obtain ⟨⟨loaded, m₁⟩, loads, run⟩ := Except.bind_eq_ok.mp run
      obtain ⟨owns₁, loaded_eq⟩ := loadInterpreter_owns owns supplied loads
      dsimp only at run
      split at run
      · next fails =>
          refine Or.inr ⟨bad_owns owns₁ supplied run, fun both => ?_⟩
          rw [loaded_eq, both.2.1] at fails
          exact absurd fails (by decide)
      · next succeeds =>
          have loaded_true : loaded = true := by simpa using succeeds
          split at run
          · next no_stack =>
              exact Or.inr ⟨bad_owns owns₁ supplied run, fun both => no_stack both.2.2⟩
          · next stack =>
              cases run
              exact Or.inl ⟨block, rfl, loaded_eq.symm.trans loaded_true, not_not.mp stack, owns₁⟩

/-- A program with an interpreter comes to run. -/
def RunsDynamic (base : Nat) (supply : World → Nat → List Nat) (program : Program) (m : Machine) :
    Prop :=
  program.resolves = true ∧ program.header = 0 ∧
    (∃ block m₁, Names base supply program.headers m block m₁) ∧ program.load.loads = true ∧
    program.stack = 0

/-- `execve`. -/
theorem execve_spec {program : Program} {argc : Nat} {ret : Int} (owns : Owns base w m owned)
    (supplied : Supplied base supply) (run : execve base supply program argc m = .ok (ret, m')) :
    (RunsDynamic base supply program m ∧ ∃ block, Owns base w m' (block ::ₘ owned)) ∨
      ¬RunsDynamic base supply program m ∧ Owns base w m' owned := by
  have nothing : Owns base w m (↑(none : Option Nat).toList + owned) := by
    rwa [Option.toList_none, Multiset.coe_nil, zero_add]
  rw [execve] at run
  split at run
  · next missing =>
      cases run
      refine Or.inr ⟨fun runs => ?_, owns⟩
      rw [runs.1] at missing
      exact absurd missing (by decide)
  · next found =>
      split at run
      · next no_header =>
          exact Or.inr ⟨fun runs => no_header runs.2.1, bad_owns nothing supplied run⟩
      · next header =>
          obtain ⟨⟨whole, errno, interp, m₁⟩, headers, run⟩ := Except.bind_eq_ok.mp run
          obtain ⟨owns₁, names, outcome⟩ := readHeaders_spec owns supplied headers
          dsimp only at run
          split at run
          · next stops =>
              refine Or.inr ⟨fun runs => ?_, bad_owns owns₁ supplied run⟩
              obtain ⟨block, m₂, named⟩ := runs.2.2.1
              rcases outcome with ⟨through, -⟩ | never
              · rw [through] at stops
                exact absurd stops (by decide)
              · exact never block m₂ named
          · next through =>
              have whole_true : whole = true := by simpa using through
              rcases finish_spec owns₁ supplied run with
                ⟨block, rfl, loads, stack, owns'⟩ | ⟨owns', fails⟩
              · have resolves : program.resolves = true := by simpa using found
                exact Or.inl
                  ⟨⟨resolves, not_not.mp header, ⟨block, m₁, names whole_true block rfl⟩, loads,
                  stack⟩, block, owns'⟩
              · refine Or.inr ⟨fun runs => ?_, owns'⟩
                obtain ⟨block, m₂, named⟩ := runs.2.2.1
                rcases outcome with ⟨-, some_name⟩ | never
                · exact fails ⟨some_name, runs.2.2.2⟩
                · exact never block m₂ named

/-! ## `sys_execve` -/

/-- The vectors are copied, and then a program with an interpreter comes to run. -/
def KeepsName (base : Nat) (supply : World → Nat → List Nat) (request : Request)
    (m : Machine) : Prop :=
  request.path = true ∧ ∃ argv envp m₁, Accepts request.argv argv ∧ Accepts request.envp envp ∧
    Served base supply m (sizes argv ++ sizes envp) m₁ ∧
    RunsDynamic base supply request.program m₁

/-- A block is left exactly when a program with an interpreter comes to run. -/
theorem sysExecve_spec {request : Request} {ret : Int} (kept : m.world.Kept base)
    (supplied : Supplied base supply) (run : sysExecve base supply request m = .ok (ret, m')) :
    (KeepsName base supply request m ∧ ∃ block, Owns base m.world m' {block}) ∨
      ¬KeepsName base supply request m ∧ Owns base m.world m' 0 := by
  have start := Owns.refl kept
  rw [sysExecve] at run
  split at run
  · next no_path =>
      cases run
      refine Or.inr ⟨fun keeps => ?_, start⟩
      rw [keeps.1] at no_path
      exact absurd no_path (by decide)
  · next path =>
      obtain ⟨⟨error, argv, m₁⟩, fetches, run⟩ := Except.bind_eq_ok.mp run
      obtain ⟨owns₁, succeeds, fails⟩ := fetch_spec start supplied fetches
      dsimp only at run
      split at run
      · next some_error =>
          obtain ⟨m₂, frees, run⟩ := Except.bind_eq_ok.mp run
          cases run
          refine Or.inr ⟨?_, owns₁.freeAll supplied frees⟩
          rintro ⟨-, lengths, lengths', m₃, accepts, -, served, -⟩
          obtain ⟨m₄, served, -⟩ := served_append.mp served
          exact fails some_error lengths accepts m₄ served
      · next no_error =>
          obtain ⟨lengths, accepts, served⟩ := succeeds (not_not.mp no_error)
          have same {lengths' : List (Fin maxpath)} {m₂ : Machine} {more : List Nat}
              (accepts' : Accepts request.argv lengths')
              (served' : Served base supply m (sizes lengths' ++ more) m₂) :
              Served base supply m₁ more m₂ := by
            obtain ⟨m₃, first, second⟩ := served_append.mp served'
            rw [accepts'.unique accepts] at first
            rwa [first.unique served] at second
          obtain ⟨⟨error', envp, m₂⟩, fetches', run⟩ := Except.bind_eq_ok.mp run
          obtain ⟨owns₂, succeeds', fails'⟩ := fetch_spec owns₁ supplied fetches'
          have owns₂ : Owns base m.world m₂ (↑argv + (↑envp + 0)) := by
            rwa [← add_assoc, add_comm (argv : Multiset Nat), add_assoc]
          dsimp only at run
          split at run
          · next some_error =>
              obtain ⟨m₃, frees, run⟩ := Except.bind_eq_ok.mp run
              obtain ⟨m₄, frees', run⟩ := Except.bind_eq_ok.mp run
              cases run
              refine Or.inr ⟨?_, (owns₂.freeAll supplied frees).freeAll supplied frees'⟩
              rintro ⟨-, lengths₁, lengths₂, m₅, accepts₁, accepts₂, served', -⟩
              exact fails' some_error lengths₂ accepts₂ m₅ (same accepts₁ served')
          · next no_error' =>
              obtain ⟨lengths', accepts', served'⟩ := succeeds' (not_not.mp no_error')
              obtain ⟨⟨ret', m₃⟩, runs, run⟩ := Except.bind_eq_ok.mp run
              obtain ⟨m₄, frees, run⟩ := Except.bind_eq_ok.mp run
              obtain ⟨m₅, frees', run⟩ := Except.bind_eq_ok.mp run
              cases run
              rcases execve_spec owns₂ supplied runs with ⟨dynamic, block, owns₃⟩ | ⟨other, owns₃⟩
              · refine Or.inl ⟨⟨by simpa using path, lengths, lengths', m₂, accepts, accepts',
                  served_append.mpr ⟨m₁, served, served'⟩, dynamic⟩, block, ?_⟩
                rw [← Multiset.add_cons, ← Multiset.add_cons] at owns₃
                exact (owns₃.freeAll supplied frees).freeAll supplied frees'
              · refine Or.inr ⟨?_, (owns₃.freeAll supplied frees).freeAll supplied frees'⟩
                rintro ⟨-, lengths₁, lengths₂, m₆, accepts₁, accepts₂, served₂, dynamic⟩
                have served₃ := same accepts₁ served₂
                rw [accepts₂.unique accepts'] at served₃
                rw [served₃.unique served'] at dynamic
                exact other dynamic

/-- `sys_execve` frees each block once and leaves no block behind exactly when no program with an
interpreter comes to run. -/
theorem execve_frees_iff {request : Request} {ret : Int} (kept : m.world.Kept base)
    (supplied : Supplied base supply) (run : sysExecve base supply request m = .ok (ret, m')) :
    (Reaches (World.Permits base) (World.step base) m.world m'.world ∧
        ∀ block, block ∈ m'.world.live ↔ block ∈ m.world.live) ↔
      ¬KeepsName base supply request m := by
  rcases sysExecve_spec kept supplied run with ⟨keeps, block, owns⟩ | ⟨not_keeps, owns⟩
  · refine ⟨fun both => ?_, fun impossible => absurd keeps impossible⟩
    exact absurd (owns.live_iff.mp both.2) (Multiset.singleton_ne_zero block)
  · exact ⟨fun _ => not_keeps, fun _ => ⟨owns.reached, owns.live_iff.mpr rfl⟩⟩

/-- `kalloc` has one page. -/
def onePage (w : World) (_ : Nat) : List Nat := if 0x10000 ∈ w.pages then [] else [0x10000]

theorem onePage_supplied : Supplied 0x8000 onePage where
  aligned := by decide
  below := by decide
  fresh w i page member := by
    rw [onePage] at member
    split at member
    · cases member
    · next unused =>
        rw [List.mem_singleton.mp member]
        exact ⟨⟨by decide, by decide, by decide, by decide⟩, unused⟩

/-- The heap before the first call. -/
def noBlocks : Machine := ⟨World.initial (fun _ => 0) fun _ => 0, 0⟩

theorem noBlocks_kept : noBlocks.world.Kept 0x8000 := Or.inl ⟨rfl, rfl, rfl⟩

/-- A call with one argument for a program with the given headers, which runs. -/
def oneArgument (headers : List Header) : Request :=
  ⟨true, some fun argc => if argc = 0 then .string ⟨2, by decide⟩ else .last, none,
    ⟨true, 0, headers, .padded 0x3f00 true, 0⟩⟩

/-- A program without an interpreter leaves no block behind. -/
theorem execve_frees_static : ∃ ret m',
    sysExecve 0x8000 onePage (oneArgument [.segment 0, .other]) noBlocks = .ok (ret, m') ∧ ret = 1 ∧
      ∀ block, block ∈ m'.world.live ↔ block ∈ noBlocks.world.live := by
  have succeeds :
    (sysExecve 0x8000 onePage (oneArgument [.segment 0, .other]) noBlocks).toOption.any
      (fun result => decide (result.1 = 1)) = true := by
    decide +kernel
  obtain ⟨⟨ret, m'⟩, run, test⟩ := Except.exists_of_any succeeds
  have static : ¬KeepsName 0x8000 onePage (oneArgument [.segment 0, .other]) noBlocks := by
    rintro ⟨-, -, -, m₁, -, -, -, -, -, ⟨block, m₂, -, filesz, one, -⟩, -⟩
    cases one
  exact ⟨ret, m', run, of_decide_eq_true test,
    ((execve_frees_iff noBlocks_kept onePage_supplied run).mpr static).2⟩

/-- The name of the interpreter is left behind. -/
theorem execve_leaves_name : ∃ ret m',
    sysExecve 0x8000 onePage (oneArgument [.interp 20 true, .segment 0]) noBlocks = .ok (ret, m') ∧
      ret = 1 ∧ noBlocks.world.live = [] ∧ m'.world.live.map Prod.snd = [20] := by
  have leaves : (sysExecve 0x8000 onePage (oneArgument [.interp 20 true, .segment 0])
      noBlocks).toOption.any (fun result =>
        decide (result.1 = 1 ∧ result.2.world.live.map Prod.snd = [20])) = true := by
    decide +kernel
  obtain ⟨⟨ret, m'⟩, run, test⟩ := Except.exists_of_any leaves
  obtain ⟨ret_eq, live⟩ := of_decide_eq_true test
  exact ⟨ret, m', run, ret_eq, rfl, live⟩

end Exec
end Xv6Duo
