import Xv6Duo.Exec.Model
import Xv6Duo.Library.Longs

/-!
# The initial stack

`execve` pushes the strings of a program and then, below them, the words that its start code reads
upwards. All of it is on the top page of the stack, so that each `copyout` is a store to that page.
-/

namespace Xv6Duo
namespace Exec

open Vm Mmap Mapping ByteBlock

/-! ## Data -/

/-- `AT_NULL`. -/
def atNull : UInt64 := 0

/-- `AT_PHDR`. -/
def atPhdr : UInt64 := 3

/-- `AT_PHENT`. -/
def atPhent : UInt64 := 4

/-- `AT_PHNUM`. -/
def atPhnum : UInt64 := 5

/-- `AT_PAGESZ`. -/
def atPagesz : UInt64 := 6

/-- `AT_BASE`. -/
def atBase : UInt64 := 7

/-- `AT_FLAGS`. -/
def atFlags : UInt64 := 8

/-- `AT_ENTRY`. -/
def atEntry : UInt64 := 9

/-- `AT_UID`. -/
def atUid : UInt64 := 11

/-- `AT_EUID`. -/
def atEuid : UInt64 := 12

/-- `AT_GID`. -/
def atGid : UInt64 := 13

/-- `AT_EGID`. -/
def atEgid : UInt64 := 14

/-- `AT_PLATFORM`. -/
def atPlatform : UInt64 := 15

/-- `AT_HWCAP`. -/
def atHwcap : UInt64 := 16

/-- `AT_CLKTCK`. -/
def atClktck : UInt64 := 17

/-- `ELF_HWCAP`. -/
def elfHwcap : UInt64 := 0x20112d

/-- `ELF_PLATFORM`: "riscv". -/
def elfPlatform : CString := ⟨[114, 105, 115, 99, 118], by decide⟩

/-- The fields of the `struct elfhdr` that `execve` uses behind the segments, and `interp_base` and
`interp_entry` if there is an interpreter. -/
structure Image where
  /-- `elf.phoff`. -/
  phoff : UInt64
  /-- `elf.phnum`. -/
  phnum : UInt16
  /-- `elf.entry`. -/
  entry : UInt64
  /-- The interpreter. -/
  interp : Option (UInt64 × UInt64)

/-- The owner of the process. -/
structure Owner where
  /-- `p->uid`. -/
  uid : UInt32
  /-- `p->euid`. -/
  euid : UInt32
  /-- `p->gid`. -/
  gid : UInt32
  /-- `p->egid`. -/
  egid : UInt32

/-- The fields of the trap frame that `execve` sets. -/
structure Trapframe where
  /-- `epc`. -/
  epc : UInt64
  /-- `sp`. -/
  sp : Nat

/-- How `execve` ends. -/
inductive Outcome
  /-- At the label `bad`. -/
  | bad (errno : Int) (k : Kernel)
  /-- The program runs. -/
  | done (argc : Nat) (trapframe : Trapframe) (k : Kernel)

/-! ## The stack -/

/-- `sp -= n; sp -= sp % 16`. -/
def lowered (sp n : Nat) : Nat :=
  (sp + 2 ^ 64 - n) % 2 ^ 64 - (sp + 2 ^ 64 - n) % 2 ^ 64 % 16

/-- The push of `ELF_PLATFORM`, for a program with an interpreter: the result of `copyout`,
`platform` and `sp`. -/
def pushPlatform (k : Kernel) (pagetable sp : Nat) (interp : Bool) :
    Except Fault (Int × Nat × Nat × Kernel) :=
  if interp then do
    let sp := lowered sp (elfPlatform.strlen + 1)
    let (r, k) ← copyout k pagetable sp elfPlatform.bytes (elfPlatform.strlen + 1)
    return (r, sp, sp, k)
  else .ok (0, 0, sp, k)

/-- The loop that pushes strings: `errno`, their addresses and `sp`. -/
def pushStrings (pagetable : Nat) :
    List CString → Kernel → Nat → Except Fault (Int × List Nat × Nat × Kernel)
  | [], k, sp => .ok (0, [], sp, k)
  | s :: rest, k, sp => do
      let sp := lowered sp (s.strlen + 1)
      let (r, k) ← copyout k pagetable sp s.bytes (s.strlen + 1)
      if r < 0 then return (-eio, [], sp, k)
      let (errno, stack, low, k) ← pushStrings pagetable rest k sp
      return (errno, sp :: stack, low, k)

/-- `ustack` and `estack`: addresses and a zero. -/
def vector (stack : List Nat) : List UInt64 := stack.map UInt64.ofNat ++ [0]

/-- `auxv_dyn` or `auxv_sta`. -/
def auxv (image : Image) (owner : Owner) (platform : Nat) : List (UInt64 × UInt64) :=
  match image.interp with
  | some (base, _) =>
      [(atPhdr, image.phoff), (atPhent, 56), (atPhnum, image.phnum.toUInt64), (atPagesz, 4096),
        (atBase, base), (atFlags, 0), (atEntry, image.entry), (atUid, owner.uid.toUInt64),
        (atEuid, owner.euid.toUInt64), (atGid, owner.gid.toUInt64), (atEgid, owner.egid.toUInt64),
        (atPlatform, UInt64.ofNat platform), (atHwcap, elfHwcap), (atClktck, 100), (atNull, 0)]
  | none => [(atPagesz, 4096), (atNull, 0)]

/-- The words of pairs. -/
def flatten (pairs : List (UInt64 × UInt64)) : List UInt64 :=
  pairs.flatMap fun pair => [pair.1, pair.2]

/-- The four calls of `copyout` for the words. -/
def pushWords (k : Kernel) (pagetable sp argc envc : Nat) (ustack estack aux : List UInt64) :
    Except Fault (Int × Kernel) := do
  let (r, k) ← copyout k pagetable sp (ofLongs [UInt64.ofNat argc]) 8
  if r < 0 then return (-eio, k)
  let (r, k) ← copyout k pagetable ((sp + 8) % 2 ^ 64) (ofLongs ustack) ((argc + 1) * 8)
  if r < 0 then return (-eio, k)
  let (r, k) ← copyout k pagetable ((sp + (argc + 2) * 8) % 2 ^ 64) (ofLongs estack)
    ((envc + 1) * 8)
  if r < 0 then return (-eio, k)
  let (r, k) ← copyout k pagetable ((sp + (envc + argc + 3) * 8) % 2 ^ 64) (ofLongs aux)
    (aux.length * 8)
  if r < 0 then return (-eio, k)
  return (0, k)

/-- The part of `execve` from the stack on; `errno` is what the segments left in it. -/
def execStack (k : Kernel) (pagetable : Nat) (errno : Int) (image : Image) (owner : Owner)
    (argv envp : List CString) : Except Fault Outcome := do
  let (sp, k) ← uvmalloc k pagetable stackbase stacktop pteW
  if sp = 0 then return .bad (-enomem) k
  let (r, platform, sp, k) ← pushPlatform k pagetable sp image.interp.isSome
  if r < 0 then return .bad errno k
  let (r, ustack, sp, k) ← pushStrings pagetable argv k sp
  if r ≠ 0 then return .bad r k
  let (r, estack, sp, k) ← pushStrings pagetable envp k sp
  if r ≠ 0 then return .bad r k
  let aux := flatten (auxv image owner platform)
  let sp := lowered sp ((envp.length + 1 + argv.length + 1 + 1) * 8 + aux.length * 8)
  let (r, k) ← pushWords k pagetable sp argv.length envp.length (vector ustack) (vector estack) aux
  if r < 0 then return .bad r k
  return .done argv.length ⟨(image.interp.map Prod.snd).getD image.entry, sp⟩ k

/-! ## The top page -/

variable {k k₁ k' : Kernel} {root frame sp low high : Nat} {tables : List Nat}

/-- The top page of the stack. -/
def topPage : Nat := stacktop - pgsize

theorem stacktop_eq : stacktop = topPage + 4096 := by decide

/-- An address of the top page. -/
theorem topPage_address {a : Nat} (lower : topPage ≤ a) (upper : a < stacktop) :
    a < maxva ∧ pgrounddown a = topPage ∧ a % pgsize = a - topPage := by
  have top : topPage = 67108860 * 4096 := by decide
  have bound : maxva = 67108864 * 4096 := by decide
  have fits : a < 2 ^ 64 := upper.trans (by decide)
  rw [stacktop_eq] at upper
  rw [pgrounddown_eq fits, show pgsize = 4096 from rfl]
  rw [top] at lower upper ⊢
  rw [bound]
  omega

/-- The top page is mapped to `frame`, and the user can write to it. -/
structure OnTop (k : Kernel) (root : Nat) (tables : List Nat) (frame : Nat) : Prop where
  /-- The page table. -/
  sound : Mapping.Sound k root tables
  /-- The page. -/
  present : lookup k.memory root topPage = some (frame, mappedFlags heapPerm)
  /-- It is a page of the memory. -/
  backed : frame ≠ 0

/-- The bytes of the top page that are not in a range stay. -/
structure Pushed (k k' : Kernel) (root low high : Nat) : Prop where
  /-- Only bytes change. -/
  same : k' = { k with bytes := k'.bytes }
  /-- The other bytes. -/
  others : ∀ x, topPage ≤ x → x < stacktop → ¬(low ≤ x ∧ x < high) →
    (k'.user root).bytes x = (k.user root).bytes x

theorem Pushed.refl : Pushed k k root low high := ⟨rfl, fun _ _ _ _ => rfl⟩

theorem Pushed.mono {start finish : Nat} (pushed : Pushed k k' root start finish)
    (lower : low ≤ start) (upper : finish ≤ high) : Pushed k k' root low high :=
  ⟨pushed.same, fun x x_lower x_upper outside => pushed.others x x_lower x_upper fun between =>
    outside ⟨lower.trans between.1, between.2.trans_le upper⟩⟩

theorem Pushed.trans (first : Pushed k k₁ root low high) (second : Pushed k₁ k' root low high) :
    Pushed k k' root low high := by
  refine ⟨?_, fun x x_lower x_upper outside => ?_⟩
  · calc
      k' = { k₁ with bytes := k'.bytes } := second.same
      _ = { k with bytes := k'.bytes } := by rw [first.same]
  · rw [second.others x x_lower x_upper outside, first.others x x_lower x_upper outside]

namespace OnTop

/-- An address of the top page is at its frame. -/
theorem lookup {a : Nat} (top : OnTop k root tables frame) (lower : topPage ≤ a)
    (upper : a < stacktop) : Vm.lookup k.memory root a = some (frame, mappedFlags heapPerm) := by
  obtain ⟨low, page, -⟩ := topPage_address lower upper
  rw [← lookup_pgrounddown (low.trans (by decide)), page, top.present]

theorem user {a : Nat} (top : OnTop k root tables frame) (lower : topPage ≤ a)
    (upper : a < stacktop) :
    (k.user root).bytes a = k.bytes (frame + (a - topPage)) := by
  obtain ⟨low, -, offset⟩ := topPage_address lower upper
  rw [user_byte low (top.lookup lower upper) (by decide), offset]

theorem readable {a : Nat} (top : OnTop k root tables frame) (lower : topPage ≤ a)
    (upper : a < stacktop) : Readable k.memory root a :=
  ⟨(topPage_address lower upper).1, frame, _, top.lookup lower upper, by decide⟩

/-- `alloc_cow_page` leaves the top page alone. -/
theorem allocCowPage (top : OnTop k root tables frame) :
    Mapping.allocCowPage k root topPage = .ok (1, k) := by
  have page_low : topPage < maxva := by decide
  have outcome := allocCowPage_cases top.sound page_low
  rw [pgrounddown_self (by decide) page_low] at outcome
  have writable : mappedFlags heapPerm &&& pteW ≠ 0 := by decide
  generalize Mapping.allocCowPage k root topPage = result at outcome
  cases outcome with
  | pass => rfl
  | readOnly _ _ found _ unwritable _ =>
      cases top.present.symm.trans found
      exact absurd unwritable writable
  | failed _ _ found _ unwritable _ _ =>
      cases top.present.symm.trans found
      exact absurd unwritable writable
  | exhausted _ _ found _ unwritable _ _ _ =>
      cases top.present.symm.trans found
      exact absurd unwritable writable
  | copied _ _ found _ unwritable _ _ _ _ _ _ _ =>
      cases top.present.symm.trans found
      exact absurd unwritable writable
  | inPlace _ _ found _ unwritable _ _ _ _ =>
      cases top.present.symm.trans found
      exact absurd unwritable writable

/-- `copyout` to the top page is a store. -/
theorem copyout {a n : Nat} (top : OnTop k root tables frame) (source : Bytes) (lower : topPage ≤ a)
    (upper : a + n ≤ stacktop) : Mapping.copyout k root a source n =
      .ok (0, { k with bytes := copyRange k.bytes (frame + (a - topPage)) source 0 n }) := by
  rw [Mapping.copyout]
  rcases Nat.eq_zero_or_pos n with rfl | some
  · rw [copyoutLoop, if_neg (Nat.lt_irrefl 0), copyRange_zero]
    rfl
  · have start : a < stacktop := (Nat.lt_add_of_pos_right some).trans_le upper
    obtain ⟨low, page, offset⟩ := topPage_address lower start
    have rest : pageRest topPage a n = n := by
      rw [stacktop_eq] at upper
      rw [pageRest, show pgsize = 4096 from rfl]
      split <;> omega
    have walk : walkaddr k.memory root topPage = frame :=
      walkaddr_user (by decide) top.present (by decide)
    obtain ⟨m, rfl⟩ := Nat.exists_eq_succ_of_ne_zero some.ne'
    rw [copyoutLoop, if_pos some]
    dsimp only
    rw [page, top.allocCowPage, Except.ok_bind]
    dsimp only
    rw [if_neg (by decide), walk, if_neg top.backed, rest, copyoutLoop, Nat.sub_self,
      if_neg (Nat.lt_irrefl 0)]
    rfl

/-- A store to the top page. -/
theorem store {a n : Nat} (top : OnTop k root tables frame) (source : Bytes) (lower : topPage ≤ a)
    (upper : a + n ≤ stacktop) : ∃ k', Mapping.copyout k root a source n = .ok (0, k') ∧
      OnTop k' root tables frame ∧ Pushed k k' root a (a + n) ∧
      ∀ j < n, (k'.user root).bytes (a + j) = source j := by
  obtain ⟨bytes, run, bytes_eq⟩ : ∃ bytes, Mapping.copyout k root a source n =
      .ok (0, { k with bytes := bytes }) ∧
        ∀ x, bytes x = copyRange k.bytes (frame + (a - topPage)) source 0 n x :=
    ⟨_, top.copyout source lower upper, fun _ => rfl⟩
  have stays : OnTop { k with bytes := bytes } root tables frame :=
    ⟨top.sound.congr rfl rfl, top.present, top.backed⟩
  refine ⟨_, run, stays, ⟨rfl, fun x x_lower x_upper outside => ?_⟩, fun j j_lt => ?_⟩
  · rw [stays.user x_lower x_upper, top.user x_lower x_upper]
    dsimp only
    rw [bytes_eq, copyRange]
    generalize topPage = base at lower x_lower
    exact if_neg fun between => outside (by omega)
  · have inside : a + j < stacktop := (Nat.add_lt_add_left j_lt a).trans_le upper
    rw [stays.user (lower.trans (Nat.le_add_right a j)) inside]
    dsimp only
    rw [bytes_eq, copyRange]
    generalize topPage = base at lower
    have position : frame + (a + j - base) - (frame + (a - base)) = j := by omega
    rw [if_pos (by omega), position, Nat.zero_add]

end OnTop

/-! ## Strings -/

theorem lowered_spec {n : Nat} (fits : sp < 2 ^ 64) (room : n ≤ sp) :
    16 ∣ lowered sp n ∧ lowered sp n + n ≤ sp ∧ sp < lowered sp n + n + 16 := by
  have no_wrap : (sp + 2 ^ 64 - n) % 2 ^ 64 = sp - n := by
    rw [Nat.sub_add_comm room, Nat.add_mod_right, Nat.mod_eq_of_lt (by omega)]
  rw [lowered, no_wrap]
  omega

/-- Ranges, each with its start and its length, that lie one below the other. -/
def Stacked : Nat → List (Nat × Nat) → Nat → Prop
  | top, [], bottom => bottom ≤ top
  | top, (a, n) :: rest, bottom => a + n ≤ top ∧ Stacked a rest bottom

theorem Stacked.append {first second : List (Nat × Nat)} {upper mid lower : Nat}
    (above : Stacked upper first mid) (below : Stacked mid second lower) :
    Stacked upper (first ++ second) lower := by
  induction first generalizing upper with
  | nil =>
      cases second with
      | nil => exact below.trans above
      | cons range rest => exact ⟨below.1.trans above, below.2⟩
  | cons range rest ih => exact ⟨above.1, ih above.2⟩

theorem Stacked.bounds {ranges : List (Nat × Nat)} {upper lower : Nat}
    (stacked : Stacked upper ranges lower) :
    lower ≤ upper ∧ ∀ range ∈ ranges, lower ≤ range.1 ∧ range.1 + range.2 ≤ upper := by
  induction ranges generalizing upper with
  | nil => exact ⟨stacked, fun range impossible => absurd impossible List.not_mem_nil⟩
  | cons range rest ih =>
      obtain ⟨inside, stacked⟩ := stacked
      obtain ⟨start, bounds⟩ := ih stacked
      have under : range.1 ≤ upper := (Nat.le_add_right ..).trans inside
      refine ⟨start.trans under, fun other member => ?_⟩
      rcases List.mem_cons.mp member with rfl | member
      · exact ⟨start, inside⟩
      · exact ⟨(bounds other member).1, (bounds other member).2.trans under⟩

/-- Two ranges have no byte in common. -/
def Separate (range other : Nat × Nat) : Prop :=
  range.1 + range.2 ≤ other.1 ∨ other.1 + other.2 ≤ range.1

theorem Stacked.separate {ranges : List (Nat × Nat)} {upper lower : Nat}
    (stacked : Stacked upper ranges lower) : ranges.Pairwise Separate := by
  induction ranges generalizing upper with
  | nil => exact List.Pairwise.nil
  | cons range rest ih =>
      refine List.pairwise_cons.mpr ⟨fun other member => Or.inr ?_, ih stacked.2⟩
      exact (stacked.2.bounds.2 other member).2

/-- The ranges of strings with their terminators. -/
def extents (stack : List Nat) (strings : List CString) : List (Nat × Nat) :=
  List.zipWith (fun a s => (a, s.strlen + 1)) stack strings

/-- Strings are in memory, and `sp` is below them. -/
structure StringsPushed (k k' : Kernel) (root sp low : Nat) (stack : List Nat)
    (strings : List CString) : Prop where
  /-- `sp` is aligned. -/
  aligned : 16 ∣ low
  /-- The room that the strings take. -/
  room : sp ≤ low + 128 * strings.length
  /-- What is not below. -/
  pushed : Pushed k k' root low sp
  /-- The strings. -/
  shown : List.Forall₂ (StringAt (k'.user root).bytes) stack strings
  /-- Their places. -/
  stacked : Stacked sp (extents stack strings) low

/-- Strings above a range of stores stay. -/
theorem Pushed.strings {stack : List Nat} {strings : List CString}
    (pushed : Pushed k k' root low high)
    (above : ∀ range ∈ extents stack strings, high ≤ range.1 ∧ range.1 + range.2 ≤ stacktop)
    (inside : topPage ≤ high) (shown : List.Forall₂ (StringAt (k.user root).bytes) stack strings) :
    List.Forall₂ (StringAt (k'.user root).bytes) stack strings := by
  induction shown with
  | nil => exact .nil
  | @cons a s stack strings first rest ih =>
      obtain ⟨start, below⟩ := above (a, s.strlen + 1) List.mem_cons_self
      refine .cons (first.congr fun j j_lt => ?_)
        (ih fun range member => above range (List.mem_cons_of_mem _ member))
      refine pushed.others _ (inside.trans (start.trans (Nat.le_add_right a j))) ?_ ?_
      · exact (Nat.add_lt_add_left j_lt a).trans_le below
      · exact fun between => absurd (start.trans (Nat.le_add_right a j))
          (Nat.not_le_of_lt between.2)

theorem extents_append {stack stack' : List Nat} {strings strings' : List CString}
    (same : stack.length = strings.length) :
    extents (stack ++ stack') (strings ++ strings') = extents stack strings ++
      extents stack' strings' :=
  List.zipWith_append same

theorem StringsPushed.append {stack stack' : List Nat} {strings strings' : List CString} {mid : Nat}
    (first : StringsPushed k k₁ root sp mid stack strings)
    (second : StringsPushed k₁ k' root mid low stack' strings') (inside : topPage ≤ mid)
    (upper : sp ≤ stacktop) :
    StringsPushed k k' root sp low (stack ++ stack') (strings ++ strings') := by
  have mid_le := first.stacked.bounds.1
  have low_le := second.stacked.bounds.1
  have room := first.room
  have room' := second.room
  refine ⟨second.aligned, ?_, ?_, ?_, ?_⟩
  · rw [List.length_append]
    omega
  · exact (first.pushed.mono low_le (Nat.le_refl sp)).trans
      (second.pushed.mono (Nat.le_refl low) mid_le)
  · refine List.rel_append (second.pushed.strings ?_ inside first.shown) second.shown
    intro range member
    obtain ⟨start, below⟩ := first.stacked.bounds.2 range member
    exact ⟨start, below.trans upper⟩
  · rw [extents_append first.shown.length_eq]
    exact first.stacked.append second.stacked

/-- A push of a string. -/
theorem OnTop.push {s : CString} (top : OnTop k root tables frame) (aligned : 16 ∣ sp)
    (room : topPage + 128 ≤ sp) (upper : sp ≤ stacktop) (short : s.strlen < maxpath) :
    ∃ k', Mapping.copyout k root (lowered sp (s.strlen + 1)) s.bytes (s.strlen + 1) = .ok (0, k') ∧
      OnTop k' root tables frame ∧
      StringsPushed k k' root sp (lowered sp (s.strlen + 1)) [lowered sp (s.strlen + 1)] [s] := by
  have fits : sp < 2 ^ 64 := upper.trans_lt (by decide)
  rw [maxpath] at short
  obtain ⟨next_aligned, below, near⟩ := lowered_spec (n := s.strlen + 1) fits (by omega)
  generalize lowered sp (s.strlen + 1) = next at next_aligned below near
  have next_near : sp ≤ next + 128 := by omega
  have inside : topPage ≤ next := by omega
  obtain ⟨k', run, top', pushed, stored⟩ := top.store s.bytes inside (below.trans upper)
  exact ⟨k', run, top', next_aligned, next_near, pushed.mono (Nat.le_refl next) below,
    .cons stored .nil, below, Nat.le_refl next⟩

/-- The loop that pushes strings. -/
theorem pushStrings_spec {strings : List CString} (top : OnTop k root tables frame)
    (aligned : 16 ∣ sp) (room : topPage + 128 * strings.length ≤ sp) (upper : sp ≤ stacktop)
    (short : ∀ s ∈ strings, s.strlen < maxpath) :
    ∃ stack low k', pushStrings root strings k sp = .ok (0, stack, low, k') ∧
      OnTop k' root tables frame ∧ StringsPushed k k' root sp low stack strings := by
  induction strings generalizing k sp with
  | nil => exact ⟨[], sp, k, rfl, top, aligned, Nat.le_refl sp, Pushed.refl, .nil, Nat.le_refl sp⟩
  | cons s rest ih =>
      rw [List.length_cons] at room
      obtain ⟨k₁, run, top₁, first⟩ := top.push (s := s) aligned (by omega) upper
        (short s List.mem_cons_self)
      have next_room := first.room
      have next_le := first.stacked.bounds.1
      rw [List.length_singleton] at next_room
      have next_inside : topPage + 128 * rest.length ≤ lowered sp (s.strlen + 1) := by omega
      obtain ⟨stack, low, k', run', top', others⟩ := ih top₁ first.aligned next_inside
        (next_le.trans upper) (fun other member => short other (List.mem_cons_of_mem s member))
      refine ⟨_, low, k', ?_, top',
        first.append others ((Nat.le_add_right ..).trans next_inside) upper⟩
      rw [pushStrings]
      dsimp only
      rw [run, Except.ok_bind]
      dsimp only
      rw [if_neg (by decide), run']
      rfl

/-- The strings that are pushed for the start code itself. -/
def platformStrings (interp : Bool) : List CString := if interp then [elfPlatform] else []

theorem platformStrings_length (interp : Bool) : (platformStrings interp).length ≤ 1 := by
  cases interp <;> decide

theorem pushPlatform_spec (top : OnTop k root tables frame) (interp : Bool) :
    ∃ platform low k' stack, pushPlatform k root stacktop interp = .ok (0, platform, low, k') ∧
      OnTop k' root tables frame ∧
      StringsPushed k k' root stacktop low stack (platformStrings interp) := by
  cases interp with
  | false =>
      exact ⟨0, stacktop, k, [], rfl, top,
        by decide, Nat.le_refl _, Pushed.refl, .nil, Nat.le_refl _⟩
  | true =>
      obtain ⟨k', run, top', pushed⟩ := top.push (s := elfPlatform) (show 16 ∣ stacktop by decide)
        (by decide) (Nat.le_refl _) (by decide)
      refine ⟨lowered stacktop (elfPlatform.strlen + 1), _, k', _, ?_, top', pushed⟩
      rw [pushPlatform, if_pos rfl]
      dsimp only
      rw [run, Except.ok_bind]
      rfl

/-! ## Words -/

theorem OnTop.storeLongs {a : Nat} (top : OnTop k root tables frame) (longs : List UInt64)
    (lower : topPage ≤ a) (upper : a + longs.length * 8 ≤ stacktop) :
    ∃ k', Mapping.copyout k root a (ofLongs longs) (longs.length * 8) = .ok (0, k') ∧
      OnTop k' root tables frame ∧ Pushed k k' root a (a + longs.length * 8) ∧
      Longs (k'.user root).bytes a longs := by
  obtain ⟨k', run, top', pushed, stored⟩ := top.store (ofLongs longs) lower upper
  refine ⟨k', run, top', pushed, longs_of_stored fun j j_lt => stored j ?_⟩
  rwa [Nat.mul_comm]

/-- Words below a range of stores stay. -/
theorem Pushed.longs {a : Nat} {longs : List UInt64} (pushed : Pushed k k' root low high)
    (lower : topPage ≤ a) (before : a + longs.length * 8 ≤ low) (upper : low ≤ stacktop)
    (shown : Longs (k.user root).bytes a longs) : Longs (k'.user root).bytes a longs := by
  refine shown.congr fun j j_lt => pushed.others _ (lower.trans (Nat.le_add_right a j)) ?_ ?_
  · refine lt_of_lt_of_le ?_ upper
    omega
  · omega

/-- The words of the start code. -/
theorem pushWords_spec {argc envc : Nat} {ustack estack aux : List UInt64}
    (top : OnTop k root tables frame) (lower : topPage ≤ sp)
    (upper : sp + (1 + ustack.length + estack.length + aux.length) * 8 ≤ stacktop)
    (arguments : ustack.length = argc + 1) (environment : estack.length = envc + 1) :
    ∃ k', pushWords k root sp argc envc ustack estack aux = .ok (0, k') ∧
      OnTop k' root tables frame ∧
      Pushed k k' root sp (sp + (1 + ustack.length + estack.length + aux.length) * 8) ∧
      Longs (k'.user root).bytes sp (UInt64.ofNat argc :: (ustack ++ (estack ++ aux))) := by
  have address_space : stacktop < 2 ^ 64 := by decide
  have below {n : Nat} (n_le : n ≤ 1 + ustack.length + estack.length + aux.length) :
      sp + n * 8 ≤ stacktop :=
    (Nat.add_le_add_left (Nat.mul_le_mul_right 8 n_le) sp).trans upper
  have no_wrap {n : Nat} (n_le : n ≤ 1 + ustack.length + estack.length + aux.length) :
      (sp + n * 8) % 2 ^ 64 = sp + n * 8 := Nat.mod_eq_of_lt ((below n_le).trans_lt address_space)
  have inside (n : Nat) : topPage ≤ sp + n * 8 := lower.trans (Nat.le_add_right ..)
  have at_one := below (n := 1) (by omega)
  have at_two := below (n := argc + 2) (by omega)
  have at_three := below (n := envc + argc + 3) (by omega)
  have at_end := below (n := envc + argc + 3 + aux.length) (by omega)
  obtain ⟨k₁, run₁, top₁, pushed₁, shown₁⟩ :=
    top.storeLongs [UInt64.ofNat argc] lower at_one
  obtain ⟨k₂, run₂, top₂, pushed₂, shown₂⟩ := top₁.storeLongs ustack (inside 1)
    (by rw [arguments]; omega)
  obtain ⟨k₃, run₃, top₃, pushed₃, shown₃⟩ := top₂.storeLongs estack (inside (argc + 2))
    (by rw [environment]; omega)
  obtain ⟨k₄, run₄, top₄, pushed₄, shown₄⟩ :=
    top₃.storeLongs aux (inside (envc + argc + 3)) (by omega)
  refine ⟨k₄, ?_, top₄, ?_, ?_⟩
  · have first : (sp + 8) % 2 ^ 64 = sp + 1 * 8 := no_wrap (n := 1) (by omega)
    have one : Mapping.copyout k root sp (ofLongs [UInt64.ofNat argc]) 8 = .ok (0, k₁) := run₁
    rw [pushWords, first, no_wrap (by omega), no_wrap (by omega), ← arguments, ← environment, one,
      Except.ok_bind]
    dsimp only
    rw [if_neg (by decide), run₂, Except.ok_bind]
    dsimp only
    rw [if_neg (by decide), run₃, Except.ok_bind]
    dsimp only
    rw [if_neg (by decide), run₄, Except.ok_bind]
    rfl
  · rw [arguments] at pushed₂
    rw [environment] at pushed₃
    rw [arguments, environment]
    have first : Pushed k k₁ root sp (sp + (1 + (argc + 1) + (envc + 1) + aux.length) * 8) :=
      pushed₁.mono (Nat.le_refl sp) (by rw [List.length_singleton]; omega)
    have second := first.trans (pushed₂.mono (Nat.le_add_right ..) (by omega))
    have third := second.trans (pushed₃.mono (Nat.le_add_right ..) (by omega))
    exact third.trans (pushed₄.mono (Nat.le_add_right ..) (by omega))
  · have at_argc := pushed₂.longs lower (Nat.le_refl _) at_one shown₁
    have at_ustack := pushed₃.longs (inside 1) (by rw [arguments]; omega) at_two shown₂
    have at_estack := pushed₄.longs (inside (argc + 2)) (by rw [environment]; omega) at_three shown₃
    have at_argc := pushed₃.longs lower (by rw [List.length_singleton]; omega) at_two at_argc
    have at_argc := pushed₄.longs lower (by rw [List.length_singleton]; omega) at_three at_argc
    have at_ustack := pushed₄.longs (inside 1) (by rw [arguments]; omega) at_three at_ustack
    refine ⟨at_argc.1, longs_append.mpr ⟨at_ustack, longs_append.mpr ⟨?_, ?_⟩⟩⟩
    · have position : sp + 8 + 8 * ustack.length = sp + (argc + 2) * 8 := by
        rw [arguments]
        omega
      rw [position]
      exact at_estack
    · have position : sp + 8 + 8 * ustack.length + 8 * estack.length = sp +
        (envc + argc + 3) * 8 := by
        rw [arguments, environment]
        omega
      rw [position]
      exact shown₄

/-! ## What the start code reads -/

/-- `argv` or `envp` as `sys_execve` accepts it. -/
structure Accepted (strings : List CString) : Prop where
  /-- The zero behind the addresses has a place. -/
  few : strings.length < maxarg - 1
  /-- Each string was fetched. -/
  short : ∀ s ∈ strings, s.strlen < maxpath

/-- The ranges of `auxv`, `estack`, `ustack` and `argc`. -/
def wordRanges (sp argc envc count : Nat) : List (Nat × Nat) :=
  [(sp + (envc + argc + 3) * 8, count * 8), (sp + (argc + 2) * 8, (envc + 1) * 8),
    (sp + 8, (argc + 1) * 8), (sp, 8)]

/-- All ranges of the initial stack. -/
def stackRanges (sp : Nat) (interp : Bool) (platform ustack estack : List Nat)
    (argv envp : List CString) (pairs : List (UInt64 × UInt64)) : List (Nat × Nat) :=
  extents platform (platformStrings interp) ++ (extents ustack argv ++ (extents estack envp ++
    wordRanges sp argv.length envp.length (flatten pairs).length))

/-- What the user reads from `sp` on. -/
structure InitialStack (k : Kernel) (root sp : Nat) (interp : Bool)
    (platform ustack estack : List Nat)
    (argv envp : List CString) (pairs : List (UInt64 × UInt64)) : Prop where
  /-- `sp` is aligned. -/
  aligned : 16 ∣ sp
  /-- It is in the stack. -/
  inside : stackbase ≤ sp ∧ sp < stacktop
  /-- The user can read from there on. -/
  readable : ∀ a, sp ≤ a → a < stacktop → Readable k.memory root a
  /-- The words. -/
  words : Longs (k.user root).bytes sp
    (UInt64.ofNat argv.length :: (vector ustack ++ (vector estack ++ flatten pairs)))
  /-- The strings of `argv`. -/
  arguments : List.Forall₂ (StringAt (k.user root).bytes) ustack argv
  /-- The strings of `envp`. -/
  environment : List.Forall₂ (StringAt (k.user root).bytes) estack envp
  /-- The string of the start code. -/
  platform_string : List.Forall₂ (StringAt (k.user root).bytes) platform (platformStrings interp)
  /-- The pairs end with `AT_NULL`. -/
  ended : ∃ front, pairs = front ++ [(atNull, 0)] ∧ ∀ pair ∈ front, pair.1 ≠ atNull
  /-- No two ranges share a byte. -/
  separate : (stackRanges sp interp platform ustack estack argv envp pairs).Pairwise Separate
  /-- All ranges are in the stack. -/
  bounds : ∀ range ∈ stackRanges sp interp platform ustack estack argv envp pairs,
    sp ≤ range.1 ∧ range.1 + range.2 ≤ stacktop

theorem auxv_ended (image : Image) (owner : Owner) (platform : Nat) :
    ∃ front, auxv image owner platform = front ++ [(atNull, 0)] ∧
      ∀ pair ∈ front, pair.1 ≠ atNull := by
  rw [auxv]
  cases image.interp with
  | none => exact ⟨[(atPagesz, 4096)], rfl, by simp [atPagesz, atNull]⟩
  | some loaded =>
      refine ⟨(auxv { image with interp := some loaded } owner platform).dropLast, rfl, ?_⟩
      simp [auxv, atPhdr, atPhent, atPhnum, atPagesz, atBase, atFlags, atEntry, atUid,
        atEuid, atGid, atEgid, atPlatform, atHwcap, atClktck, atNull]

theorem flatten_length (pairs : List (UInt64 × UInt64)) :
    (flatten pairs).length = 2 * pairs.length := by
  induction pairs with
  | nil => rfl
  | cons pair rest ih =>
      rw [flatten, List.flatMap_cons, List.length_append, ← flatten, ih]
      simp only [List.length_cons, List.length_nil]
      omega

theorem auxv_length (image : Image) (owner : Owner) (platform : Nat) :
    (auxv image owner platform).length ≤ 15 := by
  rw [auxv]
  cases image.interp with
  | none => exact (by decide : 2 ≤ 15)
  | some loaded => exact Nat.le_refl 15

theorem vector_length (stack : List Nat) : (vector stack).length = stack.length + 1 := by
  rw [vector, List.length_append, List.length_map, List.length_singleton]

theorem wordRanges_stacked (argc envc count : Nat) {upper : Nat}
    (fits : sp + (envc + argc + 3 + count) * 8 ≤ upper) :
    Stacked upper (wordRanges sp argc envc count) sp := by
  refine ⟨?_, ?_, ?_, ?_, Nat.le_refl sp⟩ <;> omega

/-- How the part of `execve` from the stack on ends. -/
inductive StackCase (root : Nat) (interp : Bool) (argv envp : List CString) :
    Except Fault Outcome → Prop
  /-- A page of the stack was mapped before, or there is no memory for it. -/
  | panics (fault : Fault) : StackCase root interp argv envp (.error fault)
  /-- The stack is ready. -/
  | ready (trapframe : Trapframe) (k' : Kernel) (platform ustack estack : List Nat)
      (pairs : List (UInt64 × UInt64))
      (stack : InitialStack k' root trapframe.sp interp platform ustack estack argv envp pairs) :
      StackCase root interp argv envp (.ok (.done argv.length trapframe k'))

/-- All strings are in memory, and `low` is below them. -/
structure StringsReady (k : Kernel) (root low : Nat) (interp : Bool)
    (platform ustack estack : List Nat) (argv envp : List CString) : Prop where
  /-- `low` is aligned. -/
  aligned : 16 ∣ low
  /-- The strings are shorter than half a page. -/
  room : topPage + 2048 ≤ low
  /-- The strings of `argv`. -/
  arguments : List.Forall₂ (StringAt (k.user root).bytes) ustack argv
  /-- The strings of `envp`. -/
  environment : List.Forall₂ (StringAt (k.user root).bytes) estack envp
  /-- The string of the start code. -/
  platform_string : List.Forall₂ (StringAt (k.user root).bytes) platform (platformStrings interp)
  /-- Their places. -/
  stacked : Stacked stacktop (extents platform (platformStrings interp) ++
    (extents ustack argv ++ extents estack envp)) low

theorem room_of_pushes {base low₁ low₂ p a e : Nat} (platform : base + 4096 ≤ low₁ + 128 * p)
    (arguments : low₁ ≤ low₂ + 128 * a) (environment : low₂ ≤ low + 128 * e) (one : p ≤ 1)
    (few : a < 8 - 1) (few' : e < 8 - 1) : base + 2048 ≤ low := by
  omega

theorem room_of_words {base a e c : Nat} (room : base + 2048 ≤ low)
    (near : low < sp + ((e + 1 + a + 1 + 1) * 8 + c * 8) + 16) (few : a < 8 - 1) (few' : e < 8 - 1)
    (count : c ≤ 30) : base ≤ sp := by
  omega

/-- The three pushes of strings. -/
theorem pushes_spec {argv envp : List CString} (top : OnTop k root tables frame) (interp : Bool)
    (arguments : Accepted argv) (environment : Accepted envp) :
    ∃ at_platform low₁ k₁ ustack low₂ k₂ estack low k' platform,
      pushPlatform k root stacktop interp = .ok (0, at_platform, low₁, k₁) ∧
      pushStrings root argv k₁ low₁ = .ok (0, ustack, low₂, k₂) ∧
      pushStrings root envp k₂ low₂ = .ok (0, estack, low, k') ∧ OnTop k' root tables frame ∧
      StringsReady k' root low interp platform ustack estack argv envp := by
  have few := arguments.few
  have few' := environment.few
  rw [maxarg] at few few'
  obtain ⟨at_platform, low₁, k₁, platform, run₁, top₁, pushed₁⟩ := pushPlatform_spec top interp
  have room₁ := pushed₁.room
  have upper₁ := pushed₁.stacked.bounds.1
  have one := platformStrings_length interp
  rw [stacktop_eq] at room₁
  obtain ⟨ustack, low₂, k₂, run₂, top₂, pushed₂⟩ := pushStrings_spec top₁ pushed₁.aligned (by omega)
    upper₁ arguments.short
  have room₂ := pushed₂.room
  have upper₂ := pushed₂.stacked.bounds.1
  obtain ⟨estack, low, k', run₃, top₃, pushed₃⟩ := pushStrings_spec top₂ pushed₂.aligned (by omega)
    (upper₂.trans upper₁) environment.short
  have room₃ := pushed₃.room
  have upper₃ := pushed₃.stacked.bounds.1
  have room : topPage + 2048 ≤ low := room_of_pushes room₁ room₂ room₃ one few few'
  have inside : topPage ≤ low₂ := ((Nat.le_add_right ..).trans room).trans upper₃
  have both := pushed₂.append pushed₃ inside upper₁
  have platform₃ := both.pushed.strings pushed₁.stacked.bounds.2 (inside.trans upper₂) pushed₁.shown
  have arguments₃ : List.Forall₂ (StringAt (k'.user root).bytes) ustack argv := by
    refine pushed₃.pushed.strings (fun range member => ?_) inside pushed₂.shown
    obtain ⟨start, below⟩ := pushed₂.stacked.bounds.2 range member
    exact ⟨start, below.trans upper₁⟩
  exact ⟨at_platform, low₁, k₁, ustack, low₂, k₂, estack, low, k', platform, run₁, run₂, run₃, top₃,
    pushed₃.aligned, room, arguments₃, pushed₃.shown, platform₃,
    pushed₁.stacked.append (pushed₂.stacked.append pushed₃.stacked)⟩

/-- The words below the strings. -/
theorem StringsReady.words {platform ustack estack : List Nat} {argv envp : List CString}
    {interp : Bool} (ready : StringsReady k root low interp platform ustack estack argv envp)
    (top : OnTop k root tables frame) (arguments : Accepted argv) (environment : Accepted envp)
    {pairs : List (UInt64 × UInt64)} (few : pairs.length ≤ 15)
    (ended : ∃ front, pairs = front ++ [(atNull, 0)] ∧ ∀ pair ∈ front, pair.1 ≠ atNull)
    (sp_eq : lowered low
      ((envp.length + 1 + argv.length + 1 + 1) * 8 + (flatten pairs).length * 8) = sp) :
    ∃ k', pushWords k root sp argv.length envp.length (vector ustack) (vector estack)
        (flatten pairs) = .ok (0, k') ∧
      InitialStack k' root sp interp platform ustack estack argv envp pairs := by
  have few_arguments := arguments.few
  have few_environment := environment.few
  rw [maxarg] at few_arguments few_environment
  have room := ready.room
  have low_top := ready.stacked.bounds.1
  have count_eq := flatten_length pairs
  obtain ⟨aligned, below, near⟩ := lowered_spec
    (n := (envp.length + 1 + argv.length + 1 + 1) * 8 + (flatten pairs).length * 8)
    (low_top.trans_lt (by decide)) (by omega)
  rw [sp_eq] at aligned below near
  have inside : topPage ≤ sp :=
    room_of_words room near few_arguments few_environment (by omega)
  have ustack_length : (vector ustack).length = argv.length + 1 := by
    rw [vector_length, ready.arguments.length_eq]
  have estack_length : (vector estack).length = envp.length + 1 := by
    rw [vector_length, ready.environment.length_eq]
  have words_below : sp + (1 + (vector ustack).length + (vector estack).length +
      (flatten pairs).length) * 8 ≤ low := by
    rw [ustack_length, estack_length]
    omega
  have ranges : Stacked low (wordRanges sp argv.length envp.length (flatten pairs).length) sp :=
    wordRanges_stacked _ _ _ (by omega)
  have sp_lt : sp < low := by omega
  obtain ⟨k', run, top', pushed, words⟩ := pushWords_spec top inside (words_below.trans low_top)
    ustack_length estack_length
  have stays := pushed.mono (Nat.le_refl sp) words_below
  have low_inside := inside.trans sp_lt.le
  have above (range : Nat × Nat) (member : range ∈ extents platform (platformStrings interp) ++
      (extents ustack argv ++ extents estack envp)) :
      low ≤ range.1 ∧ range.1 + range.2 ≤ stacktop := ready.stacked.bounds.2 range member
  have stacked := ready.stacked.append ranges
  rw [List.append_assoc, List.append_assoc] at stacked
  refine ⟨k', run, aligned, ⟨?_, sp_lt.trans_le low_top⟩, ?_, words, ?_, ?_, ?_, ended,
    stacked.separate, stacked.bounds.2⟩
  · exact (show stackbase ≤ topPage by decide).trans inside
  · exact fun a a_lower a_upper => top'.readable (inside.trans a_lower) a_upper
  · refine stays.strings (fun range member => above range ?_) low_inside ready.arguments
    exact List.mem_append_right _ (List.mem_append_left _ member)
  · refine stays.strings (fun range member => above range ?_) low_inside ready.environment
    exact List.mem_append_right _ (List.mem_append_right _ member)
  · refine stays.strings (fun range member => above range ?_) low_inside ready.platform_string
    exact List.mem_append_left _ member

/-- The part of `execve` from the stack on. -/
theorem execStack_cases {argv envp : List CString} (sound : Mapping.Sound k root tables)
    (arguments : Accepted argv) (environment : Accepted envp) (errno : Int) (image : Image)
    (owner : Owner) : StackCase root image.interp.isSome argv envp
      (execStack k root errno image owner argv envp) := by
  have base_eq : extent stackbase = stackbase := by decide
  have pages_eq : newPages stackbase stacktop = 16 := by decide
  have allocated := uvmalloc_spec sound (show stackbase ≤ maxva by decide)
    (show stackbase ≤ stacktop by decide)
  rw [base_eq, pages_eq] at allocated
  rw [execStack]
  generalize uvmalloc k root stackbase stacktop pteW = result at allocated
  cases allocated with
  | overlaps fault => exact .panics fault
  | exhausted => exact .panics _
  | done k₁ tables₁ extended =>
      obtain ⟨frame, frame_page, present, -⟩ := extended.mapped 15 (by decide)
      have top : OnTop k₁ root tables₁ frame :=
        ⟨extended.sound, present, (sound.supplied.2 frame frame_page).2.1⟩
      obtain ⟨at_platform, low₁, k₂, ustack, low₂, k₃, estack, low, k₄, platform, run₁, run₂,
        run₃, top₄, ready⟩ := pushes_spec top image.interp.isSome arguments environment
      obtain ⟨k', run₄, stack⟩ := ready.words top₄ arguments environment
        (auxv_length image owner at_platform) (auxv_ended image owner at_platform) rfl
      rw [Except.ok_bind]
      dsimp only
      rw [if_neg (by decide), run₁, Except.ok_bind]
      dsimp only
      rw [if_neg (by decide), run₂, Except.ok_bind]
      dsimp only
      rw [if_neg (not_not.mpr rfl), run₃, Except.ok_bind]
      dsimp only
      rw [if_neg (not_not.mpr rfl), run₄, Except.ok_bind]
      exact StackCase.ready ⟨_, _⟩ k' platform ustack estack _ stack

/-- When `execve` returns `argc`, the start code reads the arguments and the environment. -/
theorem initial_stack_decodes {argv envp : List CString} {errno : Int} {image : Image}
    {owner : Owner} {argc : Nat} {trapframe : Trapframe} (sound : Mapping.Sound k root tables)
    (arguments : Accepted argv) (environment : Accepted envp)
    (run : execStack k root errno image owner argv envp = .ok (.done argc trapframe k')) :
    argc = argv.length ∧ ∃ platform ustack estack pairs,
      InitialStack k' root trapframe.sp image.interp.isSome platform ustack estack argv envp
        pairs := by
  have outcome := execStack_cases sound arguments environment errno image owner
  rw [run] at outcome
  cases outcome with
  | ready _ _ platform ustack estack pairs stack =>
      exact ⟨rfl, platform, ustack, estack, pairs, stack⟩

/-- A kernel with an empty page table and pages for a stack. -/
def stackKernel : Kernel :=
  blank ((List.range 24).map fun i => 0x80201000 + i * pgsize) Fs.Volume.fresh
    ⟨.none, none, 0, false, false⟩

/-- A program with an interpreter. -/
def dynamicImage : Image := ⟨64, 3, 0x1000, some (0x100000000, 0x100002000)⟩

/-- Two arguments and no environment. -/
theorem initial_stack_decodes_dynamic : ∃ trapframe k' platform ustack estack pairs,
    execStack stackKernel 0x80000000 0 dynamicImage ⟨0, 0, 0, 0⟩
      [⟨[108, 115], by decide⟩, ⟨[47], by decide⟩] [] = .ok (.done 2 trapframe k') ∧
    InitialStack k' 0x80000000 trapframe.sp true platform ustack estack
      [⟨[108, 115], by decide⟩, ⟨[47], by decide⟩] [] pairs := by
  have succeeds : (execStack stackKernel 0x80000000 0 dynamicImage ⟨0, 0, 0, 0⟩
      [⟨[108, 115], by decide⟩, ⟨[47], by decide⟩] []).toOption.any (fun outcome =>
        match outcome with
        | .done _ _ _ => true
        | .bad _ _ => false) = true := by
    decide +kernel
  obtain ⟨outcome, run, test⟩ := Except.exists_of_any succeeds
  cases outcome with
  | bad errno k => cases test
  | done argc trapframe k' =>
      obtain ⟨argc_eq, platform, ustack, estack, pairs, stack⟩ :=
        initial_stack_decodes (blank_sound (by decide)).1
          ⟨by decide, by decide⟩ ⟨by decide, by decide⟩ run
      subst argc_eq
      exact ⟨trapframe, k', platform, ustack, estack, pairs, run, stack⟩

end Exec
end Xv6Duo
