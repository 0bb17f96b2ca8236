import Xv6Duo.Mapping.CopyOnWrite

/-!
# Copies between the kernel and the user

`copyout`, `copyin` and `copyinstr` split a range of user addresses at the ends of its pages. The
buffer in the kernel is a function of its positions: the user has no page of it. `copyin` and
`copyinstr` only read the pages, and what they put into the buffer is what the user would read.
-/

namespace Xv6Duo
namespace Mapping

open Vm Mmap

variable {k k₁ k' : Kernel} {root va pa flags dstva srcva len max fuel src pos : Nat}
  {tables : List Nat} {source dst : ByteBlock.Bytes}

/-! ## The loops -/

/-- What is left of the page at `va0` from `va` on, up to `len` bytes. -/
def pageRest (va0 va len : Nat) : Nat :=
  if len < pgsize - (va - va0) then len else pgsize - (va - va0)

/-- The loop of `copyout`, with fuel. -/
def copyoutLoop (pagetable : Nat) (source : ByteBlock.Bytes) :
    Nat → Kernel → Nat → Nat → Nat → Except Fault (Int × Kernel)
  | 0, _, _, _, _ => .error .loops
  | fuel + 1, k, dstva, src, len =>
      if 0 < len then do
        let va0 := pgrounddown dstva
        let (ret, k) ← allocCowPage k pagetable va0
        if ret < 0 then return (-1, k)
        let pa0 := walkaddr k.memory pagetable va0
        if pa0 = 0 then return (-1, k)
        let n := pageRest va0 dstva len
        let k := { k with bytes := ByteBlock.copyRange k.bytes (pa0 + (dstva - va0)) source src n }
        copyoutLoop pagetable source fuel k ((va0 + pgsize) % 2 ^ 64) (src + n) (len - n)
      else return (0, k)

/-- `copyout` of the bytes of `source`. Each round copies a byte or more. -/
def copyout (k : Kernel) (pagetable dstva : Nat) (source : ByteBlock.Bytes) (len : Nat) :
    Except Fault (Int × Kernel) :=
  copyoutLoop pagetable source (len + 1) k dstva 0 len

/-- The loop of `copyin`, with fuel. -/
def copyinLoop (k : Kernel) (pagetable : Nat) :
    Nat → ByteBlock.Bytes → Nat → Nat → Nat → Except Fault (Int × ByteBlock.Bytes)
  | 0, _, _, _, _ => .error .loops
  | fuel + 1, dst, pos, srcva, len =>
      if 0 < len then
        let va0 := pgrounddown srcva
        let pa0 := walkaddr k.memory pagetable va0
        if pa0 = 0 then .ok (-1, dst)
        else
          let n := pageRest va0 srcva len
          copyinLoop k pagetable fuel (ByteBlock.copyRange dst pos k.bytes (pa0 + (srcva - va0)) n)
            (pos + n) ((va0 + pgsize) % 2 ^ 64) (len - n)
      else .ok (0, dst)

/-- `copyin`. Each round copies a byte or more. -/
def copyin (k : Kernel) (pagetable : Nat) (dst : ByteBlock.Bytes) (srcva len : Nat) :
    Except Fault (Int × ByteBlock.Bytes) :=
  copyinLoop k pagetable (len + 1) dst 0 srcva len

/-- The inner loop of `copyinstr`: `got_null`, `max`, and the buffer with its position. -/
def copyString (bytes : ByteBlock.Bytes) :
    Nat → Nat → Nat → ByteBlock.Bytes → Nat → Bool × Nat × ByteBlock.Bytes × Nat
  | 0, _, max, dst, pos => (false, max, dst, pos)
  | n + 1, p, max, dst, pos =>
      if bytes p = 0 then (true, max, Function.update dst pos 0, pos)
      else copyString bytes n (p + 1) (max - 1) (Function.update dst pos (bytes p)) (pos + 1)

/-- The loop of `copyinstr`, with fuel. -/
def copyinstrLoop (k : Kernel) (pagetable : Nat) :
    Nat → Bool → Nat → Nat → ByteBlock.Bytes → Nat → Except Fault (Int × ByteBlock.Bytes)
  | 0, _, _, _, _, _ => .error .loops
  | fuel + 1, gotNull, srcva, max, dst, pos =>
      if gotNull = false ∧ 0 < max then
        let va0 := pgrounddown srcva
        let pa0 := walkaddr k.memory pagetable va0
        if pa0 = 0 then .ok (-1, dst)
        else
          let (gotNull, max, dst, pos) :=
            copyString k.bytes (pageRest va0 srcva max) (pa0 + (srcva - va0)) max dst pos
          copyinstrLoop k pagetable fuel gotNull ((va0 + pgsize) % 2 ^ 64) max dst pos
      else .ok (if gotNull then 0 else -1, dst)

/-- `copyinstr`. Each round copies a byte or more. -/
def copyinstr (k : Kernel) (pagetable : Nat) (dst : ByteBlock.Bytes) (srcva max : Nat) :
    Except Fault (Int × ByteBlock.Bytes) :=
  if srcva = 0 then .ok (0, Function.update dst 0 0)
  else copyinstrLoop k pagetable (max + 1) false srcva max dst 0

/-! ## User addresses -/

/-- The user can read at the address. -/
def Readable (memory : Vm.Memory) (root a : Nat) : Prop :=
  a < maxva ∧ ∃ pa flags, lookup memory root a = some (pa, flags) ∧ flags &&& pteU ≠ 0

/-- The user can write at the address, or there will be a page of the user to write to. -/
def Writable (memory : Vm.Memory) (root a : Nat) : Prop :=
  a < maxva ∧ ∃ pa flags, lookup memory root a = some (pa, flags) ∧ flags &&& pteU ≠ 0 ∧
    (flags &&& pteW ≠ 0 ∨ flags &&& pteCow ≠ 0)

/-- A page table whose pages are pages of the memory, and have their counters if they are to be
copied. -/
structure UserSpace (k : Kernel) (root : Nat) (tables : List Nat) : Prop where
  /-- The page table. -/
  sound : Sound k root tables
  /-- There is no page at the physical address 0. -/
  backed : ∀ va pa flags, pgsize ∣ va → va < maxva → lookup k.memory root va = some (pa, flags) →
    pa ≠ 0
  /-- A page that is to be copied is counted. -/
  counted : ∀ va pa flags, pgsize ∣ va → va < maxva → lookup k.memory root va = some (pa, flags) →
    flags &&& pteU ≠ 0 → flags &&& pteW = 0 → flags &&& pteCow ≠ 0 → k.refcnt pa ≠ 0

theorem pgrounddown_lt {a : Nat} (fits : a < 2 ^ 64) :
    pgrounddown a ≤ a ∧ a < pgrounddown a + pgsize := by
  rw [pgrounddown_eq fits, show pgsize = 4096 from rfl]
  omega

theorem sub_pgrounddown {a : Nat} (fits : a < 2 ^ 64) : a - pgrounddown a = a % pgsize := by
  rw [pgrounddown_eq fits, show pgsize = 4096 from rfl]
  omega

/-- A page is below `MAXVA` exactly if its addresses are. -/
theorem pgrounddown_low_iff {a : Nat} (fits : a < 2 ^ 64) : pgrounddown a < maxva ↔ a < maxva := by
  have bound : maxva = 2 ^ 38 := by decide
  rw [pgrounddown_eq fits, bound, show pgsize = 4096 from rfl]
  omega

/-- The addresses from one inside a page up to its end belong to that page. -/
theorem pgrounddown_add {a i : Nat} (fits : a < 2 ^ 64) (inside : a % pgsize + i < pgsize)
    (top : a + i < 2 ^ 64) : pgrounddown (a + i) = pgrounddown a ∧
    (a + i) % pgsize = a % pgsize + i := by
  rw [pgrounddown_eq fits, pgrounddown_eq top, show pgsize = 4096 from rfl] at *
  omega

theorem walkaddr_of_high (high : maxva ≤ va) : walkaddr k.memory root va = 0 := if_pos high

/-- `walkaddr` of a page of the user. -/
theorem walkaddr_user {memory : Vm.Memory} (low : va < maxva)
    (present : lookup memory root va = some (pa, flags)) (user : flags &&& pteU ≠ 0) :
    walkaddr memory root va = pa := by
  obtain ⟨table, leads, valid, pa_eq, flags_eq⟩ := exists_leads present
  have user_entry : memory table (px 0 va) &&& pteU ≠ 0 := by
    intro none
    rw [flags_eq] at user
    exact user ((pteFlags_and _ (by decide)).mpr none)
  rw [walkaddr, if_neg (Nat.not_le.mpr low), walkLevels_leads leads]
  dsimp only
  rw [if_neg valid, if_neg user_entry, pa_eq]

/-- `walkaddr` of another page. -/
theorem walkaddr_kernel {memory : Vm.Memory}
    (other : ∀ pa flags, lookup memory root va = some (pa, flags) → flags &&& pteU = 0) :
    walkaddr memory root va = 0 := by
  rw [walkaddr]
  split
  · rfl
  · rw [walkLevels_find]
    cases leads : RadixTree.tableAt child memory root (route va 2) with
    | none => rfl
    | some table =>
        dsimp only [Option.map_some]
        have at_va : lookup memory root va = _ := lookup_of_leads leads
        split
        · rfl
        · next valid =>
            rw [decode_of_valid valid] at at_va
            exact if_pos ((pteFlags_and _ (by decide)).mp (other _ _ at_va))

/-- `walkaddr` finds the pages that the user can read. -/
theorem UserSpace.walkaddr_eq_zero_iff (space : UserSpace k root tables) {a : Nat}
    (fits : a < 2 ^ 64) :
    walkaddr k.memory root (pgrounddown a) = 0 ↔ ¬Readable k.memory root a := by
  constructor
  · rintro zero ⟨low, pa, flags, present, user⟩
    rw [← lookup_pgrounddown fits] at present
    rw [walkaddr_user (pgrounddown_low low) present user] at zero
    exact space.backed _ pa flags (pgrounddown_page fits) (pgrounddown_low low) present zero
  · intro unreadable
    rcases Nat.lt_or_ge a maxva with low | high
    · apply walkaddr_kernel
      intro pa flags present
      by_contra user
      rw [lookup_pgrounddown fits] at present
      exact unreadable ⟨low, pa, flags, present, user⟩
    · exact walkaddr_of_high (Nat.le_of_not_lt fun low =>
        absurd ((pgrounddown_low_iff fits).mp low) (Nat.not_lt.mpr high))

/-- The byte that the user reads. -/
theorem user_byte {a : Nat} (low : a < maxva) (present : lookup k.memory root a = some (pa, flags))
    (user : flags &&& pteU ≠ 0) : (k.user root).bytes a = k.bytes (pa + a % pgsize) := by
  have fits : a < 2 ^ 64 := low.trans (by decide)
  rw [← lookup_pgrounddown fits] at present
  change k.bytes (walkaddr k.memory root (pgrounddown a) + a % pgsize) = _
  rw [walkaddr_user (pgrounddown_low low) present user]

/-- What a round copies: bytes up to the end of the page. -/
theorem pageRest_spec {a : Nat} (fits : a < 2 ^ 64) (positive : 0 < len) :
    0 < pageRest (pgrounddown a) a len ∧ pageRest (pgrounddown a) a len ≤ len ∧
      a % pgsize + pageRest (pgrounddown a) a len ≤ pgsize ∧
      (pageRest (pgrounddown a) a len < len →
        pgrounddown a + pgsize = a + pageRest (pgrounddown a) a len) := by
  have page : pgsize = 4096 := rfl
  have start := sub_pgrounddown fits
  have around := pgrounddown_lt fits
  have below : a % pgsize < pgsize := Nat.mod_lt a (by decide)
  rw [pageRest, start]
  split
  · next short =>
      exact ⟨positive, le_rfl, by omega, fun impossible => absurd impossible (lt_irrefl _)⟩
  · next long => exact ⟨by omega, by omega, by omega, fun _ => by omega⟩

theorem Readable.page {memory : Vm.Memory} {a i : Nat} (readable : Readable memory root a)
    (inside : a % pgsize + i < pgsize) : Readable memory root (a + i) := by
  obtain ⟨low, pa, flags, present, user⟩ := readable
  have low' : a + i < maxva := by
    rw [show maxva = 2 ^ 38 by decide, show pgsize = 4096 from rfl] at *
    omega
  have fits : a < 2 ^ 64 := low.trans (by decide)
  have fits' : a + i < 2 ^ 64 := low'.trans (by decide)
  refine ⟨low', pa, flags, ?_, user⟩
  rw [← lookup_pgrounddown fits', (pgrounddown_add fits inside fits').1, lookup_pgrounddown fits]
  exact present

/-- The bytes of a user range inside a page. -/
theorem copyRange_user {a n : Nat} (fits : a < 2 ^ 64) (inside : a % pgsize + n ≤ pgsize) :
    ByteBlock.copyRange dst pos k.bytes
        (walkaddr k.memory root (pgrounddown a) + (a - pgrounddown a)) n =
      ByteBlock.copyRange dst pos (k.user root).bytes a n := by
  apply ByteBlock.copyRange_congr
  intro i i_lt
  have fits' : a + i < 2 ^ 64 := by
    rw [show pgsize = 4096 from rfl] at inside
    omega
  obtain ⟨same_page, offset⟩ := pgrounddown_add fits (by omega) fits'
  change _ = k.bytes (walkaddr k.memory root (pgrounddown (a + i)) + (a + i) % pgsize)
  rw [same_page, offset, sub_pgrounddown fits, Nat.add_assoc]

/-! ## `copyin` -/

/-- The loop of `copyin` copies up to the first address that the user cannot read. -/
theorem copyinLoop_spec (dst : ByteBlock.Bytes) (pos : Nat) (space : UserSpace k root tables)
    (fits : srcva < 2 ^ 64) (enough : len < fuel) :
    ∃ n ≤ len, copyinLoop k root fuel dst pos srcva len =
        .ok (if n = len then 0 else -1, ByteBlock.copyRange dst pos (k.user root).bytes srcva n) ∧
      (∀ i < n, Readable k.memory root (srcva + i)) ∧
      (n < len → ¬Readable k.memory root (srcva + n)) := by
  induction fuel generalizing dst pos srcva len with
  | zero => exact absurd enough (Nat.not_lt_zero _)
  | succ fuel ih =>
      rw [copyinLoop]
      rcases Nat.eq_zero_or_pos len with rfl | positive
      · refine ⟨0, le_rfl, ?_, fun i impossible => absurd impossible (Nat.not_lt_zero i),
          fun impossible => absurd impossible (Nat.lt_irrefl 0)⟩
        rw [if_neg (Nat.lt_irrefl 0), if_pos rfl, ByteBlock.copyRange_zero]
      · rw [if_pos positive]
        dsimp only
        by_cases zero : walkaddr k.memory root (pgrounddown srcva) = 0
        · refine ⟨0, positive.le, ?_, fun i impossible => absurd impossible (Nat.not_lt_zero i),
            fun _ => (space.walkaddr_eq_zero_iff fits).mp zero⟩
          rw [if_pos zero, if_neg positive.ne, ByteBlock.copyRange_zero]
        · have readable : Readable k.memory root srcva :=
            not_not.mp fun unreadable => zero ((space.walkaddr_eq_zero_iff fits).mpr unreadable)
          obtain ⟨some, n_le, inside, next⟩ := pageRest_spec fits positive
          rw [if_neg zero, copyRange_user fits inside]
          generalize pageRest (pgrounddown srcva) srcva len = n at some n_le inside next
          have chunk (i : Nat) (i_lt : i < n) : Readable k.memory root (srcva + i) :=
            readable.page (by omega)
          rcases n_le.lt_or_eq with more | rfl
          · have low : srcva + n < 2 ^ 64 := by
              have bound : maxva = 2 ^ 38 := by decide
              have below := readable.1
              have page : pgsize = 4096 := rfl
              omega
            rw [next more, Nat.mod_eq_of_lt low]
            obtain ⟨m, m_le, run, rest, stop⟩ := @ih (srcva + n) (len - n)
              (ByteBlock.copyRange dst pos (k.user root).bytes srcva n) (pos + n) low (by omega)
            refine ⟨n + m, by omega, ?_, ?_, ?_⟩
            · rw [run, ByteBlock.copyRange_copyRange]
              simp only [show m = len - n ↔ n + m = len by omega]
            · intro i i_lt
              rcases Nat.lt_or_ge i n with first | later
              · exact chunk i first
              · have from_n := rest (i - n) (by omega)
                rwa [Nat.add_assoc, Nat.add_sub_cancel' later] at from_n
            · intro before
              rw [← Nat.add_assoc]
              exact stop (by omega)
          · refine ⟨n, le_rfl, ?_, chunk, fun impossible => absurd impossible (lt_irrefl n)⟩
            obtain ⟨fuel', rfl⟩ : ∃ fuel', fuel = fuel' + 1 :=
              Nat.exists_eq_succ_of_ne_zero (by omega)
            rw [Nat.sub_self, copyinLoop, if_neg (Nat.lt_irrefl 0), if_pos rfl]

/-- `copyin` fails exactly if the user cannot read at an address of the range. -/
theorem copyin_iff (space : UserSpace k root tables) (fits : srcva < 2 ^ 64) (dst : ByteBlock.Bytes)
    (len : Nat) : ∃ code after, copyin k root dst srcva len = .ok (code, after) ∧
      (code = 0 ∨ code = -1) ∧ (code = -1 ↔ ∃ i < len, ¬Readable k.memory root (srcva + i)) ∧
      ((∀ i < len, Readable k.memory root (srcva + i)) →
        code = 0 ∧ after = ByteBlock.copyRange dst 0 (k.user root).bytes srcva len) := by
  obtain ⟨n, n_le, run, readable, stop⟩ :=
    copyinLoop_spec dst 0 space fits (Nat.lt_succ_self len)
  refine ⟨_, _, run, ?_, ?_, ?_⟩
  · split
    · exact Or.inl rfl
    · exact Or.inr rfl
  · rcases n_le.lt_or_eq with before | rfl
    · rw [if_neg before.ne]
      exact ⟨fun _ => ⟨n, before, stop before⟩, fun _ => rfl⟩
    · rw [if_pos rfl]
      constructor
      · intro impossible
        exact absurd impossible (by decide)
      · rintro ⟨i, i_lt, unreadable⟩
        exact absurd (readable i i_lt) unreadable
  · intro all
    have whole : n = len := by
      by_contra other
      have before := n_le.lt_of_ne other
      exact stop before (all n before)
    rw [whole, if_pos rfl]
    exact ⟨rfl, rfl⟩

/-! ## `copyinstr` -/

theorem copyRange_one (dst : ByteBlock.Bytes) (pos : Nat) (bytes : ByteBlock.Bytes) (p : Nat) :
    ByteBlock.copyRange dst pos bytes p 1 = Function.update dst pos (bytes p) := by
  funext i
  rw [ByteBlock.copyRange, Function.update_apply]
  rcases eq_or_ne i pos with rfl | other
  · rw [if_pos (by omega), if_pos rfl, Nat.sub_self, Nat.add_zero]
  · rw [if_neg (by omega), if_neg other]

/-- What the inner loop of `copyinstr` has done: it copied `n` bytes, or up to a zero. -/
inductive StringCase (bytes : ByteBlock.Bytes) (n p max : Nat) (dst : ByteBlock.Bytes) (pos : Nat) :
    Bool × Nat × ByteBlock.Bytes × Nat → Prop
  /-- There is no zero. -/
  | whole (none : ∀ i < n, bytes (p + i) ≠ 0) :
      StringCase bytes n p max dst pos
        (false, max - n, ByteBlock.copyRange dst pos bytes p n, pos + n)
  /-- There is a zero. -/
  | ended (m : Nat) (inside : m < n) (zero : bytes (p + m) = 0)
      (first : ∀ i < m, bytes (p + i) ≠ 0) :
      StringCase bytes n p max dst pos
        (true, max - m, ByteBlock.copyRange dst pos bytes p (m + 1), pos + m)

theorem copyString_cases (bytes : ByteBlock.Bytes) (n p max : Nat) (dst : ByteBlock.Bytes)
    (pos : Nat) :
    StringCase bytes n p max dst pos (copyString bytes n p max dst pos) := by
  induction n generalizing p max dst pos with
  | zero =>
      have whole : StringCase bytes 0 p max dst pos
          (false, max - 0, ByteBlock.copyRange dst pos bytes p 0, pos + 0) :=
        StringCase.whole fun i impossible => absurd impossible (Nat.not_lt_zero i)
      rwa [ByteBlock.copyRange_zero] at whole
  | succ n ih =>
      rw [copyString]
      split
      · next zero =>
          have ended : StringCase bytes (n + 1) p max dst pos
              (true, max - 0, ByteBlock.copyRange dst pos bytes p (0 + 1), pos + 0) :=
            StringCase.ended 0 (Nat.succ_pos n) zero fun i impossible =>
              absurd impossible (Nat.not_lt_zero i)
          rwa [copyRange_one, zero] at ended
      · next more =>
          have rest := ih (p + 1) (max - 1) (Function.update dst pos (bytes p)) (pos + 1)
          have from_here (m : Nat) (none : ∀ i < m, bytes (p + 1 + i) ≠ 0) :
              ∀ i < m + 1, bytes (p + i) ≠ 0 := by
            intro i i_lt
            cases i with
            | zero => exact more
            | succ i =>
                have later := none i (Nat.lt_of_succ_lt_succ i_lt)
                rwa [Nat.add_assoc, Nat.add_comm 1] at later
          have join (m : Nat) :
              ByteBlock.copyRange (Function.update dst pos (bytes p)) (pos + 1) bytes (p + 1) m =
                ByteBlock.copyRange dst pos bytes p (m + 1) := by
            rw [← copyRange_one, ByteBlock.copyRange_copyRange, Nat.add_comm]
          generalize copyString bytes n (p + 1) (max - 1) (Function.update dst pos (bytes p))
            (pos + 1) = result at rest
          cases rest with
          | whole none =>
              rw [join, Nat.sub_sub, Nat.add_comm 1, Nat.add_assoc, Nat.add_comm 1]
              exact StringCase.whole (from_here n none)
          | ended m inside zero first =>
              rw [join, Nat.sub_sub, Nat.add_comm 1, Nat.add_assoc pos, Nat.add_comm 1]
              refine StringCase.ended (m + 1) (Nat.succ_lt_succ inside) ?_ (from_here m first)
              rwa [Nat.add_assoc, Nat.add_comm 1] at zero

/-- What `copyinstr` has done with `max` bytes: it copied a string, or it came to an address that
the user cannot read, or to the end. -/
inductive StringResult (memory : Vm.Memory) (root : Nat) (bytes : ByteBlock.Bytes) (srcva max : Nat)
    (dst : ByteBlock.Bytes) (pos : Nat) : Int → ByteBlock.Bytes → Prop
  /-- A string. -/
  | found (m : Nat) (inside : m < max) (readable : ∀ i ≤ m, Readable memory root (srcva + i))
      (zero : bytes (srcva + m) = 0) (first : ∀ i < m, bytes (srcva + i) ≠ 0) :
      StringResult memory root bytes srcva max dst pos 0
        (ByteBlock.copyRange dst pos bytes srcva (m + 1))
  /-- No string. -/
  | missing (m : Nat) (inside : m ≤ max) (none : ∀ i < m, bytes (srcva + i) ≠ 0)
      (stop : m < max → ¬Readable memory root (srcva + m)) :
      StringResult memory root bytes srcva max dst pos (-1)
        (ByteBlock.copyRange dst pos bytes srcva m)

/-- The loop of `copyinstr` comes to one of these ends. -/
theorem copyinstrLoop_spec (dst : ByteBlock.Bytes) (pos : Nat) (space : UserSpace k root tables)
    (fits : srcva < 2 ^ 64) (enough : max < fuel) :
    ∃ code after, copyinstrLoop k root fuel false srcva max dst pos = .ok (code, after) ∧
      StringResult k.memory root (k.user root).bytes srcva max dst pos code after := by
  induction fuel generalizing dst pos srcva max with
  | zero => exact absurd enough (Nat.not_lt_zero _)
  | succ fuel ih =>
      have nothing (stop : 0 < max → ¬Readable k.memory root srcva) :
          StringResult k.memory root (k.user root).bytes srcva max dst pos (-1) dst := by
        have missing : StringResult k.memory root (k.user root).bytes srcva max dst pos (-1)
            (ByteBlock.copyRange dst pos (k.user root).bytes srcva 0) :=
          StringResult.missing 0 (Nat.zero_le max) (fun i impossible =>
            absurd impossible (Nat.not_lt_zero i)) stop
        rwa [ByteBlock.copyRange_zero] at missing
      rw [copyinstrLoop]
      rcases Nat.eq_zero_or_pos max with rfl | positive
      · rw [if_neg fun both => Nat.lt_irrefl 0 both.2]
        exact ⟨-1, dst, rfl, nothing fun impossible => absurd impossible (Nat.lt_irrefl 0)⟩
      · rw [if_pos ⟨rfl, positive⟩]
        dsimp only
        by_cases unreadable : walkaddr k.memory root (pgrounddown srcva) = 0
        · rw [if_pos unreadable]
          exact ⟨-1, dst, rfl, nothing fun _ => (space.walkaddr_eq_zero_iff fits).mp unreadable⟩
        · have readable : Readable k.memory root srcva :=
            not_not.mp fun not_readable =>
              unreadable ((space.walkaddr_eq_zero_iff fits).mpr not_readable)
          obtain ⟨some, n_le, inside, next⟩ := pageRest_spec fits positive
          rw [if_neg unreadable]
          generalize pageRest (pgrounddown srcva) srcva max = n at some n_le inside next
          have page : pgsize = 4096 := rfl
          have bound : maxva = 2 ^ 38 := by decide
          have below := readable.1
          have chunk (i : Nat) (i_lt : i < n) : Readable k.memory root (srcva + i) :=
            readable.page (by omega)
          have byte (i : Nat) (i_lt : i < n) :
              k.bytes (walkaddr k.memory root (pgrounddown srcva) +
                (srcva - pgrounddown srcva) + i) = (k.user root).bytes (srcva + i) := by
            obtain ⟨same_page, offset⟩ := pgrounddown_add (i := i) fits (by omega) (by omega)
            change _ = k.bytes
              (walkaddr k.memory root (pgrounddown (srcva + i)) + (srcva + i) % pgsize)
            rw [same_page, offset, sub_pgrounddown fits, Nat.add_assoc]
          have copy := copyString_cases k.bytes n
            (walkaddr k.memory root (pgrounddown srcva) + (srcva - pgrounddown srcva)) max dst pos
          generalize copyString k.bytes n
            (walkaddr k.memory root (pgrounddown srcva) + (srcva - pgrounddown srcva)) max dst pos =
              result at copy
          cases copy with
          | ended m m_lt zero first =>
              obtain ⟨fuel', rfl⟩ : ∃ fuel', fuel = fuel' + 1 :=
                Nat.exists_eq_succ_of_ne_zero (by omega)
              dsimp only
              rw [copyinstrLoop, if_neg fun both => Bool.noConfusion both.1, if_pos rfl,
                copyRange_user fits (by omega)]
              refine ⟨0, _, rfl, StringResult.found m (by omega)
                (fun i i_le => chunk i (by omega)) ?_ ?_⟩
              · rw [← byte m m_lt, zero]
              · intro i i_lt
                rw [← byte i (by omega)]
                exact first i i_lt
          | whole none =>
              dsimp only
              rw [copyRange_user fits inside]
              have none_here (i : Nat) (i_lt : i < n) : (k.user root).bytes (srcva + i) ≠ 0 := by
                rw [← byte i i_lt]
                exact none i i_lt
              rcases n_le.lt_or_eq with more | rfl
              · have low : srcva + n < 2 ^ 64 := by omega
                rw [next more, Nat.mod_eq_of_lt low]
                obtain ⟨code, after, run, result⟩ := @ih (srcva + n) (max - n)
                  (ByteBlock.copyRange dst pos (k.user root).bytes srcva n) (pos + n) low (by omega)
                refine ⟨code, after, run, ?_⟩
                have far (i : Nat) (later : n ≤ i) : srcva + n + (i - n) = srcva + i := by omega
                cases result with
                | found m m_lt readable' zero first =>
                    rw [ByteBlock.copyRange_copyRange, ← Nat.add_assoc]
                    refine StringResult.found (n + m) (by omega) ?_ ?_ ?_
                    · intro i i_le
                      rcases Nat.lt_or_ge i n with first' | later
                      · exact chunk i first'
                      · rw [← far i later]
                        exact readable' (i - n) (by omega)
                    · rw [← Nat.add_assoc]
                      exact zero
                    · intro i i_lt
                      rcases Nat.lt_or_ge i n with first' | later
                      · exact none_here i first'
                      · rw [← far i later]
                        exact first (i - n) (by omega)
                | missing m m_le none' stop =>
                    rw [ByteBlock.copyRange_copyRange]
                    refine StringResult.missing (n + m) (by omega) ?_ ?_
                    · intro i i_lt
                      rcases Nat.lt_or_ge i n with first' | later
                      · exact none_here i first'
                      · rw [← far i later]
                        exact none' (i - n) (by omega)
                    · intro before
                      rw [← Nat.add_assoc]
                      exact stop (by omega)
              · obtain ⟨fuel', rfl⟩ : ∃ fuel', fuel = fuel' + 1 :=
                  Nat.exists_eq_succ_of_ne_zero (by omega)
                rw [Nat.sub_self, copyinstrLoop, if_neg fun both => Nat.lt_irrefl 0 both.2]
                exact ⟨-1, _, rfl, StringResult.missing n le_rfl none_here fun impossible =>
                  absurd impossible (lt_irrefl n)⟩

/-- `copyinstr` succeeds exactly if there is a string that the user can read. -/
theorem copyinstr_iff (space : UserSpace k root tables) (fits : srcva < 2 ^ 64)
    (nonzero : srcva ≠ 0) (dst : ByteBlock.Bytes) (max : Nat) :
    ∃ code after, copyinstr k root dst srcva max = .ok (code, after) ∧ (code = 0 ∨ code = -1) ∧
      (code = 0 ↔ ∃ m < max, (∀ i ≤ m, Readable k.memory root (srcva + i)) ∧
        (k.user root).bytes (srcva + m) = 0) ∧
      (code = 0 → ∃ m < max, (∀ i < m, (k.user root).bytes (srcva + i) ≠ 0) ∧
        (k.user root).bytes (srcva + m) = 0 ∧
        after = ByteBlock.copyRange dst 0 (k.user root).bytes srcva (m + 1)) ∧
      ∀ x, max ≤ x → after x = dst x := by
  obtain ⟨code, after, run, result⟩ :=
    copyinstrLoop_spec dst 0 space fits (Nat.lt_succ_self max)
  refine ⟨code, after, ?_, ?_⟩
  · rw [copyinstr, if_neg nonzero]
    exact run
  · cases result with
    | found m inside readable zero first =>
        refine ⟨Or.inl rfl, ⟨fun _ => ⟨m, inside, readable, zero⟩, fun _ => rfl⟩,
          fun _ => ⟨m, inside, first, zero, rfl⟩, fun x beyond => if_neg (by omega)⟩
    | missing m inside none stop =>
        refine ⟨Or.inr rfl, ⟨fun impossible => absurd impossible (by decide), ?_⟩,
          fun impossible => absurd impossible (by decide), fun x beyond => if_neg (by omega)⟩
        rintro ⟨i, i_lt, readable, zero⟩
        have later : m ≤ i := Nat.le_of_not_lt fun before => none i before zero
        exact absurd (readable m later) (stop (later.trans_lt i_lt))

end Mapping
end Xv6Duo
