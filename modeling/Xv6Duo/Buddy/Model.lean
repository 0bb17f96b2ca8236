import Mathlib.Algebra.Group.Nat.Defs
import Mathlib.Logic.Function.Basic
import Xv6Duo.Fault

/-!
# The buddy allocator

`kernel/buddy.c` and the reference counters of `kernel/page.c`, one definition for each function.
A `struct page *` always points into `pages_ref.pages`, so a pointer is an array index and `NULL`
is `none`. Only the two bits of `page->flags` that the kernel names are ever read or written.
The locks are left out: a call here is a call that runs alone.
-/

namespace Xv6Duo
namespace Buddy

/-- `PAGE_SIZE`, the bytes of one page. -/
def pageSize : Nat := 0x1000

/-- `PAGE_NUM`, the pages between `PAGE_START` and `PHYSTOP` of the Duo 256. -/
def pageNum : Nat := (0x8FE00000 - 0x80600000) / pageSize

/-- `PAGE_MAX_ORDER`. -/
def pageMaxOrder : Nat := 10

/-- `PAGE_MAX_DEPTH`, the number of free lists. -/
def pageMaxDepth : Nat := pageMaxOrder + 1

/-- The two named bits of `page->flags`. -/
structure PageFlags where
  /-- `PF_FREE_LIST`. -/
  freeList : Bool
  /-- `PF_FIRST_PAGE`. -/
  firstPage : Bool
  deriving DecidableEq, Repr

/-- `struct page`. -/
structure Page where
  /-- Position in `pages_ref.pages`. -/
  index : Nat
  /-- Flag bits. -/
  flags : PageFlags
  /-- The block headed by this page has `2 ^ order` pages. -/
  order : Nat
  /-- Reference counter, a 32-bit word that wraps. -/
  refcnt : UInt32
  /-- Next head on the same free list. -/
  next : Option Nat
  deriving DecidableEq, Repr

/-- `pages_ref.pages` and the heads of `free_lists`. -/
structure State where
  /-- Page records by index. -/
  pages : Nat → Page
  /-- Head of each free list by order. -/
  freeLists : Nat → Option Nat

namespace State

/-- Store one page record. -/
def setPage (s : State) (i : Nat) (page : Page) : State :=
  { s with pages := Function.update s.pages i page }

/-- Store the head of one free list. -/
def setHead (s : State) (order : Nat) (head : Option Nat) : State :=
  { s with freeLists := Function.update s.freeLists order head }

@[simp] theorem setPage_pages (s : State) (i : Nat) (page : Page) :
    (s.setPage i page).pages = Function.update s.pages i page := rfl

@[simp] theorem setPage_freeLists (s : State) (i : Nat) (page : Page) :
    (s.setPage i page).freeLists = s.freeLists := rfl

@[simp] theorem setHead_pages (s : State) (order : Nat) (head : Option Nat) :
    (s.setHead order head).pages = s.pages := rfl

@[simp] theorem setHead_freeLists (s : State) (order : Nat) (head : Option Nat) :
    (s.setHead order head).freeLists = Function.update s.freeLists order head := rfl

end State

namespace Page

/-- `page->flags |= PF_FREE_LIST`. -/
def markFree (page : Page) : Page := { page with flags := { page.flags with freeList := true } }

/-- `page->flags &= ~PF_FREE_LIST`. -/
def clearFree (page : Page) : Page := { page with flags := { page.flags with freeList := false } }

/-- `page->flags |= PF_FIRST_PAGE`. -/
def markFirst (page : Page) : Page := { page with flags := { page.flags with firstPage := true } }

/-- `page->flags &= ~PF_FIRST_PAGE`. -/
def clearFirst (page : Page) : Page :=
  { page with flags := { page.flags with firstPage := false } }

end Page

/-! ## Initialisation -/

/-- The page record that `buddy_init` leaves at an index: every page knows its index, and every
first page of a largest block is linked to the next one. -/
def initialPage (i : Nat) : Page :=
  let maxPageBlock := 2 ^ pageMaxOrder
  let len := pageNum / maxPageBlock
  if i % maxPageBlock = 0 ∧ i / maxPageBlock < len then
    { index := i
      flags := { freeList := true, firstPage := false }
      order := pageMaxOrder
      refcnt := 0
      next := if i / maxPageBlock < len - 1 then some (i + maxPageBlock) else none }
  else
    { index := i
      flags := { freeList := false, firstPage := false }
      order := 0
      refcnt := 0
      next := none }

/-- `buddy_init`. -/
def buddyInit : State where
  pages := initialPage
  freeLists order := if order = pageMaxOrder then some 0 else none

/-! ## List primitives -/

/-- `buddy_find_buddy_index`. -/
def buddyFindBuddyIndex (page : Page) : Nat :=
  if (page.index >>> page.order) % 2 = 1 then page.index - 2 ^ page.order
  else page.index + 2 ^ page.order

/-- `buddy_list_pop`. -/
def buddyListPop (s : State) (order : Nat) : Option Nat × State :=
  match s.freeLists order with
  | none => (none, s)
  | some i =>
      let page := s.pages i
      (some i, (s.setHead order page.next).setPage i { page.clearFree with next := none })

/-- `buddy_list_push`. -/
def buddyListPush (s : State) (order i : Nat) : State :=
  (s.setHead order (some i)).setPage i
    { (s.pages i).markFree with next := s.freeLists order }

/-- Store through the cursor `pp` of `buddy_list_remove`: the list head before the first node,
else the `next` field of the previous node. -/
def storeLink (s : State) (order : Nat) (before link : Option Nat) : State :=
  match before with
  | none => s.setHead order link
  | some j => s.setPage j { s.pages j with next := link }

/-- The search loop of `buddy_list_remove`. -/
def removeLoop (s : State) (order index : Nat) :
    Nat → Option Nat → Option Nat → Except Fault (Option Nat × State)
  | 0, _, _ => .error .loops
  | _ + 1, _, none => .ok (none, s)
  | fuel + 1, before, some i =>
      if (s.pages i).index = index then
        let unlinked := storeLink s order before (s.pages i).next
        .ok (some i, unlinked.setPage i { (unlinked.pages i).clearFree with next := none })
      else
        removeLoop s order index fuel (some i) (s.pages i).next

/-- `buddy_list_remove`. -/
def buddyListRemove (s : State) (order index : Nat) : Except Fault (Option Nat × State) :=
  removeLoop s order index (pageNum + 1) none (s.freeLists order)

/-- `buddy_is_free_buddy`. -/
def buddyIsFreeBuddy (page bp : Page) : Bool :=
  bp.flags.freeList && bp.order == page.order

/-! ## Allocation -/

/-- The first loop of `buddy_pull_block`: pop from the first non-empty list at or above `order`;
`fuel` lists are left. -/
def pullLoop (s : State) : Nat → Nat → Except Fault (Nat × Nat × State)
  | _, 0 => .error .outOfMemory
  | order, fuel + 1 =>
      match buddyListPop s order with
      | (some i, popped) => .ok (order, i, popped)
      | (none, _) => pullLoop s (order + 1) fuel

/-- The second loop of `buddy_pull_block`: keep the lower half of order `start + count - 1` on its
list and go on with the upper half, `count` times. -/
def splitLoop (start : Nat) : Nat → Nat → State → Nat × State
  | 0, i, s => (i, s)
  | count + 1, i, s =>
      let order := start + count
      let kept := (s.setHead order (some i)).setPage i
        { (s.pages i).markFree with order := order }
      splitLoop start count (i + 2 ^ order) kept

/-- `buddy_pull_block`. -/
def buddyPullBlock (s : State) (start : Nat) : Except Fault (Nat × State) := do
  let (order, i, popped) ← pullLoop s (start + 1) (pageMaxDepth - (start + 1))
  let (last, split) := splitLoop start (order - start) i popped
  return (last, split.setPage last { split.pages last with order := start })

/-- The order search of `buddy_alloc`; `fuel` lists are left. -/
def allocLoop (s : State) (size : Nat) : Nat → Nat → Except Fault (Nat × State)
  | _, 0 => .error .noMemory
  | order, fuel + 1 =>
      if size ≤ 2 ^ order * pageSize then
        match buddyListPop s order with
        | (some i, popped) => .ok (i, popped)
        | (none, _) => buddyPullBlock s order
      else
        allocLoop s size (order + 1) fuel

/-- `buddy_alloc`. -/
def buddyAlloc (s : State) (size : Nat) : Except Fault (Nat × State) := do
  let (i, taken) ← allocLoop s size 0 pageMaxDepth
  return (i, taken.setPage i { (taken.pages i).markFirst with refcnt := 1 })

/-! ## Release -/

/-- What one pass through `buddy_free` leaves to do. -/
inductive Pass
  /-- The call returns. -/
  | done (s : State)
  /-- The call is repeated on the merged block. -/
  | merged (i : Nat) (s : State)

/-- One pass through `buddy_free`, up to its recursive call. -/
def buddyFreePass (s : State) (i : Nat) : Except Fault Pass :=
  let page := s.pages i
  if 1 < page.refcnt then
    .ok (.done (s.setPage i { page with refcnt := page.refcnt - 1 }))
  else
    let bi := buddyFindBuddyIndex page
    let bp := s.pages bi
    let cleared := s.setPage i page.clearFirst
    if page.order = pageMaxOrder ∨ ¬buddyIsFreeBuddy page bp then
      .ok (.done (buddyListPush cleared page.order i))
    else do
      let detached := cleared.setPage i { (cleared.pages i).clearFree with next := none }
      let (removed, s) ← buddyListRemove detached page.order bi
      match removed with
      | none => .error .brokenPage
      | some p =>
          if (bi >>> page.order) % 2 = 1 then
            let s := s.setPage p { s.pages p with order := 0 }
            .ok (.merged i (s.setPage i { s.pages i with order := (s.pages i).order + 1 }))
          else
            let s := s.setPage i { s.pages i with order := 0 }
            .ok (.merged p (s.setPage p { s.pages p with order := (s.pages p).order + 1 }))

/-- `buddy_free` with a bound on its recursion. -/
def freeLoop : Nat → State → Nat → Except Fault State
  | 0, _, _ => .error .loops
  | fuel + 1, s, i =>
      match buddyFreePass s i with
      | .error fault => .error fault
      | .ok (.done s) => .ok s
      | .ok (.merged j s) => freeLoop fuel s j

/-- `buddy_free`. -/
def buddyFree (s : State) (i : Nat) : Except Fault State :=
  freeLoop pageMaxDepth s i

/-- `page_refcnt_inc`. -/
def pageRefcntInc (s : State) (i : Nat) : State :=
  s.setPage i { s.pages i with refcnt := (s.pages i).refcnt + 1 }

end Buddy
end Xv6Duo
