import Mathlib.Data.List.Nodup
import Mathlib.Logic.Function.Basic
import Mathlib.Tactic

/-!
# Rings of pointers

A doubly linked list with a head node is a pair of maps `next` and `prev` on `Option α`, where
`none` is the head. `Visits next start nodes` says that following `next` from `start` passes exactly
the listed nodes and then comes to the head; a ring is a list that `next` visits forwards and `prev`
backwards. Splicing a node in or out is an update of one link in each direction.
-/

namespace Ring

variable {α : Type*} {next : Option α → Option α}

/-- Following `next` from `start` passes exactly `nodes` and then comes to the head. -/
def Visits (next : Option α → Option α) : Option α → List α → Prop
  | start, [] => next start = none
  | start, node :: nodes => next start = some node ∧ Visits next (some node) nodes

/-- The last node passed, or the start. -/
def lastOf : Option α → List α → Option α
  | start, [] => start
  | _, node :: nodes => lastOf (some node) nodes

theorem lastOf_some (first : α) (nodes : List α) :
    lastOf (some first) nodes = (first :: nodes).getLast? := by
  induction nodes generalizing first with
  | nil => rfl
  | cons node nodes ih => rw [lastOf, ih node, List.getLast?_cons_cons]

theorem lastOf_none (nodes : List α) : lastOf none nodes = nodes.getLast? := by
  cases nodes with
  | nil => rfl
  | cons node nodes => exact lastOf_some node nodes

/-- Behind the first node the last one is a node. -/
theorem ne_lastOf {start : Option α} {first : α} {nodes : List α}
    (outside : ∀ inner ∈ first :: nodes, start ≠ some inner) :
    start ≠ lastOf (some first) nodes := by
  induction nodes generalizing first with
  | nil => exact outside first List.mem_cons_self
  | cons second nodes ih => exact ih fun inner mem => outside inner (List.mem_cons_of_mem _ mem)

/-- The first link leads to the first node. -/
theorem Visits.next_start {start : Option α} {nodes : List α} (visits : Visits next start nodes) :
    next start = nodes.head? := by
  cases nodes with
  | nil => exact visits
  | cons node nodes => exact visits.1

/-- The link of a node leads to the node behind it. -/
theorem Visits.next_node {start : Option α} {front back : List α} {node : α}
    (visits : Visits next start (front ++ node :: back)) : next (some node) = back.head? := by
  induction front generalizing start with
  | nil => exact visits.2.next_start
  | cons first front ih => exact ih visits.2

/-- A visit depends on the links of the start and of the nodes. -/
theorem Visits.congr {other : Option α → Option α} {start : Option α} {nodes : List α}
    (visits : Visits next start nodes) (start_eq : other start = next start)
    (agree : ∀ node ∈ nodes, other (some node) = next (some node)) : Visits other start nodes := by
  induction nodes generalizing start with
  | nil => exact start_eq.trans visits
  | cons node nodes ih =>
      refine ⟨start_eq.trans visits.1, ih visits.2 (agree node List.mem_cons_self) ?_⟩
      exact fun inner mem => agree inner (List.mem_cons_of_mem node mem)

section Splice

variable [DecidableEq α]

/-- Leading the link before a node past it takes it out. -/
theorem Visits.remove {start : Option α} {front back : List α} {node : α}
    (visits : Visits next start (front ++ node :: back))
    (distinct : (front ++ node :: back).Nodup)
    (outside : ∀ inner ∈ front ++ node :: back, start ≠ some inner) :
    Visits (Function.update next (lastOf start front) back.head?) start (front ++ back) := by
  induction front generalizing start with
  | nil =>
      rw [List.nil_append, List.nodup_cons] at distinct
      cases back with
      | nil => exact Function.update_self ..
      | cons first back =>
          refine ⟨Function.update_self .., ?_⟩
          obtain ⟨-, -, behind⟩ := visits
          refine behind.congr (Function.update_of_ne ?_ ..) fun inner mem => ?_
          · exact (outside first (by simp)).symm
          · exact Function.update_of_ne (outside inner (by simp [mem])).symm ..
  | cons first front ih =>
      rw [List.cons_append, List.nodup_cons] at distinct
      have rest := ih visits.2 distinct.2 fun inner mem same =>
        distinct.1 (Option.some.inj same ▸ mem)
      refine ⟨?_, rest⟩
      have away : start ≠ lastOf (some first) front :=
        ne_lastOf fun inner mem => outside inner (List.mem_append_left _ mem)
      exact (Function.update_of_ne away ..).trans visits.1

/-- Leading the last link to a new node adds it at the end. -/
theorem Visits.append {start : Option α} {nodes : List α} {node : α}
    (visits : Visits next start nodes) (distinct : nodes.Nodup) (fresh : node ∉ nodes)
    (outside : ∀ inner ∈ nodes, start ≠ some inner) (differ : start ≠ some node) :
    Visits (Function.update (Function.update next (some node) none) (lastOf start nodes)
      (some node)) start (nodes ++ [node]) := by
  induction nodes generalizing start with
  | nil =>
      refine ⟨Function.update_self .., ?_⟩
      exact (Function.update_of_ne differ.symm ..).trans (Function.update_self ..)
  | cons first nodes ih =>
      rw [List.nodup_cons] at distinct
      have fresh_rest : node ∉ nodes := fun mem => fresh (List.mem_cons_of_mem _ mem)
      have differ_first : some first ≠ some node := fun same =>
        fresh (Option.some.inj same ▸ List.mem_cons_self)
      have rest := ih visits.2 distinct.2 fresh_rest
        (fun inner mem same => distinct.1 (Option.some.inj same ▸ mem)) differ_first
      refine ⟨?_, rest⟩
      rw [lastOf, Function.update_of_ne (ne_lastOf outside), Function.update_of_ne differ]
      exact visits.1

/-- A new node in front. -/
theorem Visits.push {start : Option α} {nodes : List α} {node : α}
    (visits : Visits next start nodes) (fresh : node ∉ nodes)
    (outside : ∀ inner ∈ nodes, start ≠ some inner) (differ : start ≠ some node) :
    Visits (Function.update (Function.update next start (some node)) (some node) nodes.head?) start
      (node :: nodes) := by
  refine ⟨(Function.update_of_ne differ ..).trans (Function.update_self ..), ?_⟩
  have behind : ∀ inner ∈ nodes,
      Function.update (Function.update next start (some node)) (some node) nodes.head?
        (some inner) = next (some inner) := by
    intro inner mem
    rw [Function.update_of_ne, Function.update_of_ne (outside inner mem).symm]
    rintro same
    exact fresh (Option.some.inj same ▸ mem)
  cases nodes with
  | nil => exact Function.update_self ..
  | cons first nodes =>
      refine ⟨Function.update_self .., ?_⟩
      refine visits.2.congr (behind first List.mem_cons_self) fun inner mem => ?_
      exact behind inner (List.mem_cons_of_mem _ mem)

end Splice

/-- The links of a list with a head. -/
structure Links (α : Type*) where
  /-- Forwards. -/
  next : Option α → Option α
  /-- Backwards. -/
  prev : Option α → Option α

/-- The links lead through the nodes forwards and backwards. -/
structure IsRing (links : Links α) (nodes : List α) : Prop where
  /-- No node comes twice. -/
  distinct : nodes.Nodup
  /-- Forwards. -/
  forwards : Visits links.next none nodes
  /-- Backwards. -/
  backwards : Visits links.prev none nodes.reverse

section Operations

variable [DecidableEq α] {links : Links α}

/-- Taking a node out. -/
theorem IsRing.remove {front back : List α} {node : α}
    (ring : IsRing links (front ++ node :: back)) :
    IsRing ⟨Function.update links.next (links.prev (some node)) (links.next (some node)),
      Function.update links.prev (links.next (some node)) (links.prev (some node))⟩
      (front ++ back) := by
  have reversed : (front ++ node :: back).reverse = back.reverse ++ node :: front.reverse := by simp
  have backwards := ring.backwards
  rw [reversed] at backwards
  have next_eq := ring.forwards.next_node
  have prev_eq := backwards.next_node
  rw [List.head?_reverse] at prev_eq
  have before : lastOf none front = front.getLast? := lastOf_none front
  have behind : lastOf none back.reverse = back.head? := by
    rw [lastOf_none, List.getLast?_reverse]
  have distinct_reversed : (back.reverse ++ node :: front.reverse).Nodup := by
    rw [← reversed]
    exact List.nodup_reverse.mpr ring.distinct
  refine ⟨?_, ?_, ?_⟩
  · exact ring.distinct.sublist ((List.sublist_cons_self node back).append_left front)
  · have removed :=
      ring.forwards.remove ring.distinct fun inner _ => (Option.some_ne_none inner).symm
    rw [before] at removed
    rw [next_eq, prev_eq]
    exact removed
  · have removed :=
      backwards.remove distinct_reversed fun inner _ => (Option.some_ne_none inner).symm
    rw [behind, List.head?_reverse] at removed
    rw [next_eq, prev_eq, List.reverse_append]
    exact removed

/-- Putting a node at the end. -/
theorem IsRing.append {nodes : List α} {node : α} (ring : IsRing links nodes)
    (fresh : node ∉ nodes) :
    IsRing ⟨Function.update (Function.update links.next (some node) none) (links.prev none)
      (some node),
      Function.update (Function.update links.prev none (some node)) (some node) (links.prev none)⟩
      (nodes ++ [node]) := by
  have prev_eq := ring.backwards.next_start
  rw [List.head?_reverse] at prev_eq
  have fresh_reversed : node ∉ nodes.reverse := fun mem => fresh (List.mem_reverse.mp mem)
  refine ⟨?_, ?_, ?_⟩
  · rw [List.nodup_append]
    refine ⟨ring.distinct, List.nodup_singleton node, fun inner mem other single => ?_⟩
    rw [List.mem_singleton.mp single]
    rintro rfl
    exact fresh mem
  · have appended :=
      ring.forwards.append ring.distinct fresh (fun inner _ => (Option.some_ne_none inner).symm)
      (Option.some_ne_none node).symm
    rw [lastOf_none] at appended
    rw [prev_eq]
    exact appended
  · have pushed :=
      ring.backwards.push fresh_reversed (fun inner _ => (Option.some_ne_none inner).symm)
      (Option.some_ne_none node).symm
    rw [List.head?_reverse] at pushed
    rw [prev_eq, List.reverse_append]
    exact pushed

end Operations

/-! ## Walking along the links -/

variable {ε : Type*}

/-- Follow links from a pointer to the first node that passes a test, or to the head. -/
def walk (next : Option α → Option α) (test : α → Bool) (stuck : ε) :
    Nat → Option α → Except ε (Option α)
  | 0, _ => .error stuck
  | _ + 1, none => .ok none
  | fuel + 1, some node =>
      if test node then .ok (some node) else walk next test stuck fuel (next (some node))

/-- A walk along a ring finds the first node that passes the test. -/
theorem Visits.walk_eq {start : Option α} {nodes : List α} (visits : Visits next start nodes)
    (test : α → Bool) (stuck : ε) {fuel : Nat} (enough : nodes.length < fuel) :
    walk next test stuck fuel (next start) = .ok (nodes.find? test) := by
  induction nodes generalizing start fuel with
  | nil =>
      obtain ⟨fuel, rfl⟩ : ∃ rest, fuel = rest + 1 := ⟨fuel - 1, by omega⟩
      have at_head : next start = none := visits
      rw [at_head]
      rfl
  | cons node nodes ih =>
      obtain ⟨fuel, rfl⟩ : ∃ rest, fuel = rest + 1 := ⟨fuel - 1, by omega⟩
      rw [visits.1, walk, List.find?_cons]
      cases test node with
      | true => rfl
      | false => exact ih visits.2 (by simpa using enough)

end Ring
