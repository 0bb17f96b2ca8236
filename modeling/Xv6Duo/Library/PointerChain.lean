import Mathlib.Data.List.Nodup
import Mathlib.Logic.Function.Basic
import Mathlib.Tactic

/-!
# Null-terminated chains

`IsChain next head nodes` says that following the partial map `next` from the pointer `head`
visits exactly the listed nodes, in order, and then ends. A node list of an intrusive linked list
is recovered from memory by this predicate alone, so every list operation is a statement about
the chain before and the chain after an update of `next`.
-/

namespace PointerChain

variable {α : Type*}

/-- Following `next` from `head` lists exactly `nodes`. -/
def IsChain (next : α → Option α) : Option α → List α → Prop
  | head, [] => head = none
  | head, node :: nodes => head = some node ∧ IsChain next (next node) nodes

@[simp]
theorem isChain_nil {next : α → Option α} {head : Option α} :
    IsChain next head [] ↔ head = none := Iff.rfl

@[simp]
theorem isChain_cons {next : α → Option α} {head : Option α} {node : α} {nodes : List α} :
    IsChain next head (node :: nodes) ↔ head = some node ∧ IsChain next (next node) nodes :=
  Iff.rfl

/-- A null pointer heads only the empty chain. -/
theorem isChain_none {next : α → Option α} {nodes : List α}
    (chain : IsChain next none nodes) : nodes = [] := by
  cases nodes with
  | nil => rfl
  | cons node nodes => simp at chain

/-- A chain from a non-null pointer begins with its target. -/
theorem isChain_some {next : α → Option α} {node : α} {nodes : List α}
    (chain : IsChain next (some node) nodes) :
    ∃ rest, nodes = node :: rest ∧ IsChain next (next node) rest := by
  cases nodes with
  | nil => simp at chain
  | cons first rest =>
      obtain ⟨first_eq, rest_chain⟩ := chain
      obtain rfl := Option.some.inj first_eq
      exact ⟨rest, rfl, rest_chain⟩

/-- The nodes visited from a pointer are determined by memory. -/
theorem IsChain.unique {next : α → Option α} {head : Option α} {left right : List α}
    (left_chain : IsChain next head left) (right_chain : IsChain next head right) :
    left = right := by
  induction left generalizing head right with
  | nil =>
      obtain rfl := left_chain
      exact (isChain_none right_chain).symm
  | cons node left ih =>
      obtain ⟨rfl, rest_chain⟩ := left_chain
      obtain ⟨rest, rfl, other_chain⟩ := isChain_some right_chain
      rw [ih rest_chain other_chain]

/-- A chain depends only on the links of its own nodes. -/
theorem IsChain.congr {next other : α → Option α} {head : Option α} {nodes : List α}
    (chain : IsChain next head nodes) (agree : ∀ node ∈ nodes, other node = next node) :
    IsChain other head nodes := by
  induction nodes generalizing head with
  | nil => exact chain
  | cons node nodes ih =>
      obtain ⟨head_eq, rest_chain⟩ := chain
      refine ⟨head_eq, ?_⟩
      rw [agree node List.mem_cons_self]
      exact ih rest_chain fun inner member => agree inner (List.mem_cons_of_mem node member)

/-- Updating the link of a node outside the chain keeps the chain. -/
theorem IsChain.update [DecidableEq α] {next : α → Option α} {head link : Option α}
    {nodes : List α} {node : α} (chain : IsChain next head nodes) (fresh : node ∉ nodes) :
    IsChain (Function.update next node link) head nodes := by
  refine chain.congr fun inner member => ?_
  rw [Function.update_of_ne]
  rintro rfl
  exact fresh member

/-- Push a fresh node in front of a chain. -/
theorem IsChain.push [DecidableEq α] {next : α → Option α} {head : Option α} {nodes : List α}
    {node : α} (chain : IsChain next head nodes) (fresh : node ∉ nodes) :
    IsChain (Function.update next node head) (some node) (node :: nodes) := by
  refine ⟨rfl, ?_⟩
  rw [Function.update_self]
  exact chain.update fresh

/-- A link leads to a node of the chain or ends it. -/
theorem IsChain.next_mem {next : α → Option α} {head : Option α} {nodes : List α} {node : α}
    (chain : IsChain next head nodes) (member : node ∈ nodes) :
    next node = none ∨ ∃ other ∈ nodes, next node = some other := by
  induction nodes generalizing head with
  | nil => cases member
  | cons first nodes ih =>
      rcases List.mem_cons.mp member with rfl | member
      · cases nodes with
        | nil => exact Or.inl chain.2
        | cons second nodes =>
            exact Or.inr ⟨second, List.mem_cons_of_mem _ List.mem_cons_self, chain.2.1⟩
      · rcases ih chain.2 member with ends | ⟨other, inside, leads⟩
        · exact Or.inl ends
        · exact Or.inr ⟨other, List.mem_cons_of_mem _ inside, leads⟩

/-- The link that leaves a segment leads to what follows it. -/
theorem IsChain.suffix {next : α → Option α} {head : Option α} {front : List α} {node : α}
    {back : List α} (chain : IsChain next head (front ++ node :: back)) :
    IsChain next (next node) back := by
  induction front generalizing head with
  | nil => exact chain.2
  | cons first front ih => exact ih chain.2

/-- Redirecting the link of the last node of a segment past the next node unlinks that node. -/
theorem IsChain.unlink [DecidableEq α] {next : α → Option α} {head : Option α}
    {front back : List α} {before node : α}
    (chain : IsChain next head (front ++ before :: node :: back))
    (distinct : (front ++ before :: node :: back).Nodup) :
    IsChain (Function.update next before (next node)) head (front ++ before :: back) := by
  have back_chain : IsChain next (next node) back := by
    have split : IsChain next head ((front ++ [before]) ++ node :: back) := by simpa using chain
    exact split.suffix
  induction front generalizing head with
  | nil =>
      simp only [List.nil_append, List.nodup_cons, List.mem_cons, not_or] at distinct
      refine ⟨chain.1, ?_⟩
      rw [Function.update_self]
      exact back_chain.update distinct.1.2
  | cons first front ih =>
      simp only [List.cons_append, List.nodup_cons, List.mem_append, List.mem_cons,
        not_or] at distinct
      refine ⟨chain.1, ?_⟩
      rw [Function.update_of_ne distinct.1.2.1]
      exact ih chain.2 distinct.2

end PointerChain
