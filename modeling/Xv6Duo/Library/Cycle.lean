import Mathlib.Data.List.Nodup
import Mathlib.Logic.Function.Basic
import Mathlib.Tactic

/-!
# Circular lists

A circular singly linked list is a map `link` that leads from each node to the next and from the
last one back to the first. `IsCycle link nodes` says this for a list of nodes; it may start at any
node. A node is put in or taken out behind the last one, so a change of the circle is a rotation and
an update of one link.
-/

namespace LinkCycle

variable {α : Type*}

/-- Following `link` from `start` passes exactly `nodes` and comes to `finish`. -/
def Path (link : α → α) : α → List α → α → Prop
  | start, [], finish => link start = finish
  | start, node :: nodes, finish => link start = node ∧ Path link node nodes finish

/-- Following `link` from the first node passes the others and comes back. -/
def IsCycle (link : α → α) : List α → Prop
  | [] => False
  | first :: nodes => Path link first nodes first

variable {link : α → α}

theorem path_append {start finish middle : α} {front back : List α} :
    Path link start (front ++ middle :: back) finish ↔
      Path link start front middle ∧ Path link middle back finish := by
  induction front generalizing start with
  | nil => exact Iff.rfl
  | cons node front ih =>
      rw [List.cons_append, Path, Path, ih, and_assoc]

/-- A circle starts at any of its nodes. -/
theorem IsCycle.rotate {front back : List α} (cycle : IsCycle link (front ++ back)) :
    IsCycle link (back ++ front) := by
  cases front with
  | nil => simpa using cycle
  | cons first front =>
      cases back with
      | nil => simpa using cycle
      | cons second back =>
          obtain ⟨there, home⟩ := path_append.mp cycle
          exact path_append.mpr ⟨home, there⟩

/-- A path depends on the links of its nodes. -/
theorem Path.congr {other : α → α} {start finish : α} {nodes : List α}
    (path : Path link start nodes finish)
    (agree : ∀ node ∈ start :: nodes, other node = link node) :
    Path other start nodes finish := by
  induction nodes generalizing start with
  | nil => exact (agree start List.mem_cons_self).trans path
  | cons node nodes ih =>
      refine ⟨(agree start List.mem_cons_self).trans path.1, ih path.2 ?_⟩
      exact fun inner member => agree inner (List.mem_cons_of_mem start member)

theorem IsCycle.congr {other : α → α} {nodes : List α} (cycle : IsCycle link nodes)
    (agree : ∀ node ∈ nodes, other node = link node) : IsCycle other nodes := by
  cases nodes with
  | nil => exact cycle
  | cons first nodes => exact Path.congr cycle agree

/-- The link of the last node leads to the first. -/
theorem IsCycle.link_last {first last : α} {nodes : List α} (cycle : IsCycle link (first :: nodes))
    (is_last : (first :: nodes).getLast? = some last) : link last = first := by
  rcases List.eq_nil_or_concat' nodes with rfl | ⟨front, final, rfl⟩
  · cases is_last
    exact cycle
  · rw [← List.cons_append, List.getLast?_concat] at is_last
    rw [Option.some.inj is_last] at cycle
    exact (path_append.mp cycle).2

/-- The link of a node leads to a node. -/
theorem IsCycle.link_mem {node : α} {nodes : List α} (cycle : IsCycle link nodes)
    (member : node ∈ nodes) : link node ∈ nodes := by
  obtain ⟨front, back, rfl⟩ := List.append_of_mem member
  have turned : IsCycle link (node :: back ++ front) := cycle.rotate
  rw [List.cons_append] at turned
  have leads : link node ∈ node :: (back ++ front) := by
    cases rest : back ++ front with
    | nil =>
        rw [rest] at turned
        have home : link node = node := turned
        rw [home]
        exact List.mem_cons_self
    | cons second rest' =>
        rw [rest] at turned
        have next : link node = second := turned.1
        rw [next]
        exact List.mem_cons_of_mem _ List.mem_cons_self
  simp only [List.mem_cons, List.mem_append] at leads ⊢
  tauto

/-- A circle turned so that it ends with a node begins with the next. -/
theorem IsCycle.split_after {node : α} {nodes : List α} (cycle : IsCycle link nodes)
    (member : node ∈ nodes) :
    ∃ front back, nodes = front ++ back ∧ (back ++ front).getLast? = some node ∧
      (back ++ front).head? = some (link node) := by
  obtain ⟨front, back, rfl⟩ := List.append_of_mem member
  have last : (back ++ (front ++ [node])).getLast? = some node := by
    rw [← List.append_assoc, List.getLast?_concat]
  refine ⟨front ++ [node], back, by simp, last, ?_⟩
  have turned : IsCycle link (back ++ (front ++ [node])) := by
    apply IsCycle.rotate
    simpa using cycle
  cases whole : back ++ (front ++ [node]) with
  | nil => simp at whole
  | cons first rest =>
      rw [whole] at turned last
      rw [turned.link_last last]
      rfl

section Change

variable [DecidableEq α]

/-- The link of the last node of a path is led elsewhere. -/
theorem Path.retarget {start finish other last : α} {nodes : List α}
    (path : Path link start nodes finish) (distinct : (start :: nodes).Nodup)
    (is_last : (start :: nodes).getLast? = some last) :
    Path (Function.update link last other) start nodes other := by
  induction nodes generalizing start with
  | nil =>
      cases is_last
      exact Function.update_self ..
  | cons node nodes ih =>
      obtain ⟨fresh, rest⟩ := List.nodup_cons.mp distinct
      rw [List.getLast?_cons_cons] at is_last
      have differs : start ≠ last := by
        rintro rfl
        exact fresh (List.mem_of_getLast? is_last)
      exact ⟨(Function.update_of_ne differs ..).trans path.1, ih path.2 rest is_last⟩

/-- A node is put in between the last node and the first. -/
theorem IsCycle.insert {first last node : α} {nodes : List α}
    (cycle : IsCycle link (first :: nodes)) (distinct : (first :: nodes).Nodup)
    (is_last : (first :: nodes).getLast? = some last) (fresh : node ∉ first :: nodes) :
    IsCycle (Function.update (Function.update link node first) last node)
      (node :: first :: nodes) := by
  have differs : node ≠ last := by
    rintro rfl
    exact fresh (List.mem_of_getLast? is_last)
  constructor
  · rw [Function.update_of_ne differs, Function.update_self]
  · have kept : Path (Function.update link node first) first nodes first := by
      refine Path.congr cycle ?_
      intro inner member
      rw [Function.update_of_ne]
      rintro rfl
      exact fresh member
    exact kept.retarget distinct is_last

/-- The first node is taken out. -/
theorem IsCycle.remove {first second last : α} {nodes : List α}
    (cycle : IsCycle link (first :: second :: nodes)) (distinct : (first :: second :: nodes).Nodup)
    (is_last : (second :: nodes).getLast? = some last) :
    IsCycle (Function.update link last second) (second :: nodes) :=
  cycle.2.retarget (List.nodup_cons.mp distinct).2 is_last

end Change

end LinkCycle
