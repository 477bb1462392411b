import Mathlib.Logic.Function.Basic

/-!
# Intrusive linked lists

A list that runs through the `next` field of its nodes.  `Linked next head
nodes` says which nodes it visits.  Pushing and popping a node at the head are
the operations of a free list.
-/

namespace FeaturesOS

universe u

variable {Node : Type u}

/-- The links from `head` on visit `nodes` in this order and end. -/
def Linked (next : Node → Option Node) : Option Node → List Node → Prop
  | head, [] => head = none
  | head, node :: nodes => head = some node ∧ Linked next (next node) nodes

/-- A node that the links from `head` on reach. -/
inductive Visited (next : Node → Option Node) (head : Option Node) :
    Node → Prop where
  | head {node : Node} : head = some node → Visited next head node
  | link {visited node : Node} : Visited next head visited →
      next visited = some node → Visited next head node

namespace Linked

variable {next other : Node → Option Node} {head : Option Node}
variable {node : Node} {nodes : List Node}

/-- Only the links of the visited nodes matter. -/
theorem congr (linked : Linked next head nodes)
    (same : ∀ visited ∈ nodes, other visited = next visited) :
    Linked other head nodes := by
  induction nodes generalizing head with
  | nil => exact linked
  | cons node nodes induction =>
      obtain ⟨first, rest⟩ := linked
      refine ⟨first, ?_⟩
      rw [same node List.mem_cons_self]
      exact induction rest
        (fun visited member => same visited (List.mem_cons_of_mem _ member))

/-- A list with a head visits that node first. -/
theorem of_some (linked : Linked next (some node) nodes) :
    ∃ rest, nodes = node :: rest ∧ Linked next (next node) rest := by
  cases nodes with
  | nil => cases linked
  | cons first rest =>
      obtain ⟨same, linked⟩ := linked
      rw [← Option.some.inj same] at linked
      exact ⟨rest, by rw [Option.some.inj same], linked⟩

/-- A list without a head visits nothing. -/
theorem of_none (linked : Linked next none nodes) : nodes = [] := by
  cases nodes with
  | nil => rfl
  | cons first rest => cases linked.1

/-- The list goes on until its links end. -/
theorem mem_of_link {visited : Node} (linked : Linked next head nodes)
    (member : visited ∈ nodes) (isNext : next visited = some node) :
    node ∈ nodes := by
  induction nodes generalizing head with
  | nil => cases member
  | cons first rest induction =>
      have linked := linked.2
      rcases List.mem_cons.mp member with same | member
      · rw [← same, isNext] at linked
        obtain ⟨last, isRest, _⟩ := linked.of_some
        rw [isRest]
        exact List.mem_cons_of_mem _ List.mem_cons_self
      · exact List.mem_cons_of_mem _ (induction linked member)

theorem visited_iff (linked : Linked next head nodes) :
    Visited next head node ↔ node ∈ nodes := by
  constructor
  · intro visited
    induction visited with
    | head isHead =>
        rw [isHead] at linked
        obtain ⟨rest, isNodes, _⟩ := linked.of_some
        rw [isNodes]
        exact List.mem_cons_self
    | link _ isNext induction => exact linked.mem_of_link induction isNext
  · intro member
    have reaches : ∀ (nodes : List Node) (start : Option Node),
        Linked next start nodes →
        (∀ first, start = some first → Visited next head first) →
        ∀ node ∈ nodes, Visited next head node := by
      intro nodes
      induction nodes with
      | nil =>
          intro start _ _ node member
          cases member
      | cons first rest induction =>
          intro start linked visited node member
          have isVisited := visited first linked.1
          rcases List.mem_cons.mp member with same | member
          · rw [same]
            exact isVisited
          · exact induction _ linked.2 (fun _ => .link isVisited) node member
    exact reaches nodes head linked (fun _ => .head) node member

/-- Links that count up to a bound visit the numbers below it. -/
theorem countUp {next : Nat → Option Nat} {bound : Nat}
    (links : ∀ node, node < bound →
      next node = if node + 1 < bound then some (node + 1) else none)
    (count : Nat) {first : Nat} (last : first + count + 1 = bound) :
    Linked next (some first) (List.range' first (count + 1)) := by
  induction count generalizing first with
  | zero =>
      refine ⟨rfl, ?_⟩
      rw [links first (by omega), if_neg (by omega)]
      rfl
  | succ count induction =>
      rw [List.range'_succ]
      refine ⟨rfl, ?_⟩
      rw [links first (by omega), if_pos (by omega)]
      exact induction (by omega)

variable [DecidableEq Node]

/-- A node that is not on the list becomes its head. -/
theorem push (linked : Linked next head nodes) (absent : node ∉ nodes) :
    Linked (Function.update next node head) (some node) (node :: nodes) := by
  refine ⟨rfl, ?_⟩
  rw [Function.update_self]
  refine linked.congr ?_
  intro visited member
  have different : visited ≠ node := by
    rintro rfl
    exact absent member
  exact Function.update_of_ne different _ _

end Linked

end FeaturesOS
