import Mathlib.Data.List.Nodup
import Mathlib.Logic.Function.Basic

/-!
# Singly linked lists in a memory of links

A memory maps every node to the node behind it, if there is one.
`PointerChain` says that the nodes found from a given pointer on are those of
a list, up to the null pointer.  A chain determines its list, and it is not
touched by writes to links of other nodes.
-/

variable {α : Type*}

/-- Following the links from the pointer gives the nodes of the list and then
null. -/
inductive PointerChain (next : α → Option α) : Option α → List α → Prop
  | null : PointerChain next none []
  | node {pointer : α} {items : List α} :
      PointerChain next (next pointer) items →
      PointerChain next (some pointer) (pointer :: items)

/-- Following the links from the pointer leads to the node. -/
inductive PointsTo (next : α → Option α) : Option α → α → Prop
  | here (target : α) : PointsTo next (some target) target
  | behind {pointer target : α} :
      PointsTo next (next pointer) target →
      PointsTo next (some pointer) target

namespace PointerChain

variable {next : α → Option α} {pointer : Option α} {items : List α}

theorem mem_of_pointsTo {target : α}
    (points : PointsTo next pointer target)
    (chain : PointerChain next pointer items) :
    target ∈ items := by
  induction points generalizing items with
  | here target =>
      cases chain with
      | node _ =>
          exact List.mem_cons_self
  | behind _ inductionHypothesis =>
      cases chain with
      | node rest =>
          exact List.mem_cons_of_mem _ (inductionHypothesis rest)

/-- The front of a chain at a node. -/
theorem front {node : α}
    (chain : PointerChain next (some node) items) :
    ∃ rest, items = node :: rest ∧
      PointerChain next (next node) rest := by
  cases chain with
  | node rest =>
      exact ⟨_, rfl, rest⟩

/-- Writing the link of a node outside leaves a chain as it is. -/
theorem update [DecidableEq α]
    (chain : PointerChain next pointer items)
    {node : α} (outside : node ∉ items) (link : Option α) :
    PointerChain (Function.update next node link) pointer items := by
  induction chain with
  | null =>
      exact .null
  | @node pointer items _ inductionHypothesis =>
      obtain ⟨different, later⟩ := not_or.mp (List.mem_cons.not.mp outside)
      apply PointerChain.node
      rw [Function.update_of_ne (Ne.symm different)]
      exact inductionHypothesis later

/-- A chain sees the links of its own nodes only. -/
theorem congr {later : α → Option α}
    (chain : PointerChain next pointer items)
    (same : ∀ node ∈ items, later node = next node) :
    PointerChain later pointer items := by
  induction chain with
  | null =>
      exact .null
  | @node pointer items _ inductionHypothesis =>
      apply PointerChain.node
      rw [same pointer List.mem_cons_self]
      exact inductionHypothesis fun node inside =>
        same node (List.mem_cons_of_mem _ inside)

/-- The links determine the nodes. -/
theorem unique {others : List α}
    (chain : PointerChain next pointer items)
    (other : PointerChain next pointer others) : items = others := by
  induction chain generalizing others with
  | null =>
      cases other with
      | null =>
          rfl
  | node _ inductionHypothesis =>
      cases other with
      | node rest =>
          rw [inductionHypothesis rest]

/-- A node whose link is the pointer goes in front of its chain. -/
theorem push {node : α} (linked : next node = pointer)
    (chain : PointerChain next pointer items) :
    PointerChain next (some node) (node :: items) := by
  apply PointerChain.node
  rw [linked]
  exact chain

end PointerChain
