import Changelog.Markdown.Node

/-! # Counting nodes

How often each kind of node occurs below a node. The nodes are visited from the end of the document on, and the
kinds are listed in the order in which they were first met.
-/

namespace Changelog

namespace Node

mutual

/-- How many nodes there are in a tree. -/
def size : Node → Nat
  | { children, .. } => sizeAll children + 1

def sizeAll : List Node → Nat
  | [] => 0
  | node :: nodes => node.size + sizeAll nodes

end

mutual

/-- How many nodes of a tree are of a kind. -/
def count (kind : Kind) : Node → Nat
  | { kind := own, children, .. } => countAll kind children + if own = kind then 1 else 0

def countAll (kind : Kind) : List Node → Nat
  | [] => 0
  | node :: nodes => node.count kind + countAll kind nodes

end

theorem size_eq (node : Node) : node.size = sizeAll node.children + 1 := by
  cases node
  simp only [size]

theorem sizeAll_append (nodes others : List Node) : sizeAll (nodes ++ others) = sizeAll nodes + sizeAll others := by
  induction nodes with
  | nil => simp [sizeAll]
  | cons node nodes ih => simp [sizeAll, ih, Nat.add_assoc]

theorem sizeAll_reverse (nodes : List Node) : sizeAll nodes.reverse = sizeAll nodes := by
  induction nodes with
  | nil => rfl
  | cons node nodes ih => simp [sizeAll_append, sizeAll, ih, Nat.add_comm]

end Node

namespace Survey

/-- How often some kinds occur. -/
abbrev Tally := List (Kind × Nat)

def Tally.add (kind : Kind) : Tally → Tally
  | [] => [(kind, 1)]
  | (other, count) :: rest =>
    if other = kind then (other, count + 1) :: rest else (other, count) :: Tally.add kind rest

def Tally.count (kind : Kind) (tally : Tally) : Nat := ((tally.find? fun item => item.1 = kind).map (·.2)).getD 0

/-- Counts the nodes of a stack and all that is below them. A node is taken from the top of the stack, and its
    children are put there, the last one on top. -/
def tallyStack (tally : Tally) : (stack : List Node) → Tally
  | [] => tally
  | node :: stack => tallyStack (tally.add node.kind) (node.children.reverse ++ stack)
termination_by stack => Node.sizeAll stack
decreasing_by simp [Node.sizeAll_append, Node.sizeAll_reverse, Node.sizeAll, Node.size_eq]

/-- Counts all nodes below a node. -/
def tally (root : Node) : Tally := tallyStack [] root.children.reverse

/-- The kinds that occur most often come first; of those that occur equally often, those met first. -/
def mostCommon (tally : Tally) : Tally := tally.mergeSort fun a b => b.2 ≤ a.2

end Survey

end Changelog
