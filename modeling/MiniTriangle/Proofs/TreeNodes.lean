import MiniTriangle.Tree

/-! The nodes of a tree, at any depth, from the root on. What is asked of a whole tree is asked of its nodes, and a proof
by induction on the tree takes it apart into the root and the children. -/

namespace MiniTriangle.Tree

def children : Tree → List Tree
  | .atom _ | .bare _ => []
  | .program child | .returns child | .integer child | .reference child | .name child | .typeName child => [child]
  | .assign first second | .call first second | .sequence first second | .whileDo first second | .letIn first second
  | .unary first second | .constDecl first second | .varDecl first second | .parameter first second
  | .parameters first second | .declarations first second => [first, second]
  | .ifElse first second third | .binary first second third => [first, second, third]
  | .funcDecl first second third fourth => [first, second, third, fourth]

def nodes (tree : Tree) : List Tree :=
  tree :: match tree with
    | .atom _ | .bare _ => []
    | .program child | .returns child | .integer child | .reference child | .name child | .typeName child => child.nodes
    | .assign first second | .call first second | .sequence first second | .whileDo first second | .letIn first second
    | .unary first second | .constDecl first second | .varDecl first second | .parameter first second
    | .parameters first second | .declarations first second => first.nodes ++ second.nodes
    | .ifElse first second third | .binary first second third => first.nodes ++ (second.nodes ++ third.nodes)
    | .funcDecl first second third fourth => first.nodes ++ (second.nodes ++ (third.nodes ++ fourth.nodes))

theorem nodes_eq (tree : Tree) : tree.nodes = tree :: tree.children.flatMap nodes := by
  cases tree <;> simp [nodes, children]

def all (check : Tree → Bool) (tree : Tree) : Bool := tree.nodes.all check

theorem all_iff {check : Tree → Bool} (tree : Tree) :
    tree.all check = true ↔ check tree = true ∧ ∀ child ∈ tree.children, child.all check = true := by
  unfold all
  rw [nodes_eq, List.all_cons, List.all_flatMap, Bool.and_eq_true, List.all_eq_true]

theorem all_child {check : Tree → Bool} {tree child : Tree} (every : tree.all check = true)
    (part : child ∈ tree.children) : child.all check = true :=
  ((all_iff tree).mp every).2 child part

end MiniTriangle.Tree
