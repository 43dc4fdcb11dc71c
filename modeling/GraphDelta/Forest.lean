/-
**Forests.**

Objects know their parents.  A `Forest` turns that round: it lists the roots, the children of each
object and the objects of a subtree.  An object whose parent is absent is a root.  Objects whose
parents run in a cycle have no place in a forest, so a map that holds such objects has none.

Main definitions:

* `NodeMap.topOf` — the root above an object, or the first object met twice on the way up;
* `NodeMap.branches` — the objects filed under their parents, in sibling order;
* `Forest` — a map of objects without cycles, with its roots and branches;
* `Forest.ofMap` — the forest of a map;
* `Forest.children` — the children of an object in sibling order;
* `Forest.below`, `Forest.subtree` — an object and its descendants, parents first.

Main results:

* `NodeMap.getElem?_branches` — under each identifier stand the objects that name it as their parent,
  sorted by place;
* `Forest.children_eq` — the children of an object, without the branches;
* `Forest.preorder_succ` — an object is followed by the subtrees of its children.
-/
import GraphDelta.Ascent
import GraphDelta.Distinct
import GraphDelta.Fault

set_option autoImplicit false

namespace GraphDelta

namespace NodeMap

/-- The object without a present parent that is reached from `id` by climbing. -/
def topOf (m : NodeMap) (id : Ident) : Except Fault Ident :=
  match m.climb m.presentParent? (fun _ => false) .empty id with
  | .top (t :: _) => .ok t
  | .looped entry => .error (.cycle entry)
  | _ => .ok id

/-! ### Branches -/

/-- Whether an object may stand in front of another one of the same parent. -/
def mayPrecede (a b : Ident × Node) : Bool := decide (a.2.index ≤ b.2.index)

/-- Files an object under the parent that it names, in front of those that it may precede. -/
def branch (a : Ident × Node) (b : Std.ExtTreeMap Ident (List (Ident × Node))) :
    Std.ExtTreeMap Ident (List (Ident × Node)) :=
  match a.2.parent with
  | none => b
  | some p => b.insert p (insertSorted mayPrecede a (b[p]?.getD []))

/-- The objects filed under the parents that they name, by place and then by identifier. -/
def branches (m : NodeMap) : Std.ExtTreeMap Ident (List (Ident × Node)) := m.toList.foldr branch ∅

theorem getElem?_foldr_branch (l : List (Ident × Node)) (p : Ident) :
    (l.foldr branch ∅)[p]?.getD [] = stableSort mayPrecede (l.filter fun a => a.2.isChildOf p) := by
  induction l with
  | nil => simp [stableSort]
  | cons a l ih =>
    rw [List.foldr_cons, branch, List.filter_cons, Node.isChildOf]
    cases hq : a.2.parent with
    | none => simpa using ih
    | some q =>
      by_cases hqp : q = p
      · subst hqp
        simp [stableSort, ih]
      · simp [Std.ExtTreeMap.getElem?_insert, hqp, ih]

/-- Under each identifier stand the objects that name it as their parent, sorted by place. -/
theorem getElem?_branches (m : NodeMap) (p : Ident) :
    m.branches[p]?.getD [] = stableSort mayPrecede (m.toList.filter fun a => a.2.isChildOf p) :=
  getElem?_foldr_branch m.toList p

end NodeMap

/-! ### Forests -/

/-- A map of objects without cycles, with its roots and branches. -/
structure Forest where
  nodes : NodeMap
  /-- The objects without a present parent. -/
  roots : List Ident
  branches : Std.ExtTreeMap Ident (List (Ident × Node)) := nodes.branches
  branches_eq : branches = nodes.branches := by rfl

namespace Forest

def empty : Forest := { nodes := ∅, roots := [] }

/-- The forest of a map.  The roots stand in the order in which they are met from the objects in
ascending order; a cycle is reported by the first object met twice from the first object that leads
into it. -/
def ofMap (m : NodeMap) : Except Fault Forest := do
  let tops ← m.keys.mapM m.topOf
  return { nodes := m, roots := distinct tops }

def size (f : Forest) : Nat := f.nodes.size

/-- The objects that hang under `id`, by place among the siblings and then by identifier. -/
def children (f : Forest) (id : Ident) : List Ident :=
  if f.nodes.contains id then (f.branches[id]?.getD []).map Prod.fst else []

/-- The children of an object are those that name it as their parent, sorted by place. -/
theorem children_eq (f : Forest) (id : Ident) :
    f.children id =
      if f.nodes.contains id then
        (stableSort NodeMap.mayPrecede (f.nodes.toList.filter fun a => a.2.isChildOf id)).map Prod.fst
      else [] := by
  rw [children, f.branches_eq, NodeMap.getElem?_branches]

/-- Puts the object and everything that hangs below it to the given height in front of a list. -/
def preorderOnto (f : Forest) : Nat → Ident → List Ident → List Ident
  | 0, _, rest => rest
  | height + 1, id, rest => id :: (f.children id).foldr (f.preorderOnto height) rest

/-- The object and everything that hangs below it to the given height, each object followed by its
children's subtrees. -/
def preorder (f : Forest) (height : Nat) (id : Ident) : List Ident := f.preorderOnto height id []

theorem preorderOnto_eq (f : Forest) (height : Nat) (id : Ident) (rest : List Ident) :
    f.preorderOnto height id rest = f.preorder height id ++ rest := by
  induction height generalizing id rest with
  | zero => rfl
  | succ height ih =>
    have hfold (ids : List Ident) (rest : List Ident) :
        ids.foldr (f.preorderOnto height) rest = ids.foldr (f.preorderOnto height) [] ++ rest := by
      induction ids with
      | nil => rfl
      | cons a ids iha =>
        rw [List.foldr_cons, List.foldr_cons, ih, ih a (List.foldr _ _ _), iha, List.append_assoc]
    rw [preorder, preorderOnto, preorderOnto, hfold, List.cons_append]

theorem preorder_zero (f : Forest) (id : Ident) : f.preorder 0 id = [] := rfl

/-- An object is followed by the subtrees of its children. -/
theorem preorder_succ (f : Forest) (height : Nat) (id : Ident) :
    f.preorder (height + 1) id = id :: (f.children id).flatMap (f.preorder height) := by
  have hfold (ids : List Ident) :
      ids.foldr (f.preorderOnto height) [] = ids.flatMap (f.preorder height) := by
    induction ids with
    | nil => rfl
    | cons a ids ih => rw [List.foldr_cons, preorderOnto_eq, ih, List.flatMap_cons]
  rw [preorder, preorderOnto, hfold]

/-- The object and everything that hangs below it, parents first and siblings in order.  No branch of
a forest is higher than the number of its objects. -/
def below (f : Forest) (id : Ident) : List Ident := f.preorder f.nodes.size id

/-- The object and everything that hangs below it; the object must be in the forest. -/
def subtree (f : Forest) (id : Ident) : Except Fault (List Ident) :=
  if f.nodes.contains id then .ok (f.below id) else .error (.unresolved id)

end Forest

end GraphDelta
