/-!
# Kinds of trees

A plain tree holds one value under a key; a multi tree holds an ordered set of
values under a key.
-/

namespace CounterMesh

/-- The shape of a tree, fixed when the tree is created. -/
inductive TreeKind where
  | plain
  | multi
  deriving DecidableEq, Repr

/-- The name of a kind as it is shown in messages. -/
def TreeKind.name : TreeKind → String
  | .plain => "Plain"
  | .multi => "Multi"

/-- An operation of a transaction that changes trees. -/
inductive Mutation where
  | createTree
  | put
  | delete
  | increment
  | multiAdd
  | multiDelete
  deriving DecidableEq, Repr

/-- The name of a mutation as it is shown in messages. -/
def Mutation.label : Mutation → String
  | .createTree => "create a tree"
  | .put => "put"
  | .delete => "delete"
  | .increment => "increment"
  | .multiAdd => "multi_add"
  | .multiDelete => "multi_delete"

end CounterMesh
