import Dialogue.Catalog
import Dialogue.Compile.Facts

/-!
# Categories of variables

The uses of variables decide their categories. Variables that are linked with each
other, directly or through others, have one category: they are kept in one tree, whose root
knows the category. The uses are taken in the order of the source, so a contradiction is
found at the first use that does not fit those before it.
-/

namespace Dialogue

/-- A contradiction between the uses of a variable. -/
structure Conflict where
  /-- The variable. -/
  name : String
  /-- The category it is known to have. -/
  expected : Category
  /-- The category it is used as. -/
  found : Category
  deriving DecidableEq

/-- Variables in trees, each tree with a category once that is known. -/
structure Unifier where
  /-- The variable above each one. A root is above itself. -/
  parent : Catalog String
  /-- The categories of trees, by their roots. -/
  category : Catalog Category

namespace Unifier

/-- No variables. -/
def empty : Unifier := ⟨∅, ∅⟩

/-- Goes up from a variable to its root, and then puts all variables on the way directly
    below the root. A variable that is in no tree becomes a root. It goes up at most `limit`
    times, which is enough if `limit` exceeds the number of variables. -/
def climb (parent : Catalog String) (name : String) : Nat → String × Catalog String
  | 0 => (name, parent)
  | limit + 1 =>
    match parent.get? name with
    | none => (name, parent.insert name name)
    | some above =>
      if above = name then (name, parent)
      else
        -- On the way back each variable that was passed is put below the root.
        let (root, parent) := climb parent above limit
        (root, parent.insert name root)

/-- The root of a variable. -/
def find (u : Unifier) (name : String) : String × Unifier :=
  let (root, parent) := climb u.parent name (u.parent.size + 1)
  (root, { u with parent })

/-- Gives the tree of a variable a category. -/
def assign (u : Unifier) (name : String) (k : Category) : Except Conflict Unifier :=
  let (root, u) := u.find name
  match u.category.get? root with
  | some known =>
    if known ≠ k then .error ⟨name, known, k⟩
    else .ok { u with category := u.category.insert root k }
  | none => .ok { u with category := u.category.insert root k }

/-- Puts the root of the one tree below that of the other, which has this category then. -/
def join (u : Unifier) (above below : String) (category : Catalog Category) : Unifier where
  parent := u.parent.insert below above
  category := category.erase below

/-- Joins the trees of two variables. -/
def union (u : Unifier) (left right : String) : Except Conflict Unifier :=
  let (a, u) := u.find left
  let (b, u) := u.find right
  if a = b then .ok u
  else
    match u.category.get? a, u.category.get? b with
    | some j, some k => if j ≠ k then .error ⟨right, j, k⟩ else .ok (u.join a b u.category)
    -- The category is known of a root only, so it moves up to the one that is left.
    | none, some k => .ok (u.join a b (u.category.insert a k))
    | _, none => .ok (u.join a b u.category)

/-- Takes account of one more use. -/
def refine (u : Unifier) : Use → Except Conflict Unifier
  | .typed name k => u.assign name k
  | .linked left right => u.union left right

/-- The categories of these variables, as far as they are known. -/
def categoriesOf (u : Unifier) : List String → Catalog Category
  | [] => ∅
  | name :: names =>
    let (root, u) := u.find name
    match u.category.get? root with
    | some k => (u.categoriesOf names).insert name k
    | none => u.categoriesOf names

/-- The variables whose category is known. -/
def resolved (u : Unifier) : Catalog Category := u.categoriesOf u.parent.names

end Unifier

namespace Found

variable {α : Type}

/-- Puts something before all that was found at its offset or later. -/
def insert (x : Found α) : List (Found α) → List (Found α)
  | [] => [x]
  | y :: ys => if x.index ≤ y.index then x :: y :: ys else y :: insert x ys

/-- Puts what was found in the order of the source; what was found at one offset stays
    in the order given. -/
def inOrder (xs : List (Found α)) : List (Found α) := xs.foldr insert []

end Found

namespace Facts

/-- Takes account of uses one by one, up to the first that does not fit. -/
def resolveFrom (u : Unifier) : List (Found Use) → Except (Found Conflict) Unifier
  | [] => .ok u
  | use :: uses =>
    match u.refine use.item with
    | .ok u => resolveFrom u uses
    | .error e => .error ⟨use.index, e⟩

/-- The categories of the variables, or the first contradiction in the source. -/
def categories (f : Facts) : Except (Found Conflict) (Catalog Category) :=
  (resolveFrom .empty (Found.inOrder f.uses)).map Unifier.resolved

end Facts

end Dialogue
