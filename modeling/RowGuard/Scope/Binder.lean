import RowGuard.Graph.Shortest
import RowGuard.Query.Fragment
import RowGuard.Scope.FilterValue

/-!
# Binding paths to joins

A `Binder` turns a path and the test at its end into a `Fragment`. A relation on
the way joins the table to which it leads, under an alias built from the path;
at the end the test is put on a column. The foreign key to a parent is tested
without a join. A path that leads nowhere matches no row.

A step says what is added to a fragment given what the rest of the path adds.
The rest has two meanings, an `Onward`: how it goes on from an entity, and how
it goes on if a wildcard stands before it.
-/

namespace RowGuard

/-- How tables are called in a query. -/
structure Naming where
  /-- The alias of the root table. -/
  root : String := "root"
  /-- What stands between the parts of an alias. -/
  separator : String := "__"
deriving DecidableEq, Repr

/-- The alias of a table joined from the table `parent` by a relation. -/
def Naming.child (n : Naming) (parent relation : String) : String :=
  parent ++ n.separator ++ relation

/-- What binding works with. -/
structure Binder where
  schema : Schema
  graph : EntityGraph := .ofSchema schema
  naming : Naming := ⟨"root", "__"⟩

namespace Binder

/-- Adds to a fragment, from a row of an entity under an alias. -/
abbrev Growth := Entity → (aliasName : String) → Fragment → Fragment

/-- What the rest of a path adds: directly, and after a wildcard; and whether
nothing is left of the path. -/
structure Onward where
  follow : Growth
  ascend : Growth
  isEnd : Bool

/-- Matches no row. -/
def deny : Growth := fun _ _ f => f.filter .emptySet

/-- Tests the identity of the row. -/
def testIdentity (t : Test) : Growth :=
  fun entity aliasName f => f.filter (t.filter aliasName entity.identity)

/-- The end of a path, where the identity is tested. -/
def Onward.done (t : Test) : Onward := ⟨testIdentity t, testIdentity t, true⟩

/-- The join of a parent. -/
def parentJoin (aliasName key : String) (parent : Entity) (optional : Bool)
    (parentAlias : String) : Join where
  kind := if optional then .left else .inner
  entity := parent.name
  table := parent.tableName
  aliasName := parentAlias
  column := parent.identity
  parentAlias := aliasName
  parentColumn := key

/-- The join of children. -/
def childrenJoin (aliasName key : String) (owner child : Entity)
    (childAlias : String) :
    Join where
  kind := .left
  entity := child.name
  table := child.tableName
  aliasName := childAlias
  column := key
  parentAlias := aliasName
  parentColumn := owner.identity

/-- Takes a field and goes on from it. A column ends the path. -/
def step (b : Binder) (t : Test) (name : String) (given : Option String)
    (isEnd : Bool) (next : Growth) : Growth := fun entity aliasName f =>
  let fieldAlias := given.getD (b.naming.child aliasName name)
  match b.schema.field entity name with
  | .column column =>
    if isEnd then f.filter (t.filter aliasName column)
      else deny entity aliasName f
  | .belongsTo key parent optional =>
    if isEnd then f.filter (t.filter aliasName key)
    else next parent fieldAlias
      (f.join (parentJoin aliasName key parent optional fieldAlias))
  | .hasMany child _ key =>
    next child fieldAlias
      (f.join (childrenJoin aliasName key entity child fieldAlias))
  | .unknown =>
    if name = entity.name then next entity aliasName f
      else deny entity aliasName f

/-- Takes several fields one after the other and goes on from the last. An alias
is given to the last one if it has the name `goal`. -/
def steps (b : Binder) (t : Test) (goal : String) (given : Option String)
    (rest : Onward) :
    List String → Growth
  | [] => rest.follow
  | [name] =>
    b.step t name (if name = goal then given else none) rest.isEnd rest.follow
  | name :: names => b.step t name none false (b.steps t goal given rest names)

/-- Climbs to the nearest field of a name and goes on from it. -/
def climb (b : Binder) (t : Test) (name : String) (given : Option String)
    (rest : Onward) : Growth := fun entity aliasName f =>
  match b.graph.shortestPath entity.name name with
  | some names => b.steps t name given rest names entity aliasName f
  | none => deny entity aliasName f

/-- Goes on in several ways, each from a root of its own, and asks for the
identity of the row to be among those that they find. -/
def branch (b : Binder) (ways : List Growth) :
    Growth := fun entity aliasName f =>
  let select (way : Growth) (index : Nat) : Select :=
    let root := b.naming.child aliasName ("alt" ++ toString index)
    (way entity root .empty).applyTo (.fromEntity entity root)
  match combineSelects .any
    (ways.zipIdx.map fun (way, index) => select way index) with
  | some query => f.filter (.inSubquery aliasName entity.identity query)
  | none => f.filter .emptySet

mutual

/-- What a step and the rest after it add. -/
def onStep (b : Binder) (t : Test) : Step → Onward → Onward
  | .field name given, rest =>
    { follow := b.step t name given rest.isEnd rest.follow
      ascend := b.climb t name given rest
      isEnd := false }
  | .wildcard, rest => { follow := rest.ascend, ascend := deny, isEnd := false }
  | .self name, rest =>
    { follow := fun entity aliasName f =>
        if name = entity.name then rest.follow entity aliasName f
          else deny entity aliasName f
      ascend := deny
      isEnd := false }
  | .alternatives paths, rest =>
    { follow := b.branch (b.onPaths t paths rest), ascend := deny,
      isEnd := false }

/-- What a path and the rest after it add. -/
def onPath (b : Binder) (t : Test) : List Step → Onward → Onward
  | [], rest => rest
  | step :: path, rest => b.onStep t step (b.onPath t path rest)

/-- What each of several paths and the rest after them add. -/
def onPaths (b : Binder) (t : Test) : List (List Step) → Onward → List Growth
  | [], _ => []
  | path :: paths, rest =>
    (b.onPath t path rest).follow :: b.onPaths t paths rest

end

/-- The fragment that tests the end of a path from a row of an entity under an
alias. -/
def bind (b : Binder) (t : Test) (path : Path) (entity : Entity)
    (aliasName : String) :
    Fragment :=
  (b.onPath t path (.done t)).follow entity aliasName .empty

end Binder

end RowGuard
