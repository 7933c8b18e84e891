import RowGuard.Query.Basic

/-!
# Fragments of a query

A `Fragment` is what a condition adds to a select: joins, each binding once, and
filters that all have to hold. Fragments about the same root are combined by
merging their joins; `Fragment.applyTo` puts one onto a select.
-/

namespace RowGuard

/-- Adds a join to a list of joins. A binding that is already there is kept
once; two kinds of one binding become a left join. -/
def insertJoin (join : Join) : List Join → List Join
  | [] => [join]
  | other :: joins =>
    if other.sameBinding join then
      (if other.kind = join.kind then other
        else { other with kind := .left }) :: joins
    else other :: insertJoin join joins

/-- Adds joins one by one. -/
def mergeJoins (joins added : List Join) : List Join :=
  added.foldl (fun joins join => insertJoin join joins) joins

/-- Joins and filters about the rows of one root. -/
structure Fragment where
  joins : List Join
  filters : List Filter

namespace Fragment

/-- Matches every row. -/
def empty : Fragment := ⟨[], []⟩

/-- Matches no row. -/
def emptySet : Fragment := ⟨[], [.emptySet]⟩

/-- Adds a join. -/
def join (f : Fragment) (join : Join) : Fragment :=
  { f with joins := insertJoin join f.joins }

/-- Adds a filter. -/
def filter (f : Fragment) (filter : Filter) : Fragment :=
  { f with filters := f.filters ++ [filter] }

/-- Whether one of the filters is the one that never holds. -/
def isEmptySet (f : Fragment) : Bool :=
  f.filters.any Filter.isEmptySet

/-- The filters as one condition. -/
def predicate (f : Fragment) : Filter :=
  match f.filters with
  | [single] => single
  | filters => .and filters

/-- Puts joins and condition onto a select. The result is distinct, since a join
with children multiplies rows. -/
def applyTo (f : Fragment) (base : Select) : Select :=
  { base with
    distinct := true
    joins := mergeJoins base.joins f.joins
    filter := some <|
      match base.filter with
      | some existing => .and [existing, f.predicate]
      | none => f.predicate }

/-- Whether two fragments are the same, up to `Filter.same` on the filters. -/
def same (f g : Fragment) : Bool :=
  f.joins == g.joins && sameFilters f.filters g.filters

end Fragment

/-- The parts of a condition that stand for themselves in a combination of the
given kind: the parts of a like combination, and any other condition whole. -/
def Filter.parts (combination : Combination) (filter : Filter) : List Filter :=
  match combination, filter with
  | .all, .and parts => parts
  | .any, .or parts => parts
  | _, filter => [filter]

/-- The condition that combines parts. -/
def Filter.ofParts : Combination → List Filter → Filter
  | .all, parts => .and parts
  | .any, parts => .or parts

namespace Fragment

/-- Combines two fragments. In an `any` all joins become left joins, so that a
row that one branch admits survives the joins of the other. -/
def merge (combination : Combination) (f g : Fragment) : Fragment :=
  let joins := mergeJoins f.joins g.joins
  { joins :=
      match combination with
      | .all => joins
      | .any => joins.map fun join => { join with kind := .left }
    filters :=
      [.ofParts combination
        (f.predicate.parts combination ++ g.predicate.parts combination)] }

/-- Combines a fragment with what has been combined before; one that is the same
changes nothing. -/
def mergeNext (combination : Combination) (done : Option Fragment)
    (f : Fragment) :
    Option Fragment :=
  match done with
  | none => some f
  | some done =>
    if done.same f then some done else some (done.merge combination f)

end Fragment

/-- Combines the fragments that are there, from left to right. There is no
result if none is. -/
def combineFragments (combination : Combination)
    (fragments : List (Option Fragment)) :
    Option Fragment :=
  (fragments.filterMap id).foldl (Fragment.mergeNext combination) none

end RowGuard
