import RowGuard.Proofs.Query.Truth
import RowGuard.Proofs.Value.Congruence
import RowGuard.Query.Fragment

/-!
# What a query admits

A `Database` has the rows of every table and says how two values compare that
are not null.  An `Assignment` binds a row to each alias.  `assignments` adds
the joins of a query one after the other: a row matches if the two columns are
equal, a left join without a match binds the row of nulls, and an inner join
without one drops the assignment.

`Filter.truth` is the truth of a filter under an assignment and `Select.admits`
tells whether a row of the root table is admitted.  `Fragment.Admits` is the
same for a fragment on a root.  All of this can be computed.
-/

namespace RowGuard

/-! ## Databases -/

/-- A row, as the values of its columns.  A column that it lacks is null. -/
abbrev Row := String → Value

/-- The row that a left join binds where nothing matches. -/
def Row.null : Row := fun _ => .null

/-- How a storage compares values that are not null.  It does not tell values
apart that are the same. -/
structure Engine where
  equal : Value → Value → Bool
  /-- Whether an ordering operator holds. -/
  ordered : Operator → Value → Value → Bool
  equal_congr : ∀ {v w : Value}, v.same w = true → ∀ x, equal x v = equal x w
  ordered_congr :
    ∀ {v w : Value}, v.same w = true → ∀ op x, ordered op x v = ordered op x w

namespace Engine

/-- A storage that compares like the comparisons on loaded data. -/
def comparator : Engine where
  equal := Value.atomsEqual
  ordered op x v := (x.order? v).any op.holdsOf
  equal_congr h x := Value.atomsEqual_congr h x
  ordered_congr h op x := by rw [Value.order?_congr h x]

/-- The comparison of a column with a single value.  Null compares with
nothing. -/
def test (e : Engine) (op : Operator) (x v : Value) : Truth :=
  if x.isNull || v.isNull then .unknown
  else
    match op with
    | .eq | .mem => .ofBool (e.equal x v)
    | .neq | .notMem => .ofBool (!e.equal x v)
    | op => .ofBool (e.ordered op x v)

/-- The comparison of a column as a filter writes it: against null it is a null
check and against a list a membership test. -/
def compare (e : Engine) (op : Operator) (x : Value) : Value → Truth
  | .null => .ofBool (x.isNull != op.isNegative)
  | .list items =>
    if op.isOrdering then .no
    else if op.isNegative then .all (items.map (e.test .neq x))
    else .any (items.map (e.test .eq x))
  | v => e.test op x v

/-- Whether two values are one in an intersection, where null equals null. -/
def identical (e : Engine) (v w : Value) : Bool :=
  v.isNull && w.isNull || e.test .eq v w == .yes

/-- The values of the first list that occur in all the others. -/
def intersection (e : Engine) : List (List Value) → List Value
  | [] => []
  | values :: others =>
    values.filter fun v => others.all fun other => other.any (e.identical v)

end Engine

/-- The rows of every table, and how values compare. -/
structure Database where
  engine : Engine
  rows : (table : String) → List Row

/-! ## Assignments -/

/-- The rows that the aliases stand for. -/
abbrev Assignment := String → Row

namespace Assignment

/-- Only the root is bound. -/
def start (root : String) (row : Row) : Assignment := fun aliasName =>
  if aliasName = root then row else Row.null

/-- The assignment with one more alias bound. -/
def bind (a : Assignment) (aliasName : String) (row : Row) :
    Assignment := fun other =>
  if other = aliasName then row else a other

end Assignment

/-- The rows that a join finds. -/
def Join.found (db : Database) (j : Join) (a : Assignment) : List Row :=
  (db.rows j.table).filter fun row =>
    db.engine.test .eq (row j.column) (a j.parentAlias j.parentColumn) == .yes

/-- The rows that a join may bind. -/
def Join.candidates (db : Database) (j : Join) (a : Assignment) : List Row :=
  match j.found db a, j.kind with
  | [], .inner => []
  | [], .left => [Row.null]
  | rows, _ => rows

/-- The assignments to which the joins, one after the other, lead. -/
def assignments (db : Database) : List Join → Assignment → List Assignment
  | [], a => [a]
  | j :: joins, a =>
    (j.candidates db a).flatMap fun row =>
      assignments db joins (a.bind j.aliasName row)

/-! ## Filters and selects -/

mutual

/-- The truth of a filter. -/
def Filter.truth (db : Database) : Filter → Assignment → Truth
  | .comparison aliasName column op value, a =>
    db.engine.compare op (a aliasName column) value
  | .emptySet, _ => .no
  | .and parts, a => .all (filterTruths db parts a)
  | .or parts, a => .any (filterTruths db parts a)
  | .inSubquery aliasName column query, a =>
    .any ((query.identities db).map (db.engine.test .eq (a aliasName column)))

/-- The truth of each of several filters. -/
def filterTruths (db : Database) : List Filter → Assignment → List Truth
  | [], _ => []
  | part :: parts, a => part.truth db a :: filterTruths db parts a

/-- Whether a select admits a row of its root table. -/
def Select.admits (db : Database) : Select → Row → Bool
  | ⟨_, _, aliasName, _, _, _, joins, filter⟩, row =>
    (assignments db joins (.start aliasName row)).any fun a =>
      optionalTruth db filter a == .yes

/-- The truth of the condition of a select, if it has one. -/
def optionalTruth (db : Database) : Option Filter → Assignment → Truth
  | none, _ => .yes
  | some filter, a => filter.truth db a

/-- The identities of the rows that a select admits. -/
def Select.identities (db : Database) : Select → List Value
  | ⟨_, table, aliasName, identity, _, _, joins, filter⟩ =>
    ((db.rows table).filter fun row =>
      (assignments db joins (.start aliasName row)).any fun a =>
        optionalTruth db filter a == .yes).map (· identity)

/-- The identities that combined selects yield. -/
def Compound.identities (db : Database) : Compound → List Value
  | ⟨.any, members⟩ => (selectIdentities db members).flatten
  | ⟨.all, members⟩ => db.engine.intersection (selectIdentities db members)

/-- The identities that each of several selects yields. -/
def selectIdentities (db : Database) : List Select → List (List Value)
  | [] => []
  | member :: members => member.identities db :: selectIdentities db members

end

/-- Whether a fragment on a root admits a row: some assignment makes all of its
filters true. -/
def Fragment.Admits (db : Database) (root : String) (f : Fragment)
    (row : Row) : Prop :=
  ∃ a ∈ assignments db f.joins (.start root row),
    ∀ filter ∈ f.filters, filter.truth db a = .yes

/-! ## First facts -/

theorem filterTruths_eq_map (db : Database) (parts : List Filter)
    (a : Assignment) :
    filterTruths db parts a = parts.map (·.truth db a) := by
  induction parts with
  | nil => rfl
  | cons part parts ih => rw [filterTruths, ih, List.map_cons]

theorem Filter.truth_and_eq_yes_iff {db : Database} {parts : List Filter}
    {a : Assignment} :
    (Filter.and parts).truth db a = .yes ↔
      ∀ part ∈ parts, part.truth db a = .yes := by
  rw [Filter.truth, filterTruths_eq_map, Truth.all_eq_yes_iff]
  simp

theorem Filter.truth_or_eq_yes_iff {db : Database} {parts : List Filter}
    {a : Assignment} :
    (Filter.or parts).truth db a = .yes ↔
      ∃ part ∈ parts, part.truth db a = .yes := by
  rw [Filter.truth, filterTruths_eq_map, Truth.any_eq_yes_iff]
  simp

/-- The predicate of a fragment is true if all of its filters are. -/
theorem Fragment.truth_predicate_eq_yes_iff {db : Database} {f : Fragment}
    {a : Assignment} :
    f.predicate.truth db a = .yes ↔
      ∀ filter ∈ f.filters, filter.truth db a = .yes := by
  rw [Fragment.predicate]
  split
  · next single h => simp [h]
  · exact Filter.truth_and_eq_yes_iff

theorem Select.admits_iff {db : Database} {s : Select} {row : Row} :
    s.admits db row = true ↔
      ∃ a ∈ assignments db s.joins (.start s.aliasName row),
        optionalTruth db s.filter a = .yes := by
  cases s
  simp [Select.admits]

/-- A fragment that is put onto a select without joins and condition admits the
same rows there, provided that the joins stay as they are. -/
theorem Fragment.admits_applyTo_iff {db : Database} {f : Fragment}
    {base : Select} {row : Row}
    (hjoins : mergeJoins base.joins f.joins = f.joins)
    (hfilter : base.filter = none) :
    (f.applyTo base).admits db row = true ↔ f.Admits db base.aliasName row := by
  rw [Select.admits_iff]
  simp only [Fragment.applyTo, hjoins, hfilter, optionalTruth,
    Fragment.truth_predicate_eq_yes_iff, Fragment.Admits]

end RowGuard
