import RowGuard.Proofs.Scope.Admission
import RowGuard.Proofs.Scope.Decisions

/-!
# Null checks through parents

A null check is the one test that can hold of a row that is not there: a parent
that is missing is joined as a row of nulls.  Evaluation takes the value at the
end of the path for null then, so that query and decision agree as long as the
row of nulls gets to the end.  It does not if another parent after it is
required, since that join drops the row.

* `Lineage.Meets` says to what rows the joins of a lineage lead from a row, and
  `Lineage.grow_tells` that its fragment tells just that.
* `Lineage.meets_null_iff` and `Lineage.meets_record_iff` follow a row of nulls
  and the row of a record.  `Lineage.strands` tells the records from which a row
  of nulls gets lost.
* `Compiler.select_agrees_null_iff` is the result.
-/

namespace RowGuard

/-- Where a join finds nothing, a left join binds a row of nulls. -/
theorem Join.candidates_of_found_nil {db : Database} {j : Join} {a : Assignment}
    (hfound : j.found db a = []) :
    j.candidates db a = if j.kind = .left then [Row.null] else [] := by
  rw [candidates, hfound]
  cases j.kind <;> rfl

/-- Where a join finds something, it binds what it finds. -/
theorem Join.candidates_of_mem_found {db : Database} {j : Join} {a : Assignment}
    {row : Row} (hrow : row ∈ j.found db a) :
    j.candidates db a = j.found db a := by
  rw [candidates]
  cases hfound : j.found db a with
  | nil =>
    rw [hfound] at hrow
    cases hrow
  | cons => rfl

namespace Lineage

/-- A row of nulls does not get to the end, since a parent is required of it or
since the way leads nowhere. -/
def barsNull : Lineage → Bool
  | .hop _ _ _ optional rest => !optional || rest.barsNull
  | .nowhere => true
  | .identity | .column .. | .parent .. => false

/-- On the way from a record a parent is missing, and no row of nulls gets from
there to the end. -/
def strands (D : Store) : Lineage → Record → Bool
  | .hop _ key target optional rest, r =>
    (D.parent? r key target.name).elim (!optional || rest.barsNull)
      (rest.strands D)
  | .nowhere, _ => true
  | .identity, _ | .column .., _ | .parent .., _ => false

/-- The joins of a lineage lead from a row to one for which the test at the end
holds. -/
def Meets (db : Database) (t : Test) : Lineage → Entity → Row → Prop
  | .identity, entity, row => t.HoldsOf db entity.identity row
  | .column _ columnName, _, row => t.HoldsOf db columnName row
  | .parent _ key _ _, _, row => t.HoldsOf db key row
  | .hop _ key target optional rest, _, row =>
    ∃ found ∈ (Binder.parentJoin "" key target optional "").candidates db
      fun _ => row,
      rest.Meets db t target found
  | .nowhere, _, _ => False

/-! ## The fragment of a lineage -/

/-- What a lineage adds tells to what rows its joins lead. -/
theorem grow_tells (db : Database) {n : Naming} (hseparator : n.separator ≠ "")
    (t : Test) :
    ∀ lineage : Lineage, Binder.Growth.Tells db (lineage.grow n t)
      (lineage.Meets db t)
  | .identity => Binder.test_tells t Entity.identity
  | .column _ columnName => Binder.test_tells t fun _ => columnName
  | .parent _ key _ _ => Binder.test_tells t fun _ => key
  | .nowhere => Binder.deny_tells db
  | .hop name key target optional rest => by
    intro root entity aliasName f row hf
    have hlonger : aliasName.length < (n.child aliasName name).length :=
      Binder.length_lt_child fun heq =>
        hseparator (String.append_eq_empty_iff.1 heq).1
    exact (grow_tells db hseparator t rest).of_join hf
      (j := Binder.parentJoin aliasName key target optional _) hlonger

/-! ## Rows of nulls and of records -/

variable {s : Schema} {D : Store} {entity : Entity} {lineage : Lineage}
  {op : Operator}

theorem holdsOf_null_iff {db : Database} {column : String} {row : Row} :
    (⟨op, .null⟩ : Test).HoldsOf db column row ↔
      ((row column).isNull != op.isNegative) = true := by
  rw [Test.HoldsOf, Test.filter, FilterValue.filter, Filter.truth,
    Engine.compare, Truth.ofBool_eq_yes]

/-- The join of a parent binds the row of the parent, or a row of nulls if there
is none and none is required. -/
theorem exists_candidate_parent_iff (hD : D.Relational s) (htabular : s.Tabular)
    {r : Record} (hr : D.Holds s entity r) {name key : String} {target : Entity}
    {optional : Bool}
    (hfield : s.field entity name = .belongsTo key target optional)
    {P : Row → Prop} :
    (∃ row ∈ (Binder.parentJoin "" key target optional "").candidates
      (s.database D)
        fun _ => r.getOrNull, P row) ↔
      (D.parent? r key target.name).elim (optional = true ∧ P Row.null) fun p =>
        P p.getOrNull := by
  have hmem (row : Row) : row ∈
      (Binder.parentJoin "" key target optional "").found (s.database D)
      (fun _ => r.getOrNull) ↔ _ :=
    hD.mem_found_iff htabular (o := some r) (fun _ h => Option.some.inj h ▸ hr)
      hfield rfl ""
  cases hparent : D.parent? r key target.name with
  | none =>
    have hfound : (Binder.parentJoin "" key target optional "").found
        (s.database D) (fun _ => r.getOrNull) = [] := by
      refine List.eq_nil_iff_forall_not_mem.2 fun row hrow => ?_
      obtain ⟨p, hp, -⟩ := (hmem row).1 hrow
      exact nomatch hparent.symm.trans hp
    rw [Join.candidates_of_found_nil hfound]
    cases optional <;> simp [Binder.parentJoin]
  | some p =>
    rw [Join.candidates_of_mem_found ((hmem p.getOrNull).2 ⟨p, hparent, rfl⟩)]
    simp only [hmem, Option.bind_some, hparent, Option.some.injEq,
      exists_eq_left', Option.elim_some]
    rfl

/-- From a row of nulls the null check holds if such rows get to the end. -/
theorem meets_null_iff {db : Database} :
    ∀ (lineage : Lineage) (entity : Entity),
    lineage.Meets db ⟨op, .null⟩ entity Row.null ↔
      op.isNegative = false ∧ lineage.barsNull = false
  | .identity, _ | .column .., _ | .parent .., _ => by
    rw [Meets, holdsOf_null_iff, barsNull]
    show (true != op.isNegative) = true ↔ _
    cases op.isNegative <;> simp
  | .nowhere, _ => by simp [Meets, barsNull]
  | .hop _ key target optional rest, _ => by
    -- nothing equals null
    have hfound : (Binder.parentJoin "" key target optional "").found db
        (fun _ => Row.null) = [] := by
      simp [Join.found, Engine.test, Row.null, Value.isNull]
    rw [Meets, Join.candidates_of_found_nil hfound, barsNull]
    cases optional with
    | false => simp [Binder.parentJoin]
    | true => simp [Binder.parentJoin, meets_null_iff rest target]

/-- From the row of a record the null check holds as it does of the value at the
end, unless a row of nulls that it would hold of gets lost. -/
theorem meets_record_iff (hD : D.Relational s) (htabular : s.Tabular)
    (hcomplete : D.Referential s) (hop : op.isEquality = true)
    (hstarts : lineage.StartsAt s entity) {r : Record}
    (hr : D.Holds s entity r) :
    lineage.Meets (s.database D) ⟨op, .null⟩ entity r.getOrNull ↔
      ((lineage.value D r).isNull != op.isNegative) = true ∧
        ¬ (op = .eq ∧ lineage.strands D r = true) := by
  induction hstarts generalizing r with
  | @identity entity =>
    have hentity := Schema.entity?_mem (Schema.entityOf?_eq_some_iff.1 hr.2).2
    obtain ⟨id, hid⟩ := Option.isSome_iff_exists.1 (hcomplete.identified hr)
    have hnull : (r.getOrNull identityField).isNull = false := by
      rw [Record.getOrNull_identity hid]
      exact Record.isNull_of_id hid
    rw [Meets, holdsOf_null_iff, htabular.identity_eq entity hentity, hnull]
    simp [value, strands, Value.isNull]
  | column => simp [Meets, holdsOf_null_iff, value, strands]
  | @parent entity name key target optional hfield =>
    -- a foreign key that is not null leads to a parent
    have hnull : (D.parent r key target.name).isNull =
        (r.getOrNull key).isNull := by
      rw [Store.parent_eq]
      cases hkey : (r.getOrNull key).isNull with
      | true => rw [Store.parent?_of_isNull hkey]; rfl
      | false =>
        obtain ⟨p, hp⟩ := hcomplete.exists_parent hr hfield hkey
        rw [hp]
        rfl
    simp [Meets, holdsOf_null_iff, value, strands, hnull]
  | @hop entity name key target optional rest hfield hrest ih =>
    rw [Meets, exists_candidate_parent_iff hD htabular hr hfield,
      value, strands]
    cases hparent : D.parent? r key target.name with
    | some p =>
      exact ih
        (Store.holds_of_parent? (Schema.field_eq_belongsTo hfield).2 hparent)
    | none =>
      simp only [Option.elim_none, meets_null_iff]
      cases op <;> cases optional <;>
        simp_all [Operator.isNegative, Operator.isEquality, Value.isNull]
  | nowhere =>
    cases op <;>
      simp_all [Meets, value, strands, Operator.isNegative, Operator.isEquality,
        Value.isNull]

/-- From where a parent is missing the value at the end is null. -/
theorem isNull_value_of_strands : ∀ {lineage : Lineage} {r : Record},
    lineage.strands D r = true → (lineage.value D r).isNull = true
  | .hop _ key target _ _, r, h => by
    rw [strands] at h
    rw [value]
    cases hparent : D.parent? r key target.name with
    | none => rfl
    | some p =>
      rw [hparent, Option.elim_some] at h
      exact isNull_value_of_strands h
  | .nowhere, _, _ => rfl
  | .identity, _, h | .column .., _, h | .parent .., _, h => by
    simp [strands] at h

/-- No value at the end of a lineage is a list. -/
theorem isList_value (hD : D.Relational s) (hstarts : lineage.StartsAt s entity)
    {r : Record} (hr : D.Holds s entity r) :
    (lineage.value D r).isList = false := by
  induction hstarts generalizing r with
  | identity => rfl
  | @column _ _ columnName _ =>
    rcases isNull_or_isScalar_getOrNull (hD.rows r hr.1 hr.2) columnName with
      hnull | hscalar
    · rw [value, Value.eq_null_of_isNull hnull]
      rfl
    · exact Value.isList_of_isScalar hscalar
  | @parent _ _ key target _ _ =>
    rw [value, Store.parent_eq]
    cases D.parent? r key target.name <;> rfl
  | @hop _ _ key target _ rest hfield _ ih =>
    rw [value]
    cases hparent : D.parent? r key target.name with
    | none => rfl
    | some p =>
      exact ih
        (Store.holds_of_parent? (Schema.field_eq_belongsTo hfield).2 hparent)
  | nowhere => rfl

end Lineage

/-! ## Null checks of values -/

theorem Value.equals_null (v : Value) : v.equals .null = v.isNull := by
  cases v <;> simp [Value.equals, Value.atomsEqual, Value.same, Value.isNull]

/-- No identity is null. -/
theorem Value.isNull_identityOrSelf (v : Value) :
    v.identityOrSelf.isNull = v.isNull := by
  cases v with
  | record r =>
    rw [Value.identityOrSelf, Value.identity?]
    cases hid : r.id? with
    | none => rfl
    | some id => exact Record.isNull_of_id hid
  | _ => rfl

/-- Equality with null is a null check. -/
theorem Operator.compare_null {op : Operator} (hop : op.isEquality = true)
    {v : Value} (hlist : v.isList = false) :
    op.compare v .null = .ok (v.isNull != op.isNegative) := by
  have hagrees : v.agrees .null = v.isNull := by
    rw [Value.agrees_eq_equals hlist, ← v.isNull_identityOrSelf]
    exact Value.equals_null _
  cases op with
  | eq | neq => simp [compare, isNegative, hagrees]
  | _ => cases hop

/-! ## Both sides of a null check -/

namespace Compiler

/-- The compiler reads a store with referential integrity, in which every entity
has a table of its own, without limits. -/
structure OnRows (c : Compiler Store) (D : Store) : Prop where
  elapsed : ∃ elapsed, c.evaluator.loader = some (Store.loader elapsed)
  unlimited : c.evaluator.budget = .unlimited
  separator : c.naming.separator ≠ ""
  tabular : c.evaluator.schema.Tabular
  relational : D.Relational c.evaluator.schema
  referential : D.Referential c.evaluator.schema

variable {c : Compiler Store} {D : Store} {actor : Value} {name : String}
  {entity : Entity} {op : Operator} {property : Path} {lineage : Lineage}
  {r : Record}

/-- The comparison of what a path leads to with null. -/
def nullCheck (op : Operator) (property : Path) : Expression :=
  .leaf op property (.literal .null)

/-- A null check compiles, and its select admits the rows from which the joins
of the path lead to one for which it holds. -/
theorem nullCheck_select_returns (D : Store) (actor : Value)
    (hseparator : c.naming.separator ≠ "")
    (hentity : c.evaluator.schema.entity? name = some entity)
    (hop : op.isEquality = true) (hplain : property.Plain)
    (hlineage : property.lineage? c.evaluator.schema c.evaluator.graph entity =
      some lineage) :
    ∃ select s, Returns (c.select actor name (nullCheck op property))
      (.start D) select s ∧
      ∀ row, select.admits (c.evaluator.schema.database D) row = true ↔
        lineage.Meets (c.evaluator.schema.database D)
          ⟨op, .null⟩ entity row := by
  let f := c.binder.bind ⟨op, .null⟩ property entity c.naming.root
  have hbuilt : f.Built c.naming.root := (Binder.bind_closed _ entity _).toBuilt
  have hbind : f = lineage.grow c.naming ⟨op, .null⟩ entity
      c.naming.root .empty :=
    (Binder.bind_lineage hplain hlineage c.naming.root).2
  refine ⟨f.applyTo (c.root entity), .start D, ?_, fun row => ?_⟩
  · rw [select_returns_iff hentity]
    refine ⟨f, ?_, rfl⟩
    rw [nullCheck, fragment, leaf, returns_bind_iff]
    refine ⟨.null, .start D,
      returns_adapt_iff.2 (returns_pure_iff.2 ⟨rfl, rfl⟩), ?_⟩
    have htest : Test.of op .null = .ok ⟨op, .null⟩ := by
      cases op <;> first | rfl | cases hop
    rw [htest]
    exact returns_pure_iff.2 ⟨rfl, rfl⟩
  · rw [admits_root_iff hbuilt, hbind]
    exact (lineage.grow_tells _ hseparator _).admits_iff entity
      c.naming.root row

/-- A null check is decided by the value at the end of the path. -/
theorem OnRows.nullCheck_holds_returns (h : c.OnRows D) (actor : Value)
    (hop : op.isEquality = true)
    (hstarts : lineage.StartsAt c.evaluator.schema entity)
    (hlineage : property.lineage? c.evaluator.schema c.evaluator.graph entity =
      some lineage) (hr : D.Holds c.evaluator.schema entity r) :
    ∃ s, Returns (c.evaluator.holds (.record r) actor (nullCheck op property))
      (.start D) ((lineage.value D r).isNull != op.isNegative) s := by
  obtain ⟨elapsed, hloader⟩ := h.elapsed
  -- the literal asks nothing of the actor, so that the records of no actor
  -- matter
  have hfamiliar : D.Familiar c.evaluator.schema .null := by
    intro r hr
    rw [Value.records] at hr
    cases hr
  have hsteady := h.relational.steady hfamiliar rfl hloader h.unlimited
  obtain ⟨s, hvalue, -⟩ := Evaluator.evaluate_lineage h.relational hsteady
    hlineage hr.1 hr.2 _ (.start h.relational.serves_self)
  refine ⟨s, ?_⟩
  rw [nullCheck, Evaluator.holds, Evaluator.holdsLeaf, returns_bind_iff]
  refine ⟨_, s, hvalue,
    returns_bind_iff.2 ⟨.null, s, returns_pure_iff.2 ⟨rfl, rfl⟩, ?_⟩⟩
  rw [Operator.compare_null hop (Lineage.isList_value h.relational hstarts hr)]
  exact returns_pure_iff.2 ⟨rfl, rfl⟩

/-- A null check through parents has a query and is decided for every stored
record.  The select admits the record exactly if the check is decided to hold,
unless it is equality with null and the row of a missing parent gets lost in the
joins. -/
theorem select_agrees_null_iff (hrows : c.OnRows D)
    (hentity : c.evaluator.schema.entity? name = some entity)
    (hop : op.isEquality = true) (hplain : property.Plain)
    (hlineage : property.lineage? c.evaluator.schema c.evaluator.graph entity =
      some lineage)
    (hr : r ∈ D.records name) :
    ∃ select b s t,
      Returns (c.select actor name (nullCheck op property))
        (.start D) select s ∧
      Returns (c.evaluator.holds (.record r) actor (nullCheck op property))
        (.start D) b t ∧
      ((select.admits (c.evaluator.schema.database D) r.getOrNull = true ↔
        b = true) ↔
        ¬ (op = .eq ∧ lineage.strands D r = true)) := by
  have hholds := holds_of_mem_records hentity hr
  have hstarts : lineage.StartsAt c.evaluator.schema entity :=
    (Binder.bind_lineage (b := c.binder) (t := ⟨op, .null⟩) hplain hlineage
      c.naming.root).1
  obtain ⟨select, s, hselect, hadmits⟩ :=
    nullCheck_select_returns D actor hrows.separator hentity hop hplain hlineage
  obtain ⟨t, hdecided⟩ :=
    hrows.nullCheck_holds_returns actor hop hstarts hlineage hholds
  refine ⟨select, _, s, t, hselect, hdecided, ?_⟩
  rw [hadmits, Lineage.meets_record_iff hrows.relational hrows.tabular
    hrows.referential hop hstarts hholds]
  -- the check holds of null wherever a row gets lost
  have hlost : op = .eq ∧ lineage.strands D r = true →
      ((lineage.value D r).isNull != op.isNegative) = true := by
    rintro ⟨rfl, hstrands⟩
    rw [Lineage.isNull_value_of_strands hstrands]
    rfl
  rw [and_iff_left_iff_imp]
  exact ⟨fun himp hbad => himp (hlost hbad) hbad, fun hgood _ => hgood⟩

end Compiler

/-! ## A store on which they differ -/

namespace Blog

open Compiler (nullCheck)

/-- A compiler that loads from a store without limits. -/
def reader : Compiler Store :=
  { evaluator :=
      { schema, loader := some (Store.loader 0), budget := .unlimited } }

def ann : Record := ⟨some "user", [("id", .int64 1), ("name", .string "ann")]⟩

def essay : Record := ⟨some "post", [("id", .int64 2), ("author_id", .int64 1)]⟩

/-- A comment on the essay. -/
def praise : Record :=
  ⟨some "comment", [("id", .int64 3), ("post_id", .int64 2)]⟩

/-- A comment on no post. -/
def stray : Record := ⟨some "comment", [("id", .int64 4)]⟩

def archive : Store := ⟨[ann, essay, praise, stray], [], 0⟩

/-- From a comment to the name of the author of its post. -/
def toAuthorName : Path := [.plain "post", .plain "author", .plain "name"]

/-- The post may be missing, and a post has an author. -/
def throughPost : Lineage :=
  .hop "post" "post_id" post true
    (.hop "author" "author_id" user false (.column "name" "name"))

theorem entity_of_archived {r : Record} {entity : Entity}
    (h : archive.Holds schema entity r) :
    (r = ann ∧ entity = user) ∨ (r = essay ∧ entity = post) ∨
      (r = praise ∨ r = stray) ∧ entity = comment := by
  obtain ⟨hr, hentity⟩ := h
  simp only [archive, List.mem_cons, List.not_mem_nil, or_false] at hr
  rcases hr with rfl | rfl | rfl | rfl
  · exact .inl ⟨rfl, (Option.some.inj hentity).symm⟩
  · exact .inr (.inl ⟨rfl, (Option.some.inj hentity).symm⟩)
  · exact .inr (.inr ⟨.inl rfl, (Option.some.inj hentity).symm⟩)
  · exact .inr (.inr ⟨.inr rfl, (Option.some.inj hentity).symm⟩)

theorem archive_relational : archive.Relational schema where
  intact := rfl
  rows := by
    intro r hr entity hentity
    rcases entity_of_archived ⟨hr, hentity⟩ with
      ⟨rfl, rfl⟩ | ⟨rfl, rfl⟩ | ⟨rfl | rfl, rfl⟩ <;>
      exact ⟨by decide, by decide, by decide, by decide, by decide⟩
  unique := by
    intro r hr r' hr' entity _ _ id id' hid hid' hagrees
    simp only [archive, List.mem_cons, List.not_mem_nil, or_false] at hr hr'
    -- every record has an identity of its own
    rcases hr with rfl | rfl | rfl | rfl <;> rcases hr' with
      rfl | rfl | rfl | rfl <;>
      first
      | rfl
      | cases hid
        cases hid'
        exact absurd hagrees (by decide +kernel)

theorem archive_referential : archive.Referential schema where
  identified := by
    intro entity r hr
    rcases entity_of_archived hr with
      ⟨rfl, -⟩ | ⟨rfl, -⟩ | ⟨rfl | rfl, -⟩ <;> rfl
  refers := by
    intro entity r hr
    rcases entity_of_archived hr with
      ⟨rfl, rfl⟩ | ⟨rfl, rfl⟩ | ⟨rfl | rfl, rfl⟩ <;> decide +kernel

theorem reader_onRows : reader.OnRows archive where
  elapsed := ⟨0, rfl⟩
  unlimited := rfl
  separator := by decide
  tabular := ⟨by decide, by decide⟩
  relational := archive_relational
  referential := archive_referential

theorem toAuthorName_plain : toAuthorName.Plain := by
  simp [toAuthorName, Path.Plain, Step.plain, Step.alias?]

end Blog

open Blog in
theorem Compiler.select_agrees_null_iff_praise :
    reader.OnRows archive ∧
      reader.evaluator.schema.entity? "comment" = some comment ∧
      Operator.eq.isEquality = true ∧ toAuthorName.Plain ∧
      toAuthorName.lineage? reader.evaluator.schema reader.evaluator.graph
        comment = some throughPost ∧
      praise ∈ archive.records "comment" ∧
      throughPost.strands archive praise = false ∧
      ∃ select b s t,
        Returns (reader.select .null "comment" (nullCheck .eq toAuthorName))
          (.start archive) select s ∧
        Returns (reader.evaluator.holds (.record praise) .null
          (nullCheck .eq toAuthorName)) (.start archive) b t ∧
        ((select.admits (reader.evaluator.schema.database archive)
          praise.getOrNull = true ↔
            b = true) ↔
          ¬ (Operator.eq = .eq ∧
            throughPost.strands archive praise = true)) := by
  have hstored : praise ∈ archive.records "comment" :=
    List.mem_filter.2 ⟨by simp [archive], rfl⟩
  exact ⟨reader_onRows, rfl, rfl, toAuthorName_plain, rfl, hstored,
    by decide +kernel, Compiler.select_agrees_null_iff reader_onRows rfl rfl
      toAuthorName_plain rfl hstored⟩

open Blog in
/-- A comment on no post is decided to have an author without a name, and the
query drops it since every post has an author.  No required foreign key of the
store is null. -/
theorem Compiler.select_differs_null :
    reader.OnRows archive ∧
      (∀ entity r, archive.Holds reader.evaluator.schema entity r →
        ∀ relation ∈ entity.parents, relation.optional = false →
          (r.getOrNull relation.foreignKey).isNull = false) ∧
      stray ∈ archive.records "comment" ∧ toAuthorName.Plain ∧
      toAuthorName.lineage? reader.evaluator.schema reader.evaluator.graph
        comment = some throughPost ∧
      ∃ select s t,
        Returns (reader.select .null "comment" (nullCheck .eq toAuthorName))
          (.start archive) select s ∧
        select.admits (reader.evaluator.schema.database archive)
          stray.getOrNull = false ∧
        Returns (reader.evaluator.holds (.record stray) .null
          (nullCheck .eq toAuthorName)) (.start archive) true t := by
  have hselect :
      (outcome (reader.select .null "comment" (nullCheck .eq toAuthorName))
        (.start archive)).1.toOption.map
        (·.admits (reader.evaluator.schema.database archive) stray.getOrNull) =
          some false := by
    decide +kernel
  obtain ⟨select, hresult, hadmits⟩ := Option.map_eq_some_iff.1 hselect
  have hstored : stray ∈ archive.records "comment" :=
    List.mem_filter.2 ⟨by simp [archive], rfl⟩
  refine ⟨reader_onRows, ?_, hstored, toAuthorName_plain, rfl, select, _, _,
    returns_of_toOption hresult, hadmits,
    returns_of_toOption (by decide +kernel)⟩
  intro entity r hr
  rcases entity_of_archived hr with
    ⟨rfl, rfl⟩ | ⟨rfl, rfl⟩ | ⟨rfl | rfl, rfl⟩ <;> decide +kernel

end RowGuard
