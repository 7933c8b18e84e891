import RowGuard.Proofs.Evaluation.Tables
import RowGuard.Proofs.Scope.Lineage

/-!
# Evaluation through parents

`Lineage.value` reads the value of a lineage off a store.  An evaluator that
follows a path with this lineage from a stored record comes to that value,
whatever has been loaded before (`Evaluator.evaluate_lineage`).
-/

namespace RowGuard

/-- The value at the end of a lineage from a record. -/
def Lineage.value (D : Store) : Lineage → Record → Value
  | .identity, r => .record r
  | .column _ columnName, r => r.getOrNull columnName
  | .parent _ key target _, r => D.parent r key target.name
  | .hop _ key target _ rest, r =>
    (D.parent? r key target.name).elim .null (rest.value D)
  | .nowhere, _ => .null

namespace Evaluator

variable {ev : Evaluator Store} {loader : Loader Store} {D : Store}
  {actor : Value} {entity : Entity} {r : Record}

/-! ## Fields of stored records -/

theorem fieldValue_column (hD : D.Relational ev.schema) (hr : r ∈ D.contents)
    (hentity : ev.schema.entityOf? r = some entity) {name columnName : String}
    (hfield : ev.schema.field entity name = .column columnName) :
    ev.fieldValue r name = pure (r.getOrNull columnName) := by
  rw [fieldValue_of_column hentity hfield,
    (hD.rows r hr hentity).get?_of_column hfield]

theorem fieldValue_unknown (hentity : ev.schema.entityOf? r = some entity)
    {name : String} (hfield : ev.schema.field entity name = .unknown)
    (hname : name = entity.name) :
    ev.fieldValue r name = pure (.record r) := by
  unfold fieldValue
  rw [show r.entity.bind ev.schema.entity? = some entity from hentity]
  simp only [hfield, if_pos hname]

/-- The parent of a stored record is the record to which its key leads. -/
theorem fieldValue_belongsTo (hD : D.Relational ev.schema)
    (hsteady : ev.Steady loader D.Serves D.reply (D.Known ev.schema actor))
    (hr : r ∈ D.contents) (hentity : ev.schema.entityOf? r = some entity)
    {name key : String} {target : Entity} {optional : Bool}
    (hfield : ev.schema.field entity name = .belongsTo key target optional) :
    Yields (Coherent ev D.Serves D.reply (D.Known ev.schema actor))
      (ev.fieldValue r name) (D.parent r key target.name) := by
  have hrelation : (ev.schema.field entity name).isRelation = true := by
    rw [hfield]
    rfl
  have hknown : D.Known ev.schema actor r :=
    .inl ⟨hr, by rw [hentity, Option.isSome_some]⟩
  have hvalue := fieldValue_yields_reply hsteady hknown hentity
    ((hD.rows r hr hentity).get?_of_relation hrelation) hrelation
  rw [hfield] at hvalue
  exact hvalue

/-! ## Following a lineage -/

/-- From stored records of the entities for which there is a lineage, the
continuation comes to its value. -/
def Traces (ev : Evaluator Store) (D : Store) (actor : Value)
    (lineage? : Entity → Option Lineage)
    (k : Value → EvalM Store Value) : Prop :=
  ∀ entity lineage, lineage? entity = some lineage →
    ∀ r ∈ D.contents, ev.schema.entityOf? r = some entity →
      Yields (Coherent ev D.Serves D.reply (D.Known ev.schema actor))
        (k (.record r)) (lineage.value D r)

/-- Both ways to go on come to the values of the lineages, and null stays
null. -/
structure Onward.Traces (ev : Evaluator Store) (D : Store) (actor : Value)
    (reach : Reach) (rest : Onward Store) : Prop where
  follow : ev.Traces D actor reach.follow rest.follow
  ascend : ev.Traces D actor reach.ascend rest.ascend
  null : rest.follow .null = pure .null
  isEnd : reach.isEnd = true → rest.follow = pure

theorem traces_none (k : Value → EvalM Store Value) :
    ev.Traces D actor (fun _ => none) k := by
  intro entity lineage h
  cases h

theorem Traces.fanOut {lineage? : Entity → Option Lineage}
    {k : Value → EvalM Store Value} (hk : ev.Traces D actor lineage? k) :
    ev.Traces D actor lineage? (fanOut k) := by
  intro entity lineage h r hr hentity
  rw [fanOut_record]
  exact hk entity lineage h r hr hentity

theorem step_traces (hD : D.Relational ev.schema)
    (hsteady : ev.Steady loader D.Serves D.reply (D.Known ev.schema actor))
    {name : String} {isEnd : Bool} {lineage? : Entity → Option Lineage}
    {next : Value → EvalM Store Value} (hnext : ev.Traces D actor lineage? next)
    (hnull : next .null = pure .null) (hend : isEnd = true → next = pure) :
    ev.Traces D actor (Reach.step ev.schema name isEnd lineage?)
      (ev.step name next) := by
  intro entity lineage h r hr hentity
  unfold Reach.step at h
  show Yields _ (ev.fieldValue r name >>= next) _
  cases hfield : ev.schema.field entity name with
  | column columnName =>
    simp only [hfield, Option.ite_none_right_eq_some] at h
    obtain ⟨hisEnd, heq⟩ := h
    obtain rfl := Option.some.inj heq
    rw [fieldValue_column hD hr hentity hfield, hend hisEnd]
    exact (Yields.pure (r.getOrNull columnName)).bind (.pure _)
  | belongsTo key target optional =>
    have hvalue := fieldValue_belongsTo hD hsteady hr hentity hfield
    refine hvalue.bind ?_
    simp only [hfield] at h
    split at h
    · next hisEnd =>
      obtain rfl := Option.some.inj h
      rw [hend hisEnd]
      exact .pure _
    · obtain ⟨rest, hrest, rfl⟩ := Option.map_eq_some_iff.1 h
      rw [Lineage.value, Store.parent_eq]
      cases hparent : D.parent? r key target.name with
      | none =>
        rw [Option.elim_none, Option.elim_none, hnull]
        exact .pure Value.null
      | some p =>
        obtain ⟨hp, hdeclared⟩ :=
          Store.parent?_eq_some ((Schema.field_eq_belongsTo hfield).2) hparent
        exact hnext target rest hrest p hp hdeclared
  | hasMany child inverse key => simp [hfield] at h
  | unknown =>
    simp only [hfield, Option.ite_none_right_eq_some] at h
    rw [fieldValue_unknown hentity hfield h.1]
    exact (Yields.pure (Value.record r)).bind
      (hnext entity lineage h.2 r hr hentity)

theorem steps_null (names : List String) {next : Value → EvalM Store Value}
    (hnull : next .null = pure .null) :
    ev.steps next names .null = pure .null := by
  cases names with
  | nil => exact hnull
  | cons name names => exact fanOut_null _

theorem steps_traces (hD : D.Relational ev.schema)
    (hsteady : ev.Steady loader D.Serves D.reply (D.Known ev.schema actor))
    {reach : Reach} {rest : Onward Store}
    (hrest : Onward.Traces ev D actor reach rest) :
    ∀ names, ev.Traces D actor (Reach.steps ev.schema reach names)
      (ev.steps rest.follow names)
  | [] => hrest.follow
  | [_] => (step_traces hD hsteady hrest.follow hrest.null hrest.isEnd).fanOut
  | _ :: next :: names =>
    (step_traces hD hsteady (steps_traces hD hsteady hrest (next :: names))
      (steps_null (next :: names) hrest.null)
      (fun h => absurd h Bool.false_ne_true)).fanOut

theorem climb_traces (hD : D.Relational ev.schema)
    (hsteady : ev.Steady loader D.Serves D.reply (D.Known ev.schema actor))
    {reach : Reach} {rest : Onward Store}
    (hrest : Onward.Traces ev D actor reach rest) (name : String) :
    ev.Traces D actor
      (fun entity => (ev.graph.shortestPath entity.name name).bind fun names =>
      Reach.steps ev.schema reach names
        entity) (ev.climb name rest.follow) := by
  intro entity lineage h r hr hentity
  obtain ⟨names, hnames, hlineage⟩ := Option.bind_eq_some_iff.1 h
  unfold climb
  rw [show (Value.record r).entity? = some entity.name from
    (Schema.entityOf?_eq_some_iff.1 hentity).1, Option.bind_some, hnames]
  exact steps_traces hD hsteady hrest names entity lineage hlineage r hr hentity

/-- Null stays null at every step. -/
theorem onStep_null (step : Step) (rest : Onward Store) :
    (ev.onStep step rest).follow .null = pure .null := by
  cases step <;> simp only [onStep, fanOut_null]

theorem onStep_traces (hD : D.Relational ev.schema)
    (hsteady : ev.Steady loader D.Serves D.reply (D.Known ev.schema actor))
    {step : Step} {reach : Reach} {rest : Onward Store}
    (hrest : Onward.Traces ev D actor reach rest) :
    Onward.Traces ev D actor (reach.onStep ev.schema ev.graph step)
      (ev.onStep step rest) := by
  cases step with
  | field name given =>
    have hstep : ev.Traces D actor
        (Reach.step ev.schema name reach.isEnd reach.follow)
        (fanOut (ev.step name rest.follow)) :=
      (step_traces hD hsteady hrest.follow hrest.null hrest.isEnd).fanOut
    exact ⟨hstep, climb_traces hD hsteady hrest name, onStep_null _ _,
      fun h => absurd h Bool.false_ne_true⟩
  | wildcard =>
    exact ⟨hrest.ascend.fanOut, traces_none _, onStep_null _ _,
      fun h => absurd h Bool.false_ne_true⟩
  | self name =>
    refine ⟨Traces.fanOut ?_, traces_none _, onStep_null _ _,
      fun h => absurd h Bool.false_ne_true⟩
    intro entity lineage h r hr hentity
    have hname : (Value.record r).entity? = some entity.name :=
      (Schema.entityOf?_eq_some_iff.1 hentity).1
    unfold Reach.onStep at h
    dsimp only at h ⊢
    split at h
    · next heq =>
      rw [if_pos (by rw [hname, heq])]
      exact hrest.follow entity lineage h r hr hentity
    · next hne =>
      obtain rfl := Option.some.inj h
      rw [if_neg (fun h => hne (Option.some.inj (hname.symm.trans h)).symm)]
      exact .pure Value.null
  | alternatives paths =>
    exact ⟨traces_none _, traces_none _, onStep_null _ _,
      fun h => absurd h Bool.false_ne_true⟩

theorem onPath_traces (hD : D.Relational ev.schema)
    (hsteady : ev.Steady loader D.Serves D.reply (D.Known ev.schema actor))
    (path : Path) {reach : Reach} {rest : Onward Store}
    (hrest : Onward.Traces ev D actor reach rest) :
    Onward.Traces ev D actor (reach.onPath ev.schema ev.graph path)
      (ev.onPath path rest) := by
  induction path with
  | nil => exact hrest
  | cons step path ih => exact onStep_traces hD hsteady ih

theorem done_traces : Onward.Traces ev D actor .done .done := by
  refine ⟨?_, traces_none _, rfl, fun _ => rfl⟩
  intro entity lineage h r _ _
  obtain rfl := Option.some.inj h
  exact .pure (Value.record r)

/-- A path that has a lineage leads from a stored record to its value. -/
theorem evaluate_lineage (hD : D.Relational ev.schema)
    (hsteady : ev.Steady loader D.Serves D.reply (D.Known ev.schema actor))
    {path : Path} {lineage : Lineage}
    (hlineage : path.lineage? ev.schema ev.graph entity = some lineage)
    (hr : r ∈ D.contents) (hentity : ev.schema.entityOf? r = some entity) :
    Yields (Coherent ev D.Serves D.reply (D.Known ev.schema actor))
      (ev.evaluate path (.record r)) (lineage.value D r) :=
  (onPath_traces hD hsteady path done_traces).follow entity lineage hlineage
    r hr hentity

end Evaluator

end RowGuard
