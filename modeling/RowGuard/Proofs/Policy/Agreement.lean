import RowGuard.Policy
import RowGuard.Proofs.Scope.Agreement

/-!
# The query of a policy set and its decisions

A set of policies stands for one condition: some permissive policy and every
restrictive one (`PolicySet.condition`).  The query compiles it and a decision
decides it, so that both agree where all policies are positive.
`PolicySet.authorize_select` says so for every stored record.
-/

namespace RowGuard

namespace PolicySet

variable {σ : Type} {c : Compiler σ} {ev : Evaluator σ} {subject actor : Value}
  {name action : String}

/-! ## One condition -/

/-- The conditions of the policies of one kind. -/
def conditions (set : PolicySet) (kind : PolicyKind) (entity action : String) :
    List Expression :=
  (set.applicable kind entity action).map (·.expression)

/-- What the policies ask for together. -/
def condition (set : PolicySet) (entity action : String) : Expression :=
  .all (.any (set.conditions .permissive entity action) ::
    set.conditions .restrictive entity action)

theorem someHolds_eq (policies : List Policy) :
    someHolds ev subject actor policies =
      ev.anyHolds subject actor (policies.map (·.expression)) := by
  induction policies with
  | nil => rfl
  | cons p policies ih => rw [someHolds, ih, List.map_cons, Evaluator.anyHolds]

theorem allHold_eq (policies : List Policy) :
    allHold ev subject actor policies =
      ev.allHold subject actor (policies.map (·.expression)) := by
  induction policies with
  | nil => rfl
  | cons p policies ih => rw [allHold, ih, List.map_cons, Evaluator.allHold]

theorem compileEach_eq {entity : Entity}
    (hentity : c.evaluator.schema.entity? name = some entity)
    (policies : List Policy) :
    compileEach c actor name policies =
      c.fragments actor entity (policies.map (·.expression)) := by
  have hrequire : c.require name = pure entity := by
    rw [Compiler.require, Schema.require, hentity]
  induction policies with
  | nil => rfl
  | cons p policies ih =>
    rw [compileEach, ih, List.map_cons, Compiler.fragments, Compiler.compile,
      hrequire, pure_bind]

/-- A subject of an entity is decided by the condition. -/
theorem authorize_eq (set : PolicySet)
    (hsubject : subject.entity? = some name) :
    set.authorize ev subject action actor =
      ev.holds subject actor (set.condition name action) := by
  rw [authorize, hsubject, condition, Evaluator.holds]
  simp only [someHolds_eq, allHold_eq, Evaluator.allHold, Evaluator.holds,
    conditions]
  rfl

/-- Where all conditions are positive, the scope agrees with the condition. -/
theorem scope_agrees {c : Compiler Store} {D : Store} {entity : Entity}
    (hreads : c.Reads D actor)
    (hentity : c.evaluator.schema.entity? name = some entity) {set : PolicySet}
    (hpositive : ∀ p ∈ set.policies, p.appliesTo name action = true →
      p.expression.Positive c.evaluator D actor entity) :
    ∃ f, Yields (c.Fresh D actor) (set.scope c actor name action) f ∧
      c.Agrees D actor entity (set.condition name action) f := by
  have hkind (kind : PolicyKind) :
      ∃ fs, Yields (c.Fresh D actor)
        (compileEach c actor name (set.applicable kind name action)) fs ∧
        List.Forall₂ (c.Agrees D actor entity)
          (set.conditions kind name action) fs := by
    rw [compileEach_eq hentity]
    refine Compiler.fragments_agree fun e he => ?_
    obtain ⟨p, hp, rfl⟩ := List.mem_map.1 he
    rw [applicable, List.mem_filter, Bool.and_eq_true] at hp
    exact hreads.positive_agrees (Schema.entity?_mem hentity)
      (hpositive p hp.1 hp.2.2)
  obtain ⟨ps, hps, hpermissive⟩ := hkind .permissive
  obtain ⟨rs, hrs, hrestrictive⟩ := hkind .restrictive
  by_cases hne : ps = []
  -- nothing permits anything, and the condition fails at its first part
  · subst hne
    refine ⟨.emptySet, hps.bind (.pure Fragment.emptySet),
      Compiler.emptySet_agrees fun _ => ?_⟩
    rw [condition, List.forall₂_nil_right_iff.1 hpermissive, Evaluator.holds]
    simp only [Evaluator.allHold, Evaluator.holds, Evaluator.anyHolds,
      List.isEmpty_cons]
    rfl
  · obtain ⟨d, hd, -⟩ := combineFragments_any
      (c.evaluator.schema.database D) hne
      fun f hf => (Compiler.compiled_of_agrees hpermissive f hf).toBuilt
    have hcombine : Compiler.combine .any ps = d := by
      rw [Compiler.combine, hd, Option.getD_some]
    refine ⟨Compiler.combine .all (d :: rs), hps.bind ?_, ?_⟩
    · rw [hd]
      exact hrs.bind (.pure _)
    · rw [← hcombine]
      exact Compiler.all_agrees
        (.cons (Compiler.any_agrees hpermissive) hrestrictive)

/-- Where all policies are positive, the select of a policy set admits a stored
record exactly if it is authorized, provided that no two joins clash.  Both have
a result. -/
theorem authorize_select {c : Compiler Store} {D : Store} {entity : Entity}
    (hreads : c.Reads D actor)
    (hentity : c.evaluator.schema.entity? name = some entity) (set : PolicySet)
    (hpositive : ∀ p ∈ set.policies, p.appliesTo name action = true →
      p.expression.Positive c.evaluator D actor entity) :
    ∃ select s', Returns (set.select c actor name action) (.start D) select s' ∧
      (Unambiguous select.joins → ∀ r ∈ D.records name, ∃ s'',
        Returns (set.authorize c.evaluator (.record r) action actor) (.start D)
          (select.admits (c.evaluator.schema.database D) r.getOrNull) s'') := by
  obtain ⟨f, hscope, hagrees⟩ := scope_agrees hreads hentity hpositive
  obtain ⟨s', hf, -⟩ := hscope _ hreads.start
  have hbuilt := hagrees.compiled.toBuilt
  have hjoins : (f.applyTo (c.root entity)).joins = f.joins :=
    mergeJoins_of_once hbuilt.once
  refine ⟨f.applyTo (c.root entity), s', ?_, fun hu r hr => ?_⟩
  · rw [PolicySet.select, returns_bind_iff]
    exact ⟨f, s', hf, returns_bind_iff.2 ⟨entity, s',
      Compiler.require_returns_iff.2 ⟨hentity, rfl⟩,
      returns_pure_iff.2 ⟨rfl, rfl⟩⟩⟩
  · rw [hjoins] at hu
    obtain ⟨hmem, hname⟩ := List.mem_filter.1 hr
    have hsubject : (Value.record r).entity? = some name := beq_iff_eq.1 hname
    obtain rfl := Schema.entity?_name hentity
    have hdeclared := Schema.entityOf?_eq_some_iff.2 ⟨hsubject, hentity⟩
    obtain ⟨b, hb, hdecided⟩ := hagrees.decides r hmem hdeclared
    obtain ⟨s'', hauthorize, -⟩ := hb _ hreads.start
    have hadmits : (f.applyTo (c.root entity)).admits
        (c.evaluator.schema.database D) r.getOrNull = b := by
      rw [Bool.eq_iff_iff, Compiler.admits_root_iff hbuilt]
      exact (hdecided hu).admits_iff
    refine ⟨s'', ?_⟩
    rw [authorize_eq set hsubject, hadmits]
    exact hauthorize

end PolicySet

/-! ## Where the two differ -/

namespace Staff

def team : Entity :=
  { Entity.new "team" with attributes := [⟨"name", .string, none⟩] }

/-- A member has a team and may have a lead.  The alias of the third relation is
that of the team of the lead. -/
def member : Entity :=
  { Entity.new "member" with
    relations := [.parent "team" "team",
      (Relation.parent "lead" "member").nullable,
      (Relation.parent "lead__team" "team").nullable] }

/-- The foreign key of a guest is called like the relation. -/
def guest : Entity :=
  { Entity.new "guest" with
    relations :=
      [{ Relation.parent "team" "team" with column := some "team" }] }

/-- Squads are kept in the table of the teams. -/
def squad : Entity := { team with name := "squad", table := some "team" }

/-- The label of a room is kept as its title. -/
def room : Entity :=
  { Entity.new "room" with
    attributes := [⟨"label", .string, some "title"⟩]
    relations := [.parent "owner" "team"] }

def schema : Schema where
  entities := [team, member, guest, squad, room]
  names_nodup := by decide
  targets_declared := by decide

/-- A compiler that loads from a store without limits. -/
def compiler (schema : Schema) : Compiler Store :=
  { evaluator :=
      { schema, loader := some (Store.loader 0), budget := .unlimited } }

/-- A record of an entity with an identity. -/
def instanceOf (entity : String) (id : Int64)
    (fields : List (String × Value)) : Record :=
  ⟨some entity, ("id", .int64 id) :: fields⟩

def teamX : Record := instanceOf "team" 1 [("name", .string "x")]

def teamY : Record := instanceOf "team" 2 [("name", .string "y")]

/-- A second team with the identity of `teamY`. -/
def teamZ : Record := instanceOf "team" 2 [("name", .string "z")]

def squadS : Record := instanceOf "squad" 3 [("name", .string "s")]

def ann : Record := instanceOf "member" 1 [("team_id", .int64 1)]

/-- Ann as an actor who has not heard that she changed teams. -/
def staleAnn : Record := instanceOf "member" 1 [("team_id", .int64 2)]

/-- A member of a team that is not stored. -/
def bob : Record := instanceOf "member" 2 [("team_id", .int64 9)]

/-- A member with relations whose joins clash. -/
def cid : Record :=
  instanceOf "member" 3
    [("team_id", .int64 1), ("lead_id", .int64 1), ("lead__team_id", .int64 2)]

def dan : Record := instanceOf "guest" 1 [("team", .int64 1)]

def eve : Record := instanceOf "member" 4 [("team_id", .int64 2)]

/-- A member whose team is a squad. -/
def flo : Record := instanceOf "member" 5 [("team_id", .int64 3)]

/-- A room with a field for its label, and another label in its column. -/
def hall : Record :=
  instanceOf "room" 1 [("label", .string "a"), ("title", .string "b"),
    ("owner_id", .int64 1)]

/-- A room with several labels in one column. -/
def attic : Record :=
  instanceOf "room" 2 [("title", .list [.string "a", .string "b"])]

/-- A store with what `PolicySet.authorize_select` rules out. -/
def store : Store :=
  ⟨[teamX, teamY, teamZ, squadS, ann, bob, cid, dan, eve, flo, hall, attic],
    [("room", "owner")], 0⟩

def allow (entity : String) (e : Expression) : Policy :=
  ⟨"allow", entity, "view", .permissive, e⟩

/-- Admits the members of the team of the actor. -/
def colleagues : Policy :=
  allow "member" (.leaf .eq [.plain "team"] (.path [.plain "team"]))

/-- Admits the members of a team that is given by its identity. -/
def ofTeam (id : Int64) : Policy :=
  allow "member"
    (.leaf .eq [.plain "team"] (.literal (.record (instanceOf "team" id []))))

/-- Admits the members who are led from the team `x` and work for the team
`y`. -/
def lentOut : Policy :=
  allow "member" (.all
    [.leaf .eq [.plain "lead", .plain "team", .plain "name"]
      (.literal (.string "x")),
      .leaf .eq [.plain "lead__team", .plain "name"] (.literal (.string "y"))])

/-- Admits what belongs to a team that is given by its name. -/
def named (entity relation name : String) : Policy :=
  allow entity
    (.leaf .eq [.plain relation, .plain "name"] (.literal (.string name)))

/-- Admits the rooms with a label. -/
def labelled (label : String) : Policy :=
  allow "room" (.leaf .eq [.plain "label"] (.literal (.string label)))

/-- The select of a policy admits a stored record or not, and the decision is
not to allow it exactly then. -/
def Differ (p : Policy) (actor : Value) (r : Record) (admitted : Bool) : Prop :=
  r ∈ store.records p.entity ∧ ∃ select s',
    Returns (PolicySet.select ⟨[p]⟩ (compiler schema) actor p.entity "view")
      (.start store) select s' ∧
    select.admits (schema.database store) r.getOrNull = admitted ∧
    ¬ (admitted = true ↔ ∃ s'',
      Returns (PolicySet.authorize ⟨[p]⟩ (compiler schema).evaluator
        (.record r) "view" actor) (.start store) true s'')

/-- Both sides can be computed. -/
theorem differ_of_computed {p : Policy} {actor : Value} {r : Record}
    {admitted : Bool} (hstored : r ∈ store.contents)
    (hentity : r.entity = some p.entity)
    (hselect :
      (outcome (PolicySet.select ⟨[p]⟩ (compiler schema) actor p.entity "view")
        (.start store)).1.toOption.map
        (·.admits (schema.database store) r.getOrNull) = some admitted)
    (hauthorize :
      ((outcome (PolicySet.authorize ⟨[p]⟩ (compiler schema).evaluator
        (.record r) "view" actor)
        (.start store)).1.toOption == some true) = !admitted) :
    Differ p actor r admitted := by
  obtain ⟨select, hresult, hadmits⟩ := Option.map_eq_some_iff.1 hselect
  refine ⟨List.mem_filter.2 ⟨hstored, beq_iff_eq.2 hentity⟩, select, _,
    returns_of_toOption hresult, hadmits, ?_⟩
  rw [exists_returns_iff, ← beq_iff_eq (a := Except.toOption _), hauthorize]
  cases admitted <;> simp

end Staff

open Staff in
/-- A decision is not what the select says where the actor's record is stale
(the cache takes its relations for those of the stored record), where a foreign
key at the end of a path leads nowhere, where two joins have one alias, where a
foreign key is called like its relation, where two records have one identity or
two entities one table, where a record holds an attribute beside its column or a
list in a column, and where a load fails. -/
theorem PolicySet.authorize_ne_select :
    Differ colleagues (.record staleAnn) ann false ∧
      Differ (ofTeam 9) .null bob true ∧
      Differ lentOut .null cid false ∧
      Differ (named "guest" "team" "x") .null dan true ∧
      Differ (named "member" "team" "z") .null eve true ∧
      Differ (named "member" "team" "s") .null flo true ∧
      Differ (labelled "a") .null hall false ∧
      Differ (labelled "a") .null attic false ∧
      Differ (named "room" "owner" "x") .null hall true := by
  refine ⟨differ_of_computed ?_ rfl ?_ ?_, differ_of_computed ?_ rfl ?_ ?_,
    differ_of_computed ?_ rfl ?_ ?_, differ_of_computed ?_ rfl ?_ ?_,
    differ_of_computed ?_ rfl ?_ ?_, differ_of_computed ?_ rfl ?_ ?_,
    differ_of_computed ?_ rfl ?_ ?_, differ_of_computed ?_ rfl ?_ ?_,
    differ_of_computed ?_ rfl ?_ ?_⟩
  -- the records are stored, and the rest is computed
  case refine_1 | refine_4 | refine_7 | refine_10 | refine_13 |
    refine_16 | refine_19 |
      refine_22 | refine_25 => simp [Staff.store]
  all_goals decide +kernel

/-! ## A store on which they agree -/

namespace Staff

def tidySchema : Schema where
  entities := [team, member]
  names_nodup := by decide
  targets_declared := by decide

/-- A store without what makes the two differ. -/
def tidy : Store := ⟨[teamX, teamY, ann], [], 0⟩

theorem tidy_relational : tidy.Relational tidySchema where
  intact := rfl
  rows := by
    intro r hr entity hentity
    simp only [tidy, List.mem_cons, List.not_mem_nil, or_false] at hr
    rcases hr with rfl | rfl | rfl
    · obtain rfl : team = entity := Option.some.inj hentity
      exact ⟨by decide, by decide, by decide, by decide, by decide⟩
    · obtain rfl : team = entity := Option.some.inj hentity
      exact ⟨by decide, by decide, by decide, by decide, by decide⟩
    · obtain rfl : member = entity := Option.some.inj hentity
      exact ⟨by decide, by decide, by decide, by decide, by decide⟩
  unique := by
    intro r hr r' hr' entity hentity hentity' id id' hid hid' hagrees
    simp only [tidy, List.mem_cons, List.not_mem_nil, or_false] at hr hr'
    -- the two teams have other identities, and a member is no team
    rcases hr with rfl | rfl | rfl <;> rcases hr' with rfl | rfl | rfl
    case inl.inl | inr.inl.inr.inl | inr.inr.inr.inr => rfl
    case inl.inr.inl | inr.inl.inl =>
      cases hid
      cases hid'
      exact absurd hagrees (by decide +kernel)
    all_goals
      exact absurd (Option.some.inj (hentity.trans hentity'.symm)) (by decide)

theorem tidy_reads : (compiler tidySchema).Reads tidy (.record ann) where
  elapsed := ⟨0, rfl⟩
  unlimited := rfl
  names := .of_separator (by decide)
  tabular := ⟨by decide, by decide⟩
  relational := tidy_relational
  familiar := tidy_relational.familiar_of_stored fun r hr => by
    rw [Value.records_record, List.mem_cons] at hr
    rcases hr with rfl | hr
    · simp [tidy]
    · simp [ann, instanceOf, recordsIn, Value.records] at hr

theorem colleagues_positive :
    ∀ p ∈ [colleagues], p.appliesTo "member" "view" = true →
    p.expression.Positive (compiler tidySchema).evaluator tidy
      (.record ann) member := by
  rintro p hp -
  rw [List.mem_singleton.1 hp]
  have hlineage : Path.lineage? tidySchema (.ofSchema tidySchema)
      [.plain "team"] member =
      some (.parent "team" "team_id" team false) := rfl
  obtain ⟨_, hsteady⟩ := tidy_reads.steady
  obtain ⟨s', hreturns, -⟩ := Evaluator.evaluate_lineage tidy_relational
    hsteady hlineage (r := ann) (by simp [tidy]) rfl _ tidy_reads.start
  refine .leaf ?_ hlineage ?_
    ⟨_, s', hreturns, .eq (Option.isSome_iff_exists.1 ?_)⟩
  · simp [Path.Plain, Step.plain, Step.alias?]
  · intro r hr hentity _
    simp only [tidy, List.mem_cons, List.not_mem_nil, or_false] at hr
    rcases hr with rfl | rfl | rfl
    · exact absurd (Option.some.inj hentity : team = member) (by decide)
    · exact absurd (Option.some.inj hentity : team = member) (by decide)
    · decide +kernel
  · decide +kernel

end Staff

open Staff in
theorem PolicySet.authorize_select_colleagues :
    (compiler tidySchema).Reads tidy (.record ann) ∧
      (compiler tidySchema).evaluator.schema.entity? "member" = some member ∧
      (∀ p ∈ [colleagues], p.appliesTo "member" "view" = true →
        p.expression.Positive (compiler tidySchema).evaluator tidy
          (.record ann) member) ∧
      ∃ select s',
        Returns (PolicySet.select ⟨[colleagues]⟩ (compiler tidySchema)
          (.record ann) "member"
          "view") (.start tidy) select s' ∧
        Unambiguous select.joins ∧ ∀ r ∈ tidy.records "member", ∃ s'',
          Returns
            (PolicySet.authorize ⟨[colleagues]⟩ (compiler tidySchema).evaluator
              (.record r) "view"
              (.record ann))
            (.start tidy) (select.admits (tidySchema.database tidy) r.getOrNull)
            s'' := by
  obtain ⟨select, s', hselect, hagrees⟩ :=
    PolicySet.authorize_select tidy_reads rfl ⟨[colleagues]⟩ colleagues_positive
  -- the foreign key is tested without a join
  have hcomputed : (outcome
      (PolicySet.select ⟨[colleagues]⟩ (compiler tidySchema) (.record ann)
        "member" "view")
      (.start tidy)).1.toOption.map (·.joins) = some [] := by
    decide +kernel
  obtain ⟨select', hresult, hjoins⟩ := Option.map_eq_some_iff.1 hcomputed
  obtain ⟨rfl, -⟩ := hselect.unique (returns_of_toOption hresult)
  have hu : Unambiguous select.joins := by
    rw [hjoins]
    exact fun _ hj => absurd hj List.not_mem_nil
  exact ⟨tidy_reads, rfl, colleagues_positive, select, s', hselect,
    hu, hagrees hu⟩

end RowGuard
