import RowGuard.Proofs.Query.Combination
import RowGuard.Scope.Binder

/-!
# What binding a path adds to a fragment

`Binder.Chain` says all that binding does: it adds joins of relations, each
hanging off the one before, and puts one filter on the alias where it ends.
Wildcards add the joins of the shortest path, and alternatives a filter with a
subquery.  `Binder.onPath_chain` is the fact for every path.

Two properties of fragments follow by induction on the chain.  Binding keeps a
fragment `Built` (`Binder.Chain.built`), and without alias overrides every alias
is longer than the one it hangs off (`Binder.Chain.longer`).
-/

namespace RowGuard

/-- The path gives no aliases.  What its alternatives do has no part in that,
since they have roots of their own. -/
def Path.Plain (path : Path) : Prop := ∀ step ∈ path, step.alias? = none

namespace Binder

variable {b : Binder} {t : Test}

/-- The join of a relation `name` of an entity to another one. -/
inductive RelationJoin (b : Binder) (entity : Entity)
    (aliasName name : String) :
    (target : Entity) → Join → Prop where
  | parent {key target optional} (fieldAlias : String)
      (hfield : b.schema.field entity name = .belongsTo key target optional) :
      RelationJoin b entity aliasName name target
        (parentJoin aliasName key target optional fieldAlias)
  | children {child inverse key} (fieldAlias : String)
      (hfield : b.schema.field entity name = .hasMany child inverse key) :
      RelationJoin b entity aliasName name child
        (childrenJoin aliasName key entity child fieldAlias)

theorem RelationJoin.parentAlias_eq {entity target : Entity}
    {aliasName name : String} {j : Join}
    (h : b.RelationJoin entity aliasName name target j) :
    j.parentAlias = aliasName := by
  cases h <;> rfl

/-- The fragment has become another one by joins of relations, each off the one
before, and a filter at the end.  If `plain` then every join has the alias that
is built from the path. -/
inductive Chain (b : Binder) (plain : Bool) :
    Entity → (aliasName : String) → Fragment → Fragment → Prop where
  | filter {entity aliasName f condition}
      (hreads : ∀ x ∈ condition.aliases, x = aliasName) :
      Chain b plain entity aliasName f (f.filter condition)
  | join {entity aliasName f name target j g}
      (hjoin : b.RelationJoin entity aliasName name target j)
      (halias : plain = true → j.aliasName = b.naming.child aliasName name)
      (rest : Chain b plain target j.aliasName (f.join j) g) :
      Chain b plain entity aliasName f g

/-! ## Growths are chains -/

/-- The growth turns fragments into others by a chain. -/
def Growth.IsChain (b : Binder) (plain : Bool) (g : Growth) : Prop :=
  ∀ entity aliasName f, b.Chain plain entity aliasName f (g entity aliasName f)

/-- The rest of a path adds chains. -/
structure Onward.IsChain (b : Binder) (plain : Bool)
    (rest : Onward) : Prop where
  follow : rest.follow.IsChain b plain
  ascend : rest.ascend.IsChain b plain

theorem FilterValue.aliases_filter {value : FilterValue}
    {aliasName column : String} {op : Operator} :
    ∀ x ∈ (value.filter aliasName column op).aliases, x = aliasName := by
  intro x hx
  cases value with
  | empty =>
    rw [FilterValue.filter] at hx
    split at hx <;> simp [Filter.always, Filter.aliases, filterAliases] at hx
  | _ => simpa [FilterValue.filter, Filter.aliases] using hx

variable {plain : Bool}

theorem deny_isChain : Growth.IsChain b plain deny := fun _ _ _ =>
  .filter (by simp [Filter.aliases])

theorem test_isChain (column : Entity → String) :
    Growth.IsChain b plain fun entity aliasName f =>
      f.filter (t.filter aliasName (column entity)) :=
  fun _ _ _ => .filter FilterValue.aliases_filter

theorem Onward.done_isChain : (Onward.done t).IsChain b plain :=
  ⟨test_isChain Entity.identity, test_isChain Entity.identity⟩

theorem step_isChain {name : String} {given : Option String} {isEnd : Bool}
    {next : Growth} (hgiven : plain = true → given = none)
    (hnext : next.IsChain b plain) :
    (b.step t name given isEnd next).IsChain b plain := by
  intro entity aliasName f
  have halias : plain = true →
      given.getD (b.naming.child aliasName name) =
        b.naming.child aliasName name := by
    intro hplain
    rw [hgiven hplain, Option.getD_none]
  unfold Binder.step
  split
  next column _ =>
    split
    · exact test_isChain (fun _ => column) entity aliasName f
    · exact deny_isChain entity aliasName f
  next key parent optional hfield =>
    split
    · exact test_isChain (fun _ => key) entity aliasName f
    · exact .join (.parent _ hfield) halias (hnext parent _ _)
  next child inverse key hfield =>
    exact .join (.children _ hfield) halias (hnext child _ _)
  next =>
    split
    · exact hnext entity aliasName f
    · exact deny_isChain entity aliasName f

theorem steps_isChain {goal : String} {given : Option String} {rest : Onward}
    (hgiven : plain = true → given = none) (hrest : rest.IsChain b plain) :
    ∀ names, (b.steps t goal given rest names).IsChain b plain
  | [] => hrest.follow
  | [name] => by
    refine step_isChain (fun hplain => ?_) hrest.follow
    rw [hgiven hplain, ite_self]
  | name :: next :: names =>
    step_isChain (fun _ => rfl) (steps_isChain hgiven hrest (next :: names))

theorem climb_isChain {name : String} {given : Option String} {rest : Onward}
    (hgiven : plain = true → given = none) (hrest : rest.IsChain b plain) :
    (b.climb t name given rest).IsChain b plain := by
  intro entity aliasName f
  unfold Binder.climb
  split
  · exact steps_isChain hgiven hrest _ entity aliasName f
  · exact deny_isChain entity aliasName f

/-- Alternatives are one filter, whatever they add to roots of their own. -/
theorem branch_isChain (ways : List Growth) :
    (b.branch ways).IsChain b plain := by
  intro entity aliasName f
  unfold Binder.branch
  dsimp only
  split
  · exact .filter (by simp [Filter.aliases])
  · exact .filter (by simp [Filter.aliases])

theorem onStep_isChain {step : Step} {rest : Onward}
    (hstep : plain = true → step.alias? = none) (hrest : rest.IsChain b plain) :
    (b.onStep t step rest).IsChain b plain := by
  cases step with
  | field name given =>
    exact ⟨step_isChain hstep hrest.follow, climb_isChain hstep hrest⟩
  | wildcard => exact ⟨hrest.ascend, deny_isChain⟩
  | self name =>
    refine ⟨fun entity aliasName f => ?_, deny_isChain⟩
    unfold Binder.onStep
    dsimp only
    split
    · exact hrest.follow entity aliasName f
    · exact deny_isChain entity aliasName f
  | alternatives paths => exact ⟨branch_isChain _, deny_isChain⟩

theorem onPath_isChain {path : Path} {rest : Onward}
    (hpath : plain = true → Path.Plain path) (hrest : rest.IsChain b plain) :
    (b.onPath t path rest).IsChain b plain := by
  induction path with
  | nil => exact hrest
  | cons step path ih =>
    refine onStep_isChain
      (fun hplain => hpath hplain step (List.mem_cons_self ..)) (ih ?_)
    exact fun hplain s hs => hpath hplain s (List.mem_cons_of_mem _ hs)

/-- Binding a path is a chain from the empty fragment. -/
theorem bind_chain {path : Path} (hpath : plain = true → Path.Plain path)
    (entity : Entity) (aliasName : String) :
    b.Chain plain entity aliasName .empty (b.bind t path entity aliasName) :=
  (onPath_isChain hpath Onward.done_isChain).follow entity aliasName .empty

/-! ## What a chain keeps -/

/-- A chain from a bound alias keeps a fragment built. -/
theorem Chain.built {root : String} {entity : Entity} {aliasName : String}
    {f g : Fragment} (h : b.Chain plain entity aliasName f g)
    (hf : f.Built root)
    (hbound : aliasName ∈ root :: f.joins.map Join.aliasName) :
    g.Built root := by
  induction h with
  | filter hreads => exact hf.filter fun x hx => hreads x hx ▸ hbound
  | @join entity aliasName f name target j g hjoin _ _ ih =>
    refine ih (hf.join (hjoin.parentAlias_eq ▸ hbound))
      (List.mem_cons_of_mem _ ?_)
    exact mem_aliases_insertJoin.2 (.inr rfl)

/-- Every relation adds something to an alias. -/
def Names (b : Binder) : Prop :=
  ∀ entity ∈ b.schema.entities, ∀ relation ∈ entity.relations,
    b.naming.separator ++ relation.name ≠ ""

theorem Names.of_separator (h : b.naming.separator ≠ "") :
    b.Names := fun _ _ _ _ heq =>
  h (String.append_eq_empty_iff.1 heq).1

end Binder

theorem Schema.field_eq_relation {s : Schema} {entity : Entity} {name : String}
    (h : (s.field entity name).isRelation = true) :
    ∃ relation target, entity.relation? name = some relation ∧
      s.entity? relation.target = some target ∧
      s.field entity name = relation.field entity target := by
  rw [Schema.field] at h ⊢
  cases hrelation : entity.relation? name with
  | none =>
    simp only [hrelation] at h
    split at h
    · cases h
    · split at h <;> cases h
  | some relation =>
    cases htarget : s.entity? relation.target with
    | none => simp [hrelation, htarget, Field.isRelation] at h
    | some target => exact ⟨relation, target, rfl, htarget, by simp [htarget]⟩

/-- A parent is that of a declared relation. -/
theorem Schema.exists_relation_of_belongsTo {s : Schema}
    {entity target : Entity} {name key : String} {optional : Bool}
    (h : s.field entity name = .belongsTo key target optional) :
    ∃ relation ∈ entity.relations, relation.name = name ∧
      relation.kind = .belongsTo ∧
      s.entity? relation.target = some target ∧ relation.foreignKey = key ∧
      relation.optional = optional := by
  have hrelation : (s.field entity name).isRelation = true := by
    rw [h]
    rfl
  obtain ⟨relation, found, hmem, hfound, hfield⟩ :=
    Schema.field_eq_relation hrelation
  rw [h, Relation.field] at hfield
  split at hfield
  · next hkind =>
    cases hfield
    have hname : relation.name = name := by simpa using List.find?_some hmem
    exact ⟨relation, List.mem_of_find?_eq_some hmem, hname, hkind,
      hfound, rfl, rfl⟩
  · cases hfield

/-- Children are those of a declared relation. -/
theorem Schema.exists_relation_of_hasMany {s : Schema} {entity child : Entity}
    {name inverse key : String}
    (h : s.field entity name = .hasMany child inverse key) :
    ∃ relation ∈ entity.relations, relation.name = name ∧
      relation.kind = .hasMany ∧
      s.entity? relation.target = some child ∧
      relation.inverse.getD entity.name = inverse ∧
      entity.childKey child inverse = key := by
  have hrelation : (s.field entity name).isRelation = true := by
    rw [h]
    rfl
  obtain ⟨relation, found, hmem, hfound, hfield⟩ :=
    Schema.field_eq_relation hrelation
  rw [h, Relation.field] at hfield
  split at hfield
  · cases hfield
  · next hkind =>
    cases hfield
    have hname : relation.name = name := by simpa using List.find?_some hmem
    exact ⟨relation, List.mem_of_find?_eq_some hmem, hname, hkind,
      hfound, rfl, rfl⟩

namespace Binder

variable {b : Binder} {t : Test} {plain : Bool}

/-- A relation is declared by its entity and leads to an entity of the
schema. -/
theorem RelationJoin.declared {entity target : Entity} {aliasName name : String}
    {j : Join} (h : b.RelationJoin entity aliasName name target j) :
    (∃ relation ∈ entity.relations, relation.name = name) ∧
      target ∈ b.schema.entities := by
  cases h with
  | parent _ hfield =>
    obtain ⟨relation, hmem, hname, -, htarget, -⟩ :=
      Schema.exists_relation_of_belongsTo hfield
    exact ⟨⟨relation, hmem, hname⟩, Schema.entity?_mem htarget⟩
  | children _ hfield =>
    obtain ⟨relation, hmem, hname, -, htarget, -⟩ :=
      Schema.exists_relation_of_hasMany hfield
    exact ⟨⟨relation, hmem, hname⟩, Schema.entity?_mem htarget⟩

theorem length_lt_child {n : Naming} {parent relation : String}
    (h : n.separator ++ relation ≠ "") :
    parent.length < (n.child parent relation).length := by
  have hpos : 0 < (n.separator ++ relation).length := by
    rw [Nat.pos_iff_ne_zero, ne_eq, String.length_eq_zero_iff]
    exact h
  rw [String.length_append] at hpos
  simp only [Naming.child, String.length_append]
  omega

/-- Without alias overrides the aliases that a chain adds are longer than the
one at which it starts. -/
theorem Chain.longer {entity : Entity} {aliasName : String} {f g : Fragment}
    (h : b.Chain true entity aliasName f g) (hnames : b.Names)
    (hentity : entity ∈ b.schema.entities) {n : Nat} (hn : n ≤ aliasName.length)
    (hf : ∀ x ∈ f.joins.map Join.aliasName, n < x.length) :
    ∀ x ∈ g.joins.map Join.aliasName, n < x.length := by
  induction h with
  | filter => exact hf
  | @join entity aliasName f name target j g hjoin halias _ ih =>
    obtain ⟨⟨relation, hrelation, rfl⟩, htarget⟩ := hjoin.declared
    have hlonger : aliasName.length < j.aliasName.length := by
      rw [halias rfl]
      exact length_lt_child (hnames entity hentity relation hrelation)
    refine ih htarget (by omega) fun x hx => ?_
    rcases mem_aliases_insertJoin.1 hx with hx | rfl
    · exact hf x hx
    · omega

end Binder

end RowGuard
