import RowGuard.Proofs.Schema.Faults

/-!
# Entities with an index of their names

A `Catalog` keeps the entities of a schema with a hash map from each name to the
position at which the entity stands. `Catalog.ofEntities` fills the map in one
loop and looks the targets of the relations up in it in a second one. An entity
is then found by its position, for which there must be a place.

* `Catalog.ofEntities_eq`: the loops report what `Schema.ofEntities` reports,
  and leave the index of the names.
* `Catalog.entity?_indexed`: every look-up is in bounds and finds what the
  schema has.
* `Schema.ofEntities_accepts`: which lists of entities are accepted, what is
  reported of the others, and what is found in those that are accepted.
-/

namespace RowGuard

/-- Entities and the position of each name. -/
structure Catalog where
  entities : List Entity
  index : Std.HashMap String Nat

namespace Catalog

/-! ## The loops -/

/-- Enters the name of an entity at its position. An entry of this name must not
be there. -/
def enter (index : Std.HashMap String Nat) (entry : Entity × Nat) :
    Except SchemaError (Std.HashMap String Nat) :=
  let (entity, position) := entry
  let (known, index) := index.containsThenInsert entity.name position
  if known then .error (.duplicateEntity entity.name) else .ok index

/-- There must be an entry for the target of a relation. -/
def checkTarget (index : Std.HashMap String Nat) (entity : Entity)
    (relation : Relation) :
    Except SchemaError Unit :=
  if index.contains relation.target then .ok ()
  else .error (.unknownTarget entity.name relation.name relation.target)

/-- There must be an entry for the target of every relation. -/
def checkTargets (index : Std.HashMap String Nat) (entities : List Entity) :
    Except SchemaError Unit :=
  entities.forM fun entity => entity.relations.forM (checkTarget index entity)

/-- The catalog of a list of entities. -/
def ofEntities (entities : List Entity) : Except SchemaError Catalog := do
  let index ← entities.zipIdx.foldlM enter ∅
  checkTargets index entities
  return { entities, index }

/-- The entity of a name. Nothing is returned if its position is out of
bounds. -/
def entity? (c : Catalog) (name : String) : Option (Option Entity) :=
  match c.index[name]? with
  | some position => (c.entities[position]?).map some
  | none => some none

/-- The entities with the index of their names. -/
def indexed (entities : List Entity) : Catalog where
  entities
  index := .ofList (entities.map (·.name)).zipIdx

variable {index : Std.HashMap String Nat} {names seen : List String}
  {entities : List Entity} {s : Schema} {name : String}

/-! ## What the loops come to -/

theorem enter_eq (index : Std.HashMap String Nat) (e : Entity)
    (position : Nat) :
    enter index (e, position) =
      if e.name ∈ index then .error (.duplicateEntity e.name)
      else .ok (index.insert e.name position) := by
  simp [enter]

/-- If the names that were seen are in the index, the loop stops at the first
that repeats one of them. Otherwise it enters them all. -/
theorem foldlM_enter (hseen : ∀ name, name ∈ index ↔ name ∈ seen)
    (start : Nat) :
    (entities.zipIdx start).foldlM enter index =
      (firstRepeat? seen (entities.map (·.name))).elim
        (.ok (index.insertMany ((entities.map (·.name)).zipIdx start)))
        fun name => .error (.duplicateEntity name) := by
  induction entities generalizing index seen start with
  | nil => rfl
  | cons e entities ih =>
    rw [List.zipIdx_cons, List.foldlM_cons, enter_eq, List.map_cons,
      firstRepeat?, List.zipIdx_cons, Std.HashMap.insertMany_cons]
    by_cases h : e.name ∈ seen
    · rw [if_pos ((hseen _).2 h), if_pos h]
      rfl
    · rw [if_neg (mt (hseen _).1 h), if_neg h]
      refine ih (fun name => ?_) (start + 1)
      rw [Std.HashMap.mem_insert, hseen, List.mem_cons, beq_iff_eq, eq_comm]

theorem checkTarget_eq (hnames : ∀ name, name ∈ index ↔ name ∈ names)
    (e : Entity) (r : Relation) :
    checkTarget index e r =
      if !names.contains r.target then
        .error (.unknownTarget e.name r.name r.target)
      else .ok () := by
  by_cases h : r.target ∈ names
  · simp [checkTarget, hnames, h]
  · simp [checkTarget, hnames, h]

theorem forM_checkTarget (hnames : ∀ name, name ∈ index ↔ name ∈ names)
    (e : Entity) (relations : List Relation) :
    relations.forM (checkTarget index e) =
      (relations.find? fun r => !names.contains r.target).elim (.ok ()) fun r =>
        .error (.unknownTarget e.name r.name r.target) := by
  induction relations with
  | nil => rfl
  | cons r relations ih =>
    rw [List.forM_eq_forM, List.forM_cons, checkTarget_eq hnames,
      List.find?_cons]
    cases !names.contains r.target with
    | true => rfl
    | false => exact ih

theorem checkTargets_eq (hnames : ∀ name, name ∈ index ↔ name ∈ names)
    (entities : List Entity) :
    checkTargets index entities =
      (firstDangling? names entities).elim (.ok ()) fun (e, r) =>
        .error (.unknownTarget e.name r.name r.target) := by
  induction entities with
  | nil => rfl
  | cons e entities ih =>
    rw [checkTargets, List.forM_eq_forM, List.forM_cons,
      forM_checkTarget hnames, firstDangling?, List.findSome?_cons]
    cases e.relations.find? fun r => !names.contains r.target with
    | some r => rfl
    | none => exact ih

theorem mem_ofList_zipIdx (names : List String) (name : String) :
    name ∈ Std.HashMap.ofList names.zipIdx ↔ name ∈ names := by
  rw [Std.HashMap.mem_ofList, List.zipIdx_map_fst, List.contains_iff_mem]

/-- The loops report the fault of the entities, and leave the index of their
names if there is none. -/
theorem ofEntities_eq_elim (entities : List Entity) :
    ofEntities entities = (Schema.fault? entities).elim (.ok (indexed entities))
      .error := by
  have hempty : ∀ name, name ∈ (∅ : Std.HashMap String Nat) ↔
      name ∈ ([] : List String) := by simp
  rw [ofEntities, foldlM_enter hempty, Schema.fault?]
  cases firstRepeat? [] (entities.map (·.name)) with
  | some name => rfl
  | none =>
    -- All names have been entered, also those of later entities, before the
    -- targets are checked.
    simp only [Option.elim_none, ← Std.HashMap.ofList_eq_insertMany_empty, bind,
      Except.bind]
    rw [checkTargets_eq (mem_ofList_zipIdx _)]
    cases firstDangling? (entities.map (·.name)) entities with
    | some found => rfl
    | none => rfl

/-- The loops report what is reported of the entities, or index those of the
schema. -/
theorem ofEntities_eq (entities : List Entity) :
    ofEntities entities = (Schema.ofEntities entities).map fun s =>
      indexed s.entities := by
  rw [ofEntities_eq_elim]
  rcases Schema.ofEntities_cases entities with
    ⟨fault, hfault, herror⟩ | ⟨hnone, s, hok, hentities⟩
  · rw [hfault, herror]
    rfl
  · rw [hnone, hok, Except.map, hentities]
    rfl

/-! ## Look-ups -/

/-- A name has the position of its entity. -/
theorem index_indexed {position : Nat} {e : Entity}
    (h : s.entities[position]? = some e) :
    (indexed s.entities).index[e.name]? = some position := by
  have hname : (s.entities.map (·.name))[position]? = some e.name := by
    rw [List.getElem?_map, h, Option.map_some]
  have hdistinct : (s.entities.map (·.name)).zipIdx.Pairwise fun a b =>
      (a.1 == b.1) = false := by
    have hnames : ((s.entities.map (·.name)).zipIdx.map Prod.fst).Pairwise
        fun a b => (a == b) = false := by
      rw [List.zipIdx_map_fst]
      exact s.names_nodup.imp beq_eq_false_iff_ne.2
    exact List.pairwise_map.1 hnames
  exact Std.HashMap.getElem?_ofList_of_mem (beq_self_eq_true _) hdistinct
    (List.mk_mem_zipIdx_iff_getElem?.2 hname)

theorem index_indexed_eq_none (h : ∀ e ∈ s.entities, e.name ≠ name) :
    (indexed s.entities).index[name]? = none := by
  refine Std.HashMap.getElem?_eq_none fun hmem => ?_
  obtain ⟨e, he, hname⟩ := List.mem_map.1 ((mem_ofList_zipIdx _ _).1 hmem)
  exact h e he hname

/-- Every position of the index is in bounds, and a name is found as in the
schema. -/
theorem entity?_indexed (s : Schema) (name : String) :
    (indexed s.entities).entity? name = some (s.entity? name) := by
  cases hfound : s.entity? name with
  | none =>
    rw [entity?, index_indexed_eq_none (Schema.entity?_eq_none_iff.1 hfound)]
  | some e =>
    obtain ⟨he, rfl⟩ := Schema.entity?_eq_some_iff.1 hfound
    obtain ⟨position, hposition⟩ := List.mem_iff_getElem?.1 he
    rw [entity?, index_indexed hposition]
    exact congrArg (Option.map some) hposition

end Catalog

/-! ## Which lists are accepted -/

namespace Schema

/-- The schema has the entities and finds each by its name, also by its position
in the index. Every relation of an entity leads to one of them; of several with
one name the first counts. -/
structure Serves (s : Schema) (entities : List Entity) : Prop where
  entities_eq : s.entities = entities
  found_iff : ∀ name e, s.entity? name = some e ↔ e ∈ entities ∧ e.name = name
  missing_iff : ∀ name, s.entity? name = none ↔ ∀ e ∈ entities, e.name ≠ name
  indexed : ∀ name, (Catalog.indexed entities).entity? name =
    some (s.entity? name)
  leads : ∀ e ∈ entities, ∀ r ∈ e.relations, ∃ first target,
    e.relation? r.name = some first ∧
    s.entity? first.target = some target ∧
    s.field e r.name = first.field e target
  isRelation : ∀ e ∈ entities, ∀ r ∈ e.relations,
    (s.field e r.name).isRelation = true
  known : ∀ e ∈ entities, ∀ r ∈ e.relations, s.field e r.name ≠ .unknown

theorem serves_entities (s : Schema) : s.Serves s.entities where
  entities_eq := rfl
  found_iff _ _ := entity?_eq_some_iff
  missing_iff _ := entity?_eq_none_iff
  indexed := Catalog.entity?_indexed s
  leads _ he _ hr := exists_field_of_mem he hr
  isRelation _ he _ hr := isRelation_field he hr
  known e he r hr hunknown := by
    have hrelation := isRelation_field he hr
    rw [hunknown] at hrelation
    cases hrelation

/-- A list of entities is accepted if and only if the names are distinct and
every relation leads to one of them. Of any other list the first fault is
reported. The loops over the index do the same. -/
theorem ofEntities_accepts (entities : List Entity) :
    ((∃ s, ofEntities entities = .ok s) ↔ (entities.map (·.name)).Nodup ∧
      ∀ e ∈ entities, ∀ r ∈ e.relations, r.target ∈ entities.map (·.name)) ∧
    (∀ fault, ofEntities entities = .error fault ↔ FirstFault entities fault) ∧
    (∀ s, ofEntities entities = .ok s → s.Serves entities) ∧
    Catalog.ofEntities entities = (ofEntities entities).map fun s =>
      .indexed s.entities := by
  refine ⟨?_, fun fault => ?_, fun s hs => ?_, Catalog.ofEntities_eq entities⟩
  · rw [exists_ofEntities_eq_ok_iff, fault?_eq_none_iff]
  · rw [ofEntities_eq_error_iff, fault?_eq_some_iff]
  · obtain rfl := entities_of_ofEntities hs
    exact serves_entities s

end Schema

namespace Theatre

/-- A play has an author, who is declared later, and may be after another
play. -/
def play : Entity :=
  { Entity.new "play" with
    relations := [.parent "author" "author",
      (Relation.parent "original" "play").nullable] }

def author : Entity :=
  { Entity.new "author" with
    attributes := [⟨"name", .string, none⟩]
    relations := [.children "plays" "play" "author"] }

/-- A season opens with a play. Neither its venue nor its patron is an entity of
the theatre. -/
def season : Entity :=
  { Entity.new "season" with
    relations := [.parent "opening" "play", .parent "venue" "venue",
      .parent "patron" "patron"] }

end Theatre

open Theatre in
/-- Relations may lead to later entities and to their own. Of two that lead
nowhere the first is reported, and a name that stands again comes before them,
though it is declared later. -/
theorem Schema.ofEntities_accepts_theatre :
    (∃ s, Schema.ofEntities [play, author] = .ok s ∧ s.Serves [play, author] ∧
      s.field play "original" = .belongsTo "original_id" play true) ∧
    Schema.ofEntities [play, season, author] =
      .error (.unknownTarget "season" "venue" "venue") ∧
    Catalog.ofEntities [season, play, author, play, author] =
      .error (.duplicateEntity "play") := by
  refine ⟨?_, ?_, ?_⟩
  · obtain ⟨s, hs⟩ :=
      (ofEntities_accepts [play, author]).1.2 ⟨by decide, by decide⟩
    have hserves := (ofEntities_accepts [play, author]).2.2.1 s hs
    obtain ⟨first, target, hfirst, htarget, hfield⟩ :=
      hserves.leads play (.head _) _ (.tail _ (.head _))
    cases hfirst
    have hplay : s.entity? "play" = some play :=
      (hserves.found_iff _ _).2 ⟨.head _, rfl⟩
    obtain rfl : play = target := Option.some.inj (hplay.symm.trans htarget)
    exact ⟨s, hs, hserves, hfield⟩
  · exact ((ofEntities_accepts [play, season, author]).2.1 _).2
      (.dangling [play] season [author] [.parent "opening" "play"]
        (.parent "venue" "venue")
        [.parent "patron" "patron"] (by decide) rfl rfl (by decide) (by decide)
        (by decide))
  · have hrepeated : Schema.ofEntities [season, play, author, play, author] =
        .error (.duplicateEntity "play") :=
      ((ofEntities_accepts _).2.1 _).2
        (.repeated [season, play, author] play [author] rfl (by decide)
          (by decide))
    rw [(ofEntities_accepts _).2.2.2, hrepeated]
    rfl

end RowGuard
