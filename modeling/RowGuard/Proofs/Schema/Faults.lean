import RowGuard.Proofs.Schema.Lookup

/-!
# Faults in a list of entities

`Schema.FirstFault` says which fault of a list of entities is reported: the
first name that stands again, or, if the names are distinct, the first relation
that leads to none of the entities. `Schema.ofEntities` reports exactly this
fault and accepts every list without one.
-/

namespace RowGuard

variable {seen names : List String} {name : String} {entities : List Entity}

/-! ## The first repetition -/

theorem firstRepeat?_nil_eq_none_iff : firstRepeat? [] names = none ↔
    names.Nodup := by
  rw [firstRepeat?_eq_none_iff]
  exact and_iff_left fun _ _ => List.not_mem_nil

theorem firstRepeat?_cons_of_notMem {first : String} (h : first ∉ seen) :
    firstRepeat? seen (first :: names) =
      firstRepeat? (first :: seen) names := by
  rw [firstRepeat?, if_neg h]

/-- The name that is reported was seen, or it is one of the names in front of
it. -/
theorem exists_of_firstRepeat? (h : firstRepeat? seen names = some name) :
    ∃ before after, names = before ++ name :: after ∧
      firstRepeat? seen before = none ∧ (name ∈ seen ∨ name ∈ before) := by
  fun_induction firstRepeat? seen names with
  | case1 => cases h
  | case2 seen first names hseen =>
    cases h
    exact ⟨[], names, rfl, rfl, .inl hseen⟩
  | case3 seen first names hseen ih =>
    obtain ⟨before, after, rfl, hnone, hagain⟩ := ih h
    refine ⟨first :: before, after, rfl, ?_, ?_⟩
    · rw [firstRepeat?_cons_of_notMem hseen, hnone]
    · rw [List.mem_cons] at hagain ⊢
      tauto

/-- What stands behind a repetition does not matter. -/
theorem firstRepeat?_append {before after : List String}
    (hnone : firstRepeat? seen before = none)
    (hagain : name ∈ seen ∨ name ∈ before) :
    firstRepeat? seen (before ++ name :: after) = some name := by
  -- Each of the names in front is new and joins those that were seen.
  induction before generalizing seen with
  | nil =>
    rw [List.nil_append, firstRepeat?,
      if_pos (hagain.resolve_right List.not_mem_nil)]
  | cons first before ih =>
    have hfirst : first ∉ seen :=
      (firstRepeat?_eq_none_iff.1 hnone).2 first (.head _)
    rw [firstRepeat?_cons_of_notMem hfirst] at hnone
    rw [List.cons_append, firstRepeat?_cons_of_notMem hfirst]
    refine ih hnone ?_
    rw [List.mem_cons] at hagain ⊢
    tauto

/-- The entity whose name is reported has the name of an earlier one, and those
in front of it have distinct names. -/
theorem firstRepeat?_names_eq_some_iff :
    firstRepeat? [] (entities.map (·.name)) = some name ↔
      ∃ before e after, entities = before ++ e :: after ∧
        (before.map (·.name)).Nodup ∧
        e.name ∈ before.map (·.name) ∧ e.name = name := by
  constructor
  · intro h
    obtain ⟨before, after, hsplit, hnone, hagain⟩ := exists_of_firstRepeat? h
    obtain ⟨front, rest, rfl, rfl, hrest⟩ := List.map_eq_append_iff.1 hsplit
    obtain ⟨e, back, rfl, rfl, -⟩ := List.map_eq_cons_iff.1 hrest
    exact ⟨front, e, back, rfl, firstRepeat?_nil_eq_none_iff.1 hnone,
      hagain.resolve_left List.not_mem_nil, rfl⟩
  · rintro ⟨before, e, after, rfl, hnodup, hagain, rfl⟩
    rw [List.map_append, List.map_cons]
    exact firstRepeat?_append (firstRepeat?_nil_eq_none_iff.2 hnodup)
      (.inr hagain)

/-! ## The first relation that leads nowhere -/

theorem find?_dangling_eq_none_iff {relations : List Relation} :
    (relations.find? fun r => !names.contains r.target) = none ↔
      ∀ r ∈ relations, r.target ∈ names := by
  simp [List.find?_eq_none]

/-- The targets of all relations in front of the one that is reported are
declared. -/
theorem firstDangling?_eq_some_iff {e : Entity} {r : Relation} :
    firstDangling? names entities = some (e, r) ↔
      ∃ before after earlier later, entities = before ++ e :: after ∧
        e.relations = earlier ++ r :: later ∧
        (∀ b ∈ before, ∀ q ∈ b.relations, q.target ∈ names) ∧
        (∀ q ∈ earlier, q.target ∈ names) ∧ r.target ∉ names := by
  simp only [firstDangling?, List.findSome?_eq_some_iff, Option.map_eq_some_iff,
    Option.map_eq_none_iff, find?_dangling_eq_none_iff,
    List.find?_eq_some_iff_append]
  constructor
  · rintro ⟨before, e, after, hsplit,
      ⟨r, ⟨hr, earlier, later, hfields, hearlier⟩, hpair⟩, hbefore⟩
    cases hpair
    exact ⟨before, after, earlier, later, hsplit, hfields, hbefore,
      by simpa using hearlier, by simpa using hr⟩
  · rintro ⟨before, after, earlier, later, hsplit, hfields, hbefore,
      hearlier, hr⟩
    exact ⟨before, e, after, hsplit,
      ⟨r, ⟨by simpa using hr, earlier, later, hfields, by simpa using hearlier⟩,
        rfl⟩, hbefore⟩

namespace Schema

/-! ## The fault that is reported -/

/-- The fault of a list of entities that is reported. A name that stands again,
at the first place where it does, comes before every relation that leads
nowhere. -/
inductive FirstFault (entities : List Entity) : SchemaError → Prop
  | repeated (before : List Entity) (e : Entity) (after : List Entity)
      (split : entities = before ++ e :: after)
      (distinct : (before.map (·.name)).Nodup)
      (again : e.name ∈ before.map (·.name)) :
      FirstFault entities (.duplicateEntity e.name)
  | dangling (before : List Entity) (e : Entity) (after : List Entity)
      (earlier : List Relation) (r : Relation) (later : List Relation)
      (distinct : (entities.map (·.name)).Nodup)
      (split : entities = before ++ e :: after)
      (fields : e.relations = earlier ++ r :: later)
      (declaredBefore : ∀ b ∈ before, ∀ q ∈ b.relations,
        q.target ∈ entities.map (·.name))
      (declaredEarlier : ∀ q ∈ earlier, q.target ∈ entities.map (·.name))
      (undeclared : r.target ∉ entities.map (·.name)) :
      FirstFault entities (.unknownTarget e.name r.name r.target)

/-- The fault of a list of entities, if it has one. -/
def fault? (entities : List Entity) : Option SchemaError :=
  ((firstRepeat? [] (entities.map (·.name))).map .duplicateEntity).or
    ((firstDangling? (entities.map (·.name)) entities).map fun (e, r) =>
      .unknownTarget e.name r.name r.target)

theorem fault?_eq_none_iff :
    fault? entities = none ↔ (entities.map (·.name)).Nodup ∧
      ∀ e ∈ entities, ∀ r ∈ e.relations, r.target ∈ entities.map (·.name) := by
  rw [fault?, Option.or_eq_none_iff, Option.map_eq_none_iff,
    Option.map_eq_none_iff, firstRepeat?_nil_eq_none_iff,
    firstDangling?_eq_none_iff]

theorem fault?_eq_some_iff {fault : SchemaError} :
    fault? entities = some fault ↔ FirstFault entities fault := by
  rw [fault?, Option.or_eq_some_iff, Option.map_eq_none_iff,
    Option.map_eq_some_iff, Option.map_eq_some_iff]
  constructor
  · rintro (⟨name, hrepeat, rfl⟩ | ⟨hdistinct, ⟨e, r⟩, hdangling, rfl⟩)
    · obtain ⟨before, e, after, hsplit, hnodup, hagain, rfl⟩ :=
        firstRepeat?_names_eq_some_iff.1 hrepeat
      exact .repeated before e after hsplit hnodup hagain
    · obtain ⟨before, after, earlier, later, hsplit, hfields, hbefore,
        hearlier, hr⟩ :=
        firstDangling?_eq_some_iff.1 hdangling
      exact .dangling before e after earlier r later
        (firstRepeat?_nil_eq_none_iff.1 hdistinct)
        hsplit hfields hbefore hearlier hr
  · intro h
    cases h with
    | repeated before e after hsplit hnodup hagain =>
      exact .inl ⟨e.name, firstRepeat?_names_eq_some_iff.2
        ⟨before, e, after, hsplit, hnodup, hagain, rfl⟩, rfl⟩
    | dangling before e after earlier r later hdistinct hsplit hfields hbefore
      hearlier hr =>
      exact .inr ⟨firstRepeat?_nil_eq_none_iff.2 hdistinct, (e, r),
        firstDangling?_eq_some_iff.2
        ⟨before, after, earlier, later, hsplit, hfields, hbefore, hearlier, hr⟩,
        rfl⟩

/-- The fault of a list of entities is reported. A list without one is kept as
it is. -/
theorem ofEntities_cases (entities : List Entity) :
    (∃ fault, fault? entities = some fault ∧
      ofEntities entities = .error fault) ∨
      fault? entities = none ∧ ∃ s, ofEntities entities = .ok s ∧
        s.entities = entities := by
  unfold ofEntities
  split
  · next name hrepeat =>
    refine .inl ⟨.duplicateEntity name, ?_, rfl⟩
    rw [fault?, hrepeat]
    rfl
  · next hdistinct =>
    split
    · next e r hdangling =>
      refine .inl ⟨.unknownTarget e.name r.name r.target, ?_, rfl⟩
      rw [fault?, hdistinct, hdangling]
      rfl
    · next hclosed =>
      refine .inr ⟨?_, _, rfl, rfl⟩
      rw [fault?, hdistinct, hclosed]
      rfl

theorem ofEntities_eq_error_iff {fault : SchemaError} :
    ofEntities entities = .error fault ↔ fault? entities = some fault := by
  rcases ofEntities_cases entities with
    ⟨reported, hfault, herror⟩ | ⟨hnone, s, hok, -⟩
  · rw [herror, hfault, Except.error.injEq, Option.some.injEq]
  · simp [hok, hnone]

theorem exists_ofEntities_eq_ok_iff :
    (∃ s, ofEntities entities = .ok s) ↔ fault? entities = none := by
  rcases ofEntities_cases entities with
    ⟨fault, hfault, herror⟩ | ⟨hnone, s, hok, -⟩
  · simp [herror, hfault]
  · simp [hok, hnone]

theorem entities_of_ofEntities {s : Schema} (h : ofEntities entities = .ok s) :
    s.entities = entities := by
  rcases ofEntities_cases entities with
    ⟨fault, -, herror⟩ | ⟨-, kept, hok, hentities⟩
  · rw [herror] at h
    cases h
  · rw [hok] at h
    obtain rfl := Except.ok.inj h
    exact hentities

end Schema

end RowGuard
