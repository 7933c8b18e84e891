import RowGuard.Proofs.Evaluation.Offline

/-!
# Following a path in two parts

A path `p ++ q` leads from a value to what `q` leads to from where `p` leads, as
long as nothing is loaded.  The two evaluations leave out repetitions at
different moments: after `p` a repeated value is left out before `q` is followed
from it.  So the values have to be such that this does not matter.

* `Value.Within` is a part of a value, at any depth.  `Value.PartsDistinct` and
  `Value.PartsSettled` are the conditions on the parts.
* `Path.isSealed` says that no wildcard of a path applies to the path that comes
  after it.
* `Script.Spreads` says what is needed of a continuation.
  `Script.Spreads.gathered` is the step: the continuation may be applied before
  or after gathering.
* `Script.onPath_continues` is the induction over the path, and
  `Evaluator.evaluate_append` the result.
-/

namespace RowGuard

/-! ## Parts of values -/

namespace Value

/-- A value is part of another: the value itself or part of an item or of a
field. -/
inductive Within : (part : Value) → Value → Prop where
  | self (v : Value) : Within v v
  | item {part item : Value} {items : List Value} (hitem : item ∈ items)
      (h : Within part item) : Within part (.list items)
  | field {part : Value} {r : Record} {field : String × Value}
      (hfield : field ∈ r.fields) (h : Within part field.2) :
      Within part (.record r)

variable {u v w : Value}

theorem Within.trans (huv : u.Within v) (hvw : v.Within w) : u.Within w := by
  induction hvw with
  | self => exact huv
  | item hitem _ ih => exact .item hitem ih
  | field hfield _ ih => exact .field hfield ih

theorem within_list_iff {items : List Value} :
    u.Within (.list items) ↔
      u = .list items ∨ ∃ item ∈ items, u.Within item := by
  constructor
  · rintro (_ | ⟨hitem, h⟩)
    · exact .inl rfl
    · exact .inr ⟨_, hitem, h⟩
  · rintro (rfl | ⟨item, hitem, h⟩)
    · exact .self _
    · exact .item hitem h

theorem within_record_iff {r : Record} :
    u.Within (.record r) ↔
      u = .record r ∨ ∃ field ∈ r.fields, u.Within field.2 := by
  constructor
  · rintro (_ | _ | ⟨hfield, h⟩)
    · exact .inl rfl
    · exact .inr ⟨_, hfield, h⟩
  · rintro (rfl | ⟨field, hfield, h⟩)
    · exact .self _
    · exact .field hfield h

/-- Other values are their only part. -/
theorem within_scalar_iff (hlist : v.isList = false)
    (hrecord : v.record? = none) :
    u.Within v ↔ u = v := by
  constructor
  · rintro (_ | ⟨_, _⟩ | ⟨_, _⟩)
    · rfl
    · cases hlist
    · cases hrecord
  · rintro rfl
    exact .self _

/-- The parts of a value have their items and fields among them. -/
theorem within_downward (v : Value) : Downward (·.Within v) where
  items h _ hitem := .trans (.item hitem (.self _)) h
  fields h _ hfield := .trans (.field hfield (.self _)) h

/-- No two different parts of the value are one item. -/
def PartsDistinct (v : Value) : Prop :=
  ∀ a b : Value, a.Within v → b.Within v → a.sameItem b = true → a = b

/-- A part of the value that is the same item as itself has only such parts. -/
def PartsSettled (v : Value) : Prop :=
  ∀ a : Value, a.Within v → a.sameItem a = true → ∀ b : Value, b.Within a →
    b.sameItem b = true

/-- Parts are distinct if different ones are not one item. -/
theorem PartsDistinct.of_pairwise {parts : List Value}
    (hparts : ∀ u, u.Within v → u ∈ parts)
    (hpairwise : parts.Pairwise fun a b => a.sameItem b = false ∧
      b.sameItem a = false) :
    v.PartsDistinct := by
  have hone : parts.Pairwise fun a b => a.sameItem b = true → a = b :=
    hpairwise.imp fun h hsame => absurd hsame (by simp [h.1])
  have hflip : parts.Pairwise (flip fun a b => a.sameItem b = true → a = b) :=
    hpairwise.imp fun h hsame => absurd hsame (by simp [h.2])
  intro a b ha hb
  exact hone.forall_of_forall_of_flip (fun _ _ _ => rfl) hflip (hparts a ha)
    (hparts b hb)

/-- Parts are settled if each is the same item as itself. -/
theorem PartsSettled.of_forall {parts : List Value}
    (hparts : ∀ u, u.Within v → u ∈ parts)
    (hself : ∀ u ∈ parts, u.sameItem u = true) : v.PartsSettled :=
  fun _ ha _ b hb => hself b (hparts b (hb.trans ha))

end Value

/-! ## Wildcards at the end -/

/-- Whether the step is a wildcard. -/
def Step.isWildcard : Step → Bool
  | .wildcard => true
  | _ => false

mutual

/-- No path among the alternatives of the step ends in a wildcard. -/
def Step.isSealed : Step → Bool
  | .alternatives paths => allSealed paths
  | .field .. | .wildcard | .self _ => true

/-- Neither the path nor any path among its alternatives ends in a wildcard. -/
def Path.isSealed : Path → Bool
  | [] => true
  | step :: path =>
    !(step.isWildcard && path.isEmpty) && step.isSealed && Path.isSealed path

/-- All of the paths are sealed. -/
def allSealed : List (List Step) → Bool
  | [] => true
  | path :: paths => Path.isSealed path && allSealed paths

end

/-! ## Continuations -/

namespace Script

variable {s : Schema} {g : EntityGraph} {known : Value → Prop}
  {G : Value → Value} {m m' : Value → Script s Value}

/-- A continuation from values of a set in which no two are one item: it goes
through lists item by item, stays within the set, and leads from a value that is
the same item as itself to such values. -/
structure Spreads (known : Value → Prop) (G : Value → Value) :
    Prop extends Downward known where
  distinct : ∀ v w, known v → known w → v.sameItem w = true → v = w
  null : G .null = .null
  list : ∀ items, G (.list items) =
    .list (addItems [] (items.flatMap fun item => (G item).toItems))
  stays : ∀ v, v.Drawn known → (G v).Drawn known
  settled : ∀ v, known v → v.sameItem v = true → ∀ w ∈ (G v).toItems,
    w.sameItem w = true

section

variable (hG : Spreads known G)

include hG

/-- What the continuation finds from a value is what it finds from the items. -/
theorem Spreads.addItems_toItems {v : Value} (hv : v.Drawn known)
    (found : List Value) :
    addItems found (G v).toItems =
      addItems found (v.toItems.flatMap fun item => (G item).toItems) := by
  induction v using Value.items_induction with
  | null =>
    rw [hG.null]
    rfl
  | list items =>
    rw [hG.list]
    refine addItems_absorb ?_
    have hfound : ∀ w ∈ items.flatMap fun item => (G item).toItems,
        known w := by
      intro w hw
      obtain ⟨item, hitem, hw⟩ := List.mem_flatMap.1 hw
      exact hG.stays item (.of_known hG.toDownward (hv item hitem)) w hw
    exact fun v hv w hw hsame =>
      hG.distinct v w (hfound v hv) (hfound w hw) hsame
  | single v hnull hlist =>
    rw [Value.toItems_of_single hnull hlist, List.flatMap_singleton]

/-- The continuation may be applied before or after gathering. -/
theorem Spreads.gathered {α : Type} {items : List α} {find : α → Value}
    (h : ∀ a ∈ items, (find a).Drawn known) :
    G (.list (addItems [] (items.flatMap fun a => (find a).toItems))) =
      .list (addItems [] (items.flatMap fun a => (G (find a)).toItems)) := by
  have heach : ∀ found,
      addItems found (items.flatMap fun a => (G (find a)).toItems) =
      addItems found
        ((items.flatMap fun a => (find a).toItems).flatMap
          fun v => (G v).toItems) := by
    induction items with
    | nil => exact fun found => rfl
    | cons a items ih =>
      rw [List.forall_mem_cons] at h
      intro found
      simp only [List.flatMap_cons, List.flatMap_append, addItems_append]
      rw [hG.addItems_toItems h.1, ih h.2]
  have hfound : ∀ v ∈ items.flatMap fun a => (find a).toItems, known v := by
    intro v hv
    obtain ⟨a, ha, hv⟩ := List.mem_flatMap.1 hv
    exact h a ha v hv
  rw [hG.list, heach]
  refine congrArg _ (addItems_flatMap ?_ ?_ ?_)
  · exact fun v hv w hw hsame =>
      hG.distinct v w (hfound v hv) (hfound w hw) hsame
  · intro v _ hnull w hw
    cases v with
    | null =>
      rw [hG.null] at hw
      cases hw
    | _ => cases hnull
  · exact fun v hv hself => hG.settled v (hfound v hv) hself

end

/-- The first script leads to what the continuation makes of what the second
leads to. -/
def Continues (known : Value → Prop) (G : Value → Value)
    (m m' : Value → Script s Value) : Prop :=
  ∀ v, v.Drawn known → (m v).offline = G (m' v).offline

section

variable (hG : Spreads known G)

include hG

theorem continues_null :
    Continues known G (fun _ => pure .null) fun _ =>
      (pure .null : Script s Value) :=
  fun _ _ => hG.null.symm

theorem continues_fanOut (h : Continues known G m m')
    (hstays : Stays known m') :
    Continues known G (fanOut m) (fanOut m') := by
  intro v hv
  induction v using Value.items_induction with
  | null => rw [offline_fanOut_null, offline_fanOut_null, hG.null]
  | list items ih =>
    have hitem : ∀ item ∈ items, item.Drawn known := fun item hitem =>
      .of_known hG.toDownward (hv item hitem)
    rw [offline_fanOut_list, offline_fanOut_list, hG.gathered fun item hmem =>
      stays_fanOut hG.toDownward hstays item (hitem item hmem)]
    refine congrArg (fun found => Value.list (addItems [] found)) ?_
    exact List.flatMap_congr fun item hmem =>
      congrArg _ (ih item hmem (hitem item hmem))
  | single v hnull hlist =>
    rw [fanOut_of_single hnull hlist, fanOut_of_single hnull hlist]
    exact h v hv

theorem continues_step (h : Continues known G m m') (name : String) :
    Continues known G (step s name m) (step s name m') := by
  intro v hv
  cases v with
  | record r =>
    rw [step, step, offline_bind, offline_bind]
    exact h _
      (fieldValue_drawn hG.toDownward (Value.drawn_record_iff.1 hv) name)
  | _ => exact hG.null.symm

theorem continues_steps (h : Continues known G m m') (hstays : Stays known m') :
    ∀ names, Continues known G (steps s m names) (steps s m' names)
  | [] => h
  | name :: names =>
    continues_fanOut hG
      (continues_step hG (continues_steps h hstays names) name)
      (stays_step hG.toDownward (stays_steps hG.toDownward hstays names) name)

theorem continues_climb (h : Continues known G m m') (hstays : Stays known m')
    (name : String) :
    Continues known G (climb s g name m) (climb s g name m') := by
  intro v hv
  rw [climb, climb]
  cases v.entity?.bind fun entity => g.shortestPath entity name with
  | none => exact hG.null.symm
  | some names => exact continues_steps hG h hstays names v hv

theorem continues_ways {ways ways' : List (Value → Script s Value)}
    (h : List.Forall₂ (Continues known G) ways ways')
    (hstays : ∀ way ∈ ways', Stays known way) :
    Continues known G (fun v => return .list (← gatherWays v [] ways))
      fun v => return .list (← gatherWays v [] ways') := by
  intro v hv
  simp only [offline_bind, offline_pure, offline_gatherWays]
  rw [hG.gathered fun way hway => hstays way hway v hv]
  refine congrArg (fun found => Value.list (addItems [] found)) ?_
  induction h with
  | nil => rfl
  | cons hway _ ih =>
    rw [List.forall_mem_cons] at hstays
    rw [List.flatMap_cons, List.flatMap_cons, hway v hv, ih hstays.2]

end

mutual

/-- A step leads on as the rest does.  After a wildcard this is about the other
way to go on, which only a further step has. -/
theorem onStep_continues (hG : Spreads known G) :
    ∀ (step : Step) {rest rest' : Onward s},
    step.isSealed = true → StaysOnward known rest' →
      Continues known G rest.follow rest'.follow →
    (step.isWildcard = true → Continues known G rest.ascend rest'.ascend) →
      Continues known G (onStep s g step rest).follow
        (onStep s g step rest').follow ∧
        Continues known G (onStep s g step rest).ascend
          (onStep s g step rest').ascend
  | .field name _, _, _, _, hstays, hfollow, _ =>
    ⟨continues_fanOut hG (continues_step hG hfollow name)
        (stays_step hG.toDownward hstays.follow name),
      continues_climb hG hfollow hstays.follow name⟩
  | .wildcard, _, _, _, hstays, _, hascend =>
    ⟨continues_fanOut hG (hascend rfl) hstays.ascend, continues_null hG⟩
  | .self entity, _, _, _, hstays, hfollow, _ => by
    refine ⟨continues_fanOut hG (fun v hv => ?_) fun v hv => ?_,
      continues_null hG⟩
    · split
      · exact hfollow v hv
      · exact hG.null.symm
    · split
      · exact hstays.follow v hv
      · exact Value.drawn_null
  | .alternatives paths, _, _, hsealed, hstays, hfollow, _ => by
    have hways := onPaths_stays (g := g) hG.toDownward paths hstays
    refine ⟨continues_fanOut hG (continues_ways hG
      (onPaths_continues hG paths hsealed hstays hfollow) hways) fun v hv => ?_,
      continues_null hG⟩
    rw [offline_bind, offline_pure, offline_gatherWays]
    exact Value.drawn_addItems fun way hway => hways way hway v hv

theorem onPath_continues (hG : Spreads known G) :
    ∀ (path : List Step) {rest rest' : Onward s},
    Path.isSealed path = true → StaysOnward known rest' →
    Continues known G rest.follow rest'.follow →
      Continues known G (onPath s g path rest).follow
        (onPath s g path rest').follow ∧
        (path ≠ [] →
          Continues known G (onPath s g path rest).ascend
            (onPath s g path rest').ascend)
  | [], _, _, _, _, hfollow => ⟨hfollow, fun hne => absurd rfl hne⟩
  | step :: path, _, _, hsealed, hstays, hfollow => by
    simp only [Path.isSealed, Bool.and_eq_true, Bool.not_eq_true',
      Bool.and_eq_false_iff] at hsealed
    obtain ⟨⟨hwildcard, hstep⟩, hpath⟩ := hsealed
    obtain ⟨hfollow', hascend'⟩ := onPath_continues hG path hpath hstays hfollow
    have hcontinues := onStep_continues hG step hstep
      (onPath_stays hG.toDownward path hstays)
      hfollow' fun hstep => hascend' ?_
    · exact ⟨hcontinues.1, fun _ => hcontinues.2⟩
    · rintro rfl
      simp [hstep] at hwildcard

theorem onPaths_continues (hG : Spreads known G) :
    ∀ (paths : List (List Step)) {rest rest' : Onward s},
      allSealed paths = true →
    StaysOnward known rest' → Continues known G rest.follow rest'.follow →
      List.Forall₂ (Continues known G) (onPaths s g paths rest)
        (onPaths s g paths rest')
  | [], _, _, _, _, _ => .nil
  | path :: paths, _, _, hsealed, hstays, hfollow => by
    rw [allSealed, Bool.and_eq_true] at hsealed
    exact .cons (onPath_continues hG path hsealed.1 hstays hfollow).1
      (onPaths_continues hG paths hsealed.2 hstays hfollow)

end

/-! ## Two parts of a path -/

theorem onPath_append (p q : List Step) (rest : Onward s) :
    onPath s g (p ++ q) rest = onPath s g p (onPath s g q rest) := by
  induction p with
  | nil => rfl
  | cons step p ih => rw [List.cons_append, onPath, onPath, ih]

theorem done_stays : StaysOnward (s := s) known ⟨pure, pure⟩ :=
  ⟨fun _ h => h, fun _ h => h⟩

theorem exists_fanOut (step : Step) (rest : Onward s) :
    ∃ m, (onStep s g step rest).follow = fanOut m := by
  cases step <;> exact ⟨_, rfl⟩

end Script

/-- A path spreads over the parts of a value. -/
theorem Path.script_spreads (s : Schema) (g : EntityGraph) {q : Path}
    (hq : q ≠ []) {v : Value} (hdistinct : v.PartsDistinct)
    (hsettled : v.PartsSettled) :
    Script.Spreads (·.Within v) fun u => (q.script s g u).offline := by
  obtain ⟨step, path, rfl⟩ := List.exists_cons_of_ne_nil hq
  obtain ⟨m, hm⟩ :=
    Script.exists_fanOut (g := g) step (Script.onPath s g path ⟨pure, pure⟩)
  have hscript : Path.script s g (step :: path) = Script.fanOut m := hm
  have hstays : ∀ {known}, Downward known →
      Script.Stays known (Path.script s g (step :: path)) :=
    fun hknown =>
      (Script.onPath_stays hknown (step :: path) Script.done_stays).follow
  refine ⟨v.within_downward, hdistinct, ?_, ?_, hstays v.within_downward, ?_⟩
  · rw [hscript, Script.offline_fanOut_null]
  · intro items
    rw [hscript, Script.offline_fanOut_list]
  · intro a ha hself b hb
    have hwithin : b.Within a :=
      hstays a.within_downward a (.of_known a.within_downward (.self a)) b hb
    exact hsettled a ha hself b hwithin

namespace Evaluator

variable {σ : Type} {ev : Evaluator σ}

/-- Without storage, a path in two parts leads to where the second part leads
from where the first part leads. -/
theorem evaluate_append (hloader : ev.loader = none) {session : Session σ}
    (hcache : session.cache = []) {p : Path} (hsealed : p.isSealed = true)
    (q : Path) {v : Value} (hdistinct : v.PartsDistinct)
    (hsettled : v.PartsSettled) :
    ∃ u w, Returns (ev.evaluate p v) session u session ∧
      Returns (ev.evaluate q u) session w session ∧
      Returns (ev.evaluate (p ++ q) v) session w session := by
  refine ⟨_, _, evaluate_offline hloader hcache p v,
    evaluate_offline hloader hcache q _, ?_⟩
  by_cases hq : q = []
  · subst hq
    rw [List.append_nil]
    exact evaluate_offline hloader hcache p v
  · have hcontinues : (Path.script ev.schema ev.graph (p ++ q) v).offline =
        (q.script ev.schema ev.graph
          (p.script ev.schema ev.graph v).offline).offline := by
      rw [Path.script, Script.onPath_append]
      exact (Script.onPath_continues
        (Path.script_spreads ev.schema ev.graph hq hdistinct hsettled)
        p hsealed Script.done_stays
        fun _ _ => rfl).1 v (.of_known v.within_downward (.self v))
    rw [← hcontinues]
    exact evaluate_offline hloader hcache (p ++ q) v

end Evaluator

/-! ## An example -/

namespace Bookcase

/-- An evaluator without entities, so that records are plain maps. -/
def evaluator : Evaluator Unit where
  schema := { entities := [], names_nodup := .nil, targets_declared := by simp }

/-- A list of two boxes with the same book. -/
def boxes (book : Record) : Value :=
  .list [.record ⟨none, [("book", .record book)]⟩,
    .record ⟨none, [("book", .record book)]⟩]

/-- The boxes, one of them, and the parts of the book. -/
def partsOf (book : Record) (parts : List Value) : List Value :=
  boxes book :: .record ⟨none, [("book", .record book)]⟩ :: parts

theorem mem_partsOf {book : Record} {parts : List Value}
    (hbook : ∀ u, u.Within (.record book) → u ∈ parts) (u : Value)
    (hu : u.Within (boxes book)) :
    u ∈ partsOf book parts := by
  have hbox : u = boxes book ∨ u = .record ⟨none, [("book", .record book)]⟩ ∨
      u.Within (.record book) := by
    simpa [boxes, Value.within_list_iff,
      Value.within_record_iff (r := ⟨none, _⟩)] using hu
  rcases hbox with rfl | rfl | hu
  · exact List.mem_cons_self ..
  · exact List.mem_cons_of_mem _ (List.mem_cons_self ..)
  · exact List.mem_cons_of_mem _ (List.mem_cons_of_mem _ (hbook u hu))

/-- A book with a title. -/
def titled : Record := ⟨none, [("title", .string "x")]⟩

theorem titled_parts (u : Value) (hu : u.Within (.record titled)) :
    u ∈ [.record titled, .string "x"] := by
  simpa [Value.within_record_iff, titled,
    Value.within_scalar_iff (v := .string _) rfl rfl] using hu

theorem titled_distinct : (boxes titled).PartsDistinct :=
  .of_pairwise (mem_partsOf titled_parts) (by decide +kernel)

theorem titled_settled : (boxes titled).PartsSettled :=
  .of_forall (mem_partsOf titled_parts) (by decide +kernel)

theorem evaluate_append_titled : Path.isSealed [.plain "book"] = true ∧
    (boxes titled).PartsDistinct ∧ (boxes titled).PartsSettled ∧
    ∃ u w, Returns (evaluator.evaluate [.plain "book"] (boxes titled))
      (.start ()) u (.start ()) ∧
      Returns (evaluator.evaluate [.plain "title"] u) (.start ()) w
        (.start ()) ∧
      Returns (evaluator.evaluate [.plain "book", .plain "title"]
        (boxes titled)) (.start ()) w (.start ()) :=
  ⟨rfl, titled_distinct, titled_settled,
    Evaluator.evaluate_append rfl rfl rfl [.plain "title"] titled_distinct
      titled_settled⟩

open Script in
/-- A record without an entity is read as a plain map. -/
theorem offline_fanOut_step {r : Record} (h : r.entity = none) (name : String)
    (next : Value → Script evaluator.schema Value) :
    (Script.fanOut (step evaluator.schema name next) (.record r)).offline =
      (next (r.getOrNull name)).offline := by
  have hnone : evaluator.schema.entityOf? r = none := by
    rw [Schema.entityOf?, h]
    rfl
  rw [fanOut_of_single rfl rfl, step, offline_bind, fieldValue]
  split
  · rfl
  · next hsome =>
    rw [hnone] at hsome
    cases hsome

theorem returns_offline (path : Path) (v : Value) :
    Returns (evaluator.evaluate path v) (.start ())
      (path.script evaluator.schema evaluator.graph v).offline (.start ()) :=
  Evaluator.evaluate_offline rfl rfl path v

/-- A book that is the same item as itself is found once in two boxes.  What it
holds is found twice by the whole path if it is not the same item as itself. -/
theorem evaluate_boxes (book : Record) (name : String) {x : Value}
    (hbook : book.entity = none) (hheld : book.getOrNull name = x)
    (hnull : x.isNull = false) (hlist : x.isList = false)
    (hsame : (Value.record book).sameItem (.record book) = true)
    (hx : x.sameItem x = false) :
    Returns (evaluator.evaluate [.plain "book"] (boxes book)) (.start ())
        (.list [.record book]) (.start ()) ∧
      Returns (evaluator.evaluate [.plain name] (.list [.record book]))
        (.start ()) (.list [x]) (.start ()) ∧
      Returns (evaluator.evaluate [.plain "book", .plain name] (boxes book))
        (.start ()) (.list [x, x]) (.start ()) := by
  have hbox : Record.getOrNull ⟨none, [("book", .record book)]⟩ "book" =
      .record book := rfl
  have hbookItems : (Value.record book).toItems = [.record book] := rfl
  have hbooks : addItems [] [.record book, .record book] = [.record book] := by
    simp [addItems, addItem, hsame, Value.isNull]
  have hone : addItems [] [x] = [x] := by simp [addItems, addItem, hnull]
  have htwo : addItems [] [x, x] = [x, x] := by
    simp [addItems, addItem, hnull, hx]
  have hfirst := returns_offline [.plain "book"] (boxes book)
  have hsecond := returns_offline [.plain name] (.list [.record book])
  have hwhole := returns_offline [.plain "book", .plain name] (boxes book)
  simp only [Path.script, Script.onPath, Script.onStep, Step.plain, boxes,
    Script.offline_fanOut_list, List.flatMap_cons, List.flatMap_nil,
    offline_fanOut_step, hbox, hbook, hheld, Script.offline_pure, hbookItems,
    Value.toItems_of_single hnull hlist, List.cons_append, List.nil_append,
    hbooks, hone, htwo] at hfirst hsecond hwhole
  exact ⟨hfirst, hsecond, hwhole⟩

/-- A double that is not equal to itself. -/
def nan : Value := .float64 (0.0 / 0.0)

/-- A book with an identity and a price that is no number. -/
def unpriced : Record := ⟨none, [("id", .int64 1), ("price", nan)]⟩

theorem unpriced_parts (u : Value) (hu : u.Within (.record unpriced)) :
    u ∈ [.record unpriced, .int64 1, nan] := by
  simpa [Value.within_record_iff, unpriced, nan,
    Value.within_scalar_iff (v := .int64 _) rfl rfl,
    Value.within_scalar_iff (v := .float64 _) rfl rfl] using hu

/-- What is not the same item as itself: a record whose identity is a list. -/
def listed : Record := ⟨none, [("id", .list [.int64 1])]⟩

/-- A book with such a record, but without an identity of its own. -/
def tagged : Record := ⟨none, [("tag", .record listed)]⟩

theorem tagged_parts (u : Value) (hu : u.Within (.record tagged)) :
    u ∈ [.record tagged, .record listed, .list [.int64 1], .int64 1] := by
  simpa [Value.within_record_iff, Value.within_list_iff, tagged, listed,
    Value.within_scalar_iff (v := .int64 _) rfl rfl] using hu

end Bookcase

open Bookcase in
/-- Distinct parts alone do not suffice: the one book in two boxes is followed
once after the first part of the path, but twice by the whole path. -/
theorem Evaluator.evaluate_append_ne :
    Path.isSealed [.plain "book"] = true ∧
    ((boxes unpriced).PartsDistinct ∧
      Returns (evaluator.evaluate [.plain "book"] (boxes unpriced)) (.start ())
        (.list [.record unpriced]) (.start ()) ∧
      Returns (evaluator.evaluate [.plain "price"] (.list [.record unpriced]))
        (.start ()) (.list [nan]) (.start ()) ∧
      ¬ Returns (evaluator.evaluate [.plain "book", .plain "price"]
        (boxes unpriced)) (.start ()) (.list [nan]) (.start ())) ∧
    ((boxes tagged).PartsDistinct ∧
      Returns (evaluator.evaluate [.plain "book"] (boxes tagged)) (.start ())
        (.list [.record tagged]) (.start ()) ∧
      Returns (evaluator.evaluate [.plain "tag"] (.list [.record tagged]))
        (.start ()) (.list [.record listed]) (.start ()) ∧
      ¬ Returns (evaluator.evaluate [.plain "book", .plain "tag"]
        (boxes tagged)) (.start ()) (.list [.record listed]) (.start ())) := by
  obtain ⟨hbook, hprice, htwice⟩ := evaluate_boxes unpriced "price"
    rfl rfl rfl rfl (by decide +kernel) (by decide +kernel)
  obtain ⟨hbook', htag, htwice'⟩ := evaluate_boxes tagged "tag" rfl rfl rfl rfl
    (by decide +kernel) (by decide +kernel)
  refine ⟨rfl, ⟨.of_pairwise (mem_partsOf unpriced_parts) (by decide +kernel),
    hbook, hprice, ?_⟩,
    .of_pairwise (mem_partsOf tagged_parts) (by decide +kernel),
    hbook', htag, ?_⟩
  · exact fun honce => by simpa using (htwice.unique honce).1
  · exact fun honce => by simpa using (htwice'.unique honce).1

end RowGuard
