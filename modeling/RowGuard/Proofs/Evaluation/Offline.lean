import Mathlib.Data.List.Induction
import RowGuard.Proofs.Evaluation.Script

/-!
# Evaluation without storage

Without a loader and with nothing remembered, a request is answered by the value
that stands for what is missing.  `Script.offline` is what a script comes to
then, and `Evaluator.evaluate_offline` says that an evaluation comes to it.

* `addItems_absorb` and `addItems_flatMap` are about lists without repetitions:
  when it does not matter that items have been left out before.
* `Script.offline_fanOut_list` and `Script.offline_gatherWays` say what is
  gathered.
* `Value.Drawn` says that a value consists of items from a set of values.
  `Script.onPath_stays` says that evaluation stays within a set that has the
  items and fields of its members.
-/

namespace RowGuard

/-! ## Lists of found items -/

/-- Adds items to those found. -/
def addItems (found items : List Value) : List Value :=
  items.foldl addItem found

section

variable {found items : List Value} {v w : Value}

theorem gather_eq (found : List Value) (v : Value) :
    gather found v = addItems found v.toItems :=
  rfl

theorem addItems_append (found items more : List Value) :
    addItems found (items ++ more) = addItems (addItems found items) more :=
  List.foldl_append

theorem addItem_of_found (h : v ∈ found) (hsame : v.sameItem w = true) :
    addItem found w = found := by
  have hany : found.any (·.sameItem w) = true :=
    List.any_eq_true.2 ⟨v, h, hsame⟩
  rw [addItem, hany, Bool.or_true, if_pos rfl]

theorem addItem_of_isNull (h : v.isNull = true) : addItem found v = found := by
  rw [addItem, h, Bool.true_or, if_pos rfl]

/-- An item is added at the end, or it is null or has been found. -/
theorem addItem_cases (found : List Value) (v : Value) :
    addItem found v = found ++ [v] ∨
      addItem found v = found ∧
        (v.isNull = true ∨ ∃ w ∈ found, w.sameItem v = true) := by
  rw [addItem]
  split
  · next h =>
    rw [Bool.or_eq_true, List.any_eq_true] at h
    exact .inr ⟨rfl, h⟩
  · exact .inl rfl

theorem subset_addItem (found : List Value) (v : Value) :
    found ⊆ addItem found v := by
  rcases addItem_cases found v with heq | ⟨heq, -⟩ <;> rw [heq]
  · exact List.subset_append_left _ _
  · exact List.Subset.refl _

theorem subset_addItems (found items : List Value) :
    found ⊆ addItems found items := by
  induction items generalizing found with
  | nil => exact List.Subset.refl _
  | cons v items ih => exact List.Subset.trans (subset_addItem found v) (ih _)

theorem mem_of_mem_addItems (h : v ∈ addItems found items) :
    v ∈ found ∨ v ∈ items := by
  induction items generalizing found with
  | nil => exact .inl h
  | cons w items ih =>
    rcases ih h with hfound | hitems
    · rcases addItem_cases found w with heq | ⟨heq, -⟩ <;> rw [heq] at hfound
      · rcases List.mem_append.1 hfound with hfound | hw
        · exact .inl hfound
        · obtain rfl := List.mem_singleton.1 hw
          exact .inr (List.mem_cons_self ..)
      · exact .inl hfound
    · exact .inr (List.mem_cons_of_mem _ hitems)

/-- An item that is the same as itself has been found after it was added. -/
theorem exists_sameItem_of_mem (h : v ∈ items) (hnull : v.isNull = false)
    (hself : v.sameItem v = true) :
    ∃ w ∈ addItems found items, w.sameItem v = true := by
  induction items generalizing found with
  | nil => cases h
  | cons x items ih =>
    rcases List.mem_cons.1 h with rfl | h
    · rcases addItem_cases found v with heq | ⟨heq, hnull' | ⟨w, hw, hsame⟩⟩
      · refine ⟨v, subset_addItems _ items ?_, hself⟩
        rw [heq]
        exact List.mem_append_right _ (List.mem_singleton_self v)
      · rw [hnull] at hnull'
        cases hnull'
      · refine ⟨w, subset_addItems _ items ?_, hsame⟩
        rwa [heq]
    · exact ih h

/-- Items that are null or have been found change nothing. -/
theorem addItems_of_found
    (h : ∀ v ∈ items, v.isNull = true ∨ ∃ w ∈ found, w.sameItem v = true) :
    addItems found items = found := by
  induction items with
  | nil => rfl
  | cons v items ih =>
    rw [List.forall_mem_cons] at h
    have hfirst : addItem found v = found := by
      rcases h.1 with hnull | ⟨w, hw, hsame⟩
      · exact addItem_of_isNull hnull
      · exact addItem_of_found hw hsame
    show addItems (addItem found v) items = found
    rw [hfirst]
    exact ih h.2

/-- No two items are one item unless they are equal. -/
def ItemsDistinct (items : List Value) : Prop :=
  ∀ v ∈ items, ∀ w ∈ items, v.sameItem w = true → v = w

/-- It does not matter for what the items lead to whether repetitions have been
left out before, if what is left out leads to nothing new: to items that are the
same as themselves, or to nothing if it is null. -/
theorem addItems_flatMap {next : Value → List Value}
    (hdistinct : ItemsDistinct items)
    (hnull : ∀ v ∈ items, v.isNull = true → ∀ w ∈ next v, w.isNull = true)
    (hself : ∀ v ∈ items, v.sameItem v = true →
      ∀ w ∈ next v, w.sameItem w = true) :
    addItems found ((addItems [] items).flatMap next) =
      addItems found (items.flatMap next) := by
  induction items using List.reverseRecOn with
  | nil => rfl
  | append_singleton items v ih =>
    have hmem : ∀ w ∈ items, w ∈ items ++ [v] :=
      fun w hw => List.mem_append_left _ hw
    have hv : v ∈ items ++ [v] :=
      List.mem_append_right _ (List.mem_singleton_self v)
    have ih := ih (fun w hw x hx => hdistinct w (hmem w hw) x (hmem x hx))
      (fun w hw => hnull w (hmem w hw)) (fun w hw => hself w (hmem w hw))
    have hsplit : addItems [] (items ++ [v]) = addItem (addItems [] items) v :=
      addItems_append [] items [v]
    rw [hsplit, List.flatMap_append, addItems_append, ← ih,
      List.flatMap_singleton]
    rcases addItem_cases (addItems [] items) v with heq | ⟨heq, hdropped⟩
    · rw [heq, List.flatMap_append, addItems_append, List.flatMap_singleton]
    · rw [heq]
      symm
      refine addItems_of_found fun w hw => ?_
      rcases hdropped with hv' | ⟨x, hx, hsame⟩
      · exact .inl (hnull v hv hv' w hw)
      · -- the item was left out for the sake of one that is equal to it
        have hx' : x ∈ items :=
          (mem_of_mem_addItems hx).resolve_left List.not_mem_nil
        obtain rfl := hdistinct x (hmem x hx') v hv hsame
        cases hw' : w.isNull with
        | true => exact .inl rfl
        | false =>
          have hfound : w ∈ (addItems [] items).flatMap next :=
            List.mem_flatMap.2 ⟨x, hx, hw⟩
          exact .inr (exists_sameItem_of_mem hfound hw' (hself x hv hsame w hw))

/-- Items are added as they are when repetitions have been left out before. -/
theorem addItems_absorb (hdistinct : ItemsDistinct items) :
    addItems found (addItems [] items) = addItems found items := by
  have hflat : addItems found ((addItems [] items).flatMap fun v => [v]) =
      addItems found (items.flatMap fun v => [v]) :=
    addItems_flatMap hdistinct
      (fun v _ hnull w hw => List.mem_singleton.1 hw ▸ hnull)
      fun v _ hself w hw => List.mem_singleton.1 hw ▸ hself
  simpa using hflat

end

/-! ## Values by their items -/

/-- A value is null, a list, or single. -/
theorem Value.items_induction {P : Value → Prop} (null : P .null)
    (list : ∀ items, (∀ item ∈ items, P item) → P (.list items))
    (single : ∀ v : Value, v.isNull = false → v.isList = false → P v)
    (v : Value) : P v := by
  cases v with
  | null => exact null
  | list items =>
    refine list items fun item hitem => ?_
    have := List.sizeOf_lt_of_mem hitem
    exact Value.items_induction null list single item
  | _ => exact single _ rfl rfl
termination_by sizeOf v

theorem Value.toItems_of_single {v : Value} (hnull : v.isNull = false)
    (hlist : v.isList = false) :
    v.toItems = [v] := by
  cases v with
  | null => cases hnull
  | list => cases hlist
  | _ => rfl

/-! ## Scripts -/

namespace Script

variable {s : Schema} {α β : Type} {m : Value → Script s Value}

/-- What a script comes to if nothing can be loaded and nothing has been. -/
def offline : Script s α → α
  | .done a => a
  | .ask request next => (next request.missing).offline

@[simp] theorem offline_pure (a : α) : (pure a : Script s α).offline = a := rfl

@[simp] theorem offline_bind (m : Script s α) (k : α → Script s β) :
    (m >>= k).offline = (k m.offline).offline := by
  induction m with
  | done a => rfl
  | ask request next ih => exact ih request.missing

/-- Without a loader and with nothing remembered, a run comes to it. -/
theorem run_offline {σ : Type} {ev : Evaluator σ} (hloader : ev.loader = none)
    {session : Session σ} (hcache : session.cache = []) (m : Script s α) :
    Returns (m.run ev.answer) session m.offline session := by
  induction m with
  | done a => rfl
  | ask request next ih =>
    have hmiss : request.key?.bind session.cache.get? = none := by
      rw [hcache]
      cases request.key? <;> rfl
    have hanswer : outcome (ev.answer request) session =
        (.ok request.missing, session) := by
      rw [Evaluator.outcome_answer, hmiss, hloader]
    rw [Returns, outcome_run_ask, hanswer]
    exact ih request.missing

theorem fanOut_of_single {v : Value} (hnull : v.isNull = false)
    (hlist : v.isList = false) :
    fanOut m v = m v := by
  cases v with
  | null => cases hnull
  | list => cases hlist
  | _ => rw [fanOut] <;> simp

@[simp] theorem offline_fanOut_null : (fanOut m .null).offline = .null := by
  rw [fanOut, offline_pure]

theorem offline_fanOutItems (found items : List Value) :
    (fanOutItems m found items).offline =
      addItems found
        (items.flatMap fun item => (fanOut m item).offline.toItems) := by
  induction items generalizing found with
  | nil =>
    rw [fanOutItems, offline_pure, List.flatMap_nil, addItems, List.foldl_nil]
  | cons item items ih =>
    rw [fanOutItems, offline_bind, ih, gather_eq, List.flatMap_cons,
      addItems_append]

/-- From a list, what is found from its items is gathered. -/
theorem offline_fanOut_list (items : List Value) :
    (fanOut m (.list items)).offline = .list (addItems []
      (items.flatMap fun item => (fanOut m item).offline.toItems)) := by
  rw [fanOut, offline_bind, offline_pure, offline_fanOutItems]

/-- In several ways, what is found in each of them is gathered. -/
theorem offline_gatherWays (v : Value) (found : List Value)
    (ways : List (Value → Script s Value)) :
    (gatherWays v found ways).offline =
      addItems found (ways.flatMap fun way => (way v).offline.toItems) := by
  induction ways generalizing found with
  | nil =>
    rw [gatherWays, offline_pure, List.flatMap_nil, addItems, List.foldl_nil]
  | cons way ways ih =>
    rw [gatherWays, offline_bind, ih, gather_eq, List.flatMap_cons,
      addItems_append]

end Script

/-- Without a loader and with nothing remembered, an evaluation comes to its
script and leaves the session as it is. -/
theorem Evaluator.evaluate_offline {σ : Type} {ev : Evaluator σ}
    (hloader : ev.loader = none) {session : Session σ}
    (hcache : session.cache = []) (path : Path) (v : Value) :
    Returns (ev.evaluate path v) session
      (path.script ev.schema ev.graph v).offline session := by
  rw [evaluate_eq_run]
  exact Script.run_offline hloader hcache _

/-! ## Staying within a set of values -/

/-- The items of lists and the fields of records of the set are in the set. -/
structure Downward (known : Value → Prop) : Prop where
  items : ∀ {items}, known (.list items) → ∀ item ∈ items, known item
  fields : ∀ {r}, known (.record r) → ∀ field ∈ r.fields, known field.2

/-- The items of the value are in the set. -/
def Value.Drawn (known : Value → Prop) (v : Value) : Prop :=
  ∀ item ∈ v.toItems, known item

namespace Value

variable {known : Value → Prop} {v : Value}

theorem drawn_null : Drawn known .null := by
  rintro _ ⟨⟩

theorem Drawn.of_known (hknown : Downward known) (h : known v) :
    v.Drawn known := by
  cases v with
  | null => exact drawn_null
  | list items => exact hknown.items h
  | _ => exact List.forall_mem_singleton.2 h

theorem drawn_record_iff {r : Record} : Drawn known (.record r) ↔
    known (.record r) :=
  List.forall_mem_singleton

/-- Gathered items are in the set if all that has been found was. -/
theorem drawn_addItems {α : Type} {items : List α} {find : α → Value}
    (h : ∀ a ∈ items, (find a).Drawn known) :
    Drawn known
      (.list (addItems [] (items.flatMap fun a => (find a).toItems))) := by
  intro item hitem
  have hmem := (mem_of_mem_addItems hitem).resolve_left List.not_mem_nil
  obtain ⟨a, ha, hitem⟩ := List.mem_flatMap.1 hmem
  exact h a ha item hitem

end Value

namespace Script

variable {s : Schema} {g : EntityGraph} {known : Value → Prop}
  {m : Value → Script s Value}

/-- From values of the set the script leads to values of the set. -/
def Stays (known : Value → Prop) (m : Value → Script s Value) : Prop :=
  ∀ v, v.Drawn known → (m v).offline.Drawn known

section

variable (hknown : Downward known)

include hknown

theorem stays_fanOut (h : Stays known m) : Stays known (fanOut m) := by
  intro v hv
  induction v using Value.items_induction with
  | null => rwa [offline_fanOut_null]
  | list items ih =>
    rw [offline_fanOut_list]
    refine Value.drawn_addItems fun item hitem => ?_
    exact ih item hitem (.of_known hknown (hv item hitem))
  | single v hnull hlist =>
    rw [fanOut_of_single hnull hlist]
    exact h v hv

omit hknown in
theorem Request.missing_drawn (request : Request s) :
    request.missing.Drawn known := by
  have hempty : (Value.list []).Drawn known := by
    intro item hitem
    cases hitem
  rw [Request.missing]
  split
  · exact hempty
  · exact Value.drawn_null

theorem getOrNull_drawn {r : Record} (h : known (.record r)) (name : String) :
    (r.getOrNull name).Drawn known := by
  rw [Record.getOrNull]
  cases hheld : r.get? name with
  | none => exact Value.drawn_null
  | some held =>
    exact .of_known hknown
      (hknown.fields h _ (Evaluator.mem_fields_of_get? hheld))

theorem heldOr_drawn {r : Record} (h : known (.record r)) {relation : String}
    {otherwise : Script s Value} (hother : otherwise.offline.Drawn known) :
    (heldOr r relation otherwise).offline.Drawn known := by
  rw [heldOr]
  cases hheld : r.get? relation with
  | none => exact hother
  | some held =>
    exact .of_known hknown
      (hknown.fields h _ (Evaluator.mem_fields_of_get? hheld))

theorem fieldValue_drawn {r : Record} (h : known (.record r)) (name : String) :
    (fieldValue s r name).offline.Drawn known := by
  rw [fieldValue]
  split
  · exact getOrNull_drawn hknown h name
  · split
    · next column _ =>
      rw [offline_pure]
      cases hheld : r.get? name with
      | none => exact getOrNull_drawn hknown h column
      | some held =>
        exact .of_known hknown
          (hknown.fields h _ (Evaluator.mem_fields_of_get? hheld))
    · refine heldOr_drawn hknown h ?_
      split
      · exact Value.drawn_null
      · exact Request.missing_drawn _
    · rw [offline_bind, offline_pure]
      intro item hitem
      exact heldOr_drawn hknown h (Request.missing_drawn _) item
        (List.mem_of_mem_filter hitem)
    · split
      · exact .of_known hknown h
      · exact getOrNull_drawn hknown h name

theorem stays_step (h : Stays known m) (name : String) :
    Stays known (step s name m) := by
  intro v hv
  cases v with
  | record r =>
    rw [step, offline_bind]
    exact h _ (fieldValue_drawn hknown (Value.drawn_record_iff.1 hv) name)
  | _ => exact Value.drawn_null

theorem stays_steps (h : Stays known m) : ∀ names, Stays known (steps s m names)
  | [] => h
  | name :: names =>
    stays_fanOut hknown (stays_step hknown (stays_steps h names) name)

theorem stays_climb (h : Stays known m) (name : String) :
    Stays known (climb s g name m) := by
  intro v hv
  rw [climb]
  split
  · exact stays_steps hknown h _ v hv
  · exact Value.drawn_null

end

/-- Both ways to go on stay within the set. -/
structure StaysOnward (known : Value → Prop) (rest : Onward s) : Prop where
  follow : Stays known rest.follow
  ascend : Stays known rest.ascend

theorem stays_null : Stays (s := s) known fun _ => pure .null :=
  fun _ _ => Value.drawn_null

mutual

theorem onStep_stays (hknown : Downward known) :
    ∀ (step : Step) {rest : Onward s},
    StaysOnward known rest → StaysOnward known (onStep s g step rest)
  | .field name _, _, hrest =>
    ⟨stays_fanOut hknown (stays_step hknown hrest.follow name),
      stays_climb hknown hrest.follow name⟩
  | .wildcard, _, hrest => ⟨stays_fanOut hknown hrest.ascend, stays_null⟩
  | .self entity, _, hrest => by
    refine ⟨stays_fanOut hknown fun v hv => ?_, stays_null⟩
    split
    · exact hrest.follow v hv
    · exact Value.drawn_null
  | .alternatives paths, _, hrest => by
    refine ⟨stays_fanOut hknown fun v hv => ?_, stays_null⟩
    rw [offline_bind, offline_pure, offline_gatherWays]
    exact Value.drawn_addItems fun way hway =>
      onPaths_stays hknown paths hrest way hway v hv

theorem onPath_stays (hknown : Downward known) :
    ∀ (path : List Step) {rest : Onward s},
    StaysOnward known rest → StaysOnward known (onPath s g path rest)
  | [], _, hrest => hrest
  | step :: path, _, hrest =>
    onStep_stays hknown step (onPath_stays hknown path hrest)

theorem onPaths_stays (hknown : Downward known) :
    ∀ (paths : List (List Step)) {rest : Onward s},
    StaysOnward known rest → ∀ way ∈ onPaths s g paths rest, Stays known way
  | [], _, _, _, hway => nomatch hway
  | path :: paths, _, hrest, way, hway => by
    rcases List.mem_cons.1 hway with rfl | hway
    · exact (onPath_stays hknown path hrest).follow
    · exact onPaths_stays hknown paths hrest way hway

end

end Script

end RowGuard
