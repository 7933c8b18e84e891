import RowGuard.Proofs.Evaluation.Offline

/-!
# What is gathered

A list is followed item by item and alternatives one after the other.  What they
come to is gathered: lists item by item, without nulls and without what has been
found before.

* `Distils` says what such a list has, without reference to how it is made, and
  `Gathers` adds the order.
* `addItems_gathers`: adding items one by one makes such a list.
* `Evaluator.evaluate_list` and `Evaluator.evaluate_alternatives` split an
  evaluation into those of its parts, which share the session one after the
  other.
* `Evaluator.evaluate_gathers` puts both together.
-/

namespace RowGuard

/-! ## Lists without nulls and repetitions -/

/-- The list has some of the items, in their order.  None of them is null or the
same item as an earlier one, and nothing is lost: any other item is null or the
same as one of them. -/
structure Distils (items found : List Value) : Prop where
  sublist : found.Sublist items
  notNull : ∀ v ∈ found, v.isNull = false
  distinct : found.Pairwise fun earlier later => earlier.sameItem later = false
  complete : ∀ v ∈ items, v.isNull = false → v ∈ found ∨
    ∃ w ∈ found, w.sameItem v = true

/-- The list is distilled from the items, and what it starts with from what they
start with: an item that is not the same as an earlier one comes before all that
is found after it. -/
def Gathers (items found : List Value) : Prop :=
  Distils items found ∧
    ∀ first, first <+: items → ∃ early, early <+: found ∧ Distils first early

section

variable {items found : List Value} {v : Value}

theorem distils_nil : Distils [] [] where
  sublist := .slnil
  notNull _ hmem := nomatch hmem
  distinct := .nil
  complete _ hmem := nomatch hmem

/-- One more item is added, unless it is null or has been found. -/
theorem Distils.addItem (h : Distils items found) (v : Value) :
    Distils (items ++ [v]) (addItem found v) := by
  rw [RowGuard.addItem]
  split
  · next hdropped =>
    rw [Bool.or_eq_true, List.any_eq_true] at hdropped
    refine ⟨h.sublist.trans (List.sublist_append_left ..), h.notNull,
      h.distinct, ?_⟩
    intro w hw hnull
    rcases List.mem_append.1 hw with hw | hw
    · exact h.complete w hw hnull
    · obtain rfl := List.mem_singleton.1 hw
      refine .inr (hdropped.resolve_left ?_)
      rw [hnull]
      exact Bool.false_ne_true
  · next hkept =>
    rw [Bool.or_eq_true, not_or, Bool.not_eq_true, List.any_eq_true] at hkept
    obtain ⟨hnull, hnew⟩ := hkept
    refine ⟨h.sublist.append (.refl _), ?_, ?_, ?_⟩
    · exact List.forall_mem_append.2
        ⟨h.notNull, List.forall_mem_singleton.2 hnull⟩
    · refine List.pairwise_append.2 ⟨h.distinct, List.pairwise_singleton .., ?_⟩
      intro earlier hearlier later hlater
      obtain rfl := List.mem_singleton.1 hlater
      rw [← Bool.not_eq_true]
      exact fun hsame => hnew ⟨earlier, hearlier, hsame⟩
    · intro w hw hnull
      rcases List.mem_append.1 hw with hw | hw
      · refine (h.complete w hw hnull).imp (List.mem_append_left _) ?_
        rintro ⟨x, hx, hsame⟩
        exact ⟨x, List.mem_append_left _ hx, hsame⟩
      · exact .inl (List.mem_append_right _ hw)

theorem addItems_distils (items : List Value) :
    Distils items (addItems [] items) := by
  induction items using List.reverseRecOn with
  | nil => exact distils_nil
  | append_singleton items v ih =>
    rw [addItems_append]
    exact ih.addItem v

/-- What has been found stays in its place. -/
theorem prefix_addItems (found items : List Value) :
    found <+: addItems found items := by
  induction items generalizing found with
  | nil => exact List.prefix_refl _
  | cons v items ih =>
    refine List.IsPrefix.trans ?_ (ih (addItem found v))
    rcases addItem_cases found v with heq | ⟨heq, -⟩
    · exact ⟨[v], heq.symm⟩
    · exact ⟨[], (List.append_nil found).trans heq.symm⟩

/-- Adding items one by one gathers them. -/
theorem addItems_gathers (items : List Value) :
    Gathers items (addItems [] items) := by
  refine ⟨addItems_distils items, ?_⟩
  rintro first ⟨rest, rfl⟩
  refine ⟨addItems [] first, ?_, addItems_distils first⟩
  rw [addItems_append]
  exact prefix_addItems ..

end

/-! ## Evaluations in parts -/

variable {σ : Type}

/-- Following items in order gathers what each of them comes to. -/
theorem fanOutItems_eq (k : Value → EvalM σ Value) (found items : List Value) :
    fanOutItems k found items = do
      let values ← items.mapM (fanOut k)
      return addItems found (values.flatMap Value.toItems) := by
  induction items generalizing found with
  | nil =>
    rw [fanOutItems, List.mapM_nil, pure_bind, List.flatMap_nil]
    rfl
  | cons item items ih =>
    rw [fanOutItems, List.mapM_cons]
    simp only [ih, bind_assoc, pure_bind, List.flatMap_cons, addItems_append,
      gather_eq]

namespace Evaluator

variable (ev : Evaluator σ)

theorem gatherWays_eq (ways : List (Value → EvalM σ Value)) (v : Value) :
    gatherWays ways v = do
      let values ← ways.mapM (· v)
      return .list (addItems [] (values.flatMap Value.toItems)) := by
  have hfold : ∀ found : List Value,
      ways.foldlM (fun found way => return gather found (← way v)) found = do
        let values ← ways.mapM (· v)
        return addItems found (values.flatMap Value.toItems) := by
    induction ways with
    | nil =>
      intro found
      rw [List.foldlM_nil, List.mapM_nil, pure_bind, List.flatMap_nil]
      rfl
    | cons way ways ih =>
      intro found
      rw [List.foldlM_cons, List.mapM_cons]
      simp only [ih, bind_assoc, pure_bind, List.flatMap_cons, addItems_append]
      rfl
  rw [gatherWays, hfold]
  simp only [bind_assoc, pure_bind]

theorem onPath_append (p q : List Step) (rest : Onward σ) :
    ev.onPath (p ++ q) rest = ev.onPath p (ev.onPath q rest) := by
  induction p with
  | nil => rfl
  | cons step p ih => rw [List.cons_append, onPath, onPath, ih]

theorem onPaths_eq_map (paths : List (List Step)) (rest : Onward σ) :
    ev.onPaths paths rest = paths.map fun path =>
      (ev.onPath path rest).follow := by
  induction paths with
  | nil => rfl
  | cons path paths ih => rw [onPaths, ih, List.map_cons]

/-- A path that is not empty is followed from each item of a list. -/
theorem evaluate_list {path : Path} (hpath : path ≠ []) (items : List Value) :
    ev.evaluate path (.list items) = do
      let values ← items.mapM (ev.evaluate path)
      return .list (addItems [] (values.flatMap Value.toItems)) := by
  obtain ⟨step, path, rfl⟩ := List.exists_cons_of_ne_nil hpath
  have hfanOut : ∃ k, ev.evaluate (step :: path) = fanOut k := by
    cases step <;> exact ⟨_, rfl⟩
  obtain ⟨k, hk⟩ := hfanOut
  rw [hk, fanOut, fanOutItems_eq]
  simp only [bind_assoc, pure_bind]

/-- From a record, alternatives are followed one after the other, each to the
end of the path. -/
theorem evaluate_alternatives (paths : List Path) (rest : Path) (r : Record) :
    ev.evaluate (.alternatives paths :: rest) (.record r) = do
      let values ← paths.mapM fun path => ev.evaluate (path ++ rest) (.record r)
      return .list (addItems [] (values.flatMap Value.toItems)) := by
  have hways : ev.evaluate (.alternatives paths :: rest) (.record r) =
      gatherWays (ev.onPaths paths (ev.onPath rest .done)) (.record r) := by
    rw [evaluate, onPath, onStep]
    exact fanOut_record ..
  rw [hways, gatherWays_eq, onPaths_eq_map, List.mapM_map]
  simp only [evaluate, onPath_append]
  rfl

/-- What an evaluation with several parts comes to: the list that is gathered
from what the parts come to one after the other. -/
theorem exists_gathers {α : Type} {parts : List α} {part : α → EvalM σ Value}
    {s t : Session σ} {w : Value}
    (h : Returns (do
      let values ← parts.mapM part
      return .list (addItems [] (values.flatMap Value.toItems))) s w t) :
    ∃ values found, Returns (parts.mapM part) s values t ∧ w = .list found ∧
      Gathers (values.flatMap Value.toItems) found := by
  obtain ⟨values, u, hparts, hlist⟩ := returns_bind_iff.1 h
  obtain ⟨rfl, rfl⟩ := returns_pure_iff.1 hlist
  exact ⟨values, _, hparts, rfl, addItems_gathers _⟩

/-- A path that is not empty leads from a list to the list that is gathered from
where it leads from the items.  Alternatives lead from a record to the list that
is gathered from where each of them leads together with the rest of the path.
The parts are evaluated in order, each in the session that the one before has
left. -/
theorem evaluate_gathers {s t : Session σ} {w : Value} :
    (∀ (path : Path) (items : List Value), path ≠ [] →
      Returns (ev.evaluate path (.list items)) s w t →
        ∃ values found, Returns (items.mapM (ev.evaluate path)) s values t ∧
          w = .list found ∧ Gathers (values.flatMap Value.toItems) found) ∧
    ∀ (paths : List Path) (rest : Path) (r : Record),
      Returns (ev.evaluate (.alternatives paths :: rest) (.record r)) s w t →
        ∃ values found,
          Returns (paths.mapM fun path => ev.evaluate (path ++ rest)
            (.record r)) s values t ∧
            w = .list found ∧ Gathers (values.flatMap Value.toItems) found := by
  constructor
  · intro path items hpath h
    rw [ev.evaluate_list hpath] at h
    exact exists_gathers h
  · intro paths rest r h
    rw [evaluate_alternatives] at h
    exact exists_gathers h

end Evaluator

/-! ## Two readers -/

namespace Readers

/-- An evaluator for readers, which have no declared fields.  Books are plain
maps. -/
def evaluator : Evaluator Unit where
  schema :=
    { entities := [Entity.new "reader"]
      names_nodup := by decide
      targets_declared := by decide }

def novel : Value := .record ⟨none, [("id", .int64 1), ("title", .string "x")]⟩

/-- The same item as the novel. -/
def copy : Value := .record ⟨none, [("id", .int32 1)]⟩

def atlas : Value := .record ⟨none, [("id", .int64 2)]⟩

/-- Someone who has read a novel, and has an atlas and a copy of the novel. -/
def owner : Record :=
  ⟨some "reader", [("read", novel), ("owned", .list [atlas, .null, copy])]⟩

/-- Someone who has read the copy, and has nothing. -/
def guest : Record := ⟨some "reader", [("read", copy), ("owned", .null)]⟩

/-- What has been read or is owned. -/
def known : Path := [.alternatives [[.plain "read"], [.plain "owned"]]]

theorem returns_read :
    Returns (evaluator.evaluate [.plain "read"]
      (.list [.record owner, .record guest]))
      (.start ()) (.list [novel]) (.start ()) := by
  with_unfolding_all rfl

theorem returns_known :
    Returns (evaluator.evaluate known (.record owner)) (.start ())
      (.list [novel, atlas]) (.start ()) := by
  with_unfolding_all rfl

end Readers

open Readers in
theorem Evaluator.evaluate_gathers_readers :
    [Step.plain "read"] ≠ [] ∧
      Returns (evaluator.evaluate [.plain "read"]
        (.list [.record owner, .record guest]))
        (.start ()) (.list [novel]) (.start ()) ∧
      Returns (evaluator.evaluate known (.record owner)) (.start ())
        (.list [novel, atlas]) (.start ()) ∧
      (∃ values found,
        Returns ([.record owner, .record guest].mapM
          (evaluator.evaluate [.plain "read"])) (.start ()) values (.start ()) ∧
        .list [novel] = Value.list found ∧
        Gathers (values.flatMap Value.toItems) found) ∧
      ∃ values found,
        Returns ([[Step.plain "read"], [.plain "owned"]].mapM fun path =>
          evaluator.evaluate (path ++ [])
            (.record owner)) (.start ()) values (.start ()) ∧
        .list [novel, atlas] = Value.list found ∧
        Gathers (values.flatMap Value.toItems) found :=
  ⟨List.cons_ne_nil _ _, returns_read, returns_known,
    (Evaluator.evaluate_gathers evaluator).1 _ _ (List.cons_ne_nil _ _)
      returns_read,
    (Evaluator.evaluate_gathers evaluator).2 _ _ _ returns_known⟩

end RowGuard
