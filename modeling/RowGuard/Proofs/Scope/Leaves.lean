import RowGuard.Proofs.Query.Carried
import RowGuard.Proofs.Scope.Compilation
import RowGuard.Proofs.Value.Operands

/-!
# The values that a compiled query carries

What an expression compares with are literals, settings and what paths of the
actor lead to.  This module says which of these values a compiled query carries,
and when all of them can be bound.

* `Expression.leaves` are the leaves of an expression without its negations, and
  `Compiler.resolveLeaves` evaluates their operands in order.
* `Value.bare` is what stands for a value in a query: records are replaced by
  their identities, one level deep.  `Test.of_makes` says that a test carries
  nothing else.
* `Binder.onPath_makes` is the induction over paths, `Compiler.combine_carries`
  that over combined fragments.
* `Compiler.compile_carries_iff` is the result.  An identity may be any value,
  and nothing looks at it after it has replaced its record; so the condition is
  one on identities.
-/

namespace RowGuard

/-! ## Leaves -/

/-- What is compared with what. -/
structure Leaf where
  op : Operator
  property : Path
  operand : Operand

mutual

/-- The leaves of an expression, from left to right.  A negation is taken into
the operator. -/
def Expression.leaves : Expression → Except NotNegatable (List Leaf)
  | .all parts => leavesOf parts
  | .any parts => leavesOf parts
  | .leaf op property operand => .ok [⟨op, property, operand⟩]
  | .not (.leaf op property operand) =>
    match op.invert? with
    | some inverse => .ok [⟨inverse, property, operand⟩]
    | none => .error (.operator op)
  | .not (.not part) => part.leaves
  | .not (.all _) => .error .all
  | .not (.any _) => .error .any

/-- The leaves of several expressions. -/
def leavesOf : List Expression → Except NotNegatable (List Leaf)
  | [] => .ok []
  | part :: parts => do
    let first ← part.leaves
    return first ++ (← leavesOf parts)

end

/-- What stands for the value in a query: a record's identity, also for the
items of a list. -/
def Value.bare : Value → Value
  | .list items => .list (items.map Value.identityOrSelf)
  | v => v.identityOrSelf

namespace Compiler

variable {σ : Type}

/-- Evaluates the operands of leaves in order. -/
def resolveLeaves (c : Compiler σ) (actor : Value) :
    List Leaf → EvalM σ (List (Leaf × Value))
  | [] => pure []
  | leaf :: leaves => do
    let value ← c.evaluator.resolve actor leaf.operand
    return (leaf, value) :: (← c.resolveLeaves actor leaves)

/-- The leaf is compiled to a comparison with the value: its path leads to a
column, and the value is not the empty list. -/
def Compares (c : Compiler σ) (entity : Entity) (leaf : Leaf)
    (value : Value) : Prop :=
  ∃ t, Test.of leaf.op value = .ok t ∧
    (c.binder.bind t leaf.property entity c.naming.root).comparisons ≠ []

end Compiler

/-! ## What a test carries -/

/-- The comparison is one that the test makes. -/
def Test.Makes (t : Test) (c : Comparison) : Prop :=
  c.op = t.op ∧ match t.value with
    | .null => c.value = .null
    | .empty => False
    | .value v => c.value = v

theorem Test.makes_of_mem_filter {t : Test} {aliasName column : String}
    {c : Comparison} (h : c ∈ (t.filter aliasName column).comparisons) :
    t.Makes c := by
  obtain ⟨op, value⟩ := t
  rw [Test.filter, FilterValue.filter.eq_def] at h
  cases value with
  | null =>
    obtain rfl := List.mem_singleton.1 h
    exact ⟨rfl, rfl⟩
  | empty =>
    dsimp only at h
    split at h <;> simp [Filter.always, Filter.comparisons, comparisonsOf] at h
  | value v =>
    obtain rfl := List.mem_singleton.1 h
    exact ⟨rfl, rfl⟩

theorem mem_selectsComparisons {c : Comparison} {members : List Select} :
    c ∈ selectsComparisons members ↔
      ∃ member ∈ members, c ∈ member.comparisons := by
  induction members with
  | nil => simp [selectsComparisons]
  | cons member members ih => simp [selectsComparisons, ih]

/-- A test compares with what stands for its value. -/
theorem Test.of_makes {op : Operator} {value : Value} {t : Test}
    {c : Comparison} (h : Test.of op value = .ok t) (hc : t.Makes c) :
    c.op = op ∧ c.value = value.bare := by
  rw [Test.of] at h
  cases hvalue : FilterValue.ofValue? value with
  | none => simp [hvalue] at h
  | some filterValue =>
    rw [hvalue] at h
    dsimp only at h
    split at h
    · cases h
    · cases h
      obtain ⟨hop, hmakes⟩ := hc
      refine ⟨hop, ?_⟩
      cases value with
      | null =>
        cases hvalue
        exact hmakes
      | list items =>
        rw [FilterValue.ofValue?, FilterValue.ofItems?] at hvalue
        split at hvalue
        · cases hvalue
          exact hmakes.elim
        · split at hvalue
          · cases hvalue
            exact hmakes
          · split at hvalue
            · next hscalars =>
              cases hvalue
              rw [Value.bare, Value.map_identityOrSelf
                (List.all_eq_true.1 hscalars)]
              exact hmakes
            · cases hvalue
      | record r =>
        rw [FilterValue.ofValue?, Option.map_eq_some_iff] at hvalue
        obtain ⟨id, hid, rfl⟩ := hvalue
        rw [Value.bare, Value.identityOrSelf, Value.identity?, hid]
        exact hmakes
        simp
      | _ =>
        cases hvalue
        exact hmakes

/-! ## What binding adds -/

/-- The test makes all comparisons of the fragment. -/
def Fragment.MadeBy (f : Fragment) (t : Test) : Prop :=
  ∀ c ∈ f.comparisons, t.Makes c

theorem Fragment.MadeBy.empty {t : Test} : Fragment.empty.MadeBy t :=
  fun _ h => nomatch h

theorem Fragment.MadeBy.filter {f : Fragment} {t : Test} {condition : Filter}
    (h : f.MadeBy t) (hcondition : ∀ c ∈ condition.comparisons, t.Makes c) :
    (f.filter condition).MadeBy t := by
  intro c hc
  rw [Fragment.comparisons_filter, List.mem_append] at hc
  exact hc.elim (h c) (hcondition c)

namespace Binder

variable {b : Binder} {t : Test}

/-- The growth adds comparisons that the test makes. -/
def Growth.Makes (t : Test) (g : Growth) : Prop :=
  ∀ (entity : Entity) (aliasName : String) (f : Fragment), f.MadeBy t →
    (g entity aliasName f).MadeBy t

/-- The rest of a path adds comparisons that the test makes. -/
structure Onward.Makes (t : Test) (rest : Onward) : Prop where
  follow : rest.follow.Makes t
  ascend : rest.ascend.Makes t

theorem deny_makes : Growth.Makes t deny :=
  fun _ _ _ hf => hf.filter fun _ h => nomatch h

theorem test_makes (column : Entity → String) :
    Growth.Makes t fun entity aliasName f =>
      f.filter (t.filter aliasName (column entity)) :=
  fun _ _ _ hf => hf.filter fun _ => Test.makes_of_mem_filter

theorem Onward.done_makes : (Onward.done t).Makes t :=
  ⟨test_makes Entity.identity, test_makes Entity.identity⟩

/-- A join adds no comparison, so that the step goes on with what it has. -/
theorem step_makes {name : String} {given : Option String} {isEnd : Bool}
    {next : Growth} (hnext : next.Makes t) :
    (b.step t name given isEnd next).Makes t := by
  intro entity aliasName f hf
  unfold Binder.step
  dsimp only
  split
  next column _ =>
    split
    · exact test_makes (fun _ => column) entity aliasName f hf
    · exact deny_makes entity aliasName f hf
  next key parent optional _ =>
    split
    · exact test_makes (fun _ => key) entity aliasName f hf
    · exact hnext parent _ (f.join _) hf
  next child inverse key _ => exact hnext child _ (f.join _) hf
  next =>
    split
    · exact hnext entity aliasName f hf
    · exact deny_makes entity aliasName f hf

theorem steps_makes {goal : String} {given : Option String} {rest : Onward}
    (hrest : rest.Makes t) : ∀ names, (b.steps t goal given rest names).Makes t
  | [] => hrest.follow
  | [_] => step_makes hrest.follow
  | _ :: next :: names => step_makes (steps_makes hrest (next :: names))

theorem climb_makes {name : String} {given : Option String} {rest : Onward}
    (hrest : rest.Makes t) : (b.climb t name given rest).Makes t := by
  intro entity aliasName f hf
  unfold Binder.climb
  split
  · exact steps_makes hrest _ entity aliasName f hf
  · exact deny_makes entity aliasName f hf

/-- Each way starts without comparisons, in a select of its own. -/
theorem branch_makes {ways : List Growth} (hways : ∀ way ∈ ways, way.Makes t) :
    (b.branch ways).Makes t := by
  intro entity aliasName f hf
  unfold Binder.branch combineSelects
  dsimp only
  split
  · next query hquery =>
    split at hquery
    · cases hquery
    · obtain rfl := Option.some.inj hquery
      refine hf.filter fun c hc => ?_
      rw [Filter.comparisons, Compound.ofSelects, Compound.comparisons,
        mem_selectsComparisons] at hc
      obtain ⟨member, hmember, hc⟩ := hc
      simp only [List.mem_map, List.mem_zipIdx_iff_getElem?] at hmember
      obtain ⟨_, ⟨⟨way, index⟩, hway, rfl⟩, rfl⟩ := hmember
      have hmade : ∀ root, ∀ c ∈ ((way entity root .empty).applyTo
          (.fromEntity entity root)).comparisons, t.Makes c := by
        intro root
        rw [Fragment.comparisons_applyTo]
        exact hways way (List.mem_of_getElem? hway) entity root .empty .empty
      exact hmade _ c hc
  · exact deny_makes entity aliasName f hf

mutual

theorem onStep_makes : ∀ (step : Step) {rest : Onward}, rest.Makes t →
    (b.onStep t step rest).Makes t
  | .field _ _, _, hrest => ⟨step_makes hrest.follow, climb_makes hrest⟩
  | .wildcard, _, hrest => ⟨hrest.ascend, deny_makes⟩
  | .self name, rest, hrest => by
    refine ⟨fun entity aliasName f hf => ?_, deny_makes⟩
    unfold Binder.onStep
    dsimp only
    split
    · exact hrest.follow entity aliasName f hf
    · exact deny_makes entity aliasName f hf
  | .alternatives paths, _, hrest =>
    ⟨branch_makes (onPaths_makes paths hrest), deny_makes⟩

/-- Binding a path adds comparisons that the test makes, with alternatives at
any depth. -/
theorem onPath_makes : ∀ (path : List Step) {rest : Onward}, rest.Makes t →
    (b.onPath t path rest).Makes t
  | [], _, hrest => hrest
  | step :: path, _, hrest => onStep_makes step (onPath_makes path hrest)

theorem onPaths_makes :
    ∀ (paths : List (List Step)) {rest : Onward}, rest.Makes t →
    ∀ way ∈ b.onPaths t paths rest, way.Makes t
  | [], _, _ => fun _ h => (List.not_mem_nil h).elim
  | path :: paths, _, hrest =>
    List.forall_mem_cons.2
      ⟨(onPath_makes path hrest).follow, onPaths_makes paths hrest⟩

end

/-- All comparisons of a bound path are made by its test. -/
theorem bind_madeBy (path : Path) (entity : Entity) (root : String) :
    (b.bind t path entity root).MadeBy t :=
  (onPath_makes path Onward.done_makes).follow entity root .empty .empty

end Binder

/-! ## Compiled expressions -/

namespace Compiler

variable {σ : Type} {c : Compiler σ} {actor : Value} {entity : Entity}

theorem resolveLeaves_append_returns {ls ms : List Leaf}
    {rs qs : List (Leaf × Value)} {s s' s'' : Session σ}
    (hls : Returns (c.resolveLeaves actor ls) s rs s')
    (hms : Returns (c.resolveLeaves actor ms) s' qs s'') :
    Returns (c.resolveLeaves actor (ls ++ ms)) s (rs ++ qs) s'' := by
  induction ls generalizing s rs with
  | nil =>
    rw [resolveLeaves, returns_pure_iff] at hls
    obtain ⟨rfl, rfl⟩ := hls
    exact hms
  | cons l ls ih =>
    simp only [resolveLeaves, returns_bind_iff, returns_pure_iff] at hls
    obtain ⟨value, t, hvalue, rest, t', hrest, rfl, rfl⟩ := hls
    simp only [List.cons_append, resolveLeaves, returns_bind_iff,
      returns_pure_iff]
    exact ⟨value, t, hvalue, rest ++ qs, s'', ih hrest, rfl, rfl⟩

/-- The operands resolve to values, and all operators can be put before what
stands for their values, for the leaves that are compiled to a comparison. -/
def LeavesCarry (c : Compiler σ) (entity : Entity)
    (resolved : List (Leaf × Value)) : Prop :=
  ∀ p ∈ resolved, c.Compares entity p.1 p.2 → p.1.op.carries p.2.bare = true

theorem leavesCarry_append {rs qs : List (Leaf × Value)} :
    c.LeavesCarry entity (rs ++ qs) ↔
      c.LeavesCarry entity rs ∧ c.LeavesCarry entity qs :=
  List.forall_mem_append

/-- The comparisons of a bound path all carry what stands for the value. -/
theorem bind_carries_iff {leaf : Leaf} {value : Value} {t : Test}
    (htest : Test.of leaf.op value = .ok t) :
    (c.binder.bind t leaf.property entity c.naming.root).carries = true ↔
      c.LeavesCarry entity [(leaf, value)] := by
  have hmade := Binder.bind_madeBy (b := c.binder) (t := t) leaf.property entity
    c.naming.root
  have hcarries : ∀ x ∈
      (c.binder.bind t leaf.property entity c.naming.root).comparisons,
      x.carries = leaf.op.carries value.bare := by
    intro x hx
    obtain ⟨hop, hvalue⟩ := Test.of_makes htest (hmade x hx)
    rw [Comparison.carries, hop, hvalue]
  rw [LeavesCarry, List.forall_mem_singleton, Fragment.carries,
    List.all_eq_true]
  constructor
  · rintro hall ⟨t', htest', hne⟩
    obtain rfl : t = t' := Except.ok.inj (htest.symm.trans htest')
    obtain ⟨x, hx⟩ := List.exists_mem_of_ne_nil _ hne
    rw [← hcarries x hx]
    exact hall x hx
  · intro hleaf x hx
    rw [hcarries x hx]
    exact hleaf ⟨t, htest, List.ne_nil_of_mem hx⟩

/-- A leaf is compiled to comparisons with what stands for its value, or to
none. -/
theorem leaf_carries {op : Operator} {property : Path} {operand : Operand}
    {s s' : Session σ} {f : Fragment}
    (h : Returns (c.leaf actor entity op property operand) s f s') :
    ∃ resolved, Returns (c.resolveLeaves actor [⟨op, property, operand⟩]) s
      resolved s' ∧
      (f.carries = true ↔ c.LeavesCarry entity resolved) := by
  obtain ⟨value, t, hvalue, htest, rfl⟩ := leaf_returns_iff.1 h
  let leaf : Leaf := ⟨op, property, operand⟩
  have hresolved : Returns (c.resolveLeaves actor [leaf]) s
      [(leaf, value)] s' := by
    simp only [resolveLeaves, returns_bind_iff, returns_pure_iff]
    exact ⟨value, s', hvalue, [], s', ⟨rfl, rfl⟩, rfl, rfl⟩
  have hcarries : (c.binder.bind t leaf.property entity c.naming.root).carries =
      true ↔
      c.LeavesCarry entity [(leaf, value)] := bind_carries_iff htest
  exact ⟨_, hresolved, hcarries⟩

theorem combine_carries (combination : Combination) (fs : List Fragment) :
    (combine combination fs).carries = fs.all Fragment.carries := by
  cases fs with
  | nil => rfl
  | cons f fs =>
    obtain ⟨d, hd, hcarries⟩ :=
      combineFragments_carries combination (List.cons_ne_nil f fs)
    rw [combine, hd, Option.getD_some, hcarries]

mutual

theorem fragment_carries_iff :
    ∀ (e : Expression) {s s' : Session σ} {f : Fragment},
    Returns (c.fragment actor entity e) s f s' →
    ∃ leaves resolved, e.leaves = .ok leaves ∧
      Returns (c.resolveLeaves actor leaves) s resolved s' ∧
      (f.carries = true ↔ c.LeavesCarry entity resolved)
  | .all parts, s, s', f, h => by
    simp only [fragment, returns_bind_iff, returns_pure_iff] at h
    obtain ⟨fs, _, hfs, rfl, rfl⟩ := h
    rw [combine_carries]
    exact fragments_carry_iff parts hfs
  | .any parts, s, s', f, h => by
    simp only [fragment, returns_bind_iff, returns_pure_iff] at h
    obtain ⟨fs, _, hfs, rfl, rfl⟩ := h
    rw [combine_carries]
    exact fragments_carry_iff parts hfs
  | .leaf op property operand, s, s', f, h => by
    rw [fragment] at h
    obtain ⟨resolved, hresolved, hcarries⟩ := leaf_carries h
    exact ⟨_, resolved, rfl, hresolved, hcarries⟩
  | .not (.leaf op property operand), s, s', f, h => by
    rw [fragment] at h
    split at h
    · next inverse hinverse =>
      obtain ⟨resolved, hresolved, hcarries⟩ := leaf_carries h
      exact ⟨_, resolved, by rw [Expression.leaves, hinverse],
        hresolved, hcarries⟩
    · exact absurd h not_returns_throw
  | .not (.not part), s, s', f, h => by
    rw [fragment] at h
    rw [Expression.leaves]
    exact fragment_carries_iff part h
  | .not (.all _), s, s', f, h => by
    rw [fragment] at h
    exact absurd h not_returns_throw
  | .not (.any _), s, s', f, h => by
    rw [fragment] at h
    exact absurd h not_returns_throw

theorem fragments_carry_iff :
    ∀ (es : List Expression) {s s' : Session σ} {fs : List Fragment},
    Returns (c.fragments actor entity es) s fs s' →
    ∃ leaves resolved, leavesOf es = .ok leaves ∧
      Returns (c.resolveLeaves actor leaves) s resolved s' ∧
      (fs.all Fragment.carries = true ↔ c.LeavesCarry entity resolved)
  | [], s, s', fs, h => by
    simp only [fragments, returns_pure_iff] at h
    obtain ⟨rfl, rfl⟩ := h
    refine ⟨[], [], rfl, returns_pure_iff.2 ⟨rfl, rfl⟩, ?_⟩
    simp [LeavesCarry]
  | e :: es, s, s', fs, h => by
    simp only [fragments, returns_bind_iff, returns_pure_iff] at h
    obtain ⟨first, _, hfirst, rest, _, hrest, rfl, rfl⟩ := h
    obtain ⟨ls, rs, hls, hrs, hcarries⟩ := fragment_carries_iff e hfirst
    obtain ⟨ms, qs, hms, hqs, hcarry⟩ := fragments_carry_iff es hrest
    refine ⟨ls ++ ms, rs ++ qs, ?_, resolveLeaves_append_returns hrs hqs, ?_⟩
    · rw [leavesOf, hls, hms]
      rfl
    · rw [List.all_cons, Bool.and_eq_true, hcarries, hcarry, leavesCarry_append]

end

/-- A compiled query carries null, scalars and lists of scalars, and orders by
scalars, exactly if the identities that stand for values do so; and if it does
then its parameters are scalars. -/
theorem compile_carries_iff {name : String} {e : Expression} {s s' : Session σ}
    {f : Fragment} (h : Returns (c.compile actor name e) s f s') :
    ∃ entity leaves resolved, c.evaluator.schema.entity? name = some entity ∧
      e.leaves = .ok leaves ∧
      Returns (c.resolveLeaves actor leaves) s resolved s' ∧
      ((∀ x ∈ f.comparisons, x.carries = true) ↔
        ∀ p ∈ resolved, c.Compares entity p.1 p.2 →
          p.1.op.carries p.2.bare = true) ∧
      ((∀ x ∈ f.comparisons, x.carries = true) →
        ∀ v ∈ (f.applyTo (c.root entity)).sql.parameters,
          v.isScalar = true) := by
  simp only [compile, returns_bind_iff, require_returns_iff] at h
  obtain ⟨entity, _, ⟨hentity, rfl⟩, hf⟩ := h
  obtain ⟨leaves, resolved, hleaves, hresolved, hcarries⟩ :=
    fragment_carries_iff e hf
  rw [Fragment.carries, List.all_eq_true] at hcarries
  refine ⟨entity, leaves, resolved, hentity, hleaves, hresolved, hcarries,
    fun hall v hv => ?_⟩
  exact Fragment.isScalar_of_mem_parameters (List.all_eq_true.2 hall) hv

end Compiler

/-! ## Identities that are no scalars -/

namespace Blog

/-- A record with an identity. -/
def identified (id : Value) : Value := .record ⟨none, [("id", id)]⟩

/-- A record that is itself an identity below. -/
def nested : Value := .record ⟨none, [("a", .int64 1)]⟩

/-- Operators and values to compare with, and what a query then carries. -/
def unchecked : List (Operator × Value × Value) :=
  [(.eq, identified nested, nested),
    (.gt, identified nested, nested),
    (.mem, .list [identified (.list [.int64 1])], .list [.list [.int64 1]]),
    (.eq, identified (.list [.null]), .list [.null]),
    (.eq, identified (.list []), .list [])]

/-- The author is not the one with a name, or the body is one of two. -/
def authorOrBody : Expression :=
  .any [.not (author .eq (identified (.string "x"))),
    body .mem (.list [.string "y", .string "z"])]

/-- What `authorOrBody` compiles to. -/
def authorOrBodyFragment : Fragment :=
  ⟨authorJoins .left,
    [.or [.comparison "root__post__author" "name" .neq (.string "x"),
      .comparison "root" "body" .mem (.list [.string "y", .string "z"])]]⟩

theorem authorOrBody_returns :
    Returns (compiler.compile .null "comment" authorOrBody)
      (.start ()) authorOrBodyFragment (.start ()) := rfl

end Blog

open Blog in
theorem Compiler.compile_carries_iff_authorOrBody :
    Returns (compiler.compile .null "comment" authorOrBody)
      (.start ()) authorOrBodyFragment
        (.start ()) ∧
      ∃ entity leaves resolved,
        compiler.evaluator.schema.entity? "comment" = some entity ∧
        authorOrBody.leaves = .ok leaves ∧
        Returns (compiler.resolveLeaves .null leaves) (.start ()) resolved
          (.start ()) ∧
        ((∀ x ∈ authorOrBodyFragment.comparisons, x.carries = true) ↔
          ∀ p ∈ resolved, compiler.Compares entity p.1 p.2 →
            p.1.op.carries p.2.bare = true) ∧
        ((∀ x ∈ authorOrBodyFragment.comparisons, x.carries = true) →
          ∀ v ∈ (authorOrBodyFragment.applyTo
            (compiler.root entity)).sql.parameters,
            v.isScalar = true) :=
  ⟨authorOrBody_returns, Compiler.compile_carries_iff authorOrBody_returns⟩

open Blog in
/-- An identity that is a record, a list of lists, a list with null or empty is
carried unchanged, and then the statement binds records and lists. -/
theorem Compiler.compiled_carries_unchecked :
    (∀ p ∈ unchecked,
      Returns (compiler.compile .null "comment" (body p.1 p.2.1)) (.start ())
          ⟨[], [.comparison "root" "body" p.1 p.2.2]⟩ (.start ()) ∧
        Comparison.carries ⟨"root", "body", p.1, p.2.2⟩ = false) ∧
      ((⟨[], [.comparison "root" "body" .eq nested]⟩ : Fragment).applyTo
        (compiler.root comment)).sql.parameters = [nested] ∧
      ((⟨[], [.comparison "root" "body" .mem (.list [.list [.int64 1]])]⟩ :
        Fragment).applyTo
        (compiler.root comment)).sql.parameters = [.list [.int64 1]] := by
  refine ⟨?_, rfl, rfl⟩
  rw [unchecked]
  simp only [List.forall_mem_cons]
  exact ⟨⟨rfl, rfl⟩, ⟨rfl, rfl⟩, ⟨rfl, rfl⟩, ⟨rfl, rfl⟩, ⟨rfl, rfl⟩,
    fun _ h => nomatch h⟩

end RowGuard
