import RowGuard.Proofs.Value.Atom
import RowGuard.Proofs.Value.Congruence

/-!
# Equality of values as an equivalence

On the left of an equality a list stands for its items, so a list of numbers is
not equal to itself, and a NaN is not equal to itself either.  Apart from these
two, equality is reflexive, and symmetric and transitive where it compares
neither lists nor doubles.

* `Value.same_self`: exactly the values without NaN are the same as themselves.
* `Operator.compare_self`: a value without NaN equals itself if it stands alone
  (`Value.StandsAlone`), and no list does that has items and in which no list is
  empty.  The reason is `Value.Filled.depth_le_of_agrees`: such a list agrees
  only with what is nested less deep than itself.
* `Value.agrees_symm_trans`: values that are compared by scalars, null or
  records agree in both directions, and along a chain, whatever their widths and
  shapes are.
-/

namespace RowGuard

/-! ## Values without NaN -/

/-- A double equals itself unless it is NaN. -/
theorem float_beq_self (x : Float) : (x == x) = !x.isNaN := by
  rw [float_beq_eq]
  show _ = !x.toModel.unpack.isNaN
  cases x.toModel.unpack with
  | infinity s => cases s <;> rfl
  | finite s m e hm =>
    have hself : ((compare e e).then (compare m m)) = .eq := by
      rw [Ordering.then_eq_eq, Int.compare_eq_eq, Nat.compare_eq_eq]
      exact ⟨rfl, rfl⟩
    cases s with
    | positive =>
      show (some ((compare e e).then (compare m m)) == some .eq) = true
      rw [hself]
      rfl
    | negative =>
      show (some ((compare e e).then (compare m m)).swap == some .eq) = true
      rw [hself]
      rfl
  | _ => rfl

mutual

/-- Whether the value contains no NaN. -/
def Value.nanFree : Value → Bool
  | .float64 x => !x.isNaN
  | .list items => itemsNanFree items
  | .record r => r.nanFree
  | _ => true

/-- Whether the fields of the record contain no NaN. -/
def Record.nanFree : Record → Bool
  | ⟨_, fields⟩ => fieldsNanFree fields

/-- Whether the items contain no NaN. -/
def itemsNanFree : List Value → Bool
  | [] => true
  | item :: items => item.nanFree && itemsNanFree items

/-- Whether the fields contain no NaN. -/
def fieldsNanFree : List (String × Value) → Bool
  | [] => true
  | (_, value) :: fields => value.nanFree && fieldsNanFree fields

end

mutual

/-- A value is the same as itself exactly if it contains no NaN. -/
theorem Value.same_self : ∀ v : Value, v.same v = v.nanFree
  | .float64 x => by rw [Value.same, Value.nanFree, float_beq_self]
  | .list items => by rw [Value.same, Value.nanFree, sameItems_self items]
  | .record r => by rw [Value.same, Value.nanFree, r.same_self]
  | .null | .bool _ | .int32 _ | .int64 _ | .string _ | .timestamp _ => by
    simp [Value.same, Value.nanFree]

theorem Record.same_self : ∀ r : Record, r.same r = r.nanFree
  | ⟨_, fields⟩ => by
    rw [Record.same, Record.nanFree, beq_self_eq_true, Bool.true_and,
      sameFields_self fields]

theorem sameItems_self :
    ∀ items : List Value, sameItems items items = itemsNanFree items
  | [] => by rw [sameItems, itemsNanFree]
  | item :: items => by
    rw [sameItems, itemsNanFree, item.same_self, sameItems_self items]

theorem sameFields_self : ∀ fields : List (String × Value),
    sameFields fields fields = fieldsNanFree fields
  | [] => by rw [sameFields, fieldsNanFree]
  | (_, value) :: fields => by
    rw [sameFields, fieldsNanFree, beq_self_eq_true, Bool.true_and,
      value.same_self, sameFields_self fields]

end

theorem itemsNanFree_iff {items : List Value} :
    itemsNanFree items = true ↔ ∀ item ∈ items, item.nanFree = true := by
  induction items with
  | nil => simp [itemsNanFree]
  | cons item items ih => simp [itemsNanFree, ih]

theorem fieldsNanFree_iff {fields : List (String × Value)} :
    fieldsNanFree fields = true ↔ ∀ field ∈ fields, field.2.nanFree = true := by
  induction fields with
  | nil => simp [fieldsNanFree]
  | cons field fields ih => simp [fieldsNanFree, ih]

namespace Value

variable {v a b c : Value} {items : List Value}

/-- The identity of a value is part of it. -/
theorem nanFree_of_identity (h : v.nanFree = true) {id : Value}
    (hid : v.identity? = some id) :
    id.nanFree = true := by
  cases v with
  | record r =>
    obtain ⟨entity, fields⟩ := r
    rw [nanFree, Record.nanFree, fieldsNanFree_iff] at h
    have hget : fields.lookup identityField = some id :=
      (Option.filter_eq_some_iff.1 hid).1
    obtain ⟨before, after, rfl, -⟩ := List.lookup_eq_some_iff.1 hget
    exact h (identityField, id) (by simp)
  | _ => cases hid

/-! ## Comparing values with themselves -/

/-- Values that are not compared as lists are equal if they are as atoms. -/
theorem equals_of_single (h : a.isList = false) (b : Value) :
    a.equals b = a.atomsEqual b := by
  cases a with
  | list items => cases h
  | _ => simp [equals]

theorem atomsEqual_self (v : Value) : v.atomsEqual v = v.nanFree := by
  rw [← v.same_self]
  cases v <;> simp [atomsEqual, same]

/-- Lists are equal to themselves if each of their items agrees with itself. -/
theorem equals_list_self (items : List Value) :
    (list items).equals (list items) = items.all fun item =>
      item.agrees item := by
  rw [equals]
  induction items with
  | nil => rw [allAgree, List.all_nil]
  | cons item items ih => rw [allAgree, ih, List.all_cons]

/-- A list with items agrees with what one of them agrees with. -/
theorem agrees_list_iff (hne : items ≠ []) (b : Value) :
    (list items).agrees b = true ↔ ∃ item ∈ items, item.agrees b = true := by
  have hany : ∀ items, anyAgrees items b = items.any fun item =>
      item.agrees b := by
    intro items
    induction items with
    | nil => rw [anyAgrees, List.any_nil]
    | cons item items ih => rw [anyAgrees, ih, List.any_cons]
  rw [agrees, hany, List.isEmpty_eq_false_iff.2 hne, Bool.false_or,
    List.any_eq_true]

/-- A value that is no list and whose identity is none agrees with itself unless
it contains NaN; otherwise the items of its identity decide. -/
theorem agrees_self_of_single (hlist : v.isList = false)
    (hnan : v.nanFree = true) :
    v.agrees v = true ↔
      ∀ items, v.identity? = some (.list items) →
        ∀ item ∈ items, item.agrees item = true := by
  rw [agrees_eq_equals hlist, identityOrSelf]
  cases hid : v.identity? with
  | none => simp [equals_of_single hlist, atomsEqual_self, hnan]
  | some id =>
    rw [Option.getD_some]
    cases hidList : id.isList with
    | false =>
      have hne : ∀ items, id ≠ .list items := by
        rintro items rfl
        cases hidList
      simp [equals_of_single hidList, atomsEqual_self,
        nanFree_of_identity hnan hid, hne]
    | true =>
      cases id with
      | list items => simp [equals_list_self]
      | _ => cases hidList

/-! ## Standing alone -/

/-- The value does not stand for its items in an equality: it is no list with
items, and if its identity is a list, that has only items of this kind. -/
inductive StandsAlone : Value → Prop where
  | empty : StandsAlone (.list [])
  | single {v : Value} (hlist : v.isList = false)
      (hitems : ∀ items, v.identity? = some (.list items) →
        ∀ item ∈ items, item.StandsAlone) :
      StandsAlone v

/-- No list that an equality would open is empty, be it the value itself or one
of the items of a list or of an identity that is a list. -/
inductive Filled : Value → Prop where
  | list {items : List Value} (hne : items ≠ [])
      (hitems : ∀ item ∈ items, item.Filled) :
      Filled (.list items)
  | single {v : Value} (hlist : v.isList = false)
      (hitems : ∀ items, v.identity? = some (.list items) →
        ∀ item ∈ items, item.Filled) :
      Filled v

/-- A value that stands alone agrees with itself, unless it contains NaN. -/
theorem StandsAlone.agrees_self (h : v.StandsAlone) (hnan : v.nanFree = true) :
    v.agrees v = true := by
  induction h with
  | empty => simp [agrees]
  | single hlist hitems ih =>
    refine (agrees_self_of_single hlist hnan).2 fun items hid item hitem => ?_
    exact ih items hid item hitem
      (itemsNanFree_iff.1 (nanFree_of_identity hnan hid) item hitem)

mutual

/-- How deep lists are nested in what the value is compared by. -/
def depth : Value → Nat
  | .list items => itemsDepth items + 1
  | .record ⟨_, fields⟩ => identityDepth fields
  | _ => 0

/-- How deep lists are nested in the value, if it is a list. -/
def listDepth : Value → Nat
  | .list items => itemsDepth items + 1
  | _ => 0

/-- The greatest depth of an item. -/
def itemsDepth : List Value → Nat
  | [] => 0
  | item :: items => max item.depth (itemsDepth items)

/-- How deep lists are nested in the identity among the fields. -/
def identityDepth : List (String × Value) → Nat
  | [] => 0
  | (name, value) :: fields =>
    if name == identityField then value.listDepth else identityDepth fields

end

/-- The depth of an identity is that of the record which it identifies. -/
theorem identityDepth_eq (entity : Option String)
    (fields : List (String × Value)) :
    identityDepth fields =
      ((Record.id? ⟨entity, fields⟩).map listDepth).getD 0 := by
  simp only [Record.id?, Record.get?]
  induction fields with
  | nil => rfl
  | cons field fields ih =>
    obtain ⟨name, value⟩ := field
    rw [identityDepth, List.lookup_cons, BEq.comm (b := name), ih]
    cases hname : name == identityField with
    | false => rfl
    | true => cases value <;> rfl

/-- The depth of a value is that of the list by which it is compared, if it is
one. -/
theorem depth_eq (v : Value) : v.depth = v.identityOrSelf.listDepth := by
  cases v with
  | record r =>
    obtain ⟨entity, fields⟩ := r
    rw [depth, identityDepth_eq entity, identityOrSelf, identity?]
    cases Record.id? ⟨entity, fields⟩ <;> rfl
  | _ => rfl

theorem depth_le_itemsDepth {item : Value} (h : item ∈ items) :
    item.depth ≤ itemsDepth items := by
  induction items with
  | nil => cases h
  | cons first items ih =>
    rw [itemsDepth]
    rcases List.mem_cons.1 h with rfl | h
    · exact Nat.le_max_left _ _
    · exact Nat.le_trans (ih h) (Nat.le_max_right _ _)

/-- Items that agree in pairs with others are nested at least as deep. -/
theorem itemsDepth_le_of_allAgree {as bs : List Value}
    (hdepth : ∀ a ∈ as, ∀ b, a.agrees b = true → b.depth ≤ a.depth)
    (h : allAgree as bs = true) : itemsDepth bs ≤ itemsDepth as := by
  induction as generalizing bs with
  | nil =>
    cases bs with
    | nil => exact Nat.le_refl _
    | cons b bs => simp [allAgree] at h
  | cons a as ih =>
    cases bs with
    | nil => simp [allAgree] at h
    | cons b bs =>
      rw [allAgree, Bool.and_eq_true] at h
      rw [List.forall_mem_cons] at hdepth
      have hfirst := hdepth.1 b h.1
      have hrest := ih hdepth.2 h.2
      rw [itemsDepth, itemsDepth]
      omega

theorem identity?_of_identityOrSelf (hlist : v.isList = false)
    (h : v.identityOrSelf = .list items) :
    v.identity? = some (.list items) := by
  rw [identityOrSelf] at h
  cases hid : v.identity? with
  | none =>
    rw [hid, Option.getD_none] at h
    rw [h] at hlist
    cases hlist
  | some id => rw [← h, hid, Option.getD_some]

/-- A value agrees only with values that are nested no deeper, and a list, which
stands for one of its items then, only with values that are nested less deep. -/
theorem Filled.depth_le_of_agrees (ha : a.Filled) :
    ∀ b, a.agrees b = true →
      b.depth ≤ a.depth ∧ (a.isList = true → b.depth < a.depth) := by
  induction ha with
  | @list items hne hitems ih =>
    intro b h
    obtain ⟨item, hitem, hagrees⟩ := (agrees_list_iff hne b).1 h
    have hle := (ih item hitem b hagrees).1
    have hitems := depth_le_itemsDepth hitem
    rw [depth]
    omega
  | @single v hlist hitems ih =>
    intro b h
    refine ⟨?_, fun hlist' => absurd hlist' (by simp [hlist])⟩
    rw [agrees_eq_equals hlist] at h
    rw [depth_eq, depth_eq]
    cases hb : b.identityOrSelf with
    | list bs =>
      rw [hb] at h
      cases hv : v.identityOrSelf with
      | list items =>
        rw [hv, equals] at h
        have hid := identity?_of_identityOrSelf hlist hv
        have hle := itemsDepth_le_of_allAgree
          (fun a ha b h => (ih items hid a ha b h).1) h
        rw [listDepth, listDepth]
        omega
      | _ =>
        rw [hv] at h
        simp [equals, atomsEqual, same] at h
    | _ => exact Nat.zero_le _

/-- A list in which no list is empty does not agree with itself. -/
theorem Filled.list_agrees_self (h : (Value.list items).Filled) :
    (Value.list items).agrees (.list items) = false := by
  rw [Bool.eq_false_iff]
  intro hagrees
  exact absurd ((h.depth_le_of_agrees _ hagrees).2 rfl) (Nat.lt_irrefl _)

end Value

/-- A value without NaN is equal to itself if it stands alone.  A list with
items is equal to itself exactly if one of its items is equal to the list, and
so never if no list in it is empty. -/
theorem Operator.compare_self (v : Value) (hnan : v.nanFree = true) :
    (v.StandsAlone → Operator.eq.compare v v = .ok true ∧
      Operator.neq.compare v v = .ok false) ∧
      ∀ items, items ≠ [] → v = .list items →
        (Operator.eq.compare v v = .ok true ↔
          ∃ item ∈ items, Operator.eq.compare item v = .ok true) ∧
        (v.Filled →
          Operator.eq.compare v v = .ok false ∧
            Operator.neq.compare v v = .ok true) := by
  simp only [Operator.compare]
  constructor
  · intro halone
    rw [halone.agrees_self hnan]
    exact ⟨rfl, rfl⟩
  · rintro items hne rfl
    refine ⟨?_, fun hfilled => ?_⟩
    · simp only [Except.ok.injEq]
      exact Value.agrees_list_iff hne _
    · rw [hfilled.list_agrees_self]
      exact ⟨rfl, rfl⟩

namespace Catalogue

/-- A volume of a series, identified by the series and its number; it has no
index. -/
def volume : Value :=
  .record ⟨some "volume",
    [("id", .list [.record ⟨some "series", [("id", .string "a")]⟩, .int32 2]),
      ("price", .float64 0.5), ("pages", .list [.int64 1, .int64 2]),
      ("index", .null)]⟩

theorem volume_standsAlone : volume.StandsAlone := by
  refine .single rfl fun items hid item hitem => ?_
  cases hid
  simp only [List.mem_cons, List.not_mem_nil, or_false] at hitem
  rcases hitem with rfl | rfl <;> exact .single rfl fun items hid => nomatch hid

/-- Two numbers. -/
def numbers : Value := .list [.int64 1, .int64 2]

theorem numbers_filled : numbers.Filled := by
  refine .list (by simp) fun item hitem => ?_
  simp only [List.mem_cons, List.not_mem_nil, or_false] at hitem
  rcases hitem with rfl | rfl <;> exact .single rfl fun items hid => nomatch hid

end Catalogue

open Catalogue in
theorem Operator.compare_self_volume :
    volume.nanFree = true ∧ volume.StandsAlone ∧
      Operator.eq.compare volume volume = .ok true ∧
      Operator.neq.compare volume volume = .ok false ∧
      numbers.nanFree = true ∧ numbers.Filled ∧
      Operator.eq.compare numbers numbers = .ok false ∧
      Operator.neq.compare numbers numbers = .ok true := by
  have hvolume : volume.nanFree = true := by decide +kernel
  have hnumbers : numbers.nanFree = true := rfl
  obtain ⟨heq, hneq⟩ := (compare_self volume hvolume).1 volume_standsAlone
  obtain ⟨-, hlist⟩ := (compare_self numbers hnumbers).2 _ (by simp) rfl
  obtain ⟨heq', hneq'⟩ := hlist numbers_filled
  exact ⟨hvolume, volume_standsAlone, heq, hneq, hnumbers, numbers_filled,
    heq', hneq'⟩

open Catalogue in
/-- A list of numbers is not equal to itself. -/
theorem Operator.compare_numbers_ne :
    numbers.nanFree = true ∧ Operator.eq.compare numbers numbers = .ok false ∧
      Operator.neq.compare numbers numbers = .ok true := by
  have hne : numbers.agrees numbers = false := by decide +kernel
  refine ⟨rfl, ?_, ?_⟩ <;> simp [Operator.compare, hne]

/-! ## Both directions and chains -/

namespace Value

variable {a b c : Value}

/-- The value is compared by a scalar that is no double, by null or by a
record. -/
structure Discrete (v : Value) : Prop where
  single : v.isList = false
  identity_single : v.identityOrSelf.isList = false
  identity_exact : ∀ x, v.identityOrSelf ≠ .float64 x

/-- The value with integers in the greater width. -/
def widened : Value → Value
  | .int32 n => .int64 n.toInt64
  | v => v

/-- Where no double is compared, equal values are the same up to the width of
integers. -/
theorem atomsEqual_eq_same (ha : ∀ x, a ≠ .float64 x)
    (hb : ∀ x, b ≠ .float64 x) :
    a.atomsEqual b = a.widened.same b.widened := by
  have hint64 : ∀ n : Int64, (int64 n).atomsEqual b =
      (int64 n).same b.widened := by
    intro n
    cases b with
    | float64 x => exact absurd rfl (hb x)
    | _ => simp [atomsEqual, same, widened]
  cases a with
  | float64 x => exact absurd rfl (ha x)
  | int32 n =>
    rw [int32_atomsEqual]
    exact hint64 n.toInt64
  | int64 n => exact hint64 n
  | _ => cases b <;> simp [atomsEqual, same, widened]

/-- Values agree if what they are compared by is the same up to the width of
integers. -/
theorem Discrete.agrees_eq (ha : a.Discrete) (hb : b.Discrete) :
    a.agrees b = a.identityOrSelf.widened.same b.identityOrSelf.widened := by
  rw [agrees_eq_equals ha.single, equals_of_single ha.identity_single,
    atomsEqual_eq_same ha.identity_exact hb.identity_exact]

/-- Among values that are compared neither as lists nor as doubles, equality
does not depend on the side and carries over from one value to the next. -/
theorem agrees_symm_trans (ha : a.Discrete) (hb : b.Discrete)
    (hc : c.Discrete) :
    a.agrees b = b.agrees a ∧
      (a.agrees b = true → b.agrees c = true → a.agrees c = true) := by
  rw [ha.agrees_eq hb, hb.agrees_eq ha, hb.agrees_eq hc, ha.agrees_eq hc]
  refine ⟨?_, same_trans⟩
  rw [Bool.eq_iff_iff]
  exact ⟨same_symm _, same_symm _⟩

end Value

namespace Catalogue

/-- A user and a member with one number, in integers of different widths. -/
def user : Value :=
  .record ⟨some "user", [("id", .int32 7), ("score", .float64 0.5)]⟩

def member : Value :=
  .record ⟨some "member", [("name", .null), ("id", .int64 7)]⟩

theorem user_discrete : user.Discrete := ⟨rfl, rfl, fun _ h => nomatch h⟩

theorem number_discrete : (Value.int64 7).Discrete :=
  ⟨rfl, rfl, fun _ h => nomatch h⟩

theorem member_discrete : member.Discrete := ⟨rfl, rfl, fun _ h => nomatch h⟩

end Catalogue

open Catalogue in
theorem Value.agrees_symm_trans_user :
    user.Discrete ∧ (Value.int64 7).Discrete ∧ member.Discrete ∧
      user.agrees (.int64 7) = (Value.int64 7).agrees user ∧
      user.agrees (.int64 7) = true ∧ (Value.int64 7).agrees member = true ∧
      user.agrees member = true := by
  obtain ⟨hsymm, htrans⟩ :=
    agrees_symm_trans user_discrete number_discrete member_discrete
  have huser : user.agrees (.int64 7) = true := by decide +kernel
  have hmember : (Value.int64 7).agrees member = true := by decide +kernel
  exact ⟨user_discrete, number_discrete, member_discrete, hsymm, huser, hmember,
    htrans huser hmember⟩

end RowGuard
