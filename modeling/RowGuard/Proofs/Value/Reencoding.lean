import RowGuard.Value.Json
import RowGuard.Proofs.Json.Members
import RowGuard.Proofs.Json.Number
import RowGuard.Proofs.Value.Equivalence

/-!
# Values through JSON and back

Reading a tree gives a natural value (`Value.Natural`): its doubles are finite,
its fields are in the order of their names, and none has the name that is
reserved for the entity.  Such a value is not changed by writing it and reading
it again (`Value.Natural.ofJson_toJson`), so reading is stable under re-encoding
whatever the tree is.

The tree itself comes back exactly if reading loses nothing of it
(`Json.Exact`): a name of an entity that is no string is lost, and an integer
beyond the signed words becomes a double.  Both are `Value.ofJson_reencoded`.
-/

namespace RowGuard

/-! ## Trees -/

namespace Json

/-- At every depth the members of an object are in the order of their names, as
in a map. -/
inductive Sorted : Json → Prop where
  | null : Sorted .null
  | bool (b : Bool) : Sorted (.bool b)
  | number (n : Number) : Sorted (.number n)
  | string (s : String) : Sorted (.string s)
  | array {items : List Json} (hitems : ∀ item ∈ items, item.Sorted) :
      Sorted (.array items)
  | object {members : List (String × Json)} (hnames : Ascending members)
      (hmembers : ∀ member ∈ members, member.2.Sorted) :
      Sorted (.object members)

/-- At every depth an entity is named by a string and an integer fits into a
signed word. -/
inductive Exact : Json → Prop where
  | null : Exact .null
  | bool (b : Bool) : Exact (.bool b)
  | int {n : Int} {fits : _} (hsigned : n < 0x8000000000000000) :
      Exact (.number (.int n fits))
  | float {x : Float} {finite : _} : Exact (.number (.float x finite))
  | string (s : String) : Exact (.string s)
  | array {items : List Json} (hitems : ∀ item ∈ items, item.Exact) :
      Exact (.array items)
  | object {members : List (String × Json)}
      (hentity : ∀ member ∈ members, member.1 = entityKey →
        ∃ name, member.2 = .string name)
      (hmembers : ∀ member ∈ members, member.2.Exact) : Exact (.object members)

end Json

/-! ## Reading and writing, list by list -/

/-- Entries that come back one by one come back in a list. -/
theorem map_map_cancel {α β : Type} {entries : List α} {f : α → β} {g : β → α}
    (h : ∀ entry ∈ entries, g (f entry) = entry) :
    (entries.map f).map g = entries := by
  rw [List.map_map]
  exact (List.map_congr_left (g := id) h).trans (List.map_id entries)

theorem valuesOfItems_eq (items : List Json) :
    valuesOfItems items = items.map Value.ofJson := by
  induction items with
  | nil => rw [valuesOfItems, List.map_nil]
  | cons item items ih => rw [valuesOfItems, ih, List.map_cons]

theorem jsonItems_eq (items : List Value) :
    jsonItems items = items.map Value.toJson := by
  induction items with
  | nil => rw [jsonItems, List.map_nil]
  | cons item items ih => rw [jsonItems, ih, List.map_cons]

theorem jsonFields_eq (fields : List (String × Value)) :
    jsonFields fields = fields.map fun field => (field.1, field.2.toJson) := by
  induction fields with
  | nil => rw [jsonFields, List.map_nil]
  | cons field fields ih => rw [jsonFields, ih, List.map_cons]

/-- Whether a member names the entity of a record. -/
def namesEntity {α : Type} (member : String × α) : Bool := member.1 == entityKey

/-- The fields of a record are the members that do not name its entity. -/
theorem fieldsOfMembers_eq (members : List (String × Json)) :
    fieldsOfMembers members =
      (members.filter (!namesEntity ·)).map fun member =>
        (member.1, Value.ofJson member.2) := by
  induction members with
  | nil => rw [fieldsOfMembers, List.filter_nil, List.map_nil]
  | cons member members ih =>
    rw [fieldsOfMembers, ih]
    cases hname : namesEntity member with
    | true =>
      rw [List.filter_cons_of_neg (by rw [hname]; decide)]
      exact if_pos hname
    | false =>
      rw [List.filter_cons_of_pos (by rw [hname]; decide), List.map_cons]
      refine if_neg fun hkey => ?_
      rw [show namesEntity member = true from hkey] at hname
      cases hname

/-- The entity of a record is read from the members that name it. -/
theorem entityOfMembers_filter (members : List (String × Json)) :
    entityOfMembers (members.filter namesEntity) = entityOfMembers members := by
  rw [entityOfMembers, entityOfMembers, List.foldl_filter]
  congr 1
  funext entity member
  cases hname : namesEntity member with
  | true => exact if_pos rfl
  | false =>
    have hother : ¬ (member.1 == entityKey) = true := by
      rw [show (member.1 == entityKey) = false from hname]
      decide
    rw [if_neg hother]
    exact if_neg (by decide)

/-- The member that names an entity, if there is one. -/
def entityMembers (entity : Option String) : List (String × Json) :=
  entity.elim [] fun name => [(entityKey, .string name)]

theorem entityOfMembers_entityMembers (entity : Option String) :
    entityOfMembers (entityMembers entity) = entity := by
  cases entity with
  | none => rfl
  | some name => rfl

theorem entityMembers_ascending (entity : Option String) :
    Json.Ascending (entityMembers entity) := by
  cases entity with
  | none => exact .nil
  | some name => exact List.pairwise_singleton _ _

theorem namesEntity_of_mem_entityMembers {entity : Option String}
    {member : String × Json} (h : member ∈ entityMembers entity) :
    ∃ name, member = (entityKey, .string name) := by
  cases entity with
  | none => cases h
  | some name => exact ⟨name, List.mem_singleton.1 h⟩

/-- A record is written as its entity and its fields, in the order of their
names. -/
theorem toJson_record (entity : Option String)
    (fields : List (String × Value)) :
    (Value.record ⟨entity, fields⟩).toJson =
      .object (Json.sortMembers
        (entityMembers entity ++ fields.map fun field =>
          (field.1, field.2.toJson))) := by
  rw [Value.toJson, jsonFields_eq]
  rfl

section

variable {members : List (String × Json)}

/-- Members that stand in order and do not name an entity, together with an
entity: both can be told apart again once they are sorted. -/
theorem sortMembers_entityMembers (entity : Option String)
    (hnames : Json.Ascending members)
    (hkey : ∀ member ∈ members, namesEntity member = false) :
    (Json.sortMembers (entityMembers entity ++ members)).Perm
      (entityMembers entity ++ members) ∧
    (Json.sortMembers (entityMembers entity ++ members)).filter namesEntity =
      entityMembers entity ∧
    (Json.sortMembers (entityMembers entity ++ members)).filter
      (!namesEntity ·) = members := by
  have hentity : ∀ member ∈ entityMembers entity,
      namesEntity member = true := by
    intro member hmem
    obtain ⟨name, rfl⟩ := namesEntity_of_mem_entityMembers hmem
    exact beq_self_eq_true entityKey
  have hnodup : ((entityMembers entity ++ members).map Prod.fst).Nodup := by
    rw [List.map_append]
    refine List.nodup_append.2
      ⟨(entityMembers_ascending entity).nodup, hnames.nodup, ?_⟩
    intro first hfirst second hsecond heq
    obtain ⟨member, hmem, rfl⟩ := List.mem_map.1 hfirst
    obtain ⟨other, hother, rfl⟩ := List.mem_map.1 hsecond
    have hother' := hkey other hother
    rw [namesEntity, ← heq] at hother'
    exact Bool.noConfusion ((hentity member hmem).symm.trans hother')
  have hperm := Json.sortMembers_perm hnodup
  have hsorted := Json.sortMembers_ascending (entityMembers entity ++ members)
  refine ⟨hperm, (hsorted.filter _).eq_of_perm
    (entityMembers_ascending entity) ?_,
    (hsorted.filter _).eq_of_perm hnames ?_⟩
  · refine (hperm.filter _).trans (.of_eq ?_)
    rw [List.filter_append, List.filter_eq_self.2 hentity,
      List.filter_eq_nil_iff.2 fun member hmem => by
    rw [hkey member hmem]; decide,
      List.append_nil]
  · refine (hperm.filter _).trans (.of_eq ?_)
    rw [List.filter_append,
      List.filter_eq_nil_iff.2 fun member hmem => by
    rw [hentity member hmem]; decide,
      List.filter_eq_self.2 fun member hmem => by
    rw [hkey member hmem]; rfl, List.nil_append]

end

/-! ## What is read -/

/-- The form of the values that are read from JSON. -/
inductive Value.Natural : Value → Prop where
  | null : Natural .null
  | bool (b : Bool) : Natural (.bool b)
  | int64 (n : Int64) : Natural (.int64 n)
  | float64 {x : Float} (hfinite : x.isFinite = true) : Natural (.float64 x)
  | string (s : String) : Natural (.string s)
  | list {items : List Value} (hitems : ∀ item ∈ items, item.Natural) :
      Natural (.list items)
  | record {entity : Option String} {fields : List (String × Value)}
      (hnames : Json.Ascending fields)
      (hkey : ∀ field ∈ fields, namesEntity field = false)
      (hfields : ∀ field ∈ fields, field.2.Natural) :
      Natural (.record ⟨entity, fields⟩)

/-- A number is read as a signed word or as a finite double. -/
theorem Number.toValue_natural (n : Number) : n.toValue.Natural := by
  cases n with
  | int n fits =>
    rw [toValue]
    split
    · exact .int64 _
    · exact .float64 (float_ofInt_isFinite (by omega) fits.2)
  | float x finite => exact .float64 finite

theorem Json.Sorted.ofJson_natural {j : Json} (h : j.Sorted) :
    (Value.ofJson j).Natural := by
  induction h with
  | null => rw [Value.ofJson]; exact .null
  | bool b => rw [Value.ofJson]; exact .bool b
  | number n => rw [Value.ofJson]; exact n.toValue_natural
  | string s => rw [Value.ofJson]; exact .string s
  | array hitems ih =>
    rw [Value.ofJson, valuesOfItems_eq]
    refine .list fun item hmem => ?_
    obtain ⟨json, hjson, rfl⟩ := List.mem_map.1 hmem
    exact ih json hjson
  | object hnames hmembers ih =>
    rw [Value.ofJson, fieldsOfMembers_eq]
    refine .record ((Ascending.map_iff _).2 (hnames.filter _)) ?_ ?_ <;>
      intro field hmem
    · obtain ⟨member, hmember, rfl⟩ := List.mem_map.1 hmem
      exact Bool.not_eq_true' _ ▸ (List.mem_filter.1 hmember).2
    · obtain ⟨member, hmember, rfl⟩ := List.mem_map.1 hmem
      exact ih member (List.mem_filter.1 hmember).1

namespace Value.Natural

variable {v : Value}

/-- A natural value contains no NaN. -/
theorem nanFree (h : v.Natural) : v.nanFree = true := by
  induction h with
  | float64 hfinite => rw [Value.nanFree, float_isNaN_of_isFinite hfinite]; rfl
  | list hitems ih => rw [Value.nanFree, itemsNanFree_iff]; exact ih
  | record hnames hkey hfields ih =>
    rw [Value.nanFree, Record.nanFree, fieldsNanFree_iff]
    exact ih
  | _ => simp [Value.nanFree]

/-- The fields of a natural record, written, are in order, and none names an
entity. -/
theorem written_fields {fields : List (String × Value)}
    (hnames : Json.Ascending fields)
    (hkey : ∀ field ∈ fields, namesEntity field = false) :
    Json.Ascending (fields.map fun field => (field.1, field.2.toJson)) ∧
      ∀ member ∈ fields.map (fun field => (field.1, field.2.toJson)),
        namesEntity member = false := by
  refine ⟨(Json.Ascending.map_iff _).2 hnames, fun member hmem => ?_⟩
  obtain ⟨field, hfield, rfl⟩ := List.mem_map.1 hmem
  exact hkey field hfield

/-- A natural value is read from what is written of it. -/
theorem ofJson_toJson (h : v.Natural) : ofJson v.toJson = v := by
  induction h with
  | null => rw [toJson, ofJson]
  | bool b => rw [toJson, ofJson]
  | int64 n =>
    have hsigned : n.toInt < 0x8000000000000000 := n.toInt_lt
    rw [toJson, ofJson, Number.ofInt64, Number.toValue, if_pos hsigned,
      Int64.ofInt_toInt]
  | float64 hfinite =>
    rw [toJson, Number.ofFloat?, dif_pos hfinite, Option.elim_some, ofJson,
      Number.toValue]
  | string s => rw [toJson, ofJson]
  | @list items hitems ih =>
    rw [toJson, ofJson, jsonItems_eq, valuesOfItems_eq, map_map_cancel ih]
  | @record entity fields hnames hkey hfields ih =>
    obtain ⟨hordered, hfree⟩ := written_fields hnames hkey
    obtain ⟨-, hentity, hrest⟩ :=
      sortMembers_entityMembers entity hordered hfree
    have hback : ∀ field ∈ fields, (field.1, ofJson field.2.toJson) = field :=
      fun field hmem => by rw [ih field hmem]
    rw [toJson_record, ofJson, ← entityOfMembers_filter, hentity,
      entityOfMembers_entityMembers, fieldsOfMembers_eq, hrest,
      map_map_cancel hback]

/-- What is written of a natural value loses nothing when it is read. -/
theorem toJson_exact (h : v.Natural) : v.toJson.Exact := by
  induction h with
  | null => rw [toJson]; exact .null
  | bool b => rw [toJson]; exact .bool b
  | int64 n => rw [toJson]; exact .int n.toInt_lt
  | float64 hfinite =>
    rw [toJson, Number.ofFloat?, dif_pos hfinite]
    exact .float
  | string s => rw [toJson]; exact .string s
  | list hitems ih =>
    rw [toJson, jsonItems_eq]
    refine .array fun item hmem => ?_
    obtain ⟨value, hvalue, rfl⟩ := List.mem_map.1 hmem
    exact ih value hvalue
  | @record entity fields hnames hkey hfields ih =>
    obtain ⟨hordered, hfree⟩ := written_fields hnames hkey
    obtain ⟨hperm, -, -⟩ := sortMembers_entityMembers entity hordered hfree
    rw [toJson_record]
    refine .object ?_ ?_ <;> intro member hmem <;>
      rcases List.mem_append.1 (hperm.mem_iff.1 hmem) with hmember | hmember
    · intro _
      obtain ⟨name, rfl⟩ := namesEntity_of_mem_entityMembers hmember
      exact ⟨name, rfl⟩
    · intro hname
      have hnone := hfree member hmember
      rw [namesEntity, hname, beq_self_eq_true] at hnone
      cases hnone
    · obtain ⟨name, rfl⟩ := namesEntity_of_mem_entityMembers hmember
      exact .string name
    · obtain ⟨field, hfield, rfl⟩ := List.mem_map.1 hmember
      exact ih field hfield

end Value.Natural

/-! ## What comes back -/

/-- The members of a map that name an entity, if the name is a string, are those
of the entity that is read. -/
theorem filter_namesEntity {members : List (String × Json)}
    (hnames : Json.Ascending members)
    (hentity : ∀ member ∈ members, member.1 = entityKey →
      ∃ name, member.2 = .string name) :
    entityMembers (entityOfMembers members) = members.filter namesEntity := by
  rw [← entityOfMembers_filter]
  obtain hnone | ⟨value, hone⟩ : members.filter namesEntity = [] ∨
      ∃ value, members.filter namesEntity = [(entityKey, value)] :=
    hnames.filter_name entityKey
  · rw [hnone]
    rfl
  · have hmem : (entityKey, value) ∈ members.filter namesEntity := by
      rw [hone]; exact .head _
    obtain ⟨name, rfl⟩ := hentity _ (List.mem_filter.1 hmem).1 rfl
    rw [hone]
    rfl

/-- A tree of which reading loses nothing comes back. -/
theorem Json.Exact.toJson_ofJson {j : Json} (h : j.Exact) (hsorted : j.Sorted) :
    (Value.ofJson j).toJson = j := by
  induction h with
  | null => rw [Value.ofJson, Value.toJson]
  | bool b => rw [Value.ofJson, Value.toJson]
  | @int n fits hsigned =>
    have hword : (Int64.ofInt n).toInt = n :=
      Int64.toInt_ofInt_of_le fits.1 hsigned
    rw [Value.ofJson, Number.toValue, if_pos hsigned, Value.toJson,
      Number.ofInt64]
    congr
  | @float x finite =>
    rw [Value.ofJson, Number.toValue, Value.toJson, Number.ofFloat?,
      dif_pos finite, Option.elim_some]
  | string s => rw [Value.ofJson, Value.toJson]
  | @array items hitems ih =>
    cases hsorted with
    | array hsorted =>
      rw [Value.ofJson, Value.toJson, valuesOfItems_eq, jsonItems_eq,
        map_map_cancel fun item hmem => ih item hmem (hsorted item hmem)]
  | @object members hentity hmembers ih =>
    cases hsorted with
    | object hnames hsorted =>
      have hback : ∀ member ∈ members.filter (!namesEntity ·),
          (member.1, (Value.ofJson member.2).toJson) =
            member := fun member hmem => by
        have hmember := (List.mem_filter.1 hmem).1
        rw [ih member hmember (hsorted member hmember)]
      rw [Value.ofJson, toJson_record, fieldsOfMembers_eq, map_map_cancel hback,
        filter_namesEntity hnames hentity,
        sortMembers_eq_of_perm hnames (List.filter_append_perm _ _)]

/-- Reading, writing and reading again gives the value that was read first,
which is also the same value for the comparison of values.  The tree comes back
exactly if every entity in it is named by a string and every integer fits into a
signed word. -/
theorem Value.ofJson_reencoded {j : Json} (h : j.Sorted) :
    ofJson (ofJson j).toJson = ofJson j ∧
      (ofJson (ofJson j).toJson).same (ofJson j) = true ∧
      ((ofJson j).toJson = j ↔ j.Exact) := by
  have hback := h.ofJson_natural.ofJson_toJson
  refine ⟨hback, ?_, fun heq => ?_, fun hexact => hexact.toJson_ofJson h⟩
  · rw [hback, same_self]
    exact h.ofJson_natural.nanFree
  · rw [← heq]
    exact h.ofJson_natural.toJson_exact

/-- An object that names an entity and has a list of one pet, which has a
number. -/
def Json.kennel (entity : Json) (number : Number) : Json :=
  .object [(entityKey, entity),
    ("pets",
      .array [.object [(entityKey, .string "Pet"), ("id", .number number)]])]

theorem Json.kennel_sorted {entity : Json} (h : entity.Sorted)
    (number : Number) :
    (kennel entity number).Sorted := by
  have hpet : (Json.object
      [(entityKey, .string "Pet"), ("id", .number number)]).Sorted :=
    .object (List.pairwise_pair.2 (show entityKey < "id" by decide))
      (List.forall_mem_cons.2
        ⟨.string "Pet", List.forall_mem_singleton.2 (.number number)⟩)
  exact .object (List.pairwise_pair.2 (show entityKey < "pets" by decide))
    (List.forall_mem_cons.2 ⟨h, List.forall_mem_singleton.2
      (.array (List.forall_mem_singleton.2 hpet))⟩)

theorem Json.kennel_exact {number : Number} (h : (Json.number number).Exact)
    (name : String) :
    (kennel (.string name) number).Exact := by
  have hpet : (Json.object
      [(entityKey, .string "Pet"), ("id", .number number)]).Exact :=
    .object (List.forall_mem_cons.2 ⟨fun _ => ⟨"Pet", rfl⟩,
        List.forall_mem_singleton.2 fun hname =>
          absurd hname (show "id" ≠ entityKey by decide)⟩)
      (List.forall_mem_cons.2 ⟨.string "Pet", List.forall_mem_singleton.2 h⟩)
  exact .object (List.forall_mem_cons.2 ⟨fun _ => ⟨name, rfl⟩,
      List.forall_mem_singleton.2 fun hname =>
        absurd hname (show "pets" ≠ entityKey by decide)⟩)
    (List.forall_mem_cons.2 ⟨.string name, List.forall_mem_singleton.2
      (.array (List.forall_mem_singleton.2 hpet))⟩)

/-- An entity that is a number and the number of a pet beyond the signed words
are both lost, and the tree does not come back; what is read of it is stable
nevertheless.  Otherwise it does. -/
theorem Value.ofJson_reencoded_kennel :
    (let lossy := Json.kennel (.number (.ofInt64 7))
      (.ofUInt64 18446744073709551615)
     ofJson (ofJson lossy).toJson = ofJson lossy ∧
       (ofJson lossy).toJson ≠ lossy) ∧
    (let exact := Json.kennel (.string "Kennel") (.ofInt64 (-3))
     (ofJson exact).toJson = exact) := by
  refine ⟨?_, ?_⟩
  · obtain ⟨hstable, -, hback⟩ := ofJson_reencoded
      (Json.kennel_sorted (.number (.ofInt64 7))
        (.ofUInt64 18446744073709551615))
    refine ⟨hstable, fun heq => ?_⟩
    cases hback.1 heq with
    | object hentity hmembers =>
      obtain ⟨name, hname⟩ := hentity _ (.head _) rfl
      cases hname
  · exact (ofJson_reencoded
      (Json.kennel_sorted (.string "Kennel") (.ofInt64 (-3)))).2.2.2
      (Json.kennel_exact (.int (by decide)) "Kennel")

end RowGuard
