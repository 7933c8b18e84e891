import RowGuard.Json.Document
import RowGuard.Proofs.Value.Reencoding

/-!
# Trees whatever the order of members

A writer puts the members of an object into the order in which it declares them,
and a map keeps them sorted by name (`Json.inOrder`).  Both are arrangements
(`Json.Arranges`): they change nothing but the order of members.

Readers of structures look members up by name, so they read every arrangement
alike (`Json.Arranges.fields?_eq`); a tagged case has a single member and stays
as it is (`Json.Arranges.single`).
-/

namespace RowGuard

namespace Json

mutual

/-- The tree as maps keep it: the members of every object sorted by name, and of
several with one name the last. -/
def inOrder : Json → Json
  | .null => .null
  | .bool b => .bool b
  | .number n => .number n
  | .string s => .string s
  | .array items => .array (itemsInOrder items)
  | .object members => .object (sortMembers (membersInOrder members))

/-- The items as maps keep them. -/
def itemsInOrder : List Json → List Json
  | [] => []
  | item :: items => item.inOrder :: itemsInOrder items

/-- The values of the members as maps keep them, in the order written. -/
def membersInOrder : List (String × Json) → List (String × Json)
  | [] => []
  | (name, value) :: members => (name, value.inOrder) :: membersInOrder members

end

theorem itemsInOrder_eq (items : List Json) :
    itemsInOrder items = items.map inOrder := by
  induction items with
  | nil => rw [itemsInOrder, List.map_nil]
  | cons item items ih => rw [itemsInOrder, ih, List.map_cons]

theorem membersInOrder_eq (members : List (String × Json)) :
    membersInOrder members = members.map fun member =>
      (member.1, member.2.inOrder) := by
  induction members with
  | nil => rw [membersInOrder, List.map_nil]
  | cons member members ih => rw [membersInOrder, ih, List.map_cons]

mutual

/-- A tree that is written as it stands denotes itself, as maps keep it. -/
theorem toJson?_ofJson (j : Json) :
    (Document.ofJson j).toJson? = some j.inOrder := by
  cases j with
  | array items =>
    simp [Document.ofJson, Document.toJson?, inOrder,
      itemsToJson?_ofItems items]
  | object members =>
    simp [Document.ofJson, Document.toJson?, inOrder,
      membersToJson?_ofMembers members]
  | _ => simp [Document.ofJson, Document.toJson?, inOrder]

theorem itemsToJson?_ofItems (items : List Json) :
    Document.itemsToJson? (Document.ofItems items) =
      some (itemsInOrder items) := by
  cases items with
  | nil => simp [Document.ofItems, Document.itemsToJson?, itemsInOrder]
  | cons item items =>
    simp [Document.ofItems, Document.itemsToJson?, itemsInOrder,
      toJson?_ofJson item, itemsToJson?_ofItems items]

theorem membersToJson?_ofMembers (members : List (String × Json)) :
    Document.membersToJson? (Document.ofMembers members) =
      some (membersInOrder members) := by
  match members with
  | [] => simp [Document.ofMembers, Document.membersToJson?, membersInOrder]
  | (name, value) :: members =>
    simp [Document.ofMembers, Document.membersToJson?, membersInOrder,
      toJson?_ofJson value, membersToJson?_ofMembers members]

end

/-- A tree whose members are sorted already is the one that maps keep. -/
theorem Sorted.inOrder_eq {j : Json} (h : j.Sorted) : j.inOrder = j := by
  induction h with
  | array hitems ih =>
    rw [inOrder, itemsInOrder_eq, List.map_congr_left (g := id) ih, List.map_id]
  | @object members hnames hmembers ih =>
    have hsame : ∀ member ∈ members, (member.1, member.2.inOrder) = member :=
      fun member hmem => by rw [ih member hmem]
    rw [inOrder, membersInOrder_eq, List.map_congr_left (g := id) hsame,
      List.map_id, sortMembers_eq_of_perm hnames (.refl _)]
  | _ => rw [inOrder]

/-- What is found among sorted members is one of the members. -/
theorem mem_of_mem_sortMembers {members : List (String × Json)}
    {member : String × Json} (h : member ∈ sortMembers members) :
    member ∈ members := by
  have hfold : ∀ sorted : List (String × Json),
      member ∈ members.foldl (fun sorted m => insertMember m.1 m.2 sorted)
        sorted →
        member ∈ sorted ∨ member ∈ members := by
    clear h
    induction members with
    | nil => exact fun _ hmem => .inl hmem
    | cons first rest ih =>
      intro sorted hmem
      rcases ih _ hmem with hsorted | hrest
      · rcases mem_insertMember hsorted with rfl | hold
        · exact .inr (.head _)
        · exact .inl hold
      · exact .inr (.tail _ hrest)
  exact (hfold [] h).resolve_left List.not_mem_nil

mutual

theorem inOrder_sorted (j : Json) : j.inOrder.Sorted := by
  cases j with
  | null => rw [inOrder]; exact .null
  | bool b => rw [inOrder]; exact .bool b
  | number n => rw [inOrder]; exact .number n
  | string s => rw [inOrder]; exact .string s
  | array items =>
    rw [inOrder]
    exact .array (itemsInOrder_sorted items)
  | object members =>
    rw [inOrder]
    exact .object (sortMembers_ascending _) fun member hmem =>
      membersInOrder_sorted members member (mem_of_mem_sortMembers hmem)

theorem itemsInOrder_sorted (items : List Json) :
    ∀ item ∈ itemsInOrder items, item.Sorted := by
  cases items with
  | nil => rw [itemsInOrder]; exact fun _ hmem => nomatch hmem
  | cons item items =>
    rw [itemsInOrder]
    exact List.forall_mem_cons.2
      ⟨inOrder_sorted item, itemsInOrder_sorted items⟩

theorem membersInOrder_sorted (members : List (String × Json)) :
    ∀ member ∈ membersInOrder members, member.2.Sorted := by
  match members with
  | [] => rw [membersInOrder]; exact fun _ hmem => nomatch hmem
  | (name, value) :: members =>
    rw [membersInOrder]
    exact List.forall_mem_cons.2
      ⟨inOrder_sorted value, membersInOrder_sorted members⟩

end

/-! ## Members by name -/

section

variable {α β : Type} {members others : List (String × α)}

/-- Distinct names are found alike in whatever order they stand. -/
theorem lookup_perm (hperm : members.Perm others)
    (h : (members.map Prod.fst).Nodup) (name : String) :
    members.lookup name = others.lookup name := by
  induction hperm with
  | nil => rfl
  | cons member _ ih =>
    rw [List.lookup_cons, List.lookup_cons, ih (List.nodup_cons.1 h).2]
  | swap first second rest =>
    have hne : second.1 ≠ first.1 := fun heq =>
      (List.nodup_cons.1 h).1 (heq ▸ List.mem_cons_self ..)
    rw [List.lookup_cons, List.lookup_cons, List.lookup_cons, List.lookup_cons]
    by_cases hsecond : name == second.1
    · have hfirst : ¬ (name == first.1) = true := fun hfirst =>
        hne ((beq_iff_eq.1 hsecond).symm.trans (beq_iff_eq.1 hfirst))
      simp only [hsecond, hfirst]
    · simp only [hsecond]
  | trans hfirst _ ih ih' =>
    exact (ih h).trans (ih' ((hfirst.map Prod.fst).nodup_iff.1 h))

theorem lookup_map_snd (f : α → β) (name : String) :
    (members.map fun member => (member.1, f member.2)).lookup name =
      (members.lookup name).map f := by
  induction members with
  | nil => rfl
  | cons member rest ih =>
    rw [List.map_cons, List.lookup_cons, List.lookup_cons, ih]
    split <;> rfl

end

theorem ofMembers_eq (members : List (String × Json)) :
    Document.ofMembers members = members.map fun member =>
      (member.1, .ofJson member.2) := by
  induction members with
  | nil => rw [Document.ofMembers, List.map_nil]
  | cons member members ih => rw [Document.ofMembers, ih, List.map_cons]

/-- Of members with distinct names, the one of a given name is the one that is
looked up. -/
theorem single?_eq_lookup {members : List (String × Document)}
    (h : (members.map Prod.fst).Nodup) (name : String) :
    Document.single? members name = some (members.lookup name) := by
  induction members with
  | nil => rfl
  | cons member rest ih =>
    obtain ⟨hfresh, hrest⟩ := List.nodup_cons.1 h
    rw [Document.single?, List.lookup_cons]
    by_cases hname : member.1 = name
    · have hnone : rest.filter (·.1 == name) = [] := by
        refine List.filter_eq_nil_iff.2 fun other hother hsame => hfresh ?_
        rw [hname, ← beq_iff_eq.1 hsame]
        exact List.mem_map_of_mem hother
      have hone : (member :: rest).filter (·.1 == name) = [member] := by
        rw [List.filter_cons, if_pos (beq_iff_eq.2 hname), hnone]
      rw [hone, beq_iff_eq.2 hname.symm]
    · have hskip : (member :: rest).filter (·.1 == name) =
          rest.filter (·.1 == name) := by
        rw [List.filter_cons, if_neg (mt beq_iff_eq.1 hname)]
      rw [hskip, beq_eq_false_iff_ne.2 (Ne.symm hname)]
      exact ih hrest

/-! ## Arrangements -/

/-- A way to put the members of objects into some order, at every depth of a
tree. -/
structure Arranges (f : Json → Json) : Prop where
  string (s : String) : f (.string s) = .string s
  array (items : List Json) : f (.array items) = .array (items.map f)
  object {members : List (String × Json)} (h : (members.map Prod.fst).Nodup) :
    ∃ arranged, f (.object members) = .object arranged ∧
      arranged.Perm (members.map fun member => (member.1, f member.2))
  inOrder_eq (j : Json) : (f j).inOrder = j.inOrder

/-- A tree as it is written. -/
theorem arranges_id : Arranges id where
  string _ := rfl
  array items := by rw [List.map_id]; rfl
  object {members} _ := ⟨members, rfl, .of_eq (List.map_id members).symm⟩
  inOrder_eq _ := rfl

/-- A tree as maps keep it. -/
theorem arranges_inOrder : Arranges inOrder where
  string s := by rw [inOrder]
  array items := by rw [inOrder, itemsInOrder_eq]
  object {members} h := by
    refine ⟨_, by rw [inOrder, membersInOrder_eq], sortMembers_perm ?_⟩
    rw [List.map_map]
    exact h
  inOrder_eq j := (inOrder_sorted j).inOrder_eq

namespace Arranges

variable {f : Json → Json}

/-- An object of one member has one arrangement. -/
theorem single (hf : Arranges f) (name : String) (j : Json) :
    f (.object [(name, j)]) = .object [(name, f j)] := by
  have hnodup : ([(name, j)].map Prod.fst).Nodup := List.nodup_singleton name
  obtain ⟨arranged, hobject, hperm⟩ := hf.object hnodup
  rw [hobject, List.perm_singleton.1 hperm]

/-- The fields of a structure are found by name in every arrangement. -/
theorem fields?_eq (hf : Arranges f) (members : List (String × Json))
    (h : (members.map Prod.fst).Nodup) (names : List String) :
    (Document.ofJson (f (.object members))).fields? names =
      some (names.map fun name => (members.lookup name).map fun j => .ofJson
        (f j)) := by
  obtain ⟨arranged, hobject, hperm⟩ := hf.object h
  have hnodup : (arranged.map Prod.fst).Nodup := by
    refine ((hperm.map Prod.fst).nodup_iff).2 ?_
    rw [List.map_map]
    exact h
  have hsingle : Document.single? (Document.ofMembers arranged) =
      fun name => some ((members.lookup name).map fun j => .ofJson (f j)) := by
    funext name
    rw [single?_eq_lookup, ofMembers_eq, lookup_map_snd,
      lookup_perm hperm hnodup, lookup_map_snd, Option.map_map]
    · rfl
    · rw [ofMembers_eq, List.map_map]
      exact hnodup
  rw [hobject, Document.ofJson, Document.fields?, hsingle]
  exact List.mapM_pure

end Arranges

end Json

end RowGuard
