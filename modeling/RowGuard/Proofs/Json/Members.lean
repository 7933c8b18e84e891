import RowGuard.Json.Basic

/-!
# Members in the order of their names

An object keeps its members with strictly increasing names (`Json.Ascending`).
Inserting a member keeps this form, so members can be sorted by inserting them
one after the other.  There is one list of this form with given members
(`Json.Ascending.eq_of_perm`), and what has the form is therefore not changed by
sorting it.
-/

namespace RowGuard.Json

variable {α β : Type} {name : String} {value : α}
  {members others : List (String × α)}

/-- The names of the members are strictly increasing. -/
def Ascending (members : List (String × α)) : Prop :=
  members.Pairwise fun member later => member.1 < later.1

namespace Ascending

theorem filter (h : Ascending members) (p : String × α → Bool) :
    Ascending (members.filter p) :=
  List.Pairwise.filter p h

/-- Changing the values changes nothing about the names. -/
theorem map_iff (f : α → β) :
    Ascending (members.map fun member => (member.1, f member.2)) ↔
      Ascending members := by
  rw [Ascending, List.pairwise_map]
  rfl

theorem nodup (h : Ascending members) : (members.map Prod.fst).Nodup := by
  refine List.pairwise_map.2 (h.imp fun hlt heq => ?_)
  rw [heq] at hlt
  exact String.lt_irrefl _ hlt

/-- The same members in increasing order are the same list. -/
theorem eq_of_perm (h : Ascending members) (h' : Ascending others)
    (hperm : members.Perm others) :
    members = others :=
  hperm.eq_of_pairwise
    (fun _ _ _ _ hlt hgt => absurd hgt (String.lt_asymm hlt)) h h'

/-- At most one member has a given name. -/
theorem filter_name (h : Ascending members) (name : String) :
    members.filter (·.1 == name) = [] ∨
      ∃ value, members.filter (·.1 == name) = [(name, value)] := by
  have hnamed : ∀ member ∈ members.filter (·.1 == name),
      member.1 = name := fun member hmem =>
    beq_iff_eq.1 (List.mem_filter.1 hmem).2
  have hfilter := h.filter (·.1 == name)
  cases hfound : members.filter (·.1 == name) with
  | nil => exact .inl rfl
  | cons first rest =>
    rw [hfound] at hnamed hfilter
    have hfirst := hnamed first (.head _)
    cases rest with
    | nil => exact .inr ⟨first.2, by rw [← hfirst]⟩
    | cons second rest =>
      have hlt := (List.pairwise_cons.1 hfilter).1 second (.head _)
      rw [hfirst, hnamed second (.tail _ (.head _))] at hlt
      exact absurd hlt (String.lt_irrefl _)

end Ascending

/-! ## Inserting a member -/

theorem mem_insertMember {member : String × α}
    (h : member ∈ insertMember name value members) :
    member = (name, value) ∨ member ∈ members := by
  induction members with
  | nil => exact .inl (List.mem_singleton.1 h)
  | cons first rest ih =>
    rw [insertMember] at h
    split at h
    · exact List.mem_cons.1 h
    · split at h
      · exact (List.mem_cons.1 h).imp_right fun hrest => .tail _ hrest
      · rcases List.mem_cons.1 h with rfl | hrest
        · exact .inr (.head _)
        · exact (ih hrest).imp_right fun hmem => .tail _ hmem

theorem insertMember_ascending (name : String) (value : α)
    (h : Ascending members) :
    Ascending (insertMember name value members) := by
  induction members with
  | nil => exact List.pairwise_singleton _ _
  | cons first rest ih =>
    obtain ⟨hfirst, hrest⟩ := List.pairwise_cons.1 h
    rw [insertMember]
    split
    · next hbefore =>
      refine List.pairwise_cons.2 ⟨fun member hmem => ?_, h⟩
      rcases List.mem_cons.1 hmem with rfl | hmem
      · exact hbefore
      · exact String.lt_trans hbefore (hfirst member hmem)
    · next hbefore =>
      split
      · next hname =>
        subst hname
        exact List.pairwise_cons.2 ⟨hfirst, hrest⟩
      · next hname =>
        refine List.pairwise_cons.2 ⟨fun member hmem => ?_, ih hrest⟩
        rcases mem_insertMember hmem with rfl | hmem
        · rcases Std.lt_trichotomy first.1 name with hlt | heq | hgt
          · exact hlt
          · exact absurd heq.symm hname
          · exact absurd hgt hbefore
        · exact hfirst member hmem

/-- A member with a new name is added to the others. -/
theorem insertMember_perm (value : α) (h : name ∉ members.map Prod.fst) :
    (insertMember name value members).Perm ((name, value) :: members) := by
  induction members with
  | nil => exact .refl _
  | cons first rest ih =>
    rw [List.map_cons, List.mem_cons, not_or] at h
    rw [insertMember]
    split
    · exact .refl _
    · rw [if_neg h.1]
      exact ((ih h.2).cons first).trans (.swap _ _ _)

/-! ## Sorting -/

theorem sortMembers_ascending (members : List (String × α)) :
    Ascending (sortMembers members) := by
  have hfold : ∀ sorted : List (String × α), Ascending sorted →
      Ascending (members.foldl
        (fun sorted member => insertMember member.1 member.2 sorted)
        sorted) := by
    induction members with
    | nil => exact fun _ h => h
    | cons first rest ih => exact fun _ h => ih _ (insertMember_ascending _ _ h)
  exact hfold [] .nil

/-- Members with distinct names all stay. -/
theorem sortMembers_perm (h : (members.map Prod.fst).Nodup) :
    (sortMembers members).Perm members := by
  have hfold : ∀ sorted : List (String × α),
      ((sorted ++ members).map Prod.fst).Nodup →
      (members.foldl
        (fun sorted member => insertMember member.1 member.2 sorted)
        sorted).Perm (sorted ++ members) := by
    clear h
    induction members with
    | nil =>
      intro sorted _
      rw [List.append_nil]
      exact .refl _
    | cons first rest ih =>
      intro sorted h
      have hperm : ((first :: sorted) ++ rest).Perm (sorted ++ first :: rest) :=
        List.perm_middle.symm
      have hnodup := (hperm.map Prod.fst).nodup_iff.2 h
      have hinsert : (insertMember first.1 first.2 sorted).Perm
          (first :: sorted) := by
        refine insertMember_perm first.2 fun hmem => ?_
        rw [List.cons_append, List.map_cons, List.map_append] at hnodup
        exact (List.nodup_cons.1 hnodup).1 (List.mem_append_left _ hmem)
      have hinserted := hinsert.append_right rest
      rw [List.foldl_cons]
      exact (ih _ (((hinserted.map Prod.fst).nodup_iff).2 hnodup)).trans
        (hinserted.trans hperm)
  exact hfold [] h

/-- Members are sorted to the list of them that is in order. -/
theorem sortMembers_eq_of_perm (h : Ascending others)
    (hperm : members.Perm others) :
    sortMembers members = others := by
  have hnodup := (hperm.map Prod.fst).nodup_iff.2 h.nodup
  exact (sortMembers_ascending members).eq_of_perm h
    ((sortMembers_perm hnodup).trans hperm)

end RowGuard.Json
