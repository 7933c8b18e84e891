/-!
# Lists without repetitions

`List.eraseDups` keeps the first of several equal items, so that items stand in
the order in which they first came.
-/

namespace RowGuard

variable {α : Type} [BEq α] [LawfulBEq α]

theorem nodup_eraseDups (items : List α) : items.eraseDups.Nodup := by
  cases items with
  | nil => simp
  | cons a items =>
    rw [List.eraseDups_cons, List.nodup_cons, List.mem_eraseDups]
    exact ⟨by simp, nodup_eraseDups _⟩
termination_by items.length
decreasing_by exact Nat.lt_succ_of_le (List.length_filter_le _ _)

theorem eraseDups_of_nodup {items : List α} (h : items.Nodup) :
    items.eraseDups = items := by
  induction items with
  | nil => rfl
  | cons a items ih =>
    obtain ⟨ha, h⟩ := List.nodup_cons.1 h
    have hothers : (items.filter fun b => !b == a) = items :=
      List.filter_eq_self.2 fun b hb => by
        simpa using fun hba : b = a => ha (hba ▸ hb)
    rw [List.eraseDups_cons, hothers, ih h]

/-- An item that came before is not repeated. -/
theorem eraseDups_concat_of_mem {items : List α} {a : α} (h : a ∈ items) :
    (items ++ [a]).eraseDups = items.eraseDups := by
  have hnone : [a].removeAll items = [] := by simpa [List.removeAll] using h
  rw [List.eraseDups_append, hnone, List.eraseDups_nil, List.append_nil]

/-- A new item comes last. -/
theorem eraseDups_concat_of_not_mem {items : List α} {a : α} (h : a ∉ items) :
    (items ++ [a]).eraseDups = items.eraseDups ++ [a] := by
  have hone : [a].removeAll items = [a] := by simpa [List.removeAll] using h
  rw [List.eraseDups_append, hone]
  rfl

/-- Repetitions may be erased before some of the items are taken, or after. -/
theorem filter_eraseDups (p : α → Bool) (items : List α) :
    items.eraseDups.filter p = (items.filter p).eraseDups := by
  cases items with
  | nil => rfl
  | cons a items =>
    have ih := filter_eraseDups p (items.filter fun b => !b == a)
    rw [List.eraseDups_cons]
    by_cases ha : p a
    · have hcomm : (items.filter fun b => !b == a).filter p =
          (items.filter p).filter fun b => !b == a := by
        rw [List.filter_filter, List.filter_filter]
        exact List.filter_congr fun b _ => Bool.and_comm ..
      rw [List.filter_cons_of_pos ha, List.filter_cons_of_pos ha,
        List.eraseDups_cons, ih, hcomm]
    · have hsame : (items.filter fun b => !b == a).filter p =
          items.filter p := by
        rw [List.filter_filter]
        refine List.filter_congr fun b _ => ?_
        by_cases hb : b = a
        · simp [hb, ha]
        · simp [hb]
      rw [List.filter_cons_of_neg ha, List.filter_cons_of_neg ha, ih, hsame]
termination_by items.length
decreasing_by exact Nat.lt_succ_of_le (List.length_filter_le _ _)

end RowGuard
