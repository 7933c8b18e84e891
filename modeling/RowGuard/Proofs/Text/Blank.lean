import Mathlib.Data.List.DropRight
import RowGuard.Text.Blank

/-!
# Trimmed text and its segments

`segments` is the splitting of a list at a separator that the library has, so
its lemmas about joining apply (`segments_eq_splitOn`).  `trim` takes characters
from both ends only and leaves nothing to trim (`trim_trim`).
-/

namespace RowGuard.Text

variable {c : Char} {cs : List Char}

/-! ## Segments -/

theorem segments_eq_splitOn (separator : Char) (cs : List Char) :
    segments separator cs = cs.splitOn separator := by
  induction cs with
  | nil => rw [segments, List.splitOn_nil]
  | cons c cs ih =>
    rw [segments, List.splitOn_cons_eq_if_modifyHead, ← ih]
    by_cases h : c = separator
    · rw [if_pos h, if_pos (beq_iff_eq.2 h)]
    · rw [if_neg h, if_neg (mt beq_iff_eq.1 h)]
      cases hpieces : segments separator cs with
      | nil => exact absurd hpieces (segments_ne_nil separator cs)
      | cons piece pieces => rfl

/-- No segment has a separator in it. -/
theorem notMem_of_mem_splitOn {separator : Char} {segment : List Char}
    (h : segment ∈ cs.splitOn separator) : separator ∉ segment := by
  induction cs generalizing segment with
  | nil =>
    rw [List.splitOn_nil, List.mem_singleton] at h
    rw [h]
    exact List.not_mem_nil
  | cons c cs ih =>
    rw [List.splitOn_cons_eq_if_modifyHead] at h
    split at h
    · rcases List.mem_cons.1 h with rfl | hrest
      · exact List.not_mem_nil
      · exact ih hrest
    · next hc =>
      cases hpieces : cs.splitOn separator with
      | nil => exact absurd hpieces (List.splitOn_ne_nil separator cs)
      | cons piece pieces =>
        rw [hpieces, List.modifyHead_cons] at h
        rcases List.mem_cons.1 h with rfl | hrest
        · intro hmem
          rcases List.mem_cons.1 hmem with rfl | hpiece
          · exact hc (beq_self_eq_true _)
          · exact ih (hpieces ▸ List.mem_cons_self ..) hpiece
        · exact ih (hpieces ▸ List.mem_cons_of_mem _ hrest)

/-! ## Trimming -/

theorem trim_eq (cs : List Char) :
    trim cs = (cs.dropWhile isBlank).rdropWhile isBlank := rfl

theorem mem_of_mem_trim (h : c ∈ trim cs) : c ∈ cs := by
  rw [trim_eq] at h
  exact (List.dropWhile_sublist isBlank).subset
    ((List.rdropWhile_prefix isBlank _).subset h)

/-- What starts with no blank still starts with none when blanks are taken from
its end. -/
theorem dropWhile_trim (cs : List Char) :
    (trim cs).dropWhile isBlank = trim cs := by
  obtain ⟨taken, hsplit⟩ :=
    List.rdropWhile_prefix isBlank (cs.dropWhile isBlank)
  rw [← trim_eq] at hsplit
  cases htrim : trim cs with
  | nil => rfl
  | cons c rest =>
    have hhead : (cs.dropWhile isBlank).head? = some c := by
      rw [← hsplit, htrim]
      rfl
    have hblank := List.head?_dropWhile_not isBlank cs
    rw [hhead] at hblank
    exact List.dropWhile_cons_of_neg (Bool.eq_false_iff.1 hblank)

/-- Trimmed text has nothing to trim. -/
theorem trim_trim (cs : List Char) : trim (trim cs) = trim cs := by
  rw [trim_eq (trim cs), dropWhile_trim, trim_eq, List.rdropWhile_idempotent]

end RowGuard.Text
