import RowGuard.Path.Dotted
import RowGuard.Proofs.Text.Blank

/-!
# Dotted paths are read exactly and written as they are read

`Step.Dotted` are the steps that a segment can stand for.  A text is read as a
path exactly if the texts of the steps are its segments, trimmed
(`Path.parse_eq_ok_iff`).  Both which texts are read and what is written of them
follow from that (`Path.parse_segments`).
-/

namespace RowGuard

open Text

/-! ## Steps and segments -/

/-- The steps that a segment stands for: a wildcard, or a field without an alias
whose name is not empty, has no blank at its ends, no dot in it, and is not the
wildcard. -/
inductive Step.Dotted : Step → Prop where
  | wildcard : Dotted .wildcard
  | plain {name : String} (hne : name ≠ "")
      (htrim : trim name.toList = name.toList) (hdot : '.' ∉ name.toList)
      (htoken : name ≠ wildcardToken) : Dotted (.plain name)

namespace Step.Dotted

variable {step : Step}

theorem trim_display (h : step.Dotted) :
    trim step.display.toList = step.display.toList := by
  cases h with
  | wildcard => decide
  | plain hne htrim hdot htoken => exact htrim

theorem notMem_display (h : step.Dotted) : '.' ∉ step.display.toList := by
  cases h with
  | wildcard => decide
  | plain hne htrim hdot htoken => exact hdot

theorem display_ne_nil (h : step.Dotted) : step.display.toList ≠ [] := by
  cases h with
  | wildcard => decide
  | plain hne htrim hdot htoken => exact mt String.toList_eq_nil_iff.1 hne

end Step.Dotted

/-- A trimmed segment stands for the step whose text it is. -/
theorem Step.ofSegment?_eq_some_iff {segment : List Char} {step : Step}
    (htrim : trim segment = segment) (hdot : '.' ∉ segment) :
    ofSegment? segment = some step ↔
      step.Dotted ∧ step.display.toList = segment := by
  constructor
  · intro h
    unfold ofSegment? at h
    split at h
    · cases h
    · next hne =>
      split at h
      · next htoken =>
        obtain rfl := Option.some.inj h
        exact ⟨.wildcard, htoken.symm⟩
      · next htoken =>
        obtain rfl := Option.some.inj h
        have hlist : (String.ofList segment).toList = segment :=
          String.toList_ofList
        refine ⟨.plain ?_ ?_ ?_ ?_, hlist⟩
        · intro hempty
          rw [hempty] at hlist
          exact hne (by rw [← hlist]; rfl)
        · rw [hlist, htrim]
        · rw [hlist]
          exact hdot
        · intro htext
          rw [htext] at hlist
          exact htoken hlist.symm
  · rintro ⟨hstep, rfl⟩
    have hne := hstep.display_ne_nil
    unfold ofSegment?
    rw [if_neg (by rw [List.isEmpty_iff]; exact hne)]
    cases hstep with
    | wildcard => exact if_pos rfl
    | @plain name _ _ _ htoken =>
      have hother : ¬ (plain name).display.toList =
          wildcardToken.toList := fun heq =>
        htoken (String.toList_inj.1 heq)
      rw [if_neg hother]
      exact congrArg some (congrArg plain String.ofList_toList)

/-! ## Paths and texts -/

theorem displaySteps_eq (steps : List Step) :
    displaySteps steps = steps.map Step.display := by
  induction steps with
  | nil => rw [displaySteps, List.map_nil]
  | cons step steps ih => rw [displaySteps, ih, List.map_cons]

namespace Path

/-- The text of a path has its steps between dots. -/
theorem toList_display (p : Path) :
    p.display.toList = ['.'].intercalate
      (p.map fun step => step.display.toList) := by
  rw [display, displaySteps_eq, String.toList_intercalate, List.map_map]
  rfl

/-- The segments of a text, trimmed; the empty text has none. -/
def pieces (dotted : String) : List (List Char) :=
  if dotted = "" then [] else (dotted.toList.splitOn '.').map trim

/-- Segments are read one by one. -/
theorem mapM_ofSegment?_eq_some_iff {segments : List (List Char)} {p : Path}
    (htrim : ∀ segment ∈ segments, trim segment = segment)
    (hdot : ∀ segment ∈ segments, '.' ∉ segment) :
    segments.mapM Step.ofSegment? = some p ↔
      (∀ step ∈ p, step.Dotted) ∧
        p.map (fun step => step.display.toList) = segments := by
  induction segments generalizing p with
  | nil =>
    rw [List.mapM_nil]
    constructor
    · intro h
      obtain rfl := Option.some.inj h
      exact ⟨List.forall_mem_nil _, rfl⟩
    · rintro ⟨-, hnone⟩
      rw [List.map_eq_nil_iff.1 hnone]
      rfl
  | cons segment segments ih =>
    obtain ⟨htrim₁, htrim⟩ := List.forall_mem_cons.1 htrim
    obtain ⟨hdot₁, hdot⟩ := List.forall_mem_cons.1 hdot
    have hfirst (step : Step) : Step.ofSegment? segment = some step ↔
        step.Dotted ∧ step.display.toList = segment :=
      Step.ofSegment?_eq_some_iff htrim₁ hdot₁
    rw [List.mapM_cons]
    constructor
    · intro h
      obtain ⟨step, hstep, h⟩ := Option.bind_eq_some_iff.1 h
      obtain ⟨steps, hsteps, h⟩ := Option.bind_eq_some_iff.1 h
      obtain rfl := Option.some.inj h
      obtain ⟨hdotted, htext⟩ := (hfirst step).1 hstep
      obtain ⟨hall, htexts⟩ := (ih htrim hdot).1 hsteps
      exact ⟨List.forall_mem_cons.2 ⟨hdotted, hall⟩,
        by rw [List.map_cons, htext, htexts]⟩
    · rintro ⟨hall, htexts⟩
      obtain ⟨step, steps, rfl, htext, htexts⟩ := List.map_eq_cons_iff.1 htexts
      obtain ⟨hdotted, hall⟩ := List.forall_mem_cons.1 hall
      rw [(hfirst step).2 ⟨hdotted, htext⟩, (ih htrim hdot).2 ⟨hall, htexts⟩]
      rfl

theorem trim_of_mem_pieces {dotted : String} {piece : List Char}
    (h : piece ∈ pieces dotted) :
    trim piece = piece ∧ '.' ∉ piece := by
  unfold pieces at h
  split at h
  · cases h
  · obtain ⟨segment, hsegment, rfl⟩ := List.mem_map.1 h
    refine ⟨trim_trim segment, fun hmem => ?_⟩
    exact notMem_of_mem_splitOn hsegment (mem_of_mem_trim hmem)

/-- A text is read as the path whose steps have its pieces as their texts. -/
theorem parse_eq_ok_iff {dotted : String} {p : Path} :
    parse dotted = .ok p ↔
      (∀ step ∈ p, step.Dotted) ∧
        p.map (fun step => step.display.toList) = pieces dotted := by
  rw [← mapM_ofSegment?_eq_some_iff (fun piece h => (trim_of_mem_pieces h).1)
    (fun piece h => (trim_of_mem_pieces h).2)]
  unfold parse pieces
  by_cases hempty : dotted = ""
  · rw [if_pos (by rw [hempty]; rfl), if_pos hempty, List.mapM_nil]
    exact ⟨fun h => congrArg some (Except.ok.inj h),
      fun h => congrArg _ (Option.some.inj h)⟩
  · rw [if_neg (mt String.isEmpty_iff.1 hempty), if_neg hempty, List.mapM_map,
      segments_eq_splitOn]
    cases (dotted.toList.splitOn '.').mapM (Step.ofSegment? ∘ trim) with
    | none =>
      constructor <;> intro h <;> cases h
    | some steps =>
      exact ⟨fun h => congrArg some (Except.ok.inj h),
        fun h => congrArg _ (Option.some.inj h)⟩

/-- Segments that are not empty are read. -/
theorem exists_mapM_ofSegment? {segments : List (List Char)}
    (hne : ∀ segment ∈ segments, segment ≠ []) :
    ∃ p : Path, segments.mapM Step.ofSegment? = some p := by
  induction segments with
  | nil => exact ⟨[], rfl⟩
  | cons segment segments ih =>
    obtain ⟨hfirst, hrest⟩ := List.forall_mem_cons.1 hne
    obtain ⟨steps, hsteps⟩ := ih hrest
    have hstep : ∃ step, Step.ofSegment? segment = some step := by
      unfold Step.ofSegment?
      rw [if_neg (mt List.isEmpty_iff.1 hfirst)]
      by_cases htoken : segment = wildcardToken.toList
      · exact ⟨.wildcard, if_pos htoken⟩
      · exact ⟨_, if_neg htoken⟩
    obtain ⟨step, hstep⟩ := hstep
    refine ⟨step :: steps, ?_⟩
    rw [List.mapM_cons, hstep, hsteps]
    rfl

/-- The pieces of the text of a dotted path are the texts of its steps. -/
theorem pieces_display {p : Path} (h : ∀ step ∈ p, step.Dotted) :
    pieces p.display = p.map fun step => step.display.toList := by
  have hdot : ∀ text ∈ p.map (fun step => step.display.toList), '.' ∉ text := by
    intro text hmem
    obtain ⟨step, hstep, rfl⟩ := List.mem_map.1 hmem
    exact (h step hstep).notMem_display
  cases p with
  | nil => rfl
  | cons step steps =>
    have hsplit := List.splitOn_intercalate '.' hdot (List.cons_ne_nil _ _)
    rw [← toList_display] at hsplit
    have hne : display (step :: steps) ≠ "" := by
      intro hempty
      rw [hempty, show ("" : String).toList = [] from rfl, List.splitOn_nil]
        at hsplit
      exact (h step (.head _)).display_ne_nil (List.cons.inj hsplit).1.symm
    unfold pieces
    rw [if_neg hne, hsplit, List.map_map]
    exact List.map_congr_left fun other hother => (h other hother).trim_display

/-- A text is read as a path exactly if it is empty or none of its segments is
blank.  The path has a step for each segment, and its text is the one that was
read with the segments trimmed, so that it is read as the same path.  The paths
that are read back from their texts are those of wildcards and of names without
aliases that look like a segment. -/
theorem parse_segments (s : String) :
    ((∃ p, parse s = .ok p) ↔
      s = "" ∨ ∀ segment ∈ s.toList.splitOn '.', trim segment ≠ []) ∧
      (∀ p, parse s = .ok p →
        p.length = (if s = "" then 0 else (s.toList.splitOn '.').length) ∧
          parse p.display = .ok p ∧
          p.display.toList = ['.'].intercalate
            ((s.toList.splitOn '.').map trim)) ∧
      ∀ p : Path, parse p.display = .ok p ↔ ∀ step ∈ p, step.Dotted := by
  have hback : ∀ p : Path, (∀ step ∈ p, step.Dotted) →
      parse p.display = .ok p := fun p h =>
    parse_eq_ok_iff.2 ⟨h, (pieces_display h).symm⟩
  refine ⟨⟨?_, ?_⟩, ?_, fun p => ⟨fun h => (parse_eq_ok_iff.1 h).1, hback p⟩⟩
  · rintro ⟨p, hp⟩
    obtain ⟨hall, htexts⟩ := parse_eq_ok_iff.1 hp
    by_cases hempty : s = ""
    · exact .inl hempty
    · refine .inr fun segment hsegment => ?_
      rw [pieces, if_neg hempty] at htexts
      have hpiece := List.mem_map_of_mem (f := trim) hsegment
      rw [← htexts] at hpiece
      obtain ⟨step, hstep, htext⟩ := List.mem_map.1 hpiece
      rw [← htext]
      exact (hall step hstep).display_ne_nil
  · intro h
    have hne : ∀ piece ∈ pieces s, piece ≠ [] := by
      unfold pieces
      split_ifs with hempty
      · exact List.forall_mem_nil _
      · intro piece hpiece
        obtain ⟨segment, hsegment, rfl⟩ := List.mem_map.1 hpiece
        exact h.resolve_left hempty segment hsegment
    have htrim : ∀ piece ∈ pieces s, trim piece = piece :=
      fun _ hmem => (trim_of_mem_pieces hmem).1
    have hdot : ∀ piece ∈ pieces s, '.' ∉ piece :=
      fun _ hmem => (trim_of_mem_pieces hmem).2
    obtain ⟨p, hp⟩ := exists_mapM_ofSegment? hne
    exact ⟨p, parse_eq_ok_iff.2 ((mapM_ofSegment?_eq_some_iff htrim hdot).1 hp)⟩
  · intro p hp
    obtain ⟨hall, htexts⟩ := parse_eq_ok_iff.1 hp
    refine ⟨?_, hback p hall, ?_⟩
    · rw [← List.length_map (fun step : Step => step.display.toList),
        htexts, pieces]
      split_ifs
      · rfl
      · rw [List.length_map]
    · rw [toList_display, htexts, pieces]
      split_ifs with hempty
      · rw [hempty]
        rfl
      · rfl

/-- Blanks around a segment are dropped and those within it stay. -/
theorem parse_segments_blanks :
    parse " ** .first\tname. id" =
      .ok [.wildcard, .plain "first\tname", .plain "id"] ∧
      parse "**.first\tname.id" =
        .ok [.wildcard, .plain "first\tname", .plain "id"] := by
  have h : parse " ** .first\tname. id" =
      .ok [.wildcard, .plain "first\tname", .plain "id"] := rfl
  exact ⟨h, ((parse_segments " ** .first\tname. id").2.1 _ h).2.1⟩

end Path

end RowGuard
