import UrlCrawler.Core.NormalForm
import UrlCrawler.Library.Splitting

/-! # Dot segments

`_remove_dot_segments` of a path that begins with a slash: the result begins with one too, has no dot
segments left, is no longer than the path and ends as the path does, or in a slash.
-/
set_option autoImplicit false

namespace UrlCrawler

/-- A segment that stands for itself. -/
def isPlain (segment : Text) : Bool := segment ≠ ".".toList && segment ≠ "..".toList

theorem removeDots_cons_plain {segment : Text} (h : isPlain segment = true) (output rest : List Text) :
    removeDots output (segment :: rest) = removeDots (output ++ [segment]) rest := by
  rw [removeDots]
  exact if_pos h

theorem removeDots_cons_dot {segment : Text} (h : isPlain segment = false) (output rest : List Text) :
    ∃ kept, kept <+: output ∧ (output ≠ [] → kept ≠ []) ∧ removeDots output (segment :: rest) =
      removeDots (if rest = [] then kept ++ [[]] else kept) rest := by
  rw [removeDots, if_neg (by rw [← isPlain, h]; decide)]
  refine ⟨_, ?_, ?_, rfl⟩
  · split
    · exact List.dropLast_prefix output
    · exact List.prefix_rfl
  · intro hne
    split
    · rename_i hpop
      have hlong : 1 < output.length := by simpa using (Bool.and_eq_true_iff.mp hpop).2
      intro hnil
      have hlen := congrArg List.length hnil
      rw [List.length_dropLast, List.length_nil] at hlen
      omega
    · exact hne

theorem removeDots_of_plain {segments : List Text} :
    ∀ {output : List Text}, (∀ segment ∈ segments, isPlain segment = true) →
      removeDots output segments = output ++ segments := by
  induction segments with
  | nil => simp [removeDots]
  | cons segment rest ih =>
    intro output h
    obtain ⟨hsegment, hrest⟩ := List.forall_mem_cons.mp h
    rw [removeDots_cons_plain hsegment, ih hrest, List.append_assoc]
    rfl

theorem plain_removeDots {segments : List Text} :
    ∀ {output : List Text}, (∀ segment ∈ output, isPlain segment = true) →
      ∀ segment ∈ removeDots output segments, isPlain segment = true := by
  induction segments with
  | nil => exact id
  | cons next rest ih =>
    intro output h
    cases hnext : isPlain next with
    | true =>
      rw [removeDots_cons_plain hnext]
      refine ih fun segment hs => ?_
      rcases List.mem_append.mp hs with hs | hs
      · exact h segment hs
      · rw [List.mem_singleton.mp hs, hnext]
    | false =>
      obtain ⟨kept, hinit, -, heq⟩ := removeDots_cons_dot hnext output rest
      rw [heq]
      refine ih fun segment hs => ?_
      split at hs
      · rcases List.mem_append.mp hs with hs | hs
        · exact h segment (hinit.subset hs)
        · rw [List.mem_singleton.mp hs]
          decide
      · exact h segment (hinit.subset hs)

/-- The first segment stays. -/
theorem removeDots_head (segments : List Text) : ∀ (first : Text) (output : List Text),
    ∃ tail, removeDots (first :: output) segments = first :: tail := by
  induction segments with
  | nil => exact fun _ output => ⟨output, rfl⟩
  | cons next rest ih =>
    intro first output
    cases hnext : isPlain next with
    | true =>
      rw [removeDots_cons_plain hnext]
      exact ih first (output ++ [next])
    | false =>
      obtain ⟨kept, ⟨dropped, hkept⟩, hne, heq⟩ := removeDots_cons_dot hnext (first :: output) rest
      obtain ⟨head, kept, rfl⟩ := List.exists_cons_of_ne_nil (hne (List.cons_ne_nil _ _))
      obtain ⟨rfl, -⟩ := List.cons.inj hkept
      rw [heq]
      split
      · exact ih head (kept ++ [[]])
      · exact ih head kept

/-- After the last segment comes either itself or, for a dot segment, an empty one. -/
theorem removeDots_getLast? {segments : List Text} (hne : segments ≠ []) :
    ∀ {output : List Text}, (removeDots output segments).getLast? =
      some (if isPlain (segments.getLast hne) then segments.getLast hne else []) := by
  induction segments with
  | nil => exact absurd rfl hne
  | cons segment rest ih =>
    intro output
    by_cases hrest : rest = []
    · subst hrest
      cases hsegment : isPlain segment with
      | true =>
        rw [removeDots_cons_plain hsegment]
        simp [removeDots, hsegment]
      | false =>
        obtain ⟨kept, -, -, heq⟩ := removeDots_cons_dot hsegment output []
        rw [heq]
        simp [removeDots, hsegment]
    · rw [List.getLast_cons hrest]
      cases hsegment : isPlain segment with
      | true =>
        rw [removeDots_cons_plain hsegment]
        exact ih hrest
      | false =>
        obtain ⟨kept, -, -, heq⟩ := removeDots_cons_dot hsegment output rest
        rw [heq]
        exact ih hrest

theorem two_le_length_removeDots {segments : List Text} (hne : segments ≠ []) :
    ∀ {output : List Text}, output ≠ [] → 2 ≤ (removeDots output segments).length := by
  induction segments with
  | nil => exact absurd rfl hne
  | cons segment rest ih =>
    intro output houtput
    have hpos := List.length_pos_iff.mpr houtput
    by_cases hrest : rest = []
    · subst hrest
      cases hsegment : isPlain segment with
      | true =>
        rw [removeDots_cons_plain hsegment, removeDots, List.length_append, List.length_singleton]
        omega
      | false =>
        obtain ⟨kept, -, hkept, heq⟩ := removeDots_cons_dot hsegment output []
        have hkeptpos := List.length_pos_iff.mpr (hkept houtput)
        rw [heq, if_pos rfl, removeDots, List.length_append, List.length_singleton]
        omega
    · cases hsegment : isPlain segment with
      | true =>
        rw [removeDots_cons_plain hsegment]
        exact ih hrest (by simp)
      | false =>
        obtain ⟨kept, -, hkept, heq⟩ := removeDots_cons_dot hsegment output rest
        rw [heq, if_neg hrest]
        exact ih hrest (hkept houtput)

/-- The length of the segments, each with a slash. -/
def pathLength (segments : List Text) : ℕ := (segments.map fun segment => segment.length + 1).sum

theorem pathLength_append (a b : List Text) :
    pathLength (a ++ b) = pathLength a + pathLength b := by
  simp [pathLength]

theorem length_intercalate {segments : List Text} (hne : segments ≠ []) :
    (['/'].intercalate segments).length + 1 = pathLength segments := by
  induction segments with
  | nil => exact absurd rfl hne
  | cons segment rest ih =>
    by_cases hrest : rest = []
    · simp [hrest, pathLength]
    · obtain ⟨next, rest, rfl⟩ := List.exists_cons_of_ne_nil hrest
      have hlength := ih (List.cons_ne_nil _ _)
      rw [List.intercalate_cons_cons]
      simp only [pathLength, List.map_cons, List.sum_cons, List.length_append, List.length_cons,
        List.length_nil] at hlength ⊢
      omega

theorem pathLength_removeDots (segments : List Text) : ∀ output : List Text,
    pathLength (removeDots output segments) ≤ pathLength output + pathLength segments := by
  induction segments with
  | nil => intro output; simp [removeDots, pathLength]
  | cons segment rest ih =>
    intro output
    have hcons : pathLength (segment :: rest) = segment.length + 1 + pathLength rest := by
      simp [pathLength]
    cases hsegment : isPlain segment with
    | true =>
      rw [removeDots_cons_plain hsegment]
      have hle := ih (output ++ [segment])
      rw [pathLength_append] at hle
      simp only [pathLength, List.map_cons, List.map_nil, List.sum_cons, List.sum_nil] at hle hcons ⊢
      omega
    | false =>
      obtain ⟨kept, ⟨dropped, hkept⟩, -, heq⟩ := removeDots_cons_dot hsegment output rest
      have hshort : pathLength kept ≤ pathLength output := by
        rw [← hkept, pathLength_append]
        omega
      have hslash : pathLength (if rest = [] then kept ++ [[]] else kept) ≤ pathLength kept + 1 := by
        split
        · rw [pathLength_append]
          exact le_rfl
        · omega
      have hle := ih (if rest = [] then kept ++ [[]] else kept)
      rw [heq]
      omega

/-! ## The path of a URL with an authority -/

/-- The segments `_remove_dot_segments` makes of the path `/text`. -/
def keptSegments (text : Text) : List Text := removeDots [[]] (text.splitOn '/')

theorem keptSegments_spec (text : Text) : ∃ tail, keptSegments text = [] :: tail ∧ tail ≠ [] ∧
    (∀ segment ∈ tail, isPlain segment = true ∧ '/' ∉ segment) := by
  obtain ⟨tail, htail⟩ := removeDots_head (text.splitOn '/') [] []
  have hroot : ∀ segment ∈ [([] : Text)], isPlain segment = true := by decide
  have hplain : ∀ segment ∈ removeDots [[]] (text.splitOn '/'), isPlain segment = true :=
    plain_removeDots hroot
  refine ⟨tail, htail, ?_, fun segment hs => ?_⟩
  · rintro rfl
    have hlength : 2 ≤ (removeDots [[]] (text.splitOn '/')).length :=
      two_le_length_removeDots (List.splitOn_ne_nil '/' text) (List.cons_ne_nil _ _)
    rw [htail] at hlength
    simp at hlength
  · have hmem : segment ∈ removeDots [[]] (text.splitOn '/') := by
      rw [htail]
      exact List.mem_cons_of_mem _ hs
    refine ⟨hplain segment hmem, ?_⟩
    rcases mem_removeDots hmem with h | h | rfl
    · rw [List.mem_singleton.mp h]
      exact List.not_mem_nil
    · exact Splitting.not_mem_of_mem_splitOn h
    · exact List.not_mem_nil

theorem removeDotSegments_slash (text : Text) :
    removeDotSegments ('/' :: text) = ['/'].intercalate (keptSegments text) := by
  obtain ⟨tail, htail, hne, -⟩ := keptSegments_spec text
  obtain ⟨next, rest, rfl⟩ := List.exists_cons_of_ne_nil hne
  have hsegments : removeDots [] (('/' :: text).splitOn '/') = keptSegments text := by
    rw [Splitting.splitOn_cons_self, removeDots_cons_plain (by decide)]
    rfl
  have hjoined : ['/'].intercalate (keptSegments text) ≠ [] := by
    rw [htail, List.intercalate_cons_cons]
    simp
  rw [removeDotSegments, hsegments, if_neg hjoined]

theorem splitOn_removeDotSegments (text : Text) :
    (removeDotSegments ('/' :: text)).splitOn '/' = keptSegments text := by
  obtain ⟨tail, htail, -, htail'⟩ := keptSegments_spec text
  rw [removeDotSegments_slash, htail]
  refine List.splitOn_intercalate '/' (fun segment hs => ?_) (List.cons_ne_nil _ _)
  rcases List.mem_cons.mp hs with rfl | hs
  · exact List.not_mem_nil
  · exact (htail' segment hs).2

theorem exists_removeDotSegments (text : Text) :
    ∃ kept, removeDotSegments ('/' :: text) = '/' :: kept := by
  obtain ⟨tail, htail, hne, -⟩ := keptSegments_spec text
  obtain ⟨next, rest, rfl⟩ := List.exists_cons_of_ne_nil hne
  rw [removeDotSegments_slash, htail, List.intercalate_cons_cons]
  exact ⟨_, rfl⟩

/-- No dot segments are left to remove. -/
theorem removeDotSegments_idem (text : Text) :
    removeDotSegments (removeDotSegments ('/' :: text)) = removeDotSegments ('/' :: text) := by
  obtain ⟨tail, htail, hne, htail'⟩ := keptSegments_spec text
  obtain ⟨kept, hkept⟩ := exists_removeDotSegments text
  have hsame : removeDots [] ((removeDotSegments ('/' :: text)).splitOn '/') =
      (removeDotSegments ('/' :: text)).splitOn '/' := by
    rw [splitOn_removeDotSegments, htail]
    refine removeDots_of_plain fun segment hs => ?_
    rcases List.mem_cons.mp hs with rfl | hs
    · decide
    · exact (htail' segment hs).1
  conv_lhs => rw [removeDotSegments, hsame, List.intercalate_splitOn]
  rw [hkept, if_neg (List.cons_ne_nil _ _)]

theorem length_removeDotSegments (text : Text) :
    (removeDotSegments ('/' :: text)).length ≤ text.length + 1 := by
  have hkept : keptSegments text ≠ [] := by
    obtain ⟨tail, htail, -⟩ := keptSegments_spec text
    rw [htail]
    exact List.cons_ne_nil _ _
  have hshort := pathLength_removeDots (text.splitOn '/') [[]]
  have hjoined := length_intercalate hkept
  have htext := length_intercalate (List.splitOn_ne_nil '/' text)
  rw [List.intercalate_splitOn] at htext
  rw [removeDotSegments_slash]
  have hroot : pathLength [[]] = 1 := rfl
  rw [keptSegments] at hjoined ⊢
  omega

/-- Whether a text ends in white space. -/
def endsInSpace (text : Text) : Bool := text.getLast?.any isSpace

/-- A dot segment is none, and the slash after it neither. -/
theorem endsInSpace_removeDotSegments (text : Text) :
    endsInSpace (removeDotSegments ('/' :: text)) = endsInSpace ('/' :: text) := by
  have hends : ∀ segments : List Text, 2 ≤ segments.length →
      endsInSpace (['/'].intercalate segments) =
        (segments.getLast?.bind List.getLast?).any isSpace := by
    intro segments hlength
    rw [endsInSpace, Splitting.getLast?_intercalate hlength]
    cases segments.getLast?.bind List.getLast? <;> rfl
  have hpath : '/' :: text = ['/'].intercalate ([] :: text.splitOn '/') := by
    rw [← Splitting.splitOn_cons_self, List.intercalate_splitOn]
  have htwo : 2 ≤ (([] : Text) :: text.splitOn '/').length := by
    have := List.length_pos_iff.mpr (List.splitOn_ne_nil '/' text)
    rw [List.length_cons]
    omega
  rw [removeDotSegments_slash, keptSegments,
    hends _ (two_le_length_removeDots (List.splitOn_ne_nil '/' text) (by simp)), hpath,
    hends _ htwo, removeDots_getLast? (List.splitOn_ne_nil '/' text),
    List.getLast?_cons, List.getLast?_eq_some_getLast (List.splitOn_ne_nil '/' text)]
  simp only [Option.bind_some, Option.getD_some]
  split
  · rfl
  · rename_i hdot
    have hdot' : isPlain ((text.splitOn '/').getLast (List.splitOn_ne_nil '/' text)) = false := by
      simpa using hdot
    simp only [isPlain, Bool.and_eq_false_iff, decide_eq_false_iff_not, not_not] at hdot'
    rcases hdot' with h | h <;> rw [h] <;> decide

end UrlCrawler
