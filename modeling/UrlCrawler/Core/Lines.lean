import UrlCrawler.Core.RobotsTxt

/-! # The lines of a text

`str.splitlines` on texts that are put together from lines.
-/
set_option autoImplicit false

namespace UrlCrawler

/-- Lines, each with a line feed at its end. -/
def joinLines (lines : List Text) : Text := lines.flatMap (· ++ ['\n'])

/-- A line has no line break in it. -/
def IsLine (line : Text) : Prop := ∀ c ∈ line, isLineBreak c = false

theorem splitlinesFrom_cons {c : Char} (hc : isLineBreak c = false) (line rest : Text) :
    splitlinesFrom line (c :: rest) = splitlinesFrom (line ++ [c]) rest := by
  have hne : c ≠ '\r' := by
    rintro rfl
    exact absurd hc (by decide)
  rw [splitlinesFrom.eq_def]
  split
  · rename_i h
    cases h
  · rename_i h
    exact absurd (List.cons.inj h).1 hne
  · rename_i c' rest' _ h
    obtain ⟨rfl, rfl⟩ := List.cons.inj h
    rw [hc]
    rfl

theorem splitlinesFrom_append {a : Text} (ha : IsLine a) (line rest : Text) :
    splitlinesFrom line (a ++ rest) = splitlinesFrom (line ++ a) rest := by
  induction a generalizing line with
  | nil => rw [List.append_nil]; rfl
  | cons c a ih =>
    rw [List.cons_append, splitlinesFrom_cons (ha c (List.mem_cons_self ..)),
      ih fun d hd => ha d (List.mem_cons_of_mem _ hd), List.append_assoc]
    rfl

theorem splitlinesFrom_lineFeed (line rest : Text) :
    splitlinesFrom line ('\n' :: rest) = line :: splitlines rest := by
  rw [splitlinesFrom.eq_def]
  rfl

/-- What is put together from lines is split into them again. -/
theorem splitlines_joinLines {lines : List Text} (h : ∀ line ∈ lines, IsLine line) :
    splitlines (joinLines lines) = lines := by
  induction lines with
  | nil => rfl
  | cons line rest ih =>
    rw [joinLines, List.flatMap_cons, List.append_assoc, splitlines,
      splitlinesFrom_append (h line (List.mem_cons_self ..)), List.nil_append, List.singleton_append,
      splitlinesFrom_lineFeed]
    exact congrArg (line :: ·) (ih fun l hl => h l (List.mem_cons_of_mem _ hl))

theorem isLine_of_mem_splitlinesFrom {line text : Text} (hline : IsLine line) {l : Text}
    (h : l ∈ splitlinesFrom line text) : IsLine l := by
  fun_induction splitlinesFrom line text with
  | case1 => cases h
  | case2 line hne =>
    rw [List.mem_singleton.mp h]
    exact hline
  | case3 line rest ih =>
    rcases List.mem_cons.mp h with rfl | h
    · exact hline
    · exact ih (fun _ hc => absurd hc List.not_mem_nil) h
  | case4 line c rest hnot hbreak ih =>
    rcases List.mem_cons.mp h with rfl | h
    · exact hline
    · exact ih (fun _ hc => absurd hc List.not_mem_nil) h
  | case5 line c rest hnot hbreak ih =>
    refine ih (fun d hd => ?_) h
    rcases List.mem_append.mp hd with hd | hd
    · exact hline d hd
    · rw [List.mem_singleton.mp hd]
      exact Bool.eq_false_iff.mpr hbreak

theorem isLine_of_mem_splitlines {text l : Text} (h : l ∈ splitlines text) : IsLine l :=
  isLine_of_mem_splitlinesFrom (fun _ hc => absurd hc List.not_mem_nil) h

/-! ## A text cut off -/

theorem splitlinesFrom_break {c : Char} (hc : isLineBreak c = true) (line rest : Text) :
    ∃ rest', splitlinesFrom line (c :: rest) = line :: splitlines rest' := by
  rw [splitlinesFrom.eq_def]
  split
  · rename_i h
    cases h
  · exact ⟨_, rfl⟩
  · rename_i c' rest' _ h
    obtain ⟨rfl, rfl⟩ := List.cons.inj h
    rw [if_pos hc]
    exact ⟨_, rfl⟩

/-- A line that is being read is a beginning of the first line. -/
theorem exists_splitlinesFrom {line : Text} (hne : line ≠ []) (text : Text) :
    ∃ whole rest, splitlinesFrom line text = whole :: rest ∧ line <+: whole := by
  induction text generalizing line with
  | nil => exact ⟨line, [], if_neg hne, List.prefix_rfl⟩
  | cons c text ih =>
    cases hc : isLineBreak c with
    | true =>
      obtain ⟨rest', h⟩ := splitlinesFrom_break hc line text
      exact ⟨line, _, h, List.prefix_rfl⟩
    | false =>
      obtain ⟨whole, rest, h, hbegins⟩ := @ih (line ++ [c]) (by simp)
      rw [splitlinesFrom_cons hc]
      exact ⟨whole, rest, h, (List.prefix_append line [c]).trans hbegins⟩

/-- A text cut anywhere has the lines of the whole one, the last of them perhaps not to its end. -/
theorem splitlinesFrom_prefix (line kept more : Text) (hne : line ≠ [] ∨ kept ≠ []) :
    ∃ lines last whole rest, splitlinesFrom line kept = lines ++ [last] ∧
      splitlinesFrom line (kept ++ more) = lines ++ whole :: rest ∧ last <+: whole := by
  fun_induction splitlinesFrom line kept with
  | case1 => exact absurd rfl (hne.resolve_right (not_not.mpr rfl))
  | case2 line hline =>
    obtain ⟨whole, rest, h, hbegins⟩ := exists_splitlinesFrom hline more
    exact ⟨[], line, whole, rest, rfl, h, hbegins⟩
  | case3 line kept ih =>
    by_cases hkept : kept = []
    · subst hkept
      exact ⟨[], line, line, splitlines more, rfl, rfl, List.prefix_rfl⟩
    · obtain ⟨lines, last, whole, rest, h, h', hbegins⟩ := ih (.inr hkept)
      refine ⟨line :: lines, last, whole, rest, ?_, ?_, hbegins⟩
      · rw [h]
        rfl
      · exact congrArg (line :: ·) h'
  | case4 line c kept hnot hbreak ih =>
    by_cases hkept : kept = []
    · subst hkept
      obtain ⟨rest', h⟩ := splitlinesFrom_break hbreak line more
      exact ⟨[], line, line, splitlines rest', rfl, h, List.prefix_rfl⟩
    · obtain ⟨lines, last, whole, rest, h, h', hbegins⟩ := ih (.inr hkept)
      refine ⟨line :: lines, last, whole, rest, ?_, ?_, hbegins⟩
      · rw [h]
        rfl
      · have hstep : splitlinesFrom line (c :: (kept ++ more)) = line :: splitlinesFrom [] (kept ++ more) := by
          rw [splitlinesFrom, if_pos hbreak]
          intro rest' hc hrest
          obtain ⟨d, kept', rfl⟩ := List.exists_cons_of_ne_nil hkept
          exact hnot kept' hc (by rw [(List.cons.inj hrest).1])
        rw [List.cons_append, hstep, h']
        rfl
  | case5 line c kept hnot hbreak ih =>
    obtain ⟨lines, last, whole, rest, h, h', hbegins⟩ := ih (.inl (by simp))
    refine ⟨lines, last, whole, rest, h, ?_, hbegins⟩
    rw [List.cons_append, splitlinesFrom_cons (Bool.eq_false_iff.mpr hbreak), h']

theorem splitlines_prefix {kept text : Text} (h : kept <+: text) (hne : kept ≠ []) :
    ∃ lines last whole rest, splitlines kept = lines ++ [last] ∧
      splitlines text = lines ++ whole :: rest ∧ last <+: whole := by
  obtain ⟨more, rfl⟩ := h
  exact splitlinesFrom_prefix [] kept more (.inr hne)

end UrlCrawler
