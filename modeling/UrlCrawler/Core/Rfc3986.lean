import UrlCrawler.Core.DotSegments

/-! # RFC 3986, section 5.2.4

The procedure as the RFC words it: an input buffer that is rewritten at its front until it is empty, and
an output buffer. `_remove_dot_segments` splits the path and keeps a stack of segments; on a path that
begins with a slash the two agree.
-/
set_option autoImplicit false

namespace UrlCrawler

/-- Remove the last segment and its preceding slash, if any. -/
def removeLastSegment (output : Text) : Text := (output.rdropWhile (· ≠ '/')).dropLast

/-- One round of the loop on a non-empty input buffer: the buffers after it. -/
def rewriteBuffers (input output : Text) : Text × Text :=
  -- A
  if "../".toList <+: input then (input.drop 3, output)
  else if "./".toList <+: input then (input.drop 2, output)
  -- B
  else if "/./".toList <+: input then ('/' :: input.drop 3, output)
  else if input = "/.".toList then (['/'], output)
  -- C
  else if "/../".toList <+: input then ('/' :: input.drop 4, removeLastSegment output)
  else if input = "/..".toList then (['/'], removeLastSegment output)
  -- D
  else if input = ".".toList ∨ input = "..".toList then ([], output)
  -- E
  else (input.tail.dropWhile (· ≠ '/'), output ++ input.take 1 ++ input.tail.takeWhile (· ≠ '/'))

theorem length_rewriteBuffers {input : Text} (h : input ≠ []) (output : Text) :
    (rewriteBuffers input output).1.length < input.length := by
  have hpos : 0 < input.length := List.length_pos_iff.mpr h
  have htail : (input.tail.dropWhile (· ≠ '/')).length ≤ input.tail.length :=
    (List.dropWhile_sublist _).length_le
  rw [List.length_tail] at htail
  have hdrop : ∀ {front : Text}, front <+: input → 2 < front.length → 3 ≤ input.length :=
    fun hp hlong => hlong.trans_le hp.length_le
  rw [rewriteBuffers]
  split
  · rw [List.length_drop]
    omega
  split
  · rw [List.length_drop]
    omega
  split
  · have := hdrop ‹_› (by decide)
    rw [List.length_cons, List.length_drop]
    omega
  split
  · subst input
    exact Nat.one_lt_two
  split
  · have := hdrop ‹_› (by decide)
    rw [List.length_cons, List.length_drop]
    omega
  split
  · subst input
    exact Nat.lt_of_sub_eq_succ rfl
  split
  · exact hpos
  · change (input.tail.dropWhile (· ≠ '/')).length < input.length
    omega

/-- The RFC's `remove_dot_segments`, from the two buffers on. -/
def rewriteLoop (input output : Text) : Text :=
  if _h : input = [] then output
  else rewriteLoop (rewriteBuffers input output).1 (rewriteBuffers input output).2
termination_by input.length
decreasing_by exact length_rewriteBuffers _h output

theorem rewriteLoop_nil (output : Text) : rewriteLoop [] output = output := by
  rw [rewriteLoop, dif_pos rfl]

theorem rewriteLoop_step {input : Text} (h : input ≠ []) (output : Text) :
    rewriteLoop input output =
      rewriteLoop (rewriteBuffers input output).1 (rewriteBuffers input output).2 := by
  rw [rewriteLoop, dif_neg h]

/-! ## The buffers as segments -/

/-- The segments, each after a slash. -/
def slashed (segments : List Text) : Text := segments.flatMap ('/' :: ·)

theorem slashed_cons (segment : Text) (rest : List Text) :
    slashed (segment :: rest) = '/' :: (segment ++ slashed rest) := rfl

theorem slashed_cons_ne_nil (segment : Text) (rest : List Text) : slashed (segment :: rest) ≠ [] :=
  List.cons_ne_nil _ _

theorem slashed_append_singleton (kept : List Text) (segment : Text) :
    slashed (kept ++ [segment]) = slashed kept ++ '/' :: segment := by
  simp [slashed]

theorem intercalate_nil_cons (segments : List Text) :
    ['/'].intercalate ([] :: segments) = slashed segments := by
  cases segments with
  | nil => rfl
  | cons segment rest =>
    rw [List.intercalate_cons_cons, List.nil_append]
    induction rest generalizing segment with
    | nil => simp [slashed]
    | cons next rest ih =>
      rw [List.intercalate_cons_cons, slashed_cons, List.append_assoc, ih next]
      rfl

theorem decide_ne_slash {segment : Text} (h : '/' ∉ segment) :
    ∀ c ∈ segment, decide (c ≠ '/') = true := by
  intro c hc
  have hne : c ≠ '/' := fun he => h (he ▸ hc)
  exact decide_eq_true hne

/-- What comes after a segment begins with a slash, if it is anything. -/
theorem span_slashed {segment : Text} (h : '/' ∉ segment) (rest : List Text) :
    (segment ++ slashed rest).takeWhile (· ≠ '/') = segment ∧
      (segment ++ slashed rest).dropWhile (· ≠ '/') = slashed rest := by
  have hsegment := decide_ne_slash h
  have hrest : (slashed rest).takeWhile (· ≠ '/') = [] ∧
      (slashed rest).dropWhile (· ≠ '/') = slashed rest := by
    cases rest with
    | nil => exact ⟨rfl, rfl⟩
    | cons next rest => simp [slashed_cons]
  constructor
  · rw [List.takeWhile_append_of_pos hsegment, hrest.1, List.append_nil]
  · rw [List.dropWhile_append_of_pos hsegment, hrest.2]

theorem append_slashed_eq {front segment : Text} (hfront : '/' ∉ front) (h : '/' ∉ segment)
    (rest : List Text) : segment ++ slashed rest = front ↔ segment = front ∧ rest = [] := by
  constructor
  · intro he
    have hspan := span_slashed hfront []
    rw [slashed, List.flatMap_nil, List.append_nil, ← he, (span_slashed h rest).1,
      (span_slashed h rest).2] at hspan
    cases rest with
    | nil => exact ⟨hspan.1.trans he, rfl⟩
    | cons next rest => exact absurd hspan.2 (List.cons_ne_nil _ _)
  · rintro ⟨rfl, rfl⟩
    exact List.append_nil segment

theorem prefix_append_slashed {front segment : Text} (hfront : '/' ∉ front) (h : '/' ∉ segment)
    (rest : List Text) :
    front ++ ['/'] <+: segment ++ slashed rest ↔ segment = front ∧ rest ≠ [] := by
  constructor
  · rintro ⟨tail, htail⟩
    have hsplit : segment ++ slashed rest = front ++ ('/' :: tail) := by
      rw [← htail, List.append_assoc]
      rfl
    have hspan := span_slashed h rest
    have hpos := decide_ne_slash hfront
    rw [hsplit, List.takeWhile_append_of_pos hpos, List.dropWhile_append_of_pos hpos] at hspan
    constructor
    · simpa using hspan.1.symm
    · rintro rfl
      simp [slashed] at hspan
  · rintro ⟨rfl, hrest⟩
    obtain ⟨next, rest, rfl⟩ := List.exists_cons_of_ne_nil hrest
    exact ⟨next ++ slashed rest, by rw [List.append_assoc]; rfl⟩

theorem removeLastSegment_slashed {kept : List Text} (h : ∀ segment ∈ kept, '/' ∉ segment) :
    removeLastSegment (slashed kept) = slashed kept.dropLast := by
  rcases List.eq_nil_or_concat kept with rfl | ⟨front, last, rfl⟩
  · rfl
  · have hlast : ∀ c ∈ last.reverse, decide (c ≠ '/') = true := fun c hc =>
      decide_ne_slash (h last (by simp)) c (List.mem_reverse.mp hc)
    rw [List.concat_eq_append, slashed_append_singleton, List.dropLast_concat, removeLastSegment,
      List.rdropWhile, List.reverse_append, List.reverse_cons, List.append_assoc,
      List.dropWhile_append_of_pos hlast]
    simp

/-! ## One round on segments -/

section Rounds

variable {segment : Text} {rest : List Text}

/-- The rules A and D are for an input that does not begin with a slash. -/
theorem not_rootless (input : Text) : ¬ "../".toList <+: '/' :: input ∧ ¬ "./".toList <+: '/' :: input ∧
    ¬ ('/' :: input = ".".toList ∨ '/' :: input = "..".toList) := by
  have hne : '.' ≠ '/' := by decide
  refine ⟨fun h => ?_, fun h => ?_, fun h => ?_⟩
  · exact hne (List.cons_prefix_cons.mp h).1
  · exact hne (List.cons_prefix_cons.mp h).1
  · rcases h with h | h
    · exact hne (List.cons.inj h).1.symm
    · exact hne (List.cons.inj h).1.symm

theorem rewriteBuffers_plain (h : '/' ∉ segment) (hplain : isPlain segment = true) (output : Text) :
    rewriteBuffers (slashed (segment :: rest)) output =
      (slashed rest, output ++ '/' :: segment) := by
  obtain ⟨hdot, hdots⟩ : segment ≠ ".".toList ∧ segment ≠ "..".toList := by
    simpa [isPlain] using hplain
  obtain ⟨hA, hA', hD⟩ := not_rootless (segment ++ slashed rest)
  have hB : ¬ "/./".toList <+: '/' :: (segment ++ slashed rest) := fun hp =>
    hdot ((prefix_append_slashed (by decide) h rest).mp (List.cons_prefix_cons.mp hp).2).1
  have hB' : ¬ '/' :: (segment ++ slashed rest) = "/.".toList := fun he =>
    hdot ((append_slashed_eq (by decide) h rest).mp (List.cons.inj he).2).1
  have hC : ¬ "/../".toList <+: '/' :: (segment ++ slashed rest) := fun hp =>
    hdots ((prefix_append_slashed (by decide) h rest).mp (List.cons_prefix_cons.mp hp).2).1
  have hC' : ¬ '/' :: (segment ++ slashed rest) = "/..".toList := fun he =>
    hdots ((append_slashed_eq (by decide) h rest).mp (List.cons.inj he).2).1
  rw [slashed_cons, rewriteBuffers, if_neg hA, if_neg hA', if_neg hB, if_neg hB', if_neg hC, if_neg hC',
    if_neg hD, List.tail_cons, (span_slashed h rest).1, (span_slashed h rest).2, List.append_assoc]
  rfl

theorem rewriteBuffers_dot (output : Text) :
    rewriteBuffers (slashed (".".toList :: rest)) output =
      (if rest = [] then ['/'] else slashed rest, output) := by
  obtain ⟨hA, hA', -⟩ := not_rootless (".".toList ++ slashed rest)
  have hdot : '/' ∉ ".".toList := by decide
  rw [slashed_cons, rewriteBuffers, if_neg hA, if_neg hA']
  by_cases hrest : rest = []
  · subst hrest
    rfl
  · obtain ⟨next, rest, rfl⟩ := List.exists_cons_of_ne_nil hrest
    have hB : "/./".toList <+: '/' :: (".".toList ++ slashed (next :: rest)) :=
      List.cons_prefix_cons.mpr ⟨rfl, (prefix_append_slashed hdot hdot _).mpr ⟨rfl, hrest⟩⟩
    rw [if_pos hB, if_neg hrest]
    rfl

theorem rewriteBuffers_dots (output : Text) :
    rewriteBuffers (slashed ("..".toList :: rest)) output =
      (if rest = [] then ['/'] else slashed rest, removeLastSegment output) := by
  obtain ⟨hA, hA', -⟩ := not_rootless ("..".toList ++ slashed rest)
  have hdot : '/' ∉ ".".toList := by decide
  have hdots : '/' ∉ "..".toList := by decide
  have hB : ¬ "/./".toList <+: '/' :: ("..".toList ++ slashed rest) := fun hp =>
    absurd ((prefix_append_slashed hdot hdots rest).mp (List.cons_prefix_cons.mp hp).2).1 (by decide)
  have hB' : ¬ '/' :: ("..".toList ++ slashed rest) = "/.".toList := fun he =>
    absurd ((append_slashed_eq hdot hdots rest).mp (List.cons.inj he).2).1 (by decide)
  rw [slashed_cons, rewriteBuffers, if_neg hA, if_neg hA', if_neg hB, if_neg hB']
  by_cases hrest : rest = []
  · subst hrest
    rfl
  · obtain ⟨next, rest, rfl⟩ := List.exists_cons_of_ne_nil hrest
    have hC : "/../".toList <+: '/' :: ("..".toList ++ slashed (next :: rest)) :=
      List.cons_prefix_cons.mpr ⟨rfl, (prefix_append_slashed hdots hdots _).mpr ⟨rfl, hrest⟩⟩
    rw [if_pos hC, if_neg hrest]
    rfl

end Rounds

/-! ## The whole loop -/

theorem rewriteLoop_slash (output : Text) : rewriteLoop ['/'] output = output ++ ['/'] := by
  have hround : rewriteBuffers (slashed [[]]) output = (slashed [], output ++ ['/']) :=
    rewriteBuffers_plain List.not_mem_nil (by decide) output
  change rewriteLoop (slashed [[]]) output = _
  rw [rewriteLoop_step (slashed_cons_ne_nil _ _), hround]
  exact rewriteLoop_nil _

/-- The segments kept after a dot segment. -/
def afterDots (segment : Text) (kept : List Text) : List Text :=
  if segment = "..".toList then kept.dropLast else kept

theorem removeDots_root_dot {segment : Text} (h : isPlain segment = false) (kept rest : List Text) :
    removeDots ([] :: kept) (segment :: rest) =
      removeDots ([] :: (afterDots segment kept ++ if rest = [] then [[]] else [])) rest := by
  rw [removeDots, if_neg (by rw [← isPlain, h]; decide)]
  have hpop : (if segment = "..".toList && 1 < (([] : Text) :: kept).length then ([] :: kept).dropLast
      else [] :: kept) = [] :: afterDots segment kept := by
    rw [afterDots]
    cases kept with
    | nil => simp
    | cons first kept =>
      by_cases hdots : segment = "..".toList
      · simp [hdots]
      · rw [if_neg hdots, if_neg (by simpa using hdots)]
  rw [hpop]
  change removeDots (if rest = [] then [] :: afterDots segment kept ++ [[]]
    else [] :: afterDots segment kept) rest = _
  by_cases hrest : rest = []
  · rw [if_pos hrest, if_pos hrest, List.cons_append]
  · rw [if_neg hrest, if_neg hrest, List.append_nil]

theorem rewriteBuffers_dotSegment {segment : Text} (h : isPlain segment = false)
    {kept : List Text} (hkept : ∀ segment ∈ kept, '/' ∉ segment) (rest : List Text) :
    rewriteBuffers (slashed (segment :: rest)) (slashed kept) =
      (if rest = [] then ['/'] else slashed rest, slashed (afterDots segment kept)) := by
  by_cases hdots : segment = "..".toList
  · rw [hdots, rewriteBuffers_dots, removeLastSegment_slashed hkept, afterDots, if_pos rfl]
  · have hdot : segment = ".".toList := by
      by_contra hdot
      rw [isPlain, decide_eq_true hdot, decide_eq_true hdots] at h
      exact absurd h (by decide)
    rw [afterDots, if_neg hdots, hdot, rewriteBuffers_dot]

/-- The stack of segments is the output buffer, the segments to come are the input buffer. -/
theorem rewriteLoop_slashed {segments : List Text} (h : ∀ segment ∈ segments, '/' ∉ segment) :
    ∀ {kept : List Text}, (∀ segment ∈ kept, '/' ∉ segment) →
      rewriteLoop (slashed segments) (slashed kept) =
        ['/'].intercalate (removeDots ([] :: kept) segments) := by
  induction segments with
  | nil =>
    intro kept _
    rw [removeDots, intercalate_nil_cons]
    exact rewriteLoop_nil _
  | cons segment rest ih =>
    intro kept hkept
    obtain ⟨hsegment, hrest⟩ := List.forall_mem_cons.mp h
    rw [rewriteLoop_step (slashed_cons_ne_nil _ _)]
    cases hplain : isPlain segment with
    | true =>
      rw [rewriteBuffers_plain hsegment hplain, removeDots_cons_plain hplain,
        ← slashed_append_singleton, ih hrest, List.cons_append]
      intro other hother
      rcases List.mem_append.mp hother with hother | hother
      · exact hkept other hother
      · rw [List.mem_singleton.mp hother]
        exact hsegment
    | false =>
      have hleft : ∀ other ∈ afterDots segment kept, '/' ∉ other := by
        intro other hother
        rw [afterDots] at hother
        split at hother
        · exact hkept other (List.dropLast_subset kept hother)
        · exact hkept other hother
      rw [rewriteBuffers_dotSegment hplain hkept, removeDots_root_dot hplain]
      by_cases hlast : rest = []
      · -- the slash that takes the dot segment's place is moved in one more round
        subst hlast
        rw [if_pos rfl, if_pos rfl, rewriteLoop_slash, removeDots, intercalate_nil_cons,
          slashed_append_singleton]
      · rw [if_neg hlast, if_neg hlast, List.append_nil, ih hrest hleft]

theorem removeDotSegments_eq_rewriteLoop (text : Text) :
    removeDotSegments ('/' :: text) = rewriteLoop ('/' :: text) [] := by
  have hsegments : '/' :: text = slashed (text.splitOn '/') := by
    rw [← intercalate_nil_cons, ← Splitting.splitOn_cons_self, List.intercalate_splitOn]
  have hloop : rewriteLoop (slashed (text.splitOn '/')) (slashed []) =
      ['/'].intercalate (keptSegments text) :=
    rewriteLoop_slashed (fun _ => Splitting.not_mem_of_mem_splitOn) (by simp)
  rw [← hsegments] at hloop
  rw [removeDotSegments_slash]
  exact hloop.symm

/-! ## What is kept -/

/-- A dot segment takes at most one segment off the stack. -/
theorem count_cons_removeDots {segment : Text} (h : isPlain segment = false) (output rest : List Text) :
    ∃ kept, removeDots output (segment :: rest) = removeDots kept rest ∧
      output.count [] ≤ kept.count [] + [segment].count "..".toList := by
  rw [removeDots, if_neg (by rw [← isPlain, h]; decide)]
  refine ⟨_, rfl, ?_⟩
  have hlast : ∀ left : List Text, left.count [] ≤
      (if rest = [] then left ++ [[]] else left).count [] := by
    intro left
    split
    · rw [List.count_append]
      exact Nat.le_add_right _ _
    · exact le_rfl
  refine le_trans ?_ (Nat.add_le_add_right (hlast _) _)
  split
  · rename_i hpop
    have hdots : segment = "..".toList := of_decide_eq_true (Bool.and_eq_true_iff.mp hpop).1
    rw [hdots, List.count_singleton_self]
    rcases List.eq_nil_or_concat output with rfl | ⟨front, last, rfl⟩
    · exact Nat.zero_le _
    · rw [List.concat_eq_append, List.dropLast_concat, List.count_append]
      exact Nat.add_le_add_left List.count_le_length _
  · exact Nat.le_add_right _ _

/-- An empty segment is lost only to a `..` after it. -/
theorem count_removeDots (segments : List Text) : ∀ output : List Text,
    output.count [] + segments.count [] ≤
      (removeDots output segments).count [] + segments.count "..".toList := by
  induction segments with
  | nil => intro output; simp [removeDots]
  | cons segment rest ih =>
    intro output
    rw [← List.singleton_append, List.count_append, List.count_append, List.singleton_append]
    cases hplain : isPlain segment with
    | true =>
      have hrest := ih (output ++ [segment])
      rw [List.count_append] at hrest
      rw [removeDots_cons_plain hplain]
      omega
    | false =>
      obtain ⟨kept, heq, hcount⟩ := count_cons_removeDots hplain output rest
      have hrest := ih kept
      have hempty : [segment].count [] = 0 := by
        refine List.count_eq_zero.mpr fun hmem => ?_
        rw [← List.mem_singleton.mp hmem] at hplain
        exact absurd hplain (by decide)
      rw [heq]
      omega

/-- Without a `..` the segments stay as they are, but for every `.`. -/
theorem removeDots_of_not_mem {segments : List Text} (h : "..".toList ∉ segments) :
    ∀ output : List Text, removeDots output segments =
      output ++ segments.filter isPlain ++ if segments.getLast? = some ".".toList then [[]] else [] := by
  induction segments with
  | nil => intro output; simp [removeDots]
  | cons segment rest ih =>
    intro output
    obtain ⟨hsegment, hrest⟩ := not_or.mp (fun hmem => h (List.mem_cons.mpr hmem))
    have hlast : rest ≠ [] → (segment :: rest).getLast? = rest.getLast? := by
      intro hne
      obtain ⟨next, rest, rfl⟩ := List.exists_cons_of_ne_nil hne
      exact List.getLast?_cons_cons
    cases hplain : isPlain segment with
    | true =>
      rw [removeDots_cons_plain hplain, ih hrest, List.filter_cons_of_pos hplain, List.append_assoc output,
        List.singleton_append]
      by_cases hne : rest = []
      · have hdot : segment ≠ ".".toList := by
          rintro rfl
          exact absurd hplain (by decide)
        subst hne
        have hnone : ¬ some segment = some ".".toList := fun he => hdot (Option.some.inj he)
        rw [List.getLast?_singleton, List.getLast?_nil, if_neg hnone]
        rfl
      · rw [hlast hne]
    | false =>
      have hdot : segment = ".".toList := by
        by_contra hdot
        rw [isPlain, decide_eq_true hdot, decide_eq_true (Ne.symm hsegment)] at hplain
        exact absurd hplain (by decide)
      rw [removeDots, if_neg (by rw [← isPlain, hplain]; decide),
        List.filter_cons_of_neg (by simp [hplain])]
      have hkept : (if segment = "..".toList && 1 < output.length then output.dropLast else output) =
          output := by
        rw [if_neg]
        rw [decide_eq_false (Ne.symm hsegment)]
        exact Bool.false_ne_true
      rw [hkept]
      change removeDots (if rest = [] then output ++ [[]] else output) rest = _
      by_cases hne : rest = []
      · subst hne
        rw [if_pos rfl, removeDots, hdot, List.getLast?_singleton, if_pos rfl, List.filter_nil,
          List.append_nil]
      · rw [if_neg hne, ih hrest, hlast hne]

theorem getLast?_removeDotSegments {text : Text} (h : ('/' :: text).getLast? = some '/') :
    (removeDotSegments ('/' :: text)).getLast? = some '/' := by
  have hne := List.splitOn_ne_nil '/' text
  have htwo : 2 ≤ (([] : Text) :: text.splitOn '/').length := by
    have := List.length_pos_iff.mpr hne
    rw [List.length_cons]
    omega
  have hempty : (text.splitOn '/').getLast hne = [] := by
    have hpath : '/' :: text = ['/'].intercalate ([] :: text.splitOn '/') := by
      rw [← Splitting.splitOn_cons_self, List.intercalate_splitOn]
    rw [hpath, Splitting.getLast?_intercalate htwo, List.getLast?_cons,
      List.getLast?_eq_some_getLast hne, Option.getD_some, Option.bind_some] at h
    have hslash : '/' ∉ (text.splitOn '/').getLast hne :=
      Splitting.not_mem_of_mem_splitOn (List.getLast_mem hne)
    rw [← List.getLast?_eq_none_iff]
    cases hlast : ((text.splitOn '/').getLast hne).getLast? with
    | none => rfl
    | some last =>
      rw [hlast, Option.some_or] at h
      rw [h] at hlast
      exact absurd (List.mem_of_getLast? hlast) hslash
  rw [removeDotSegments_slash, keptSegments,
    Splitting.getLast?_intercalate (two_le_length_removeDots hne (List.cons_ne_nil _ _)),
    removeDots_getLast? hne, hempty]
  rfl

/-- `_remove_dot_segments` is the procedure of RFC 3986, section 5.2.4. -/
theorem removeDotSegments_rfc3986 (text : Text) :
    removeDotSegments ('/' :: text) = rewriteLoop ('/' :: text) [] ∧
      (removeDotSegments ('/' :: text)).head? = some '/' ∧
      (∀ segment ∈ (removeDotSegments ('/' :: text)).splitOn '/',
        segment ≠ ".".toList ∧ segment ≠ "..".toList) ∧
      (('/' :: text).splitOn '/').count [] ≤
        ((removeDotSegments ('/' :: text)).splitOn '/').count [] +
          (('/' :: text).splitOn '/').count "..".toList ∧
      ("..".toList ∉ ('/' :: text).splitOn '/' →
        (removeDotSegments ('/' :: text)).splitOn '/' = (('/' :: text).splitOn '/').filter isPlain ++
          if (('/' :: text).splitOn '/').getLast? = some ".".toList then [[]] else []) ∧
      (('/' :: text).getLast? = some '/' →
        (removeDotSegments ('/' :: text)).getLast? = some '/') ∧
      removeDotSegments (removeDotSegments ('/' :: text)) = removeDotSegments ('/' :: text) := by
  have hsplit : ('/' :: text).splitOn '/' = [] :: text.splitOn '/' := Splitting.splitOn_cons_self '/' text
  have hkept : (removeDotSegments ('/' :: text)).splitOn '/' = removeDots [] (('/' :: text).splitOn '/') := by
    rw [splitOn_removeDotSegments, hsplit, removeDots_cons_plain (by decide)]
    rfl
  refine ⟨removeDotSegments_eq_rewriteLoop text, ?_, ?_, ?_, ?_, getLast?_removeDotSegments,
    removeDotSegments_idem text⟩
  · obtain ⟨kept, hkept⟩ := exists_removeDotSegments text
    rw [hkept]
    rfl
  · intro segment hs
    rw [hkept] at hs
    have hplain := plain_removeDots (by simp) segment hs
    simpa [isPlain] using hplain
  · rw [hkept]
    have hcount := count_removeDots (('/' :: text).splitOn '/') []
    rwa [List.count_nil, Nat.zero_add] at hcount
  · intro h
    rw [hkept, removeDots_of_not_mem h, List.nil_append]

example : removeDotSegments "/a/b/c/./../../g".toList = "/a/g".toList := by decide

end UrlCrawler
