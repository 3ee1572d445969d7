import Mathlib.Algebra.Order.BigOperators.Group.List
import Mathlib.Algebra.Order.Ring.Nat
import Mathlib.Data.List.Sort

/-! # Stable sorting, seen through a colouring

`insertionSort` is stable. Elements are sorted by one relation and seen through a function that need not
respect it: the colours of a sorted list depend on how elements of different colours compare, and on
nothing else.
-/
set_option autoImplicit false

namespace StableSort

variable {α β : Type*}

/-! ## One element more -/

section Split
variable {r : α → α → Prop} [DecidableRel r]

/-- A sorted list is cut where an element belongs. -/
theorem exists_orderedInsert [IsTrans α r] (a : α) {l : List α} (hl : l.Pairwise r) :
    ∃ below above, l = below ++ above ∧ l.orderedInsert r a = below ++ a :: above ∧
      (∀ b ∈ below, ¬r a b) ∧ ∀ b ∈ above, r a b := by
  induction l with
  | nil => exact ⟨[], [], rfl, rfl, nofun, nofun⟩
  | cons c l ih =>
    obtain ⟨hc, hl⟩ := List.pairwise_cons.mp hl
    by_cases hac : r a c
    · refine ⟨[], c :: l, rfl, if_pos hac, nofun, fun b hb => ?_⟩
      rcases List.mem_cons.mp hb with rfl | hb
      · exact hac
      · exact trans_of r hac (hc b hb)
    · obtain ⟨below, above, rfl, hinsert, hbelow, habove⟩ := ih hl
      refine ⟨c :: below, above, rfl, ?_, fun b hb => ?_, habove⟩
      · rw [List.orderedInsert_cons, if_neg hac, hinsert]
        rfl
      · rcases List.mem_cons.mp hb with rfl | hb
        · exact hac
        · exact hbelow b hb

/-- How many elements of a kind stand below the place of an element. -/
theorem countP_below {a : α} {below above l : List α} (hperm : (below ++ above).Perm l)
    (hbelow : ∀ b ∈ below, ¬r a b) (habove : ∀ b ∈ above, r a b) (p : α → Bool) :
    below.countP p = l.countP fun b => p b && !r a b := by
  have hzero : above.countP (fun b => p b && !r a b) = 0 :=
    List.countP_eq_zero.mpr fun b hb => by simp [habove b hb]
  rw [← hperm.countP_eq, List.countP_append, hzero, Nat.add_zero]
  exact List.countP_congr fun b hb => by simp [hbelow b hb]

end Split

theorem forall_of_cons_eq_concat {x : α} {l : List α} (h : x :: l = l ++ [x]) : ∀ y ∈ l, y = x := by
  induction l with
  | nil => nofun
  | cons z l ih =>
    obtain ⟨rfl, hl⟩ := List.cons.inj h
    intro y hy
    rcases List.mem_cons.mp hy with rfl | hy
    · rfl
    · exact ih hl y hy

theorem cons_eq_concat {x : α} {l : List α} (h : ∀ y ∈ l, y = x) : x :: l = l ++ [x] := by
  rw [List.eq_replicate_iff.mpr ⟨rfl, h⟩, ← List.replicate_succ', List.replicate_succ]

/-- An element put in at two places of one list gives the same list, if there is nothing but copies of it
between them. -/
theorem insert_congr [DecidableEq α] {x : α} {below above below' above' : List α}
    (h : below ++ above = below' ++ above')
    (hcount : below.countP (· ≠ x) = below'.countP (· ≠ x)) :
    below ++ x :: above = below' ++ x :: above' := by
  have hcopies {a b c : List α} (hab : (a ++ b).countP (· ≠ x) = a.countP (· ≠ x)) :
      a ++ x :: (b ++ c) = a ++ b ++ x :: c := by
    rw [List.countP_append, Nat.add_eq_left, List.countP_eq_zero] at hab
    have hb : x :: b = b ++ [x] := cons_eq_concat fun y hy => by simpa using hab y hy
    calc a ++ x :: (b ++ c) = a ++ (x :: b) ++ c := by simp
      _ = a ++ (b ++ [x]) ++ c := by rw [hb]
      _ = a ++ b ++ x :: c := by simp
  rcases List.append_eq_append_iff.mp h with ⟨between, rfl, rfl⟩ | ⟨between, rfl, rfl⟩
  · exact hcopies hcount.symm
  · exact (hcopies hcount).symm

/-- Where it gives the same list, the places have the same elements before them, but for copies of it. -/
theorem count_of_insert [DecidableEq α] {x : α} {below above below' above' : List α}
    (h : below ++ above = below' ++ above') (hinsert : below ++ x :: above = below' ++ x :: above')
    {y : α} (hy : y ≠ x) : below.count y = below'.count y := by
  have hcopies {a b c : List α} (heq : a ++ x :: (b ++ c) = a ++ b ++ x :: c) : b.count y = 0 := by
    have hb : x :: b ++ c = b ++ [x] ++ c := by simpa using heq
    refine List.count_eq_zero.mpr fun hmem => ?_
    exact hy (forall_of_cons_eq_concat (List.append_cancel_right hb) y hmem)
  rcases List.append_eq_append_iff.mp h with ⟨between, rfl, rfl⟩ | ⟨between, rfl, rfl⟩
  · rw [List.count_append, hcopies hinsert, Nat.add_zero]
  · rw [List.count_append, hcopies hinsert.symm, Nat.add_zero]

/-! ## Two orders -/

section Two
variable {r s : α → α → Prop} [DecidableRel r] [DecidableRel s] [Std.Total r] [IsTrans α r]
  [Std.Total s] [IsTrans α s]

/-- Orders that compare elements of different colours alike sort to the same colours. -/
theorem map_insertionSort_congr [DecidableEq β] (f : α → β) {l : List α}
    (h : l.Pairwise fun a b => f a ≠ f b → (r a b ↔ s a b)) :
    (l.insertionSort r).map f = (l.insertionSort s).map f := by
  induction l with
  | nil => rfl
  | cons a l ih =>
    obtain ⟨ha, hl⟩ := List.pairwise_cons.mp h
    have ih := ih hl
    obtain ⟨below, above, hsplit, hinsert, hbelow, habove⟩ :=
      exists_orderedInsert a (List.pairwise_insertionSort r l)
    obtain ⟨below', above', hsplit', hinsert', hbelow', habove'⟩ :=
      exists_orderedInsert a (List.pairwise_insertionSort s l)
    rw [List.insertionSort_cons, List.insertionSort_cons, hinsert, hinsert', List.map_append,
      List.map_append, List.map_cons, List.map_cons]
    rw [hsplit, hsplit', List.map_append, List.map_append] at ih
    refine insert_congr ih ?_
    rw [List.countP_map, List.countP_map,
      countP_below (hsplit ▸ List.perm_insertionSort r l) hbelow habove,
      countP_below (hsplit' ▸ List.perm_insertionSort s l) hbelow' habove']
    refine List.countP_congr fun b hb => ?_
    by_cases hcolour : f a = f b
    · simp [hcolour]
    · simp [ha b hb hcolour]

/-- Elements that stand in order, as far as they differ in colour, keep the colours where they are. -/
theorem map_insertionSort_of_pairwise [DecidableEq β] (f : α → β) {l : List α}
    (h : l.Pairwise fun a b => f a ≠ f b → r a b) : (l.insertionSort r).map f = l.map f := by
  have htotal : Std.Total fun _ _ : α => True := ⟨fun _ _ => .inl trivial⟩
  have htrans : IsTrans α fun _ _ => True := ⟨fun _ _ _ _ _ => trivial⟩
  have hany : l.Pairwise fun _ _ => True := List.pairwise_of_forall fun _ _ => trivial
  have hsame := map_insertionSort_congr (s := fun _ _ => True) f
    (h.imp fun hab hne => iff_of_true (hab hne) trivial)
  rw [hsame, hany.insertionSort_eq]

end Two

/-! ## Neighbours -/

section Insert
variable {r : α → α → Prop} [DecidableRel r]

theorem orderedInsert_append_of_not {a : α} {below : List α} (h : ∀ b ∈ below, ¬r a b) (l : List α) :
    (below ++ l).orderedInsert r a = below ++ l.orderedInsert r a := by
  induction below with
  | nil => rfl
  | cons b below ih =>
    rw [List.cons_append, List.orderedInsert_cons, if_neg (h b (List.mem_cons_self ..)),
      ih fun c hc => h c (List.mem_cons_of_mem _ hc)]
    rfl

theorem orderedInsert_append_of_rel {a : α} {l : List α} (h : ∀ b ∈ l.head?, r a b) (below : List α) :
    (below ++ l).orderedInsert r a = below.orderedInsert r a ++ l := by
  induction below with
  | nil =>
    cases l with
    | nil => rfl
    | cons b l => exact if_pos (h b rfl)
  | cons b below ih =>
    rw [List.cons_append, List.orderedInsert_cons, List.orderedInsert_cons, ih]
    split <;> rfl

variable [Std.Total r] [IsTrans α r]

/-- Elements that do not tie can be put in in either order. -/
theorem orderedInsert_comm {a b : α} (h : ¬(r a b ∧ r b a)) (l : List α) :
    (l.orderedInsert r b).orderedInsert r a = (l.orderedInsert r a).orderedInsert r b := by
  have htotal := total_of r a b
  induction l with
  | nil => grind
  | cons c l ih =>
    have hleft : r a b → r b c → r a c := trans_of r
    have hright : r b a → r a c → r b c := trans_of r
    grind

/-- Neighbours that do not tie can change places. -/
theorem insertionSort_swap {a b : α} (h : ¬(r a b ∧ r b a)) (before after : List α) :
    (before ++ a :: b :: after).insertionSort r = (before ++ b :: a :: after).insertionSort r := by
  induction before with
  | nil => exact orderedInsert_comm h _
  | cons c before ih => exact congrArg (List.orderedInsert r c) ih

/-- Sorting keeps the elements of a kind as if they had been sorted alone. -/
theorem filter_insertionSort (p : α → Bool) (l : List α) :
    (l.insertionSort r).filter p = (l.filter p).insertionSort r := by
  induction l with
  | nil => rfl
  | cons a l ih =>
    obtain ⟨below, above, hsplit, hinsert, hbelow, habove⟩ :=
      exists_orderedInsert a (List.pairwise_insertionSort r l)
    rw [List.insertionSort_cons, hinsert, List.filter_append, List.filter_cons, List.filter_cons]
    rw [hsplit, List.filter_append] at ih
    split
    · rw [List.insertionSort_cons, ← ih,
        orderedInsert_append_of_not fun b hb => hbelow b (List.mem_of_mem_filter hb)]
      congr 1
      cases hkept : above.filter p with
      | nil => rfl
      | cons b rest =>
        have hb : b ∈ above.filter p := hkept ▸ List.mem_cons_self ..
        exact (if_pos (habove b (List.mem_of_mem_filter hb))).symm
    · exact ih

/-! ## One element changed -/

/-- Where an element of a list is after sorting. -/
theorem exists_insertionSort (before : List α) (a : α) (after : List α) : ∃ below above,
    (before ++ a :: after).insertionSort r = below ++ a :: above ∧
      (before ++ after).insertionSort r = below ++ above ∧
      below.Perm (before.filter (fun b => r b a) ++ after.filter fun b => !r a b) := by
  induction before with
  | nil =>
    obtain ⟨below, above, hsplit, hinsert, hbelow, habove⟩ :=
      exists_orderedInsert a (List.pairwise_insertionSort r after)
    refine ⟨below, above, hinsert, hsplit, ?_⟩
    have hfilter : (below ++ above).filter (fun b => !r a b) = below := by
      rw [List.filter_append, List.filter_eq_self.mpr fun b hb => by simp [hbelow b hb],
        List.filter_eq_nil_iff.mpr fun b hb => by simp [habove b hb], List.append_nil]
    have hperm := (List.perm_insertionSort r after).filter fun b => !r a b
    rwa [hsplit, hfilter] at hperm
  | cons c before ih =>
    obtain ⟨below, above, hwith, hwithout, hperm⟩ := ih
    have hsorted := List.pairwise_insertionSort r (before ++ a :: after)
    rw [hwith, List.pairwise_append] at hsorted
    have habove : ∀ b ∈ above, r a b := (List.pairwise_cons.mp hsorted.2.1).1
    rw [List.cons_append, List.cons_append, List.insertionSort_cons, List.insertionSort_cons, hwith,
      hwithout]
    by_cases hc : r c a
    · refine ⟨below.orderedInsert r c, above, ?_, ?_, ?_⟩
      · exact orderedInsert_append_of_rel (fun b hb => by cases hb; exact hc) below
      · exact orderedInsert_append_of_rel
          (fun b hb => trans_of r hc (habove b (List.mem_of_mem_head? hb))) below
      · rw [List.filter_cons_of_pos (by simpa using hc)]
        exact (List.perm_orderedInsert r c below).trans (hperm.cons c)
    · have hbelow : ∀ b ∈ below, ¬r c b := fun b hb hcb =>
        hc (trans_of r hcb (hsorted.2.2 b hb a (List.mem_cons_self ..)))
      refine ⟨below, above.orderedInsert r c, ?_, orderedInsert_append_of_not hbelow above, ?_⟩
      · rw [orderedInsert_append_of_not hbelow, List.orderedInsert_cons, if_neg hc]
      · rwa [List.filter_cons_of_neg (by simpa using hc)]

theorem imp_of_countP_le {p q : α → Bool} {l : List α} (hpq : ∀ x ∈ l, p x = true → q x = true)
    (h : l.countP q ≤ l.countP p) : ∀ x ∈ l, q x = true → p x = true := by
  have hfilter : l.filter p = (l.filter q).filter p := by
    rw [List.filter_filter]
    refine List.filter_congr fun x hx => ?_
    cases hp : p x with
    | false => rfl
    | true => rw [hpq x hx hp, Bool.and_self]
  have heq : l.filter p = l.filter q := by
    refine List.Sublist.eq_of_length_le (hfilter ▸ List.filter_sublist) ?_
    rwa [← List.countP_eq_length_filter, ← List.countP_eq_length_filter]
  intro x hx hq
  have hmem : x ∈ l.filter q := List.mem_filter.mpr ⟨hx, hq⟩
  rw [← heq] at hmem
  exact (List.mem_filter.mp hmem).2

section Changed
variable [DecidableEq β] (f : α → β)

/-- Of each other colour, as many elements stand before an element as before the one it is changed to. -/
theorem countP_of_map_eq {before after : List α} {a a' : α} (ha : f a = f a')
    (heq : ((before ++ a :: after).insertionSort r).map f =
      ((before ++ a' :: after).insertionSort r).map f) {colour : β} (hcolour : colour ≠ f a) :
    before.countP (fun b => f b == colour && r b a) + after.countP (fun b => f b == colour && !r a b) =
      before.countP (fun b => f b == colour && r b a') +
        after.countP (fun b => f b == colour && !r a' b) := by
  obtain ⟨below, above, hwith, hwithout, hperm⟩ := exists_insertionSort (r := r) before a after
  obtain ⟨below', above', hwith', hwithout', hperm'⟩ := exists_insertionSort (r := r) before a' after
  rw [hwith, hwith', List.map_append, List.map_append, List.map_cons, List.map_cons, ← ha] at heq
  have hsplit : below.map f ++ above.map f = below'.map f ++ above'.map f := by
    rw [← List.map_append, ← List.map_append, ← hwithout, hwithout']
  have hcount := count_of_insert hsplit heq hcolour
  rw [(hperm.map f).count_eq, (hperm'.map f).count_eq] at hcount
  simpa [List.count_append, List.count, List.countP_map, List.countP_filter] using hcount

/-- A change to a later place leaves the elements of other colours where they were. -/
theorem rel_of_map_eq {before after : List α} {a a' : α} (ha : f a = f a')
    (heq : ((before ++ a :: after).insertionSort r).map f =
      ((before ++ a' :: after).insertionSort r).map f) (hle : r a a') {b : α} (hb : f b ≠ f a) :
    (b ∈ before → r b a' → r b a) ∧ (b ∈ after → r a b → r a' b) := by
  have hcount := countP_of_map_eq f ha heq hb
  have hbefore : ∀ c ∈ before, (f c == f b && r c a) = true → (f c == f b && r c a') = true := by
    intro c _ hc
    simp only [Bool.and_eq_true, decide_eq_true_eq] at hc ⊢
    exact ⟨hc.1, trans_of r hc.2 hle⟩
  have hafter : ∀ c ∈ after, (f c == f b && !r a c) = true → (f c == f b && !r a' c) = true := by
    intro c _ hc
    simp only [Bool.and_eq_true, Bool.not_eq_true', decide_eq_false_iff_not] at hc ⊢
    exact ⟨hc.1, fun h => hc.2 (trans_of r hle h)⟩
  have hmono := List.countP_mono_left hbefore
  have hmono' := List.countP_mono_left hafter
  refine ⟨fun hmem h => ?_, fun hmem h => ?_⟩
  · have himp := imp_of_countP_le hbefore (by omega) b hmem (by simpa using h)
    simpa using himp
  · by_contra hnot
    have himp := imp_of_countP_le hafter (by omega) b hmem (by simpa using hnot)
    simp [h] at himp

/-- An element that is changed and keeps its colour still compares alike with those of other colours, if
the colours of the sorted list stay the same. -/
theorem rel_iff_of_map_eq {before after : List α} {a a' : α} (ha : f a = f a')
    (heq : ((before ++ a :: after).insertionSort r).map f =
      ((before ++ a' :: after).insertionSort r).map f) {b : α} (hb : f b ≠ f a) :
    (b ∈ before → (r b a ↔ r b a')) ∧ (b ∈ after → (r a b ↔ r a' b)) := by
  rcases total_of r a a' with hle | hle
  · have hback := rel_of_map_eq f ha heq hle hb
    exact ⟨fun h => ⟨fun hba => trans_of r hba hle, hback.1 h⟩,
      fun h => ⟨hback.2 h, fun hab => trans_of r hle hab⟩⟩
  · have hback := rel_of_map_eq f ha.symm heq.symm hle (ha ▸ hb)
    exact ⟨fun h => ⟨hback.1 h, fun hba => trans_of r hba hle⟩,
      fun h => ⟨fun hab => trans_of r hle hab, hback.2 h⟩⟩

/-- An element changed, keeping its colour, leaves the colours of the sorted list as they are if it still
compares alike with the elements of other colours. -/
theorem map_eq_of_rel_iff {before after : List α} {a a' : α} (ha : f a = f a')
    (hbefore : ∀ b ∈ before, f b ≠ f a → (r b a ↔ r b a'))
    (hafter : ∀ b ∈ after, f b ≠ f a → (r a b ↔ r a' b)) :
    ((before ++ a :: after).insertionSort r).map f = ((before ++ a' :: after).insertionSort r).map f := by
  -- both lists are one list of pairs, sorted by the first or by the second
  have htotal (g : α × α → α) : Std.Total fun x y => r (g x) (g y) := ⟨fun _ _ => total_of r _ _⟩
  have htrans (g : α × α → α) : IsTrans (α × α) fun x y => r (g x) (g y) :=
    ⟨fun _ _ _ hxy hyz => trans_of r hxy hyz⟩
  have hfst := htotal Prod.fst
  have hsnd := htotal Prod.snd
  have hfst' := htrans Prod.fst
  have hsnd' := htrans Prod.snd
  let pairs : List (α × α) := before.map (fun b => (b, b)) ++ (a, a') :: after.map fun b => (b, b)
  have hsort (g : α × α → α) : ((pairs.map g).insertionSort r).map f =
      (pairs.insertionSort fun x y => r (g x) (g y)).map (f ∘ g) := by
    rw [← List.map_map, List.map_insertionSort _ r]
    exact fun _ _ _ _ => Iff.rfl
  have hbefore' : before ++ a :: after = pairs.map Prod.fst := by simp [pairs, Function.comp_def]
  have hafter' : before ++ a' :: after = pairs.map Prod.snd := by simp [pairs, Function.comp_def]
  have hcolour : ∀ x ∈ pairs, f x.2 = f x.1 := by
    intro x hx
    simp only [pairs, List.mem_append, List.mem_map, List.mem_cons] at hx
    rcases hx with ⟨b, -, rfl⟩ | rfl | ⟨b, -, rfl⟩
    · rfl
    · exact ha.symm
    · rfl
  rw [hbefore', hafter', hsort, hsort, map_insertionSort_congr (s := fun x y => r x.2 y.2)]
  · exact List.map_congr_left fun x hx => (hcolour x ((List.mem_insertionSort _).mp hx)).symm
  · rw [List.pairwise_append, List.pairwise_cons, List.pairwise_map, List.pairwise_map]
    have hself (l : List α) : l.Pairwise fun b c => (f ∘ Prod.fst) (b, b) ≠ (f ∘ Prod.fst) (c, c) →
        (r b c ↔ r b c) := List.pairwise_of_forall fun _ _ _ => Iff.rfl
    refine ⟨hself before, ⟨fun x hx hne => ?_, hself after⟩, fun x hx y hy hne => ?_⟩
    · obtain ⟨b, hb, rfl⟩ := List.mem_map.mp hx
      exact hafter b hb hne.symm
    · obtain ⟨b, hb, rfl⟩ := List.mem_map.mp hx
      rcases List.mem_cons.mp hy with rfl | hy
      · exact hbefore b hb hne
      · obtain ⟨c, -, rfl⟩ := List.mem_map.mp hy
        exact Iff.rfl

end Changed

end Insert

/-! ## Groups -/

/-- Lists that agree group by group hold the same elements. -/
theorem perm_of_groups {κ : Type*} [DecidableEq κ] [DecidableEq β] {l l' : List (κ × β)}
    (h : ∀ k, (l.filter fun x => x.1 = k).map Prod.snd = (l'.filter fun x => x.1 = k).map Prod.snd) :
    l.Perm l' := by
  have hcount (k : κ) (b : β) (m : List (κ × β)) :
      m.count (k, b) = ((m.filter fun x => x.1 = k).map Prod.snd).count b := by
    rw [List.count, List.count, List.countP_map, List.countP_filter]
    refine List.countP_congr fun x _ => ?_
    simp [Prod.ext_iff, and_comm]
  rw [List.perm_iff_count]
  intro x
  rw [hcount x.1 x.2 l, hcount x.1 x.2 l', h]

/-- A list whose measures are no greater one by one, and of which the sum is the same, has the same
measures. -/
theorem eq_of_sum_eq {f g : α → Nat} {l : List α} (hle : ∀ x ∈ l, f x ≤ g x)
    (hsum : (l.map f).sum = (l.map g).sum) : ∀ x ∈ l, f x = g x := by
  by_contra hne
  push Not at hne
  obtain ⟨x, hx, hne⟩ := hne
  exact absurd hsum (List.sum_lt_sum f g hle ⟨x, hx, lt_of_le_of_ne (hle x hx) hne⟩).ne

end StableSort
