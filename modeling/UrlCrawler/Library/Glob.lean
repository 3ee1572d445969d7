import Mathlib.Data.List.Basic

/-! # Globs

A glob is a list in which one item, the star, stands for a run of any items that it may cross; every
other item stands for itself. A backtracking matcher finds exactly the beginnings of a text that a glob
stands for.
-/
set_option autoImplicit false

namespace Glob

variable {α : Type*}

/-- The words a glob stands for, when its star stands for runs of items that satisfy `crosses`. -/
inductive Matches (star : α) (crosses : α → Prop) : List α → List α → Prop
  | nil : Matches star crosses [] []
  | item {c : α} {p w : List α} (hc : c ≠ star) (h : Matches star crosses p w) :
      Matches star crosses (c :: p) (c :: w)
  | run {p w : List α} (run : List α) (hrun : ∀ x ∈ run, crosses x) (h : Matches star crosses p w) :
      Matches star crosses (star :: p) (run ++ w)

section Matches
variable {star : α} {crosses : α → Prop}

theorem Matches.mono {crosses' : α → Prop} (hmono : ∀ x, crosses x → crosses' x) {p w : List α}
    (h : Matches star crosses p w) : Matches star crosses' p w := by
  induction h with
  | nil => exact .nil
  | item hc _ ih => exact .item hc ih
  | run r hrun _ ih => exact .run r (fun x hx => hmono x (hrun x hx)) ih

/-- Only what is in the word has to be crossed. -/
theorem Matches.of_word {crosses' : α → Prop} {p w : List α} (h : Matches star crosses p w)
    (hw : ∀ x ∈ w, crosses' x) : Matches star crosses' p w := by
  induction h with
  | nil => exact .nil
  | item hc _ ih => exact .item hc (ih fun x hx => hw x (List.mem_cons_of_mem _ hx))
  | run r _ _ ih =>
    exact .run r (fun x hx => hw x (List.mem_append_left _ hx))
      (ih fun x hx => hw x (List.mem_append_right _ hx))

/-- Without a star a glob stands for itself. -/
theorem matches_self {p : List α} (h : star ∉ p) : Matches star crosses p p := by
  induction p with
  | nil => exact .nil
  | cons c p ih =>
    rw [List.mem_cons, not_or] at h
    exact .item (Ne.symm h.1) (ih h.2)

theorem Matches.eq_of_not_mem {p w : List α} (hm : Matches star crosses p w) (h : star ∉ p) :
    w = p := by
  induction hm with
  | nil => rfl
  | item _ _ ih => rw [ih fun hp => h (List.mem_cons_of_mem _ hp)]
  | run _ _ _ _ => exact absurd (List.mem_cons_self ..) h

/-- A star may stand for nothing. -/
theorem matches_filter [DecidableEq α] (p : List α) :
    Matches star crosses p (p.filter (· ≠ star)) := by
  induction p with
  | nil => exact .nil
  | cons c p ih =>
    by_cases hc : c = star
    · subst hc
      have hempty : Matches c crosses (c :: p) ([] ++ p.filter (· ≠ c)) := .run [] nofun ih
      simpa using hempty
    · have hitem : Matches star crosses (c :: p) (c :: p.filter (· ≠ star)) := .item hc ih
      simpa [hc] using hitem

/-- A word that ends in the star itself was ended by a star, which can stand for more. -/
theorem Matches.append_of_getLast? {p w : List α} (h : Matches star crosses p w)
    (hlast : w.getLast? = some star) {v : List α} (hv : ∀ x ∈ v, crosses x) :
    Matches star crosses p (w ++ v) := by
  induction h with
  | nil => cases hlast
  | @item c p w hc h ih =>
    cases w with
    | nil => exact absurd (Option.some.inj hlast) hc
    | cons x w =>
      rw [List.getLast?_cons_cons] at hlast
      exact .item hc (ih hlast)
  | @run p w r hrun h ih =>
    cases w with
    | nil =>
      rw [List.append_nil]
      have hlonger : Matches star crosses (star :: p) ((r ++ v) ++ []) :=
        .run (r ++ v) (fun x hx => (List.mem_append.mp hx).elim (hrun x) (hv x)) h
      rwa [List.append_nil] at hlonger
    | cons x w =>
      rw [List.append_assoc]
      refine .run r hrun (ih ?_)
      rwa [List.getLast?_append_of_ne_nil _ (List.cons_ne_nil _ _)] at hlast

/-- What a star cannot cross at the end of a word was matched as an item, or can be left out. -/
theorem Matches.of_dropLast {crosses' : α → Prop} {p w : List α} (h : Matches star crosses p w)
    (hw : ∀ x ∈ w.dropLast, crosses' x) :
    Matches star crosses' p w ∨ ∃ v x, w = v ++ [x] ∧ ¬crosses' x ∧ Matches star crosses' p v := by
  induction h with
  | nil => exact .inl .nil
  | @item c p w hc h ih =>
    rcases ih fun x hx => hw x (by cases w <;> simp_all) with h | ⟨v, x, rfl, hx, h⟩
    · exact .inl (.item hc h)
    · exact .inr ⟨c :: v, x, rfl, hx, .item hc h⟩
  | @run p w r hrun h ih =>
    rcases List.eq_nil_or_concat' w with rfl | ⟨v, x, rfl⟩
    · have hnil : Matches star crosses' p [] := by
        rcases ih nofun with h | ⟨v, x, he, -, -⟩
        · exact h
        · simp at he
      rw [List.append_nil] at hw ⊢
      rcases List.eq_nil_or_concat' r with rfl | ⟨s, y, rfl⟩
      · exact .inl (.run [] nofun hnil)
      · rw [List.dropLast_concat] at hw
        have hshort : Matches star crosses' (star :: p) s := by
          rw [← List.append_nil s]
          exact .run s hw hnil
        by_cases hy : crosses' y
        · left
          rw [← List.append_nil (s ++ [y])]
          refine .run (s ++ [y]) (fun x hx => ?_) hnil
          rcases List.mem_append.mp hx with hx | hx
          · exact hw x hx
          · rwa [List.mem_singleton.mp hx]
        · exact .inr ⟨s, y, rfl, hy, hshort⟩
    · rw [← List.append_assoc, List.dropLast_concat] at hw
      have hr : ∀ y ∈ r, crosses' y := fun y hy => hw y (List.mem_append_left _ hy)
      rcases ih fun y hy => hw y (by
        rw [List.dropLast_concat] at hy
        exact List.mem_append_right _ hy) with h | ⟨v', y, he, hy, h⟩
      · exact .inl (.run r hr h)
      · refine .inr ⟨r ++ v', y, ?_, hy, .run r hr h⟩
        rw [he, List.append_assoc]

end Matches

/-! ## The matcher -/

/-- At a star: go on here, or let the star cross one more item. -/
def acceptsRun (crosses : α → Bool) (next : List α → Bool) : List α → Bool
  | [] => next []
  | x :: t => next (x :: t) || (crosses x && acceptsRun crosses next t)

def acceptsItem [DecidableEq α] (c : α) (next : List α → Bool) : List α → Bool
  | [] => false
  | x :: t => c = x && next t

/-- Whether a beginning of the text matches, with a rest that `stop` admits. -/
def accepts [DecidableEq α] (star : α) (crosses : α → Bool) (stop : List α → Bool) :
    List α → List α → Bool
  | [] => stop
  | c :: p =>
    if c = star then acceptsRun crosses (accepts star crosses stop p)
    else acceptsItem c (accepts star crosses stop p)

theorem acceptsRun_iff {crosses : α → Bool} {next : List α → Bool} {t : List α} :
    acceptsRun crosses next t = true ↔
      ∃ run rest, t = run ++ rest ∧ (∀ x ∈ run, crosses x = true) ∧ next rest = true := by
  induction t with
  | nil =>
    refine ⟨fun h => ⟨[], [], rfl, nofun, h⟩, ?_⟩
    rintro ⟨run, rest, h, -, hnext⟩
    rwa [(List.append_eq_nil_iff.mp h.symm).2] at hnext
  | cons x t ih =>
    rw [acceptsRun, Bool.or_eq_true, Bool.and_eq_true, ih]
    constructor
    · rintro (h | ⟨hx, run, rest, rfl, hrun, hnext⟩)
      · exact ⟨[], x :: t, rfl, nofun, h⟩
      · refine ⟨x :: run, rest, rfl, fun y hy => ?_, hnext⟩
        rcases List.mem_cons.mp hy with rfl | hy
        · exact hx
        · exact hrun y hy
    · rintro ⟨run, rest, h, hrun, hnext⟩
      cases run with
      | nil =>
        rw [List.nil_append] at h
        exact .inl (h ▸ hnext)
      | cons y run =>
        obtain ⟨rfl, rfl⟩ := List.cons.inj h
        exact .inr ⟨hrun x (List.mem_cons_self ..), run, rest, rfl,
          fun y hy => hrun y (List.mem_cons_of_mem _ hy), hnext⟩

theorem acceptsItem_iff [DecidableEq α] {c : α} {next : List α → Bool} {t : List α} :
    acceptsItem c next t = true ↔ ∃ rest, t = c :: rest ∧ next rest = true := by
  cases t with
  | nil => exact iff_of_false nofun nofun
  | cons x t =>
    rw [acceptsItem, Bool.and_eq_true, decide_eq_true_iff]
    constructor
    · rintro ⟨rfl, h⟩
      exact ⟨t, rfl, h⟩
    · rintro ⟨rest, h, hnext⟩
      obtain ⟨rfl, rfl⟩ := List.cons.inj h
      exact ⟨rfl, hnext⟩

/-- The matcher backtracks over every run a star can stand for. -/
theorem accepts_iff [DecidableEq α] {star : α} {crosses : α → Bool} {stop : List α → Bool}
    {p t : List α} :
    accepts star crosses stop p t = true ↔
      ∃ w rest, t = w ++ rest ∧ Matches star (crosses · = true) p w ∧ stop rest = true := by
  induction p generalizing t with
  | nil =>
    refine ⟨fun h => ⟨[], t, rfl, .nil, h⟩, ?_⟩
    rintro ⟨w, rest, rfl, hw, hstop⟩
    cases hw
    exact hstop
  | cons c p ih =>
    rw [accepts]
    split
    · rename_i hc
      subst hc
      rw [acceptsRun_iff]
      constructor
      · rintro ⟨run, rest, rfl, hrun, hnext⟩
        obtain ⟨w, rest, rfl, hw, hstop⟩ := ih.mp hnext
        exact ⟨run ++ w, rest, (List.append_assoc ..).symm, .run run hrun hw, hstop⟩
      · rintro ⟨w, rest, rfl, hw, hstop⟩
        cases hw with
        | item hc _ => exact absurd rfl hc
        | run r hrun h => exact ⟨r, _, List.append_assoc .., hrun, ih.mpr ⟨_, rest, rfl, h, hstop⟩⟩
    · rename_i hc
      rw [acceptsItem_iff]
      constructor
      · rintro ⟨rest, rfl, hnext⟩
        obtain ⟨w, rest, rfl, hw, hstop⟩ := ih.mp hnext
        exact ⟨c :: w, rest, rfl, .item hc hw, hstop⟩
      · rintro ⟨w, rest, rfl, hw, hstop⟩
        cases hw with
        | item _ h => exact ⟨_, rfl, ih.mpr ⟨_, rest, rfl, h, hstop⟩⟩
        | run _ _ _ => exact absurd rfl hc

end Glob
