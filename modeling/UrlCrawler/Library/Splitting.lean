import Mathlib.Data.List.Basic

/-! # Lists split at an element

`splitOn x` cuts a list at every `x` and `[x].intercalate` puts the pieces together again.
-/
set_option autoImplicit false

namespace Splitting

variable {α : Type*}

theorem splitOn_cons_self [DecidableEq α] (x : α) (l : List α) :
    (x :: l).splitOn x = [] :: l.splitOn x :=
  List.splitOn_append_cons_self_of_not_mem List.not_mem_nil l

/-- No piece holds what the list was split at. -/
theorem not_mem_of_mem_splitOn [DecidableEq α] {x : α} {l piece : List α} (h : piece ∈ l.splitOn x) :
    x ∉ piece := by
  induction l generalizing piece with
  | nil => simp_all
  | cons a l ih =>
    rw [List.splitOn_cons_eq_if_modifyHead] at h
    split at h
    · rcases List.mem_cons.mp h with rfl | h
      · exact List.not_mem_nil
      · exact ih h
    · rename_i ha
      obtain ⟨first, rest, hsplit⟩ := List.exists_cons_of_ne_nil (List.splitOn_ne_nil x l)
      rw [hsplit] at h ih
      rcases List.mem_cons.mp h with rfl | h
      · rw [List.mem_cons, not_or]
        exact ⟨fun he => ha (by simp [he]), ih (List.mem_cons_self ..)⟩
      · exact ih (List.mem_cons_of_mem _ h)

/-- Pieces that are changed one by one and put together with another element between them. -/
theorem intercalate_map_splitOn [DecidableEq α] {β : Type*} (x : α) (y : β) (f : α → β) (l : List α) :
    [y].intercalate ((l.splitOn x).map (List.map f)) = l.map fun a => if a = x then y else f a := by
  induction l with
  | nil => simp
  | cons a l ih =>
    obtain ⟨first, rest, hsplit⟩ := List.exists_cons_of_ne_nil (List.splitOn_ne_nil x l)
    rw [List.splitOn_cons_eq_if_modifyHead, List.map_cons, ← ih, hsplit]
    by_cases ha : a = x
    · rw [if_pos (by simpa using ha), if_pos ha, List.map_cons, List.map_cons, List.map_nil,
        List.intercalate_cons_cons]
      rfl
    · rw [if_neg (by simpa using ha), if_neg ha, List.modifyHead_cons, List.map_cons, List.map_cons,
        List.map_cons]
      cases rest with
      | nil => simp
      | cons b rest =>
        rw [List.map_cons, List.intercalate_cons_cons, List.intercalate_cons_cons]
        rfl

/-- A function that works on both sides of an element alone works on every piece. -/
theorem splitOn_of_append [DecidableEq α] {x : α} {f : List α → List α}
    (happend : ∀ a b, f (a ++ x :: b) = f a ++ x :: f b) (hnot : ∀ a, x ∉ a → x ∉ f a) (l : List α) :
    (f l).splitOn x = (l.splitOn x).map f := by
  induction hlength : l.length using Nat.strongRecOn generalizing l with
  | ind n ih =>
    by_cases hx : x ∈ l
    · obtain ⟨a, b, rfl, ha⟩ := List.eq_append_cons_of_mem hx
      have hlt : b.length < n := by
        rw [← hlength, List.length_append, List.length_cons]
        omega
      rw [happend, List.splitOn_append_cons_self_of_not_mem (hnot a ha),
        List.splitOn_append_cons_self_of_not_mem ha, ih _ hlt b rfl, List.map_cons]
    · rw [List.splitOn_eq_singleton hx, List.splitOn_eq_singleton (hnot l hx), List.map_singleton]

/-- A list with at least two pieces ends as its last piece does, or in the element between them. -/
theorem getLast?_intercalate {x : α} {l : List (List α)} (h : 2 ≤ l.length) :
    ([x].intercalate l).getLast? = (l.getLast?.bind List.getLast?).or (some x) := by
  induction l with
  | nil => simp at h
  | cons a l ih =>
    obtain ⟨b, l, rfl⟩ : ∃ b l', l = b :: l' := by
      cases l with
      | nil => simp at h
      | cons b l' => exact ⟨b, l', rfl⟩
    rw [List.intercalate_cons_cons, List.getLast?_append, List.getLast?_append]
    cases l with
    | nil => simp
    | cons c l =>
      rw [ih (by simp)]
      cases hlast : (((b :: c :: l).getLast?.bind List.getLast?).or (some x)) with
      | none => simp at hlast
      | some y =>
        rw [List.getLast?_cons_cons, hlast]
        rfl

/-! ## Lines that have been ended -/

/-- The pieces of a text that a separator ends; `piece` has been read of the first one. What comes
after the last separator is still being written and is left out. -/
def endedFrom [DecidableEq α] (x : α) (piece : List α) : List α → List (List α)
  | [] => []
  | a :: l => if a = x then piece :: endedFrom x [] l else endedFrom x (piece ++ [a]) l

def ended [DecidableEq α] (x : α) (l : List α) : List (List α) := endedFrom x [] l

theorem endedFrom_append [DecidableEq α] {x : α} {piece : List α} (hx : x ∉ piece)
    (read rest : List α) :
    endedFrom x read (piece ++ x :: rest) = (read ++ piece) :: ended x rest := by
  induction piece generalizing read with
  | nil => simp [endedFrom, ended]
  | cons a piece ih =>
    have ha : a ≠ x := fun h => hx (h ▸ List.mem_cons_self ..)
    rw [List.cons_append, endedFrom, if_neg ha, ih (fun h => hx (List.mem_cons_of_mem _ h)),
      List.append_assoc, List.singleton_append]

/-- Pieces that are written with a separator after each are read back. -/
theorem ended_pieces [DecidableEq α] {x : α} {pieces : List (List α)}
    (h : ∀ piece ∈ pieces, x ∉ piece) : ended x (pieces.flatMap (· ++ [x])) = pieces := by
  induction pieces with
  | nil => rfl
  | cons piece pieces ih =>
    rw [List.flatMap_cons, List.append_assoc, List.singleton_append, ended,
      endedFrom_append (h piece (List.mem_cons_self ..)),
      ih fun p hp => h p (List.mem_cons_of_mem _ hp)]
    rfl

/-- A text cut off anywhere has lost pieces at its end only. -/
theorem endedFrom_prefix [DecidableEq α] (x : α) (piece : List α) {l m : List α} (h : l <+: m) :
    endedFrom x piece l <+: endedFrom x piece m := by
  induction l generalizing m piece with
  | nil => exact List.nil_prefix
  | cons a l ih =>
    obtain ⟨more, rfl⟩ := h
    rw [List.cons_append, endedFrom, endedFrom]
    split
    · exact List.prefix_cons_inj _ |>.mpr (ih [] (List.prefix_append l more))
    · exact ih _ (List.prefix_append l more)

theorem ended_of_start [DecidableEq α] (x : α) {l m : List α} (h : l <+: m) :
    ended x l <+: ended x m :=
  endedFrom_prefix x [] h

end Splitting
