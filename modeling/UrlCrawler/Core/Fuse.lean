import UrlCrawler.Core.CrawlerSteps
import Mathlib.Data.List.DropRight

/-! # The failure fuse

`_check_fuse` as an automaton over the results handed to `_handle`: it trips when the sequence has, with
no `FetchResult` among them, as many failures as the fuse allows, and what comes after does not
change its reason.
-/
set_option autoImplicit false

namespace UrlCrawler
open Execution Crawler Effects

namespace FetchOutcome

def isError : FetchOutcome → Bool
  | ok _ => false
  | error _ => true

/-- A timeout, a failed connection, a protocol error or a server error. -/
def countsTowardFuse : FetchOutcome → Bool
  | ok _ => false
  | error failure => Crawler.countsTowardFuse failure

end FetchOutcome

/-- The results contain `fuse` failures that count, and no `FetchResult` between the first and the last of
them. -/
def Trips (fuse : ℤ) (results : List FetchOutcome) : Prop :=
  ∃ failures, failures <:+: results ∧ (∀ r ∈ failures, r.isError = true) ∧
    (failures.countP FetchOutcome.countsTowardFuse : ℤ) = fuse

/-- The failures that count since the last `FetchResult`. -/
def trailingFailures (results : List FetchOutcome) : ℕ :=
  (results.rtakeWhile FetchOutcome.isError).countP FetchOutcome.countsTowardFuse

theorem countP_le_trailing {failures results : List FetchOutcome} (h : failures <:+ results)
    (herror : ∀ r ∈ failures, r.isError = true) :
    failures.countP FetchOutcome.countsTowardFuse ≤ trailingFailures results := by
  obtain ⟨front, rfl⟩ := h
  have herror' : ∀ r ∈ failures.reverse, r.isError = true :=
    fun r hr => herror r (List.mem_reverse.mp hr)
  have htail : (front ++ failures).rtakeWhile FetchOutcome.isError =
      front.rtakeWhile FetchOutcome.isError ++ failures := by
    rw [List.rtakeWhile, List.reverse_append, List.takeWhile_append_of_pos herror',
      List.reverse_append, List.reverse_reverse]
    rfl
  rw [trailingFailures, htail, List.countP_append]
  exact Nat.le_add_left _ _

theorem trailingFailures_ok (results : List FetchOutcome) (result : FetchResult) :
    trailingFailures (results ++ [.ok result]) = 0 := by
  rw [trailingFailures, List.rtakeWhile_concat_neg _ _ _ (by simp [FetchOutcome.isError])]
  rfl

theorem trailingFailures_error (results : List FetchOutcome) (failure : FetchError) :
    trailingFailures (results ++ [.error failure]) =
      trailingFailures results + if Crawler.countsTowardFuse failure then 1 else 0 := by
  rw [trailingFailures, List.rtakeWhile_concat_pos _ _ _ rfl, List.countP_append,
    List.countP_singleton]
  rfl

/-! ## The automaton -/

/-- The fields `_handle` and `_check_fuse` work on. -/
structure Fuse where
  failures : ℕ := 0
  aborted : Bool := false
  reason : Option String := none

namespace Fuse

/-- What a result handed to `_handle` does to them. -/
def next (fuse : ℤ) (f : Fuse) : FetchOutcome → Fuse
  | .ok _ => { f with failures := 0 }
  | .error error =>
    if f.aborted || !Crawler.countsTowardFuse error then f
    else if ((f.failures + 1 : ℕ) : ℤ) < fuse then { f with failures := f.failures + 1 }
    else ⟨f.failures + 1, true, some (toString (f.failures + 1) ++ " consecutive failures")⟩

/-- The reason of an aborted crawl. -/
def reasonOf (fuse : ℤ) : String := toString fuse.toNat ++ " consecutive failures"

/-- The fuse after some results: it has tripped if they say so, and counts what trails them if not. -/
structure After (fuse : ℤ) (results : List FetchOutcome) (f : Fuse) : Prop where
  aborted : f.aborted = true ↔ Trips fuse results
  reason : f.reason = if f.aborted then some (reasonOf fuse) else none
  failures : f.aborted = false → f.failures = trailingFailures results ∧ (f.failures : ℤ) < fuse

variable {fuse : ℤ} {results : List FetchOutcome} {f : Fuse}

theorem Trips.append (h : Trips fuse results) (more : List FetchOutcome) :
    Trips fuse (results ++ more) := by
  obtain ⟨failures, hinfix, herror, hcount⟩ := h
  exact ⟨failures, hinfix.trans (List.prefix_append _ _).isInfix, herror, hcount⟩

/-- A sequence trips the fuse at its end, or has tripped it before. -/
theorem trips_concat {r : FetchOutcome} (h : Trips fuse (results ++ [r])) :
    Trips fuse results ∨ ∃ failures, failures <:+ results ++ [r] ∧
      (∀ r ∈ failures, r.isError = true) ∧
      (failures.countP FetchOutcome.countsTowardFuse : ℤ) = fuse := by
  obtain ⟨failures, hinfix, herror, hcount⟩ := h
  rcases List.infix_concat_iff.mp hinfix with hsuffix | hold
  · exact .inr ⟨failures, hsuffix, herror, hcount⟩
  · exact .inl ⟨failures, hold, herror, hcount⟩

/-- The fuse does not trip at a result that leaves too few failures behind it. -/
theorem trips_concat_of_lt {r : FetchOutcome}
    (hlt : (trailingFailures (results ++ [r]) : ℤ) < fuse) :
    Trips fuse (results ++ [r]) ↔ Trips fuse results := by
  constructor
  · intro h
    refine (trips_concat h).resolve_right ?_
    rintro ⟨failures, hsuffix, herror, hcount⟩
    have hle := countP_le_trailing hsuffix herror
    omega
  · exact fun h => Trips.append h [r]

theorem After.init (hpos : 1 ≤ fuse) : After fuse [] {} where
  aborted := by
    constructor
    · intro h
      cases h
    · rintro ⟨failures, hinfix, -, hcount⟩
      obtain rfl := List.infix_nil.mp hinfix
      rw [List.countP_nil] at hcount
      omega
  reason := rfl
  failures := fun _ => ⟨rfl, lt_of_lt_of_le Int.one_pos hpos⟩

section Error
variable {error : FetchError}

theorem next_of_aborted (h : f.aborted = true) : f.next fuse (.error error) = f := by
  simp [Fuse.next, h]

theorem next_of_other (h : Crawler.countsTowardFuse error = false) :
    f.next fuse (.error error) = f := by
  simp [Fuse.next, h]

theorem next_of_lt (ha : f.aborted = false) (hc : Crawler.countsTowardFuse error = true)
    (hlt : ((f.failures + 1 : ℕ) : ℤ) < fuse) :
    f.next fuse (.error error) = { f with failures := f.failures + 1 } := by
  simp only [Fuse.next, ha, hc, Bool.not_true, Bool.or_self, Bool.false_eq_true, if_false,
    if_pos hlt]

theorem next_of_not_lt (ha : f.aborted = false) (hc : Crawler.countsTowardFuse error = true)
    (hle : ¬((f.failures + 1 : ℕ) : ℤ) < fuse) : f.next fuse (.error error) =
      ⟨f.failures + 1, true, some (toString (f.failures + 1) ++ " consecutive failures")⟩ := by
  simp only [Fuse.next, ha, hc, Bool.not_true, Bool.or_self, Bool.false_eq_true, if_false,
    if_neg hle]

end Error

/-- Every result keeps the fuse what the results say. -/
theorem After.next (hpos : 1 ≤ fuse) (h : After fuse results f) (r : FetchOutcome) :
    After fuse (results ++ [r]) (f.next fuse r) := by
  cases r with
  | ok result =>
    have htrailing := trailingFailures_ok results result
    have hnone : ((0 : ℕ) : ℤ) < fuse := lt_of_lt_of_le Int.one_pos hpos
    have hsame := trips_concat_of_lt (r := .ok result) (htrailing ▸ hnone)
    exact ⟨h.aborted.trans hsame.symm, h.reason, fun _ => ⟨htrailing.symm, hnone⟩⟩
  | error error =>
    have htrailing := trailingFailures_error results error
    cases haborted : f.aborted with
    | true =>
      rw [next_of_aborted haborted]
      have htrips := Trips.append (h.aborted.mp haborted) [.error error]
      exact ⟨by simp [haborted, htrips], h.reason, fun hf => by simp [haborted] at hf⟩
    | false =>
      obtain ⟨hfailures, hlt⟩ := h.failures haborted
      cases hcounts : Crawler.countsTowardFuse error with
      | false =>
        rw [hcounts, if_neg (by simp), Nat.add_zero, ← hfailures] at htrailing
        rw [next_of_other hcounts]
        have hsame := trips_concat_of_lt (r := .error error) (htrailing ▸ hlt)
        exact ⟨h.aborted.trans hsame.symm, h.reason, fun _ => ⟨htrailing.symm, hlt⟩⟩
      | true =>
        rw [hcounts, if_pos rfl, ← hfailures] at htrailing
        by_cases hnext : ((f.failures + 1 : ℕ) : ℤ) < fuse
        · rw [next_of_lt haborted hcounts hnext]
          have hsame := trips_concat_of_lt (r := .error error) (htrailing ▸ hnext)
          exact ⟨h.aborted.trans hsame.symm, h.reason, fun _ => ⟨htrailing.symm, hnext⟩⟩
        · rw [next_of_not_lt haborted hcounts hnext]
          have hreached : ((f.failures + 1 : ℕ) : ℤ) = fuse := by omega
          have htrips : Trips fuse (results ++ [.error error]) := by
            refine ⟨_, (List.rtakeWhile_suffix FetchOutcome.isError _).isInfix, fun r hr => ?_, ?_⟩
            · exact List.mem_rtakeWhile_imp hr
            · rw [← hreached, ← htrailing]
              rfl
          have hnat : fuse.toNat = f.failures + 1 := by omega
          refine ⟨by simp [htrips], ?_, fun hf => by simp at hf⟩
          rw [if_pos rfl, reasonOf, hnat]

theorem after_foldl (hpos : 1 ≤ fuse) (results : List FetchOutcome) :
    After fuse results (results.foldl (Fuse.next fuse) {}) := by
  induction results using List.reverseRecOn with
  | nil => exact After.init hpos
  | append_singleton results r ih =>
    rw [List.foldl_concat]
    exact ih.next hpos r

end Fuse

/-! ## The crawler -/

namespace Crawler
variable {d : Deps}

def fuse (c : Crawler) : Fuse := ⟨c.consecutiveFailures, c.aborted, c.reason⟩

/-- An aborted crawl is stopping. -/
def Latched (c : Crawler) : Prop := c.aborted = true → c.stopping = true

structure SameFuse (c c' : Crawler) : Prop where
  fuse : c'.fuse = c.fuse
  stopping : c'.stopping = c.stopping

/-- `c'` comes from `c` by handing over `outcome`. -/
structure Fuses (outcome : FetchOutcome) (c c' : Crawler) : Prop where
  fuse : c'.fuse = c.fuse.next c.config.failureFuse outcome
  latched : c.Latched → c'.Latched

theorem SameFuse.refl (c : Crawler) : SameFuse c c := ⟨rfl, rfl⟩

theorem SameFuse.latched {c c' : Crawler} (h : SameFuse c c') (hc : c.Latched) : c'.Latched := by
  intro haborted
  have hsame : c'.aborted = c.aborted := congrArg Fuse.aborted h.fuse
  rw [h.stopping]
  exact hc (hsame.symm.trans haborted)

theorem Fuses.same {outcome : FetchOutcome} {c c' c'' : Crawler} (h : Fuses outcome c c')
    (hs : SameFuse c' c'') : Fuses outcome c c'' :=
  ⟨hs.fuse.trans h.fuse, fun hc => hs.latched (h.latched hc)⟩

theorem checkFuse_fuses (error : FetchError) (c : Crawler) :
    Ends (checkFuse error) c (fun _ c' => Fuses (.error error) c c') fun _ _ => False := by
  unfold checkFuse
  rw [ends_modify]
  dsimp only
  split
  · rename_i hidle
    exact ⟨by unfold fuse Fuse.next; dsimp only; rw [if_pos hidle], id⟩
  · rename_i hcounts
    split
    · rename_i hlt
      exact ⟨by unfold fuse Fuse.next; dsimp only; rw [if_neg hcounts, if_pos hlt], id⟩
    · rename_i hlt
      exact ⟨by unfold fuse Fuse.next; dsimp only; rw [if_neg hcounts, if_neg hlt], fun _ _ => rfl⟩

theorem enqueueLinks_fuse (scope : HostScope) (links : List Text) :
    Within SameFuse (enqueueLinks d scope links) := by
  induction links with
  | nil => exact fun c => SameFuse.refl c
  | cons link links ih =>
    intro c
    rw [enqueueLinks]
    simp only [ends_bind, ends_get, ends_raiseError]
    refine ⟨fun allowed _ => ?_, fun _ _ => SameFuse.refl c⟩
    cases allowed with
    | false => exact ih c
    | true =>
      simp only [if_true, ends_bind, ends_get, ends_raiseError, ends_modify]
      refine ⟨fun frontier _ => ?_, fun _ _ => SameFuse.refl c⟩
      exact (ih { c with frontier }).mono (fun _ _ h => ⟨h.fuse, h.stopping⟩) fun _ _ h =>
        ⟨h.fuse, h.stopping⟩

theorem enqueue_fuse (links : List Text) : Within SameFuse (enqueue d links) := by
  refine within_get fun c => ?_
  split
  · exact SameFuse.refl c
  · rename_i scope hscope
    rw [ends_bind]
    exact (enqueueLinks_fuse scope links c).mono (fun _ _ h => ⟨h.fuse, h.stopping⟩) fun _ _ h => h

/-- `_handle` does to the fuse what the automaton does, also where it raises after that. -/
theorem handle_fuses (hsilent : ∀ pages page, d.reporter pages page = none) (url : Text)
    (outcome : FetchOutcome) : Within (Fuses outcome) (handle d url outcome) := by
  intro c
  cases outcome with
  | error error =>
    simp only [handle, countRetries, countFailed, ends_bind, ends_modify, ends_report, hsilent]
    refine ⟨fun _ => ?_, fun _ h => by cases h⟩
    exact (checkFuse_fuses error _).mono (fun _ _ h => ⟨h.fuse, h.latched⟩) fun _ _ h => h.elim
  | ok result =>
    simp only [handle, countRetries, ends_bind, ends_modify, ends_raiseError]
    refine ⟨fun links _ => ?_, fun _ _ => ⟨rfl, id⟩⟩
    split
    all_goals
      simp only [countRedirect, countLinks, countOk, ends_bind, ends_modify, ends_report, hsilent]
      refine ⟨fun _ => ?_, fun _ h => by cases h⟩
      exact (enqueue_fuse links _).mono (fun _ _ h => ⟨h.fuse, h.latched⟩) fun _ _ h =>
        ⟨h.fuse, h.latched⟩

theorem handleUnexpected_fuse (url : Text) (e : Exn) :
    Within SameFuse (handleUnexpected d url e) := by
  intro c
  simp only [handleUnexpected, countFailed, ends_bind, ends_modify, ends_report]
  exact ⟨fun _ => ⟨rfl, rfl⟩, fun _ _ => ⟨rfl, rfl⟩⟩

/-- A fetch that raises hands nothing to `_handle`. -/
theorem work_raised_fuse (url : Text) (e : Exn) : Within SameFuse (work d url (.error e)) := by
  intro c
  simp only [work, raiseError, ends_tryCatch, ends_bind, ends_throw]
  split
  · exact SameFuse.refl c
  · exact handleUnexpected_fuse url e c

theorem work_fuses (hsilent : ∀ pages page, d.reporter pages page = none) (url : Text)
    (outcome : FetchOutcome) : Within (Fuses outcome) (work d url (.ok outcome)) := by
  intro c
  rw [work, ends_tryCatch]
  refine (handle_fuses hsilent url outcome c).mono (fun _ _ h => h) fun e c' h => ?_
  split
  · exact h
  · exact (handleUnexpected_fuse url e c').mono (fun _ _ => h.same) fun _ _ => h.same

end Crawler

end UrlCrawler
