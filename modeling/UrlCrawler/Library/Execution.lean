import Mathlib.Logic.Relation
import Mathlib.Order.RelClasses
import Mathlib.Data.List.DropRight

/-! # Executions of a labelled machine

A machine is a partial function `step : σ → α → Option σ`: in state `s` the action `a` is either
refused (`none`) or taken. Everything nondeterministic (which task moves next, what the outside
world answers, whether a crash happens) is put into the action, so that a run is a list of actions
and can be evaluated.

* `run` executes a list of actions, `Reaches` forgets which ones.
* `Reaches.invariant` is the induction rule: what holds at the start and is kept by every step
  holds in every state reached. `Meets` / `Meets.invariant` is the same for runs whose steps all
  satisfy a side condition.
* `noted` adds a history variable: a value that each step brings up to date and none looks at.
* `Happened` says that some step of a run was of a certain kind; `run_history` is the induction rule
  for it.
* `Contains` says that a machine runs inside another: a run of the outer one is a run of the inner.
* `Spaced` says what lies between any two consecutive marked entries of a log.
* `Meets.length_le` bounds the length of such a run by a measure that each step lowers.
* `Inevitable` says that every run comes to a state in which something holds, however its steps are
  ordered.
-/
set_option autoImplicit false

namespace Execution

variable {σ α : Type*} (step : σ → α → Option σ)

/-- Execute a list of actions from `s`; `none` when one of them is refused. -/
def run : σ → List α → Option σ
  | s, [] => some s
  | s, a :: as => (step s a).bind fun s' => run s' as

@[simp] theorem run_nil (s : σ) : run step s [] = some s := rfl

theorem run_cons {s s' : σ} {a : α} {as : List α} (h : step s a = some s') :
    run step s (a :: as) = run step s' as := by
  simp [run, h]

theorem run_cons_some {s t : σ} {a : α} {as : List α} (h : run step s (a :: as) = some t) :
    ∃ s', step s a = some s' ∧ run step s' as = some t := by
  simpa [run, Option.bind_eq_some_iff] using h

theorem run_append (s : σ) (as bs : List α) :
    run step s (as ++ bs) = (run step s as).bind fun s' => run step s' bs := by
  induction as generalizing s with
  | nil => rfl
  | cons a as ih =>
    simp only [List.cons_append, run]
    cases step s a with
    | none => rfl
    | some s' => exact ih s'

/-- `t` is reached from `s` by some list of actions. -/
def Reaches (s t : σ) : Prop := ∃ as, run step s as = some t

variable {step}

theorem Reaches.refl (s : σ) : Reaches step s s := ⟨[], rfl⟩

theorem Reaches.trans {s t u : σ} (h : Reaches step s t) (h' : Reaches step t u) :
    Reaches step s u := by
  obtain ⟨as, has⟩ := h
  obtain ⟨bs, hbs⟩ := h'
  exact ⟨as ++ bs, by rw [run_append, has]; exact hbs⟩

theorem Reaches.tail {s t u : σ} {a : α} (h : Reaches step s t) (ha : step t a = some u) :
    Reaches step s u :=
  h.trans ⟨[a], by rw [run_cons step ha, run_nil]⟩

/-- What every step keeps, a run keeps. -/
theorem run_invariant {P : σ → Prop} (hstep : ∀ s a s', P s → step s a = some s' → P s') :
    ∀ {as : List α} {s t : σ}, P s → run step s as = some t → P t
  | [], s, t, hs, h => by
      have hst : s = t := Option.some.inj h
      exact hst ▸ hs
  | a :: as, s, t, hs, h => by
      obtain ⟨s', ha, hr⟩ := run_cons_some step h
      exact run_invariant hstep (hstep s a s' hs ha) hr

theorem Reaches.invariant {P : σ → Prop} {s t : σ} (h : Reaches step s t) (hs : P s)
    (hstep : ∀ s a s', P s → step s a = some s' → P s') : P t := by
  obtain ⟨as, has⟩ := h
  exact run_invariant hstep hs has

/-- What every step keeps together with a ghost value that the actions are folded into. -/
theorem run_ghost {γ : Type*} {P : σ → γ → Prop} (g : γ → α → γ)
    (hstep : ∀ s a s' x, P s x → step s a = some s' → P s' (g x a)) {as : List α} {s t : σ} {x : γ}
    (hs : P s x) (h : run step s as = some t) : P t (as.foldl g x) := by
  induction as generalizing s x with
  | nil =>
    have hst : s = t := Option.some.inj h
    exact hst ▸ hs
  | cons a as ih =>
    obtain ⟨s', ha, hr⟩ := run_cons_some step h
    exact ih (hstep s a s' x hs ha) hr

/-! ## Runs under a side condition on their steps -/

variable (step) in
/-- Every step of the run satisfies `C`, a condition on the state before the step and the action. -/
def Meets (C : σ → α → Prop) : σ → List α → Prop
  | _, [] => True
  | s, a :: as => C s a ∧ ∀ s', step s a = some s' → Meets C s' as

theorem Meets.invariant {C : σ → α → Prop} {P : σ → Prop}
    (hstep : ∀ s a s', P s → C s a → step s a = some s' → P s') :
    ∀ {as : List α} {s t : σ}, Meets step C s as → P s → run step s as = some t → P t
  | [], s, t, _, hs, h => by
      have hst : s = t := Option.some.inj h
      exact hst ▸ hs
  | a :: as, s, t, hm, hs, h => by
      obtain ⟨s', ha, hr⟩ := run_cons_some step h
      exact Meets.invariant hstep (hm.2 s' ha) (hstep s a s' hs hm.1 ha) hr

theorem Meets.append_left {C : σ → α → Prop} {bs : List α} :
    ∀ {as : List α} {s : σ}, Meets step C s (as ++ bs) → Meets step C s as
  | [], _, _ => trivial
  | _ :: _, _, h => ⟨h.1, fun s' hs' => Meets.append_left (h.2 s' hs')⟩

theorem Meets.append_right {C : σ → α → Prop} {bs : List α} :
    ∀ {as : List α} {s t : σ}, Meets step C s (as ++ bs) → run step s as = some t →
      Meets step C t bs
  | [], s, t, h, hr => by
      have hst : s = t := Option.some.inj hr
      exact hst ▸ h
  | a :: as, s, t, h, hr => by
      obtain ⟨s', ha, hr'⟩ := run_cons_some step hr
      exact Meets.append_right (h.2 s' ha) hr'

theorem meets_cons_of_some {C : σ → α → Prop} {s s' : σ} {a : α} {as : List α}
    (h : step s a = some s') : Meets step C s (a :: as) ↔ C s a ∧ Meets step C s' as := by
  simp [Meets, h]

theorem meets_cons_of_none {C : σ → α → Prop} {s : σ} {a : α} {as : List α}
    (h : step s a = none) : Meets step C s (a :: as) ↔ C s a := by
  simp [Meets, h]

instance decidableMeets {C : σ → α → Prop} [∀ s a, Decidable (C s a)] :
    ∀ (as : List α) (s : σ), Decidable (Meets step C s as)
  | [], _ => isTrue trivial
  | a :: as, s =>
    match h : step s a with
    | none => decidable_of_iff _ (meets_cons_of_none h).symm
    | some s' =>
      have := decidableMeets (C := C) as s'
      decidable_of_iff _ (meets_cons_of_some h).symm

/-- A run meets a condition when each of its actions does where it is taken. -/
theorem meets_iff_prefix {C : σ → α → Prop} {as : List α} {s : σ} :
    Meets step C s as ↔ ∀ pre a post t, as = pre ++ a :: post → run step s pre = some t → C t a := by
  constructor
  · rintro hm pre a post t rfl hr
    exact (Meets.append_right hm hr).1
  · intro h
    induction as generalizing s with
    | nil => trivial
    | cons a as ih =>
      refine ⟨h [] a as s rfl rfl, fun s' ha => ih fun pre b post t he hr => ?_⟩
      exact h (a :: pre) b post t (by rw [he]; rfl) (by rw [run_cons step ha, hr])

/-! ## History variables -/

variable (step) in
/-- The machine together with a history variable, which a step takes down from the state before it. -/
def noted {γ : Type*} (note : σ → γ → α → γ) (s : σ × γ) (a : α) : Option (σ × γ) :=
  (step s.1 a).map fun s' => (s', note s.1 s.2 a)

theorem noted_some {γ : Type*} {note : σ → γ → α → γ} {s t : σ × γ} {a : α} :
    noted step note s a = some t ↔ step s.1 a = some t.1 ∧ note s.1 s.2 a = t.2 := by
  cases h : step s.1 a with
  | none => simp [noted, h]
  | some s' => simp [noted, h, Prod.ext_iff]

theorem run_noted {γ : Type*} {note : σ → γ → α → γ} {as : List α} {s t : σ × γ}
    (h : run (noted step note) s as = some t) : run step s.1 as = some t.1 := by
  induction as generalizing s with
  | nil =>
    obtain rfl := Option.some.inj h
    rfl
  | cons a as ih =>
    obtain ⟨s', ha, hr⟩ := run_cons_some _ h
    rw [run_cons step (noted_some.mp ha).1]
    exact ih hr

/-- What is reached is reached with the history variable beside it. -/
theorem Reaches.noted {γ : Type*} {s t : σ} (h : Reaches step s t) (note : σ → γ → α → γ) (x : γ) :
    ∃ y, Reaches (Execution.noted step note) (s, x) (t, y) := by
  obtain ⟨as, has⟩ := h
  induction as generalizing s x with
  | nil =>
    obtain rfl := Option.some.inj has
    exact ⟨x, Reaches.refl _⟩
  | cons a as ih =>
    obtain ⟨s', ha, hr⟩ := run_cons_some step has
    obtain ⟨y, hy⟩ := ih (note s x a) hr
    have hfirst : Execution.noted step note (s, x) a = some (s', note s x a) := by
      simp [Execution.noted, ha]
    exact ⟨y, ((Reaches.refl _).tail hfirst).trans hy⟩

variable (step) in
/-- A step of the run from `s` was an `E`, a relation of the states before and after it. -/
def Happened (E : σ → σ → Prop) (s : σ) (as : List α) : Prop :=
  ∃ pre a post t t', as = pre ++ a :: post ∧ run step s pre = some t ∧ step t a = some t' ∧ E t t'

/-- What has happened has happened for good. -/
theorem Happened.append {E : σ → σ → Prop} {s : σ} {as : List α} (h : Happened step E s as)
    (bs : List α) : Happened step E s (as ++ bs) := by
  obtain ⟨pre, a, post, t, t', rfl, hr, ha, hE⟩ := h
  exact ⟨pre, a, post ++ bs, t, t', by simp, hr, ha, hE⟩

theorem happened_last {E : σ → σ → Prop} {s t t' : σ} {as : List α} {a : α}
    (hr : run step s as = some t) (ha : step t a = some t') (hE : E t t') :
    Happened step E s (as ++ [a]) :=
  ⟨as, a, [], t, t', rfl, hr, ha, hE⟩

/-- The induction rule of `Reaches.invariant`, with the actions taken so far in view. -/
theorem run_history {P : List α → σ → Prop} {s : σ} (h0 : P [] s)
    (hstep : ∀ as t a t', run step s as = some t → P as t → step t a = some t' → P (as ++ [a]) t')
    {as : List α} {t : σ} (h : run step s as = some t) : P as t := by
  induction as using List.reverseRecOn generalizing t with
  | nil =>
    obtain rfl := Option.some.inj h
    exact h0
  | append_singleton as a ih =>
    rw [run_append] at h
    obtain ⟨u, hu, ha⟩ := Option.bind_eq_some_iff.mp h
    obtain ⟨t', ht', he⟩ := run_cons_some step ha
    obtain rfl := Option.some.inj he
    exact hstep as u a t' hu (ih hu) ht'

theorem meets_noted {γ : Type*} {note : σ → γ → α → γ} {C : σ → α → Prop} {as : List α} {s : σ × γ}
    (h : Meets step C s.1 as) : Meets (noted step note) (fun s a => C s.1 a) s as := by
  induction as generalizing s with
  | nil => trivial
  | cons a as ih => exact ⟨h.1, fun s' ha => ih (h.2 s'.1 (noted_some.mp ha).1)⟩

/-! ## Logs -/

/-- Every entry of a log is justified by the entries before it. -/
def Justified {ε : Type*} (P : List ε → ε → Prop) (log : List ε) : Prop :=
  ∀ pre e post, log = pre ++ e :: post → P pre e

theorem Justified.nil {ε : Type*} {P : List ε → ε → Prop} : Justified P [] := by
  intro pre e post h
  simp at h

theorem Justified.concat {ε : Type*} {P : List ε → ε → Prop} {log : List ε} {e : ε}
    (h : Justified P log) (he : P log e) : Justified P (log ++ [e]) := by
  intro pre e' post heq
  rcases List.eq_nil_or_concat post with rfl | ⟨post', last, rfl⟩
  · obtain ⟨rfl, hlast⟩ := List.append_inj' heq rfl
    obtain rfl := List.singleton_inj.mp hlast
    exact he
  · rw [List.concat_eq_append, ← List.cons_append, ← List.append_assoc] at heq
    exact h pre e' post' (List.append_inj' heq rfl).1

/-- Between any two consecutive marked entries of a log lies a stretch that satisfies `Q`. -/
def Spaced {ε : Type*} (mark : ε → Bool) (Q : List ε → Prop) (log : List ε) : Prop :=
  ∀ pre e stretch e' post, log = pre ++ e :: (stretch ++ e' :: post) → mark e = true →
    mark e' = true → (∀ x ∈ stretch, mark x = false) → Q stretch

/-- What a log has since its last marked entry. -/
def since {ε : Type*} (mark : ε → Bool) (log : List ε) : List ε := log.rtakeWhile fun e => !mark e

section Spaced
variable {ε : Type*} {mark : ε → Bool} {Q : List ε → Prop} {log : List ε} {e : ε}

theorem since_unmarked (he : mark e = false) : since mark (log ++ [e]) = since mark log ++ [e] := by
  rw [since, List.rtakeWhile_concat_pos _ _ _ (by simp [he])]
  rfl

theorem since_marked (he : mark e = true) : since mark (log ++ [e]) = [] := by
  rw [since, List.rtakeWhile_concat_neg _ _ _ (by simp [he])]

/-- The stretch after the last marked entry. -/
theorem since_eq {pre stretch : List ε} (he : mark e = true)
    (hstretch : ∀ x ∈ stretch, mark x = false) : since mark (pre ++ e :: stretch) = stretch := by
  induction stretch using List.reverseRecOn with
  | nil => exact since_marked he
  | append_singleton stretch x ih =>
    have hx : mark x = false := hstretch x (by simp)
    have hrest : ∀ y ∈ stretch, mark y = false := fun y hy => hstretch y (List.mem_append_left _ hy)
    rw [← List.cons_append, ← List.append_assoc, since_unmarked hx, ih hrest]

theorem Spaced.nil : Spaced mark Q [] := by
  intro pre e stretch e' post h
  simp at h

/-- Where two entries stand in a log that has grown by one. -/
theorem pair_of_concat {pre stretch post : List ε} {a a' : ε}
    (h : log ++ [e] = pre ++ a :: (stretch ++ a' :: post)) :
    log = pre ++ a :: stretch ∧ e = a' ∨ ∃ post', log = pre ++ a :: (stretch ++ a' :: post') := by
  rcases List.eq_nil_or_concat post with rfl | ⟨post', last, rfl⟩
  · rw [← List.cons_append, ← List.append_assoc] at h
    obtain ⟨hlog, hlast⟩ := List.append_inj' h rfl
    exact .inl ⟨hlog, List.singleton_inj.mp hlast⟩
  · refine .inr ⟨post', ?_⟩
    have hlonger : log ++ [e] = (pre ++ a :: (stretch ++ a' :: post')) ++ [last] := by
      rw [h, List.concat_eq_append]
      simp only [List.append_assoc, List.cons_append]
    exact (List.append_inj' hlonger rfl).1

theorem Spaced.unmarked (h : Spaced mark Q log) (he : mark e = false) :
    Spaced mark Q (log ++ [e]) := by
  intro pre a stretch a' post heq ha ha' hstretch
  rcases pair_of_concat heq with ⟨-, rfl⟩ | ⟨post', hlog⟩
  · rw [ha'] at he
    cases he
  · exact h pre a stretch a' post' hlog ha ha' hstretch

/-- A marked entry ends the stretch since the last one. -/
theorem Spaced.marked (h : Spaced mark Q log) (hQ : Q (since mark log)) :
    Spaced mark Q (log ++ [e]) := by
  intro pre a stretch a' post heq ha ha' hstretch
  rcases pair_of_concat heq with ⟨hlog, -⟩ | ⟨post', hlog⟩
  · rw [hlog, since_eq ha hstretch] at hQ
    exact hQ
  · exact h pre a stretch a' post' hlog ha ha' hstretch

end Spaced

/-! ## A machine inside another -/

section Inner
variable {τ β : Type*} {inner : τ → β → Option τ} {π : σ → τ} {act : α → Option β}

variable (step inner π act) in
/-- A step is one of the machine inside, or leaves it alone. -/
def Contains : Prop :=
  ∀ s a s', step s a = some s' → match act a with
    | some b => inner (π s) b = some (π s')
    | none => π s' = π s

theorem run_inner (h : Contains step inner π act) {as : List α} {s t : σ}
    (hrun : run step s as = some t) : run inner (π s) (as.filterMap act) = some (π t) := by
  induction as generalizing s with
  | nil =>
    obtain rfl := Option.some.inj hrun
    rfl
  | cons a as ih =>
    obtain ⟨s', ha, hrest⟩ := run_cons_some step hrun
    have hs := h s a s' ha
    rw [List.filterMap_cons]
    cases hb : act a with
    | none =>
      rw [hb] at hs
      rw [← hs]
      exact ih hrest
    | some b =>
      rw [hb] at hs
      exact (run_cons inner hs).trans (ih hrest)

theorem meets_inner (h : Contains step inner π act) {C : σ → α → Prop} {D : τ → β → Prop}
    (hCD : ∀ s a b, act a = some b → C s a → D (π s) b) {as : List α} {s t : σ}
    (hm : Meets step C s as) (hrun : run step s as = some t) :
    Meets inner D (π s) (as.filterMap act) := by
  induction as generalizing s with
  | nil => trivial
  | cons a as ih =>
    obtain ⟨s', ha, hrest⟩ := run_cons_some step hrun
    have hs := h s a s' ha
    rw [List.filterMap_cons]
    cases hb : act a with
    | none =>
      rw [hb] at hs
      rw [← hs]
      exact ih (hm.2 s' ha) hrest
    | some b =>
      rw [hb] at hs
      refine (meets_cons_of_some hs).mpr ⟨hCD s a b hb hm.1, ih (hm.2 s' ha) hrest⟩

end Inner

/-! ## Termination -/

/-- A measure lowered by every step that meets a side condition bounds the length of a run. -/
theorem Meets.length_le {C : σ → α → Prop} {P : σ → Prop} (μ : σ → ℕ)
    (hstep : ∀ s a s', P s → C s a → step s a = some s' → P s' ∧ μ s' < μ s) {as : List α}
    {s t : σ} (hm : Meets step C s as) (hs : P s) (h : run step s as = some t) :
    P t ∧ as.length + μ t ≤ μ s := by
  induction as generalizing s with
  | nil =>
    have hst : s = t := Option.some.inj h
    subst hst
    exact ⟨hs, by simp⟩
  | cons a as ih =>
    obtain ⟨s', ha, hr⟩ := run_cons_some step h
    obtain ⟨hs', hlt⟩ := hstep s a s' hs hm.1 ha
    obtain ⟨ht, hle⟩ := ih (hm.2 s' ha) hs' hr
    refine ⟨ht, ?_⟩
    simp only [List.length_cons]
    omega

/-! ## What comes to hold in every run -/

variable (step) in
/-- Every run whose steps satisfy `C` comes to a state of `P`: it is there, or it can go on and gets there
whatever it does. -/
inductive Inevitable (C : σ → α → Prop) (P : σ → Prop) : σ → Prop
  | now {s : σ} (h : P s) : Inevitable C P s
  | later {s : σ} (hcan : ∃ a s', C s a ∧ step s a = some s')
      (hall : ∀ a s', C s a → step s a = some s' → Inevitable C P s') : Inevitable C P s

/-- A measure that every step short of `P` lowers, and a step that is possible as long as `P` does not
hold. -/
theorem Inevitable.of_measure {β : Type*} [Preorder β] [WellFoundedLT β] {C : σ → α → Prop}
    {P I : σ → Prop} (μ : σ → β)
    (hcan : ∀ s, I s → ¬ P s → ∃ a s', C s a ∧ step s a = some s')
    (hstep : ∀ s a s', I s → ¬ P s → C s a → step s a = some s' → P s' ∨ I s' ∧ μ s' < μ s) {s : σ}
    (hs : I s) : Inevitable step C P s := by
  induction hμ : μ s using WellFoundedLT.induction generalizing s with
  | ind b ih =>
    by_cases h : P s
    · exact .now h
    · refine .later (hcan s hs h) fun a s' ha hs' => ?_
      rcases hstep s a s' hs h ha hs' with hP | ⟨hI, hlt⟩
      · exact .now hP
      · exact ih (μ s') (hμ ▸ hlt) hI rfl

/-- A run that is long enough has passed a state of `P`. -/
theorem Inevitable.reaches {C : σ → α → Prop} {P : σ → Prop} {s : σ}
    (h : Inevitable step C P s) : ∃ t, Reaches step s t ∧ P t := by
  induction h with
  | now h => exact ⟨_, Reaches.refl _, h⟩
  | later hcan _ ih =>
    obtain ⟨a, s', ha, hs'⟩ := hcan
    obtain ⟨t, ht, hP⟩ := ih a s' ha hs'
    exact ⟨t, ((Reaches.refl _).tail hs').trans ht, hP⟩

end Execution
