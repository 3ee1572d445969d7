import Mathlib.Logic.Basic

/-! # Programs that write a state and may raise

Weakest preconditions for `EStateM`, where a raised exception keeps what was written before it.
`Ends m s post err` says what holds when `m`, started in `s`, has returned or raised; the
`ends_*` lemmas compute it through a program, so that `simp` turns a statement about a `do` block
into one about its steps.

`Within R m` is the special case of a relation between the state before and the state after, however
the program ends. For a reflexive and transitive `R` it is checked one step of the program at a
time.
-/
set_option autoImplicit false

namespace Effects
variable {ε σ α β : Type}

def Ends (m : EStateM ε σ α) (s : σ) (post : α → σ → Prop) (err : ε → σ → Prop) : Prop :=
  match m s with
  | .ok a s' => post a s'
  | .error e s' => err e s'

variable {post : α → σ → Prop} {err : ε → σ → Prop} {s : σ}

@[simp] theorem ends_pure (a : α) : Ends (pure a) s post err ↔ post a s := Iff.rfl

@[simp] theorem ends_throw (e : ε) :
    Ends (throw e : EStateM ε σ α) s post err ↔ err e s := Iff.rfl

@[simp] theorem ends_get {post : σ → σ → Prop} :
    Ends (get : EStateM ε σ σ) s post err ↔ post s s := Iff.rfl

@[simp] theorem ends_modify {post : PUnit → σ → Prop} (f : σ → σ) :
    Ends (modify f : EStateM ε σ PUnit) s post err ↔ post ⟨⟩ (f s) := Iff.rfl

@[simp] theorem ends_bind {m : EStateM ε σ β} {f : β → EStateM ε σ α} :
    Ends (m >>= f) s post err ↔ Ends m s (fun b s' => Ends (f b) s' post err) err := by
  unfold Ends
  show (match EStateM.bind m f s with | .ok a s' => post a s' | .error e s' => err e s') ↔ _
  unfold EStateM.bind
  cases m s <;> exact Iff.rfl

@[simp] theorem ends_tryCatch {m : EStateM ε σ α} {handler : ε → EStateM ε σ α} :
    Ends (tryCatch m handler) s post err ↔
      Ends m s post fun e s' => Ends (handler e) s' post err := by
  unfold Ends
  show (match EStateM.tryCatch m handler s with
    | .ok a s' => post a s' | .error e s' => err e s') ↔ _
  unfold EStateM.tryCatch
  cases m s <;> exact Iff.rfl

theorem Ends.mono {m : EStateM ε σ α} {post' : α → σ → Prop} {err' : ε → σ → Prop}
    (h : Ends m s post err) (hpost : ∀ a s', post a s' → post' a s')
    (herr : ∀ e s', err e s' → err' e s') : Ends m s post' err' := by
  unfold Ends at h ⊢
  cases hm : m s with
  | ok a s' =>
    rw [hm] at h
    exact hpost a s' h
  | error e s' =>
    rw [hm] at h
    exact herr e s' h

theorem Ends.and {m : EStateM ε σ α} {post' : α → σ → Prop} {err' : ε → σ → Prop}
    (h : Ends m s post err) (h' : Ends m s post' err') :
    Ends m s (fun a s' => post a s' ∧ post' a s') fun e s' => err e s' ∧ err' e s' := by
  unfold Ends at *
  cases hm : m s with
  | ok a s' =>
    rw [hm] at h h'
    exact ⟨h, h'⟩
  | error e s' =>
    rw [hm] at h h'
    exact ⟨h, h'⟩

theorem Ends.of_ok {m : EStateM ε σ α} (h : Ends m s post err) {a : α} {s' : σ}
    (hm : m s = .ok a s') : post a s' := by
  rw [Ends, hm] at h
  exact h

theorem Ends.of_error {m : EStateM ε σ α} (h : Ends m s post err) {e : ε} {s' : σ}
    (hm : m s = .error e s') : err e s' := by
  rw [Ends, hm] at h
  exact h

/-! ## Frame conditions -/

/-- However `m` ends, `R` relates the state before to the state after. -/
def Within (R : σ → σ → Prop) (m : EStateM ε σ α) : Prop :=
  ∀ s, Ends m s (fun _ s' => R s s') fun _ s' => R s s'

variable {R : σ → σ → Prop}

theorem within_throw (hrefl : ∀ s, R s s) (e : ε) : Within R (throw e : EStateM ε σ α) :=
  fun s => hrefl s

theorem within_modify {f : σ → σ} (h : ∀ s, R s (f s)) :
    Within R (modify f : EStateM ε σ PUnit) :=
  h

theorem within_bind (htrans : ∀ a b c, R a b → R b c → R a c) {m : EStateM ε σ β}
    {f : β → EStateM ε σ α} (hm : Within R m) (hf : ∀ b, Within R (f b)) :
    Within R (m >>= f) := by
  intro s
  rw [ends_bind]
  exact (hm s).mono (fun b s' hs => (hf b s').mono (fun _ _ => htrans _ _ _ hs) fun _ _ => htrans _ _ _ hs)
    fun _ _ hs => hs

/-- A program that begins by reading the state. -/
theorem within_get {f : σ → EStateM ε σ α}
    (h : ∀ s, Ends (f s) s (fun _ s' => R s s') fun _ s' => R s s') :
    Within R (get >>= f) :=
  h

theorem within_tryCatch (htrans : ∀ a b c, R a b → R b c → R a c) {m : EStateM ε σ α}
    {handler : ε → EStateM ε σ α} (hm : Within R m) (hh : ∀ e, Within R (handler e)) :
    Within R (tryCatch m handler) := by
  intro s
  rw [ends_tryCatch]
  exact (hm s).mono (fun _ _ hs => hs) fun e s' hs =>
    (hh e s').mono (fun _ _ => htrans _ _ _ hs) fun _ _ => htrans _ _ _ hs

end Effects
