import Mathlib.Init

/-!
# Programs with a state and exceptions

`EStateM ε σ` is the monad of programs that update a state `σ` and may throw an `ε`; a thrown
exception keeps the state as it was when it was thrown. This module gives the equations that run
such a program on a state, and the state a run ends in (`finalState`), whether or not it threw.
-/

namespace Webserv.Exec

variable {ε σ α β : Type}

@[simp] theorem run_pure (a : α) (s : σ) : (pure a : EStateM ε σ α) s = .ok a s := rfl

@[simp] theorem run_bind (x : EStateM ε σ α) (f : α → EStateM ε σ β) (s : σ) :
    (x >>= f) s = match x s with
      | .ok a s' => f a s'
      | .error e s' => .error e s' := rfl

@[simp] theorem run_map (f : α → β) (x : EStateM ε σ α) (s : σ) :
    (f <$> x) s = match x s with
      | .ok a s' => .ok (f a) s'
      | .error e s' => .error e s' := by
  change EStateM.map f x s = _
  unfold EStateM.map
  cases x s <;> rfl

@[simp] theorem run_get (s : σ) : (get : EStateM ε σ σ) s = .ok s s := rfl

@[simp] theorem run_set (s s' : σ) : (set s' : EStateM ε σ PUnit) s = .ok ⟨⟩ s' := rfl

@[simp] theorem run_modify (f : σ → σ) (s : σ) :
    (modify f : EStateM ε σ PUnit) s = .ok ⟨⟩ (f s) := rfl

@[simp] theorem run_throw (e : ε) (s : σ) : (throw e : EStateM ε σ α) s = .error e s := rfl

@[simp] theorem run_ite (p : Prop) [Decidable p] (x y : EStateM ε σ α) (s : σ) :
    (if p then x else y) s = if p then x s else y s := by
  split <;> rfl

/-- The state a run ends in, thrown or not. -/
def finalState : EStateM.Result ε σ α → σ
  | .ok _ s => s
  | .error _ s => s

@[simp] theorem finalState_ok (a : α) (s : σ) :
    finalState (.ok a s : EStateM.Result ε σ α) = s := rfl

@[simp] theorem finalState_error (e : ε) (s : σ) :
    finalState (.error e s : EStateM.Result ε σ α) = s := rfl

/-- The exception a run throws. -/
def thrown : EStateM.Result ε σ α → Option ε
  | .ok _ _ => none
  | .error e _ => some e

/-- A run that throws nothing returns. -/
theorem eq_ok_of_thrown {r : EStateM.Result ε σ PUnit} (h : thrown r = none) :
    r = .ok ⟨⟩ (finalState r) := by
  cases r with
  | ok a s => rfl
  | error e s => cases h

/-- A sequence of two programs that returns ran both, one after the other. -/
theorem bind_eq_ok {x : EStateM ε σ α} {f : α → EStateM ε σ β} {s s'' : σ} {b : β}
    (h : (x >>= f) s = .ok b s'') : ∃ a s', x s = .ok a s' ∧ f a s' = .ok b s'' := by
  rw [run_bind] at h
  split at h
  · rename_i a s' hx
    exact ⟨a, s', hx, h⟩
  · cases h

/-- The same without a state. -/
theorem except_bind_eq_ok {x : Except ε α} {f : α → Except ε β} {b : β}
    (h : (x >>= f) = .ok b) : ∃ a, x = .ok a ∧ f a = .ok b := by
  cases x with
  | error e => cases h
  | ok a => exact ⟨a, rfl, h⟩

theorem except_ok_bind {a : α} {f : α → Except ε β} : ((Except.ok a : Except ε α) >>= f) = f a := rfl

/-- A program goes on when its first part returns. -/
theorem bind_of_ok {x : EStateM ε σ α} {f : α → EStateM ε σ β} {s s' : σ} {a : α}
    (h : x s = .ok a s') : (x >>= f) s = f a s' := by
  rw [run_bind, h]

/-- A program is over when its first part throws. -/
theorem bind_of_error {x : EStateM ε σ α} {f : α → EStateM ε σ β} {s s' : σ} {e : ε}
    (h : x s = .error e s') : (x >>= f) s = .error e s' := by
  rw [run_bind, h]

/-- A sequence of two programs that throws was left by the first one, or by the second one after
the first. -/
theorem bind_eq_error {x : EStateM ε σ α} {f : α → EStateM ε σ β} {s s'' : σ} {e : ε}
    (h : (x >>= f) s = .error e s'') :
    x s = .error e s'' ∨ ∃ a s', x s = .ok a s' ∧ f a s' = .error e s'' := by
  rw [run_bind] at h
  split at h
  · rename_i a s' hx
    exact .inr ⟨a, s', hx, h⟩
  · rename_i e' s' hx
    cases h
    exact .inl hx

/-! ## What a program does not change -/

/-- The program does not change `f` of the state, whether it returns or throws. -/
def Keeps (f : σ → β) (x : EStateM ε σ α) : Prop := ∀ s, f (finalState (x s)) = f s

theorem Keeps.pure {f : σ → β} (a : α) : Keeps f (pure a : EStateM ε σ α) := fun _ => rfl

theorem Keeps.throw {f : σ → β} (e : ε) : Keeps f (throw e : EStateM ε σ α) := fun _ => rfl

theorem Keeps.get {f : σ → β} : Keeps f (get : EStateM ε σ σ) := fun _ => rfl

theorem Keeps.modify {f : σ → β} {g : σ → σ} (h : ∀ s, f (g s) = f s) :
    Keeps f (modify g : EStateM ε σ PUnit) := h

theorem Keeps.bind {γ : Type} {f : σ → γ} {x : EStateM ε σ α} {k : α → EStateM ε σ β}
    (hx : Keeps f x) (hk : ∀ a, Keeps f (k a)) : Keeps f (x >>= k) := by
  intro s
  have h := hx s
  rw [run_bind]
  cases hr : x s with
  | ok a s' =>
    rw [hr] at h
    exact (hk a s').trans h
  | error e s' =>
    rw [hr] at h
    exact h

theorem Keeps.ite {f : σ → β} {p : Prop} [Decidable p] {x y : EStateM ε σ α} (hx : Keeps f x)
    (hy : Keeps f y) : Keeps f (if p then x else y) := by
  split
  · exact hx
  · exact hy

/-- A program that keeps `f` keeps what depends on `f` only. -/
theorem Keeps.of_comp {γ δ : Type} {f : σ → γ} {x : EStateM ε σ α} (h : Keeps f x) {g : σ → δ}
    (k : γ → δ) (hg : ∀ s, g s = k (f s)) : Keeps g x := by
  intro s
  rw [hg, hg, h s]

/-! ## What a program preserves -/

/-- If `I` holds before the program, it holds after it, whether it returns or throws. -/
def Preserves (I : σ → Prop) (x : EStateM ε σ α) : Prop := ∀ s, I s → I (finalState (x s))

theorem Preserves.pure {I : σ → Prop} (a : α) : Preserves I (pure a : EStateM ε σ α) := fun _ h => h

theorem Preserves.throw {I : σ → Prop} (e : ε) : Preserves I (throw e : EStateM ε σ α) :=
  fun _ h => h

theorem Preserves.get {I : σ → Prop} : Preserves I (get : EStateM ε σ σ) := fun _ h => h

theorem Preserves.modify {I : σ → Prop} {g : σ → σ} (h : ∀ s, I s → I (g s)) :
    Preserves I (modify g : EStateM ε σ PUnit) := h

theorem Preserves.set {I : σ → Prop} {s : σ} (h : I s) :
    Preserves I (MonadStateOf.set s : EStateM ε σ PUnit) := fun _ _ => h

theorem Preserves.bind {I : σ → Prop} {x : EStateM ε σ α} {k : α → EStateM ε σ β}
    (hx : Preserves I x) (hk : ∀ a, Preserves I (k a)) : Preserves I (x >>= k) := by
  intro s hs
  have h := hx s hs
  rw [run_bind]
  cases hr : x s with
  | ok a s' =>
    rw [hr] at h
    exact hk a s' h
  | error e s' =>
    rw [hr] at h
    exact h

/-- What is known of the state may be used after it was read. -/
theorem Preserves.bind_get {I : σ → Prop} {k : σ → EStateM ε σ α}
    (h : ∀ s, I s → Preserves I (k s)) : Preserves I (MonadState.get >>= k) :=
  fun s hs => h s hs s hs

theorem Preserves.ite {I : σ → Prop} {p : Prop} [Decidable p] {x y : EStateM ε σ α}
    (hx : p → Preserves I x) (hy : ¬ p → Preserves I y) : Preserves I (if p then x else y) := by
  split
  · exact hx ‹_›
  · exact hy ‹_›

theorem Preserves.of_ok {I : σ → Prop} {x : EStateM ε σ α} (h : Preserves I x) {s s' : σ} {a : α}
    (hs : I s) (hx : x s = .ok a s') : I s' := by
  have hs' := h s hs
  rwa [hx] at hs'

/-- A program that does not change what an invariant is about preserves it. -/
theorem Keeps.preserves {γ : Type} {f : σ → γ} {I : σ → Prop} {x : EStateM ε σ α} (h : Keeps f x)
    (hI : ∀ s s', f s' = f s → I s → I s') : Preserves I x := fun s hs => hI s _ (h s) hs

/-- A program keeps `f` if it preserves every value of `f`. -/
theorem Keeps.of_preserves {γ : Type} {f : σ → γ} {x : EStateM ε σ α}
    (h : ∀ v, Preserves (fun s => f s = v) x) : Keeps f x := fun s => h (f s) s rfl

/-! ## Pre- and postconditions -/

/-- From the states in `P` the program returns in `Q`, or throws in `E`. -/
def Leads (P : σ → Prop) (x : EStateM ε σ α) (Q : α → σ → Prop) (E : σ → Prop) : Prop :=
  ∀ s, P s → match x s with
    | .ok a s' => Q a s'
    | .error _ s' => E s'

theorem Leads.bind {P E : σ → Prop} {Q : α → σ → Prop} {R : β → σ → Prop} {x : EStateM ε σ α}
    {k : α → EStateM ε σ β} (hx : Leads P x Q E) (hk : ∀ a, Leads (Q a) (k a) R E) :
    Leads P (x >>= k) R E := by
  intro s hs
  have h := hx s hs
  rw [run_bind]
  cases hr : x s with
  | ok a s' =>
    rw [hr] at h
    exact hk a s' h
  | error e s' =>
    rw [hr] at h
    exact h

theorem Leads.ite {P E : σ → Prop} {Q : α → σ → Prop} {p : Prop} [Decidable p] {x y : EStateM ε σ α}
    (hx : Leads P x Q E) (hy : Leads P y Q E) : Leads P (if p then x else y) Q E := by
  split
  · exact hx
  · exact hy

theorem Preserves.leads {P E : σ → Prop} {x : EStateM ε σ α} (h : Preserves P x)
    (hE : ∀ s, P s → E s) : Leads P x (fun _ => P) E := by
  intro s hs
  have hx := h s hs
  cases hr : x s with
  | ok a s' =>
    rw [hr] at hx
    exact hx
  | error e s' =>
    rw [hr] at hx
    exact hE s' hx

theorem Leads.preserves {I : σ → Prop} {x : EStateM ε σ α} (h : Leads I x (fun _ => I) I) :
    Preserves I x := by
  intro s hs
  have hx := h s hs
  cases hr : x s with
  | ok a s' =>
    rw [hr] at hx
    exact hx
  | error e s' =>
    rw [hr] at hx
    exact hx

theorem Leads.of_ok {P E : σ → Prop} {Q : α → σ → Prop} {x : EStateM ε σ α} (h : Leads P x Q E)
    {s s' : σ} {a : α} (hs : P s) (hx : x s = .ok a s') : Q a s' := by
  have hres := h s hs
  rwa [hx] at hres

/-- A program also leads from less to less. -/
theorem Leads.mono {P P' E E' : σ → Prop} {Q Q' : α → σ → Prop} {x : EStateM ε σ α}
    (h : Leads P x Q E) (hP : ∀ s, P' s → P s) (hQ : ∀ a s, Q a s → Q' a s) (hE : ∀ s, E s → E' s) :
    Leads P' x Q' E' := by
  intro s hs
  have hres := h s (hP s hs)
  cases hx : x s with
  | ok a s' =>
    rw [hx] at hres
    exact hQ a s' hres
  | error e s' =>
    rw [hx] at hres
    exact hE s' hres

/-! ## What a program can throw -/

/-- Every exception of the program satisfies `p`. -/
def Throws (p : ε → Prop) (x : EStateM ε σ α) : Prop := ∀ s e s', x s = .error e s' → p e

theorem Throws.pure {p : ε → Prop} (a : α) : Throws p (pure a : EStateM ε σ α) := nofun

theorem Throws.get {p : ε → Prop} : Throws p (get : EStateM ε σ σ) := nofun

theorem Throws.modify {p : ε → Prop} (g : σ → σ) : Throws p (modify g : EStateM ε σ PUnit) := nofun

theorem Throws.throw {p : ε → Prop} {e : ε} (h : p e) : Throws p (throw e : EStateM ε σ α) := by
  intro s e' s' h'
  cases h'
  exact h

theorem Throws.bind {p : ε → Prop} {x : EStateM ε σ α} {k : α → EStateM ε σ β}
    (hx : Throws p x) (hk : ∀ a, Throws p (k a)) : Throws p (x >>= k) := by
  intro s e s' h
  rw [run_bind] at h
  cases hr : x s with
  | ok a s₁ =>
    rw [hr] at h
    exact hk a s₁ e s' h
  | error e₁ s₁ =>
    rw [hr] at h
    cases h
    exact hx s e s' hr

theorem Throws.ite {p : ε → Prop} {q : Prop} [Decidable q] {x y : EStateM ε σ α}
    (hx : Throws p x) (hy : Throws p y) : Throws p (if q then x else y) := by
  split
  · exact hx
  · exact hy

/-- The two ways to leave a program that keeps `f` and throws only what satisfies `p`. -/
theorem Keeps.cases {γ : Type} {f : σ → γ} {p : ε → Prop} {x : EStateM ε σ α} (hf : Keeps f x)
    (hp : Throws p x) (s : σ) :
    (∃ e s', x s = .error e s' ∧ p e ∧ f s' = f s) ∨ ∃ a s', x s = .ok a s' ∧ f s' = f s := by
  have h := hf s
  cases hr : x s with
  | ok a s' =>
    rw [hr] at h
    exact .inr ⟨a, s', rfl, h⟩
  | error e s' =>
    rw [hr] at h
    exact .inl ⟨e, s', rfl, hp s e s' hr, h⟩

/-! ## What a program preserves when its caller goes on -/

/-- If `I` holds before the program, it holds after it, whether it returns or throws an exception that
satisfies `p`; nothing is said of what any other exception leaves behind. -/
def Maintains (p : ε → Prop) (I : σ → Prop) (x : EStateM ε σ α) : Prop :=
  ∀ s, I s → match x s with
    | .ok _ s' => I s'
    | .error e s' => p e → I s'

theorem Maintains.bind {p : ε → Prop} {I : σ → Prop} {x : EStateM ε σ α} {k : α → EStateM ε σ β}
    (hx : Maintains p I x) (hk : ∀ a, Maintains p I (k a)) : Maintains p I (x >>= k) := by
  intro s hs
  have h := hx s hs
  rw [run_bind]
  cases hr : x s with
  | ok a s' =>
    rw [hr] at h
    exact hk a s' h
  | error e s' =>
    rw [hr] at h
    exact h

theorem Maintains.ite {p : ε → Prop} {I : σ → Prop} {q : Prop} [Decidable q] {x y : EStateM ε σ α}
    (hx : Maintains p I x) (hy : Maintains p I y) : Maintains p I (if q then x else y) := by
  split
  · exact hx
  · exact hy

theorem Preserves.maintains {p : ε → Prop} {I : σ → Prop} {x : EStateM ε σ α} (h : Preserves I x) :
    Maintains p I x := by
  intro s hs
  have hx := h s hs
  cases hr : x s with
  | ok a s' =>
    rw [hr] at hx
    exact hx
  | error e s' =>
    rw [hr] at hx
    exact fun _ => hx

/-- A program that throws no exception that satisfies `p` need not tidy up when it throws. -/
theorem Leads.maintains {p : ε → Prop} {I : σ → Prop} {x : EStateM ε σ α}
    (h : Leads I x (fun _ => I) fun _ => True) (hthrows : Throws (fun e => ¬ p e) x) :
    Maintains p I x := by
  intro s hs
  have hx := h s hs
  cases hr : x s with
  | ok a s' =>
    rw [hr] at hx
    exact hx
  | error e s' => exact fun he => absurd he (hthrows s e s' hr)

theorem Maintains.of_ok {p : ε → Prop} {I : σ → Prop} {x : EStateM ε σ α} (h : Maintains p I x)
    {s s' : σ} {a : α} (hs : I s) (hx : x s = .ok a s') : I s' := by
  have hs' := h s hs
  rwa [hx] at hs'

/-! ## Two runs of a program -/

/-- Two results that are the same but for their states, which are related. -/
inductive SameResult (R : σ → σ → Prop) :
    EStateM.Result ε σ α → EStateM.Result ε σ α → Prop
  | ok (a : α) {s s' : σ} (h : R s s') : SameResult R (.ok a s) (.ok a s')
  | error (e : ε) {s s' : σ} (h : R s s') : SameResult R (.error e s) (.error e s')

/-- Two runs on related states give the same result. -/
def Respects (R : σ → σ → Prop) (x : EStateM ε σ α) : Prop :=
  ∀ s s', R s s' → SameResult R (x s) (x s')

theorem Respects.pure {R : σ → σ → Prop} (a : α) : Respects R (pure a : EStateM ε σ α) :=
  fun _ _ h => .ok a h

theorem Respects.throw {R : σ → σ → Prop} (e : ε) : Respects R (throw e : EStateM ε σ α) :=
  fun _ _ h => .error e h

theorem Respects.bind {R : σ → σ → Prop} {x : EStateM ε σ α} {k : α → EStateM ε σ β}
    (hx : Respects R x) (hk : ∀ a, Respects R (k a)) : Respects R (x >>= k) := by
  intro s s' h
  have hs := hx s s' h
  rw [run_bind, run_bind]
  generalize x s = r at hs ⊢
  generalize x s' = r' at hs ⊢
  cases hs with
  | ok a h₁ => exact hk a _ _ h₁
  | error e h₁ => exact .error e h₁

theorem Respects.ite {R : σ → σ → Prop} {p : Prop} [Decidable p] {x y : EStateM ε σ α}
    (hx : Respects R x) (hy : Respects R y) : Respects R (if p then x else y) := by
  split
  · exact hx
  · exact hy

end Webserv.Exec
