import Mathlib.Order.Defs.Unbundled

/-!
# Computations that may fail, over a state

`EStateM ε σ`: a failing computation keeps the changes it made before it
failed. A relation between the state before and the state after that is
reflexive and transitive is kept by a computation when it is kept by its steps.
-/

namespace Stateful

variable {ε σ α β : Type}

/-- The state a computation leaves, whether it returns or fails. -/
def after (m : EStateM ε σ α) (s : σ) : σ :=
  match m s with
  | .ok _ s => s
  | .error _ s => s

def value (m : EStateM ε σ α) (s : σ) : Option α :=
  match m s with
  | .ok a _ => some a
  | .error _ _ => none

def lift (x : Except ε α) : EStateM ε σ α := fun s =>
  match x with
  | .ok a => .ok a s
  | .error e => .error e s

def attempt (m : EStateM ε σ α) : EStateM ε σ Unit := fun s => .ok () (after m s)

def Keeps (R : σ → σ → Prop) (m : EStateM ε σ α) : Prop := ∀ s, R s (after m s)

@[simp] theorem after_lift (x : Except ε α) (s : σ) : after (lift x : EStateM ε σ α) s = s := by
  cases x <;> rfl

@[simp] theorem get_bind (f : σ → EStateM ε σ β) (s : σ) : ((get : EStateM ε σ σ) >>= f) s = f s s := rfl

@[simp] theorem after_get_bind (f : σ → EStateM ε σ β) (s : σ) :
    after ((get : EStateM ε σ σ) >>= f) s = after (f s) s := rfl

@[simp] theorem after_pure_bind (a : α) (f : α → EStateM ε σ β) (s : σ) :
    after ((pure a : EStateM ε σ α) >>= f) s = after (f a) s := rfl

theorem bind_apply (m : EStateM ε σ α) (f : α → EStateM ε σ β) (s : σ) :
    (m >>= f) s = (match m s with | .ok a s => f a s | .error e s => .error e s) := by
  show EStateM.bind m f s = _
  unfold EStateM.bind
  cases m s <;> rfl

variable {m : EStateM ε σ α} {f : α → EStateM ε σ β} {s' s : σ} {a : α} {e : ε} {x : Except ε α} {Q : α → σ → Prop}

theorem bind_of_ok (h : m s = .ok a s') : (m >>= f) s = f a s' := by
  rw [bind_apply, h]

theorem bind_of_error (h : m s = .error e s') : (m >>= f) s = .error e s' := by
  rw [bind_apply, h]

theorem lift_of_ok (h : x = .ok a) (s : σ) : (lift x : EStateM ε σ α) s = .ok a s := by
  rw [h]
  rfl

theorem lift_of_error (h : x = .error e) (s : σ) : (lift x : EStateM ε σ α) s = .error e s := by
  rw [h]
  rfl

theorem after_bind_of_ok (h : m s = .ok a s') : after (m >>= f) s = after (f a) s' := by
  unfold after
  rw [bind_apply, h]

theorem after_bind_of_error (h : m s = .error e s') : after (m >>= f) s = s' := by
  unfold after
  rw [bind_apply, h]

theorem after_of_ok (h : m s = .ok a s') : after m s = s' := by
  unfold after
  rw [h]

theorem after_of_error (h : m s = .error e s') : after m s = s' := by
  unfold after
  rw [h]

theorem after_bind_of (P : σ → Prop) (hm : P (after m s))
    (hf : ∀ a s', m s = .ok a s' → P (after (f a) s')) : P (after (m >>= f) s) := by
  cases h : m s with
  | ok a s' =>
    rw [after_bind_of_ok h]
    exact hf a s' h
  | error e s' =>
    rw [after_bind_of_error h]
    rwa [after_of_error h] at hm

theorem bind_eq_ok {b : β} : (m >>= f) s = .ok b s' ↔ ∃ a s₁, m s = .ok a s₁ ∧ f a s₁ = .ok b s' := by
  rw [bind_apply]
  cases m s with
  | ok a s₁ =>
    constructor
    · exact fun h => ⟨a, s₁, rfl, h⟩
    · rintro ⟨a', s', hm, h⟩
      cases hm
      exact h
  | error e s₁ => simp

theorem lift_bind_of {P : EStateM.Result ε σ β → Prop} (herror : ∀ e, x = .error e → P (.error e s))
    (hok : ∀ a, x = .ok a → P (f a s)) : P ((lift x >>= f) s) := by
  cases x with
  | error e => exact herror e rfl
  | ok a => exact hok a rfl

/-! ## Results -/

/-- What holds of the value and the state when the computation returns. -/
def Yields (Q : α → σ → Prop) (m : EStateM ε σ α) (s : σ) : Prop := ∀ a s', m s = .ok a s' → Q a s'

theorem yields_pure (h : Q a s) : Yields Q (pure a : EStateM ε σ α) s := by
  intro a' s' heq
  cases heq
  exact h

theorem yields_bind {Q : β → σ → Prop} (hf : ∀ a s', m s = .ok a s' → Yields Q (f a) s') : Yields Q (m >>= f) s := by
  intro b s' h
  obtain ⟨a, s₁, ha, h⟩ := bind_eq_ok.mp h
  exact hf a s₁ ha b s' h

theorem yields_get_bind {Q : β → σ → Prop} {f : σ → EStateM ε σ β} :
    Yields Q ((get : EStateM ε σ σ) >>= f) s ↔ Yields Q (f s) s := Iff.rfl

/-! ## Pre- and postconditions -/

/-- What holds when the computation returns, and what holds when it fails. -/
def Ends (Q : α → σ → Prop) (E : σ → Prop) (m : EStateM ε σ α) (s : σ) : Prop :=
  match m s with
  | .ok a s => Q a s
  | .error _ s => E s

section
variable {Q : α → σ → Prop} {R : β → σ → Prop} {E : σ → Prop} {s : σ}

theorem ends_pure (h : Q a s) : Ends Q E (pure a : EStateM ε σ α) s := h

theorem ends_throw (h : E s) : Ends Q E (throw e : EStateM ε σ α) s := h

theorem ends_lift (hok : ∀ a, x = .ok a → Q a s) (herror : E s) : Ends Q E (lift x : EStateM ε σ α) s := by
  cases x with
  | ok a => exact hok a rfl
  | error e => exact herror

variable {m : EStateM ε σ α}

theorem Ends.bind (hm : Ends Q E m s) (hf : ∀ a s', Q a s' → Ends R E (f a) s') : Ends R E (m >>= f) s := by
  unfold Ends at hm ⊢
  rw [bind_apply]
  cases h : m s with
  | ok a s' =>
    rw [h] at hm
    exact hf a s' hm
  | error e s' =>
    rw [h] at hm
    exact hm

theorem ends_get_bind {f : σ → EStateM ε σ β} :
    Ends R E ((get : EStateM ε σ σ) >>= f) s ↔ Ends R E (f s) s := Iff.rfl

theorem ends_modify_bind {g : σ → σ} {f : PUnit → EStateM ε σ β} :
    Ends R E ((modify g : EStateM ε σ PUnit) >>= f) s ↔ Ends R E (f ⟨⟩) (g s) := Iff.rfl

theorem Ends.mono {Q' : α → σ → Prop} {E' : σ → Prop} (h : Ends Q E m s) (hok : ∀ a s', Q a s' → Q' a s')
    (herror : ∀ s', E s' → E' s') : Ends Q' E' m s := by
  unfold Ends at h ⊢
  cases hm : m s with
  | ok a s' =>
    rw [hm] at h
    exact hok a s' h
  | error e s' =>
    rw [hm] at h
    exact herror s' h

theorem Ends.of_ok (h : Ends Q E m s) (hm : m s = .ok a s') : Q a s' := by
  unfold Ends at h
  rwa [hm] at h

theorem Ends.of_error (h : Ends Q E m s) (hm : m s = .error e s') : E s' := by
  unfold Ends at h
  rwa [hm] at h

end

def zoom {τ : Type} (view : σ → τ) (put : σ → τ → σ) (m : EStateM ε τ α) : EStateM ε σ α := fun s =>
  match m (view s) with
  | .ok a t => .ok a (put s t)
  | .error e t => .error e (put s t)

theorem ends_zoom {τ : Type} {view : σ → τ} {put : σ → τ → σ} {m : EStateM ε τ α} {E : σ → Prop}
    (h : Ends (fun a t => Q a (put s t)) (fun t => E (put s t)) m (view s)) : Ends Q E (zoom view put m) s := by
  unfold Ends at h
  unfold Ends zoom
  cases hm : m (view s) with
  | ok a t =>
    rw [hm] at h
    exact h
  | error e t =>
    rw [hm] at h
    exact h

/-! ## Relations kept -/

section
variable {R : σ → σ → Prop}

theorem keeps_pure (hrefl : ∀ s, R s s) (a : α) : Keeps R (pure a : EStateM ε σ α) := hrefl

variable {f : α → EStateM ε σ β}

theorem after_bind (hm : R s (after m s))
    (htrans : ∀ {a b c}, R a b → R b c → R a c) (hf : ∀ a s', m s = .ok a s' → R s' (after (f a) s')) :
    R s (after (m >>= f) s) := by
  refine after_bind_of (R s) hm fun a s' h => ?_
  rw [after_of_ok h] at hm
  exact htrans hm (hf a s' h)

theorem Keeps.bind (hm : Keeps R m) (htrans : ∀ {a b c}, R a b → R b c → R a c)
    (hf : ∀ a, Keeps R (f a)) : Keeps R (m >>= f) := fun s =>
  after_bind (R := R) (hm s) htrans fun a s' _ => hf a s'

end

end Stateful
