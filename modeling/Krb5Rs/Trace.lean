import Krb5Rs.Stateful
import Mathlib.Data.List.Induction

/-!
# Runs of a machine

A machine takes one input a step and may fail; a failed step keeps the changes
it made, and the machine may be stepped again. The trace of a run holds every
step with the state before it.
-/

namespace Trace

variable {ε σ ι ω : Type}

structure Event (ε σ ι ω : Type) where
  before : σ
  input : ι
  result : EStateM.Result ε σ ω

def Event.after (e : Event ε σ ι ω) : σ :=
  match e.result with
  | .ok _ s => s
  | .error _ s => s

variable (step : ι → EStateM ε σ ω)

def event (s : σ) (i : ι) : Event ε σ ι ω := ⟨s, i, step i s⟩

def trace (s : σ) : List ι → List (Event ε σ ι ω)
  | [] => []
  | i :: is => event step s i :: trace (event step s i).after is

def run (s : σ) : List ι → σ
  | [] => s
  | i :: is => run (event step s i).after is

theorem run_concat (s : σ) (is : List ι) (i : ι) : run step s (is ++ [i]) = (event step (run step s is) i).after := by
  induction is generalizing s with
  | nil => rfl
  | cons j is ih => exact ih _

theorem trace_concat (s : σ) (is : List ι) (i : ι) :
    trace step s (is ++ [i]) = trace step s is ++ [event step (run step s is) i] := by
  induction is generalizing s with
  | nil => rfl
  | cons j is ih => exact congrArg (event step s j :: ·) (ih _)

theorem invariant {step : ι → EStateM ε σ ω} {P : List (Event ε σ ι ω) → σ → Prop} {s : σ} (hstart : P [] s)
    (hstep : ∀ t s i, P t s → P (t ++ [event step s i]) (event step s i).after) (is : List ι) :
    P (trace step s is) (run step s is) := by
  induction is using List.reverseRecOn with
  | nil => exact hstart
  | append_singleton is i ih =>
    rw [trace_concat, run_concat]
    exact hstep _ _ _ ih

/-! ## What the events give -/

theorem filterMap_concat {α : Type} (f : Event ε σ ι ω → Option α) (t : List (Event ε σ ι ω)) (e : Event ε σ ι ω) :
    (t ++ [e]).filterMap f = t.filterMap f ++ (f e).toList := by
  cases h : f e <;> simp [h]

def since (kind : Event ε σ ι ω → Bool) (t : List (Event ε σ ι ω)) : List (Event ε σ ι ω) :=
  t.reverse.takeWhile fun e => !kind e

theorem since_concat (kind : Event ε σ ι ω → Bool) (t : List (Event ε σ ι ω)) (e : Event ε σ ι ω) :
    since kind (t ++ [e]) = if kind e then [] else e :: since kind t := by
  unfold since
  rw [List.reverse_append, List.reverse_singleton, List.singleton_append, List.takeWhile_cons]
  cases kind e <;> rfl

end Trace
