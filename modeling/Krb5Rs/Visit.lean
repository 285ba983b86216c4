import Mathlib.Data.List.Basic

/-!
# Walks with a callback

A computation that only passes things to its callback visits a fixed list of
them, whatever the callback does: it is the callback run over that list, followed
by the walk's own outcome. `Walk P run` says so, with `P` for each visited item.
-/

namespace Visit

variable {α ρ τ ε : Type}

abbrev Caller (α ε ρ : Type) := (σ : Type) → (α → StateT σ (Except ε) Unit) → StateT σ (Except ε) ρ

def Visits (run : Caller α ε ρ) (seen : List α) (out : Except ε ρ) : Prop :=
  ∀ (σ : Type) (f : α → StateT σ (Except ε) Unit), run σ f = seen.forM f >>= fun _ => liftM out

def Walk (P : α → Prop) (run : Caller α ε ρ) : Prop :=
  ∃ seen out, Visits run seen out ∧ ∀ a ∈ seen, P a

theorem liftM_ok_bind {σ : Type} (a : ρ) (k : ρ → StateT σ (Except ε) τ) :
    ((liftM (Except.ok a : Except ε ρ) : StateT σ (Except ε) ρ) >>= k) = k a := rfl

variable {P : α → Prop}

theorem Walk.pure (a : ρ) : Walk P (fun _ _ => Pure.pure a : Caller α ε ρ) :=
  ⟨[], .ok a, fun _ _ => rfl, by simp⟩

theorem Walk.throw (e : ε) : Walk P (fun _ _ => MonadExcept.throw e : Caller α ε ρ) :=
  ⟨[], .error e, fun _ _ => rfl, by simp⟩

theorem Walk.lift (x : Except ε ρ) : Walk P (fun _ _ => liftM x : Caller α ε ρ) :=
  ⟨[], x, fun _ _ => rfl, by simp⟩

theorem Walk.call {a : α} (ha : P a) : Walk P (fun _ f => f a : Caller α ε Unit) := by
  refine ⟨[a], .ok (), ?_, by simpa using ha⟩
  intro σ f
  simp only [List.forM_eq_forM, List.forM_cons, List.forM_nil, bind_pure_unit]
  exact (bind_pure_unit (x := f a)).symm

variable {run : Caller α ε ρ} {seen : List α}

theorem Walk.bind {next : ρ → Caller α ε τ} (hrun : Walk P run) (hnext : ∀ a, Walk P (next a)) :
    Walk P (fun σ f => run σ f >>= fun a => next a σ f) := by
  obtain ⟨seen, out, hv, hP⟩ := hrun
  cases out with
  | error e =>
    refine ⟨seen, .error e, ?_, hP⟩
    intro σ f
    show run σ f >>= _ = _
    rw [hv σ f, bind_assoc]
    rfl
  | ok a =>
    obtain ⟨seen', out', hv', hP'⟩ := hnext a
    refine ⟨seen ++ seen', out', ?_, fun b hb => (List.mem_append.mp hb).elim (hP b) (hP' b)⟩
    intro σ f
    show run σ f >>= _ = _
    rw [hv σ f, bind_assoc]
    simp only [liftM_ok_bind, hv' σ f, List.forM_eq_forM, List.forM_append, bind_assoc]

theorem Walk.forM {κ : Type} {body : κ → Caller α ε Unit} {l : List κ} (h : ∀ k ∈ l, Walk P (body k)) :
    Walk P (fun σ f => l.forM fun k => body k σ f) := by
  induction l with
  | nil => exact Walk.pure ()
  | cons k l ih =>
    have hl := ih fun j hj => h j (List.mem_cons_of_mem _ hj)
    exact (h k List.mem_cons_self).bind fun _ => hl

/-! ## Two callbacks -/

def collect (a : α) : StateT (List α) (Except ε) Unit := modify (· ++ [a])

def demand (test : α → Bool) (e : ε) (a : α) : StateT Unit (Except ε) Unit :=
  if test a then pure () else throw e

theorem forM_collect (l acc : List α) : (l.forM fun a => (collect a : StateT (List α) (Except ε) Unit)) acc = .ok ((), acc ++ l) := by
  induction l generalizing acc with
  | nil => rw [List.append_nil]; rfl
  | cons a l ih =>
    have := ih (acc ++ [a])
    rwa [List.append_assoc, List.singleton_append] at this

theorem forM_demand (test : α → Bool) (e : ε) (l : List α) :
    l.forM (demand test e) = if l.all test then pure () else throw e := by
  induction l with
  | nil => rfl
  | cons a l ih =>
    show (demand test e a >>= fun _ => l.forM (demand test e)) = _
    rw [ih, demand]
    cases h : test a
    · simp [h]; rfl
    · simp [h]

theorem Visits.collect_apply {out : Except ε ρ} (h : Visits run seen out) :
    run (List α) collect [] = (liftM out : StateT (List α) (Except ε) ρ) seen := by
  rw [h (List α) collect]
  show (seen.forM collect [] >>= fun p => _) = _
  rw [forM_collect, List.nil_append]
  rfl

theorem Walk.forall_collect (h : Walk P run) {u : ρ}
    (hrun : run (List α) collect [] = .ok (u, seen)) : ∀ a ∈ seen, P a := by
  obtain ⟨seen', out, hv, hP⟩ := h
  rw [hv.collect_apply] at hrun
  cases out with
  | error e => cases hrun
  | ok a =>
    obtain rfl : seen' = seen := congrArg Prod.snd (Except.ok.inj hrun)
    exact hP

theorem Walk.demand_iff (h : Walk P run) (test : α → Bool) (e : ε) : (∃ u, run Unit (demand test e) () = .ok u) ↔
      ∃ u seen, run (List α) collect [] = .ok (u, seen) ∧ ∀ a ∈ seen, test a := by
  obtain ⟨seen, out, hv, -⟩ := h
  rw [hv.collect_apply, hv Unit (demand test e), forM_demand]
  cases out with
  | error e' =>
    constructor
    · rintro ⟨u, hu⟩
      split at hu <;> cases hu
    · rintro ⟨u, seen', hu, -⟩
      cases hu
  | ok a =>
    constructor
    · rintro ⟨u, hu⟩
      split at hu
      · rename_i hall
        exact ⟨a, seen, rfl, by simpa using hall⟩
      · cases hu
    · rintro ⟨u, seen', hu, hall⟩
      obtain rfl : seen = seen' := congrArg Prod.snd (Except.ok.inj hu)
      rw [if_pos (by simpa using hall)]
      exact ⟨_, rfl⟩

end Visit
