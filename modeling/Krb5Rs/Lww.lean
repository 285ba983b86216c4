import Mathlib.Data.List.Induction
import Mathlib.Order.Lattice

/-!
# Last writer wins

Registers, one for each key, that hold the content of the newest write made to
them together with its version. A write that is not newer than what is held is
dropped, so what a run of writes leaves behind depends on the set of the writes
alone: neither their order nor repetitions matter.
-/

namespace Lww

structure Write (κ τ γ : Type) where
  key : κ
  version : τ
  content : γ

abbrev Regs (κ τ γ : Type) := κ → Option (τ × γ)

section
variable {κ τ γ : Type} [LinearOrder τ] {held : Option (τ × γ)}

def Newer (held : Option (τ × γ)) (v : τ) : Prop := ∀ x, held = some x → x.1 < v

@[simp] theorem newer_none (v : τ) : Newer (none : Option (τ × γ)) v := by
  intro x hx
  cases hx

@[simp] theorem newer_some (x : τ × γ) (v : τ) : Newer (some x) v ↔ x.1 < v := by
  constructor
  · intro h
    exact h x rfl
  · intro h y hy
    cases hy
    exact h

instance (held : Option (τ × γ)) (v : τ) : Decidable (Newer held v) :=
  match held with
  | none => .isTrue (newer_none v)
  | some x => decidable_of_iff (x.1 < v) (newer_some x v).symm

theorem Newer.mono {v w : τ} (h : Newer held v) (hvw : v ≤ w) : Newer held w :=
  fun x hx => lt_of_lt_of_le (h x hx) hvw

theorem lt_of_newer_of_not {v w : τ} (h : Newer held v) (hw : ¬ Newer held w) : w < v := by
  by_contra hle
  exact hw (h.mono (not_lt.mp hle))

variable [DecidableEq κ]

def put (r : Regs κ τ γ) (w : Write κ τ γ) : Regs κ τ γ := fun k =>
  if k = w.key ∧ Newer (r k) w.version then some (w.version, w.content) else r k

def run (r : Regs κ τ γ) (ws : List (Write κ τ γ)) : Regs κ τ γ := ws.foldl put r

variable {w : Write κ τ γ} {ws ws' : List (Write κ τ γ)} {x : Option (τ × γ)} {k : κ} (r : Regs κ τ γ)

theorem put_of_not_newer {r : Regs κ τ γ} (h : ¬ Newer (r w.key) w.version) : put r w = r := by
  funext k
  unfold put
  split
  case isTrue hw => exact absurd (hw.1 ▸ hw.2) h
  case isFalse => rfl

theorem eq_put {r s : Regs κ τ γ} (hnew : Newer (r w.key) w.version)
    (hself : s w.key = some (w.version, w.content)) (hother : ∀ k, k ≠ w.key → s k = r k) : s = put r w := by
  funext k
  unfold put
  by_cases hk : k = w.key
  · rw [hk, if_pos ⟨rfl, hnew⟩, hself]
  · rw [if_neg fun h => hk h.1, hother k hk]

theorem run_append (ws ws' : List (Write κ τ γ)) : run r (ws ++ ws') = run (run r ws) ws' :=
  List.foldl_append

omit [DecidableEq κ] in
/-- What the writes `ws` make of a key that held `held`. -/
inductive Latest (ws : List (Write κ τ γ)) (held : Option (τ × γ)) (k : κ) : Option (τ × γ) → Prop
  | kept : (∀ w ∈ ws, w.key = k → ¬ Newer held w.version) → Latest ws held k held
  | won (w : Write κ τ γ) : w ∈ ws → w.key = k → Newer held w.version →
      (∀ w' ∈ ws, w'.key = k → w'.version ≤ w.version) → Latest ws held k (some (w.version, w.content))

omit [DecidableEq κ] in
theorem Latest.drop (h : Latest ws held k x) (hw : w.key = k → ¬ Newer x w.version) : Latest (ws ++ [w]) held k x := by
  cases h with
  | kept hall =>
    apply Latest.kept
    intro v hv hk
    rcases List.mem_append.mp hv with hv | hv
    · exact hall v hv hk
    · cases List.mem_singleton.mp hv
      exact hw hk
  | won u hu hk hn hmax =>
    apply Latest.won u (List.mem_append_left _ hu) hk hn
    intro v hv hvk
    rcases List.mem_append.mp hv with hv | hv
    · exact hmax v hv hvk
    · cases List.mem_singleton.mp hv
      exact not_lt.mp fun hlt => hw hvk ((newer_some _ _).mpr hlt)

omit [DecidableEq κ] in
theorem Latest.add (h : Latest ws held k x) (hk : w.key = k) (hw : Newer x w.version) :
    Latest (ws ++ [w]) held k (some (w.version, w.content)) := by
  have hmem : w ∈ ws ++ [w] := List.mem_append_right _ (List.mem_singleton_self w)
  cases h with
  | kept hall =>
    apply Latest.won w hmem hk hw
    intro v hv hvk
    rcases List.mem_append.mp hv with hv | hv
    · exact le_of_lt (lt_of_newer_of_not hw (hall v hv hvk))
    · cases List.mem_singleton.mp hv
      exact le_refl _
  | won u hu huk hn hmax =>
    have hlt := (newer_some _ _).mp hw
    apply Latest.won w hmem hk (hn.mono (le_of_lt hlt))
    intro v hv hvk
    rcases List.mem_append.mp hv with hv | hv
    · exact le_trans (hmax v hv hvk) (le_of_lt hlt)
    · cases List.mem_singleton.mp hv
      exact le_refl _

theorem latest_run (ws : List (Write κ τ γ)) (k : κ) : Latest ws (r k) k (run r ws k) := by
  induction ws using List.reverseRecOn with
  | nil => exact .kept fun w hw => absurd hw List.not_mem_nil
  | append_singleton ws w ih =>
    rw [run_append]
    change Latest (ws ++ [w]) (r k) k (put (run r ws) w k)
    unfold put
    split
    case isTrue hw => exact ih.add hw.1.symm hw.2
    case isFalse hw => exact ih.drop fun hk hn => hw ⟨hk.symm, hn⟩

/-- Writes to one key with one version have one content. -/
def Consistent (ws : List (Write κ τ γ)) : Prop :=
  ∀ w ∈ ws, ∀ w' ∈ ws, w.key = w'.key → w.version = w'.version → w.content = w'.content

omit [DecidableEq κ] in
theorem Latest.unique (hc : Consistent ws) {y : Option (τ × γ)} (hx : Latest ws held k x)
    (hy : Latest ws held k y) : x = y := by
  cases hx with
  | kept hall =>
    cases hy with
    | kept => rfl
    | won w hw hk hn => exact absurd hn (hall w hw hk)
  | won w hw hk hn hmax =>
    cases hy with
    | kept hall => exact absurd hn (hall w hw hk)
    | won v hv hvk hvn hvmax =>
      have hver := le_antisymm (hvmax w hw hk) (hmax v hv hvk)
      have hcon := hc w hw v hv (hk.trans hvk.symm) hver
      rw [hver, hcon]

omit [DecidableEq κ] in
theorem Latest.congr (h : ∀ w, w ∈ ws ↔ w ∈ ws') (hx : Latest ws held k x) : Latest ws' held k x := by
  cases hx with
  | kept hall => exact .kept fun w hw => hall w ((h w).mpr hw)
  | won w hw hk hn hmax => exact .won w ((h w).mp hw) hk hn fun v hv => hmax v ((h v).mpr hv)

theorem run_congr (h : ∀ w, w ∈ ws ↔ w ∈ ws') (hc : Consistent ws) : run r ws = run r ws' := by
  funext k
  exact (latest_run r ws k).unique hc ((latest_run r ws' k).congr fun w => (h w).symm)

theorem run_eq_of_newest (hc : Consistent ws) (hw : w ∈ ws)
    (hnew : Newer (r w.key) w.version) (hmax : ∀ w' ∈ ws, w'.key = w.key → w'.version ≤ w.version) :
    run r ws w.key = some (w.version, w.content) :=
  (latest_run r ws w.key).unique hc (.won w hw rfl hnew hmax)

theorem run_eq_of_not_newer (h : ∀ w ∈ ws, w.key = k → ¬ Newer (r k) w.version) : run r ws k = r k := by
  have hl := latest_run r ws k
  revert h hl
  generalize run r ws k = x
  intro h hl
  cases hl with
  | kept => rfl
  | won w hw hk hn => exact absurd hn (h w hw hk)

end

end Lww
