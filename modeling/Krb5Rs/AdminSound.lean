import Krb5Rs.Admin
import Krb5Rs.LmdbSound

/-!
# What administrative operations change

Every operation leaves the entry of a principal it is not about. A password
change may create the history principal, but only where there is none.
-/

namespace Krb5Rs

open Wire (Bytes)
open Utf8 (Str)
open Stateful (after Keeps)
open LmdbStore (KeptAt Reread kept_after_reread kept_after_checked)

/-! ## Options and keys -/

section
variable [Alphabet]

theorem applyOptions_attributes (now : Int) (entry : PrincipalEntry) (opts : PrincipalOptions) :
    (applyOptions now entry opts).1.attributes = opts.attributes.apply entry.attributes := by
  simp only [applyOptions, apply_ite PrincipalEntry.attributes, ite_self]

theorem applyOptions_keys (now : Int) (entry : PrincipalEntry) (opts : PrincipalOptions) :
    (applyOptions now entry opts).1.keys = entry.keys := by
  simp only [applyOptions, apply_ite PrincipalEntry.keys, ite_self]

theorem AdminOps.modified_keys (env : Env) (opts : PrincipalOptions) (policy : Option MitPolicy) (record : PrincipalRecord) :
    (AdminOps.modified env opts policy record).entry.keys = record.entry.keys :=
  applyOptions_keys _ record.entry opts

end

theorem keepLoop_subset {keepOld : Nat} {ks : List KeyEntry} :
    ∀ {last : Option UInt32} {changes : Nat} {k : KeyEntry}, k ∈ keepLoop keepOld last changes ks → k ∈ ks := by
  induction ks with
  | nil =>
    intro last changes k h
    cases h
  | cons k₀ ks ih =>
    intro last changes k h
    unfold keepLoop at h
    split at h
    · generalize (if last.any (· ≠ k₀.kvno) then changes + 1 else changes) = changes at h
      dsimp only at h
      split at h
      · cases h
      · rcases List.mem_cons.mp h with rfl | h
        · exact List.mem_cons_self ..
        · exact List.mem_cons_of_mem _ (ih h)
    · rcases List.mem_cons.mp h with rfl | h
      · exact List.mem_cons_self ..
      · exact List.mem_cons_of_mem _ (ih h)

theorem keptKeys_subset {keepOld : Nat} {old : List KeyEntry} {k : KeyEntry} (h : k ∈ keptKeys keepOld old) :
    k ∈ old := by
  unfold keptKeys at h
  split at h
  · exact List.mem_mergeSort.mp (keepLoop_subset h)
  · cases h

theorem randomKeys_drawn [KeyGen] {kvno : UInt32} {etypes : List Int32} :
    ∀ {fresh : Nat → Bytes} {keys : List KeyEntry}, randomKeys fresh kvno etypes = .ok keys →
      ∀ k ∈ keys, ∃ i, KeyGen.randomToKey k.key.keytype (fresh i) = .ok k.key.keyBytes := by
  induction etypes with
  | nil =>
    intro fresh keys h k hk
    cases h
    cases hk
  | cons etype etypes ih =>
    intro fresh keys h k hk
    obtain ⟨key, hkey, h⟩ := Wire.bind_eq_ok.mp h
    obtain ⟨rest, hrest, h⟩ := Wire.bind_eq_ok.mp h
    cases h
    rcases List.mem_cons.mp hk with rfl | hk
    · refine ⟨0, ?_⟩
      cases hr : KeyGen.randomToKey etype (fresh 0) with
      | error e =>
        rw [hr] at hkey
        cases hkey
      | ok bytes =>
        rw [hr] at hkey
        exact congrArg Except.ok (Except.ok.inj hkey)
    · obtain ⟨i, hi⟩ := ih hrest k hk
      exact ⟨i + 1, hi⟩

/-! ## Operations -/

namespace AdminOps

theorem after_spawnWrite {α : Type} (operation : String) (m : Txn α) (s : LmdbStore) :
    after (spawnWrite operation m) s = after m s := by
  unfold after spawnWrite
  cases m s with
  | ok a s' => rfl
  | error e s' => cases e <;> rfl

theorem spawnWrite_eq_ok {α : Type} {operation : String} {m : Txn α} {s s' : LmdbStore} {a : α}
    (h : spawnWrite operation m s = .ok a s') : m s = .ok a s' := by
  unfold spawnWrite at h
  split at h
  · cases h
  · exact h

theorem after_ignoreConflict (m : Txn Unit) (s : LmdbStore) : after (ignoreConflict m) s = after m s := by
  unfold after ignoreConflict
  cases m s with
  | ok a s' => rfl
  | error e s' =>
    cases e with
    | panicked => rfl
    | error e => by_cases h : e.kind = .conflict <;> simp [h]

section
variable [Alphabet] [Crypto]

theorem keeps_require (name : PrincipalName) (realm : Str) : Keeps Reread (require name realm) := by
  intro s
  refine Stateful.after_bind (R := Reread) (LmdbStore.keeps_getRecord name realm s) Reread.trans fun record s' _ => ?_
  cases record <;> exact Reread.refl s'

variable {realm : Str} {key : Bytes} {name : PrincipalName}

theorem require_eq_ok {s s' : LmdbStore} {record : PrincipalRecord} (h : require name realm s = .ok record s') :
    ∃ raw, LmdbStore.StoredAt s' (unparseName name realm) raw ∧ recordFromEntry raw s'.master = .ok record := by
  obtain ⟨present, s₁, hget, h⟩ := Stateful.bind_eq_ok.mp h
  cases present with
  | none => cases h
  | some record' =>
    cases h
    exact LmdbStore.getRecord_eq_ok hget

theorem keeps_createPrincipal (key : Bytes) (a : AdminOps) (r : Readings) (entry : PrincipalEntry)
    (changed : KerberosTime) : Keeps (KeptAt key) (a.createPrincipal r entry changed) := by
  intro s
  rw [createPrincipal, after_spawnWrite]
  exact LmdbStore.keeps_createPrincipalAs key r entry (some changed) a.modifier a.tlData s

theorem keeps_deleteRequired (hne : unparseName name realm ≠ key) (env : Env) :
    Keeps (KeptAt key) (deletePrincipal env name realm) := by
  refine kept_after_reread (keeps_require name realm) fun _ => ?_
  refine Keeps.bind (fun s => ?_) KeptAt.trans fun deleted => ?_
  · rw [after_spawnWrite]
    exact LmdbStore.keeps_deletePrincipal hne (env.writes 0) s
  · cases deleted <;> exact KeptAt.refl key

theorem keeps_modifyPrincipal (hne : unparseName name realm ≠ key) (a : AdminOps)
    (env : Env) (opts : PrincipalOptions) : Keeps (KeptAt key) (a.modifyPrincipal env name realm opts) := by
  refine kept_after_checked fun policy => kept_after_reread (keeps_require name realm) fun _ => ?_
  refine Keeps.bind (fun s => ?_) KeptAt.trans fun _ => KeptAt.refl key
  rw [updatePrincipal, after_spawnWrite]
  exact LmdbStore.keeps_updatePrincipalAs hne _ _ _ _ s

variable [KeyGen]

theorem keeps_addPrincipal (key : Bytes) (a : AdminOps) (env : Env) (name : PrincipalName) (realm : Str)
    (password : Option Str) (opts : PrincipalOptions) :
    Keeps (KeptAt key) (a.addPrincipal env name realm password opts) := by
  refine kept_after_reread (LmdbStore.keeps_getRecord name realm) fun present => ?_
  by_cases hpresent : present.isSome = true
  · rw [if_pos hpresent]
    exact KeptAt.refl key
  · rw [if_neg hpresent]
    refine kept_after_checked fun policy => kept_after_checked fun _ => kept_after_checked fun keys => ?_
    exact keeps_createPrincipal key a (env.writes 0) _ _

theorem keeps_historyRecord (key : Bytes) (a : AdminOps) (env : Env) (name : PrincipalName) (realm : Str)
    (present : Option PrincipalRecord) : Keeps (KeptAt key) (a.historyRecord env name realm present) := by
  cases present with
  | some record => exact KeptAt.refl key
  | none =>
    refine kept_after_checked fun keys => Keeps.bind (fun s => ?_) KeptAt.trans fun _ s =>
      (keeps_require name realm s).same.kept key
    rw [after_ignoreConflict]
    exact keeps_createPrincipal key a _ _ _ s

theorem keeps_historyKeys (key : Bytes) (a : AdminOps) (env : Env) (realm : Str) :
    Keeps (KeptAt key) (a.historyKeys env realm) := by
  have hname : Keeps (KeptAt key) historyPrincipal := by
    intro s
    unfold historyPrincipal
    split <;> exact KeptAt.refl key s
  refine hname.bind KeptAt.trans fun name => ?_
  refine kept_after_reread (LmdbStore.keeps_getRecord name realm) fun present => ?_
  refine (keeps_historyRecord key a env name realm present).bind KeptAt.trans fun record s => ?_
  cases record.entry.currentKvno <;> exact KeptAt.refl key s

theorem keeps_neededHistory (key : Bytes) (a : AdminOps) (env : Env) (realm : Str) (password : Option Str)
    (policy : Option MitPolicy) (current : PrincipalRecord) :
    Keeps (KeptAt key) (a.neededHistory env realm password policy current) := by
  unfold neededHistory
  split
  · exact (keeps_historyKeys key a env realm).bind KeptAt.trans fun _ => KeptAt.refl key
  · exact KeptAt.refl key

theorem keeps_changePasswordKeeping (hne : unparseName name realm ≠ key) (a : AdminOps)
    (env : Env) (password : Option Str) (keepOld : Nat) :
    Keeps (KeptAt key) (a.changePasswordKeeping env name realm password keepOld) := by
  unfold changePasswordKeeping
  split
  · exact KeptAt.refl key
  refine kept_after_reread (keeps_require name realm) fun current => kept_after_checked fun policy => ?_
  refine (keeps_neededHistory key a env realm password policy current).bind KeptAt.trans fun hist =>
    kept_after_checked fun _ => Keeps.bind (fun s => ?_) KeptAt.trans fun _ => KeptAt.refl key
  rw [updatePrincipal, after_spawnWrite]
  exact LmdbStore.keeps_updatePrincipalAs hne _ _ _ _ s

end

end AdminOps

end Krb5Rs
