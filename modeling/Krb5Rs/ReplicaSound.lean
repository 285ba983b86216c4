import Krb5Rs.Replica
import Krb5Rs.ReplicationSound

/-!
# Replicas converge

A replica is a family of last-writer-wins registers: one for each principal,
policy and lockout, holding the columns of the live row or the fact that it was
deleted. Applying a change is one write to such a register, so what a replica
shows does not depend on the order, the batching or the repetition of the
changes it was sent.
-/

namespace Krb5Rs

open Wire (Bytes bind_eq_ok)
open Utf8 (Str)
open Lww (Newer eq_put put run)

namespace Replica

variable {cols : PrincipalCols Bytes}

section
variable [Alphabet]

def asRead (p : StoredPrincipal) : StoredPrincipal :=
  { p with
    keys := orderedKeys p.keys
    allowedToDelegateTo := Sql.splitList (Sql.joinList p.allowedToDelegateTo)
    allowedToDelegateFrom := Sql.splitList (Sql.joinList p.allowedToDelegateFrom) }

/-- A list that comes back from one column as it is. -/
structure OneLineEach (list : List Str) : Prop where
  empty : list ≠ [⟨[], rfl⟩]
  lines : ∀ s ∈ list, (10 : UInt8) ∉ s.bytes

theorem asRead_of_lines {p : StoredPrincipal} (hto : OneLineEach p.allowedToDelegateTo)
    (hfrom : OneLineEach p.allowedToDelegateFrom) : asRead p = { p with keys := orderedKeys p.keys } := by
  rw [asRead, Sql.splitList_joinList hto.1 hto.2, Sql.splitList_joinList hfrom.1 hfrom.2]

theorem principalFromRows_fields {p : StoredPrincipal} {key : Bytes}
    (hne : p.name.nameString ≠ []) (hkey : encodePrincipalKey p.name = .ok key) (hcols : principalFields Sql.joinList p = .ok cols) :
    principalFromRows (p.realm, key) cols (newestFirst (p.keys.map (·.cols))) = .ok (asRead p) := by
  obtain ⟨life, hlife, hcols⟩ := bind_eq_ok.mp hcols
  obtain ⟨renew, hrenew, hcols⟩ := bind_eq_ok.mp hcols
  obtain ⟨epoch, hepoch, hcols⟩ := bind_eq_ok.mp hcols
  obtain ⟨tl, htl, hcols⟩ := bind_eq_ok.mp hcols
  cases hcols
  rw [newestFirst_cols]
  refine bind_eq_ok.mpr ⟨_, Sql.toI32_toInt64 _ _, ?_⟩
  refine bind_eq_ok.mpr ⟨_, mapM_keyFromCols _ _ _, ?_⟩
  refine bind_eq_ok.mpr ⟨_, decode_encodePrincipalKey hne hkey, ?_⟩
  refine bind_eq_ok.mpr ⟨_, Sql.toU32_ofU32 _ _, ?_⟩
  refine bind_eq_ok.mpr ⟨_, Sql.optional_toU64 _ hlife, ?_⟩
  refine bind_eq_ok.mpr ⟨_, Sql.optional_toU64 _ hrenew, ?_⟩
  refine bind_eq_ok.mpr ⟨_, Sql.toU64_ofU64 _ hepoch, ?_⟩
  exact bind_eq_ok.mpr ⟨_, tlFromColumn_tlColumn _ htl, rfl⟩

omit [Alphabet] in
def policyAsRead (p : StoredPolicy) : StoredPolicy :=
  { p with securityEpoch := UInt64.ofNat (min p.securityEpoch.toNat (2 ^ 63 - 1)) }

omit [Alphabet] in
theorem policyFromRow_fields {p : StoredPolicy} {cols : PolicyCols} (hcols : policyFields p = .ok cols) :
    policyFromRow p.name cols = .ok (policyAsRead p) := by
  obtain ⟨tl, htl, hcols⟩ := bind_eq_ok.mp hcols
  cases hcols
  have htl := tlFromColumn_tlColumn "truncated policy tl-data" htl
  simp [policyFromRow, Sql.toU32_ofU32, Sql.toU64_saturate, policyTlDataFrom, htl, bind, Except.bind, policyAsRead]

end

/-! ## Registers -/

inductive EntityKey
  | principal (key : NameKey)
  | policy (name : Str)
  | lockout (key : NameKey)
deriving DecidableEq

/-- The columns of a live row; a principal's keys are in the order they were written. -/
inductive Image
  | principal (cols : PrincipalCols Bytes) (keys : List KeyCols)
  | policy (cols : PolicyCols)
  | lockout (cols : LockoutCols)

def held {κ ρ : Type} (image : Table.Row κ (Versioned ρ) → ρ → Image) (row : Table.Row κ (Versioned ρ)) :
    ReplicationTs × Option Image :=
  (row.cols.version, row.cols.live.map (image row))

def rowRegs {κ ρ : Type} [DecidableEq κ] (image : ρ → Image) (t : Table κ (Versioned ρ)) :
    Lww.Regs κ ReplicationTs (Option Image) := fun key => (t.find key).map (held fun _ => image)

def regs (r : Replica) : Lww.Regs EntityKey ReplicationTs (Option Image)
  | .principal key => (r.principals.find key).map (held fun row cols => .principal cols (r.keysOf row.id))
  | .policy name => rowRegs .policy r.policies name
  | .lockout key => rowRegs .lockout r.lockouts key

theorem regs_empty (k : EntityKey) : Replica.empty.regs k = none := by
  cases k <;> rfl

abbrev RowWrite := Lww.Write EntityKey ReplicationTs (Option Image)

/-- The row a change writes, unless its values do not fit the columns. -/
def rowOf [Alphabet] : Change → Except StoreError RowWrite
  | .upsertPrincipal p version => do
    let key ← encodePrincipalKey p.name
    let cols ← principalFields Sql.joinList p
    if ((p.keys.map (·.cols)).map (·.index)).Nodup then
      .ok ⟨.principal (p.realm, key), version, some (.principal cols (p.keys.map (·.cols)))⟩
    else .error duplicateKey
  | .deletePrincipal realm name version => do
    let key ← encodePrincipalKey name
    .ok ⟨.principal (realm, key), version, none⟩
  | .upsertPolicy p version => do
    let cols ← policyFields p
    .ok ⟨.policy p.name, version, some (.policy cols)⟩
  | .deletePolicy name version => .ok ⟨.policy name, version, none⟩
  | .upsertLockout l version => do
    let key ← encodePrincipalKey l.name
    .ok ⟨.lockout (l.realm, key), version, some (.lockout (lockoutFields l))⟩
  | .deleteLockout realm name version => do
    let key ← encodePrincipalKey name
    .ok ⟨.lockout (realm, key), version, none⟩

/-! ## The key table -/

theorem keysOf_deleteKeys (r : Replica) (id i : Nat) :
    (r.deleteKeys id).keysOf i = if i = id then [] else r.keysOf i := by
  unfold keysOf deleteKeys
  simp only [List.filter_filter]
  split
  · rename_i h
    simp [h]
  rename_i h
  congr 1
  apply List.filter_congr
  intro row _
  by_cases hrow : row.principalId = i
  · simp [hrow, h]
  · simp [hrow]

variable {r : Replica} {v : ReplicationTs} {c : Option Image}
  {row : Table.Row NameKey (Versioned (PrincipalCols Bytes))} {key : NameKey}

theorem keysOf_eq_nil {id : Nat} (h : id ∉ r.principals.ids) : r.keysOf id = [] := by
  unfold keysOf
  rw [List.map_eq_nil_iff, List.filter_eq_nil_iff]
  intro row hrow hid
  exact h (of_decide_eq_true hid ▸ r.owned row hrow)

theorem insertKeys_eq_ok {id : Nat} (h : id ∈ r.principals.ids) {keys : List KeyCols}
    (hnone : r.keysOf id = []) (hkeys : (keys.map (·.index)).Nodup) :
    ∃ s, r.insertKeys id h keys = .ok s ∧ s.principals = r.principals ∧ s.policies = r.policies ∧
      s.lockouts = r.lockouts ∧ ∀ i, s.keysOf i = if i = id then keys else r.keysOf i := by
  refine ⟨_, if_pos (by rw [hnone]; exact hkeys), rfl, rfl, rfl, ?_⟩
  intro i
  unfold keysOf at hnone ⊢
  simp only [List.filter_append, List.map_append, List.filter_map, List.map_map]
  split
  · rename_i hi
    rw [hi, hnone]
    simp [Function.comp_def]
  · rename_i hi
    simp [Function.comp_def, Ne.symm hi]

@[simp] theorem keysOf_updatePrincipal (r : Replica) (id i : Nat) (c : Versioned (PrincipalCols Bytes)) :
    (r.updatePrincipal id c).keysOf i = r.keysOf i := rfl

@[simp] theorem keysOf_insertPrincipal (r : Replica) (key : NameKey) (c : Versioned (PrincipalCols Bytes))
    (h : r.principals.find key = none) (i : Nat) : (r.insertPrincipal key c h).keysOf i = r.keysOf i := rfl

/-! ## One change, one write -/

theorem regs_of_principal {s : Replica} (hpolicies : s.policies = r.policies)
    (hlockouts : s.lockouts = r.lockouts) (hnew : Newer (r.regs (.principal key)) v)
    (hself : s.regs (.principal key) = some (v, c)) (hother : ∀ k, k ≠ key → s.principals.find k = r.principals.find k)
    (hkeys : ∀ k row, k ≠ key → r.principals.find k = some row → s.keysOf row.id = r.keysOf row.id) :
    s.regs = put r.regs ⟨.principal key, v, c⟩ := by
  apply eq_put hnew hself
  intro k hk
  cases k with
  | principal k =>
    have hne : k ≠ key := fun h => hk (by rw [h])
    simp only [regs, hother k hne]
    cases hrow : r.principals.find k with
    | none => rfl
    | some row => simp only [Option.map_some, held, hkeys k row hne hrow]
  | policy name => rw [regs, regs, hpolicies]
  | lockout k => rw [regs, regs, hlockouts]

theorem regs_principal_of_find (h : r.principals.find key = some row) :
    r.regs (.principal key) = some (row.cols.version, row.cols.live.map (.principal · (r.keysOf row.id))) := by
  rw [regs, h]
  rfl

theorem newer_principal (h : r.principals.find key = some row) (v : ReplicationTs) :
    Newer (r.regs (.principal key)) v ↔ ¬ v ≤ row.cols.version := by
  rw [regs_principal_of_find h, not_le]
  exact Lww.newer_some _ _

theorem newer_principal_of_none (h : r.principals.find key = none) (v : ReplicationTs) :
    Newer (r.regs (.principal key)) v := by
  rw [regs, h]
  exact Lww.newer_none v

section
variable [Alphabet]

theorem upsertRow_put (r : Replica) (key : NameKey) {p : StoredPrincipal} (version : ReplicationTs)
    (hcols : principalFields Sql.joinList p = .ok cols) (hkeys : ((p.keys.map (·.cols)).map (·.index)).Nodup) :
    ∃ s a, r.upsertRow key p version = .ok (s, a) ∧
      s.regs = put r.regs ⟨.principal key, version, some (.principal cols (p.keys.map (·.cols)))⟩ := by
  unfold upsertRow
  split
  · rename_i row hrow
    split
    · rename_i hstale
      refine ⟨r, .stale, rfl, (Lww.put_of_not_newer ?_).symm⟩
      rw [newer_principal hrow]
      exact not_not.mpr hstale
    · rename_i hnew
      have hid : row.id ∈ ((r.updatePrincipal row.id ⟨cols, version, false⟩).deleteKeys row.id).principals.ids := by
        simpa [updatePrincipal, deleteKeys] using Table.mem_ids_of_find hrow
      obtain ⟨s, hs, hprincipals, hpolicies, hlockouts, hsk⟩ := insertKeys_eq_ok hid
        (by rw [keysOf_deleteKeys, if_pos rfl]) hkeys
      refine ⟨s, .yes, ?_, ?_⟩
      · exact bind_eq_ok.mpr ⟨cols, hcols, bind_eq_ok.mpr ⟨s, hs, rfl⟩⟩
      · have hprincipals : s.principals = r.principals.set row.id ⟨cols, version, false⟩ := hprincipals
        apply regs_of_principal (r := r) hpolicies hlockouts ((newer_principal hrow version).mpr hnew)
        · have hfind : s.principals.find key = some { row with cols := ⟨cols, version, false⟩ } := by
            rw [hprincipals, Table.find_set_self hrow]
          rw [regs_principal_of_find hfind, hsk, if_pos rfl]
          rfl
        · intro k hk
          rw [hprincipals, Table.find_set_of_ne hrow hk]
        · intro k other hk hother
          have hne := fun h => hk (Table.key_eq_of_id_eq hother hrow h)
          rw [hsk, if_neg hne, keysOf_deleteKeys, if_neg hne, keysOf_updatePrincipal]
  · rename_i hnone
    have hid : r.principals.nextId ∈ (r.insertPrincipal key ⟨cols, version, false⟩ hnone).principals.ids := by
      simp [insertPrincipal, Table.ids_insert]
    obtain ⟨s, hs, hprincipals, hpolicies, hlockouts, hsk⟩ := insertKeys_eq_ok hid
      (by rw [keysOf_insertPrincipal, keysOf_eq_nil r.principals.nextId_notMem]) hkeys
    refine ⟨s, .yes, ?_, ?_⟩
    · exact bind_eq_ok.mpr ⟨cols, hcols, bind_eq_ok.mpr ⟨s, hs, rfl⟩⟩
    · have hprincipals : s.principals = r.principals.insert key ⟨cols, version, false⟩ hnone := hprincipals
      apply regs_of_principal (r := r) hpolicies hlockouts (newer_principal_of_none hnone version)
      · have hfind : s.principals.find key = some ⟨r.principals.nextId, key, ⟨cols, version, false⟩⟩ := by
          rw [hprincipals, Table.find_insert_self]
        rw [regs_principal_of_find hfind, hsk, if_pos rfl]
        rfl
      · intro k hk
        rw [hprincipals, Table.find_insert_of_ne _ _ _ hk]
      · intro k other hk hother
        have hne : other.id ≠ r.principals.nextId := fun h =>
          r.principals.nextId_notMem (h ▸ Table.mem_ids_of_find hother)
        rw [hsk, if_neg hne, keysOf_insertPrincipal]

theorem deleteRow_put (r : Replica) (key : NameKey) (name : PrincipalName) (version : ReplicationTs) :
    (r.deleteRow key name version).1.regs = put r.regs ⟨.principal key, version, none⟩ := by
  unfold deleteRow
  split
  · rename_i row hrow
    split
    · rename_i hstale
      refine (Lww.put_of_not_newer ?_).symm
      rw [newer_principal hrow]
      exact not_not.mpr hstale
    · rename_i hnew
      refine regs_of_principal rfl rfl ((newer_principal hrow version).mpr hnew) ?_ ?_ ?_
      · have hfind := Table.find_set_self hrow { row.cols with version, deleted := true }
        change ((r.deleteKeys row.id).updatePrincipal row.id _).principals.find key = _ at hfind
        exact regs_principal_of_find hfind
      · intro k hk
        exact Table.find_set_of_ne hrow hk _
      · intro k other hk hother
        have hne := fun h => hk (Table.key_eq_of_id_eq hother hrow h)
        rw [keysOf_updatePrincipal, keysOf_deleteKeys, if_neg hne]
  · rename_i hnone
    refine regs_of_principal rfl rfl (newer_principal_of_none hnone version) ?_ ?_ ?_
    · have hfind := Table.find_insert_self r.principals key ⟨noPrincipal name, version, true⟩ hnone
      change (r.insertPrincipal key _ hnone).principals.find key = _ at hfind
      exact regs_principal_of_find hfind
    · intro k hk
      exact Table.find_insert_of_ne _ _ hnone hk
    · intro k other _ _
      rfl

end

theorem rowRegs_of_find {κ ρ : Type} [DecidableEq κ] (image : ρ → Image) {t : Table κ (Versioned ρ)} {key : κ}
    {row : Table.Row κ (Versioned ρ)} (h : t.find key = some row) :
    rowRegs image t key = some (row.cols.version, row.cols.live.map image) := by
  rw [rowRegs, h]
  rfl

theorem writeRow_put {κ ρ : Type} [DecidableEq κ] (image : ρ → Image) (t : Table κ (Versioned ρ)) (key : κ)
    (version : ReplicationTs) {updated : Versioned ρ → Versioned ρ} {inserted : Versioned ρ}
    (hupdated : ∀ old, (updated old).version = version ∧ (updated old).live.map image = c)
    (hinserted : inserted.version = version ∧ inserted.live.map image = c) :
    rowRegs image (writeRow t key version updated inserted).1 = put (rowRegs image t) ⟨key, version, c⟩ := by
  unfold writeRow
  split
  · rename_i row hrow
    split
    · rename_i hstale
      refine (Lww.put_of_not_newer ?_).symm
      rw [rowRegs_of_find image hrow, Lww.newer_some]
      exact not_lt.mpr hstale
    · rename_i hnew
      apply eq_put
      · rw [rowRegs_of_find image hrow, Lww.newer_some]
        exact not_le.mp hnew
      · rw [rowRegs_of_find image (Table.find_set_self hrow _)]
        simp only [hupdated]
      · intro k hk
        rw [rowRegs, rowRegs, Table.find_set_of_ne hrow hk]
  · rename_i hnone
    apply eq_put
    · rw [rowRegs, hnone]
      exact Lww.newer_none version
    · rw [rowRegs_of_find image (Table.find_insert_self _ _ _ hnone)]
      simp only [hinserted]
    · intro k hk
      rw [rowRegs, rowRegs, Table.find_insert_of_ne _ _ hnone hk]

theorem regs_of_policies {policies : Table Str (Versioned PolicyCols)} {name : Str}
    (h : rowRegs .policy policies = put (rowRegs .policy r.policies) ⟨name, v, c⟩) :
    ({ r with policies } : Replica).regs = put r.regs ⟨.policy name, v, c⟩ := by
  funext k
  cases k with
  | policy n =>
    have hn := congrFun h n
    simpa [put, regs] using hn
  | principal key => simp [put, regs]; rfl
  | lockout key => simp [put, regs]

theorem regs_of_lockouts {lockouts : Table NameKey (Versioned LockoutCols)}
    (h : rowRegs .lockout lockouts = put (rowRegs .lockout r.lockouts) ⟨key, v, c⟩) :
    ({ r with lockouts } : Replica).regs = put r.regs ⟨.lockout key, v, c⟩ := by
  funext k
  cases k with
  | lockout n =>
    have hn := congrFun h n
    simpa [put, regs] using hn
  | principal key => simp [put, regs]; rfl
  | policy name => simp [put, regs]

section
variable [Alphabet] {c : Change} {w : RowWrite} {cs : List Change} {r s : Replica}

theorem applyChange_put (r : Replica) (h : rowOf c = .ok w) :
    ∃ s a, r.applyChange c = .ok (s, a) ∧ s.regs = put r.regs w := by
  cases c with
  | upsertPrincipal p version =>
    obtain ⟨name, hname, h⟩ := bind_eq_ok.mp h
    obtain ⟨cols, hcols, h⟩ := bind_eq_ok.mp h
    split at h
    · rename_i hkeys
      cases h
      obtain ⟨s, a, hs, hregs⟩ := upsertRow_put r (p.realm, name) version hcols hkeys
      exact ⟨s, a, bind_eq_ok.mpr ⟨name, hname, hs⟩, hregs⟩
    · cases h
  | deletePrincipal realm name version =>
    obtain ⟨key, hkey, h⟩ := bind_eq_ok.mp h
    cases h
    exact ⟨_, _, bind_eq_ok.mpr ⟨key, hkey, rfl⟩, deleteRow_put r (realm, key) name version⟩
  | upsertPolicy p version =>
    obtain ⟨cols, hcols, h⟩ := bind_eq_ok.mp h
    cases h
    exact ⟨_, _, bind_eq_ok.mpr ⟨cols, hcols, rfl⟩,
      regs_of_policies (writeRow_put .policy _ _ _ (fun _ => ⟨rfl, rfl⟩) ⟨rfl, rfl⟩)⟩
  | deletePolicy name version =>
    cases h
    exact ⟨_, _, rfl, regs_of_policies (writeRow_put .policy _ _ _ (fun _ => ⟨rfl, rfl⟩) ⟨rfl, rfl⟩)⟩
  | upsertLockout l version =>
    obtain ⟨key, hkey, h⟩ := bind_eq_ok.mp h
    cases h
    exact ⟨_, _, bind_eq_ok.mpr ⟨key, hkey, rfl⟩,
      regs_of_lockouts (writeRow_put .lockout _ _ _ (fun _ => ⟨rfl, rfl⟩) ⟨rfl, rfl⟩)⟩
  | deleteLockout realm name version =>
    obtain ⟨key, hkey, h⟩ := bind_eq_ok.mp h
    cases h
    exact ⟨_, _, bind_eq_ok.mpr ⟨key, hkey, rfl⟩,
      regs_of_lockouts (writeRow_put .lockout _ _ _ (fun _ => ⟨rfl, rfl⟩) ⟨rfl, rfl⟩)⟩

/-! ## Runs -/

def rowsOf (cs : List Change) : List RowWrite := cs.filterMap fun c => (rowOf c).toOption

theorem mem_rowsOf : w ∈ rowsOf cs ↔ ∃ c ∈ cs, rowOf c = .ok w := by
  unfold rowsOf
  rw [List.mem_filterMap]
  constructor
  · rintro ⟨c, hc, hw⟩
    refine ⟨c, hc, ?_⟩
    cases h : rowOf c with
    | error e =>
      rw [h] at hw
      cases hw
    | ok w' =>
      rw [h] at hw
      rw [Option.some.inj hw]
  · rintro ⟨c, hc, hw⟩
    exact ⟨c, hc, by rw [hw]; rfl⟩

theorem applyChanges_run (r : Replica) (h : ∀ c ∈ cs, ∃ w, rowOf c = .ok w) :
    ∃ s n, r.applyChanges cs = .ok (s, n) ∧ s.regs = run r.regs (rowsOf cs) := by
  induction cs generalizing r with
  | nil => exact ⟨r, _, rfl, rfl⟩
  | cons c cs ih =>
    obtain ⟨w, hw⟩ := h c (List.mem_cons_self ..)
    obtain ⟨one, a, hone, hput⟩ := applyChange_put r hw
    obtain ⟨s, n, hs, hrun⟩ := ih one fun c' hc' => h c' (List.mem_cons_of_mem _ hc')
    refine ⟨s, _, bind_eq_ok.mpr ⟨_, hone, bind_eq_ok.mpr ⟨_, hs, rfl⟩⟩, ?_⟩
    have hrows : rowsOf (c :: cs) = w :: rowsOf cs := by
      unfold rowsOf
      rw [List.filterMap_cons_some]
      rw [hw]
      rfl
    rw [hrun, hput, hrows]
    rfl

theorem applyBatches_run (r : Replica) {batches : List (List Change)}
    (h : ∀ c ∈ batches.flatten, ∃ w, rowOf c = .ok w) :
    ∃ s, r.applyBatches batches = .ok s ∧ s.regs = run r.regs (rowsOf batches.flatten) := by
  induction batches generalizing r with
  | nil => exact ⟨r, rfl, rfl⟩
  | cons batch batches ih =>
    rw [List.flatten_cons] at h ⊢
    obtain ⟨one, n, hone, hrun₁⟩ := applyChanges_run r fun c hc => h c (List.mem_append_left _ hc)
    obtain ⟨s, hs, hrun₂⟩ := ih one fun c hc => h c (List.mem_append_right _ hc)
    refine ⟨s, bind_eq_ok.mpr ⟨_, hone, hs⟩, ?_⟩
    have hrows : rowsOf (batch ++ batches.flatten) = rowsOf batch ++ rowsOf batches.flatten := List.filterMap_append
    rw [hrun₂, hrun₁, hrows, Lww.run_append]

/-! ## What lookups show -/

omit [Alphabet] in
def shown (r : Replica) (k : EntityKey) : Option Image := (r.regs k).bind (·.2)

omit [Alphabet] in
def Image.joined : Image → Option (PrincipalCols Bytes × List KeyCols)
  | .principal cols keys => some (cols, newestFirst keys)
  | _ => none

omit [Alphabet] in
def Image.policyCols : Image → Option PolicyCols
  | .policy cols => some cols
  | _ => none

omit [Alphabet] in
def Image.lockoutCols : Image → Option LockoutCols
  | .lockout cols => some cols
  | _ => none

omit [Alphabet] in
theorem selectPrincipal_eq (r : Replica) (key : NameKey) :
    r.selectPrincipal key = (r.shown (.principal key)).bind Image.joined := by
  simp only [selectPrincipal, shown, regs]
  cases r.principals.find key with
  | none => rfl
  | some row =>
    simp only [Option.bind_some, Option.map_some, held]
    cases row.cols.live <;> rfl

omit [Alphabet] in
theorem rowRegs_live {κ ρ : Type} [DecidableEq κ] (image : ρ → Image) (t : Table κ (Versioned ρ)) (key : κ) :
    (rowRegs image t key).bind (·.2) = ((t.find key).bind (·.cols.live)).map image := by
  simp only [rowRegs]
  cases t.find key <;> rfl

omit [Alphabet] in
theorem livePolicy_eq (r : Replica) (name : Str) :
    (r.policies.find name).bind (·.cols.live) = (r.shown (.policy name)).bind Image.policyCols := by
  simp only [shown, regs, rowRegs_live]
  cases (r.policies.find name).bind (·.cols.live) <;> rfl

omit [Alphabet] in
theorem liveLockout_eq (r : Replica) (key : NameKey) :
    (r.lockouts.find key).bind (·.cols.live) = (r.shown (.lockout key)).bind Image.lockoutCols := by
  simp only [shown, regs, rowRegs_live]
  cases (r.lockouts.find key).bind (·.cols.live) <;> rfl

def SameView (r s : Replica) : Prop :=
  (∀ realm name, r.lookupStored realm name = s.lookupStored realm name) ∧
  (∀ name, r.lookupPolicy name = s.lookupPolicy name) ∧
  ∀ realm name, r.lookupLockout realm name = s.lookupLockout realm name

theorem sameView_of_regs (h : r.regs = s.regs) : SameView r s := by
  have hshown : r.shown = s.shown := by
    funext k
    rw [shown, shown, h]
  refine ⟨?_, ?_, ?_⟩
  · intro realm name
    simp only [lookupStored, selectPrincipal_eq, hshown]
  · intro name
    simp only [lookupPolicy, livePolicy_eq, hshown]
  · intro realm name
    simp only [lookupLockout, liveLockout_eq, hshown]

/-- Lookups return what the change carries, or nothing after a delete. -/
def Shows (r : Replica) : Change → Prop
  | .upsertPrincipal p _ => r.lookupStored p.realm p.name = .ok (some (asRead p))
  | .deletePrincipal realm name _ => r.lookupStored realm name = .ok none
  | .upsertPolicy p _ => r.lookupPolicy p.name = .ok (some (policyAsRead p))
  | .deletePolicy name _ => r.lookupPolicy name = .ok none
  | .upsertLockout l _ => r.lookupLockout l.realm l.name = .ok (some (l.lockedAt, l.unlockAt))
  | .deleteLockout realm name _ => r.lookupLockout realm name = .ok none

def Named : Change → Prop
  | .upsertPrincipal p _ => p.name.nameString ≠ []
  | _ => True

theorem shows_of_shown (hnamed : Named c) (h : rowOf c = .ok w) (hshown : r.shown w.key = w.content) : r.Shows c := by
  cases c with
  | upsertPrincipal p version =>
    obtain ⟨key, hkey, h⟩ := bind_eq_ok.mp h
    obtain ⟨cols, hcols, h⟩ := bind_eq_ok.mp h
    split at h
    · cases h
      apply bind_eq_ok.mpr
      refine ⟨key, hkey, ?_⟩
      rw [selectPrincipal_eq, hshown]
      change (principalFromRows (p.realm, key) cols (newestFirst (p.keys.map (·.cols)))).map some = _
      rw [principalFromRows_fields hnamed hkey hcols]
      rfl
    · cases h
  | deletePrincipal realm name version =>
    obtain ⟨key, hkey, h⟩ := bind_eq_ok.mp h
    cases h
    apply bind_eq_ok.mpr
    refine ⟨key, hkey, ?_⟩
    rw [selectPrincipal_eq, hshown]
    rfl
  | upsertPolicy p version =>
    obtain ⟨cols, hcols, h⟩ := bind_eq_ok.mp h
    cases h
    rw [Shows, lookupPolicy, livePolicy_eq, hshown]
    change (policyFromRow p.name cols).map some = _
    rw [policyFromRow_fields hcols]
    rfl
  | deletePolicy name version =>
    cases h
    rw [Shows, lookupPolicy, livePolicy_eq, hshown]
    rfl
  | upsertLockout l version =>
    obtain ⟨key, hkey, h⟩ := bind_eq_ok.mp h
    cases h
    apply bind_eq_ok.mpr
    refine ⟨key, hkey, ?_⟩
    rw [liveLockout_eq, hshown]
    rfl
  | deleteLockout realm name version =>
    obtain ⟨key, hkey, h⟩ := bind_eq_ok.mp h
    cases h
    apply bind_eq_ok.mpr
    refine ⟨key, hkey, ?_⟩
    rw [liveLockout_eq, hshown]
    rfl

/-! ## Convergence -/

def Storable (c : Change) : Prop := Named c ∧ ∃ w, rowOf c = .ok w

def Agreeing (cs : List Change) : Prop :=
  ∀ c ∈ cs, ∀ c' ∈ cs, ∀ w w', rowOf c = .ok w → rowOf c' = .ok w' → w.key = w'.key → w.version = w'.version →
    w.content = w'.content

/-- No change to the row of `c` is newer than `c`, but `c` is newer than the row. -/
def Decides (r : Replica) (cs : List Change) (c : Change) : Prop :=
  ∃ w, rowOf c = .ok w ∧ Newer (r.regs w.key) w.version ∧
    ∀ c' ∈ cs, ∀ w', rowOf c' = .ok w' → w'.key = w.key → w'.version ≤ w.version

theorem consistent_rowsOf (h : Agreeing cs) : Lww.Consistent (rowsOf cs) := by
  intro w hw w' hw' hkey hversion
  obtain ⟨c, hc, hcw⟩ := mem_rowsOf.mp hw
  obtain ⟨c', hc', hcw'⟩ := mem_rowsOf.mp hw'
  exact h c hc c' hc' w w' hcw hcw' hkey hversion

theorem shows_of_decides (hrun : s.regs = run r.regs (rowsOf cs)) (hagree : Agreeing cs) (hc : c ∈ cs)
    (hnamed : Named c) (h : r.Decides cs c) : s.Shows c := by
  obtain ⟨w, hw, hnew, hmax⟩ := h
  apply shows_of_shown hnamed hw
  have hkey : s.regs w.key = some (w.version, w.content) := by
    rw [hrun]
    apply Lww.run_eq_of_newest _ (consistent_rowsOf hagree) (mem_rowsOf.mpr ⟨c, hc, hw⟩) hnew
    intro w' hw' hkey
    obtain ⟨c', hc', hcw'⟩ := mem_rowsOf.mp hw'
    exact hmax c' hc' w' hcw' hkey
  rw [shown, hkey]
  rfl

theorem live_after_delete (hrun : s.regs = run r.regs (rowsOf cs)) (hagree : Agreeing cs) (hc : c ∈ cs)
    (hw : rowOf c = .ok w) (hdel : w.content = none) {t : ReplicationTs} {image : Image}
    (hlive : s.regs w.key = some (t, some image)) : w.version < t ∨ r.regs w.key = some (t, some image) := by
  have hmem := mem_rowsOf.mpr ⟨c, hc, hw⟩
  have hlatest := Lww.latest_run r.regs (rowsOf cs) w.key
  rw [← hrun, hlive] at hlatest
  generalize hx : some (t, some image) = x at hlatest
  cases hlatest with
  | kept => exact .inr rfl
  | won v hv hvkey _ hmax =>
    obtain ⟨rfl, hcontent⟩ := Prod.mk.inj (Option.some.inj hx)
    apply Or.inl
    apply lt_of_le_of_ne (hmax w hmem rfl)
    intro hversion
    have heq := consistent_rowsOf hagree w hmem v hv hvkey.symm hversion
    rw [hdel, ← hcontent] at heq
    cases heq

theorem changes_converge (r : Replica) (batches batches' : List (List Change))
    (hstorable : ∀ c ∈ batches.flatten, Storable c) (hagree : Agreeing batches.flatten)
    (hsame : ∀ c, c ∈ batches.flatten ↔ c ∈ batches'.flatten) :
    ∃ s s', r.applyBatches batches = .ok s ∧ r.applyBatches batches' = .ok s' ∧ SameView s s' ∧
      (∀ c ∈ batches.flatten, r.Decides batches.flatten c → s.Shows c) ∧
      (∀ p version, .upsertPrincipal p version ∈ batches.flatten →
        r.Decides batches.flatten (.upsertPrincipal p version) → OneLineEach p.allowedToDelegateTo →
        OneLineEach p.allowedToDelegateFrom →
        s.lookupStored p.realm p.name = .ok (some { p with keys := orderedKeys p.keys })) ∧
      (∀ k, (∀ c ∈ batches.flatten, ∀ w, rowOf c = .ok w → w.key = k → ¬ Newer (r.regs k) w.version) →
        s.regs k = r.regs k) ∧
      (∀ c ∈ batches.flatten, ∀ w, rowOf c = .ok w → w.content = none →
        ∀ t image, s.regs w.key = some (t, some image) → w.version < t ∨ r.regs w.key = some (t, some image)) := by
  obtain ⟨s, hs, hrun⟩ := applyBatches_run r fun c hc => (hstorable c hc).2
  obtain ⟨s', hs', hrun'⟩ := applyBatches_run r fun c hc => (hstorable c ((hsame c).mpr hc)).2
  have hshows : ∀ c ∈ batches.flatten, r.Decides batches.flatten c → s.Shows c := fun c hc hdecides =>
    shows_of_decides hrun hagree hc (hstorable c hc).1 hdecides
  refine ⟨s, s', hs, hs', ?_, hshows, ?_, ?_, ?_⟩
  · apply sameView_of_regs
    rw [hrun, hrun']
    apply Lww.run_congr _ _ (consistent_rowsOf hagree)
    intro w
    rw [mem_rowsOf, mem_rowsOf]
    simp only [hsame]
  · intro p version hc hdecides hto hfrom
    rw [← asRead_of_lines hto hfrom]
    exact hshows _ hc hdecides
  · intro k hk
    rw [hrun]
    apply Lww.run_eq_of_not_newer
    intro w hw hkey
    obtain ⟨c, hc, hcw⟩ := mem_rowsOf.mp hw
    exact hk c hc w hcw hkey
  · intro c hc w hw hdel t image hlive
    exact live_after_delete hrun hagree hc hw hdel hlive

end

section
attribute [local instance] Alphabet.ascii

def replicaSample (life : UInt64) : StoredPrincipal where
  name := ⟨1, [⟨[113], rfl⟩]⟩
  realm := ⟨[81], rfl⟩
  maxLife := some life
  securityEpoch := 1

def unstorable : Change := .upsertPrincipal (replicaSample 9223372036854775808) ⟨1, 0⟩

def storable : Change := .upsertPrincipal (replicaSample 5) ⟨2, 0⟩

theorem rowOf_unstorable : rowOf unstorable = .error (.conflict "value out of range") := by rfl

/-- The batch fails with the older change in front, and not when it comes last. -/
theorem unstorable_order : Agreeing [unstorable, storable] ∧
    (Replica.empty.commit [unstorable, storable]).lookupStored ⟨[81], rfl⟩ ⟨1, [⟨[113], rfl⟩]⟩ = .ok none ∧
    (Replica.empty.commit [storable, unstorable]).lookupStored ⟨[81], rfl⟩ ⟨1, [⟨[113], rfl⟩]⟩ =
      .ok (some (replicaSample 5)) := by
  refine ⟨?_, by rfl, by rfl⟩
  intro c hc c' hc' w w' hw hw' _ _
  simp only [List.mem_cons, List.not_mem_nil, or_false] at hc hc'
  rcases hc with rfl | rfl
  · rw [rowOf_unstorable] at hw
    cases hw
  rcases hc' with rfl | rfl
  · rw [rowOf_unstorable] at hw'
    cases hw'
  · rw [Except.ok.inj (hw.symm.trans hw')]

/-- A delete and an older upsert, in either order. -/
theorem deleted_in_any_order :
    ∃ s s', Replica.empty.applyBatches [[storable, .deletePrincipal ⟨[81], rfl⟩ ⟨1, [⟨[113], rfl⟩]⟩ ⟨3, 0⟩]] = .ok s ∧
      Replica.empty.applyBatches
        [[.deletePrincipal ⟨[81], rfl⟩ ⟨1, [⟨[113], rfl⟩]⟩ ⟨3, 0⟩], [storable, storable]] = .ok s' ∧
      SameView s s' := by
  obtain ⟨s, s', hs, hs', hview, -⟩ := changes_converge Replica.empty
    [[storable, .deletePrincipal ⟨[81], rfl⟩ ⟨1, [⟨[113], rfl⟩]⟩ ⟨3, 0⟩]]
    [[.deletePrincipal ⟨[81], rfl⟩ ⟨1, [⟨[113], rfl⟩]⟩ ⟨3, 0⟩], [storable, storable]] (by
      intro c hc
      simp only [List.flatten_cons, List.flatten_nil, List.append_nil, List.mem_cons, List.not_mem_nil, or_false] at hc
      rcases hc with rfl | rfl
      · exact ⟨List.cons_ne_nil _ _, _, rfl⟩
      · exact ⟨trivial, _, rfl⟩) (by
      intro c hc c' hc' w w' hw hw' _ hversion
      simp only [List.flatten_cons, List.flatten_nil, List.append_nil, List.mem_cons, List.not_mem_nil, or_false] at hc hc'
      rcases hc with rfl | rfl <;> rcases hc' with rfl | rfl
      · rw [Except.ok.inj (hw.symm.trans hw')]
      · cases hw
        cases hw'
        cases hversion
      · cases hw
        cases hw'
        cases hversion
      · rw [Except.ok.inj (hw.symm.trans hw')]) (by
      intro c
      simp [or_comm])
  exact ⟨s, s', hs, hs', hview⟩

/-- One delegation target with a line end comes back as two. -/
theorem split_at_line_end : (Replica.empty.commit
      [.upsertPrincipal { replicaSample 5 with allowedToDelegateTo := [⟨[97, 10, 98], rfl⟩] } ⟨2, 0⟩]).lookupStored
        ⟨[81], rfl⟩ ⟨1, [⟨[113], rfl⟩]⟩ =
    .ok (some { replicaSample 5 with allowedToDelegateTo := [⟨[97], rfl⟩, ⟨[98], rfl⟩] }) := by
  decide +kernel

end

end Replica

end Krb5Rs
