import Krb5Rs.TlFields

/-!
# What a merge leaves alone

A merge rewrites the TL data of the kinds it owns, one string attribute, and the
policy and history of the kadm5 data. Everything else stays, in its order.
-/

namespace Krb5Rs

open Wire (Bytes bind_eq_ok)
open Utf8 (Str)

/-! ## String attributes -/

theorem filter_editAttrs (pairs : List StringAttribute) (key : Bytes) (value : Option Bytes) :
    (editAttrs pairs key value).filter (fun pair => pair.1 ≠ key) = pairs.filter fun pair => pair.1 ≠ key := by
  cases value with
  | none => simp [editAttrs, List.filter_filter]
  | some value =>
    have hmap : (pairs.map fun pair => if pair.1 = key then (key, value) else pair).filter (fun pair => pair.1 ≠ key) =
        pairs.filter fun pair => pair.1 ≠ key := by
      induction pairs with
      | nil => rfl
      | cons pair pairs ih =>
        by_cases hp : pair.1 = key
        · simpa [hp] using ih
        · simpa [hp] using ih
    simp only [editAttrs]
    split
    · exact hmap
    · rw [List.filter_append, hmap]
      simp

/-- The value to store ends where the reader ends it. -/
def PlainEdit (key : Bytes) (value : Option Bytes) : Prop :=
  ∀ v ∈ value, (0 : UInt8) ∉ key ∧ (0 : UInt8) ∉ v

variable {value : Option Bytes} {pairs : List StringAttribute} {key : Bytes} {policy : Option Str}

theorem PlainEdit.plainAttr (h : PlainEdit key value) (hpairs : ∀ pair ∈ pairs, PlainAttr pair) :
    ∀ pair ∈ editAttrs pairs key value, PlainAttr pair := by
  cases value with
  | none => exact fun pair hp => hpairs pair (List.mem_of_mem_filter hp)
  | some v =>
    obtain ⟨hkey, hv⟩ := h v rfl
    exact plainAttr_editAttrs hpairs hkey fun w hw => Option.some.inj hw ▸ hv

/-! ## The kadm5 data -/

theorem policyBit_elsewhere (aux : Int32) : (aux ||| kadm5Policy) &&& ~~~kadm5Policy = aux &&& ~~~kadm5Policy ∧
      (aux &&& ~~~kadm5Policy) &&& ~~~kadm5Policy = aux &&& ~~~kadm5Policy := by
  constructor
  · apply Int32.toBitVec_inj.mp
    ext i hi
    simp only [Int32.toBitVec_and, Int32.toBitVec_or, Int32.toBitVec_not, BitVec.getElem_and, BitVec.getElem_or,
      BitVec.getElem_not]
    cases kadm5Policy.toBitVec[i] <;> simp
  · apply Int32.toBitVec_inj.mp
    ext i hi
    cases kadm5Policy.toBitVec[i] <;> simp

/-- Apart from the policy, and from the history if there is one to write, `osa'` is `osa`. -/
structure KadmKept (history : Option PasswordHistory) (osa osa' : OsaPrincipalData) : Prop where
  attributes : osa'.auxAttributes &&& ~~~kadm5Policy = osa.auxAttributes &&& ~~~kadm5Policy
  history : history = none →
    osa'.oldKeyNext = osa.oldKeyNext ∧ osa'.adminHistoryKvno = osa.adminHistoryKvno ∧ osa'.oldKeys = osa.oldKeys

theorem kadmKept_of_withPolicy {osa osa' : OsaPrincipalData}
    (h : withPolicy osa policy = .ok osa') (history : Option PasswordHistory) :
    KadmKept history osa (withHistory osa' history) := by
  have hkept : KadmKept none osa osa' := by
    cases policy with
    | none =>
      cases h
      exact ⟨(policyBit_elsewhere _).2, fun _ => ⟨rfl, rfl, rfl⟩⟩
    | some name =>
      rw [withPolicy] at h
      split at h
      case isTrue => cases h
      case isFalse =>
        cases h
        exact ⟨(policyBit_elsewhere _).1, fun _ => ⟨rfl, rfl, rfl⟩⟩
  cases history with
  | none => exact hkept
  | some history => exact ⟨hkept.attributes, fun hnone => absurd hnone (Option.some_ne_none history)⟩

/-! ## String attributes of an entry -/

section
variable [Alphabet] {e e' : MitEntry} {creator : Option Bytes}

theorem setStringAttr_attrs (hstore : PlainEdit key value) (h : setStringAttr e key value = .ok e') :
    ∃ pairs pairs', attrPairs e = .ok pairs ∧ attrPairs e' = .ok pairs' ∧ attrValue pairs' key = value ∧
      pairs'.filter (fun pair => pair.1 ≠ key) = pairs.filter fun pair => pair.1 ≠ key := by
  obtain ⟨pairs, hpairs, h⟩ := bind_eq_ok.mp h
  cases h
  exact ⟨pairs, _, hpairs, attrPairs_putAttrPairs e (hstore.plainAttr (plainAttr_of_attrPairsIn hpairs)),
    attrValue_editAttrs_self .., filter_editAttrs ..⟩

/-! ## TL data of other kinds -/

/-- The TL data of the kinds in `keep` is the same, in the same order. -/
def Spares (keep : UInt16 → Bool) (e e' : MitEntry) : Prop :=
  e'.tlData.filter (fun t => keep t.kind) = e.tlData.filter fun t => keep t.kind

theorem Spares.trans {keep : UInt16 → Bool} {e₁ e₂ e₃ : MitEntry} (h₁ : Spares keep e₁ e₂)
    (h₂ : Spares keep e₂ e₃) : Spares keep e₁ e₃ := Eq.trans h₂ h₁

variable {keep : UInt16 → Bool} {keys : MasterKeys} {reencrypted : Bool} {names : List Str} {clock : Clock}
  {now : UInt32}

theorem setTl_spares {kind : UInt16} (hk : keep kind = false) (e : MitEntry) (data : Option Bytes) :
    Spares keep e (setTl e kind data) := Tagged.filter_put keep hk data e.tlData

theorem updateModPrincipal_spares (hk : keep modPrinc = false) {now : Int} {stamp : Option KerberosTime}
    {modBy : Option Bytes} (h : updateModPrincipal now e stamp modBy creator = .ok e') : Spares keep e e' := by
  unfold updateModPrincipal at h
  split at h
  case h_1 =>
    cases h
    rfl
  case h_2 =>
    split at h
    case isTrue => cases h
    case isFalse =>
      obtain ⟨bytes, -, h⟩ := bind_eq_ok.mp h
      cases h
      exact setTl_spares hk e _

theorem updateDelegation_spares (hk : keep constrainedDelegationAcl = false)
    (h : updateDelegation e names = .ok e') : Spares keep e e' := by
  obtain ⟨items, hitems, h⟩ := bind_eq_ok.mp h
  cases h
  obtain ⟨rfl, -⟩ := mapM_delegationData hitems
  have hnew : (names.map fun name => (⟨constrainedDelegationAcl, name.bytes ++ [0]⟩ : TlData)).filter
      (fun t => keep t.kind) = [] := by
    simp [List.filter_eq_nil_iff, hk]
  have hold : (e.tlData.filter fun t => t.kind ≠ constrainedDelegationAcl).filter (fun t => keep t.kind) =
      e.tlData.filter fun t => keep t.kind := by
    rw [List.filter_filter]
    refine List.filter_congr fun t _ => ?_
    by_cases ht : t.kind = constrainedDelegationAcl
    · simp [ht, hk]
    · simp [ht]
  show (e.tlData.filter _ ++ _).filter _ = _
  rw [List.filter_append, hnew, List.append_nil, hold]

theorem setStringAttr_spares (hk : keep stringAttrs = false)
    (h : setStringAttr e key value = .ok e') : Spares keep e e' := by
  obtain ⟨pairs, -, h⟩ := bind_eq_ok.mp h
  cases h
  unfold putAttrPairs
  split
  · exact setTl_spares hk e _
  · rfl

/-! ## The kadm5 data of an entry -/

/-- The kadm5 data of the entry, as written and, within the reader's limits, as read again. -/
def KadmMerged (history : Option PasswordHistory) (e e' : MitEntry) : Prop :=
  e'.tl kadmData = none ∧ e.tl kadmData = none ∨
    ∃ osa osa' data, oldKadmData (e.tl kadmData) = .ok osa ∧ KadmKept history osa osa' ∧
      Osa.encode osa' = .ok data ∧ e'.tl kadmData = some data ∧
      (HistoryWithinLimits history →
        Osa.decode data = .ok { osa' with oldKeys := osa'.oldKeys.map (·.map Osa.readBack) })

theorem updateKadmData_merged (hk : keep kadmData = false)
    {history : Option PasswordHistory} (h : updateKadmData e policy history = .ok e') :
    Spares keep e e' ∧ KadmMerged history e e' := by
  rcases updateKadmData_eq_ok h with ⟨rfl, hnone, -⟩ | ⟨osa, osa', data, hosa, hpolicy, hdata, rfl, hdec⟩
  · exact ⟨rfl, .inl ⟨hnone, hnone⟩⟩
  · exact ⟨setTl_spares hk e _, .inr ⟨osa, _, data, hosa, kadmKept_of_withPolicy hpolicy history, hdata, tl_setTl ..,
      hdec⟩⟩

/-! ## A whole merge -/

def ownedKinds : List UInt16 :=
  [lastPwdChange, modPrinc, lastAdminUnlock, constrainedDelegationAcl, stringAttrs, kadmData, mkvno]

def spared (kind : UInt16) : Bool := !ownedKinds.contains kind

structure RestKept (record : PrincipalRecord) (e e' : MitEntry) : Prop where
  tlData : Spares spared e e'
  attrs : ∃ pairs pairs', attrPairs e = .ok pairs ∧ attrPairs e' = .ok pairs' ∧
    pairs'.filter (fun pair => pair.1 ≠ allowedToDelegateFromAttr) =
      pairs.filter fun pair => pair.1 ≠ allowedToDelegateFromAttr
  kadm : KadmMerged record.passwordHistory e e'

theorem attrPairs_congr (h : e'.tl stringAttrs = e.tl stringAttrs) : attrPairs e' = attrPairs e := by
  have htl : Tagged.find stringAttrs e'.tlData = Tagged.find stringAttrs e.tlData := h
  rw [attrPairs, attrPairs, attrPairsIn, attrPairsIn, htl]

theorem mergeFields_kept {record : PrincipalRecord}
    (h : mergeFields clock e record creator = .ok e') : RestKept record e e' := by
  obtain ⟨start, changed, stamped, unlocked, delegated, attrs, hstamped, hdelegated, hattrs, h, hstart⟩ :=
    mergeFields_steps h
  obtain ⟨value, hset, hnul, -⟩ := updateStringAttrs_eq_set hattrs
  have hstore : PlainEdit allowedToDelegateFromAttr value :=
    fun v hv => ⟨zero_notMem_allowedToDelegateFromAttr, hnul v hv⟩
  have edit₁ := setTl_edit start lastPwdChange changed
  have edit₂ := (updateModPrincipal_spec hstamped).1
  have edit₃ := setTl_edit stamped lastAdminUnlock unlocked
  have edit₄ := (updateDelegation_spec hdelegated).1
  have edit₅ := setStringAttr_edit hset
  have edit₆ := (updateKadmData_spec h).1
  obtain ⟨hspares, hkadm⟩ : Spares spared attrs e' ∧ KadmMerged record.passwordHistory attrs e' :=
    updateKadmData_merged (by decide) h
  have hbefore : ∀ kind, kind ∉ [lastPwdChange, modPrinc, lastAdminUnlock, constrainedDelegationAcl] →
      delegated.tl kind = e.tl kind := by
    intro kind hkind
    simp only [List.mem_cons, List.not_mem_nil, or_false, not_or] at hkind
    obtain ⟨h₁, h₂, h₃, h₄⟩ := hkind
    rw [edit₄.tl h₄, edit₃.tl h₃, edit₂.tl h₂, edit₁.tl h₁, MitEntry.tl, hstart]
    rfl
  refine ⟨?_, ?_, ?_⟩
  · have hfirst : Spares spared e start := by rw [Spares, hstart]
    exact hfirst.trans ((setTl_spares (by decide) start changed).trans
      ((updateModPrincipal_spares (by decide) hstamped).trans ((setTl_spares (by decide) stamped unlocked).trans
      ((updateDelegation_spares (by decide) hdelegated).trans
      ((setStringAttr_spares (by decide) hset).trans hspares)))))
  · obtain ⟨pairs, pairs', hold, hnew, -, hkept⟩ := setStringAttr_attrs hstore hset
    refine ⟨pairs, pairs', ?_, ?_, hkept⟩
    · rw [← hold, attrPairs_congr (hbefore stringAttrs (by decide))]
    · rw [← hnew, attrPairs_congr (edit₆.tl (by decide))]
  · have hsame : attrs.tl kadmData = e.tl kadmData := by
      rw [edit₅.tl (by decide), hbefore kadmData (by decide)]
    unfold KadmMerged at hkadm ⊢
    rwa [hsame] at hkadm

theorem recordMkvno_tlData (h : recordMkvno now e keys reencrypted = .ok e') :
    TlEdit mkvno e e' ∧ (keep mkvno = false → Spares keep e e') := by
  cases reencrypted with
  | true =>
    obtain ⟨active, -, h⟩ := bind_eq_ok.mp h
    cases h
    exact ⟨setTl_edit .., fun hk => setTl_spares hk e _⟩
  | false =>
    obtain ⟨v, -, h⟩ := bind_eq_ok.mp h
    cases h
    exact ⟨TlEdit.refl _ _, fun _ => rfl⟩

section
variable [Crypto] {record : PrincipalRecord} {draw : Nat → Bytes}

theorem updateKeys_tlData (h : updateKeys now draw e record keys = .ok (e', reencrypted)) : e'.tlData = e.tlData := by
  obtain ⟨active, -, h⟩ := bind_eq_ok.mp h
  obtain ⟨oldMkvno, -, h⟩ := bind_eq_ok.mp h
  obtain ⟨updated, -, h⟩ := bind_eq_ok.mp h
  obtain ⟨keyData, -, h⟩ := bind_eq_ok.mp h
  obtain ⟨rfl, -⟩ := Prod.mk.inj (Except.ok.inj h)
  rfl

theorem mergeRecord_kept (h : mergeRecord clock draw e record keys creator = .ok e') : RestKept record e e' := by
  obtain ⟨e₁, hfields, h⟩ := bind_eq_ok.mp h
  obtain ⟨⟨e₂, reencrypted⟩, hkeys, h⟩ := bind_eq_ok.mp h
  obtain ⟨hspares, ⟨pairs, pairs', hold, hnew, hkept⟩, hkadm⟩ := mergeFields_kept hfields
  have htl := updateKeys_tlData hkeys
  obtain ⟨hedit, hspares'⟩ : TlEdit mkvno e₂ e' ∧ (spared mkvno = false → Spares spared e₂ e') :=
    recordMkvno_tlData h
  have hfind : ∀ kind, kind ≠ mkvno → e'.tl kind = e₁.tl kind := by
    intro kind hkind
    rw [hedit.tl hkind, MitEntry.tl, htl]
    rfl
  refine ⟨?_, ⟨pairs, pairs', hold, ?_, hkept⟩, ?_⟩
  · have hmid : Spares spared e₁ e₂ := by
      rw [Spares, htl]
    exact hspares.trans (hmid.trans (hspares' (by decide)))
  · rw [← hnew, attrPairs_congr (hfind stringAttrs (by decide))]
  · unfold KadmMerged at hkadm ⊢
    rwa [hfind kadmData (by decide)]

/-- A merge keeps what it does not own, and setting a string attribute changes that attribute only. -/
theorem merge_spares_rest :
    (∀ (clock : Clock) (draw : Nat → Bytes) (e e' : MitEntry) (record : PrincipalRecord) (keys : MasterKeys)
        (creator : Option Bytes), mergeRecord clock draw e record keys creator = .ok e' → RestKept record e e') ∧
      ∀ (e e' : MitEntry) (key : Bytes) (value : Option Bytes), PlainEdit key value →
        setStringAttr e key value = .ok e' →
        (∃ pairs pairs', attrPairs e = .ok pairs ∧ attrPairs e' = .ok pairs' ∧ attrValue pairs' key = value ∧
          pairs'.filter (fun pair => pair.1 ≠ key) = pairs.filter fun pair => pair.1 ≠ key) ∧
        Spares (fun kind => kind ≠ stringAttrs) e e' ∧ { e' with tlData := e.tlData } = e := by
  refine ⟨fun _ _ _ _ _ _ _ => mergeRecord_kept, fun e e' key value hstore h => ?_⟩
  exact ⟨setStringAttr_attrs hstore h, setStringAttr_spares (by simp) h, (setStringAttr_edit h).same⟩

end

end

section
attribute [local instance] Alphabet.ascii Crypto.toy

def attributedEntry : MitEntry where
  principal := ⟨1, [⟨[67, 76], rfl⟩]⟩
  realm := ⟨[76, 67], rfl⟩
  tlData := [⟨mkvno, [1, 0]⟩, ⟨777, [5]⟩, ⟨stringAttrs, [97, 0, 98, 0, 99, 0, 0]⟩, ⟨778, []⟩]

def policyRecord : PrincipalRecord where
  entry :=
    { name := ⟨1, [⟨[67, 76], rfl⟩]⟩
      realm := ⟨[76, 67], rfl⟩
      attributes := 128
      policy := some ⟨[67, 76, 76], rfl⟩ }

def oneVersion : MasterKeys := ⟨[(1, ⟨18, [1]⟩)], [⟨1, 0⟩]⟩

/-- A policy comes with its bit in the kadm5 attributes, and a value with a NUL leaves attributes
that cannot be read. -/
theorem policy_bit_written :
    (∃ e' osa', mergeRecord ⟨0, 0, 0⟩ (fun _ => []) attributedEntry policyRecord oneVersion none = .ok e' ∧
      oldKadmData (attributedEntry.tl kadmData) = .ok {} ∧ oldKadmData (e'.tl kadmData) = .ok osa' ∧
      osa'.auxAttributes ≠ 0) ∧
    ∃ e', setStringAttr attributedEntry [97] (some [0]) = .ok e' ∧ ∀ pairs, attrPairs e' ≠ .ok pairs := by
  constructor
  · obtain ⟨e', hmerge⟩ := Wire.exists_of_isOk
      (x := mergeRecord ⟨0, 0, 0⟩ (fun _ => []) attributedEntry policyRecord oneVersion none) (by decide +kernel)
    have hread : (mergeRecord ⟨0, 0, 0⟩ (fun _ => []) attributedEntry policyRecord oneVersion none >>=
        fun e' => oldKadmData (e'.tl kadmData)) =
        .ok { policy := some [67, 76, 76], auxAttributes := kadm5Policy } := by decide +kernel
    rw [hmerge] at hread
    exact ⟨e', _, hmerge, rfl, hread, by decide⟩
  · obtain ⟨e', hset⟩ := Wire.exists_of_isOk (x := setStringAttr attributedEntry [97] (some [0])) (by decide +kernel)
    have hread : (setStringAttr attributedEntry [97] (some [0]) >>= attrPairs) =
        .error (.corrupt "unterminated value in MIT STRING_ATTRS") := by decide +kernel
    rw [hset] at hread
    refine ⟨e', hset, fun pairs hpairs => ?_⟩
    cases hpairs.symm.trans hread

theorem merge_spares_rest_policy :
    ∃ e', mergeRecord ⟨0, 0, 0⟩ (fun _ => []) attributedEntry policyRecord oneVersion none = .ok e' ∧
      RestKept policyRecord attributedEntry e' := by
  obtain ⟨e', hmerge⟩ := Wire.exists_of_isOk
    (x := mergeRecord ⟨0, 0, 0⟩ (fun _ => []) attributedEntry policyRecord oneVersion none) (by decide +kernel)
  exact ⟨e', hmerge, merge_spares_rest.1 _ _ _ _ _ _ _ hmerge⟩

end

end Krb5Rs
