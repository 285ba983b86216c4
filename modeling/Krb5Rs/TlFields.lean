import Mathlib.Data.List.TakeWhile
import Krb5Rs.Tl
import Krb5Rs.OsaXdrSound

/-!
# The TL data of a merged entry

Each step of a merge edits the TL data of one type and leaves the rest of the
entry alone, and what it writes is read back.
-/

namespace Krb5Rs

open Wire (Bytes Reads bind_eq_ok)
open Utf8 (Str)
open Tagged (valuesAt)

/-! ## Delegation names -/

variable {names : List Str} {pair : StringAttribute} {pairs : List StringAttribute} {osa : OsaPrincipalData}
  {joined key name : Bytes} {value : Option Bytes} {policy : Option Str}

theorem mapM_delegationData {items : List TlData} (h : names.mapM delegationData = .ok items) :
    items = names.map (fun name => ⟨constrainedDelegationAcl, name.bytes ++ [0]⟩) ∧
      ∀ name ∈ names, (0 : UInt8) ∉ name.bytes := by
  have hall := Wire.forall₂_of_mapM h
  clear h
  induction hall with
  | nil => simp
  | @cons name item names items hd _ ih =>
    unfold delegationData at hd
    split at hd
    · cases hd
    · rename_i hn
      cases hd
      exact ⟨by rw [ih.1]; rfl, List.forall_mem_cons.mpr ⟨hn, ih.2⟩⟩

theorem mapM_delegationName (h : ∀ name ∈ names, (0 : UInt8) ∉ name.bytes) :
    (names.map fun name => name.bytes ++ [0]).mapM delegationName = .ok names := by
  apply Wire.mapM_of_forall₂
  rw [List.forall₂_map_left_iff]
  apply List.forall₂_same.mpr
  intro name hname
  simp [delegationName, h name hname]

/-! ## String attributes -/

def PlainAttr (pair : StringAttribute) : Prop := (0 : UInt8) ∉ pair.1 ∧ (0 : UInt8) ∉ pair.2

theorem nulTerminated_append (err : StoreError) {b : Bytes} (h : (0 : UInt8) ∉ b) (rest : Bytes) :
    nulTerminated err (b ++ 0 :: rest) = .ok (b, rest) := by
  have hne : ∀ c ∈ b, decide (c ≠ (0 : UInt8)) = true := by
    intro c hc
    simpa using fun h0 : c = 0 => h (h0 ▸ hc)
  have htake : (b ++ 0 :: rest).takeWhile (fun c => decide (c ≠ (0 : UInt8))) = b := by
    rw [List.takeWhile_append_of_pos hne]
    simp
  have hdrop : (b ++ 0 :: rest).dropWhile (fun c => decide (c ≠ (0 : UInt8))) = 0 :: rest := by
    rw [List.dropWhile_append_of_pos hne]
    simp
  rw [nulTerminated, if_pos (by simp), htake, hdrop]
  rfl

theorem reads_attrPair (h : PlainAttr pair) : Reads attrPair (attrText pair) pair := by
  intro rest
  unfold attrPair attrText
  simp only [List.append_assoc, List.cons_append, List.nil_append]
  rw [Wire.bind_of_ok (nulTerminated_append _ h.1 _), Wire.bind_of_ok (nulTerminated_append _ h.2 _)]
  rfl

theorem untilEnd_attrText (h : ∀ pair ∈ pairs, PlainAttr pair) :
    Wire.untilEnd attrPair (pairs.flatMap attrText).length (pairs.flatMap attrText) = .ok pairs :=
  Wire.untilEnd_flatMap attrText pairs
    (fun pair hp => ⟨reads_attrPair (h pair hp), by simp [attrText]⟩) (Nat.le_refl _)

theorem nulTerminated_eq_ok {err : StoreError} {bs b rest : Bytes} (h : nulTerminated err bs = .ok (b, rest)) :
    (0 : UInt8) ∉ b := by
  unfold nulTerminated at h
  split at h
  · obtain ⟨rfl, -⟩ := Prod.mk.inj (Except.ok.inj h)
    intro hmem
    have := List.mem_takeWhile_imp hmem
    simp at this
  · cases h

theorem attrPair_eq_ok {bs rest : Bytes} (h : attrPair bs = .ok (pair, rest)) : PlainAttr pair := by
  obtain ⟨⟨key, rest₁⟩, hkey, h⟩ := bind_eq_ok.mp h
  obtain ⟨⟨value, rest₂⟩, hvalue, h⟩ := bind_eq_ok.mp h
  obtain ⟨rfl, -⟩ := Prod.mk.inj (Except.ok.inj h)
  exact ⟨nulTerminated_eq_ok hkey, nulTerminated_eq_ok hvalue⟩

theorem plainAttr_of_attrPairsIn {tlData : List TlData} (h : attrPairsIn tlData = .ok pairs) :
    ∀ pair ∈ pairs, PlainAttr pair := by
  unfold attrPairsIn at h
  split at h
  · cases h
    simp
  · exact Wire.untilEnd_forall (fun _ _ _ => attrPair_eq_ok) h

theorem plainAttr_editAttrs (h : ∀ pair ∈ pairs, PlainAttr pair)
    (hkey : (0 : UInt8) ∉ key) (hvalue : ∀ v ∈ value, (0 : UInt8) ∉ v) :
    ∀ pair ∈ editAttrs pairs key value, PlainAttr pair := by
  cases value with
  | none => exact fun pair hp => h pair (List.mem_of_mem_filter hp)
  | some value =>
    have hnew : PlainAttr (key, value) := ⟨hkey, hvalue value rfl⟩
    have hmap : ∀ pair ∈ pairs.map (fun pair => if pair.1 = key then (key, value) else pair), PlainAttr pair := by
      intro pair hp
      obtain ⟨old, hold, rfl⟩ := List.mem_map.mp hp
      split
      · exact hnew
      · exact h old hold
    simp only [editAttrs]
    split
    · exact hmap
    intro pair hp
    rcases List.mem_append.mp hp with hp | hp
    · exact hmap pair hp
    · obtain rfl := List.mem_singleton.mp hp
      exact hnew

theorem attrValue_editAttrs_self (pairs : List StringAttribute) (key : Bytes) (value : Option Bytes) :
    attrValue (editAttrs pairs key value) key = value := by
  cases value with
  | none =>
    have : (editAttrs pairs key none).find? (fun pair => pair.1 = key) = none := by
      simp [editAttrs]
    rw [attrValue, this]
    rfl
  | some value =>
    simp only [editAttrs]
    induction pairs with
    | nil => simp [attrValue]
    | cons pair pairs ih =>
      by_cases hp : pair.1 = key
      · simp [attrValue, hp]
      have hp' : ¬ key = pair.1 := fun h => hp h.symm
      simp only [List.map_cons, List.mem_cons, hp, hp', false_or, if_false] at ih ⊢
      split
      · rename_i hmem
        rw [if_pos hmem] at ih
        simpa [attrValue, hp] using ih
      · rename_i hmem
        rw [if_neg hmem] at ih
        simpa [attrValue, hp] using ih

theorem attrValue_editAttrs_ne {key' : Bytes} (hne : key' ≠ key) (value : Option Bytes) :
    attrValue (editAttrs pairs key value) key' = attrValue pairs key' := by
  have hne' : ¬ key = key' := fun h => hne h.symm
  cases value with
  | none =>
    unfold editAttrs attrValue
    induction pairs with
    | nil => rfl
    | cons pair pairs ih =>
      by_cases hp : pair.1 = key
      · have hp' := fun h => hne' (hp.symm.trans h)
        simpa [hp, hp', hne'] using ih
      · by_cases hk : pair.1 = key'
        · simp [hk, hne]
        · simpa [hp, hk] using ih
  | some value =>
    have hmap : attrValue (pairs.map fun pair => if pair.1 = key then (key, value) else pair) key' =
        attrValue pairs key' := by
      unfold attrValue
      induction pairs with
      | nil => rfl
      | cons pair pairs ih =>
        by_cases hp : pair.1 = key
        · have hp' := fun h => hne' (hp.symm.trans h)
          simpa [hp, hp', hne'] using ih
        · by_cases hk : pair.1 = key'
          · simp [hk, hne]
          · simpa [hp, hk] using ih
    simp only [editAttrs]
    split
    · exact hmap
    · rw [← hmap]
      simp [attrValue, List.find?_append, hne']

/-! ## Names joined by commas -/

theorem splitComma_append (h : (44 : UInt8) ∉ name) (rest : Bytes) :
    splitComma (name ++ 44 :: rest) = name :: splitComma rest := by
  induction name with
  | nil => rw [List.nil_append, splitComma, if_pos rfl]
  | cons b name ih =>
    have hb : ¬ b = 44 := fun hb => h (hb ▸ List.mem_cons_self ..)
    rw [List.cons_append, splitComma, if_neg hb, ih (fun hm => h (List.mem_cons_of_mem _ hm))]

theorem splitComma_plain (h : (44 : UInt8) ∉ name) : splitComma name = [name] := by
  induction name with
  | nil => rfl
  | cons b name ih =>
    have hb : ¬ b = 44 := fun hb => h (hb ▸ List.mem_cons_self ..)
    rw [splitComma, if_neg hb, ih (fun hm => h (List.mem_cons_of_mem _ hm))]

theorem joinNames_cons {name next : Str} (h : joinNames (name :: next :: names) = .ok joined) :
    (0 : UInt8) ∉ name.bytes ∧ ∃ rest, joinNames (next :: names) = .ok rest ∧ joined = name.bytes ++ 44 :: rest := by
  rw [joinNames] at h
  · split at h
    · cases h
    · rename_i hzero
      obtain ⟨rest, hrest, h⟩ := bind_eq_ok.mp h
      exact ⟨hzero, rest, hrest, (Except.ok.inj h).symm⟩
  · simp

theorem joinNames_singleton {name : Str} (h : joinNames [name] = .ok joined) :
    (0 : UInt8) ∉ name.bytes ∧ joined = name.bytes := by
  rw [joinNames] at h
  split at h
  · cases h
  · rename_i hzero
    exact ⟨hzero, (Except.ok.inj h).symm⟩

theorem zero_notMem_joinNames (h : joinNames names = .ok joined) : (0 : UInt8) ∉ joined := by
  induction names generalizing joined with
  | nil =>
    cases h
    simp
  | cons name names ih =>
    cases names with
    | nil =>
      obtain ⟨hzero, rfl⟩ := joinNames_singleton h
      exact hzero
    | cons next names =>
      obtain ⟨hzero, rest, hrest, rfl⟩ := joinNames_cons h
      simp [hzero, ih hrest]

theorem valid_joinNames (h : joinNames names = .ok joined) : Utf8.valid joined = true := by
  induction names generalizing joined with
  | nil =>
    cases h
    rfl
  | cons name names ih =>
    cases names with
    | nil =>
      obtain ⟨-, rfl⟩ := joinNames_singleton h
      exact name.valid
    | cons next names =>
      obtain ⟨-, rest, hrest, rfl⟩ := joinNames_cons h
      rw [Utf8.valid_append _ _ name.valid, show 44 :: rest = [44] ++ rest from rfl, Utf8.valid_append _ _ (by decide)]
      exact ih hrest

theorem splitComma_joinNames (hne : names ≠ []) (h : ∀ name ∈ names, (44 : UInt8) ∉ name.bytes)
    (hj : joinNames names = .ok joined) : splitComma joined = names.map (·.bytes) := by
  induction names generalizing joined with
  | nil => exact absurd rfl hne
  | cons name names ih =>
    have hname := h name (List.mem_cons_self ..)
    cases names with
    | nil =>
      obtain ⟨-, rfl⟩ := joinNames_singleton hj
      exact splitComma_plain hname
    | cons next names =>
      obtain ⟨-, rest, hrest, rfl⟩ := joinNames_cons hj
      rw [splitComma_append hname, ih (by simp) (fun n hn => h n (List.mem_cons_of_mem _ hn)) hrest]
      rfl

structure Joinable (names : List Str) : Prop where
  comma : ∀ name ∈ names, (44 : UInt8) ∉ name.bytes
  empty : names ≠ [⟨[], rfl⟩]

theorem joinNames_ne_nil (hne : names ≠ []) (h : Joinable names)
    (hj : joinNames names = .ok joined) : joined ≠ [] := by
  match names with
  | [] => exact absurd rfl hne
  | [name] =>
    obtain ⟨-, rfl⟩ := joinNames_singleton hj
    exact fun hnil => h.empty (by rw [List.singleton_inj]; exact Utf8.Str.ext hnil)
  | name :: next :: names =>
    obtain ⟨-, rest, -, rfl⟩ := joinNames_cons hj
    simp

theorem namesFromAttr_joinNames (hne : names ≠ []) (h : Joinable names)
    (hj : joinNames names = .ok joined) : namesFromAttr (some joined) = .ok names := by
  have hstr : Str.ofUtf8 joined = some ⟨joined, valid_joinNames hj⟩ := by
    simp [Str.ofUtf8, valid_joinNames hj]
  simp only [namesFromAttr, hstr, if_neg (joinNames_ne_nil hne h hj), splitComma_joinNames hne h.comma hj,
    List.filterMap_map, Function.comp_def, Utf8.ofUtf8_bytes, List.filterMap_some]

theorem zero_notMem_allowedToDelegateFromAttr : (0 : UInt8) ∉ allowedToDelegateFromAttr := by decide

/-! ## Policy and history -/

theorem policyBit_set (aux : Int32) : (aux ||| kadm5Policy) &&& kadm5Policy = kadm5Policy := by
  apply Int32.toBitVec_inj.mp
  ext i hi
  rw [Int32.toBitVec_and, Int32.toBitVec_or, BitVec.getElem_and, BitVec.getElem_or]
  cases kadm5Policy.toBitVec[i] <;> simp

theorem policyBit_cleared (aux : Int32) : (aux &&& ~~~kadm5Policy) &&& kadm5Policy = 0 := by
  apply Int32.toBitVec_inj.mp
  ext i hi
  cases kadm5Policy.toBitVec[i] <;> simp

theorem withPolicy_spec {osa' : OsaPrincipalData} (h : withPolicy osa policy = .ok osa') :
    osa'.policy = policy.map (·.bytes) ∧ osa'.oldKeys = osa.oldKeys ∧
      (osa'.auxAttributes &&& kadm5Policy = 0 ↔ policy = none) := by
  cases policy with
  | none =>
    cases h
    exact ⟨rfl, rfl, by simp [policyBit_cleared]⟩
  | some name =>
    rw [withPolicy] at h
    split at h
    · cases h
    · cases h
      refine ⟨rfl, rfl, ?_⟩
      simp only [policyBit_set, reduceCtorEq, iff_false]
      decide

/-- The password history to write, within the limits of its reader. -/
def HistoryWithinLimits (history : Option PasswordHistory) : Prop :=
  ∀ h ∈ history, Osa.WithinLimits h.oldKeys

theorem withinLimits_oldKadmData {old : Option Bytes} (h : oldKadmData old = .ok osa) :
    Osa.WithinLimits osa.oldKeys := by
  cases old with
  | none =>
    cases h
    exact ⟨by simp, by simp⟩
  | some bytes => exact Osa.withinLimits_of_decode h

theorem policyFromOsa_spec (hp : osa.policy = policy.map (·.bytes))
    (hbit : osa.auxAttributes &&& kadm5Policy = 0 ↔ policy = none) : policyFromOsa osa = .ok policy := by
  unfold policyFromOsa
  cases policy with
  | none => rw [if_pos (hbit.mpr rfl)]
  | some name =>
    rw [if_neg (fun h => nomatch hbit.mp h), hp]
    simp

/-! ## Edits of an entry -/

section
variable [Alphabet]

theorem tl_eq_head? (e : MitEntry) (kind : UInt16) : e.tl kind = (valuesAt kind e.tlData).head? :=
  Tagged.find_eq_head? ..

/-- `e'` is `e` with other TL data at `kind`. -/
structure TlEdit (kind : UInt16) (e e' : MitEntry) : Prop where
  same : { e' with tlData := e.tlData } = e
  frame : ∀ k ≠ kind, valuesAt k e'.tlData = valuesAt k e.tlData

theorem TlEdit.refl (kind : UInt16) (e : MitEntry) : TlEdit kind e e := ⟨rfl, fun _ _ => rfl⟩

variable {kind k : UInt16} {e e' : MitEntry} {creator : Option Bytes} {record : PrincipalRecord}
  {history : Option PasswordHistory} {clock : Clock} {policy : Option Str}

theorem TlEdit.tl (h : TlEdit kind e e') (hk : k ≠ kind) : e'.tl k = e.tl k := by
  rw [tl_eq_head?, h.frame k hk, tl_eq_head?]

theorem TlEdit.attributes (h : TlEdit kind e e') : e'.attributes = e.attributes := by
  rw [← h.same]

theorem TlEdit.keyData (h : TlEdit kind e e') : e'.keyData = e.keyData := by
  rw [← h.same]

theorem setTl_edit (e : MitEntry) (kind : UInt16) (data : Option Bytes) : TlEdit kind e (setTl e kind data) :=
  ⟨rfl, fun k hk => by rw [setTl, MitEntry.putTl, Tagged.valuesAt_put, if_neg hk]⟩

theorem tl_setTl (e : MitEntry) (kind : UInt16) (data : Option Bytes) : (setTl e kind data).tl kind = data :=
  Tagged.find_put_self ..

theorem entryMkvno_setTl (e : MitEntry) (v : UInt16) : entryMkvno (setTl e mkvno (some (Codec.u16 v))) = .ok v := by
  rw [entryMkvno, tl_setTl]
  simp

theorem updateModPrincipal_spec {now : Int} {stamp : Option KerberosTime} {modBy : Option Bytes}
    (h : updateModPrincipal now e stamp modBy creator = .ok e') :
    TlEdit modPrinc e e' ∧ (stampOf now stamp creator = none → e' = e) ∧
      ∀ t, stampOf now stamp creator = some t → ∃ bytes,
        modPrincData (e.tl modPrinc) (UInt32.ofInt t.seconds) modBy creator = .ok bytes ∧
          e'.tl modPrinc = some bytes := by
  unfold updateModPrincipal at h
  cases hs : stampOf now stamp creator with
  | none =>
    simp only [hs] at h
    cases h
    exact ⟨TlEdit.refl _ _, fun _ => rfl, fun _ ht => nomatch ht⟩
  | some t =>
    simp only [hs] at h
    split at h
    · cases h
    obtain ⟨bytes, hbytes, h⟩ := bind_eq_ok.mp h
    cases h
    refine ⟨setTl_edit .., by simp, ?_⟩
    intro t' ht
    cases ht
    exact ⟨bytes, hbytes, tl_setTl ..⟩

theorem setModPrinc_edit {seconds : UInt32} {modBy : Bytes} (h : setModPrinc e seconds modBy = .ok e') :
    TlEdit modPrinc e e' := (updateModPrincipal_spec h).1

theorem updateDelegation_spec (h : updateDelegation e names = .ok e') :
    TlEdit constrainedDelegationAcl e e' ∧ constrainedDelegationValues e' = .ok names := by
  obtain ⟨items, hitems, h⟩ := bind_eq_ok.mp h
  cases h
  obtain ⟨rfl, hnul⟩ := mapM_delegationData hitems
  have hitems : ∀ k, valuesAt k (names.map fun name => (⟨constrainedDelegationAcl, name.bytes ++ [0]⟩ : TlData)) =
      if k = constrainedDelegationAcl then names.map (fun name => name.bytes ++ [0]) else [] := by
    intro k
    by_cases hk : k = constrainedDelegationAcl
    · simp [valuesAt, hk, List.filter_map, Function.comp_def]
    · have hk' : ¬ constrainedDelegationAcl = k := fun h => hk h.symm
      simp [valuesAt, hk, hk']
  have hold := fun k =>
    Tagged.valuesAt_filter_kind (fun kind => decide (kind ≠ constrainedDelegationAcl)) k e.tlData
  refine ⟨⟨rfl, ?_⟩, ?_⟩
  · intro k hk
    rw [Tagged.valuesAt_append, hold, hitems, if_neg hk, List.append_nil]
    simp [hk]
  · rw [constrainedDelegationValues, Tagged.valuesAt_append, hold, hitems, if_pos rfl]
    simpa using mapM_delegationName hnul

theorem setStringAttr_edit (h : setStringAttr e key value = .ok e') : TlEdit stringAttrs e e' := by
  obtain ⟨pairs, -, h⟩ := bind_eq_ok.mp h
  cases h
  unfold putAttrPairs
  split
  · exact setTl_edit ..
  · exact TlEdit.refl _ _

theorem attrPairs_putAttrPairs (e : MitEntry) (h : ∀ pair ∈ pairs, PlainAttr pair) :
    attrPairs (putAttrPairs e pairs) = .ok pairs := by
  unfold putAttrPairs
  split
  case isTrue =>
    have htl : Tagged.find stringAttrs (setTl e stringAttrs (some (pairs.flatMap attrText))).tlData =
        some (pairs.flatMap attrText) := tl_setTl ..
    rw [attrPairs, attrPairsIn, htl]
    exact untilEnd_attrText h
  case isFalse hempty =>
    simp only [ne_eq, not_or, Decidable.not_not, Bool.not_eq_true, Option.isSome_eq_false_iff,
      Option.isNone_iff_eq_none] at hempty
    have htl : Tagged.find stringAttrs e.tlData = none := hempty.2
    rw [hempty.1, attrPairs, attrPairsIn, htl]

theorem setStringAttr_spec {key : Bytes} {value : Option Bytes} (hkey : (0 : UInt8) ∉ key)
    (hvalue : ∀ v ∈ value, (0 : UInt8) ∉ v) (h : setStringAttr e key value = .ok e') :
    TlEdit stringAttrs e e' ∧ ∃ pairs, attrPairs e = .ok pairs ∧
      attrPairs e' = .ok (editAttrs pairs key value) := by
  refine ⟨setStringAttr_edit h, ?_⟩
  obtain ⟨pairs, hpairs, h⟩ := bind_eq_ok.mp h
  cases h
  have hplain := plainAttr_editAttrs (plainAttr_of_attrPairsIn hpairs) hkey hvalue
  exact ⟨pairs, hpairs, attrPairs_putAttrPairs e hplain⟩

/-- Both branches set the attribute, to a value without NUL. -/
theorem updateStringAttrs_eq_set (h : updateStringAttrs e names = .ok e') :
    ∃ value, setStringAttr e allowedToDelegateFromAttr value = .ok e' ∧ (∀ v ∈ value, (0 : UInt8) ∉ v) ∧
      (Joinable names → namesFromAttr value = .ok names) := by
  unfold updateStringAttrs at h
  split at h
  case isTrue hnil => exact ⟨none, h, by simp, fun _ => by rw [hnil, namesFromAttr]⟩
  case isFalse hne =>
    obtain ⟨joined, hj, h⟩ := bind_eq_ok.mp h
    refine ⟨some joined, h, ?_, fun hjoin => namesFromAttr_joinNames hne hjoin hj⟩
    intro v hv
    cases hv
    exact zero_notMem_joinNames hj

theorem updateStringAttrs_spec (h : updateStringAttrs e names = .ok e') :
    TlEdit stringAttrs e e' ∧ requireAuthAttr e'.tlData = requireAuthAttr e.tlData ∧
      (Joinable names → delegatedFrom e' = .ok names) := by
  obtain ⟨value, hset, hnul, hread⟩ := updateStringAttrs_eq_set h
  obtain ⟨hedit, pairs, hpairs, hpairs'⟩ := setStringAttr_spec zero_notMem_allowedToDelegateFromAttr hnul hset
  have hold : attrPairsIn e.tlData = .ok pairs := hpairs
  have hnew : attrPairsIn e'.tlData = .ok (editAttrs pairs allowedToDelegateFromAttr value) := hpairs'
  refine ⟨hedit, ?_, ?_⟩
  · have hkey : requireAuthKey ≠ allowedToDelegateFromAttr := by decide
    rw [requireAuthAttr, requireAuthAttr, hold, hnew]
    show authFromAttr _ = authFromAttr _
    rw [attrValue_editAttrs_ne hkey]
  · intro hjoin
    rw [delegatedFrom, hpairs']
    show namesFromAttr _ = _
    rw [attrValue_editAttrs_self, hread hjoin]

theorem updateKadmData_eq_ok (h : updateKadmData e policy history = .ok e') :
    e' = e ∧ e.tl kadmData = none ∧ policy = none ∨ ∃ osa osa' data, oldKadmData (e.tl kadmData) = .ok osa ∧
      withPolicy osa policy = .ok osa' ∧ Osa.encode (withHistory osa' history) = .ok data ∧
      e' = setTl e kadmData (some data) ∧ (HistoryWithinLimits history → Osa.decode data =
        .ok { withHistory osa' history with oldKeys := (withHistory osa' history).oldKeys.map (·.map Osa.readBack) }) := by
  unfold updateKadmData at h
  dsimp only at h
  split at h
  case isTrue hnone =>
    cases h
    exact .inl ⟨rfl, hnone.1, hnone.2.1⟩
  case isFalse =>
    obtain ⟨osa, hosa, h⟩ := bind_eq_ok.mp h
    obtain ⟨osa', hpolicy, h⟩ := bind_eq_ok.mp h
    obtain ⟨data, hdata, h⟩ := bind_eq_ok.mp h
    cases h
    refine .inr ⟨osa, osa', data, hosa, hpolicy, hdata, rfl, fun hlim => Osa.decode_encode ?_ hdata⟩
    cases history with
    | none => exact (withPolicy_spec hpolicy).2.1 ▸ withinLimits_oldKadmData hosa
    | some history => exact hlim history rfl

theorem updateKadmData_spec (h : updateKadmData e policy history = .ok e') : TlEdit kadmData e e' ∧
      (HistoryWithinLimits history → ∃ hist, policyAndHistoryFromTl e' = .ok (policy, hist)) := by
  rcases updateKadmData_eq_ok h with ⟨rfl, hnone, rfl⟩ | ⟨osa, osa', data, -, hpolicy, -, rfl, hdec⟩
  · refine ⟨TlEdit.refl _ _, fun _ => ⟨{}, ?_⟩⟩
    rw [policyAndHistoryFromTl, hnone]
  · obtain ⟨hname, -, hbit⟩ := withPolicy_spec hpolicy
    refine ⟨setTl_edit .., fun hlim => ?_⟩
    rw [policyAndHistoryFromTl, tl_setTl]
    simp only [hdec hlim]
    have hread : policyFromOsa { withHistory osa' history with
        oldKeys := (withHistory osa' history).oldKeys.map (·.map Osa.readBack) } = .ok policy := by
      cases history <;> exact policyFromOsa_spec hname hbit
    simp only [bind, Except.bind, hread]
    exact ⟨_, rfl⟩

/-! ## All fields -/

theorem same_trans {e₁ e₂ e₃ : MitEntry} (h₁ : { e₂ with tlData := e₁.tlData } = e₁)
    (h₂ : { e₃ with tlData := e₂.tlData } = e₂) : { e₃ with tlData := e₁.tlData } = e₁ := by
  rw [← h₂] at h₁
  exact h₁

theorem TlEdit.attrPairs (h : TlEdit kind e e') (hk : stringAttrs ≠ kind) :
    attrPairsIn e'.tlData = attrPairsIn e.tlData := by
  have htl : Tagged.find stringAttrs e'.tlData = Tagged.find stringAttrs e.tlData := h.tl hk
  rw [attrPairsIn, attrPairsIn, htl]

structure FieldsMerged (clock : Clock) (e : MitEntry) (record : PrincipalRecord) (creator : Option Bytes)
    (e' : MitEntry) : Prop where
  name : e'.principal = record.entry.name
  realm : e'.realm = record.entry.realm
  attributes : e'.attributes = record.entry.attributes
  maxLife : duration record.entry.maxLife = .ok e'.maxLife
  maxRenewableLife : duration record.entry.maxRenewableLife = .ok e'.maxRenewableLife
  expiration : timestamp record.entry.expiration = .ok e'.expiration
  pwExpiration : timestamp record.entry.pwExpiration = .ok e'.pwExpiration
  changed : stampData record.lastPwdChange = .ok (e'.tl lastPwdChange)
  unlocked : stampData record.entry.lastAdminUnlock = .ok (e'.tl lastAdminUnlock)
  unstamped : stampOf clock.modified record.modTime creator = none → e'.tl modPrinc = e.tl modPrinc
  stamped : ∀ t, stampOf clock.modified record.modTime creator = some t → ∃ bytes,
    modPrincData (e.tl modPrinc) (UInt32.ofInt t.seconds) record.modBy creator = .ok bytes ∧
      e'.tl modPrinc = some bytes
  delegatedTo : constrainedDelegationValues e' = .ok record.entry.allowedToDelegateTo
  requireAuth : requireAuthAttr e'.tlData = requireAuthAttr e.tlData
  delegatedFrom : Joinable record.entry.allowedToDelegateFrom →
    delegatedFrom e' = .ok record.entry.allowedToDelegateFrom
  policy : HistoryWithinLimits record.passwordHistory →
    ∃ history, policyAndHistoryFromTl e' = .ok (record.entry.policy, history)

def mergedKinds : List UInt16 :=
  [lastPwdChange, modPrinc, lastAdminUnlock, constrainedDelegationAcl, stringAttrs, kadmData]

structure MergeFrame (e e' : MitEntry) : Prop where
  keyData : e'.keyData = e.keyData
  values : ∀ k ∉ mergedKinds, valuesAt k e'.tlData = valuesAt k e.tlData

theorem MergeFrame.tl (h : MergeFrame e e') (hk : k ∉ mergedKinds) : e'.tl k = e.tl k := by
  rw [tl_eq_head?, h.values k hk, tl_eq_head?]

theorem mergeFields_spec (h : mergeFields clock e record creator = .ok e') :
    FieldsMerged clock e record creator e' ∧ MergeFrame e e' := by
  obtain ⟨maxLife, hlife, h⟩ := bind_eq_ok.mp h
  obtain ⟨maxRenewableLife, hrenew, h⟩ := bind_eq_ok.mp h
  obtain ⟨expiration, hexp, h⟩ := bind_eq_ok.mp h
  obtain ⟨pwExpiration, hpw, h⟩ := bind_eq_ok.mp h
  obtain ⟨changed, hchanged, h⟩ := bind_eq_ok.mp h
  generalize hstart : ({ e with
    principal := record.entry.name, realm := record.entry.realm, attributes := record.entry.attributes
    maxLife, maxRenewableLife, expiration, pwExpiration } : MitEntry) = start at h
  obtain ⟨stamped, hstamped, h⟩ := bind_eq_ok.mp h
  obtain ⟨unlocked, hunlocked, h⟩ := bind_eq_ok.mp h
  obtain ⟨delegated, hdelegated, h⟩ := bind_eq_ok.mp h
  obtain ⟨attrs, hattrs, h⟩ := bind_eq_ok.mp h
  have edit₁ := setTl_edit start lastPwdChange changed
  obtain ⟨edit₂, hnone, hsome⟩ := updateModPrincipal_spec hstamped
  have edit₃ := setTl_edit stamped lastAdminUnlock unlocked
  obtain ⟨edit₄, hto⟩ := updateDelegation_spec hdelegated
  obtain ⟨edit₅, hauth, hfrom⟩ := updateStringAttrs_spec hattrs
  obtain ⟨edit₆, hpolicy⟩ := updateKadmData_spec h
  have same := same_trans edit₁.same (same_trans edit₂.same (same_trans edit₃.same
    (same_trans edit₄.same (same_trans edit₅.same edit₆.same))))
  have htl : ∀ k, start.tl k = e.tl k := fun k => by rw [← hstart]; rfl
  have hpairs : attrPairsIn delegated.tlData = attrPairsIn e.tlData := by
    rw [edit₄.attrPairs (by decide), edit₃.attrPairs (by decide), edit₂.attrPairs (by decide),
      edit₁.attrPairs (by decide), ← hstart]
  have hattr := edit₆.attrPairs (by decide)
  have hmod : e'.tl modPrinc = stamped.tl modPrinc := by
    rw [edit₆.tl (by decide), edit₅.tl (by decide), edit₄.tl (by decide), edit₃.tl (by decide)]
  have hold : (setTl start lastPwdChange changed).tl modPrinc = e.tl modPrinc := by
    rw [edit₁.tl (by decide), htl]
  have hkeys : e'.keyData = start.keyData := by rw [← same]
  have hframe : ∀ k ∉ mergedKinds, valuesAt k e'.tlData = valuesAt k e.tlData := by
    intro k hk
    simp only [mergedKinds, List.mem_cons, List.not_mem_nil, or_false, not_or] at hk
    obtain ⟨h₁, h₂, h₃, h₄, h₅, h₆⟩ := hk
    rw [edit₆.frame k h₆, edit₅.frame k h₅, edit₄.frame k h₄, edit₃.frame k h₃, edit₂.frame k h₂, edit₁.frame k h₁,
      ← hstart]
  subst hstart
  exact ⟨
    { name := congrArg MitEntry.principal same
      realm := congrArg MitEntry.realm same
      attributes := congrArg MitEntry.attributes same
      maxLife := congrArg MitEntry.maxLife same ▸ hlife
      maxRenewableLife := congrArg MitEntry.maxRenewableLife same ▸ hrenew
      expiration := congrArg MitEntry.expiration same ▸ hexp
      pwExpiration := congrArg MitEntry.pwExpiration same ▸ hpw
      changed := by
        rw [edit₆.tl (by decide), edit₅.tl (by decide), edit₄.tl (by decide), edit₃.tl (by decide),
          edit₂.tl (by decide), tl_setTl, hchanged]
      unlocked := by
        rw [edit₆.tl (by decide), edit₅.tl (by decide), edit₄.tl (by decide), tl_setTl, hunlocked]
      unstamped := fun hs => by rw [hmod, hnone hs, hold]
      stamped := by
        intro t ht
        obtain ⟨bytes, hbytes, hread⟩ := hsome t ht
        exact ⟨bytes, hold ▸ hbytes, hmod.trans hread⟩
      delegatedTo := by
        rw [constrainedDelegationValues, edit₆.frame _ (by decide), edit₅.frame _ (by decide)]
        exact hto
      requireAuth := by
        rw [requireAuthAttr, hattr]
        exact hauth.trans (by rw [requireAuthAttr, hpairs, requireAuthAttr])
      delegatedFrom := by
        intro hj
        rw [delegatedFrom, attrPairs, hattr]
        exact hfrom hj
      policy := hpolicy }, ⟨hkeys, hframe⟩⟩

/-- The entries between the steps of a merge of the fields. -/
theorem mergeFields_steps (h : mergeFields clock e record creator = .ok e') :
    ∃ start changed stamped unlocked delegated attrs,
      updateModPrincipal clock.modified (setTl start lastPwdChange changed) record.modTime record.modBy creator =
        .ok stamped ∧
      updateDelegation (setTl stamped lastAdminUnlock unlocked) record.entry.allowedToDelegateTo = .ok delegated ∧
      updateStringAttrs delegated record.entry.allowedToDelegateFrom = .ok attrs ∧
      updateKadmData attrs record.entry.policy record.passwordHistory = .ok e' ∧ start.tlData = e.tlData := by
  obtain ⟨maxLife, -, h⟩ := bind_eq_ok.mp h
  obtain ⟨maxRenewableLife, -, h⟩ := bind_eq_ok.mp h
  obtain ⟨expiration, -, h⟩ := bind_eq_ok.mp h
  obtain ⟨pwExpiration, -, h⟩ := bind_eq_ok.mp h
  obtain ⟨changed, -, h⟩ := bind_eq_ok.mp h
  obtain ⟨stamped, hstamped, h⟩ := bind_eq_ok.mp h
  obtain ⟨unlocked, -, h⟩ := bind_eq_ok.mp h
  obtain ⟨delegated, hdelegated, h⟩ := bind_eq_ok.mp h
  obtain ⟨attrs, hattrs, h⟩ := bind_eq_ok.mp h
  exact ⟨_, changed, stamped, unlocked, delegated, attrs, hstamped, hdelegated, hattrs, h, rfl⟩

theorem FieldsMerged.of_edit {e₁ e₂ e₃ : MitEntry}
    (hm : FieldsMerged clock e record creator e₁) (hkeys : { e₂ with keyData := e₁.keyData } = e₁)
    (hedit : TlEdit mkvno e₂ e₃) : FieldsMerged clock e record creator e₃ := by
  obtain ⟨keyData, rfl⟩ : ∃ keyData, e₂ = { e₁ with keyData } := ⟨e₂.keyData, by rw [← hkeys]⟩
  have same := hedit.same
  have hattr := hedit.attrPairs (by decide)
  have htl : ∀ k ≠ mkvno, e₃.tl k = e₁.tl k := fun k hk => hedit.tl hk
  exact
    { name := (congrArg MitEntry.principal same).trans hm.name
      realm := (congrArg MitEntry.realm same).trans hm.realm
      attributes := (congrArg MitEntry.attributes same).trans hm.attributes
      maxLife := congrArg MitEntry.maxLife same ▸ hm.maxLife
      maxRenewableLife := congrArg MitEntry.maxRenewableLife same ▸ hm.maxRenewableLife
      expiration := congrArg MitEntry.expiration same ▸ hm.expiration
      pwExpiration := congrArg MitEntry.pwExpiration same ▸ hm.pwExpiration
      changed := by rw [htl _ (by decide), hm.changed]
      unlocked := by rw [htl _ (by decide), hm.unlocked]
      unstamped := fun hs => by rw [htl _ (by decide), hm.unstamped hs]
      stamped := by
        intro t ht
        rw [htl _ (by decide)]
        exact hm.stamped t ht
      delegatedTo := by
        rw [constrainedDelegationValues, hedit.frame _ (by decide)]
        exact hm.delegatedTo
      requireAuth := by
        rw [requireAuthAttr, hattr]
        exact hm.requireAuth
      delegatedFrom := by
        intro hj
        rw [Krb5Rs.delegatedFrom, attrPairs, hattr]
        exact hm.delegatedFrom hj
      policy := by
        intro hh
        rw [policyAndHistoryFromTl, htl _ (by decide)]
        exact hm.policy hh }

end

end Krb5Rs
