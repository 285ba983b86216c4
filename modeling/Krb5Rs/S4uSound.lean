import Krb5Rs.S4u
import Krb5Rs.MitNameSound
import Krb5Rs.ReplicationSound
import Krb5Rs.TlFields

/-!
# Delegation goes to the listed principals

A name is put on a list as a string, completed with the realm, and read from it
by splitting at the last `@` and at each `/`; `parse_principal` reads the same
string with quotes. The two agree on plain names, so a request passes just when
a list that is consulted has a string for the principal in question.
-/

namespace Krb5Rs

open Wire (Bytes)
open Utf8 (Str)

/-! ## Plain names -/

/-- A name without quotes, with one realm at most and no empty component. -/
structure PlainName (s : Bytes) : Prop where
  quote : 92 ∉ s
  zero : 0 ∉ s
  realms : s.count 64 ≤ 1
  components : [] ∉ (s.takeWhile (· ≠ 64)).splitOn 47
  realm : 47 ∉ s.dropWhile (· ≠ 64)

/-- What separates names in the columns and attributes that hold a list is not in this one. -/
structure Separable (s : Bytes) : Prop where
  comma : 44 ∉ s
  line : 10 ∉ s

theorem rsplitOnce_append {sep : UInt8} {after : Bytes} (h : sep ∉ after) (before : Bytes) :
    rsplitOnce sep (before ++ sep :: after) = some (before, after) := by
  have hnone : rsplitOnce sep after = none := by
    induction after with
    | nil => rfl
    | cons b after ih =>
      obtain ⟨hb, hafter⟩ := not_or.mp (List.mem_cons.not.mp h)
      simp [rsplitOnce, ih hafter, Ne.symm hb]
  induction before with
  | nil => simp [rsplitOnce, hnone]
  | cons b before ih => simp [rsplitOnce, ih]

def fullName (realm name : Str) : Str :=
  if 64 ∈ name.bytes then name else Utf8.lossyStr (name.bytes ++ 64 :: realm.bytes)

variable {realm e name : Str} {updates : List ListUpdate} {list : List Str} {n : Bytes}

theorem bytes_fullName (h : 64 ∉ name.bytes) : (fullName realm name).bytes = name.bytes ++ 64 :: realm.bytes := by
  have hvalid : Utf8.valid (name.bytes ++ 64 :: realm.bytes) = true := by
    rw [Utf8.valid_append _ _ name.valid]
    exact (Utf8.valid_append [64] _ rfl).trans realm.valid
  rw [fullName, if_neg h]
  exact Utf8.lossy_of_valid hvalid

theorem parseLoop_name (rest : Bytes) (hat : 64 ∉ n) (hquote : 92 ∉ n) (s : NameState) (hs : s.inRealm = false) :
    ∃ s', parseLoop s (n ++ rest) = parseLoop s' rest ∧
      s'.components = s.done ++ (n.splitOn 47).modifyHead (s.current ++ ·) ∧ s'.inRealm = false ∧ s'.realm = s.realm := by
  induction n generalizing s with
  | nil => exact ⟨s, rfl, by simp [NameState.components], hs, rfl⟩
  | cons b n ih =>
    simp only [List.mem_cons, not_or] at hat hquote
    by_cases hslash : b = 47
    · subst hslash
      obtain ⟨s', hloop, hcomp, hin, hrealm⟩ :=
        ih hat.2 hquote.2 { s with done := s.done ++ [s.current], current := [] } hs
      refine ⟨s', (parseLoop_slash (n ++ rest) hs).trans hloop, ?_, hin, hrealm⟩
      rw [hcomp, List.splitOn_cons_eq_if_modifyHead, if_pos (beq_self_eq_true _)]
      cases n.splitOn 47 <;> simp
    · obtain ⟨s', hloop, hcomp, hin, hrealm⟩ := ih hat.2 hquote.2 (s.push b) (by simp [NameState.push, hs])
      refine ⟨s', ?_, ?_, hin, by simpa [NameState.push, hs] using hrealm⟩
      · rw [← hloop]
        exact parseLoop_plain s (n ++ rest) ⟨hslash, Ne.symm hat.1, Ne.symm hquote.1⟩
      · rw [hcomp, List.splitOn_cons_eq_if_modifyHead, if_neg (by simpa using hslash), List.modifyHead_modifyHead]
        simp [NameState.push, hs, Function.comp_def]

theorem parseLoop_init (rest : Bytes) (hat : 64 ∉ n) (hquote : 92 ∉ n) :
    ∃ s', parseLoop .init (n ++ rest) = parseLoop s' rest ∧
      s'.components = n.splitOn 47 ∧ s'.inRealm = false ∧ s'.realm = [] := by
  obtain ⟨s', hloop, hcomp, hin, hrealm⟩ := parseLoop_name rest hat hquote .init rfl
  refine ⟨s', hloop, ?_, hin, hrealm⟩
  rw [hcomp]
  cases n.splitOn 47 <;> simp [NameState.init]

theorem parseLoop_realm {r : Bytes} (hslash : 47 ∉ r) (hat : 64 ∉ r) (hquote : 92 ∉ r) (s : NameState)
    (hs : s.inRealm = true) : parseLoop s r = .ok { s with realm := s.realm ++ r } := by
  induction r generalizing s with
  | nil => simp [parseLoop]
  | cons b r ih =>
    simp only [List.mem_cons, not_or] at hslash hat hquote
    rw [parseLoop_plain s r ⟨Ne.symm hslash.1, Ne.symm hat.1, Ne.symm hquote.1⟩,
      ih hslash.2 hat.2 hquote.2 _ (by simp [NameState.push, hs])]
    simp [NameState.push, hs]

section
variable [Alphabet]

def NamesPrincipal (s defaultRealm : Str) (principal : PrincipalName × Str) : Prop :=
  ∃ p, parsePrincipal s defaultRealm = .ok (p, principal.2) ∧ p.nameString = principal.1.nameString

variable {gs : List GeneralString} {s defaultRealm : Str} {bs : List Bytes} {st : NameState}

theorem generalStrings_iff : generalStrings bs = .ok gs ↔ gs.map (·.bytes) = bs := by
  refine ⟨components_of_generalStrings, ?_⟩
  rintro rfl
  exact generalStrings_map_bytes gs

theorem parsePrincipal_ok (hzero : 0 ∉ s.bytes)
    (hloop : parseLoop .init s.bytes = .ok st) (p : PrincipalName) (realm : Str) :
    parsePrincipal s defaultRealm = .ok (p, realm) ↔
      Str.ofUtf8 (if st.inRealm then st.realm else st.realm ++ defaultRealm.bytes) = some realm ∧
        ∃ ns, generalStrings st.components = .ok ns ∧ ⟨inferNameType st.components, ns⟩ = p := by
  unfold parsePrincipal parseNameInner
  rw [if_neg hzero, hloop]
  cases hin : st.inRealm
  all_goals
    simp only [bind, Except.bind, hin, Bool.false_eq_true, if_true, if_false]
    cases Str.ofUtf8 _ <;> cases generalStrings _ <;> simp [and_comm]

theorem namesPrincipal_iff (hzero : 0 ∉ s.bytes)
    (hloop : parseLoop .init s.bytes = .ok st) (principal : PrincipalName × Str) :
    NamesPrincipal s defaultRealm principal ↔
      principal.1.components = st.components ∧
        principal.2.bytes = if st.inRealm then st.realm else st.realm ++ defaultRealm.bytes := by
  unfold NamesPrincipal
  simp only [parsePrincipal_ok hzero hloop]
  constructor
  · rintro ⟨_, ⟨hrealm, ns, hns, rfl⟩, hname⟩
    refine ⟨?_, Utf8.bytes_of_ofUtf8 hrealm⟩
    rw [PrincipalName.components, ← hname]
    exact generalStrings_iff.mp hns
  · rintro ⟨hcomp, hrealm⟩
    rw [← hrealm, Utf8.ofUtf8_bytes]
    exact ⟨_, ⟨rfl, _, generalStrings_iff.mpr hcomp, rfl⟩, rfl⟩

/-! ## The reading of a list -/

theorem mapM_tryGeneralString : bs.mapM tryGeneralString = .ok gs ↔ gs.map (·.bytes) = bs := by
  induction bs generalizing gs with
  | nil =>
    rw [List.mapM_nil, List.map_eq_nil_iff]
    exact ⟨fun h => (Except.ok.inj h).symm, fun h => h ▸ rfl⟩
  | cons b bs ih =>
    rw [List.mapM_cons]
    constructor
    · intro h
      obtain ⟨g, hg, h⟩ := Wire.bind_eq_ok.mp h
      obtain ⟨rest, hrest, h⟩ := Wire.bind_eq_ok.mp h
      cases h
      unfold tryGeneralString at hg
      split at hg
      · rename_i g' hfrom
        cases hg
        rw [List.map_cons, bytes_of_fromBytes hfrom, ih.mp hrest]
      · cases hg
    · intro h
      cases gs with
      | nil => cases h
      | cons g gs =>
        obtain ⟨rfl, hgs⟩ := List.cons.inj h
        refine Wire.bind_eq_ok.mpr ⟨g, ?_, Wire.bind_eq_ok.mpr ⟨gs, ih.mpr hgs, rfl⟩⟩
        simp [tryGeneralString]

theorem fromStr_iff (hat : 64 ∉ n) (hcomp : [] ∉ n.splitOn 47) (name : PrincipalName) :
    isOkAnd (PrincipalName.fromStr n) (namesEqual · name) = true ↔ name.components = n.splitOn 47 := by
  have hne : n ≠ [] := by
    rintro rfl
    exact hcomp (by simp)
  have hread : PrincipalName.fromStr n = ((n.splitOn 47).mapM tryGeneralString >>= fun nameString =>
      .ok ⟨hostNameType (n.splitOn 47), nameString⟩) := by
    unfold PrincipalName.fromStr
    have hcount : ¬ 1 < n.count 64 := by simp [List.count_eq_zero.mpr hat]
    have hany : ¬ (n.splitOn 47).any List.isEmpty = true := by simpa using hcomp
    simp only [if_neg hne, if_neg hcount, List.splitOn_eq_singleton hat, List.headD_cons, if_neg hany]
  rw [hread]
  cases hm : (n.splitOn 47).mapM tryGeneralString with
  | error e =>
    simp only [isOkAnd, bind, Except.bind, Bool.false_eq_true, false_iff]
    intro h
    cases hm.symm.trans (mapM_tryGeneralString.mpr h)
  | ok gs =>
    simp only [isOkAnd, bind, Except.bind, namesEqual, decide_eq_true_eq]
    have hgs := mapM_tryGeneralString.mp hm
    constructor
    · rintro rfl
      exact hgs
    · intro h
      exact Except.ok.inj (hm.symm.trans (mapM_tryGeneralString.mpr h))

theorem listNames_iff {entry : Str} {r : Bytes} (hentry : entry.bytes = n ++ 64 :: r) (hn : 64 ∉ n) (hr : 64 ∉ r)
    (hcomp : [] ∉ n.splitOn 47) (defaultRealm : Str) (principal : PrincipalName × Str) :
    listNames entry defaultRealm principal.1 principal.2 = true ↔
      principal.1.components = n.splitOn 47 ∧ principal.2.bytes = r := by
  unfold listNames
  rw [hentry, rsplitOnce_append hr]
  simp only [Option.getD_some, Bool.and_eq_true, decide_eq_true_eq]
  rw [fromStr_iff hn hcomp]
  exact and_congr_right fun _ => eq_comm

theorem listNames_fullName (hs : PlainName s.bytes) (hrealm : 64 ∉ realm.bytes)
    (defaultRealm : Str) (principal : PrincipalName × Str) :
    listNames (fullName realm s) defaultRealm principal.1 principal.2 = true ↔ NamesPrincipal s realm principal := by
  have hat : 64 ∉ s.bytes.takeWhile (· ≠ 64) := fun h => by simpa using List.mem_takeWhile_imp h
  have hquote : 92 ∉ s.bytes.takeWhile (· ≠ 64) := fun h => hs.quote (List.takeWhile_subset _ h)
  have hsplit := List.takeWhile_append_dropWhile (p := (· ≠ 64)) (l := s.bytes)
  cases hd : s.bytes.dropWhile (· ≠ 64) with
  | nil =>
    -- the list has the realm that `parse_principal` takes by default
    rw [hd, List.append_nil] at hsplit
    rw [hsplit] at hat hquote
    have hcomp : [] ∉ s.bytes.splitOn 47 := by simpa only [hsplit] using hs.components
    obtain ⟨st, hloop, hst, hin, hrealm'⟩ := parseLoop_init [] hat hquote
    rw [List.append_nil] at hloop
    rw [listNames_iff (bytes_fullName hat) hat hrealm hcomp, namesPrincipal_iff hs.zero hloop, hst, hin, hrealm']
    simp
  | cons b r =>
    obtain rfl : b = 64 := by
      have := List.head_dropWhile_not (p := (· ≠ 64)) (l := s.bytes) (by rw [hd]; simp)
      simp only [hd, List.head_cons] at this
      simpa using this
    rw [hd] at hsplit
    have hmem : 64 ∈ s.bytes := by rw [← hsplit]; simp
    have hcount : 64 ∉ r := by
      have := hs.realms
      rw [← hsplit, List.count_append, List.count_cons_self] at this
      exact List.count_eq_zero.mp (by omega)
    have hslash := fun h => hs.realm (by rw [hd]; exact List.mem_cons_of_mem _ h)
    have hquoter : 92 ∉ r := fun h => hs.quote (by rw [← hsplit]; simp [h])
    obtain ⟨st, hloop, hst, hin, hrealm'⟩ := parseLoop_init (64 :: r) hat hquote
    rw [hsplit, parseLoop_at r hin, parseLoop_realm hslash hcount hquoter _ rfl] at hloop
    rw [listNames_iff (by rw [fullName, if_pos hmem, hsplit]) hat hcount hs.components, namesPrincipal_iff hs.zero hloop, ← hst]
    simp [NameState.components, hrealm']

end

/-! ## Lists as built and as kept -/

theorem mem_addName : e ∈ addName realm list name ↔ e ∈ list ∨ e = fullName realm name := by
  have hname : addName realm list name =
      if fullName realm name ∈ list then list else list ++ [fullName realm name] := rfl
  rw [hname]
  split
  · rename_i hmem
    exact ⟨.inl, fun h => h.elim id fun h => h ▸ hmem⟩
  · simp

theorem mem_foldl_addName {add : List Str} :
    e ∈ add.foldl (addName realm) list ↔ e ∈ list ∨ ∃ s ∈ add, e = fullName realm s := by
  induction add generalizing list with
  | nil => simp
  | cons name add ih => rw [List.foldl_cons, ih, mem_addName, List.exists_mem_cons_iff, or_assoc]

theorem mem_builtList : e ∈ builtList realm updates ↔ ∃ s ∈ addedNames updates, e = fullName realm s := by
  -- each update keeps the list and the names in step
  have hrun : ∀ (list names : List Str), (∀ e, e ∈ list ↔ ∃ s ∈ names, e = fullName realm s) →
      ∀ e, e ∈ updates.foldl (fun list update => updateList realm list update.clear update.add) list ↔
        ∃ s ∈ updates.foldl (fun names update => (if update.clear then [] else names) ++ update.add) names,
          e = fullName realm s := by
    induction updates with
    | nil => exact fun _ _ h => h
    | cons update updates ih =>
      intro list names h
      apply ih
      intro e
      show e ∈ update.add.foldl (addName realm) (if update.clear then [] else list) ↔ _
      rw [mem_foldl_addName]
      cases hclear : update.clear <;> simp [h, or_and_right, exists_or, hclear]
  exact hrun [] [] (by simp) e

theorem separable_builtList (hrealm : Separable realm.bytes) (hnames : ∀ s ∈ addedNames updates, Separable s.bytes) :
    ∀ e ∈ builtList realm updates, e.bytes ≠ [] ∧ Separable e.bytes := by
  intro e he
  obtain ⟨s, hs, rfl⟩ := mem_builtList.mp he
  have hsep := hnames s hs
  by_cases hat : 64 ∈ s.bytes
  · rw [fullName, if_pos hat]
    exact ⟨List.ne_nil_of_mem hat, hsep⟩
  rw [bytes_fullName hat]
  refine ⟨by simp, ?_, ?_⟩
  · simpa using ⟨hsep.comma, hrealm.comma⟩
  · simpa using ⟨hsep.line, hrealm.line⟩

section
variable [Alphabet]

inductive KeptAs (write : MitEntry → List Str → Except StoreError MitEntry)
    (read : MitEntry → Except StoreError (List Str)) (list : List Str) : List Str → Prop where
  | array : KeptAs write read list list
  | lines : KeptAs write read list (Sql.splitList (Sql.joinList list))
  | mit {e e' : MitEntry} {kept : List Str} :
    write e list = .ok e' → read e' = .ok kept → KeptAs write read list kept

theorem kept_builtList {write : MitEntry → List Str → Except StoreError MitEntry}
    {read : MitEntry → Except StoreError (List Str)} {kept : List Str}
    (hread : ∀ e e', Joinable list → write e list = .ok e' → read e' = .ok list)
    (hlist : ∀ e ∈ list, e.bytes ≠ [] ∧ Separable e.bytes) (h : KeptAs write read list kept) : kept = list := by
  have hempty : list ≠ [⟨[], rfl⟩] := by
    rintro rfl
    exact (hlist _ (List.mem_singleton_self _)).1 rfl
  cases h with
  | array => rfl
  | lines => exact Sql.splitList_joinList hempty fun e he => (hlist e he).2.line
  | mit hwrite hkept =>
    have hjoin : Joinable list := ⟨fun e he => (hlist e he).2.comma, hempty⟩
    exact Except.ok.inj (hkept.symm.trans (hread _ _ hjoin hwrite))

/-! ## The policy -/

theorem any_listNames (hrealm : 64 ∉ realm.bytes)
    (hnames : ∀ s ∈ addedNames updates, PlainName s.bytes) (principal : PrincipalName × Str) :
    ((builtList realm updates).any fun e => listNames e realm principal.1 principal.2) = true ↔
      ∃ s ∈ addedNames updates, NamesPrincipal s realm principal := by
  rw [List.any_eq_true]
  constructor
  · rintro ⟨e, he, hlist⟩
    obtain ⟨s, hs, rfl⟩ := mem_builtList.mp he
    exact ⟨s, hs, (listNames_fullName (hnames s hs) hrealm realm principal).mp hlist⟩
  · rintro ⟨s, hs, hnamed⟩
    exact ⟨fullName realm s, mem_builtList.mpr ⟨s, hs, rfl⟩,
      (listNames_fullName (hnames s hs) hrealm realm principal).mpr hnamed⟩

/-- The realm and the names added to a list of it are plain, and the database can keep the list. -/
structure PlainList (realm : Str) (updates : List ListUpdate) : Prop where
  at_sign : 64 ∉ realm.bytes
  realm : Separable realm.bytes
  names : ∀ s ∈ addedNames updates, PlainName s.bytes ∧ Separable s.bytes

theorem checkDelegationLists_ok {rbcd : Bool} {impersonatorName resourceName : PrincipalName × Str}
    {impersonator resource : PrincipalEntry} {isCrossrealm : Bool} :
    checkDelegationLists rbcd impersonatorName impersonator resourceName resource isCrossrealm = .ok () ↔
      rbcd = true ∧ (resource.allowedToDelegateFrom.any fun e =>
          listNames e resource.realm impersonatorName.1 impersonatorName.2) = true ∨
        isCrossrealm = false ∧ (impersonator.allowedToDelegateTo.any fun e =>
          listNames e impersonator.realm resourceName.1 resourceName.2) = true := by
  unfold checkDelegationLists
  split
  · simp_all
  · split
    · simp_all
    · simp_all

variable [PacOptions]

/-- A request that is no referral passes just when the resource's list names the impersonator, for a
client that asked for it, or the impersonator's list names the resource in its realm. -/
theorem delegation_to_listed {padata : Option (List PaData)} {rbcd : Bool} (hrbcd : supportsRbcd padata = .ok rbcd)
    (impersonatorName resourceName : PrincipalName × Str) {impersonator resource : PrincipalEntry}
    {toUpdates fromUpdates : List ListUpdate}
    (hto : KeptAs updateDelegation constrainedDelegationValues (builtList impersonator.realm toUpdates)
      impersonator.allowedToDelegateTo)
    (hfrom : KeptAs updateStringAttrs delegatedFrom (builtList resource.realm fromUpdates) resource.allowedToDelegateFrom)
    (hplainTo : PlainList impersonator.realm toUpdates) (hplainFrom : PlainList resource.realm fromUpdates)
    (isCrossrealm : Bool) :
    checkS4u2proxyPolicy padata impersonatorName impersonator resourceName resource isCrossrealm false = .ok () ↔
      rbcd = true ∧ (∃ s ∈ addedNames fromUpdates, NamesPrincipal s resource.realm impersonatorName) ∨
        isCrossrealm = false ∧ ∃ s ∈ addedNames toUpdates, NamesPrincipal s impersonator.realm resourceName := by
  have hkeptTo := kept_builtList (fun _ _ _ h => (updateDelegation_spec h).2)
      (separable_builtList hplainTo.realm fun s hs => (hplainTo.names s hs).2) hto
  have hkeptFrom := kept_builtList (fun _ _ hjoin h => (updateStringAttrs_spec h).2.2 hjoin)
      (separable_builtList hplainFrom.realm fun s hs => (hplainFrom.names s hs).2) hfrom
  have hpolicy : checkS4u2proxyPolicy padata impersonatorName impersonator resourceName resource isCrossrealm false =
      checkDelegationLists rbcd impersonatorName impersonator resourceName resource isCrossrealm := by
    unfold checkS4u2proxyPolicy
    rw [hrbcd]
    rfl
  rw [hpolicy, checkDelegationLists_ok, hkeptTo, hkeptFrom,
    any_listNames hplainFrom.at_sign fun s hs => (hplainFrom.names s hs).1,
    any_listNames hplainTo.at_sign fun s hs => (hplainTo.names s hs).1]

end

/-! ## Samples -/

section
attribute [local instance] Alphabet.ascii
local instance s4uOptions : PacOptions := ⟨fun b => some (b.map (· ≠ 0))⟩

def realmB : Str := ⟨[66], rfl⟩

def delegating (name : PrincipalName) (targets : List Str) : PrincipalEntry where
  name
  realm := realmB
  allowedToDelegateTo := targets
  securityEpoch := 1

def frontend : PrincipalName := ⟨1, [⟨[98], rfl⟩]⟩

def backend : PrincipalName := ⟨1, [⟨[99], rfl⟩]⟩

def slashed : PrincipalName := ⟨1, [⟨[99, 47, 98], rfl⟩]⟩

def rbcdRequest : Option (List PaData) := some [⟨167, [0, 0, 0, 1]⟩]

/-- `c\/b`, which `parse_principal` reads as the service of that one component. -/
def quotedName : Str := ⟨[99, 92, 47, 98], rfl⟩

def toBackend : List ListUpdate := [⟨false, [⟨[99], rfl⟩]⟩]

/-- The impersonator's own list serves an RBCD client too, and a quoted name on it serves nobody. -/
theorem lists_read_otherwise : supportsRbcd rbcdRequest = .ok true ∧
    checkS4u2proxyPolicy rbcdRequest (frontend, realmB) (delegating frontend (builtList realmB toBackend))
      (backend, realmB) (delegating backend []) false false = .ok () ∧
    ¬ (∃ s ∈ addedNames [], NamesPrincipal s realmB (frontend, realmB)) ∧
    NamesPrincipal quotedName realmB (slashed, realmB) ∧
    checkS4u2proxyPolicy none (frontend, realmB) (delegating frontend (builtList realmB [⟨false, [quotedName]⟩]))
      (slashed, realmB) (delegating slashed []) false false = .error ⟨13, "NOT_ALLOWED_TO_DELEGATE"⟩ := by
  refine ⟨by decide +kernel, by decide +kernel, ?_, ⟨_, rfl, rfl⟩, by decide +kernel⟩
  rintro ⟨s, hs, -⟩
  cases hs

/-- The service may act before the one on its list. -/
theorem backend_listed :
    checkS4u2proxyPolicy none (frontend, realmB) (delegating frontend (builtList realmB toBackend))
      (backend, realmB) (delegating backend []) false false = .ok () := by
  have hrealm : Separable realmB.bytes := ⟨by decide, by decide⟩
  have hto : PlainList realmB toBackend := by
    refine ⟨by decide, hrealm, ?_⟩
    intro s hs
    obtain rfl : s = ⟨[99], rfl⟩ := by simpa [toBackend, addedNames] using hs
    exact ⟨⟨by decide, by decide, by decide, by decide, by decide⟩, by decide, by decide⟩
  have hfrom : PlainList realmB [] := ⟨by decide, hrealm, by simp [addedNames]⟩
  have hrbcd : supportsRbcd none = .ok false := rfl
  exact (delegation_to_listed hrbcd (frontend, realmB) (backend, realmB) .array .array hto hfrom false).mpr
    (.inr ⟨rfl, ⟨[99], rfl⟩, by simp [toBackend, addedNames], _, rfl, rfl⟩)

end

end Krb5Rs
