import Krb5Rs.CcMarshalSound
import Krb5Rs.MitNameSound
import Krb5Rs.Trace

/-!
# A FILE cache as a list of credentials

The file of a cache is its header, the default principal and the credentials one
behind the other, those that were removed among them. `Cache` is what a cache is
for: a list of credentials and a map from principals and keys to data.
-/

namespace Krb5Rs

open Wire (Bytes)
open Utf8 (Str)
open Stateful (after attempt bind_of_ok bind_of_error lift_of_ok lift_of_error)

namespace Ccache

open FileCcache (configRequest writeHeader)

/-! ## The header -/

def heldOffset (version : UInt8) (timeOffset : Option (UInt32 × UInt32)) : Option (UInt32 × UInt32) :=
  if version = 4 then timeOffset else none

theorem headerFields_offset (secs usecs : UInt32) :
    headerFields 12 (Wire.be 2 1 ++ Wire.be 2 8 ++ Wire.be 4 secs.toNat ++ Wire.be 4 usecs.toNat) none =
      .ok (some (secs, usecs)) := by
  have hnum (v : UInt32) (k : Nat) (hk : 4 ≤ k) : UInt32.ofNat (Wire.ofBe ((Wire.be 4 v.toNat).take k)) = v := by
    rw [List.take_of_length_le (by simpa using hk), Wire.ofBe_be 4 _ v.toNat_lt, UInt32.ofNat_toNat]
  have htag : Wire.be 2 1 = [0, 1] := by decide
  have hlen : Wire.be 2 8 = [0, 8] := by decide
  have hflen : Wire.ofBe [0, 8] = 8 := by decide
  have hone : Wire.ofBe [0, 1] = 1 := by decide
  rw [htag, hlen]
  simp [headerFields, hflen, hone, hnum, List.take_append, List.drop_append]

theorem parseHeader_fields {n : Nat} {fields : Bytes} (hn : n = 0 ∨ 4 ≤ n) (hlt : n < 2 ^ 16)
    (hlen : fields.length = n) (rest : Bytes) : parseHeader ([5, 4] ++ Wire.be 2 n ++ fields ++ rest) =
      (headerFields n fields none).map fun offset => ⟨4, 4 + n, offset⟩ := by
  have hdata : ([5, 4] ++ Wire.be 2 n ++ fields ++ rest).length = 4 + n + rest.length := by
    simp only [List.length_append, Wire.be_length, hlen, List.length_cons, List.length_nil]
  have hdrop : ([5, 4] ++ Wire.be 2 n ++ fields ++ rest).drop 4 = fields ++ rest := by
    rw [List.append_assoc, List.drop_append_of_le_length (by simp), List.drop_of_length_le (by simp), List.nil_append]
  have hcount : Wire.ofBe ((([5, 4] ++ Wire.be 2 n ++ fields ++ rest).drop 2).take 2) = n := by
    have htake : (([5, 4] ++ Wire.be 2 n ++ fields ++ rest).drop 2).take 2 = Wire.be 2 n := by
      exact List.take_left' (Wire.be_length 2 n)
    rw [htake, Wire.ofBe_be 2 n hlt]
  have htake : (fields ++ rest).take n = fields := List.take_left' hlen
  have hhead : ([5, 4] ++ Wire.be 2 n ++ fields ++ rest).head? = some 5 := rfl
  have hversion : (([5, 4] ++ Wire.be 2 n ++ fields ++ rest).drop 1).headD 0 = 4 := rfl
  unfold parseHeader
  rw [hdata, hhead, hversion, hcount, hdrop]
  dsimp only
  rw [htake]
  rw [if_neg (by omega), if_neg (by simp), if_neg (by decide), if_neg (by decide), if_neg (by omega),
    if_neg (by omega), if_neg (by omega)]

variable {version : UInt8}

theorem parseHeader_headerBytes (hv : 1 ≤ version ∧ version ≤ 4)
    (timeOffset : Option (UInt32 × UInt32)) (rest : Bytes) : parseHeader (headerBytes version timeOffset ++ rest) =
      .ok ⟨version, (headerBytes version timeOffset).length, heldOffset version timeOffset⟩ := by
  by_cases h4 : version = 4
  · subst h4
    cases timeOffset with
    | none => exact parseHeader_fields (.inl rfl) (by decide) List.length_nil rest
    | some offset =>
      have h := parseHeader_fields (n := 12) (.inr (by decide)) (by decide)
        (show (Wire.be 2 1 ++ Wire.be 2 8 ++ Wire.be 4 offset.1.toNat ++ Wire.be 4 offset.2.toNat).length = 12 by simp)
        rest
      rw [headerFields_offset] at h
      simpa [headerBytes, heldOffset, Except.map] using h
  · simp [parseHeader, headerBytes, heldOffset, h4, hv]

/-! ## Layout -/

theorem splice_eq (a b c d : Bytes) :
    (a ++ (b ++ c)).take a.length ++ d ++ (a ++ (b ++ c)).drop (a.length + b.length) = a ++ (d ++ c) := by
  rw [List.take_left, ← List.append_assoc, ← List.length_append, List.drop_left, List.append_assoc]

section
variable [Alphabet]

def front (x : FileCcache) (client : PrincipalName) (realm : Str) : Bytes :=
  headerBytes x.version x.timeOffset ++ marshalPrinc x.version client realm

structure Holds (x : FileCcache) (client : PrincipalName) (realm : Str) (slots : List CcCredential) : Prop where
  version : 1 ≤ x.version ∧ x.version ≤ 4
  name : NameFits client realm
  file : x.file = some (front x client realm ++ slots.flatMap (marshalCred x.version))
  fits : ∀ c ∈ slots, Fits x.version c

def live (slots : List CcCredential) : List CcCredential := slots.filter fun c => !c.isRemoved

def placed (version : UInt8) : Nat → List CcCredential → List Record
  | _, [] => []
  | pos, c :: cs => ⟨pos, (marshalCred version c).length, c⟩ ::
      placed version (pos + (marshalCred version c).length) cs

theorem placed_append (version : UInt8) (pos : Nat) (cs ds : List CcCredential) : placed version pos (cs ++ ds) =
      placed version pos cs ++ placed version (pos + (cs.flatMap (marshalCred version)).length) ds := by
  induction cs generalizing pos with
  | nil => rfl
  | cons c cs ih => simp [placed, ih, Nat.add_assoc]

theorem map_cred_placed (version : UInt8) (pos : Nat) (cs : List CcCredential) :
    (placed version pos cs).map Record.cred = cs := by
  induction cs generalizing pos with
  | nil => rfl
  | cons c cs ih => simp [placed, ih]

variable {cs : List CcCredential} {c : CcCredential} {p : CcCredential → Bool} {flags : UInt32} {m : MatchCred}

theorem recordsFrom_placed (h : ∀ c ∈ cs, Fits version c) {fuel : Nat} (hfuel : cs.length ≤ fuel) (pos : Nat) :
    recordsFrom version fuel pos (cs.flatMap (marshalCred version)) = .ok (placed version pos cs) := by
  induction cs generalizing fuel pos with
  | nil => cases fuel <;> rfl
  | cons c cs ih =>
    obtain ⟨fuel, rfl⟩ := Nat.exists_eq_add_of_lt (Nat.lt_of_succ_le (Nat.le_trans (Nat.succ_le_succ (Nat.zero_le _)) hfuel))
    have hne := marshalCred_ne_nil version c
    have hread := unmarshalLen_of_reads (reads_cred (h c List.mem_cons_self)) (cs.flatMap (marshalCred version))
    have hrest := ih (fun d hd => h d (List.mem_cons_of_mem _ hd)) (Nat.le_of_succ_le_succ hfuel)
      (pos + (marshalCred version c).length)
    rw [List.flatMap_cons, recordsFrom, if_neg (List.append_ne_nil_of_left_ne_nil hne _)]
    have hlen : (marshalCred version c).length ≠ 0 := fun hzero => hne (List.length_eq_zero_iff.mp hzero)
    refine Wire.bind_eq_ok.mpr ⟨(c, (marshalCred version c).length), hread, ?_⟩
    rw [if_neg hlen, List.drop_left, hrest]
    rfl

namespace Holds

variable {x : FileCcache} {client : PrincipalName} {realm : Str} {slots : List CcCredential}

theorem readAll_eq (h : Holds x client realm slots) : FileCcache.readAll x =
    .ok ⟨front x client realm ++ slots.flatMap (marshalCred x.version), x.version, (front x client realm).length⟩ x := by
  have hheader := parseHeader_headerBytes h.version x.timeOffset
    (marshalPrinc x.version client realm ++ slots.flatMap (marshalCred x.version))
  have hprinc := unmarshalLen_of_reads (reads_princ h.name x.version) (slots.flatMap (marshalCred x.version))
  have hoffset : (heldOffset x.version x.timeOffset).or x.timeOffset = x.timeOffset := by
    unfold heldOffset
    split <;> simp
  unfold FileCcache.readAll
  rw [Stateful.get_bind, bind_of_ok (lift_of_ok (a := front x client realm ++ _) (by rw [h.file]; rfl) x)]
  unfold front
  rw [List.append_assoc, bind_of_ok (lift_of_ok hheader x)]
  have hmodify : (modify fun y : FileCcache =>
      { y with timeOffset := (heldOffset x.version x.timeOffset).or y.timeOffset } :
      EStateM CcError FileCcache PUnit) x = .ok ⟨⟩ x := by
    show EStateM.Result.ok PUnit.unit { x with timeOffset := (heldOffset x.version x.timeOffset).or x.timeOffset } = _
    rw [hoffset]
  rw [bind_of_ok hmodify, List.drop_left, bind_of_ok (lift_of_ok hprinc x), List.length_append]
  rfl

theorem records_eq (h : Holds x client realm slots) :
    FileCcache.records x = .ok (placed x.version (front x client realm).length slots) x := by
  unfold FileCcache.records
  rw [bind_of_ok h.readAll_eq, List.drop_left]
  refine lift_of_ok (recordsFrom_placed h.fits ?_ _) x
  have := Wire.length_le_flatMap (l := slots) fun c _ => marshalCred_ne_nil x.version c
  rw [List.length_append]
  omega

theorem creds_eq (h : Holds x client realm slots) : FileCcache.creds x = .ok (live slots) x := by
  unfold FileCcache.creds
  rw [bind_of_ok h.records_eq]
  have hmap : ((placed x.version (front x client realm).length slots).filter fun r => !r.cred.isRemoved).map
      Record.cred = live slots := by
    unfold live
    conv_rhs => rw [← map_cred_placed x.version (front x client realm).length slots, List.filter_map]
    rfl
  rw [hmap]
  rfl

theorem principal_eq (h : Holds x client realm slots) :
    FileCcache.principal x = .ok (kept x.version client, realm) x := by
  have hheader := parseHeader_headerBytes h.version x.timeOffset
    (marshalPrinc x.version client realm ++ slots.flatMap (marshalCred x.version))
  have hprinc := unmarshalLen_of_reads (reads_princ h.name x.version) (slots.flatMap (marshalCred x.version))
  unfold FileCcache.principal
  rw [bind_of_ok h.readAll_eq]
  unfold front
  rw [List.append_assoc, bind_of_ok (lift_of_ok hheader x), List.drop_left, bind_of_ok (lift_of_ok hprinc x)]
  rfl

/-! ## Storing and removing -/

theorem store_holds (h : Holds x client realm slots) (hc : Fits x.version c) :
    ∃ y, FileCcache.store c x = .ok () y ∧ y.version = x.version ∧ Holds y client realm (slots ++ [c]) := by
  unfold FileCcache.store
  rw [bind_of_ok h.readAll_eq]
  refine ⟨_, rfl, rfl, h.version, h.name, ?_, ?_⟩
  · simp only [h.file, Option.map_some, List.flatMap_append, List.append_assoc]
    simp [front]
  · intro d hd
    rcases List.mem_append.mp hd with hd | hd
    · exact h.fits d hd
    · rwa [List.mem_singleton.mp hd]

end Holds

theorem removed_length (version : UInt8) (c : CcCredential) :
    (marshalCred version c.removed).length = (marshalCred version c).length := by
  have hrealm : removedConfigRealm.bytes.length = configRealm.bytes.length := by decide
  have hprinc : (marshalPrinc version c.removed.server c.removed.srealm).length =
      (marshalPrinc version c.server c.srealm).length := by
    unfold CcCredential.removed
    split
    · next heq => simp [marshalPrinc, data, i32, hrealm, heq]
    · rfl
  unfold marshalCred
  simp only [List.length_append, hprinc]
  simp only [CcCredential.removed, i32, Wire.num_length]
  rfl

theorem Fits.removed (h : Fits version c) : Fits version c.removed where
  client := h.client
  server := by
    refine ⟨h.server.count, h.server.sizes, ?_⟩
    unfold CcCredential.removed
    split
    · exact (show removedConfigRealm.bytes.length < 2 ^ 31 by decide)
    · exact h.server.realm
  keptClient := h.keptClient
  keptServer := h.keptServer
  keytype := h.keytype
  key := h.key
  addresses := h.addresses
  authdata := h.authdata
  ticket := h.ticket
  secondTicket := h.secondTicket

def found (flags : UInt32) (m : MatchCred) (c : CcCredential) : Bool :=
  !c.isRemoved && credsMatchRequest flags m c

theorem find_placed {before behind : List CcCredential} (hbefore : ∀ d ∈ before, p d = false)
    (hc : p c = true) (version : UInt8) (pos : Nat) :
    (placed version pos (before ++ c :: behind)).find? (fun r => p r.cred) =
      some ⟨pos + (before.flatMap (marshalCred version)).length, (marshalCred version c).length, c⟩ := by
  have hnone : (placed version pos before).find? (fun r => p r.cred) = none := by
    refine List.find?_eq_none.mpr fun r hr => ?_
    have hmem : r.cred ∈ before := by
      rw [← map_cred_placed version pos before]
      exact List.mem_map_of_mem hr
    simp [hbefore _ hmem]
  rw [placed_append, List.find?_append, hnone, Option.none_or, placed]
  exact List.find?_cons_of_pos hc

theorem placed_removed (version : UInt8) (pos : Nat) (before behind : List CcCredential) (c : CcCredential) :
    placed version pos (before ++ c.removed :: behind) =
      (placed version pos (before ++ c :: behind)).modify before.length fun r => { r with cred := r.cred.removed } := by
  induction before generalizing pos with
  | nil => simp [placed, removed_length]
  | cons d before ih => simp [placed, ih]

theorem findIdx_placed {before behind : List CcCredential} (hbefore : ∀ d ∈ before, p d = false)
    (hc : p c = true) (version : UInt8) (pos : Nat) :
    (placed version pos (before ++ c :: behind)).findIdx? (fun r => p r.cred) = some before.length := by
  induction before generalizing pos with
  | nil => simp [placed, List.findIdx?_cons, hc]
  | cons d before ih =>
    have hd := hbefore d List.mem_cons_self
    have hrest := ih (fun e he => hbefore e (List.mem_cons_of_mem _ he)) (pos + (marshalCred version d).length)
    simp [placed, List.findIdx?_cons, hd, hrest]

namespace Holds

variable {x : FileCcache} {client : PrincipalName} {realm : Str} {slots before behind : List CcCredential}

theorem removeCred_none (h : Holds x client realm slots)
    (hnone : ∀ c ∈ slots, found flags m c = false) : FileCcache.removeCred flags m x = .error .notFound x := by
  have hfind : (placed x.version (front x client realm).length slots).find? (fun r => found flags m r.cred) = none := by
    refine List.find?_eq_none.mpr fun r hr => ?_
    have hmem : r.cred ∈ slots := by
      rw [← map_cred_placed x.version (front x client realm).length slots]
      exact List.mem_map_of_mem hr
    simp [hnone _ hmem]
  unfold FileCcache.removeCred
  rw [bind_of_ok h.readAll_eq, bind_of_ok h.records_eq]
  refine bind_of_error (lift_of_error ?_ x)
  unfold FileCcache.removeFirst
  unfold found at hfind
  rw [hfind]

theorem removeCred_some (h : Holds x client realm (before ++ c :: behind))
    (hbefore : ∀ d ∈ before, found flags m d = false) (hc : found flags m c = true) :
    ∃ y, FileCcache.removeCred flags m x = .ok () y ∧ y.version = x.version ∧ y.timeOffset = x.timeOffset ∧
      Holds y client realm (before ++ c.removed :: behind) := by
  have hfind := @find_placed _ c _ before behind hbefore hc x.version (front x client realm).length
  unfold found at hfind
  have hfile := splice_eq (front x client realm ++ before.flatMap (marshalCred x.version)) (marshalCred x.version c)
    (behind.flatMap (marshalCred x.version)) (marshalCred x.version c.removed)
  unfold FileCcache.removeCred
  rw [bind_of_ok h.readAll_eq, bind_of_ok h.records_eq, bind_of_ok (lift_of_ok (a :=
    front x client realm ++ (before ++ c.removed :: behind).flatMap (marshalCred x.version)) ?_ x)]
  · refine ⟨_, rfl, rfl, rfl, h.version, h.name, rfl, fun d hd => ?_⟩
    rcases List.mem_append.mp hd with hd | hd
    · exact h.fits d (List.mem_append_left _ hd)
    · rcases List.mem_cons.mp hd with rfl | hd
      · exact (h.fits c (List.mem_append_right _ List.mem_cons_self)).removed
      · exact h.fits d (List.mem_append_right _ (List.mem_cons_of_mem _ hd))
  · unfold FileCcache.removeFirst
    rw [hfind]
    unfold FileCcache.removeRecord
    dsimp only
    rw [if_neg (by simp [removed_length])]
    simp only [List.flatMap_append, List.flatMap_cons, List.length_append, ← List.append_assoc] at hfile ⊢
    rw [hfile]

end Holds

/-! ## The credentials that are not removed -/

theorem live_cons (c : CcCredential) (cs : List CcCredential) :
    live (c :: cs) = if c.isRemoved then live cs else c :: live cs := by
  unfold live
  rw [List.filter_cons]
  cases c.isRemoved <;> rfl

theorem live_append (cs ds : List CcCredential) : live (cs ++ ds) = live cs ++ live ds := List.filter_append ..

theorem not_match_of_not_found (h : ∀ c ∈ cs, found flags m c = false) :
    ∀ c ∈ live cs, ¬ credsMatchRequest flags m c = true := by
  intro c hc hmatch
  obtain ⟨hc, hlive⟩ := List.mem_filter.mp hc
  have hnot := h c hc
  unfold found at hnot
  rw [hlive, hmatch] at hnot
  cases hnot

theorem eraseP_live {before behind : List CcCredential}
    (hbefore : ∀ d ∈ before, found flags m d = false) (hc : found flags m c = true) :
    (live (before ++ c :: behind)).eraseP (credsMatchRequest flags m) = live (before ++ c.removed :: behind) := by
  obtain ⟨hlive, hmatch⟩ := Bool.and_eq_true_iff.mp hc
  have hgone : c.removed.isRemoved = true := rfl
  have hlive : c.isRemoved = false := by simpa using hlive
  rw [live_append, live_append, live_cons, live_cons, hlive, hgone, if_pos rfl, if_neg Bool.false_ne_true,
    List.eraseP_append_right _ (not_match_of_not_found hbefore), List.eraseP_cons_of_pos hmatch]

end

/-! ## What a cache is for -/

/-- What a configuration entry is about. The type of a name does not count. -/
structure ConfigKey [Alphabet] where
  principal : Option (List GeneralString × Str)
  key : Str
deriving DecidableEq

inductive Op [Alphabet]
  | store (cred : CcCredential)
  | remove (flags : UInt32) (m : MatchCred)
  | setConfig (target : Option (PrincipalName × Str)) (key : Str) (data : Option Bytes)

structure Cache [Alphabet] where
  client : PrincipalName
  realm : Str
  creds : List CcCredential
  config : ConfigKey → Option Bytes

variable {x : FileCcache} {realm : Str}

section
variable [Alphabet]

def ConfigKey.of (target : Option (PrincipalName × Str)) (key : Str) : ConfigKey :=
  ⟨target.map fun p => (p.1.nameString, p.2), key⟩

def Cache.new (client : PrincipalName) (realm : Str) : Cache := ⟨client, realm, [], fun _ => none⟩

def Refines (x : FileCcache) (s : Cache) : Prop :=
  ∃ client slots, Holds x client s.realm slots ∧ s.client = kept x.version client ∧ s.creds = live slots

def RemovesInPlace (x : FileCcache) (flags : UInt32) (m : MatchCred) : Prop :=
  ∃ rs, FileCcache.records x = .ok rs x ∧
    match rs.findIdx? fun r => found flags m r.cred with
    | none => FileCcache.removeCred flags m x = .error .notFound x
    | some i => ∃ y, FileCcache.removeCred flags m x = .ok () y ∧
        FileCcache.records y = .ok (rs.modify i fun r => { r with cred := r.cred.removed }) y

theorem Refines.removesInPlace {s : Cache} (h : Refines x s) (flags : UInt32) (m : MatchCred) :
    RemovesInPlace x flags m := by
  obtain ⟨client, slots, hholds, -, -⟩ := h
  refine ⟨_, hholds.records_eq, ?_⟩
  cases hfind : slots.find? (found flags m) with
  | none =>
    have hnone : ∀ c ∈ slots, found flags m c = false := by simpa using hfind
    have hidx : (placed x.version (front x client s.realm).length slots).findIdx? (fun r => found flags m r.cred) =
        none := by
      refine List.findIdx?_eq_none_iff.mpr fun r hr => hnone _ ?_
      rw [← map_cred_placed x.version (front x client s.realm).length slots]
      exact List.mem_map_of_mem hr
    rw [hidx]
    exact hholds.removeCred_none hnone
  | some c =>
    obtain ⟨hc, before, behind, rfl, hbefore⟩ := List.find?_eq_some_iff_append.mp hfind
    have hbefore : ∀ d ∈ before, found flags m d = false := by simpa using hbefore
    obtain ⟨y, hremove, hversion, hoffset, hy⟩ := hholds.removeCred_some hbefore hc
    have hfront : front y client s.realm = front x client s.realm := by
      unfold front
      rw [hversion, hoffset]
    rw [findIdx_placed hbefore hc]
    refine ⟨y, hremove, ?_⟩
    rw [hy.records_eq, hfront, hversion, placed_removed]

theorem refines_new (hv : 1 ≤ x.version ∧ x.version ≤ 4) {client : PrincipalName} (hname : NameFits client realm) :
    Refines (after (writeHeader client realm) x) (.new (kept x.version client) realm) :=
  ⟨client, [], ⟨hv, hname, congrArg some (List.append_nil _).symm, nofun⟩, rfl, rfl⟩

variable [AsciiNames]

def Cache.step (s : Cache) : Op → Cache
  | .store cred => { s with creds := s.creds ++ [cred] }
  | .remove flags m => { s with creds := s.creds.eraseP (credsMatchRequest flags m) }
  | .setConfig target key data => { s with
      creds := s.creds.eraseP (credsMatchRequest 0 (configRequest target key)) ++
        (data.map (configCred s.client s.realm target key)).toList
      config := Function.update s.config (.of target key) data }

def Op.apply : Op → EStateM CcError FileCcache Unit
  | .store cred => FileCcache.store cred
  | .remove flags m => FileCcache.removeCred flags m
  | .setConfig target key data => FileCcache.setConfig target key data

end

theorem filter_eraseP_of_find {α : Type} {p q : α → Bool} {l : List α} (h : ∀ a, l.find? q = some a → p a = false) :
    (l.eraseP q).filter p = l.filter p := by
  cases hfind : l.find? q with
  | none => rw [List.eraseP_of_forall_not (by simpa using hfind)]
  | some a =>
    obtain ⟨hq, before, behind, rfl, hbefore⟩ := List.find?_eq_some_iff_append.mp hfind
    rw [List.eraseP_append_right _ (by simpa using hbefore), List.eraseP_cons_of_pos hq, List.filter_append,
      List.filter_append, List.filter_cons_of_neg (by simp [h a hfind])]

/-! ## Names of configuration entries -/

def Ascii (b : Bytes) : Prop := ∀ x ∈ b, x < 128

variable {b : Bytes}

theorem ascii_of_all (h : b.all (· < 128) = true) : Ascii b := fun x hx =>
  of_decide_eq_true (List.all_eq_true.mp h x hx)

theorem Ascii.valid (h : Ascii b) : Utf8.valid b = true := by
  induction b with
  | nil => rfl
  | cons a b ih =>
    have ha : a ≤ 0x7f :=
      UInt8.le_iff_toNat_le.mpr (Nat.le_of_lt_succ (UInt8.lt_iff_toNat_lt.mp (h a List.mem_cons_self)))
    have htail : Utf8.tailLength a = some 0 := if_pos ha
    unfold Utf8.valid
    rw [htail]
    exact ih fun x hx => h x (List.mem_cons_of_mem _ hx)

theorem ascii_quoteByte {b : UInt8} (h : b < 128) : Ascii (quoteByte b) := by
  unfold quoteByte Ascii
  repeat' split
  all_goals simp [h]

theorem Ascii.appendComponent (h : Ascii b) : Ascii (appendComponent b) := by
  intro x hx
  obtain ⟨a, ha, hx⟩ := List.mem_flatMap.mp hx
  exact ascii_quoteByte (h a ha) x hx

theorem ascii_unparseComponents {cs : List Bytes} (h : ∀ c ∈ cs, Ascii c) : Ascii (unparseComponents cs) := by
  induction cs with
  | nil => exact nofun
  | cons c cs ih =>
    have hc := (h c List.mem_cons_self).appendComponent
    have hcs := ih fun d hd => h d (List.mem_cons_of_mem _ hd)
    cases cs with
    | nil => exact hc
    | cons d cs =>
      intro x hx
      rcases List.mem_append.mp hx with hx | hx
      · exact hc x hx
      · rcases List.mem_cons.mp hx with rfl | hx
        · decide
        · exact hcs x hx

section
variable [Alphabet]

structure NameOk (p : PrincipalName × Str) : Prop where
  nonempty : p.1.nameString ≠ []
  components : ∀ c ∈ p.1.components, Ascii c
  realm : Ascii p.2.bytes
  size : Counted (ccUnparseName p.1 p.2).length

structure ConfigOk (target : Option (PrincipalName × Str)) (key : Str) : Prop where
  text : Ascii key.bytes
  size : Counted key.bytes.length
  name : ∀ p ∈ target, NameOk p

variable {p : PrincipalName × Str} {target target' : Option (PrincipalName × Str)} {key' key : Str} {s : Cache}
  {version : UInt8}

theorem NameOk.unparse (h : NameOk p) : ccUnparseName p.1 p.2 = unparseName p.1 p.2 := by
  have htext : p.1.components.map componentText = p.1.components :=
    (List.map_congr_left fun c hc => if_pos (h.components c hc).valid).trans (List.map_id' _)
  unfold ccUnparseName unparseNoRealm unparseName
  rw [htext]

theorem NameOk.ascii (h : NameOk p) : Ascii (ccUnparseName p.1 p.2) := by
  rw [h.unparse]
  intro x hx
  rcases List.mem_append.mp hx with hx | hx
  · exact ascii_unparseComponents h.components x hx
  · rcases List.mem_cons.mp hx with rfl | hx
    · decide
    · exact h.realm.appendComponent x hx

theorem NameOk.inj {q : PrincipalName × Str} (hp : NameOk p) (hq : NameOk q)
    (h : ccUnparseName p.1 p.2 = ccUnparseName q.1 q.2) : p.1.nameString = q.1.nameString ∧ p.2 = q.2 := by
  rw [hp.unparse, hq.unparse] at h
  have hparse := parseName_unparseName p.1 p.2 hp.nonempty
  rw [h, parseName_unparseName q.1 q.2 hq.nonempty] at hparse
  obtain ⟨hname, hrealm⟩ := Prod.mk.inj (Except.ok.inj hparse)
  exact ⟨(congrArg PrincipalName.nameString hname).symm, hrealm.symm⟩

def entryName (target : Option (PrincipalName × Str)) (key : Str) : List Bytes :=
  [configPrinc, key.bytes] ++ target.toList.map fun p => ccUnparseName p.1 p.2

theorem entryName_inj (h : ConfigOk target key) (h' : ConfigOk target' key') :
    entryName target key = entryName target' key' ↔ ConfigKey.of target key = ConfigKey.of target' key' := by
  have hkey : key.bytes = key'.bytes ↔ key = key' := ⟨Utf8.Str.ext, congrArg Utf8.Str.bytes⟩
  cases target with
  | none => cases target' <;> simp [entryName, ConfigKey.of, hkey]
  | some p =>
    cases target' with
    | none => simp [entryName, ConfigKey.of]
    | some q =>
      have hname : ccUnparseName p.1 p.2 = ccUnparseName q.1 q.2 ↔ p.1.nameString = q.1.nameString ∧ p.2 = q.2 := by
        refine ⟨(h.name p rfl).inj (h'.name q rfl), fun heq => ?_⟩
        unfold ccUnparseName unparseNoRealm PrincipalName.components
        rw [heq.1, heq.2]
      simp [entryName, ConfigKey.of, hkey, hname, and_comm]

theorem configMatches_iff (c : CcCredential) (target : Option (PrincipalName × Str)) (key : Str) :
    configMatches c target key = true ↔ c.srealm = configRealm ∧ c.server.components = entryName target key := by
  unfold configMatches isConfigPrincipal entryName
  match c.server.components, target with
  | [], none | [], some p => simp
  | [a], none | [a], some p => simp
  | [a, b], none | [a, b], some p => simp [and_assoc]
  | [a, b, d], none | [a, b, d], some p => simp [and_assoc]
  | a :: b :: d :: e :: rest, none | a :: b :: d :: e :: rest, some p => simp

variable [AsciiNames] {ops : List Op}

theorem bytes_generalString (h : Ascii b) : (generalString b).bytes = b := by
  have hsome : GeneralString.fromBytes b = some ⟨b, AsciiNames.permits b h⟩ := dif_pos (AsciiNames.permits b h)
  unfold generalString
  rw [hsome]
  rfl

theorem components_configPrincipal (h : ConfigOk target key) :
    (configPrincipal target key).components = entryName target key := by
  have hprinc : Ascii configPrinc := ascii_of_all (by decide)
  cases target with
  | none => simp [configPrincipal, PrincipalName.components, entryName, bytes_generalString, hprinc, h.text]
  | some p =>
    simp [configPrincipal, PrincipalName.components, entryName, bytes_generalString, hprinc, h.text, (h.name p rfl).ascii]

/-! ## Refinement -/

def Op.Ok (version : UInt8) : Op → Prop
  | .store cred => Fits version cred ∧ cred.isRemoved = false
  | .remove _ _ => True
  | .setConfig target key data => ConfigOk target key ∧ ∀ d ∈ data, Counted d.length

theorem Refines.removeCred (h : Refines x s) (flags : UInt32) (m : MatchCred) :
    ∃ y, y.version = x.version ∧ Refines y (s.step (.remove flags m)) ∧
      FileCcache.removeCred flags m x =
        if s.creds.any (credsMatchRequest flags m) then .ok () y else .error .notFound y := by
  obtain ⟨client, slots, hholds, hclient, hcreds⟩ := h
  cases hfind : slots.find? (found flags m) with
  | none =>
    have hnone : ∀ c ∈ slots, found flags m c = false := by simpa using hfind
    have hlive := not_match_of_not_found hnone
    rw [← hcreds] at hlive
    refine ⟨x, rfl, ⟨client, slots, hholds, hclient, ?_⟩, ?_⟩
    · rw [← hcreds]
      exact List.eraseP_of_forall_not hlive
    · rw [hholds.removeCred_none hnone, if_neg (by simpa using hlive)]
  | some c =>
    obtain ⟨hc, before, behind, rfl, hbefore⟩ := List.find?_eq_some_iff_append.mp hfind
    have hbefore : ∀ d ∈ before, found flags m d = false := by simpa using hbefore
    obtain ⟨y, hremove, hversion, -, hy⟩ := hholds.removeCred_some hbefore hc
    have hany : s.creds.any (credsMatchRequest flags m) = true := by
      obtain ⟨hlive, hmatch⟩ := Bool.and_eq_true_iff.mp hc
      rw [hcreds]
      exact List.any_eq_true.mpr ⟨c, List.mem_filter.mpr ⟨by simp, hlive⟩, hmatch⟩
    refine ⟨y, hversion, ⟨client, _, hy, hversion ▸ hclient, ?_⟩, by rw [hremove, if_pos hany]⟩
    exact (congrArg _ hcreds).trans (eraseP_live hbefore hc)

theorem Refines.store (h : Refines x s) {c : CcCredential} (hfits : Fits x.version c) (hlive : c.isRemoved = false) :
    ∃ y, y.version = x.version ∧ Refines y (s.step (.store c)) ∧ FileCcache.store c x = .ok () y := by
  obtain ⟨client, slots, hholds, hclient, hcreds⟩ := h
  obtain ⟨y, hstore, hversion, hy⟩ := hholds.store_holds hfits
  refine ⟨y, hversion, ⟨client, _, hy, hversion ▸ hclient, ?_⟩, hstore⟩
  rw [live_append, ← hcreds, live_cons, hlive]
  rfl

theorem configPrincipal_fits (hok : ConfigOk target key) : NameFits (configPrincipal target key) configRealm := by
  have hcomps := components_configPrincipal hok
  have hprinc : configPrinc.length < 2 ^ 31 := by decide
  have hrealm : configRealm.bytes.length < 2 ^ 31 := by decide
  refine ⟨?_, fun c hc => ?_, hrealm⟩
  · unfold configPrincipal
    cases target <;> exact (show _ < 2 ^ 31 by simp)
  · have hmem : c.bytes ∈ entryName target key := by
      rw [← hcomps]
      exact List.mem_map_of_mem hc
    rcases List.mem_append.mp hmem with hmem | hmem
    · rcases List.mem_cons.mp hmem with heq | hmem
      · exact heq ▸ hprinc
      · exact List.mem_singleton.mp hmem ▸ hok.size
    · obtain ⟨p, hp, heq⟩ := List.mem_map.mp hmem
      exact heq ▸ (hok.name p (Option.mem_toList.mp hp)).size

theorem configCred_fits {client : PrincipalName} (hname : NameFits client realm)
    {d : Bytes} (hok : ConfigOk target key) (hd : Counted d.length) :
    Fits version (configCred (kept version client) realm target key d) where
  client := hname.kept version
  server := configPrincipal_fits hok
  keptClient := kept_kept version client
  keptServer := by
    unfold kept
    split <;> rfl
  keytype := show -2 ^ 15 ≤ (0 : Int32).toInt ∧ (0 : Int32).toInt < 2 ^ 15 by decide
  key := Nat.two_pow_pos 31
  addresses := ⟨Nat.two_pow_pos 31, nofun, nofun⟩
  authdata := ⟨Nat.two_pow_pos 31, nofun, nofun⟩
  ticket := hd
  secondTicket := Nat.two_pow_pos 31

theorem Refines.setConfig (h : Refines x s) {data : Option Bytes}
    (hok : ConfigOk target key) (hdata : ∀ d ∈ data, Counted d.length) :
    ∃ y, y.version = x.version ∧ Refines y (s.step (.setConfig target key data)) ∧
      FileCcache.setConfig target key data x = .ok () y := by
  obtain ⟨y, hversion, hrefines, hremove⟩ := h.removeCred 0 (configRequest target key)
  have hafter : attempt (FileCcache.removeCred 0 (configRequest target key)) x = .ok () y := by
    unfold attempt after
    split <;> split at * <;> simp_all
  unfold FileCcache.setConfig
  rw [bind_of_ok hafter]
  obtain ⟨client, slots, hholds, hclient, hcreds⟩ := hrefines
  cases data with
  | none =>
    refine ⟨y, hversion, ⟨client, slots, hholds, hclient, ?_⟩, rfl⟩
    rw [← hcreds]
    simp [Cache.step]
  | some d =>
    obtain ⟨z, hstore, hz, hzholds⟩ := hholds.store_holds (configCred_fits hholds.name hok (hdata d rfl))
    refine ⟨z, hz.trans hversion, ⟨client, _, hzholds, hz ▸ hclient, ?_⟩, ?_⟩
    · rw [live_append, ← hcreds, ← hclient]
      rfl
    · unfold FileCcache.storeConfig
      dsimp only
      rw [bind_of_ok hholds.principal_eq]
      exact hstore

theorem Refines.apply (h : Refines x s) {op : Op} (hop : op.Ok x.version) :
    Refines (after op.apply x) (s.step op) ∧ (after op.apply x).version = x.version := by
  cases op with
  | store c =>
    obtain ⟨y, hversion, hy, hstore⟩ := h.store hop.1 hop.2
    have hafter : after (Op.store c).apply x = y := Stateful.after_of_ok hstore
    rw [hafter]
    exact ⟨hy, hversion⟩
  | remove flags m =>
    obtain ⟨y, hversion, hy, hremove⟩ := h.removeCred flags m
    have hafter : after (Op.remove flags m).apply x = y := by
      unfold after Op.apply
      dsimp only
      split <;> split at * <;> simp_all
    rw [hafter]
    exact ⟨hy, hversion⟩
  | setConfig target key data =>
    obtain ⟨y, hversion, hy, hset⟩ := h.setConfig hop.1 hop.2
    have hafter : after (Op.setConfig target key data).apply x = y := Stateful.after_of_ok hset
    rw [hafter]
    exact ⟨hy, hversion⟩

theorem Refines.run (h : Refines x s) (hops : ∀ op ∈ ops, op.Ok x.version) :
    Refines (Trace.run Op.apply x ops) (ops.foldl Cache.step s) := by
  induction ops generalizing x s with
  | nil => exact h
  | cons op ops ih =>
    obtain ⟨hnext, hversion⟩ := h.apply (hops op List.mem_cons_self)
    refine ih hnext fun op' hop' => ?_
    show op'.Ok (after op.apply x).version
    rw [hversion]
    exact hops op' (List.mem_cons_of_mem _ hop')

/-! ## Configuration -/

theorem request_matches (hok : ConfigOk target key) (c : CcCredential) :
    credsMatchRequest 0 (configRequest target key) c =
      (configMatches c target key && !c.isSkey) := by
  have hnames : (configPrincipal target key).nameString = c.server.nameString ↔
      c.server.components = entryName target key := by
    rw [← components_configPrincipal hok]
    exact ⟨fun h => congrArg (List.map GeneralString.bytes) h.symm,
      fun h => (List.map_injective_iff.mpr (fun _ _ => bytes_injective) h).symm⟩
  have hnone (m : UInt32) (hm : m ≠ 0) : Flags.contains 0 m = false := by
    simpa [Flags.contains] using hm.symm
  rw [Bool.eq_iff_iff, Bool.and_eq_true_iff, configMatches_iff, ← hnames, eq_comm (a := c.srealm)]
  simp [credsMatchRequest, configRequest, serverMatch, princEq, flagsMatch, timesMatch, hnone,
    MatchFlags.times, MatchFlags.isSkey, MatchFlags.flags, MatchFlags.timesExact, MatchFlags.flagsExact,
    MatchFlags.authdata, MatchFlags.srvNameonly, MatchFlags.secondTkt, MatchFlags.ktype]

def Cache.entry (s : Cache) (target : Option (PrincipalName × Str)) (key : Str) : Option CcCredential :=
  (s.config (.of target key)).map (configCred s.client s.realm target key)

/-- The list has the entry that the map gives, and no other for the principal and key. -/
def Configured (target : Option (PrincipalName × Str)) (key : Str) (s : Cache) : Prop :=
  s.creds.filter (fun c => configMatches c target key) = (s.entry target key).toList

/-- A call that does not touch the entry but through `set_config`. -/
def Op.Spares (target : Option (PrincipalName × Str)) (key : Str) (s : Cache) : Op → Prop
  | .store cred => configMatches cred target key = false
  | .remove flags m => ∀ c, s.creds.find? (credsMatchRequest flags m) = some c → configMatches c target key = false
  | .setConfig _ _ _ => True

def Spared (target : Option (PrincipalName × Str)) (key : Str) : Cache → List Op → Prop
  | _, [] => True
  | s, op :: ops => op.Spares target key s ∧ Spared target key (s.step op) ops

theorem configMatches_configCred (hok : ConfigOk target key) (hok' : ConfigOk target' key')
    (client : PrincipalName) (realm : Str) (d : Bytes) :
    configMatches (configCred client realm target' key' d) target key = true ↔
      ConfigKey.of target' key' = ConfigKey.of target key := by
  rw [configMatches_iff, ← entryName_inj hok' hok, ← components_configPrincipal hok']
  exact and_iff_right rfl

theorem configPrincipal_congr (hok : ConfigOk target key) (hok' : ConfigOk target' key')
    (h : ConfigKey.of target' key' = ConfigKey.of target key) :
    configPrincipal target' key' = configPrincipal target key := by
  have hcomps : (configPrincipal target' key').components = (configPrincipal target key).components := by
    rw [components_configPrincipal hok, components_configPrincipal hok', entryName_inj hok' hok, h]
  have hnames := List.map_injective_iff.mpr (fun _ _ => bytes_injective) hcomps
  rw [PrincipalName.mk.injEq]
  exact ⟨rfl, hnames⟩

theorem Configured.set (hok : ConfigOk target key) (hok' : ConfigOk target' key')
    (h : Configured target key s) (hkey : ConfigKey.of target' key' = ConfigKey.of target key)
    (data : Option Bytes) : Configured target key (s.step (.setConfig target' key' data)) := by
  have hcred : configCred s.client s.realm target' key' = configCred s.client s.realm target key := by
    unfold configCred
    rw [configPrincipal_congr hok hok' hkey]
  have hmatches (c : CcCredential) : configMatches c target' key' = configMatches c target key := by
    rw [Bool.eq_iff_iff, configMatches_iff, configMatches_iff, (entryName_inj hok' hok).mpr hkey]
  have hself (d : Bytes) : configMatches (configCred s.client s.realm target key d) target key = true :=
    (configMatches_configCred hok hok _ _ d).mpr rfl
  have hold : (s.creds.eraseP (credsMatchRequest 0 (configRequest target' key'))).filter
      (fun c => configMatches c target key) = [] := by
    have hfun : credsMatchRequest 0 (configRequest target' key') = fun c =>
        credsMatchRequest 0 (configRequest target' key') c && configMatches c target key := by
      funext c
      rw [request_matches hok', hmatches]
      cases configMatches c target key <;> simp
    rw [hfun, ← List.eraseP_filter, h]
    unfold Cache.entry
    cases s.config (.of target key) with
    | none => rfl
    | some d =>
      refine List.eraseP_cons_of_pos ?_
      rw [request_matches hok', hmatches, hself]
      rfl
  unfold Configured Cache.entry Cache.step
  dsimp only
  rw [List.filter_append, hold, List.nil_append, hcred, hkey, Function.update_self]
  cases data with
  | none => rfl
  | some d => exact List.filter_cons_of_pos (hself d)

theorem Configured.set_other (hok : ConfigOk target key) (hok' : ConfigOk target' key')
    (h : Configured target key s) (hkey : ConfigKey.of target' key' ≠ ConfigKey.of target key)
    (data : Option Bytes) : Configured target key (s.step (.setConfig target' key' data)) := by
  have hnew : ((data.map (configCred s.client s.realm target' key')).toList).filter
      (fun c => configMatches c target key) = [] := by
    refine List.filter_eq_nil_iff.mpr fun c hc hmatch => ?_
    obtain ⟨d, -, rfl⟩ := Option.map_eq_some_iff.mp (Option.mem_toList.mp hc)
    exact hkey ((configMatches_configCred hok hok' _ _ d).mp hmatch)
  have hold := filter_eraseP_of_find (p := fun c => configMatches c target key) (l := s.creds)
    (q := credsMatchRequest 0 (configRequest target' key')) ?_
  · unfold Configured Cache.entry Cache.step
    dsimp only
    rw [List.filter_append, hnew, List.append_nil, hold, Function.update_of_ne (Ne.symm hkey)]
    exact h
  · intro c hc
    have hmatch := List.find?_some hc
    rw [request_matches hok', Bool.and_eq_true_iff, configMatches_iff] at hmatch
    cases hother : configMatches c target key with
    | false => rfl
    | true =>
      have heq := hmatch.1.2.symm.trans ((configMatches_iff ..).mp hother).2
      exact absurd ((entryName_inj hok' hok).mp heq) hkey

theorem Configured.step (hok : ConfigOk target key) (h : Configured target key s) {op : Op}
    (hop : op.Ok version) (hspares : op.Spares target key s) : Configured target key (s.step op) := by
  cases op with
  | store c =>
    refine (List.filter_append ..).trans ?_
    rw [List.filter_cons_of_neg (by simp [show configMatches c target key = false from hspares]), List.filter_nil,
      List.append_nil]
    exact h
  | remove flags m => exact (filter_eraseP_of_find hspares).trans h
  | setConfig target' key' data =>
    by_cases hkey : ConfigKey.of target' key' = ConfigKey.of target key
    · exact h.set hok hop.1 hkey data
    · exact h.set_other hok hop.1 hkey data

theorem Configured.run (hok : ConfigOk target key)
    (hops : ∀ op ∈ ops, op.Ok version) (h : Configured target key s) (hspared : Spared target key s ops) :
    Configured target key (ops.foldl Cache.step s) := by
  induction ops generalizing s with
  | nil => exact h
  | cons op ops ih =>
    exact ih (fun op' hop' => hops op' (List.mem_cons_of_mem _ hop'))
      (h.step hok (hops op List.mem_cons_self) hspared.1) hspared.2

theorem Configured.find (h : Configured target key s) :
    (s.creds.find? fun c => configMatches c target key).map CcCredential.ticket = s.config (.of target key) := by
  rw [← List.head?_filter, h]
  unfold Cache.entry
  cases s.config (.of target key) <;> rfl

/-- Every run of a new cache has the credentials of the list and removes them in place; a configuration entry that is
neither stored nor removed by hand is that of the map. -/
theorem file_ccache_refines {x : FileCcache} (hv : 1 ≤ x.version ∧ x.version ≤ 4) {client : PrincipalName}
    {realm : Str} (hname : NameFits client realm) {ops : List Op} (hops : ∀ op ∈ ops, op.Ok x.version) :
    let y := Trace.run Op.apply (after (writeHeader client realm) x) ops
    let start : Cache := .new (kept x.version client) realm
    FileCcache.creds y = .ok (ops.foldl Cache.step start).creds y ∧
    (∀ target key, ConfigOk target key → Spared target key start ops →
      FileCcache.getConfig target key y = .ok ((ops.foldl Cache.step start).config (.of target key)) y) ∧
    ∀ flags m, RemovesInPlace y flags m := by
  intro y start
  have hrefines := (refines_new hv hname).run hops
  have hcreds : FileCcache.creds y = .ok (ops.foldl Cache.step start).creds y := by
    obtain ⟨client', slots, hholds, -, hlive⟩ := hrefines
    rw [hholds.creds_eq, hlive]
  refine ⟨hcreds, fun target key hok hspared => ?_, hrefines.removesInPlace⟩
  have hconfig : Configured target key (ops.foldl Cache.step start) := Configured.run hok hops rfl hspared
  unfold FileCcache.getConfig
  rw [bind_of_ok hcreds, hconfig.find]
  rfl

end

/-! ## A cache with a pinned entry -/

section
attribute [local instance] Alphabet.ascii

local instance ccacheAscii : AsciiNames := ⟨fun _ h => List.all_eq_true.mpr fun x hx => decide_eq_true (h x hx)⟩

def owner : PrincipalName := ⟨1, [⟨[67], rfl⟩]⟩
def ownerRealm : Str := ⟨[87], rfl⟩
def pin : Str := ⟨[114], rfl⟩

theorem owner_fits : NameFits owner ownerRealm where
  count := show 2 < 2 ^ 31 by decide
  sizes := by
    intro c hc
    rw [List.mem_singleton.mp hc]
    exact (show 1 < 2 ^ 31 by decide)
  realm := show 1 < 2 ^ 31 by decide

theorem pin_ok : ConfigOk none pin where
  text := ascii_of_all rfl
  size := show 1 < 2 ^ 31 by decide
  name := nofun

theorem pin_owner_ok : ConfigOk (some (owner, ownerRealm)) pin where
  text := pin_ok.text
  size := pin_ok.size
  name := by
    rintro p ⟨⟩
    refine ⟨nofun, fun c hc => ?_, ascii_of_all rfl, (show _ < 2 ^ 31 by decide)⟩
    rw [List.mem_singleton.mp hc]
    exact ascii_of_all rfl

def ownerCache (version : UInt8) (ops : List Op) : FileCcache :=
  Trace.run Op.apply (after (writeHeader owner ownerRealm) ⟨version, none, none⟩) ops

def ownTicket (isSkey : Bool) : CcCredential where
  client := owner
  crealm := ownerRealm
  server := owner
  srealm := ownerRealm
  keyblock := ⟨-2, [87]⟩
  authtime := 1
  starttime := 1
  endtime := 2
  renewTill := 0
  isSkey := isSkey
  ticketFlags := 0x80000000
  addresses := [⟨2, [67]⟩]
  authdata := []
  ticket := [114, 114]
  secondTicket := []

theorem ownTicket_fits (isSkey : Bool) : Fits 3 (ownTicket isSkey) where
  client := owner_fits
  server := owner_fits
  keptClient := rfl
  keptServer := rfl
  keytype := show -2 ^ 15 ≤ (-2 : Int32).toInt ∧ (-2 : Int32).toInt < 2 ^ 15 by decide
  key := show 1 < 2 ^ 31 by decide
  addresses := by
    refine ⟨show 1 < 2 ^ 31 by decide, fun a ha => ?_, fun a ha => ?_⟩
    · rw [List.mem_singleton.mp ha]
      exact (show -2 ^ 15 ≤ (2 : Int32).toInt ∧ (2 : Int32).toInt < 2 ^ 15 by decide)
    · rw [List.mem_singleton.mp ha]
      exact (show 1 < 2 ^ 31 by decide)
  authdata := ⟨Nat.two_pow_pos 31, nofun, nofun⟩
  ticket := show 2 < 2 ^ 31 by decide
  secondTicket := Nat.two_pow_pos 31

def pinOps : List Op :=
  [.store (ownTicket false), .setConfig none pin (some [87]), .store (ownTicket true),
    .setConfig (some (owner, ownerRealm)) pin (some [67]), .remove 0 { server := some (owner, ownerRealm) },
    .setConfig none pin none]

theorem pinOps_ok : ∀ op ∈ pinOps, op.Ok 3 := by
  have hone : Counted 1 := show 1 < 2 ^ 31 by decide
  simp only [pinOps, List.forall_mem_cons]
  exact ⟨⟨ownTicket_fits false, rfl⟩, ⟨pin_ok, by simpa using hone⟩, ⟨ownTicket_fits true, rfl⟩,
    ⟨pin_owner_ok, by simpa using hone⟩, trivial, ⟨pin_ok, nofun⟩, nofun⟩

theorem pinOps_spared : Spared (some (owner, ownerRealm)) pin (.new owner ownerRealm) pinOps := by
  have hplain (isSkey : Bool) : configMatches (ownTicket isSkey) (some (owner, ownerRealm)) pin = false := by
    cases isSkey <;> decide +kernel
  refine ⟨hplain false, trivial, hplain true, trivial, fun c hc => ?_, trivial, trivial⟩
  have hfind : List.find? (credsMatchRequest 0 { server := some (owner, ownerRealm) })
      ((pinOps.take 4).foldl Cache.step (.new owner ownerRealm)).creds = some (ownTicket false) := by
    decide +kernel
  rw [← Option.some.inj (hfind.symm.trans hc)]
  exact hplain false

theorem file_ccache_refines_pin : FileCcache.creds (ownerCache 3 pinOps) =
      .ok [ownTicket true, configCred owner ownerRealm (some (owner, ownerRealm)) pin [67]] (ownerCache 3 pinOps) ∧
    FileCcache.getConfig (some (owner, ownerRealm)) pin (ownerCache 3 pinOps) =
      .ok (some [67]) (ownerCache 3 pinOps) := by
  have h := file_ccache_refines (x := ⟨3, none, none⟩) (by decide) owner_fits pinOps_ok
  exact ⟨h.1.trans (congrArg (EStateM.Result.ok · _) (by decide +kernel)),
    (h.2.1 _ pin pin_owner_ok pinOps_spared).trans (congrArg (EStateM.Result.ok · _) (by decide +kernel))⟩

/-- An entry that `set_config` does not find. -/
def pinned : CcCredential := { configCred owner ownerRealm none pin [67] with isSkey := true }

theorem pinned_fits : Fits 3 pinned :=
  have h : Fits 3 (configCred owner ownerRealm none pin [67]) :=
    configCred_fits owner_fits pin_ok (show 1 < 2 ^ 31 by decide)
  ⟨h.client, h.server, h.keptClient, h.keptServer, h.keytype, h.key, h.addresses, h.authdata, h.ticket, h.secondTicket⟩

def losing : List Op := [.setConfig none pin (some [87]), .remove 0 {}]

def shadowed : List Op := [.store pinned, .setConfig none pin (some [87])]

/-- An entry is lost to a removal that any credential matches, and is hidden by one that was stored before. -/
theorem config_entry_touched : (∀ op ∈ losing ++ shadowed, op.Ok 3) ∧
    Stateful.value (FileCcache.getConfig none pin) (ownerCache 3 losing) = some none ∧
    Stateful.value (FileCcache.getConfig none pin) (ownerCache 3 shadowed) = some (some [67]) := by
  have hset : (Op.setConfig none pin (some [87])).Ok 3 :=
    ⟨pin_ok, by simpa using (show Counted 1 from (show 1 < 2 ^ 31 by decide))⟩
  refine ⟨?_, by decide +kernel, by decide +kernel⟩
  simp only [losing, shadowed, List.cons_append, List.nil_append, List.forall_mem_cons]
  exact ⟨hset, trivial, ⟨pinned_fits, rfl⟩, hset, nofun⟩

end

end Ccache

end Krb5Rs
