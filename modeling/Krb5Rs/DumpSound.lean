import Krb5Rs.Dump
import Krb5Rs.MitNameSound

/-!
# Loading what was dumped

Every field of a record follows a tab, and a tab stops the number before it. A
record is therefore read back field by field, and a dump record by record.
-/

namespace Krb5Rs.Dump

open Wire (Bytes bind_apply bind_of_ok pure_apply bind_eq_ok)
open Scan (natText intText num token expect Stops Ends isSpace ReadsBefore expect_apply stops_cons ends_cons num_cons_of_isSpace skip skip_eq_self stops_flatMap)

@[simp] theorem isSpace_tab : isSpace 9 = true := by decide

@[simp] theorem isSpace_newline : isSpace 10 = true := by decide

@[simp] theorem isDigit_tab : Scan.isDigit 9 = false := by decide

@[simp] theorem isDigit_newline : Scan.isDigit 10 = false := by decide

variable (bs : Bytes)

theorem stops_tab : Stops (9 :: bs) := (stops_cons ..).mpr isDigit_tab

/-! ## Fields -/

theorem ofInt_natCast (n : Nat) : UInt32.ofInt n = UInt32.ofNat n := by
  apply UInt32.toNat_inj.mp
  simp [UInt32.ofInt]
  omega

theorem ofInt_toInt32 (v : UInt32) : UInt32.ofInt v.toInt32.toInt = v := by
  have hv := v.toNat_lt
  have hsign : v.toInt32.toInt = if v.toNat < 2 ^ 31 then (v.toNat : Int) else v.toNat - 2 ^ 32 := by
    show v.toBitVec.toInt = _
    rw [BitVec.toInt_eq_toNat_cond]
    simp
    omega
  apply UInt32.toNat_inj.mp
  rw [hsign]
  split <;> simp [UInt32.ofInt] <;> omega

theorem unsigned_skip : unsigned (skip bs) = unsigned bs := by
  simp only [unsigned, num, Scan.skip_skip]

variable (place : Place)

theorem policyField_skip (read : Nat) (bs : Bytes) :
    policyField place read (skip bs) = policyField place read bs := by
  simp only [policyField, expect, unsigned_skip]

variable {n : Nat} {key : KeyData}

section
variable {rest : Bytes} (err : LoadError)

@[simp] theorem expect_len (h : n < 2 ^ 16) (hs : Stops rest) :
    expect num err (9 :: (natText n ++ rest)) = .ok ((n : Int), rest) := by
  apply expect_apply
  rw [num_cons_of_isSpace isSpace_tab, Scan.num_natText (by omega) hs]

@[simp] theorem expect_i16 (k : Int16) (hs : Stops rest) :
    expect num err (9 :: (intText k.toInt ++ rest)) = .ok (k.toInt, rest) := by
  have hlo := k.le_toInt
  have hhi := k.toInt_lt
  apply expect_apply
  rw [num_cons_of_isSpace isSpace_tab, Scan.num_intText (by omega) (by omega) hs]

theorem expect_unsigned_nat (h : n < 2 ^ 32) (hs : Stops rest) :
    expect unsigned err (9 :: (natText n ++ rest)) = .ok (UInt32.ofNat n, rest) := by
  apply expect_apply
  rw [unsigned, num_cons_of_isSpace isSpace_tab, Scan.num_natText (by omega) hs]
  simp [ofInt_natCast]

@[simp] theorem expect_u32 (v : UInt32) (hs : Stops rest) :
    expect unsigned err (9 :: (natText v.toNat ++ rest)) = .ok (v, rest) := by
  rw [expect_unsigned_nat err v.toNat_lt hs, UInt32.ofNat_toNat]

@[simp] theorem expect_i32 (v : UInt32) (hs : Stops rest) :
    expect unsigned err (9 :: (u32AsI32 v ++ rest)) = .ok (v, rest) := by
  have hlo := v.toInt32.le_toInt
  have hhi := v.toInt32.toInt_lt
  apply expect_apply
  rw [unsigned, u32AsI32, num_cons_of_isSpace isSpace_tab,
    Scan.num_intText (by omega) (by omega) hs]
  simp [ofInt_toInt32]

@[simp] theorem policyField_i32 (read : Nat) (v : UInt32) (hs : Stops rest) :
    policyField place read (9 :: (u32AsI32 v ++ rest)) = .ok (v, rest) := expect_i32 _ v hs

@[simp] theorem expect_octets (data : Bytes) (hs : Stops rest) :
    expect (octets data.length) err (9 :: (octetText data ++ rest)) = .ok (data, rest) := by
  apply expect_apply
  cases data with
  | nil =>
    have hminus : octetText [] = intText (-1) := by decide
    rw [hminus, octets, List.length_nil, if_pos rfl, num_cons_of_isSpace isSpace_tab,
      Scan.num_intText (by decide) (by decide) hs]
    rfl
  | cons b data =>
    have htext : octetText (b :: data) = (b :: data).flatMap Scan.hexText := by simp [octetText]
    rw [htext, octets, if_neg (by simp), List.length_cons, Scan.octets_cons_of_isSpace isSpace_tab]
    exact Scan.octets_hexText (b :: data) rest

theorem token_tab {t : Bytes} {max : Nat} (hne : t ≠ []) (hmax : t.length ≤ max)
    (ht : ∀ b ∈ t, isSpace b = false) (hr : Ends rest) : token max (9 :: (t ++ rest)) = (some t, rest) := by
  rw [Scan.token_cons_of_isSpace isSpace_tab, Scan.token_append hne hmax ht hr]

end

theorem readName_tab {name : Bytes} (hname : Scan.Dense name) (hne : name ≠ []) (rest : Bytes) :
    readName place name.length (9 :: (name ++ rest)) = .ok (name, rest) := by
  unfold readName
  rw [Scan.skip_cons_of_isSpace isSpace_tab, skip_eq_self (Scan.dense_append rest hname hne)]
  simp

theorem recordEnd_end (rest : Bytes) : recordEnd place (59 :: 10 :: rest) = .ok ([], rest) := rfl

theorem scan_tag (tag rest : Bytes) (err : LoadError) (hne : tag ≠ []) (hlen : tag.length ≤ 99)
    (hspace : ∀ b ∈ tag, isSpace b = false) (hr : Ends rest) : atEof (tag ++ rest) = .ok (false, tag ++ rest) ∧
      expect (token 99) err (tag ++ rest) = .ok (tag, rest) := by
  refine ⟨?_, expect_apply (Scan.token_append hne hlen hspace hr) err⟩
  rw [atEof, skip_eq_self (Scan.dense_append _ (fun b hb => hspace b (List.mem_of_mem_head? hb)) hne)]
  simp [hne]

theorem atEof_tab_natText (n : Nat) (rest : Bytes) :
    atEof (9 :: (natText n ++ rest)) = .ok (false, skip (9 :: (natText n ++ rest))) := by
  rw [atEof, Scan.skip_cons_of_isSpace isSpace_tab, skip_eq_self (Scan.dense_natText n rest)]
  simp [Scan.natText_ne_nil]

/-! ## Tagged data and keys -/

theorem reads_tlDatum (t : TlData) (ht : t.data.length < 2 ^ 16) : ReadsBefore (tlDatum place) (tlItem t) t := by
  intro rest hrest
  have hlo := t.kind.toInt16.le_toInt
  have hhi := t.kind.toInt16.toInt_lt
  have hlen : (UInt32.ofNat t.data.length).toNat = t.data.length := by
    rw [UInt32.toNat_ofNat']
    omega
  have hkind : ¬ (¬ (-2 ^ 15 ≤ t.kind.toInt16.toInt ∧ t.kind.toInt16.toInt < 2 ^ 15) ∨
      2 ^ 16 ≤ t.data.length) := by omega
  simp only [tlItem, tlDatum, bind_apply, List.append_assoc, List.cons_append, List.nil_append,
    expect_i16, expect_len, ht, stops_cons, isDigit_tab, ofInt_natCast, hlen, if_neg hkind,
    expect_octets, hrest, pure_apply]
  simp

theorem reads_tlData (l : List TlData) (h : ∀ t ∈ l, t.data.length < 2 ^ 16) :
    ReadsBefore (tlData place l.length) (l.flatMap tlItem) l :=
  ReadsBefore.times isDigit_tab _ l fun t ht => reads_tlDatum place t (h t ht)

theorem flatMap_tab {α : Type} (l : List α) (text : α → Bytes) :
    9 :: l.flatMap (fun a => text a ++ [9]) = l.flatMap (fun a => 9 :: text a) ++ [9] := by
  induction l with
  | nil => rfl
  | cons a l ih =>
    simp only [List.flatMap_cons, List.append_assoc, List.cons_append, List.nil_append]
    rw [ih]

def fieldText (field : Int16 × Bytes) : Bytes :=
  intText field.1.toInt ++ 9 :: natText field.2.length ++ 9 :: octetText field.2

def keyText (key : KeyData) : Bytes :=
  intText key.ver.toInt16.toInt ++ 9 :: natText key.kvno.toNat ++ key.fields.flatMap fun f => 9 :: fieldText f

theorem keyItem_eq (key : KeyData) : keyItem key = keyText key ++ [9] := by
  have hfield : keyField = fun f => fieldText f ++ [9] := by
    funext f
    simp [keyField, fieldText]
  have htab := flatMap_tab key.fields fieldText
  simp only [keyItem, keyText, hfield, List.append_assoc, List.cons_append, List.nil_append, htab]

theorem tab_keyItems (keys : List KeyData) (rest : Bytes) :
    9 :: (keys.flatMap keyItem ++ rest) = (keys.flatMap fun k => 9 :: keyText k) ++ 9 :: rest := by
  rw [funext keyItem_eq, ← List.cons_append, flatMap_tab, List.append_assoc]
  rfl

theorem reads_keyDataField (field : Int16 × Bytes) (h : field.2.length < 2 ^ 16) :
    ReadsBefore (keyDataField place) (9 :: fieldText field) field := by
  intro rest hrest
  have hlen : ¬ ¬ ((0 : Int) ≤ field.2.length ∧ (field.2.length : Int) < 2 ^ 16) := by omega
  simp only [fieldText, keyDataField, bind_apply, List.append_assoc, List.cons_append, expect_i16,
    expect_len, h, stops_cons, isDigit_tab, if_neg hlen, Int.toNat_natCast, expect_octets, hrest, pure_apply]
  simp

structure WellFormedKey (key : KeyData) : Prop where
  ver : key.ver = 1 ∨ key.ver = 2
  fields : key.fields.length = key.ver.toNat
  lengths : ∀ f ∈ key.fields, f.2.length < 2 ^ 16

theorem WellFormedKey.version (h : WellFormedKey key) :
    key.ver.toInt16.toInt ≤ 2 ∧ key.ver.toInt16.toInt.toNat = key.fields.length ∧
      UInt16.ofInt key.ver.toInt16.toInt = key.ver := by
  rw [h.fields]
  rcases h.ver with hv | hv <;> rw [hv] <;> decide

theorem reads_keyDatum (key : KeyData) (h : WellFormedKey key) :
    ReadsBefore (keyDatum place) (9 :: keyText key) key := by
  intro rest hrest
  obtain ⟨hver, hcount, hback⟩ := h.version
  have hkvno := key.kvno.toNat_lt
  have hrange : ¬ ¬ ((0 : Int) ≤ key.kvno.toNat ∧ (key.kvno.toNat : Int) < 2 ^ 16) := by omega
  have hkback : UInt16.ofInt (key.kvno.toNat : Int) = key.kvno := by
    apply UInt16.toNat_inj.mp
    simp [UInt16.ofInt]
    omega
  have hfields := ReadsBefore.times isDigit_tab fieldText key.fields
    (fun f hf => reads_keyDataField place f (h.lengths f hf)) rest hrest
  have hstop := stops_flatMap isDigit_tab fieldText key.fields hrest
  simp only [keyText, keyDatum, bind_apply, List.append_assoc, List.cons_append, expect_i16,
    expect_len, hkvno, stops_cons, isDigit_tab, hstop, if_neg (Int.not_lt.mpr hver), if_neg hrange, hcount,
    hfields, hback, hkback, pure_apply]

/-! ## What the database encoding accepts -/

theorem lt_of_len16 {message : String} {v : UInt16} (h : Codec.len16 n message = .ok v) : n < 2 ^ 16 := by
  unfold Codec.len16 at h
  split at h
  · assumption
  · cases h

theorem wellFormedKey_of_keyData {bytes : Bytes} (h : Codec.keyData key = .ok bytes) : WellFormedKey key := by
  unfold Codec.keyData at h
  split at h
  · cases h
  rename_i hver
  simp only [not_or, Decidable.not_not] at hver
  obtain ⟨fields, hfields, -⟩ := bind_eq_ok.mp h
  refine ⟨?_, hver.2.1.symm, ?_⟩
  · have hcases : key.ver.toNat = 1 ∨ key.ver.toNat = 2 := by omega
    exact hcases.imp (fun hk => UInt16.toNat_inj.mp hk) (fun hk => UInt16.toNat_inj.mp hk)
  · intro f hf
    obtain ⟨b, hb⟩ := Wire.exists_of_mapM hfields f hf
    obtain ⟨len, hlen, -⟩ := bind_eq_ok.mp hb
    exact lt_of_len16 hlen

theorem sizes_of_encode [Alphabet] {e : MitEntry} {kv : Bytes × Bytes} (h : e.encode = .ok kv) :
    e.tlData.length < 2 ^ 16 ∧ (∀ t ∈ e.tlData, t.data.length < 2 ^ 16) ∧
      ∀ key ∈ e.keyData, WellFormedKey key := by
  obtain ⟨tlCount, hcount, h⟩ := bind_eq_ok.mp h
  obtain ⟨keyCount, -, h⟩ := bind_eq_ok.mp h
  obtain ⟨tl, htl, h⟩ := bind_eq_ok.mp h
  obtain ⟨keys, hkeys, -⟩ := bind_eq_ok.mp h
  refine ⟨lt_of_len16 hcount, ?_, ?_⟩
  · intro t ht
    cases hitems : e.tlData.mapM Codec.tlItem with
    | error err => simp [Codec.tlData, hitems, Except.map] at htl
    | ok items =>
      obtain ⟨b, hb⟩ := Wire.exists_of_mapM hitems t ht
      obtain ⟨len, hlen, -⟩ := bind_eq_ok.mp hb
      exact lt_of_len16 hlen
  · intro key hkey
    obtain ⟨b, hb⟩ := Wire.exists_of_mapM hkeys key hkey
    exact wellFormedKey_of_keyData hb

/-! ## Principal records -/

section
variable [Alphabet] {e : MitEntry}

/-- The part of an entry that a dump of version `version` carries. -/
def carriedEntry (version : DumpVersion) (e : MitEntry) : MitEntry :=
  { e with
    principal := e.principal.inferred
    tlData := e.tlData.filter fun t => version ≠ .beta7 ∨ t.kind ≠ kadmData }

structure Loadable (e : MitEntry) : Prop where
  encodes : ∃ kv, e.encode = .ok kv
  named : e.principal.nameString ≠ []
  start : Scan.Dense (unparseName e.principal e.realm)
  nameLen : (unparseName e.principal e.realm).length < 2 ^ 31
  keyCount : e.keyData.length < 2 ^ 15

def principalText (e : MitEntry) (tls : List TlData) (rest : Bytes) : Bytes :=
  9 :: (natText baseLength ++ 9 :: (natText (unparseName e.principal e.realm).length ++
  9 :: (natText tls.length ++ 9 :: (natText e.keyData.length ++ 9 :: (natText 0 ++
  9 :: (unparseName e.principal e.realm ++ 9 :: (u32AsI32 e.attributes ++ 9 :: (u32AsI32 e.maxLife ++
  9 :: (u32AsI32 e.maxRenewableLife ++ 9 :: (natText e.expiration.toNat ++
  9 :: (natText e.pwExpiration.toNat ++ 9 :: (natText e.lastSuccess.toNat ++
  9 :: (natText e.lastFailed.toNat ++ 9 :: (u32AsI32 e.failAuthCount ++ (tls.flatMap tlItem ++
  ((e.keyData.flatMap fun k => 9 :: keyText k) ++ 9 :: (octetText [] ++ 59 :: 10 :: rest)))))))))))))))))

theorem principalRecord_eq (e : MitEntry) (version : DumpVersion) (rest : Bytes) : principalRecord e version ++ rest =
      ascii "princ" ++ principalText e (carriedEntry version e).tlData rest := by
  have hlist : tlList e.tlData (!decide (version ≠ .beta7)) = (carriedEntry version e).tlData.flatMap tlItem := by
    simp only [tlList, carriedEntry]
    congr 2
    by_cases hv : version = .beta7 <;> simp [hv]
  have hcount : (e.tlData.filter fun t => decide (version ≠ .beta7) = true ∨ t.kind ≠ kadmData) =
      (carriedEntry version e).tlData := by
    simp [carriedEntry]
  have hend : ascii "-1;\n" = octetText [] ++ [59, 10] := by decide
  have hzero : ascii "0" = natText 0 := by decide
  unfold principalRecord
  simp only [hlist, hcount, hend, hzero, principalText, List.append_assoc,
    List.cons_append, List.nil_append, tab_keyItems]

theorem principal_skip : principal place (skip bs) = principal place bs := by
  unfold principal
  simp only [bind_apply, expect, unsigned_skip]

theorem principal_text (h : Loadable e) {tls : List TlData}
    (htls : tls.length < 2 ^ 16) (hdata : ∀ t ∈ tls, t.data.length < 2 ^ 16)
    (hkeys : ∀ key ∈ e.keyData, WellFormedKey key) (rest : Bytes) : principal place (principalText e tls rest) =
      .ok (({ e with principal := e.principal.inferred, tlData := tls },
        place.line + 1 + (unparseName e.principal e.realm).count 10, []), rest) := by
  have hname := h.nameLen
  have hkeyCount := h.keyCount
  have hne : unparseName e.principal e.realm ≠ [] := by simp [unparseName]
  have hstops := stops_flatMap isDigit_tab keyText e.keyData
    ((stops_cons 9 (octetText [] ++ 59 :: 10 :: rest)).mpr isDigit_tab)
  have hstops' : Stops (tls.flatMap tlItem ++ _) := stops_flatMap isDigit_tab _ tls hstops
  have hsemi : Stops (59 :: 10 :: rest) := by simp; decide
  have hsmall : ¬ (2 ^ 32 - 1) / 2 < (unparseName e.principal e.realm).length := by omega
  have htl : ¬ 2 ^ 16 - 1 < tls.length := by omega
  have hkey : ¬ 2 ^ 15 - 1 < e.keyData.length := by omega
  have hzero : (UInt32.ofNat 0).toNat = ([] : Bytes).length := rfl
  have hlast : ¬ 2 ^ 16 - 1 < ([] : Bytes).length := by decide
  have hparse := parseName_unparseName e.principal e.realm h.named
  have hreadTls := fun place => reads_tlData place tls hdata _ hstops
  have hreadKeys := fun place => ReadsBefore.times isDigit_tab keyText e.keyData
    (fun key hkey => reads_keyDatum place key (hkeys key hkey)) _
    ((stops_cons 9 (octetText [] ++ 59 :: 10 :: rest)).mpr isDigit_tab)
  unfold principal principalText
  -- the sizes and their checks
  simp only [bind_apply, expect_unsigned_nat _ (show baseLength < 2 ^ 32 by decide),
    expect_unsigned_nat _ (show (unparseName e.principal e.realm).length < 2 ^ 32 by omega),
    expect_unsigned_nat _ (show tls.length < 2 ^ 32 by omega),
    expect_unsigned_nat _ (show e.keyData.length < 2 ^ 32 by omega),
    expect_unsigned_nat _ (show 0 < 2 ^ 32 by omega), stops_cons, isDigit_tab,
    UInt32.toNat_ofNat_of_lt' (show (unparseName e.principal e.realm).length < 2 ^ 32 by omega), if_neg hsmall,
    UInt32.toNat_ofNat_of_lt' (show tls.length < 2 ^ 32 by omega), if_neg htl,
    UInt32.toNat_ofNat_of_lt' (show e.keyData.length < 2 ^ 32 by omega), if_neg hkey, hzero, if_neg hlast]
  -- the name and the data
  simp only [readName_tab _ h.start hne, parseLoaded, hparse, pure_apply, expect_i32,
    expect_u32, stops_cons, isDigit_tab, hstops', hreadTls, hreadKeys, expect_octets, hsemi, recordEnd_end]

theorem nextRecord_principalRecord (version : DumpVersion) (place : Place) (h : Loadable e) (rest : Bytes) :
    nextRecord version place (principalRecord e version ++ rest) =
      .ok (some (.principal (carriedEntry version e),
        place.line + 1 + (unparseName e.principal e.realm).count 10, []), rest) := by
  obtain ⟨kv, hkv⟩ := h.encodes
  obtain ⟨hcount, hdata, hkeys⟩ := sizes_of_encode hkv
  have htls : (carriedEntry version e).tlData.length < 2 ^ 16 :=
    Nat.lt_of_le_of_lt (List.length_filter_le ..) hcount
  have hread := principal_text place h htls (fun t ht => hdata t (List.mem_of_mem_filter ht)) hkeys rest
  rw [principalRecord_eq]
  obtain ⟨heof, htoken⟩ := scan_tag (ascii "princ") (principalText e (carriedEntry version e).tlData rest)
    (place.fail "") (by decide) (by decide) (by decide +kernel) (by simp [principalText])
  have hmore : atEof (principalText e (carriedEntry version e).tlData rest) =
      .ok (false, skip (principalText e (carriedEntry version e).tlData rest)) := atEof_tab_natText _ _
  unfold nextRecord
  simp only [bind_apply, heof, htoken, Bool.false_eq_true, if_false, if_true, hmore, principal_skip, hread,
    pure_apply]
  rfl

end

/-! ## Policy records -/

def carriedPolicy (version : DumpVersion) (p : MitPolicy) : MitPolicy :=
  let p := if version = .r18 ∨ version = .r111 then p
    else { p with pwMaxFail := 0, pwFailcntInterval := 0, pwLockoutDuration := 0 }
  if version = .r111 then p
  else { p with attributes := 0, maxLife := 0, maxRenewableLife := 0, allowedKeysalts := none, tlData := [] }

def Word (bs : Bytes) : Prop := bs ≠ [] ∧ ∀ b ∈ bs, isSpace b = false

def PlainPolicy (p : MitPolicy) : Prop :=
  Word p.name.bytes ∧ ∀ s ∈ p.allowedKeysalts, Word s.bytes

structure LoadablePolicy (version : DumpVersion) (p : MitPolicy) : Prop where
  plain : PlainPolicy p
  nameLen : p.name.bytes.length ≤ 1023
  keysalts : version = .r111 → ∀ s ∈ p.allowedKeysalts, s.bytes ≠ ascii "-" ∧ s.bytes.length ≤ maxAllowedKsLen
  tlCount : version = .r111 → p.tlData.length < 2 ^ 15
  tlData : version = .r111 → ∀ t ∈ p.tlData, t.data.length < 2 ^ 16

def extraText (p : MitPolicy) (rest : Bytes) : Bytes :=
  9 :: (u32AsI32 p.attributes ++ 9 :: (u32AsI32 p.maxLife ++ 9 :: (u32AsI32 p.maxRenewableLife ++
  9 :: (keysaltsText p ++ 9 :: (natText p.tlData.length ++ (p.tlData.flatMap tlItem ++ rest))))))

def lockoutText (p : MitPolicy) (rest : Bytes) : Bytes :=
  9 :: (u32AsI32 p.pwMaxFail ++ 9 :: (u32AsI32 p.pwFailcntInterval ++ 9 :: (u32AsI32 p.pwLockoutDuration ++ rest)))

def policyFieldsText (p : MitPolicy) (rest : Bytes) : Bytes :=
  9 :: (u32AsI32 p.pwMinLife ++ 9 :: (u32AsI32 p.pwMaxLife ++ 9 :: (u32AsI32 p.pwMinLength ++
  9 :: (u32AsI32 p.pwMinClasses ++ 9 :: (u32AsI32 p.pwHistoryNum ++ 9 :: (natText 0 ++ rest))))))

def policyText (p : MitPolicy) (rest : Bytes) : Bytes := 9 :: (p.name.bytes ++ policyFieldsText p rest)

def versionText (version : DumpVersion) (p : MitPolicy) (rest : Bytes) : Bytes :=
  match version with
  | .beta7 | .r13 => rest
  | .r18 => lockoutText p rest
  | .r111 => lockoutText p (extraText p rest)

theorem policyRecord_eq (p : MitPolicy) (version : DumpVersion) (rest : Bytes) :
    policyRecord p version ++ rest = ascii "policy" ++ policyText p (versionText version p (10 :: rest)) := by
  have hzero : ascii "0" = natText 0 := by decide
  have hall : tlList p.tlData false = p.tlData.flatMap tlItem := by simp [tlList]
  unfold policyRecord
  cases version <;>
    simp only [hzero, hall, policyText, policyFieldsText, versionText, lockoutText, extraText, List.append_assoc,
      List.cons_append, List.nil_append, reduceCtorEq, or_false, or_true, if_true, if_false]

variable {p : MitPolicy} {version : DumpVersion}

theorem word_keysaltsText (h : LoadablePolicy version p) (hv : version = .r111) :
    Word (keysaltsText p) ∧ (keysaltsText p).length ≤ maxAllowedKsLen ∧
      (if keysaltsText p = ascii "-" then none else some (Utf8.lossyStr (keysaltsText p))) =
        p.allowedKeysalts := by
  unfold keysaltsText
  cases hs : p.allowedKeysalts with
  | none => exact ⟨⟨by decide, by decide +kernel⟩, by decide, by simp⟩
  | some s =>
    obtain ⟨hdash, hlen⟩ := h.keysalts hv s hs
    refine ⟨h.plain.2 s hs, hlen, ?_⟩
    simp only [if_neg hdash, Utf8.lossyStr_bytes]

theorem policyExtra_text (h : LoadablePolicy .r111 p) (q : MitPolicy) (rest : Bytes) :
    policyExtra place q (extraText p (10 :: rest)) =
      .ok ({ q with
        attributes := p.attributes, maxLife := p.maxLife, maxRenewableLife := p.maxRenewableLife
        allowedKeysalts := p.allowedKeysalts, tlData := p.tlData }, 10 :: rest) := by
  obtain ⟨hword, hlen, hback⟩ := word_keysaltsText h rfl
  have hcount := h.tlCount rfl
  have hrange : ¬ ¬ (-2 ^ 15 ≤ (p.tlData.length : Int) ∧ (p.tlData.length : Int) < 2 ^ 15) := by omega
  have hnewline : Stops (10 :: rest) := (stops_cons ..).mpr isDigit_newline
  have hstops : Stops (p.tlData.flatMap tlItem ++ 10 :: rest) :=
    stops_flatMap isDigit_tab _ p.tlData hnewline
  have hread := reads_tlData place p.tlData (h.tlData rfl) _ hnewline
  have hsalts := fun err rest => expect_apply
    (token_tab hword.1 hlen hword.2 ((ends_cons 9 rest).mpr isSpace_tab)) (err : LoadError)
  unfold policyExtra extraText
  simp only [bind_apply, policyField_i32, stops_cons, isDigit_tab, hsalts,
    expect_len _ (show p.tlData.length < 2 ^ 16 by omega), hstops, if_neg hrange, Int.toNat_natCast, hread,
    hback, pure_apply]

theorem extraText_cons (p : MitPolicy) (rest : Bytes) :
    ∃ tail, extraText p rest = 9 :: tail ∧ atEof tail = .ok (false, skip (extraText p rest)) := by
  refine ⟨_, rfl, ?_⟩
  rw [atEof, extraText, Scan.skip_cons_of_isSpace isSpace_tab, u32AsI32,
    skip_eq_self (Scan.dense_intText _ _)]
  simp [Scan.intText_ne_nil]

theorem policyExtra_skip (q : MitPolicy) (bs : Bytes) :
    policyExtra place q (skip bs) = policyExtra place q bs := by
  unfold policyExtra
  simp only [bind_apply, policyField_skip]

theorem policyR111_text (h : LoadablePolicy .r111 p) (q : MitPolicy) (rest : Bytes) :
    policyR111 place q (extraText p (10 :: rest)) =
      .ok (some { q with
        attributes := p.attributes, maxLife := p.maxLife, maxRenewableLife := p.maxRenewableLife
        allowedKeysalts := p.allowedKeysalts, tlData := p.tlData }, 10 :: rest) := by
  obtain ⟨tail, htail, hstart⟩ := extraText_cons p (10 :: rest)
  have hnext : nextByte (extraText p (10 :: rest)) = .ok (some 9, tail) := by rw [htail]; rfl
  unfold policyR111
  simp only [bind_apply, hnext, if_neg (show ¬ (9 : UInt8) = 10 by decide), hstart, Bool.false_eq_true,
    if_false, policyExtra_skip, policyExtra_text place h, pure_apply]

def basePolicy (p : MitPolicy) : MitPolicy :=
  { p with
    pwMaxFail := 0, pwFailcntInterval := 0, pwLockoutDuration := 0, attributes := 0, maxLife := 0
    maxRenewableLife := 0, allowedKeysalts := none, tlData := [] }

theorem policyBase_text (p : MitPolicy) {rest : Bytes} (hrest : Stops rest) :
    policyBase place p.name.bytes (policyFieldsText p rest) = .ok (basePolicy p, rest) := by
  have hzero : ∀ read, policyField place read (9 :: (natText 0 ++ rest)) = .ok (0, rest) :=
    fun read => expect_unsigned_nat _ (show 0 < 2 ^ 32 by decide) hrest
  unfold policyBase policyFieldsText
  simp only [bind_of_ok (policyField_i32 place _ _ (stops_tab _)), bind_of_ok (hzero _), Utf8.lossyStr_bytes]
  rfl

theorem policy_text (version : DumpVersion) (place : Place) (h : LoadablePolicy version p) (rest : Bytes) :
    policy version place (policyText p (versionText version p (10 :: rest))) =
      .ok (some (carriedPolicy version p), 10 :: rest) := by
  have hword := h.plain.1
  have hname : ∀ tail, policyName (9 :: (p.name.bytes ++ policyFieldsText p tail)) =
      .ok (some p.name.bytes, policyFieldsText p tail) := by
    intro tail
    rw [policyName, policyFieldsText, token_tab hword.1 h.nameLen hword.2 ((ends_cons 9 _).mpr isSpace_tab)]
  have hnewline : Stops (10 :: rest) := (stops_cons ..).mpr isDigit_newline
  have hmore : Stops (versionText version p (10 :: rest)) := by
    cases version <;> simp [versionText, lockoutText]
  unfold policy policyText
  simp only [bind_apply, hname, policyBase_text place p hmore]
  cases version with
  | beta7 | r13 =>
    simp only [true_or, or_true, if_true, versionText, pure_apply]
    simp [carriedPolicy, basePolicy]
  | r18 =>
    simp only [versionText, lockoutText, policyR18, bind_apply, policyField_i32, stops_cons, isDigit_tab,
      hnewline, reduceCtorEq, or_self, if_false, pure_apply, ne_eq, not_false_eq_true, if_true]
    simp [carriedPolicy, basePolicy]
  | r111 =>
    have hstops : Stops (extraText p (10 :: rest)) := by simp [extraText]
    simp only [versionText, lockoutText, policyR18, bind_apply, policyField_i32, stops_cons, isDigit_tab,
      hstops, reduceCtorEq, or_self, if_false, ne_eq, not_true_eq_false, policyR111_text place h]
    simp [carriedPolicy, basePolicy]

theorem nextRecord_policyRecord [Alphabet] (version : DumpVersion) (place : Place)
    (h : LoadablePolicy version p) (rest : Bytes) : nextRecord version place (policyRecord p version ++ rest) =
      .ok (some (.policy (carriedPolicy version p), place.line + 1, []), 10 :: rest) := by
  have hread := policy_text version { place with line := place.line + 1 } h rest
  rw [policyRecord_eq]
  obtain ⟨heof, htoken⟩ := scan_tag (ascii "policy") (policyText p (versionText version p (10 :: rest)))
    (place.fail "") (by decide) (by decide) (by decide +kernel) (by simp [policyText])
  have htag : ¬ ascii "policy" = ascii "princ" := by decide
  unfold nextRecord
  simp only [bind_apply, heof, htoken, Bool.false_eq_true, if_false, if_neg htag, if_true, hread, pure_apply]
  rfl

/-! ## Whole dumps -/

theorem readHeader_header (version : DumpVersion) (body : Bytes) (fname : String) {forced : Option DumpVersion}
    (h : ∀ v ∈ forced, v = version) : readHeader (version.header ++ body) fname forced = .ok (version, body) := by
  cases forced with
  | none => cases version <;> rfl
  | some v =>
    obtain rfl := h v rfl
    cases v <;> rfl

section
variable [Alphabet]

/-- `bytes` is a record the loader reads as `record`, up to white space behind it. -/
def ReadsRecord (version : DumpVersion) (bytes : Bytes) (record : Record) : Prop :=
  ∀ place rest, ∃ line rest',
    nextRecord version place (bytes ++ rest) = .ok (some (record, line, []), rest') ∧
      skip rest' = skip rest

theorem nextRecord_skip (version : DumpVersion) (place : Place) (bs : Bytes) :
    nextRecord version place (skip bs) = nextRecord version place bs := by
  unfold nextRecord
  simp only [bind_apply, atEof, Scan.skip_skip]

theorem readRecordsAux_records (version : DumpVersion) (fname : String) (items : List (Bytes × Record))
    (h : ∀ item ∈ items, ReadsRecord version item.1 item.2) :
    ∀ fuel line body, items.length < fuel → skip body = skip (items.flatMap (·.1)) →
      readRecordsAux version fname fuel line [] body = .ok (items.map (·.2), []) := by
  induction items with
  | nil =>
    intro fuel line body hfuel hbody
    have hskip : nextRecord version ⟨fname, line⟩ body = .ok (none, []) := by
      rw [← nextRecord_skip, hbody]
      rfl
    cases fuel with
    | zero => simp at hfuel
    | succ fuel => rw [readRecordsAux, hskip]; rfl
  | cons item items ih =>
    intro fuel line body hfuel hbody
    obtain ⟨line', rest', hnext, hrest⟩ := h item (List.mem_cons_self ..) ⟨fname, line⟩ (items.flatMap (·.1))
    cases fuel with
    | zero => simp at hfuel
    | succ fuel =>
      have hskip : nextRecord version ⟨fname, line⟩ body = .ok (some (item.2, line', []), rest') := by
        rw [← nextRecord_skip, hbody, List.flatMap_cons, nextRecord_skip, hnext]
      have htail := ih (fun i hi => h i (List.mem_cons_of_mem _ hi)) fuel line' rest'
        (by simpa using hfuel) hrest
      rw [readRecordsAux]
      simp only [hskip, List.append_nil, htail, List.map_cons]
      rfl

def items (version : DumpVersion) (entries : List MitEntry) (policies : List MitPolicy) : List (Bytes × Record) :=
  (entries.map fun e => (principalRecord e version, .principal (carriedEntry version e))) ++
    policies.map fun p => (policyRecord p version, .policy (carriedPolicy version p))

theorem writeDump_eq (version : DumpVersion) (entries : List MitEntry) (policies : List MitPolicy) :
    writeDump version entries policies = version.header ++ (items version entries policies).flatMap (·.1) := by
  simp [writeDump, items, List.flatMap_map, List.flatMap_append]

variable {policies : List MitPolicy} {entries : List MitEntry}

theorem readsRecord_items (he : ∀ e ∈ entries, Loadable e) (hp : ∀ p ∈ policies, LoadablePolicy version p) :
    ∀ item ∈ items version entries policies, ReadsRecord version item.1 item.2 := by
  intro item hitem place rest
  rcases List.mem_append.mp hitem with hitem | hitem
  · obtain ⟨e, hmem, rfl⟩ := List.mem_map.mp hitem
    exact ⟨_, rest, nextRecord_principalRecord version place (he e hmem) rest, rfl⟩
  · obtain ⟨p, hmem, rfl⟩ := List.mem_map.mp hitem
    exact ⟨_, 10 :: rest, nextRecord_policyRecord version place (hp p hmem) rest,
      Scan.skip_cons_of_isSpace isSpace_newline rest⟩

theorem length_items_le (version : DumpVersion) (entries : List MitEntry) (policies : List MitPolicy) :
    (items version entries policies).length ≤ ((items version entries policies).flatMap (·.1)).length := by
  have hpos : ∀ item ∈ items version entries policies, 1 ≤ item.1.length := by
    intro item hitem
    rcases List.mem_append.mp hitem with hitem | hitem
    · obtain ⟨e, -, rfl⟩ := List.mem_map.mp hitem
      have hlen := congrArg List.length (principalRecord_eq e version [])
      simp only [List.append_nil, List.length_append] at hlen
      exact hlen ▸ Nat.le_add_right_of_le (by decide)
    · obtain ⟨p, -, rfl⟩ := List.mem_map.mp hitem
      have hlen := congrArg List.length (policyRecord_eq p version [])
      simp only [List.append_nil, List.length_append] at hlen
      exact hlen ▸ Nat.le_add_right_of_le (by decide)
  generalize items version entries policies = l at hpos
  induction l with
  | nil => simp
  | cons item l ih =>
    have hitem := hpos item (List.mem_cons_self ..)
    have hrest := ih fun i hi => hpos i (List.mem_cons_of_mem _ hi)
    simp only [List.flatMap_cons, List.length_append, List.length_cons]
    omega

theorem readRecords_items (version : DumpVersion) (fname : String)
    (he : ∀ e ∈ entries, Loadable e) (hp : ∀ p ∈ policies, LoadablePolicy version p) :
    readRecords ((items version entries policies).flatMap (·.1)) fname version =
      .ok ((items version entries policies).map (·.2), []) :=
  readRecordsAux_records version fname _ (readsRecord_items he hp) _ 1 _
    (Nat.lt_succ_of_le (length_items_le version entries policies)) rfl

/-- A dump loads back as the entries and policies it was made of, as far as its version carries them. -/
theorem readDump_writeDump (version : DumpVersion) (entries : List MitEntry) (policies : List MitPolicy)
    (fname : String) (forced : Option DumpVersion) (hforced : ∀ v ∈ forced, v = version)
    (he : ∀ e ∈ entries, Loadable e) (hp : ∀ p ∈ policies, LoadablePolicy version p) :
    readDump (writeDump version entries policies) fname forced =
      .ok (version, entries.map (fun e => .principal (carriedEntry version e)) ++
        policies.map (fun p => .policy (carriedPolicy version p)), []) := by
  rw [readDump, writeDump_eq, readHeader_header version _ fname hforced]
  simp only [readRecords_items version fname he hp]
  simp only [items, List.map_append, List.map_map]
  rfl

end

attribute [local instance] Alphabet.ascii

def sampleEntry (component : GeneralString) : MitEntry where
  principal := ⟨1, [component]⟩
  realm := ⟨[82], rfl⟩
  attributes := 128
  maxLife := 86400
  tlData := [⟨lastPwdChange, [1, 0, 0, 0]⟩, ⟨kadmData, []⟩]
  keyData := [⟨1, 3, [(18, [255, 16])]⟩]

def samplePolicy : MitPolicy where
  name := ⟨[112], rfl⟩
  pwMaxLife := 4294967295
  pwMinLength := 8
  pwMinClasses := 2
  pwHistoryNum := 1

theorem sample_dump_loads : readDump (writeDump .r18 [sampleEntry ⟨[97], rfl⟩] [samplePolicy]) "dump" none =
      .ok (.r18, [.principal (sampleEntry ⟨[97], rfl⟩), .policy samplePolicy], []) := by
  refine readDump_writeDump .r18 [sampleEntry ⟨[97], rfl⟩] [samplePolicy] "dump" none (by simp) ?_ ?_
  · intro e he
    obtain rfl := List.mem_singleton.mp he
    exact ⟨⟨_, rfl⟩, by decide, Scan.dense_cons (b := 97) (by decide) _, by decide, by decide⟩
  · intro p hp
    obtain rfl := List.mem_singleton.mp hp
    exact ⟨⟨⟨by decide, by decide +kernel⟩, fun s hs => nomatch hs⟩, by decide, by decide, by decide, by decide⟩

/-- A leading space of the first component is skipped, and the name takes the tab behind it instead. -/
theorem dump_loses_leading_space : ∃ entries : List MitEntry, (∀ e ∈ entries, ∃ kv, e.encode = .ok kv) ∧
      readDump (writeDump .r111 entries []) "dump" none ≠
        .ok (.r111, entries.map fun e => .principal (carriedEntry .r111 e), []) := by
  refine ⟨[sampleEntry ⟨[32, 97], rfl⟩], ?_, by decide +kernel⟩
  intro e he
  obtain rfl := List.mem_singleton.mp he
  exact ⟨_, rfl⟩

end Krb5Rs.Dump
