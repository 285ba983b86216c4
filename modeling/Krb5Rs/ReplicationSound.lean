import Krb5Rs.Columns

/-!
# What a column holds is read back

Names and TL data read from their columns are those that were written there.
-/

namespace Krb5Rs

open Wire (Bytes Reads)
open Utf8 (Str chunk valid)

/-! ## TL data -/

variable (message : String)

theorem reads_columnU16 (v : UInt16) : Reads (columnU16 message) (Codec.u16 v) v := by
  have h := (Wire.reads_take_of_length (StoreError.corrupt message) (Codec.u16_length v)).map
    fun bytes => UInt16.ofNat (Wire.ofLe bytes)
  rw [Codec.ofLe_u16, UInt16.ofNat_toNat] at h
  exact h

theorem codes_columnTl (encoded decoded : String) (t : TlData) :
    Wire.Codes 0 (tlColumnItem encoded) (columnTl decoded) t := by
  intro bs hbs
  unfold tlColumnItem at hbs
  split at hbs
  · rename_i hlen
    cases hbs
    have hdata := (UInt16.toNat_ofNat_of_lt' hlen).symm
    refine ⟨?_, Nat.zero_le _⟩
    exact (reads_columnU16 decoded t.kind).bind ((reads_columnU16 decoded _).bind
      ((Wire.reads_take_of_length _ hdata).map fun data => (⟨t.kind, data⟩ : TlData)))
  · cases hbs

theorem tlFromColumn_tlColumn {encoded : String} (decoded : String) {tl : List TlData} {b : Option Bytes}
    (h : tlColumn encoded tl = .ok b) : tlFromColumn decoded b = .ok tl := by
  unfold tlColumn at h
  split at h
  · rename_i htl
    cases h
    rw [htl]
    rfl
  · split at h
    · cases h
    · rename_i hlen
      obtain ⟨items, hitems, hb⟩ := Wire.bind_eq_ok.mp h
      cases hb
      have hcount := UInt16.toNat_ofNat_of_lt' (Nat.lt_of_not_le hlen)
      have hne : Codec.u16 (UInt16.ofNat tl.length) ++ items ≠ [] := by
        intro hnil
        have := congrArg List.length hnil
        simp at this
      obtain ⟨hread, -⟩ := Wire.codes_writeAll (fun t _ => codes_columnTl encoded decoded t) items hitems
      rw [← hcount] at hread
      have hall := ((reads_columnU16 decoded _).bind (f := fun count => Wire.times (columnTl decoded) count.toNat)
        hread) []
      rw [List.append_nil] at hall
      change columnTls decoded _ = _ at hall
      simp only [tlFromColumn, Option.getD_some, hne, if_false, hall]
      rfl

/-! ## Versions -/

theorem ReplicationTs.fromStr_display {ts : ReplicationTs} (hlo : -2 ^ 63 ≤ ts.wallNanos)
    (hhi : ts.wallNanos < 2 ^ 63) (hlogical : ts.logical < 2 ^ 32) : fromStr ts.display = .ok ts := by
  have hdot : ∀ b ∈ Scan.intText ts.wallNanos, decide (b ≠ 46) = true := by
    have hdigits : (46 : UInt8) ∉ Scan.natText ts.wallNanos.natAbs := fun h =>
      absurd (Scan.isDigit_of_mem_natText h) (by decide)
    intro b hb
    rw [decide_eq_true_iff]
    rintro rfl
    unfold Scan.intText at hb
    split at hb
    · exact hdigits ((List.mem_cons.mp hb).resolve_left (by decide))
    · exact hdigits hb
  have hpad : Scan.zeroPad 10 ts.logical = Scan.fixed 10 ts.logical := Scan.zeroPad_eq_fixed (by decide) (by omega)
  have hwall : ts.display.takeWhile (· ≠ 46) = Scan.intText ts.wallNanos := by
    rw [display, List.takeWhile_append_of_pos hdot]
    simp
  have hrest : (ts.display.dropWhile (· ≠ 46)).drop 1 = Scan.fixed 10 ts.logical := by
    rw [display, List.dropWhile_append_of_pos hdot, hpad]
    simp
  have hparse : parseI64 (Scan.intText ts.wallNanos) = some ts.wallNanos := by
    have hnum : Scan.num (Scan.intText ts.wallNanos ++ []) = _ := Scan.num_intText hlo hhi (by simp [Scan.Stops])
    have hdense := Scan.dense_intText ts.wallNanos []
    rw [List.append_nil] at hnum hdense
    rw [parseI64, hnum]
    exact if_pos (Scan.skip_eq_self hdense)
  have hdigits : ¬ (10 < (Scan.fixed 10 ts.logical).length ∨ ¬ (Scan.fixed 10 ts.logical).all Scan.isDigit = true) := by
    simpa using fun b hb => Scan.isDigit_of_mem_fixed hb
  rw [fromStr, hwall, hrest, hparse]
  dsimp only
  rw [if_neg hdigits, Scan.fixed_length, List.replicate_zero, List.append_nil, Scan.value_fixed (by omega),
    if_pos hlogical]

/-! ## Names -/

theorem keyParts_plain {b : UInt8} (hb : ¬ (b = 92 ∨ b = 47)) (bs : Bytes) :
    keyParts (b :: bs) = (keyParts bs).map (onFirst b) := by
  obtain ⟨hescape, hslash⟩ := not_or.mp hb
  rw [keyParts.eq_def]
  exact (if_neg hescape).trans (if_neg hslash)

theorem keyParts_slash (bs : Bytes) : keyParts (47 :: bs) = (keyParts bs).map ([] :: ·) := by
  rw [keyParts.eq_def]
  rfl

theorem keyParts_component (c rest : Bytes) :
    keyParts (c.flatMap escapeKeyByte ++ rest) = (keyParts rest).map (c.foldr onFirst) := by
  induction c with
  | nil =>
    rw [List.flatMap_nil, List.nil_append]
    cases keyParts rest <;> rfl
  | cons b c ih =>
    have hstep : keyParts (escapeKeyByte b ++ (c.flatMap escapeKeyByte ++ rest)) =
        (keyParts (c.flatMap escapeKeyByte ++ rest)).map (onFirst b) := by
      by_cases hb : b = 92 ∨ b = 47
      · rw [escapeKeyByte, if_pos hb]
        rfl
      · rw [escapeKeyByte, if_neg hb]
        exact keyParts_plain hb _
    rw [List.flatMap_cons, List.append_assoc, hstep, ih]
    cases keyParts rest <;> rfl

theorem foldr_onFirst (c p : Bytes) (ps : List Bytes) : c.foldr onFirst (p :: ps) = (c ++ p) :: ps := by
  induction c with
  | nil => rfl
  | cons b c ih =>
    rw [List.foldr_cons, ih]
    rfl

theorem keyParts_intercalate {cs : List Bytes} (hne : cs ≠ []) :
    keyParts (List.intercalate [47] (cs.map fun c => c.flatMap escapeKeyByte)) = .ok cs := by
  induction cs with
  | nil => exact absurd rfl hne
  | cons c cs ih =>
    cases cs with
    | nil =>
      have h := keyParts_component c []
      simpa [keyParts, Except.map, foldr_onFirst] using h
    | cons d ds =>
      have h := keyParts_component c (47 :: List.intercalate [47] ((d :: ds).map fun c => c.flatMap escapeKeyByte))
      rw [keyParts_slash, ih (List.cons_ne_nil d ds)] at h
      simpa [List.intercalate_cons_cons, Except.map, foldr_onFirst] using h

/-- A `\` before a character that needs none. -/
def needlessEscape : Bytes → Bool
  | [] => false
  | b :: bs =>
    if b = 92 then
      match bs with
      | [] => false
      | c :: bs => (c ≠ 92 ∧ c ≠ 47) || needlessEscape bs
    else needlessEscape bs

theorem needlessEscape_append {c : Bytes} (h : (92 : UInt8) ∉ c) (rest : Bytes) :
    needlessEscape (c ++ rest) = needlessEscape rest := by
  induction c with
  | nil => rfl
  | cons b c ih =>
    rw [List.mem_cons, not_or] at h
    rw [List.cons_append, needlessEscape.eq_def]
    exact (if_neg (Ne.symm h.1)).trans (ih h.2)

theorem flatMap_escapeKeyByte {c : Bytes} (h : ∀ b ∈ c, ¬ (b = 92 ∨ b = 47)) : c.flatMap escapeKeyByte = c := by
  induction c with
  | nil => rfl
  | cons b c ih =>
    obtain ⟨hb, hc⟩ := List.forall_mem_cons.mp h
    rw [List.flatMap_cons, ih hc, escapeKeyByte, if_neg hb]
    rfl

variable {parts : List Bytes}

/-- The first character of a key, as it is written there. -/
theorem exists_character {a : UInt8} {r : Bytes} (hv : valid (a :: r) = true)
    (hn : needlessEscape (a :: r) = false) (h : keyParts (a :: r) = .ok parts) (ha : a ≠ 47) :
    ∃ c rest, a :: r = c.flatMap escapeKeyByte ++ rest ∧ rest.length ≤ r.length ∧ valid c = true ∧
      valid rest = true ∧ needlessEscape rest = false := by
  by_cases hesc : a = 92
  · subst hesc
    cases r with
    | nil => cases h
    | cons c rest =>
      have hc : (c = 92 ∨ c = 47) ∧ needlessEscape rest = false := by
        have hn : (decide (c ≠ 92 ∧ c ≠ 47) || needlessEscape rest) = false := hn
        simp only [Bool.or_eq_false_iff, decide_eq_false_iff_not] at hn
        exact ⟨by tauto, hn.2⟩
      have hlow : valid [92, c] = true := by rcases hc.1 with rfl | rfl <;> rfl
      refine ⟨[c], rest, ?_, Nat.le_succ _, ?_, ?_, hc.2⟩
      · rw [List.flatMap_singleton, escapeKeyByte, if_pos hc.1]
        rfl
      · rcases hc.1 with rfl | rfl <;> rfl
      · rw [← Utf8.valid_append [92, c] rest hlow]
        exact hv
  · obtain ⟨hchunk, -, hrest⟩ := Utf8.chunk_of_valid hv
    have hbytes : ∀ b ∈ a :: r.take (chunk a r).2, ¬ (b = 92 ∨ b = 47) := by
      intro b hb
      rcases List.mem_cons.mp hb with rfl | hb
      · exact not_or.mpr ⟨hesc, ha⟩
      · have hhigh := Utf8.chunk_high hchunk b hb
        rintro (rfl | rfl) <;> exact absurd hhigh (by decide)
    have hsplit : a :: r = a :: r.take (chunk a r).2 ++ r.drop (chunk a r).2 := by
      rw [List.cons_append, List.take_append_drop]
    refine ⟨a :: r.take (chunk a r).2, r.drop (chunk a r).2, ?_, ?_, ?_, hrest, ?_⟩
    · rw [flatMap_escapeKeyByte hbytes]
      exact hsplit
    · rw [List.length_drop]
      omega
    · rw [← List.append_nil (a :: r.take _), Utf8.valid_chunk_append hchunk]
      rfl
    · rw [hsplit, needlessEscape_append fun hm => hbytes 92 hm (.inl rfl)] at hn
      exact hn

variable {key : Bytes}

theorem eq_intercalate_of_keyParts (hv : valid key = true)
    (hn : needlessEscape key = false) (h : keyParts key = .ok parts) :
    ∃ p ps, parts = p :: ps ∧ (∀ c ∈ parts, valid c = true) ∧
      key = List.intercalate [47] (parts.map fun c => c.flatMap escapeKeyByte) := by
  induction hlen : key.length using Nat.strongRecOn generalizing key parts with
  | ind n ih =>
    cases key with
    | nil =>
      cases h
      exact ⟨[], [], rfl, by simp [valid], by simp⟩
    | cons a r =>
      rw [List.length_cons] at hlen
      by_cases ha : a = 47
      · subst ha
        rw [← List.singleton_append, Utf8.valid_append [47] r rfl] at hv
        rw [← List.singleton_append, needlessEscape_append (by decide)] at hn
        rw [keyParts_slash] at h
        cases hr : keyParts r with
        | error e =>
          rw [hr] at h
          cases h
        | ok rest =>
          rw [hr] at h
          cases h
          obtain ⟨p, ps, rfl, hall, hkey⟩ := ih r.length (by omega) hv hn hr rfl
          refine ⟨[], p :: ps, rfl, List.forall_mem_cons.mpr ⟨rfl, hall⟩, ?_⟩
          rw [List.map_cons, List.map_cons, List.intercalate_cons_cons, ← List.map_cons, ← hkey]
          rfl
      · obtain ⟨c, rest, hkey, hle, hc, hrest, hn⟩ := exists_character hv hn h ha
        rw [hkey, keyParts_component] at h
        cases hr : keyParts rest with
        | error e =>
          rw [hr] at h
          cases h
        | ok found =>
          rw [hr] at h
          cases h
          obtain ⟨p, ps, rfl, hall, hjoin⟩ := ih rest.length (by omega) hrest hn hr rfl
          obtain ⟨hp, hps⟩ := List.forall_mem_cons.mp hall
          dsimp only
          rw [foldr_onFirst]
          refine ⟨c ++ p, ps, rfl, List.forall_mem_cons.mpr ⟨(Utf8.valid_append c p hc).trans hp, hps⟩, ?_⟩
          rw [hkey, hjoin]
          cases ps <;> simp [List.intercalate_cons_cons]

section
variable [Alphabet] {name : PrincipalName} {c : GeneralString}

theorem keyComponent_eq_ok {bs : Bytes} (h : keyComponent c = .ok bs) : bs = c.bytes.flatMap escapeKeyByte := by
  unfold keyComponent at h
  split at h
  · exact (Except.ok.inj h).symm
  · cases h

theorem encodePrincipalKey_eq_ok (h : encodePrincipalKey name = .ok key) :
    key = List.intercalate [47] ((name.nameString.map (·.bytes)).map fun c => c.flatMap escapeKeyByte) := by
  unfold encodePrincipalKey at h
  cases hparts : name.nameString.mapM keyComponent with
  | error e =>
    rw [hparts] at h
    cases h
  | ok parts =>
    rw [hparts] at h
    cases h
    rw [Wire.eq_map_of_mapM (fun _ _ => keyComponent_eq_ok) hparts, List.map_map]
    rfl

theorem keyString_bytes (c : GeneralString) : keyString c.bytes = .ok c := by
  simp [keyString]

theorem decode_encodePrincipalKey (hne : name.nameString ≠ [])
    (h : encodePrincipalKey name = .ok key) : decodePrincipalKey key name.nameType = .ok name := by
  have hparts : keyParts key = .ok (name.nameString.map (·.bytes)) := by
    rw [encodePrincipalKey_eq_ok h]
    apply keyParts_intercalate
    simpa using hne
  have hstrings : (name.nameString.map (·.bytes)).mapM keyString = .ok name.nameString := by
    have h := Wire.mapM_eq_map (f := keyString ∘ GeneralString.bytes) (g := id) (l := name.nameString) fun c _ => keyString_bytes c
    rwa [List.map_id, ← List.mapM_map] at h
  exact Wire.bind_eq_ok.mpr ⟨_, hparts, Wire.bind_eq_ok.mpr ⟨_, hstrings, rfl⟩⟩

theorem encodePrincipalKey_ok (h : ∀ c ∈ name.nameString, valid c.bytes = true) : encodePrincipalKey name =
      .ok (List.intercalate [47] ((name.nameString.map (·.bytes)).map fun c => c.flatMap escapeKeyByte)) := by
  have hmap := Wire.mapM_eq_map (f := keyComponent) fun c hc => if_pos (h c hc)
  rw [encodePrincipalKey, hmap, List.map_map]
  rfl

theorem keyString_eq_ok {part : Bytes} (h : keyString part = .ok c) : c.bytes = part := by
  unfold keyString at h
  split at h
  · rename_i hs
    cases h
    exact bytes_of_fromBytes hs
  · cases h

theorem encode_decodePrincipalKey {key : Str} {nameType : Int32}
    (h : decodePrincipalKey key.bytes nameType = .ok name) (hn : needlessEscape key.bytes = false) :
    encodePrincipalKey name = .ok key.bytes := by
  obtain ⟨parts, hparts, h⟩ := Wire.bind_eq_ok.mp h
  obtain ⟨nameString, hstrings, h⟩ := Wire.bind_eq_ok.mp h
  cases h
  obtain ⟨p, ps, hne, hall, hkey⟩ := eq_intercalate_of_keyParts key.valid hn hparts
  have hbytes : nameString.map (·.bytes) = parts := by
    have hsame := List.forall₂_map_right_iff.mpr ((Wire.forall₂_of_mapM hstrings).imp fun _ _ h => (keyString_eq_ok h).symm)
    rw [List.forall₂_eq_eq_eq] at hsame
    exact hsame.symm
  rw [encodePrincipalKey_ok fun c hc => hall _ (hbytes ▸ List.mem_map_of_mem hc), hbytes, ← hkey]

/-- TL data and names are read back from their columns, a key without a needless escape is the one of
the name it is read as, and versions are read back from their texts. -/
theorem replication_encodings_exact : (∀ tl b, encodeTlData tl = .ok b → decodeTlData b = .ok tl) ∧
      (∀ name : PrincipalName, name.nameString ≠ [] → (∀ c ∈ name.nameString, valid c.bytes = true) →
        ∃ key, encodePrincipalKey name = .ok key ∧ decodePrincipalKey key name.nameType = .ok name ∧
          ∀ other : PrincipalName, other.nameString ≠ [] → encodePrincipalKey other = .ok key →
            other.nameString = name.nameString) ∧
      (∀ (key : Str) (nameType : Int32) (name : PrincipalName), decodePrincipalKey key.bytes nameType = .ok name →
        needlessEscape key.bytes = false → encodePrincipalKey name = .ok key.bytes) ∧
      ∀ ts : ReplicationTs, -2 ^ 63 ≤ ts.wallNanos → ts.wallNanos < 2 ^ 63 → ts.logical < 2 ^ 32 →
        ReplicationTs.fromStr ts.display = .ok ts := by
  refine ⟨fun tl b => tlFromColumn_tlColumn _, fun name hne hvalid => ?_, fun _ _ _ => encode_decodePrincipalKey,
    fun _ => ReplicationTs.fromStr_display⟩
  have hkey := encodePrincipalKey_ok hvalid
  refine ⟨_, hkey, decode_encodePrincipalKey hne hkey, fun other hne' hother => ?_⟩
  -- the type of the name is not part of its key
  have hsame := decode_encodePrincipalKey (show PrincipalName.nameString ⟨name.nameType, _⟩ ≠ [] from hne') hother
  rw [decode_encodePrincipalKey hne hkey] at hsame
  have hnames := congrArg PrincipalName.nameString (Except.ok.inj hsame)
  exact hnames.symm

end

section
attribute [local instance] Alphabet.ascii

def slashedComponent : PrincipalName := ⟨1, [⟨[82, 47], rfl⟩]⟩

theorem replication_encodings_exact_slash :
    (∃ key, encodePrincipalKey slashedComponent = .ok key ∧ decodePrincipalKey key 1 = .ok slashedComponent) ∧
      encodePrincipalKey slashedComponent = .ok [82, 92, 47] ∧ decodeTlData (some [1, 0, 2, 0, 1, 0, 3]) = .ok [⟨2, [3]⟩] ∧
      ReplicationTs.fromStr (ReplicationTs.display ⟨-5, 7⟩) = .ok ⟨-5, 7⟩ := by
  obtain ⟨htl, hname, hkey, hts⟩ := replication_encodings_exact
  obtain ⟨key, hencode, hdecode, -⟩ := hname slashedComponent (by decide) (by decide)
  exact ⟨⟨key, hencode, hdecode⟩, hkey ⟨[82, 92, 47], rfl⟩ 1 _ (by decide) (by decide), htl _ _ (by decide),
    hts ⟨-5, 7⟩ (by decide) (by decide) (by decide)⟩

end

/-! ## Numbers, lists and keys -/

namespace Sql

theorem toInt_ofU32 (v : UInt32) : (ofU32 v).toInt = v.toNat := by
  have hv := v.toNat_lt
  exact Int64.toInt_ofInt_of_le (by omega) (by omega)

theorem toU32_ofU32 (v : UInt32) : toU32 message (ofU32 v) = .ok v := by
  have hv := v.toNat_lt
  rw [toU32, toInt_ofU32, if_pos ⟨by omega, by omega⟩, Int.toNat_natCast, UInt32.ofNat_toNat]

theorem toI32_toInt64 (v : Int32) : toI32 message v.toInt64 = .ok v := by
  rw [toI32, Int32.toInt_toInt64, if_pos ⟨v.le_toInt, v.toInt_lt⟩, Int32.ofInt_toInt]

theorem toU64_ofNat {n : Nat} (h : n < 2 ^ 63) : toU64 message (Int64.ofInt n) = .ok (UInt64.ofNat n) := by
  rw [toU64, Int64.toInt_ofInt_of_le (by omega) (by omega), if_pos (by omega), Int.toNat_natCast]

theorem toU64_ofU64 {n : UInt64} {v : Int64} (h : ofU64 n = .ok v) : toU64 message v = .ok n := by
  unfold ofU64 at h
  split at h
  · rename_i hn
    cases h
    rw [toU64_ofNat message hn, UInt64.ofNat_toNat]
  · cases h

theorem toU64_saturate (n : UInt64) : toU64 message (saturate n) = .ok (UInt64.ofNat (min n.toNat (2 ^ 63 - 1))) :=
  toU64_ofNat message (by omega)

theorem optional_toU64 {n : Option UInt64} {v : Option Int64} (h : optional ofU64 n = .ok v) :
    optional (toU64 message) v = .ok n := by
  cases n with
  | none =>
    cases h
    rfl
  | some n =>
    cases hv : ofU64 n with
    | error e =>
      rw [optional, hv] at h
      cases h
    | ok v =>
      rw [optional, hv] at h
      cases h
      rw [optional, toU64_ofU64 message hv]
      rfl

theorem splitList_joinList {list : List Str} (hne : list ≠ [⟨[], rfl⟩]) (h : ∀ s ∈ list, (10 : UInt8) ∉ s.bytes) :
    splitList (joinList list) = list := by
  cases list with
  | nil => rfl
  | cons s list =>
    have hsplit : (joinList (s :: list)).splitOn 10 = (s :: list).map (·.bytes) := by
      apply List.splitOn_intercalate
      · intro l hl
        obtain ⟨t, ht, rfl⟩ := List.mem_map.mp hl
        exact h t ht
      · simp
    have hfull : joinList (s :: list) ≠ [] := by
      intro hnil
      rw [hnil] at hsplit
      cases list with
      | nil =>
        have hs : s.bytes = [] := by simpa using hsplit.symm
        exact hne (by rw [Utf8.Str.ext (t := ⟨[], rfl⟩) hs])
      | cons t list => simp at hsplit
    rw [splitList, if_neg hfull, hsplit, List.filterMap_map]
    simp

end Sql

theorem keyFromCols_cols (kvnoError mkvnoError : String) (k : StoredKey) :
    keyFromCols kvnoError mkvnoError k.cols = .ok k := by
  simp [keyFromCols, StoredKey.cols, Sql.toU32_ofU32, Sql.toI32_toInt64, bind, Except.bind]

def orderedKeys (keys : List StoredKey) : List StoredKey :=
  keys.insertionSort fun a b => b.kvno < a.kvno ∨ a.kvno = b.kvno ∧ a.enctype ≤ b.enctype

theorem newestFirst_cols (keys : List StoredKey) :
    newestFirst (keys.map (·.cols)) = (orderedKeys keys).map (·.cols) := by
  symm
  apply List.map_insertionSort
  intro a _ b _
  simp only [StoredKey.cols, Int64.lt_iff_toInt_lt, Int64.le_iff_toInt_le, ← Int64.toInt_inj, Sql.toInt_ofU32,
    Int32.toInt_toInt64, UInt32.lt_iff_toNat_lt, Int32.le_iff_toInt_le, ← UInt32.toNat_inj]
  omega

theorem mapM_keyFromCols (kvnoError mkvnoError : String) (keys : List StoredKey) :
    (keys.map (·.cols)).mapM (keyFromCols kvnoError mkvnoError) = .ok keys := by
  have h := Wire.mapM_eq_map (f := keyFromCols kvnoError mkvnoError ∘ StoredKey.cols) (g := id) (l := keys)
    fun k _ => keyFromCols_cols kvnoError mkvnoError k
  rwa [List.map_id, ← List.mapM_map] at h

end Krb5Rs
