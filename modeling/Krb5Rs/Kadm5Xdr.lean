import Krb5Rs.Kadmind
import Krb5Rs.Rpc

/-!
# Principal records on the wire

`PrincipalEnt::encode` and `decode` of `kadm5.rs`, over the XDR primitives of
the RPC layer.
-/

namespace Krb5Rs

open Wire (Bytes Reads Reader fail bind_of_ok)
open Xdr (readU32 u32 varOpaque)

structure PrincipalEntRec extends PrincipalEnt where
  lastPwdChange : UInt32
  modName : Option Bytes
  modDate : UInt32
  kvno : UInt32
  mkvno : UInt32
  auxAttributes : Int32
  lastSuccess : UInt32
  lastFailed : UInt32

/-! ## Writing -/

namespace Xdr

def i32 (v : Int32) : Bytes := u32 v.toUInt32

def bool (v : Bool) : Bytes := u32 (if v then 1 else 0)

end Xdr

namespace Kadm5

def writeNullstring : Option Bytes → Bytes
  | none => u32 0
  | some s => varOpaque (s ++ [0])

def writeTl (t : TlData) : Bytes := Xdr.bool true ++ (Xdr.i32 t.kind.toInt16.toInt32 ++ varOpaque t.data)

def writeTlList (tl : List TlData) : Bytes :=
  Xdr.bool tl.isEmpty ++ if tl.isEmpty then [] else tl.flatMap writeTl ++ Xdr.bool false

def lenI32 (n : Nat) : Int32 := Int32.ofNat (min n (2 ^ 31 - 1))

def writeModName (modName : Option Bytes) : Bytes :=
  Xdr.bool modName.isNone ++ if modName.isNone then [] else writeNullstring modName

def writeKey (k : UInt16 × UInt16 × Int16 × Int16) : Bytes :=
  Xdr.i32 k.1.toInt16.toInt32 ++ (u32 k.2.1.toUInt32 ++
    (Xdr.i32 k.2.2.1.toInt32 ++ if 1 < k.1 then Xdr.i32 k.2.2.2.toInt32 else []))

def writeKeys (keys : List (UInt16 × UInt16 × Int16 × Int16)) : Bytes :=
  u32 (UInt32.ofNat (min keys.length (2 ^ 32 - 1))) ++ keys.flatMap writeKey

def encode (e : PrincipalEntRec) : Bytes :=
  writeNullstring e.principal ++ u32 e.princExpireTime ++ u32 e.lastPwdChange ++ u32 e.pwExpiration ++
    u32 e.maxLife ++ writeModName e.modName ++ u32 e.modDate ++ u32 e.attributes ++ u32 e.kvno ++
    u32 e.mkvno ++ writeNullstring e.policy ++ Xdr.i32 e.auxAttributes ++ u32 e.maxRenewableLife ++
    u32 e.lastSuccess ++ u32 e.lastFailed ++ u32 e.failAuthCount ++ Xdr.i32 (lenI32 e.keyData.length) ++
    Xdr.i32 (lenI32 e.tlData.length) ++ writeTlList e.tlData ++ writeKeys e.keyData

end Kadm5

/-! ## Reading -/

namespace Xdr

def readI32 : Reader String Int32 := do
  let v ← readU32
  pure v.toInt32

def readBool : Reader String Bool := do
  let v ← readU32
  if v = 0 then pure false else if v = 1 then pure true else fail "bad bool"

end Xdr

namespace Kadm5

def cString (bytes : Bytes) : Reader String (Option Bytes) :=
  if bytes.getLast? ≠ some 0 ∨ 0 ∈ bytes.dropLast then fail "not a C string"
  else if Utf8.valid bytes.dropLast then pure (some bytes.dropLast) else fail "not UTF-8"

def readNullstring : Reader String (Option Bytes) := do
  let size ← readU32
  if size = 0 then pure none
  else do
    let bytes ← Xdr.readFixed size.toNat
    cString bytes

def readI16 : Reader String Int16 := do
  let v ← Xdr.readI32
  if -2 ^ 15 ≤ v.toInt ∧ v.toInt < 2 ^ 15 then pure v.toInt16 else fail "int16"

def readTl : Reader String TlData := do
  let kind ← readI16
  let data ← Xdr.readOpaque
  pure ⟨kind.toUInt16, data⟩

/-- The loop of `read_tl_list`; every item takes bytes, so that their number bounds the rounds. -/
def readTls : Nat → Reader String (List TlData)
  | 0 => fail "truncated"
  | fuel + 1 => do
    let more ← Xdr.readBool
    if more then do
      let t ← readTl
      let ts ← readTls fuel
      pure (t :: ts)
    else pure []

def readTlList : Reader String (List TlData) := do
  let null ← Xdr.readBool
  if null then pure []
  else do
    let n ← Wire.remaining
    readTls (n + 1)

def readCount : Reader String Nat := do
  let n ← readU32
  let left ← Wire.remaining
  if left / 4 < n.toNat then fail "array length" else pure n.toNat

def readKvno : Reader String UInt16 := do
  let v ← readU32
  if v.toNat < 2 ^ 16 then pure v.toUInt16 else fail "ui_2"

def readKey : Reader String (UInt16 × UInt16 × Int16 × Int16) := do
  let ver ← readI16
  let kvno ← readKvno
  let t0 ← readI16
  let t1 ← if 1 < ver then readI16 else pure 0
  pure (ver.toUInt16, kvno, t0, t1)

def readKeys : Reader String (List (UInt16 × UInt16 × Int16 × Int16)) := do
  let n ← readCount
  Wire.times readKey n

def readModName : Reader String (Option Bytes) := do
  let null ← Xdr.readBool
  if null then pure none else readNullstring

def readKeyCount : Reader String Int16 := do
  let n ← readI16
  if n.toInt < 0 then fail "n_key_data" else pure n

def decode : Reader String PrincipalEntRec := do
  let principal ← readNullstring
  let princExpireTime ← readU32
  let lastPwdChange ← readU32
  let pwExpiration ← readU32
  let maxLife ← readU32
  let modName ← readModName
  let modDate ← readU32
  let attributes ← readU32
  let kvno ← readU32
  let mkvno ← readU32
  let policy ← readNullstring
  let auxAttributes ← Xdr.readI32
  let maxRenewableLife ← readU32
  let lastSuccess ← readU32
  let lastFailed ← readU32
  let failAuthCount ← readU32
  let nKeyData ← readKeyCount
  let _ ← readI16
  let tlData ← readTlList
  let keyData ← readKeys
  if keyData.length ≠ nKeyData.toInt.toNat then fail "key_data count"
  else pure ⟨⟨principal, princExpireTime, pwExpiration, maxLife, attributes, policy, maxRenewableLife, failAuthCount,
    tlData, keyData⟩, lastPwdChange, modName, modDate, kvno, mkvno, auxAttributes, lastSuccess, lastFailed⟩

end Kadm5

/-! ## Primitives -/

namespace Xdr

theorem reads_u32 (v : UInt32) : Reads readU32 (u32 v) v := by
  have := (Wire.reads_take_of_length "truncated" (Wire.be_length 4 v.toNat)).map fun b => UInt32.ofNat (Wire.ofBe b)
  rwa [Wire.ofBe_be 4 _ v.toNat_lt, UInt32.ofNat_toNat] at this

theorem reads_i32 (v : Int32) : Reads readI32 (i32 v) v := by
  have := (reads_u32 v.toUInt32).map (·.toInt32)
  rwa [Int32.toInt32_toUInt32] at this

theorem reads_bool (v : Bool) : Reads readBool (bool v) v := by
  intro rest
  cases v
  · exact bind_of_ok (reads_u32 0 rest) _
  · exact bind_of_ok (reads_u32 1 rest) _

theorem reads_fixed (v : Bytes) : Reads (readFixed v.length) (fixed v) v :=
  (Wire.reads_take "truncated" v).bind
    ((Wire.reads_take_of_length "truncated" List.length_replicate).map fun _ => v)

theorem toNat_length {v : Bytes} (h : v.length < 2 ^ 32) :
    (UInt32.ofNat (min v.length (2 ^ 32 - 1))).toNat = v.length := by
  rw [Nat.min_eq_left (by omega), UInt32.toNat_ofNat_of_lt' h]

theorem reads_varOpaque {v : Bytes} (h : v.length < 2 ^ 32) : Reads readOpaque (varOpaque v) v := by
  refine (reads_u32 _).bind ?_
  rw [toNat_length h, if_neg (by omega)]
  exact reads_fixed v

end Xdr

/-! ## Fields -/

namespace Kadm5

variable {s : Option Bytes} {tl : List TlData}

theorem reads_nullstring (h : ∀ b ∈ s, 0 ∉ b ∧ Utf8.valid b ∧ b.length < 2 ^ 32 - 1) :
    Reads readNullstring (writeNullstring s) s := by
  cases s with
  | none => exact fun rest => bind_of_ok (Xdr.reads_u32 0 rest) _
  | some b =>
    obtain ⟨hnul, hutf8, hlen⟩ := h b rfl
    have hlt : (b ++ [0]).length < 2 ^ 32 := by
      rw [List.length_append, List.length_singleton]
      omega
    refine (Xdr.reads_u32 _).bind ?_
    rw [if_neg, Xdr.toNat_length hlt]
    · have hstring : Reads (cString (b ++ [0])) [] (some b) := fun rest => by simp [cString, hnul, hutf8]
      have hfixed := (Xdr.reads_fixed (b ++ [0])).bind hstring
      rwa [List.append_nil] at hfixed
    · intro h0
      have := congrArg UInt32.toNat h0
      rw [Xdr.toNat_length hlt, List.length_append] at this
      simp at this

theorem reads_i16 (v : Int16) : Reads readI16 (Xdr.i32 v.toInt32) v := by
  intro rest
  have hlo := v.le_toInt
  have hhi := v.toInt_lt
  refine (bind_of_ok (Xdr.reads_i32 v.toInt32 rest) _).trans ?_
  rw [Int16.toInt_toInt32, if_pos ⟨hlo, hhi⟩]
  simp

theorem reads_tl {t : TlData} (h : t.data.length < 2 ^ 32) :
    Reads readTl (Xdr.i32 t.kind.toInt16.toInt32 ++ varOpaque t.data) t :=
  (reads_i16 _).bind ((Xdr.reads_varOpaque h).map fun data : Bytes => (⟨t.kind, data⟩ : TlData))

theorem reads_tls (h : ∀ t ∈ tl, t.data.length < 2 ^ 32) {fuel : Nat} (hfuel : tl.length < fuel) :
    Reads (readTls fuel) (tl.flatMap writeTl ++ Xdr.bool false) tl := by
  induction tl generalizing fuel with
  | nil =>
    obtain ⟨fuel, rfl⟩ := Nat.exists_eq_add_one.mpr hfuel
    exact fun rest => bind_of_ok (Xdr.reads_bool false rest) _
  | cons t tl ih =>
    obtain ⟨ht, htl⟩ := List.forall_mem_cons.mp h
    obtain ⟨fuel, rfl⟩ := Nat.exists_eq_add_one.mpr (Nat.zero_lt_of_lt hfuel)
    rw [List.flatMap_cons, List.append_assoc, writeTl, List.append_assoc]
    exact (Xdr.reads_bool true).bind ((reads_tl ht).bind ((ih htl (Nat.lt_of_succ_lt_succ hfuel)).map (t :: ·)))

theorem reads_tlList (h : ∀ t ∈ tl, t.data.length < 2 ^ 32) : Reads readTlList (writeTlList tl) tl := by
  refine (Xdr.reads_bool _).bind ?_
  cases htl : tl.isEmpty with
  | true =>
    rw [List.isEmpty_iff.mp htl]
    exact Wire.reads_pure []
  | false =>
    intro rest
    refine (bind_of_ok rfl _).trans (reads_tls h ?_ rest)
    have hne : ∀ t ∈ tl, writeTl t ≠ [] := fun t _ => List.append_ne_nil_of_left_ne_nil (by decide) _
    have := Wire.length_le_flatMap hne
    simp only [Bool.false_eq_true, if_false, List.length_append]
    omega

theorem reads_kvno (v : UInt16) : Reads readKvno (u32 v.toUInt32) v := by
  intro rest
  refine (bind_of_ok (Xdr.reads_u32 v.toUInt32 rest) _).trans ?_
  rw [UInt16.toNat_toUInt32, if_pos v.toNat_lt, UInt16.toUInt16_toUInt32]
  rfl

theorem reads_key {k : UInt16 × UInt16 × Int16 × Int16} (h : k.1 = 1 ∧ k.2.2.2 = 0 ∨ k.1 = 2) :
    Reads readKey (writeKey k) k := by
  obtain ⟨ver, kvno, t0, t1⟩ := k
  refine (reads_i16 _).bind ((reads_kvno kvno).bind ((reads_i16 t0).bind ?_))
  rcases h with ⟨rfl, rfl⟩ | rfl
  · exact Wire.reads_pure _
  · exact (reads_i16 t1).map fun t => (2, kvno, t0, t)

theorem length_flatMap_writeKey (keys : List (UInt16 × UInt16 × Int16 × Int16)) :
    4 * keys.length ≤ (keys.flatMap writeKey).length := by
  induction keys with
  | nil => exact Nat.zero_le _
  | cons k keys ih =>
    simp only [List.flatMap_cons, List.length_append, List.length_cons, writeKey, Xdr.i32, u32, Wire.be_length]
    omega

theorem reads_keys {keys : List (UInt16 × UInt16 × Int16 × Int16)} (hlen : keys.length ≤ 32767)
    (h : ∀ k ∈ keys, k.1 = 1 ∧ k.2.2.2 = 0 ∨ k.1 = 2) : Reads readKeys (writeKeys keys) keys := by
  have hcount : (UInt32.ofNat (min keys.length (2 ^ 32 - 1))).toNat = keys.length := by
    rw [Nat.min_eq_left (by omega)]
    exact UInt32.toNat_ofNat_of_lt' (Nat.lt_of_le_of_lt hlen (by decide))
  have hroom := length_flatMap_writeKey keys
  intro rest
  have hread : readCount (writeKeys keys ++ rest) = .ok (keys.length, keys.flatMap writeKey ++ rest) := by
    rw [writeKeys, List.append_assoc]
    refine (bind_of_ok (Xdr.reads_u32 _ _) _).trans ((bind_of_ok rfl _).trans ?_)
    rw [hcount, if_neg, Wire.pure_apply]
    rw [List.length_append]
    omega
  exact (bind_of_ok hread _).trans (Wire.reads_times writeKey keys (fun k hk => reads_key (h k hk)) rest)

theorem reads_modName (h : ∀ b ∈ s, 0 ∉ b ∧ Utf8.valid b ∧ b.length < 2 ^ 32 - 1) :
    Reads readModName (writeModName s) s := by
  refine (Xdr.reads_bool _).bind ?_
  cases s with
  | none => exact Wire.reads_pure none
  | some b => exact reads_nullstring h

/-! ## Records -/

theorem toInt32_lenI32 {n : Nat} (h : n ≤ 32767) : lenI32 n = (Int16.ofNat n).toInt32 ∧ (Int16.ofNat n).toInt = n := by
  have hn : (Int16.ofNat n).toInt = n := Int16.toInt_ofNat_of_lt (by omega)
  refine ⟨Int32.toInt_inj.mp ?_, hn⟩
  rw [lenI32, Nat.min_eq_left (by omega), Int32.toInt_ofNat_of_lt (by omega), Int16.toInt_toInt32, hn]

/-- What can be carried: C strings in UTF-8 and byte strings with 32-bit lengths, 16-bit counts, keys of version 1
without a salt or of version 2. -/
structure Carried (e : PrincipalEntRec) : Prop where
  strings : ∀ b, e.principal = some b ∨ e.modName = some b ∨ e.policy = some b →
    0 ∉ b ∧ Utf8.valid b ∧ b.length < 2 ^ 32 - 1
  tlData : ∀ t ∈ e.tlData, t.data.length < 2 ^ 32
  tlCount : e.tlData.length ≤ 32767
  keyCount : e.keyData.length ≤ 32767
  keys : ∀ k ∈ e.keyData, k.1 = 1 ∧ k.2.2.2 = 0 ∨ k.1 = 2

theorem reads_decode {e : PrincipalEntRec} (h : Carried e) : Reads decode (encode e) e := by
  have hkeys := toInt32_lenI32 h.keyCount
  have htls := toInt32_lenI32 h.tlCount
  unfold encode
  simp only [List.append_assoc]
  rw [hkeys.1, htls.1]
  refine (reads_nullstring fun b hb => h.strings b (.inl hb)).bind ((Xdr.reads_u32 _).bind ((Xdr.reads_u32 _).bind
    ((Xdr.reads_u32 _).bind ((Xdr.reads_u32 _).bind ((reads_modName fun b hb => h.strings b (.inr (.inl hb))).bind ?_)))))
  refine (Xdr.reads_u32 _).bind ((Xdr.reads_u32 _).bind ((Xdr.reads_u32 _).bind ((Xdr.reads_u32 _).bind
    ((reads_nullstring fun b hb => h.strings b (.inr (.inr hb))).bind ((Xdr.reads_i32 _).bind ?_)))))
  refine (Xdr.reads_u32 _).bind ((Xdr.reads_u32 _).bind ((Xdr.reads_u32 _).bind ((Xdr.reads_u32 _).bind ?_)))
  have hcount : Reads readKeyCount (Xdr.i32 (Int16.ofNat e.keyData.length).toInt32) (Int16.ofNat e.keyData.length) := by
    intro rest
    refine (bind_of_ok (reads_i16 _ rest) _).trans ?_
    rw [if_neg (by omega)]
    rfl
  refine hcount.bind ((reads_i16 _).bind ((reads_tlList h.tlData).bind ?_))
  intro rest
  refine (bind_of_ok (reads_keys h.keyCount h.keys rest) _).trans ?_
  rw [if_neg (by omega)]
  rfl

/-- A record that can be carried is read back, and what follows it is left unread. -/
theorem principal_read_back {e : PrincipalEntRec} (h : Carried e) (rest : Bytes) :
    decode (encode e ++ rest) = .ok (e, rest) := reads_decode h rest

def savedEntry (data : Bytes) : PrincipalEntRec :=
  ⟨⟨some [107], 1, 2, 3, 4, none, 5, 6, [⟨256, data⟩], [(1, 7, 18, 0), (2, 6, 17, 4)]⟩, 8, some [109], 9, 7, 1, 0, 10, 11⟩

theorem savedEntry_carried {data : Bytes} (h : data.length < 2 ^ 32) : Carried (savedEntry data) where
  strings := by
    rintro b (hb | hb | hb) <;> cases hb <;> decide
  tlData := by simpa [savedEntry] using h
  tlCount := by simp [savedEntry]
  keyCount := by simp [savedEntry]
  keys := by simp [savedEntry]

theorem principal_read_back_saved :
    Carried (savedEntry [1]) ∧ decode (encode (savedEntry [1]) ++ [7]) = .ok (savedEntry [1], [7]) :=
  have h := savedEntry_carried (by decide)
  ⟨h, principal_read_back h [7]⟩

theorem varOpaque_zeros {n : Nat} (hn : n + 1 = 2 ^ 32) :
    varOpaque (List.replicate (n + 1) 0) = varOpaque (List.replicate n 0) := by
  simp only [varOpaque, Xdr.fixed, List.length_replicate, List.replicate_append_replicate]
  rw [Nat.min_eq_right (by omega), Nat.min_eq_right (by omega), show (4 - (n + 1) % 4) % 4 = 0 by omega,
    show (4 - n % 4) % 4 = 1 by omega]

/-- Of 2^32 zeros one is lost: the length is written as 2^32 - 1 and the last zero is read as padding. -/
theorem long_tl_cut : ∃ n, n + 1 = 2 ^ 32 ∧
    decode (encode (savedEntry (List.replicate (n + 1) 0))) = .ok (savedEntry (List.replicate n 0), []) := by
  obtain ⟨n, hn⟩ : ∃ n, n + 1 = 2 ^ 32 := ⟨2 ^ 32 - 1, by decide⟩
  refine ⟨n, hn, ?_⟩
  have hsame : encode (savedEntry (List.replicate (n + 1) 0)) = encode (savedEntry (List.replicate n 0)) := by
    unfold encode
    congr 2
    simp only [savedEntry, writeTlList, List.flatMap_cons, writeTl, varOpaque_zeros hn, List.isEmpty_cons]
  have hcarried : Carried (savedEntry (List.replicate n 0)) :=
    savedEntry_carried (by rw [List.length_replicate]; omega)
  have := reads_decode hcarried []
  rwa [List.append_nil, ← hsame] at this

end Kadm5

end Krb5Rs
