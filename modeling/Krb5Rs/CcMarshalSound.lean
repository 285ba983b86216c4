import Krb5Rs.Ccache

/-!
# Credentials in a cache

What is written of a credential is read back, in each version: all of it but the
name types in version 1.
-/

namespace Krb5Rs

open Wire (Bytes Reader Reads bind_of_ok ofNum)
open Utf8 (Str)
open Pac (AuthData)

namespace Ccache

/-! ## Numbers and strings -/

variable (version : UInt8)

theorem reads_i16 (v : Int16) : Reads (readI16 version) (i16 version v) v := by
  have hread : Reads (readI16 version) (i16 version v)
      (UInt16.ofNat (ofNum (be version) (i16 version v))).toInt16 :=
    (Wire.reads_take_of_length CcError.format (by simp [i16])).map _
  have hnum : ofNum (be version) (i16 version v) = v.toUInt16.toNat :=
    Wire.ofNum_num _ _ _ (by have := v.toUInt16.toNat_lt; omega)
  rwa [hnum, UInt16.ofNat_toNat, Int16.toInt16_toUInt16] at hread

theorem reads_i32 (v : Int32) : Reads (readI32 version) (i32 version v) v := by
  have hread : Reads (readI32 version) (i32 version v)
      (UInt32.ofNat (ofNum (be version) (i32 version v))).toInt32 :=
    (Wire.reads_take_of_length CcError.format (by simp [i32])).map _
  have hnum : ofNum (be version) (i32 version v) = v.toUInt32.toNat :=
    Wire.ofNum_num _ _ _ (by have := v.toUInt32.toNat_lt; omega)
  rwa [hnum, UInt32.ofNat_toNat, Int32.toInt32_toUInt32] at hread

theorem reads_u32 (v : UInt32) : Reads (readU32 version) (i32 version v.toInt32) v := by
  have hread := (reads_i32 version v.toInt32).map Int32.toUInt32
  rwa [UInt32.toUInt32_toInt32] at hread

def Counted (n : Nat) : Prop := n < 2 ^ 31

variable {n : Nat} {bs : Bytes} {α : Type}

theorem Counted.toInt (h : Counted n) : (Int32.ofNat n).toInt = n := Int32.toInt_ofNat_of_lt h

theorem Counted.not_neg (h : Counted n) : ¬ Int32.ofNat n < 0 := by
  rw [Int32.lt_iff_toInt_lt, h.toInt, Int32.toInt_zero]
  omega

theorem reads_data (h : Counted bs.length) : Reads (readData version) (data version bs) bs := by
  refine (reads_i32 version _).bind ?_
  unfold takeLen
  rw [if_neg h.not_neg, h.toInt]
  exact Wire.reads_take _ _

theorem reads_checked {f : Unit → Reader CcError α} {a : α} (hn : Counted n) (hle : n ≤ bs.length)
    (hf : Reads (f ()) bs a) : Reads (checkCount (.ofNat n) >>= f) bs a := by
  intro rest
  have hcheck : checkCount (.ofNat n) (bs ++ rest) = .ok ((), bs ++ rest) := by
    unfold checkCount
    rw [bind_of_ok (show Wire.remaining (bs ++ rest) = .ok ((bs ++ rest).length, bs ++ rest) from rfl), hn.toInt,
      if_neg]
    · rfl
    · rintro (hneg | hshort)
      · exact hn.not_neg hneg
      · rw [List.length_append] at hshort
        omega
  rw [bind_of_ok hcheck]
  exact hf rest

theorem data_ne_nil (bs : Bytes) : data version bs ≠ [] := by
  intro h
  have := congrArg List.length h
  simp [data, i32] at this

/-! ## Types -/

def Narrow (type : Int32) : Prop := -2 ^ 15 ≤ type.toInt ∧ type.toInt < 2 ^ 15

theorem Narrow.widen {type : Int32} (h : Narrow type) : type.toInt16.toInt32 = type := by
  obtain ⟨hlo, hhi⟩ := h
  apply Int32.toInt_inj.mp
  rw [Int16.toInt_toInt32, Int32.toInt_toInt16, Int.bmod_eq_of_le (by omega) (by omega)]

structure ItemsFit {α : Type} (type : α → Int32) (bytes : α → Bytes) (items : List α) : Prop where
  count : Counted items.length
  types : ∀ a ∈ items, Narrow (type a)
  sizes : ∀ a ∈ items, Counted (bytes a).length

theorem reads_items {type : α → Int32} {bytes : α → Bytes} {make : Int32 → Bytes → α} {items : List α}
    (hmake : ∀ a, make (type a) (bytes a) = a) (h : ItemsFit type bytes items) (version : UInt8) :
    Reads (unmarshalItems make version) (marshalItems type bytes version items) items := by
  refine (reads_i32 version _).bind (reads_checked h.count (Wire.length_le_flatMap fun a _ => ?_) ?_)
  · exact List.append_ne_nil_of_right_ne_nil _ (data_ne_nil version _)
  · rw [h.count.toInt]
    refine Wire.reads_times _ items fun a ha => ?_
    have hitem := (reads_i16 version (type a).toInt16).bind
      (f := fun t => readData version >>= fun bytes => pure (make t.toInt32 bytes))
      ((reads_data version (h.sizes a ha)).map _)
    rwa [(h.types a ha).widen, hmake] at hitem

theorem reads_keyblock {k : EncryptionKey} (htype : Narrow k.keytype) (hsize : Counted k.keyBytes.length)
    (version : UInt8) : Reads (unmarshalKeyblock version) (marshalKeyblock version k) k := by
  have hsecond : Reads (readSecond version) (if version = 3 then i16 version k.keytype.toInt16 else []) () := by
    unfold readSecond
    split
    · exact (reads_i16 version _).map _
    · exact Wire.reads_pure ()
  unfold marshalKeyblock
  rw [List.append_assoc]
  have h := (reads_i16 version k.keytype.toInt16).bind
    (f := fun t => readSecond version >>= fun _ => readData version >>= fun key => pure (EncryptionKey.mk t.toInt32 key))
    (hsecond.bind ((reads_data version hsize).map _))
  rwa [htype.widen] at h

theorem reads_flag (b : Bool) : Reads readFlag [if b then 1 else 0] b := by
  have h := (Wire.reads_take CcError.format [if b then (1 : UInt8) else 0]).map (· != [0])
  cases b <;> exact h

theorem unmarshalLen_of_reads {r : Reader CcError α} {a : α} (h : Reads r bs a) (rest : Bytes) :
    unmarshalLen r (bs ++ rest) = .ok (a, bs.length) := by
  unfold unmarshalLen
  rw [h rest]
  simp [Except.map]

/-! ## Principals and credentials -/

section
variable [Alphabet]

structure NameFits (name : PrincipalName) (realm : Str) : Prop where
  count : Counted (name.nameString.length + 1)
  sizes : ∀ c ∈ name.nameString, Counted c.bytes.length
  realm : Counted realm.bytes.length

def kept (version : UInt8) (name : PrincipalName) : PrincipalName :=
  if version = 1 then { name with nameType := 0 } else name

theorem kept_kept (name : PrincipalName) : kept version (kept version name) = kept version name := by
  unfold kept
  split <;> rfl

variable {name : PrincipalName} {realm : Str}

theorem NameFits.kept (h : NameFits name realm) (version : UInt8) : NameFits (kept version name) realm := by
  unfold Ccache.kept
  split
  · exact ⟨h.count, h.sizes, h.realm⟩
  · exact h

theorem reads_gs {c : GeneralString} (h : Counted c.bytes.length) :
    Reads (readGs version) (data version c.bytes) c := by
  have hpure : Reads (permitted c.bytes) [] c := by
    unfold permitted
    rw [fromBytes_bytes]
    exact Wire.reads_pure c
  have hread := (reads_data version h).bind (f := permitted) hpure
  rwa [List.append_nil] at hread

theorem reads_princBody (h : NameFits name realm) (version : UInt8) (nameType n : Int32)
    (hn : n.toInt.toNat = name.nameString.length) :
    Reads (readData version >>= fun bs => Wire.times (readGs version) n.toInt.toNat >>= fun comps =>
      pure ((⟨nameType, comps⟩ : PrincipalName), Utf8.lossyStr bs))
      (data version realm.bytes ++ name.nameString.flatMap fun c => data version c.bytes)
      (⟨nameType, name.nameString⟩, realm) := by
  have hcomps := Wire.reads_times _ _ fun c hc => reads_gs version (h.sizes c hc)
  have hread := (reads_data version h.realm).bind (f := fun bs =>
    Wire.times (readGs version) name.nameString.length >>= fun comps =>
      pure ((⟨nameType, comps⟩ : PrincipalName), Utf8.lossyStr bs)) (hcomps.map _)
  rw [hn]
  rwa [Utf8.lossyStr_bytes] at hread

theorem count_le_body (name : PrincipalName) (realm : Str) (version : UInt8) : name.nameString.length + 1 ≤
      (data version realm.bytes ++ name.nameString.flatMap fun c => data version c.bytes).length := by
  have hlen : name.nameString.length ≤ (name.nameString.flatMap fun c => data version c.bytes).length :=
    Wire.length_le_flatMap fun c _ => data_ne_nil version c.bytes
  have hdata := List.length_pos_iff.mpr (data_ne_nil version realm.bytes)
  rw [List.length_append]
  omega

theorem reads_princ (h : NameFits name realm) (version : UInt8) :
    Reads (unmarshalPrinc version) (marshalPrinc version name realm) (kept version name, realm) := by
  have hlen := count_le_body name realm version
  have hcount : Counted name.nameString.length := Nat.lt_trans (Nat.lt_succ_self _) h.count
  unfold marshalPrinc unmarshalPrinc readNameType kept
  by_cases hv : version = 1
  · have hsucc : Int32.ofNat (name.nameString.length + 1) = .ofNat name.nameString.length + 1 :=
      Int32.ofNat_add _ 1
    simp only [if_pos hv, List.append_assoc, ← hsucc]
    have htype : Reads (pure 0 : Reader CcError Int32) [] 0 := Wire.reads_pure 0
    refine htype.bind ((reads_i32 version _).bind (reads_checked h.count hlen ?_))
    refine reads_princBody h version 0 _ ?_
    rw [hsucc, Int32.add_sub_cancel, hcount.toInt, Int.toNat_natCast]
  · simp only [if_neg hv, List.append_assoc]
    refine (reads_i32 version _).bind ((reads_i32 version _).bind (reads_checked hcount (Nat.le_of_succ_le hlen) ?_))
    refine reads_princBody h version _ _ ?_
    rw [hcount.toInt, Int.toNat_natCast]

structure Fits (version : UInt8) (c : CcCredential) : Prop where
  client : NameFits c.client c.crealm
  server : NameFits c.server c.srealm
  keptClient : kept version c.client = c.client
  keptServer : kept version c.server = c.server
  keytype : Narrow c.keyblock.keytype
  key : Counted c.keyblock.keyBytes.length
  addresses : ItemsFit HostAddress.addrType HostAddress.address c.addresses
  authdata : ItemsFit AuthData.adType AuthData.adData c.authdata
  ticket : Counted c.ticket.length
  secondTicket : Counted c.secondTicket.length

theorem reads_cred {version : UInt8} {c : CcCredential} (h : Fits version c) :
    Reads (unmarshalCred version) (marshalCred version c) c := by
  have hclient := reads_princ h.client version
  have hserver := reads_princ h.server version
  rw [h.keptClient] at hclient
  rw [h.keptServer] at hserver
  unfold marshalCred unmarshalCred
  simp only [List.append_assoc]
  refine hclient.bind (hserver.bind ((reads_keyblock h.keytype h.key version).bind ?_))
  refine (reads_u32 version _).bind ((reads_u32 version _).bind ((reads_u32 version _).bind ?_))
  refine (reads_u32 version _).bind ((reads_flag _).bind ((reads_u32 version _).bind ?_))
  refine (reads_items (fun _ => rfl) h.addresses version).bind
    ((reads_items (fun _ => rfl) h.authdata version).bind ?_)
  exact (reads_data version h.ticket).bind ((reads_data version h.secondTicket).map _)

theorem marshalCred_ne_nil (c : CcCredential) : marshalCred version c ≠ [] :=
  List.append_ne_nil_of_right_ne_nil _ (data_ne_nil version _)

end

end Ccache

end Krb5Rs
