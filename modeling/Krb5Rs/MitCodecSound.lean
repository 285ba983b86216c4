import Krb5Rs.MitCodec

/-!
# What is written is read back

`decode_encode`: a value that `encode` wrote is read back, under any key that
names a principal, as the entry without its lockout fields.
-/

namespace Krb5Rs

open Wire (Bytes Reads bind_eq_ok)
open Utf8 (Str)

namespace Codec

theorem reads_u16 (v : UInt16) : Reads getU16 (u16 v) v := by
  have h := (Wire.reads_take_of_length (StoreError.corrupt "truncated MIT klmdb record") (u16_length v)).map
    fun b => UInt16.ofNat (Wire.ofLe b)
  rw [ofLe_u16, UInt16.ofNat_toNat] at h
  exact h

theorem reads_u32 (v : UInt32) : Reads getU32 (u32 v) v := by
  have h := (Wire.reads_take_of_length (StoreError.corrupt "truncated MIT klmdb record") (u32_length v)).map
    fun b => UInt32.ofNat (Wire.ofLe b)
  rw [ofLe_u32, UInt32.ofNat_toNat] at h
  exact h

theorem len16_eq_ok {n : Nat} {message : String} {len : UInt16} (h : len16 n message = .ok len) : len.toNat = n := by
  unfold len16 at h
  split at h
  · rename_i hlt
    cases h
    exact UInt16.toNat_ofNat_of_lt' hlt
  · cases h

theorem reads_data {len : UInt16} {data : Bytes} (h : len.toNat = data.length) : Reads (take len.toNat) data data :=
  Wire.reads_take_of_length _ h.symm

theorem codes_tl (item : TlData) : Wire.Codes 4 tlItem getTl item := by
  intro bs h
  obtain ⟨len, hlen, h⟩ := bind_eq_ok.mp h
  cases h
  refine ⟨?_, by simp only [List.length_append, u16_length]; omega⟩
  exact (reads_u16 _).bind ((reads_u16 len).bind ((reads_data (len16_eq_ok hlen)).map _))

theorem codes_field (field : Int16 × Bytes) : Wire.Codes 4 keyField getField field := by
  intro bs h
  obtain ⟨len, hlen, h⟩ := bind_eq_ok.mp h
  cases h
  refine ⟨?_, by simp only [List.length_append, u16_length]; omega⟩
  exact (reads_u16 _).bind ((reads_u16 len).bind ((reads_data (len16_eq_ok hlen)).map _))

theorem writeAll_of_mapM {α : Type} {w : α → Except StoreError Bytes} {l : List α} {parts : List Bytes}
    (h : l.mapM w = .ok parts) : Wire.writeAll w l = .ok parts.flatten := by
  rw [Wire.writeAll_eq_mapM, h]
  rfl

theorem tlData_eq_writeAll (items : List TlData) : tlData items = Wire.writeAll tlItem items :=
  (Wire.writeAll_eq_mapM tlItem items).symm

theorem codes_key (key : KeyData) : Wire.Codes 4 keyData getKey key := by
  intro bs h
  unfold keyData at h
  split at h
  · cases h
  rename_i hver
  simp only [not_or, Decidable.not_not] at hver
  obtain ⟨hrange, hlen, -⟩ := hver
  obtain ⟨parts, hparts, h⟩ := bind_eq_ok.mp h
  cases h
  obtain ⟨hfields, -⟩ := Wire.codes_writeAll (fun field _ => codes_field field) _ (writeAll_of_mapM hparts)
  rw [← hlen] at hfields
  have hbody : Reads (getFields key.ver key.kvno) parts.flatten key := by
    unfold getFields
    rw [if_pos hrange]
    exact hfields.map fun fields => (⟨key.ver, key.kvno, fields⟩ : KeyData)
  refine ⟨?_, by simp only [List.length_append, u16_length]; omega⟩
  exact (reads_u16 key.ver).bind ((reads_u16 key.kvno).bind hbody)

theorem reads_counted {α : Type} (what : String) {w : α → Except StoreError Bytes}
    {r : Wire.Reader StoreError α} {l : List α} {count : UInt16} {bs : Bytes} (hcodes : ∀ a, Wire.Codes 4 w r a)
    (hcount : count.toNat = l.length) (h : Wire.writeAll w l = .ok bs) : Reads (counted what r count) bs l := by
  obtain ⟨hread, hlen⟩ := Wire.codes_writeAll (fun a _ => hcodes a) bs h
  intro rest
  have henough : ¬ (bs ++ rest).length / 4 < count.toNat := by
    rw [List.length_append, hcount]
    omega
  show (if (bs ++ rest).length / 4 < count.toNat then _ else Wire.times r count.toNat) (bs ++ rest) = _
  rw [if_neg henough, hcount]
  exact hread rest

end Codec

section
variable [Alphabet]

def MitEntry.readBack (e : MitEntry) (principal : PrincipalName) (realm : Str) : MitEntry :=
  { e with principal, realm, lastSuccess := 0, lastFailed := 0, failAuthCount := 0 }

variable {e : MitEntry} {key value : Bytes} {principal : PrincipalName} {realm : Str}

theorem getEntry_name {bs rest : Bytes}
    (h : Codec.getEntry principal realm bs = .ok (e, rest)) : e.principal = principal ∧ e.realm = realm := by
  iterate 9 obtain ⟨_, _, h⟩ := bind_eq_ok.mp h
  obtain ⟨rfl, -⟩ := Prod.mk.inj (Except.ok.inj h)
  exact ⟨rfl, rfl⟩

theorem parseName_of_decode (h : MitEntry.decode key value = .ok e) : parseName key = .ok (e.principal, e.realm) := by
  obtain ⟨⟨principal, realm⟩, hname, h⟩ := bind_eq_ok.mp h
  obtain ⟨⟨read, rest⟩, hread, h⟩ := bind_eq_ok.mp h
  unfold Codec.finish at h
  split at h
  · cases h
    obtain ⟨hp, hr⟩ := getEntry_name hread
    rw [hname, hp, hr]
  · cases h

theorem reads_entry (h : e.encode = .ok (key, value)) (principal : PrincipalName) (realm : Str) :
    Reads (Codec.getEntry principal realm) value (e.readBack principal realm) := by
  obtain ⟨tlCount, htlCount, h⟩ := bind_eq_ok.mp h
  obtain ⟨keyCount, hkeyCount, h⟩ := bind_eq_ok.mp h
  obtain ⟨tl, htl, h⟩ := bind_eq_ok.mp h
  obtain ⟨keys, hkeys, h⟩ := bind_eq_ok.mp h
  obtain ⟨-, rfl⟩ := Prod.mk.inj (Except.ok.inj h)
  rw [Codec.tlData_eq_writeAll] at htl
  have htlRead := Codec.reads_counted "tl-data" Codec.codes_tl (Codec.len16_eq_ok htlCount) htl
  have hkeyRead := Codec.reads_counted "key-data" Codec.codes_key (Codec.len16_eq_ok hkeyCount)
    (Codec.writeAll_of_mapM hkeys)
  exact (Codec.reads_u32 _).bind ((Codec.reads_u32 _).bind ((Codec.reads_u32 _).bind ((Codec.reads_u32 _).bind
    ((Codec.reads_u32 _).bind ((Codec.reads_u16 _).bind ((Codec.reads_u16 _).bind
    (htlRead.bind (hkeyRead.map _))))))))

theorem decode_encode {key' : Bytes}
    (h : e.encode = .ok (key', value)) (hname : parseName key = .ok (principal, realm)) :
    MitEntry.decode key value = .ok (e.readBack principal realm) := by
  have hall := reads_entry h principal realm []
  rw [List.append_nil] at hall
  exact bind_eq_ok.mpr ⟨_, hname, bind_eq_ok.mpr ⟨_, hall, rfl⟩⟩

end

end Krb5Rs
