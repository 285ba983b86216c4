import Krb5Rs.TlSound

/-!
# Where the keys of a merged entry come from

Key data of a merged entry is key data the entry had, or it holds a key of the
record or one the entry held before.
-/

namespace Krb5Rs

open Wire (Bytes bind_eq_ok)
open Utf8 (Str)

section
variable [Crypto] {keys : MasterKeys} {active old : EncryptionKey} {data : KeyData}

def HoldsKey (keys : MasterKeys) (data : KeyData) (key : EncryptionKey) : Prop :=
  ∃ kvno master etype blob fields, keys.get kvno = some master ∧ data.fields = (etype, blob) :: fields ∧
    decryptKey master etype.toInt32 blob = .ok key

/-- The data is old, or holds a key that is new or that old data holds. -/
def Inherits (keys : MasterKeys) (old : List KeyData) (new : EncryptionKey → Prop) (data : KeyData) : Prop :=
  data ∈ old ∨ ∃ key, HoldsKey keys data key ∧ (new key ∨ ∃ d ∈ old, HoldsKey keys d key)

theorem Inherits.imp {old : List KeyData} {new new' : EncryptionKey → Prop}
    (h : Inherits keys old new data) (himp : ∀ key, new key → new' key ∨ ∃ d ∈ old, HoldsKey keys d key) :
    Inherits keys old new' data := by
  rcases h with h | ⟨key, hkey, hnew | hold⟩
  · exact .inl h
  · exact .inr ⟨key, hkey, himp key hnew⟩
  · exact .inr ⟨key, hkey, .inr hold⟩

theorem holds_of_rewrap {v w : UInt16} {confounder : Bytes}
    {data' : KeyData} (hold : keys.get v = some old) (hactive : keys.get w = some active)
    (h : rewrapKeyData confounder data old active = .ok data') :
    ∃ key, HoldsKey keys data' key ∧ HoldsKey keys data key := by
  unfold rewrapKeyData at h
  split at h
  · cases h
  rename_i etype blob fields hfields
  obtain ⟨key, hkey, h⟩ := bind_eq_ok.mp h
  obtain ⟨blob', hblob', h⟩ := bind_eq_ok.mp h
  cases h
  refine ⟨key, ⟨w, active, etype, blob', fields, hactive, rfl, ?_⟩, v, old, etype, blob, fields, hold, hfields, hkey⟩
  exact decryptKey_keytype hkey ▸ decryptKey_encryptKey hblob' _

theorem mem_rewrapRetained : ∀ {updated : List (KeyData × Bool)} {draw : Nat → Bytes} {keyData : List KeyData},
      rewrapRetained old active draw updated = .ok keyData → ∀ data ∈ keyData,
        ∃ p ∈ updated, ∃ confounder, rewrapIf p.2 confounder p.1 old active = .ok data := by
  intro updated
  induction updated with
  | nil =>
    intro draw keyData h data hdata
    cases h
    cases hdata
  | cons p updated ih =>
    intro draw keyData h data hdata
    obtain ⟨data₀, hdata₀, h⟩ := bind_eq_ok.mp h
    obtain ⟨rest, hrest, h⟩ := bind_eq_ok.mp h
    cases h
    rcases List.mem_cons.mp hdata with rfl | hdata
    · exact ⟨p, List.mem_cons_self .., draw 0, hdata₀⟩
    · obtain ⟨p', hp', hrewrap⟩ := ih hrest data hdata
      exact ⟨p', List.mem_cons_of_mem _ hp', hrewrap⟩

section
variable [Alphabet] {record : PrincipalRecord} {draw : Nat → Bytes}

theorem Wraps.holds {v : UInt16} {master : EncryptionKey} {name : PrincipalName} {realm : Str}
    {key : KeyEntry} (h : Wraps master name realm data key) (hget : keys.get v = some master) :
    HoldsKey keys data key.key := by
  obtain ⟨etype, blob, fields, hfields, htype, hdec⟩ := h.wrapped
  exact ⟨v, master, etype, blob, fields, hget, hfields, by rw [htype, hdec]⟩

theorem mem_keyDataFor {entry : PrincipalEntry} {oldMaster : Option EncryptionKey} :
    ∀ {keys : List KeyEntry} {draw : Nat → Bytes} {remaining : List KeyData} {updated : List (KeyData × Bool)},
      keyDataFor entry oldMaster active draw remaining keys = .ok updated → ∀ p ∈ updated,
        (p.2 = true ∧ p.1 ∈ remaining) ∨ (p.2 = false ∧ ∃ key ∈ keys, Wraps active entry.name entry.realm p.1 key) := by
  intro keys
  induction keys with
  | nil =>
    intro draw remaining updated h p hp
    cases h
    cases hp
  | cons key keys ih =>
    intro draw remaining updated h p hp
    rw [keyDataFor] at h
    cases hr : reused remaining key entry oldMaster with
    | some old =>
      simp only [hr, bind_eq_ok] at h
      obtain ⟨rest, hrest, h⟩ := h
      cases h
      rcases List.mem_cons.mp hp with rfl | hp
      · cases oldMaster with
        | none => cases hr
        | some master => exact .inl ⟨rfl, List.mem_of_find?_eq_some hr⟩
      · rcases ih hrest p hp with ⟨hr, hmem⟩ | ⟨hr, k, hk, hw⟩
        · exact .inl ⟨hr, List.mem_of_mem_erase hmem⟩
        · exact .inr ⟨hr, k, List.mem_cons_of_mem _ hk, hw⟩
    | none =>
      simp only [hr, bind_eq_ok] at h
      obtain ⟨data, hdata, rest, hrest, h⟩ := h
      cases h
      rcases List.mem_cons.mp hp with rfl | hp
      · exact .inr ⟨rfl, key, List.mem_cons_self .., wraps_of_keyDataFromEntry hdata⟩
      · rcases ih hrest p hp with hmem | ⟨hr, k, hk, hw⟩
        · exact .inl hmem
        · exact .inr ⟨hr, k, List.mem_cons_of_mem _ hk, hw⟩

theorem updateKeys_inherits {now : UInt32} {entry entry' : MitEntry}
    {reencrypted : Bool} (h : updateKeys now draw entry record keys = .ok (entry', reencrypted)) :
    ∀ data ∈ entry'.keyData,
      Inherits keys entry.keyData (fun key => key ∈ record.entry.keys.map (·.key)) data := by
  obtain ⟨⟨activeKvno, active⟩, hactive, h⟩ := bind_eq_ok.mp h
  obtain ⟨oldMkvno, hold, h⟩ := bind_eq_ok.mp h
  obtain ⟨updated, hupdated, h⟩ := bind_eq_ok.mp h
  obtain ⟨keyData, hdata, h⟩ := bind_eq_ok.mp h
  obtain ⟨rfl, -⟩ := Prod.mk.inj (Except.ok.inj h)
  obtain ⟨-, hget⟩ := activeAt_eq_ok hactive
  have hitems : ∀ p ∈ updated, Inherits keys entry.keyData (fun key => key ∈ record.entry.keys.map (·.key)) p.1 := by
    intro p hp
    rcases mem_keyDataFor hupdated p hp with ⟨-, hmem⟩ | ⟨-, k, hk, hw⟩
    · exact .inl hmem
    · exact .inr ⟨k.key, hw.holds hget, .inl (List.mem_map_of_mem hk)⟩
  intro data hmem
  unfold rewrapChanged at hdata
  split at hdata
  · rename_i master hmaster
    obtain ⟨p, hp, confounder, hrewrap⟩ := mem_rewrapRetained hdata data hmem
    rcases mem_keyDataFor hupdated p hp with ⟨hretained, hmem⟩ | ⟨hretained, -⟩
    · rw [rewrapIf, if_pos hretained] at hrewrap
      obtain ⟨key, hkey, hkey'⟩ := holds_of_rewrap hmaster hget hrewrap
      exact .inr ⟨key, hkey, .inr ⟨p.1, hmem, hkey'⟩⟩
    · rw [rewrapIf, hretained] at hrewrap
      cases hrewrap
      exact hitems p hp
  · cases hdata
    obtain ⟨p, hp, rfl⟩ := List.mem_map.mp hmem
    exact hitems p hp

theorem mergeRecord_inherits {clock : Clock} {e merged : MitEntry}
    {creator : Option Bytes} (h : mergeRecord clock draw e record keys creator = .ok merged) :
    merged.attributes = record.entry.attributes ∧
      ∀ data ∈ merged.keyData, Inherits keys e.keyData (fun key => key ∈ record.entry.keys.map (·.key)) data := by
  obtain ⟨e₁, hfields, h⟩ := bind_eq_ok.mp h
  obtain ⟨⟨e₂, reencrypted⟩, hkeys, h⟩ := bind_eq_ok.mp h
  obtain ⟨hmerged, hframe⟩ := mergeFields_spec hfields
  obtain ⟨hedit, -⟩ := recordMkvno_spec h
  have hdata : merged.keyData = e₂.keyData := by rw [← hedit.same]
  have hinherits := updateKeys_inherits hkeys
  iterate 3 obtain ⟨_, -, hkeys⟩ := bind_eq_ok.mp hkeys
  obtain ⟨keyData, -, hkeys⟩ := bind_eq_ok.mp hkeys
  obtain ⟨rfl, -⟩ := Prod.mk.inj (Except.ok.inj hkeys)
  refine ⟨(congrArg MitEntry.attributes hedit.same).trans hmerged.attributes, ?_⟩
  rw [hdata, ← hframe.keyData]
  exact hinherits

theorem recordFromEntry_keys {e : MitEntry} (h : recordFromEntry e keys = .ok record) :
    record.entry.attributes = e.attributes ∧ ∀ k ∈ record.entry.keys, ∃ d ∈ e.keyData, HoldsKey keys d k.key := by
  obtain ⟨kvno, -, h⟩ := bind_eq_ok.mp h
  split at h
  · cases h
  rename_i master hmaster
  obtain ⟨read, hread, h⟩ := bind_eq_ok.mp h
  obtain ⟨fields, hfields, h⟩ := bind_eq_ok.mp h
  cases h
  refine ⟨?_, ?_⟩
  · unfold recordWithoutKeys at hfields
    iterate 7 obtain ⟨_, -, hfields⟩ := bind_eq_ok.mp hfields
    cases hfields
    rfl
  · intro k hk
    obtain ⟨d, hd, hfrom⟩ := Wire.mem_of_mapM hread hk
    obtain ⟨⟨etype, blob⟩, hfield, hfrom⟩ := bind_eq_ok.mp hfrom
    obtain ⟨key, hkey, hfrom⟩ := bind_eq_ok.mp hfrom
    obtain ⟨salt, -, hfrom⟩ := bind_eq_ok.mp hfrom
    cases hfrom
    unfold keyField at hfield
    split at hfield
    · cases hfield
    · rename_i field rest hfields
      cases hfield
      exact ⟨d, hd, kvno, master, etype, blob, rest, hmaster, hfields, hkey⟩

end

end

end Krb5Rs
