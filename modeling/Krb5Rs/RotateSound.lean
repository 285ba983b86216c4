import Krb5Rs.Rotate
import Krb5Rs.MkeySound
import Krb5Rs.TlSound

/-!
# Master-key rotation keeps what is in force

The invariant of a database over any sequence of master-key commands: `K/M`
holds a sound list of master keys, and the keys of every principal decrypt, to
what they were, under the master key its `MKVNO` names.
-/

namespace Krb5Rs

open Wire (Bytes bind_eq_ok)
open Utf8 (Str)
open Tagged (valuesAt)
open Codec (u16 u32)

theorem requestedKvno_eq_some {keys : MasterKeys} {requested : Int} {kvno : UInt16}
    (h : requestedKvno keys requested = some kvno) : (keys.get kvno).isSome := by
  unfold requestedKvno at h
  split at h
  · split at h
    · rename_i hget
      exact Option.some.inj h ▸ hget
    · cases h
  · cases h

/-! ## Wrapped keys -/

variable {keys : List EncryptionKey} {new key : EncryptionKey} {draw : Nat → Bytes} {confounder : Bytes}

section
variable [Crypto] {old : EncryptionKey}

def Opens (master : EncryptionKey) (data : KeyData) (key : EncryptionKey) : Prop :=
  ∃ etype blob fields, data.fields = (etype, blob) :: fields ∧ decryptKey master etype.toInt32 blob = .ok key

theorem Opens.rewrap {data data' : KeyData}
    (ho : Opens old data key) (h : rewrapKeyData confounder data old new = .ok data') : Opens new data' key := by
  obtain ⟨etype, blob, fields, hfields, hdec⟩ := ho
  unfold rewrapKeyData at h
  rw [hfields] at h
  simp only [bind_eq_ok] at h
  obtain ⟨key', hkey', blob', hblob', h⟩ := h
  cases hdec.symm.trans hkey'
  cases h
  refine ⟨etype, blob', fields, rfl, ?_⟩
  rw [decryptKey_encryptKey hblob', ← decryptKey_keytype hdec]

theorem rewrapAll_opens {keyData keyData' : List KeyData} (ho : List.Forall₂ (Opens old) keyData keys)
    (h : rewrapAll draw old new keyData = .ok keyData') : List.Forall₂ (Opens new) keyData' keys := by
  induction ho generalizing draw keyData' with
  | nil =>
    cases h
    exact .nil
  | cons hd _ ih =>
    simp only [rewrapAll, bind_eq_ok] at h
    obtain ⟨data, hdata, rest, hrest, h⟩ := h
    cases h
    exact .cons (hd.rewrap hdata) (ih hrest)

end

section
variable [Alphabet] {entry : MitEntry} {entries : List MitEntry} {v : UInt16}

/-! ## A new K/M -/

theorem valuesAt_stampActkvno (km : MitEntry) (k : UInt16) : valuesAt k (stampActkvno km).tlData =
    (if k = mkvno then (valuesAt k km.tlData).tail else valuesAt k km.tlData) ++
      ((if k = actkvno then [u16 1 ++ (u16 1 ++ u32 0)] else []) ++
        (if k = mkvno then (km.tl mkvno).toList else [])) := by
  simp only [stampActkvno, Tagged.valuesAt_append, Tagged.valuesAt_eraseP, Tagged.valuesAt_cons, MitEntry.tl,
    Tagged.find]
  cases hf : km.tlData.find? fun tl => decide (tl.kind = mkvno) with
  | none =>
    by_cases hk : k = actkvno
    · simp [hk]
    · have hk' : ¬ actkvno = k := fun h => hk h.symm
      simp [hk, hk']
  | some t =>
    have ht : t.kind = mkvno := by simpa using List.find?_some hf
    have hne : ¬ mkvno = actkvno := by decide
    have hne' : ¬ actkvno = mkvno := by decide
    by_cases hk : k = actkvno
    · simp [hk, Tagged.valuesAt_cons, ht, hne, hne']
    have hk' : ¬ actkvno = k := fun h => hk h.symm
    by_cases hm : k = mkvno
    · simp [hm, Tagged.valuesAt_cons, ht, hne, hne']
    · have hm' : ¬ mkvno = k := fun h => hm h.symm
      simp [hk, hk', hm, hm', Tagged.valuesAt_cons, ht]

theorem mem_inUse {inUse : List UInt16} (h : entries.mapM entryMkvno = .ok inUse)
    (he : entry ∈ entries) (hv : entryMkvno entry = .ok v) : v ∈ inUse := by
  have hall := Wire.forall₂_of_mapM h
  clear h
  induction hall with
  | nil => cases he
  | @cons e u entries inUse hu _ ih =>
    rcases List.mem_cons.mp he with rfl | he
    · cases hv.symm.trans hu
      exact List.mem_cons_self ..
    · exact List.mem_cons_of_mem _ (ih he)

variable [Crypto] {master : EncryptionKey} {record : PrincipalRecord} {play : Set EncryptionKey} {drawn : Set Bytes}

section
variable (hint : Integrity play drawn) (hmaster : master ∈ play)
include hint hmaster

theorem keyDataFromEntry_kept (hdrawn : confounder ∈ drawn) {entry : PrincipalEntry}
    {data : KeyData} (h : keyDataFromEntry confounder entry ⟨1, master, none, none⟩ master = .ok data) :
    Kept play master data (1, master) := by
  unfold keyDataFromEntry at h
  split at h
  · cases h
  split at h
  · cases h
  · rename_i htype
    obtain ⟨blob, hblob, h⟩ := bind_eq_ok.mp h
    cases h
    exact ⟨rfl, _, blob, [], rfl, toInt32_toInt16 (Decidable.not_not.mp htype), decryptKey_encryptKey hblob _,
      hint _ hdrawn _ hmaster _ hmaster _ hblob⟩

variable (hdraw : ∀ n, draw n ∈ drawn)
include hdraw

theorem updateKeys_new {now : UInt32} {e e' : MitEntry}
    {reencrypted : Bool} (hnone : e.keyData = []) (hkeys : record.entry.keys = [⟨1, master, none, none⟩])
    (hmkvno : entryMkvno e = .ok 1) (h : updateKeys now draw e record (.single master) = .ok (e', reencrypted)) :
    reencrypted = true ∧ ∃ data, e' = { e with keyData := [data] } ∧ Kept play master data (1, master) := by
  simp only [updateKeys, bind_eq_ok] at h
  obtain ⟨⟨activeKvno, active⟩, hactive, oldMkvno, hold, updated, hupdated, keyData, hdata, h⟩ := h
  cases h
  cases hmkvno.symm.trans hold
  have hsingle : (MasterKeys.single master).activeAt now = .ok (1, master) := rfl
  cases hsingle.symm.trans hactive
  have hreused : ∀ key m, reused [] key record.entry m = none := fun key m => by cases m <;> rfl
  rw [hkeys, hnone] at hupdated
  simp only [keyDataFor, hreused, bind_eq_ok] at hupdated
  obtain ⟨data, hfrom, rest, hrest, hupdated⟩ := hupdated
  cases hrest
  cases hupdated
  cases hdata
  exact ⟨rfl, data, rfl, keyDataFromEntry_kept hint hmaster (hdraw 0) hfrom⟩

theorem createKm_inv {clock : Clock} {creator : Bytes} {km : MitEntry}
    (hkeys : record.entry.keys = [⟨1, master, none, none⟩])
    (h : createKm clock draw record master creator = .ok km) : KmInv play km (1, master) [] [⟨1, 0⟩] := by
  obtain ⟨merged, hmerge, h⟩ := bind_eq_ok.mp h
  cases h
  obtain ⟨e₁, hfields, hmerge⟩ := bind_eq_ok.mp hmerge
  obtain ⟨⟨e₂, reencrypted⟩, hupdate, hmerge⟩ := bind_eq_ok.mp hmerge
  obtain ⟨-, hframe⟩ := mergeFields_spec hfields
  have hmkvno : entryMkvno e₁ = .ok 1 := by
    rw [entryMkvno, hframe.tl (by decide)]
    rfl
  obtain ⟨rfl, data, rfl, hkept⟩ := updateKeys_new hint hmaster hdraw hframe.keyData hkeys hmkvno hupdate
  obtain ⟨⟨v, active⟩, hactive, hmerge⟩ := bind_eq_ok.mp hmerge
  have hsingle : (MasterKeys.single master).activeAt clock.recorded = .ok (1, master) := rfl
  obtain ⟨rfl, -⟩ := Prod.mk.inj (Except.ok.inj (hsingle.symm.trans hactive))
  cases hmerge
  have hvalues : ∀ k ∉ mergedKinds, valuesAt k (setTl { e₁ with keyData := [data] } mkvno (some (u16 1))).tlData =
      if k = mkvno then [u16 1] else [] := by
    intro k hk
    rw [setTl, MitEntry.putTl, Tagged.valuesAt_put, hframe.values k hk]
    rfl
  have htl : ∀ k ∉ mergedKinds, (stampActkvno (setTl { e₁ with keyData := [data] } mkvno (some (u16 1)))).tl k =
      if k = mkvno then some (u16 1)
      else if k = actkvno then some (u16 1 ++ (u16 1 ++ u32 0)) else none := by
    intro k hk
    rw [tl_eq_head?, valuesAt_stampActkvno, hvalues k hk, tl_setTl]
    by_cases hm : k = mkvno
    · have hne : ¬ mkvno = actkvno := by decide
      simp [hm, hne]
    by_cases ha : k = actkvno
    · have hne : ¬ actkvno = mkvno := by decide
      simp [ha, hne]
    · simp [hm, ha]
  exact
    { inPlay := by simpa using hmaster
      versions := by simp
      keyData := .cons hkept .nil
      mkvno := by
        rw [entryMkvno, htl mkvno (by decide), if_pos rfl]
        rfl
      lookupActs := by
        apply lookupActkvno_of_tl (by simp)
        rw [htl actkvno (by decide), if_neg (by decide), if_pos rfl]
        simp [ActKvno.encode, tlVersion]
      actsOk := ⟨by simp, by simp, by simp⟩
      retained := by simp
      aux := by
        refine ⟨[], ?_, .nil⟩
        rw [lookupMkeyAux, htl mkeyAux (by decide), if_neg (by decide), if_neg (by decide)] }

end

/-! ## Principals -/

def Wrapped (ms : List (UInt16 × EncryptionKey)) (entry : MitEntry) (keys : List EncryptionKey) : Prop :=
  ∃ v master, entryMkvno entry = .ok v ∧ (v, master) ∈ ms ∧ List.Forall₂ (Opens master) entry.keyData keys

section
variable {km : MitEntry} {newest : UInt16 × EncryptionKey} {older : List (UInt16 × EncryptionKey)}
  {acts : List ActKvno}
  {entry' : MitEntry} {ms : List (UInt16 × EncryptionKey)} {supplied : EncryptionKey} {newKvno : UInt16}

theorem Wrapped.convert (hkm : KmInv play km newest older acts) (hnew : (newKvno, new) ∈ newest :: older)
    (hw : Wrapped (newest :: older) entry keys)
    (h : convertEntry draw entry ⟨newest :: older, acts⟩ newKvno new = .ok entry') :
    Wrapped (newest :: older) entry' keys := by
  obtain ⟨v, master, hv, hmem, hopens⟩ := hw
  obtain ⟨oldKvno, hold, h⟩ := bind_eq_ok.mp h
  cases hv.symm.trans hold
  simp only [hkm.get_eq.mpr hmem] at h
  obtain ⟨keyData, hdata, h⟩ := bind_eq_ok.mp h
  cases h
  exact ⟨newKvno, new, entryMkvno_setTl .., hnew, rewrapAll_opens hopens hdata⟩

theorem Wrapped.stamped (hw : Wrapped ms entry keys)
    (hedit : TlEdit modPrinc entry entry') : Wrapped ms entry' keys := by
  obtain ⟨v, master, hv, hmem, hopens⟩ := hw
  exact ⟨v, master, (entryMkvno_congr (hedit.tl (by decide))).trans hv, hmem, hedit.keyData ▸ hopens⟩

theorem Wrapped.mono {ms' : List (UInt16 × EncryptionKey)}
    (hw : Wrapped ms entry keys) (hsub : ∀ m ∈ ms, entryMkvno entry = .ok m.1 → m ∈ ms') : Wrapped ms' entry keys := by
  obtain ⟨v, master, hv, hmem, hopens⟩ := hw
  exact ⟨v, master, hv, hsub _ hmem hv, hopens⟩

/-! ## Commands -/

/-- The principals hold `held`, each under a master key that `K/M` retains. -/
structure DbInv (play : Set EncryptionKey) (db : Database) (newest : UInt16 × EncryptionKey)
    (older : List (UInt16 × EncryptionKey)) (acts : List ActKvno) (held : List (List EncryptionKey)) : Prop where
  km : KmInv play db.km newest older acts
  principals : List.Forall₂ (Wrapped (newest :: older)) db.principals held

def Sound (play : Set EncryptionKey) (held : List (List EncryptionKey)) (db : Database) : Prop :=
  ∃ newest older acts, DbInv play db newest older acts held

theorem refreshMaster_eq_ok (h : KmInv play km newest older acts) (hsupplied : supplied ∈ play)
    {loaded keys : MasterKeys} (hloaded : ∀ m ∈ loaded.keys, m.2 ∈ play)
    (hr : refreshMaster km supplied loaded = .ok keys) : keys = ⟨newest :: older, acts⟩ := by
  unfold refreshMaster at hr
  split at hr
  · rename_i found hfound
    obtain rfl := Except.ok.inj hr
    obtain ⟨m, hmem, hm⟩ := List.exists_of_findSome?_eq_some hfound
    cases hf : MasterKeys.fetch km m.2 with
    | error e =>
      rw [hf] at hm
      cases hm
    | ok keys =>
      rw [hf] at hm
      obtain rfl : keys = found := Option.some.inj hm
      exact h.fetch_eq_ok (hloaded m hmem) hf
  · exact h.fetch_eq_ok hsupplied hr

theorem updateRaw_eq_ok (h : KmInv play km newest older acts) (hsupplied : supplied ∈ play)
    {f : MitEntry → MasterKeys → Except StoreError MitEntry}
    (hu : updateRaw km entry supplied ⟨newest :: older, acts⟩ f = .ok entry') : f entry ⟨newest :: older, acts⟩ = .ok entry' := by
  obtain ⟨keys, hkeys, hu⟩ := bind_eq_ok.mp hu
  obtain rfl := refreshMaster_eq_ok h hsupplied h.inPlay hkeys
  obtain ⟨edited, hedited, hu⟩ := bind_eq_ok.mp hu
  obtain ⟨_, -, hu⟩ := bind_eq_ok.mp hu
  cases hu
  exact hedited

/-- The keys an invocation brings are in play, and its confounders are among those drawn. -/
structure Invocation.InPlay (play : Set EncryptionKey) (drawn : Set Bytes) (i : Invocation) : Prop where
  supplied : i.supplied ∈ play
  added : ∀ new, i.command = .addMkey new → new ∈ play
  draws : ∀ n, i.draw 0 n ∈ drawn

variable {held : List (List EncryptionKey)} {db : Database}

theorem withKm_sound (h : DbInv play db newest older acts held) {r : Except StoreError MitEntry}
    (hr : ∀ km', r = .ok km' → Sound play held { db with km := km' }) : Sound play held (withKm db r).1 := by
  cases r with
  | error e => exact ⟨newest, older, acts, h⟩
  | ok km' => exact hr km' rfl

section
variable {i : Invocation} (h : DbInv play db newest older acts held) (hsupplied : i.supplied ∈ play)
include h hsupplied

theorem addMkeyCommand_sound (hint : Integrity play drawn) (hdraw : ∀ n, i.draw 0 n ∈ drawn) (hnew : new ∈ play)
    (hfresh : nextKvno db.km ∉ db.km.keyData.map (·.kvno)) :
    Sound play held (addMkeyCommand i new ⟨newest :: older, acts⟩ db).1 := by
  apply withKm_sound h
  intro km' hkm'
  obtain ⟨km₁, hadd, hstamp⟩ := bind_eq_ok.mp (updateRaw_eq_ok h.km hsupplied hkm')
  refine ⟨_, _, _, (h.km.added hint hdraw hnew hfresh hadd).stamped (setModPrinc_edit hstamp), ?_⟩
  exact h.principals.imp fun _ _ hw => hw.mono fun m hm _ => List.mem_cons_of_mem _ hm

theorem useMkeyCommand_sound (requested : Int) (start : UInt32) :
    Sound play held (useMkeyCommand i requested start ⟨newest :: older, acts⟩ db).1 := by
  unfold useMkeyCommand
  cases hreq : requestedKvno ⟨newest :: older, acts⟩ requested with
  | none => exact ⟨newest, older, acts, h⟩
  | some kvno =>
    apply withKm_sound h
    intro km' hkm'
    obtain ⟨list, hlist, hu⟩ := bind_eq_ok.mp (updateRaw_eq_ok h.km hsupplied hkm')
    obtain ⟨list', huse, hstamp⟩ := bind_eq_ok.mp hu
    cases h.km.lookupActs.symm.trans hlist
    obtain rfl := useMkey_eq_ok huse
    obtain ⟨hok, hmem⟩ := editActkvno_ok h.km.actsOk kvno start
    have hret : ∀ a ∈ editActkvno acts kvno start, a.kvno ∈ (newest :: older).map (·.1) := by
      intro a ha
      rcases hmem a ha with hk | hk
      · rw [hk]
        obtain ⟨master, hget⟩ := Option.isSome_iff_exists.mp (requestedKvno_eq_some hreq)
        exact List.mem_map.mpr ⟨_, h.km.get_eq.mp hget, rfl⟩
      · obtain ⟨a', ha', hk⟩ := List.mem_map.mp hk
        exact hk ▸ h.km.retained a' ha'
    exact ⟨_, _, _, (h.km.activated hok hret).stamped (setModPrinc_edit hstamp), h.principals⟩

omit h in
theorem convertEntries_wrapped (hkm : KmInv play km newest older acts)
    (hnew : (newKvno, new) ∈ newest :: older) (selected : MitEntry → Bool) (dryRun : Bool)
    (h : List.Forall₂ (Wrapped (newest :: older)) entries held) : List.Forall₂ (Wrapped (newest :: older))
      (convertEntries i km ⟨newest :: older, acts⟩ newKvno new selected dryRun entries).1 held := by
  induction h with
  | nil => exact .nil
  | @cons entry keys rest held hw hrest ih =>
    rw [convertEntries]
    dsimp only
    split
    · split
      · exact .cons hw hrest
      · split
        · exact .cons hw ih
        · split
          · exact .cons hw hrest
          · rename_i entry' hupdate
            obtain ⟨converted, hconvert, hstamp⟩ := bind_eq_ok.mp (updateRaw_eq_ok hkm hsupplied hupdate)
            exact .cons ((hw.convert hkm hnew hconvert).stamped (setModPrinc_edit hstamp)) ih
    · exact .cons hw ih

theorem updatePrincEncryptionCommand_sound (selected : MitEntry → Bool) (dryRun : Bool) :
    Sound play held (updatePrincEncryptionCommand i selected dryRun ⟨newest :: older, acts⟩ db).1 := by
  unfold updatePrincEncryptionCommand
  cases hactive : MasterKeys.activeAt ⟨newest :: older, acts⟩ i.later with
  | error e => exact ⟨newest, older, acts, h⟩
  | ok active =>
    have hnew := h.km.get_eq.mp (activeAt_eq_ok hactive).2
    exact ⟨newest, older, acts, h.km, convertEntries_wrapped hsupplied h.km hnew selected dryRun h.principals⟩

omit hsupplied in
theorem purged_sound {inUse purged : List UInt16}
    (hin : db.entries.mapM entryMkvno = .ok inUse) {km₁ km' : MitEntry} (hp : purgeMkeys db.km inUse = .ok (km₁, purged))
    (hstamp : TlEdit modPrinc km₁ km') : ∃ acts',
      DbInv play { db with km := km' } newest (older.filter fun m => m.1 ∈ inUse) acts' held ∧
      ((acts.filter fun a => a.kvno ∈ inUse) ≠ [] → acts' = acts.filter fun a => a.kvno ∈ inUse) := by
  have hnew := mem_inUse hin (List.mem_cons_self ..) h.km.mkvno
  obtain ⟨acts', hinv, hacts⟩ := h.km.purged hnew hp
  refine ⟨acts', ⟨hinv.stamped hstamp, ?_⟩, hacts⟩
  have hmem := (List.forall₂_and_left _ _).mpr ⟨fun e he => he, h.principals⟩
  refine hmem.imp fun entry keys hw => hw.2.mono fun m hm hv => ?_
  have huse := mem_inUse hin (List.mem_cons_of_mem _ hw.1) hv
  rcases List.mem_cons.mp hm with rfl | hm
  · exact List.mem_cons_self ..
  · exact List.mem_cons_of_mem _ (List.mem_filter.mpr ⟨hm, by simpa using huse⟩)

theorem purgeMkeysCommand_cases (stashKvno : Option UInt32) (dryRun : Bool) :
    (purgeMkeysCommand i stashKvno dryRun ⟨newest :: older, acts⟩ db).1 = db ∨ ∃ inUse acts',
      db.entries.mapM entryMkvno = .ok inUse ∧
      DbInv play (purgeMkeysCommand i stashKvno dryRun ⟨newest :: older, acts⟩ db).1 newest (older.filter fun m => m.1 ∈ inUse) acts' held ∧
      ((acts.filter fun a => a.kvno ∈ inUse) ≠ [] → acts' = acts.filter fun a => a.kvno ∈ inUse) := by
  unfold purgeMkeysCommand
  split
  · exact .inl rfl
  split
  · exact .inl rfl
  · rename_i inUse hin
    dsimp only
    split
    · exact .inl rfl
    split
    · exact .inl rfl
    · generalize hu : updateRaw db.km db.km i.supplied _ _ = r
      cases r with
      | error e => exact .inl rfl
      | ok km' =>
        obtain ⟨⟨km₁, purged⟩, hp, hstamp⟩ := bind_eq_ok.mp (updateRaw_eq_ok h.km hsupplied hu)
        obtain ⟨acts', hinv, hacts⟩ := purged_sound h hin hp (setModPrinc_edit hstamp)
        exact .inr ⟨inUse, acts', hin, hinv, hacts⟩

end

/-- The version an added master key gets is not one retained. -/
def FreshVersion (db : Database) (i : Invocation) : Prop :=
  ∀ new, i.command = .addMkey new → nextKvno db.km ∉ db.km.keyData.map (·.kvno)

theorem mkeyCommand_sound (hint : Integrity play drawn) (h : Sound play held db) {i : Invocation}
    (hplay : i.InPlay play drawn) (hfresh : FreshVersion db i) : Sound play held (mkeyCommand i db).1 := by
  obtain ⟨newest, older, acts, h⟩ := h
  unfold mkeyCommand
  cases hr : refreshMaster db.km i.supplied (.single i.supplied) with
  | error e => exact ⟨newest, older, acts, h⟩
  | ok keys =>
    have hsupplied := hplay.supplied
    obtain rfl := refreshMaster_eq_ok h.km hsupplied (by simpa [MasterKeys.single] using hsupplied) hr
    cases hc : i.command with
    | addMkey new =>
      exact addMkeyCommand_sound h hsupplied hint hplay.draws (hplay.added new hc) (hfresh new hc)
    | useMkey requested start => exact useMkeyCommand_sound h hsupplied requested start
    | updatePrincEncryption selected dryRun => exact updatePrincEncryptionCommand_sound h hsupplied selected dryRun
    | purgeMkeys stashKvno dryRun =>
      rcases purgeMkeysCommand_cases h hsupplied stashKvno dryRun with hsame | hpurged
      · dsimp only
        rw [hsame]
        exact ⟨newest, older, acts, h⟩
      · obtain ⟨inUse, acts', -, hinv, -⟩ := hpurged
        exact ⟨_, _, _, hinv⟩

/-! ## Runs -/

def FreshVersions : Database → List Invocation → Prop
  | _, [] => True
  | db, i :: is => FreshVersion db i ∧ FreshVersions (mkeyCommand i db).1 is

theorem rotate_sound (hint : Integrity play drawn) {is : List Invocation} (hplay : ∀ i ∈ is, i.InPlay play drawn)
    (h : Sound play held db) (hfresh : FreshVersions db is) : Sound play held (rotate db is) := by
  induction is generalizing db with
  | nil => exact h
  | cons i is ih =>
    obtain ⟨hi, his⟩ := List.forall_mem_cons.mp hplay
    exact ih his (mkeyCommand_sound hint h hi hfresh.1) hfresh.2

/-- `keys` is what is in force: any of them fetches it, and the principals hold `held` under them. -/
structure InForce (held : List (List EncryptionKey)) (db : Database) (keys : MasterKeys) : Prop where
  retained : keys.keys.map (·.1) = db.km.keyData.map (·.kvno)
  nonempty : keys.keys ≠ []
  fetch : ∀ m ∈ keys.keys, MasterKeys.fetch db.km m.2 = .ok keys
  principals : List.Forall₂ (fun entry ks => ∃ v master, entryMkvno entry = .ok v ∧ keys.get v = some master ∧
    List.Forall₂ (Opens master) entry.keyData ks) db.principals held

theorem DbInv.inForce (h : DbInv play db newest older acts held) : InForce held db ⟨newest :: older, acts⟩ where
  retained := h.km.kvnos.symm
  nonempty := List.cons_ne_nil _ _
  fetch := fun _ hm => h.km.fetch_of_mem hm
  principals := by
    refine h.principals.imp fun entry ks hw => ?_
    obtain ⟨v, master, hv, hmem, hopens⟩ := hw
    exact ⟨v, master, hv, h.km.get_eq.mpr hmem, hopens⟩

theorem DbInv.purge_keeps_active (h : DbInv play db newest older acts held) {i : Invocation} {stashKvno : Option UInt32}
    {dryRun : Bool} (hsupplied : i.supplied ∈ play) (hc : i.command = .purgeMkeys stashKvno dryRun)
    (hactive : MasterKeys.findActkvnoIn i.now acts = some v) (hentry : entry ∈ db.entries)
    (hv : entryMkvno entry = .ok v) :
    ∃ keys, InForce held (mkeyCommand i db).1 keys ∧ keys.findActkvno i.now = some v ∧ (keys.get v).isSome := by
  have hsorted := h.km.actsOk.sorted
  -- any sound state in which the version is still active retains it
  have hkeep : ∀ {db' newest' older' acts'}, DbInv play db' newest' older' acts' held →
      MasterKeys.findActkvnoIn i.now acts' = some v →
      ∃ keys, InForce held db' keys ∧ keys.findActkvno i.now = some v ∧ (keys.get v).isSome := by
    intro db' newest' older' acts' h' hactive'
    obtain ⟨a, ha, rfl⟩ := List.mem_map.mp (mem_of_findActkvnoIn h'.km.actsOk.sorted hactive')
    obtain ⟨m, hm, hkvno⟩ := List.mem_map.mp (h'.km.retained a ha)
    refine ⟨_, h'.inForce, hactive', Option.isSome_iff_exists.mpr ⟨m.2, h'.km.get_eq.mpr ?_⟩⟩
    rw [← hkvno]
    exact hm
  unfold mkeyCommand
  cases hr : refreshMaster db.km i.supplied (.single i.supplied) with
  | error e => exact hkeep h hactive
  | ok keys =>
    obtain rfl := refreshMaster_eq_ok h.km hsupplied (by simpa [MasterKeys.single] using hsupplied) hr
    rw [hc]
    rcases purgeMkeysCommand_cases h hsupplied stashKvno dryRun with hsame | ⟨inUse, acts', hin, hinv, hacts⟩
    · rw [hsame]
      exact hkeep h hactive
    have huse := mem_inUse hin hentry hv
    have hfilter := findActkvnoIn_filter (p := fun kvno => decide (kvno ∈ inUse)) hsorted hactive (by simpa using huse)
    have hne : (acts.filter fun a => decide (a.kvno ∈ inUse)) ≠ [] := by
      intro hnil
      rw [hnil] at hfilter
      cases hfilter
    obtain rfl := hacts hne
    exact hkeep hinv hfilter

theorem rotation_keeps_what_is_in_force {play : Set EncryptionKey} {drawn : Set Bytes} (hint : Integrity play drawn)
    {clock : Clock} {draw : Nat → Bytes} {name : PrincipalName} {realm : Str} {master : EncryptionKey}
    {life renewable : Option Duration} {expiration : Option KerberosTime} {time : KerberosTime} {creator : Bytes}
    {km : MitEntry} {principals : List MitEntry} {held : List (List EncryptionKey)} {is : List Invocation}
    (hmaster : master ∈ play) (hdraw : ∀ n, draw n ∈ drawn) (hplay : ∀ i ∈ is, i.InPlay play drawn)
    (hkm : createKm clock draw (kmRecord name realm master life renewable expiration time creator) master creator =
      .ok km)
    (hprincipals : List.Forall₂ (Wrapped [(1, master)]) principals held)
    (hfresh : FreshVersions ⟨km, principals⟩ is) : ∃ keys, InForce held (rotate ⟨km, principals⟩ is) keys ∧
      ∀ i stashKvno dryRun v, i.supplied ∈ play → i.command = .purgeMkeys stashKvno dryRun → keys.findActkvno i.now = some v →
        (∃ entry ∈ (rotate ⟨km, principals⟩ is).entries, entryMkvno entry = .ok v) →
        ∃ keys', InForce held (mkeyCommand i (rotate ⟨km, principals⟩ is)).1 keys' ∧
          keys'.findActkvno i.now = some v ∧ (keys'.get v).isSome := by
  have hinit : Sound play held ⟨km, principals⟩ := ⟨(1, master), [], [⟨1, 0⟩], createKm_inv hint hmaster hdraw rfl hkm, hprincipals⟩
  obtain ⟨newest, older, acts, h⟩ := rotate_sound hint hplay hinit hfresh
  refine ⟨_, h.inForce, ?_⟩
  intro i stashKvno dryRun v hsupplied hc hactive hentry
  obtain ⟨entry, hmem, hv⟩ := hentry
  exact h.purge_keeps_active hsupplied hc hactive hmem hv

end

end

section
local instance rotateNames : Alphabet := Alphabet.ascii
attribute [local instance] Crypto.toy

variable {master : EncryptionKey} {blob : Bytes}

theorem toy_masterProfile {profile : EtypeProfile} (h : masterProfile master = .ok profile) :
    master.keytype = 18 ∧ Crypto.findEtype 18 = some profile := by
  unfold masterProfile at h
  split at h
  · rename_i found hfound
    cases h
    by_cases ht : master.keytype = 18
    · exact ⟨ht, ht ▸ hfound⟩
    · simp [Crypto.findEtype, ht] at hfound
  · cases h

theorem toy_encryptKey (h : encryptKey confounder master key = .ok blob) :
    master.keytype = 18 ∧ ∃ b, master.keyBytes = [b] ∧ blob.drop 2 = b :: key.keyBytes := by
  obtain ⟨profile, hprofile, h⟩ := bind_eq_ok.mp h
  obtain ⟨htype, hfound⟩ := toy_masterProfile hprofile
  cases hfound
  split at h
  · split at h
    · rename_i cipher hcipher
      cases h
      dsimp only at hcipher
      split at hcipher
      · rename_i b hb
        cases hcipher
        exact ⟨htype, b, hb, List.drop_left' (Codec.u16_length _)⟩
      · cases hcipher
    · cases h
  · cases h

theorem toy_decryptKey {etype : Int32} (h : decryptKey master etype blob = .ok key) :
    master.keytype = 18 ∧ ∃ b rest, master.keyBytes = [b] ∧ blob.drop 2 = b :: rest := by
  obtain ⟨profile, hprofile, h⟩ := bind_eq_ok.mp h
  obtain ⟨htype, hfound⟩ := toy_masterProfile hprofile
  cases hfound
  split at h
  · cases h
  dsimp only at h
  split at h
  · cases h
  rename_i plain hplain
  split at hplain
  · cases hplain
  rename_i b rest hrest
  split at hplain
  · rename_i hb
    exact ⟨htype, b, rest, hb, hrest⟩
  · cases hplain

theorem toy_integrity (play : Set EncryptionKey) (drawn : Set Bytes) : Integrity play drawn := by
  intro confounder _ master _ key _ blob henc other _ etype found hdec
  obtain ⟨htype, b, hb, hblob⟩ := toy_encryptKey henc
  obtain ⟨htype', b', rest, hb', hblob'⟩ := toy_decryptKey hdec
  cases master
  cases other
  simp_all

def newKm : MitEntry where
  principal := ⟨1, [⟨[75], rfl⟩, ⟨[77], rfl⟩]⟩
  realm := ⟨[69], rfl⟩
  attributes := 0x00800040
  tlData := [⟨modPrinc, [5, 0, 0, 0, 99, 64, 69, 0]⟩, ⟨actkvno, [1, 0, 1, 0, 0, 0, 0, 0]⟩, ⟨mkvno, [1, 0]⟩]
  keyData := [⟨1, 1, [(18, [1, 0, 1, 1])]⟩]

theorem createKm_newKm : createKm ⟨5, 5, 5⟩ (fun _ => []) (kmRecord newKm.principal newKm.realm ⟨18, [1]⟩ none none none
    ⟨5, 0⟩ [99, 64, 69]) ⟨18, [1]⟩ [99, 64, 69] = .ok newKm := by
  decide +kernel

def wrappedEntry : MitEntry :=
  { newKm with principal := ⟨1, [⟨[97], rfl⟩]⟩, tlData := [], keyData := [⟨1, 1, [(18, [1, 0, 1, 7])]⟩] }

theorem wrapped_wrappedEntry : Wrapped [(1, ⟨18, [1]⟩)] wrappedEntry [⟨18, [7]⟩] :=
  ⟨1, ⟨18, [1]⟩, rfl, List.mem_cons_self .., .cons ⟨18, [1, 0, 1, 7], [], rfl, by decide +kernel⟩ .nil⟩

def invoke (command : MkeyCommand) (b : UInt8) (now : UInt32) : Invocation :=
  ⟨command, ⟨18, [b]⟩, now, now, [99, 64, 69], fun _ _ => []⟩

theorem newKm_add_in_force : ∃ keys, InForce [[⟨18, [7]⟩]] (rotate ⟨newKm, [wrappedEntry]⟩
    [invoke (.addMkey ⟨18, [2]⟩) 1 10]) keys := by
  have hfresh : FreshVersions ⟨newKm, [wrappedEntry]⟩ [invoke (.addMkey ⟨18, [2]⟩) 1 10] :=
    ⟨fun _ _ => by decide +kernel, trivial⟩
  have hplay : (invoke (.addMkey ⟨18, [2]⟩) 1 10).InPlay {⟨18, [1]⟩, ⟨18, [2]⟩} {[]} :=
    ⟨.inl rfl, fun _ h => .inr (MkeyCommand.addMkey.inj h).symm, fun _ => rfl⟩
  have hfirst : ⟨18, [1]⟩ ∈ ({⟨18, [1]⟩, ⟨18, [2]⟩} : Set EncryptionKey) := .inl rfl
  have hwrapped : List.Forall₂ (Wrapped [(1, ⟨18, [1]⟩)]) [wrappedEntry] [[⟨18, [7]⟩]] := .cons wrapped_wrappedEntry .nil
  obtain ⟨keys, hkeys, -⟩ := rotation_keeps_what_is_in_force (toy_integrity _ {[]}) hfirst (fun _ => rfl)
    (List.forall_mem_singleton.mpr hplay) createKm_newKm hwrapped hfresh
  exact ⟨keys, hkeys⟩

/-- Version 2 is active but wraps no principal, and is purged. -/
theorem purge_drops_active_version : ∃ keys keys',
    MasterKeys.fetch (rotate ⟨newKm, [wrappedEntry]⟩ [invoke (.addMkey ⟨18, [2]⟩) 1 10,
      invoke (.addMkey ⟨18, [3]⟩) 1 20, invoke (.useMkey 2 30) 1 30]).km ⟨18, [3]⟩ = .ok keys ∧
    keys.findActkvno 40 = some 2 ∧
    MasterKeys.fetch (rotate ⟨newKm, [wrappedEntry]⟩ [invoke (.addMkey ⟨18, [2]⟩) 1 10,
      invoke (.addMkey ⟨18, [3]⟩) 1 20, invoke (.useMkey 2 30) 1 30,
      invoke (.purgeMkeys (some 3) false) 3 40]).km ⟨18, [3]⟩ = .ok keys' ∧
    keys'.findActkvno 40 = some 1 ∧ keys'.get 2 = none := by
  refine ⟨⟨[(3, ⟨18, [3]⟩), (2, ⟨18, [2]⟩), (1, ⟨18, [1]⟩)], [⟨1, 0⟩, ⟨2, 30⟩]⟩,
    ⟨[(3, ⟨18, [3]⟩), (1, ⟨18, [1]⟩)], [⟨1, 0⟩]⟩, ?_⟩
  decide +kernel

end

end Krb5Rs
