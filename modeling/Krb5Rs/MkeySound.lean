import Krb5Rs.TlKeys
import Krb5Rs.TlFields

/-!
# The master keys in K/M

What `K/M` holds while its list of master keys is sound, that any of these keys
fetches the whole list, and that adding, activating and purging keep it so.
-/

namespace Krb5Rs

open Wire (Bytes Reads bind_eq_ok)
open Codec (u16 u16_length u32)
open MkeyAux (bytes decode encode)

/-! ## The activation list -/

theorem actNodes_encode (node : ActKvno) (rest : Bytes) : actNodes (node.encode ++ rest) = node :: actNodes rest := by
  have hkvno := ofU16_u16 node.kvno
  have htime := ofU32_u32 node.actTime
  simp only [u16, u32, Wire.le] at hkvno htime
  simp only [ActKvno.encode, u16, u32, Wire.le, List.cons_append, List.nil_append, actNodes, hkvno, htime]

theorem actNodes_flatMap (list : List ActKvno) : actNodes (list.flatMap ActKvno.encode) = list := by
  induction list with
  | nil => rfl
  | cons node list ih => rw [List.flatMap_cons, actNodes_encode, ih]

variable {list post acts pre : List ActKvno} {now start : UInt32} {v kvno : UInt16} {inUse : List UInt16}
  {node : ActKvno}

theorem lookupActkvno_of_tl [Alphabet] {e : MitEntry} (h : list ≠ [])
    (htl : e.tl actkvno = some (u16 tlVersion ++ list.flatMap ActKvno.encode)) : lookupActkvno e = .ok list := by
  have hlen : 8 ≤ (u16 tlVersion ++ list.flatMap ActKvno.encode).length := by
    cases list with
    | nil => exact absurd rfl h
    | cons node list =>
      simp only [List.length_append, u16_length, List.flatMap_cons, ActKvno.encode, Codec.u32_length]
      omega
  rw [lookupActkvno, htl]
  dsimp only
  rw [if_neg (by omega), List.take_left' (u16_length _), ofU16_u16, if_neg (by simp), if_neg (by omega),
    List.drop_left' (u16_length _), actNodes_flatMap]

theorem lookupActkvno_updateActkvno [Alphabet] (e : MitEntry) (h : list ≠ []) :
    lookupActkvno (updateActkvno e list) = .ok list := by
  apply lookupActkvno_of_tl h
  rw [updateActkvno, if_neg h]
  exact tl_setTl e actkvno _

/-! ## Auxiliary data -/

theorem split_pairs {a b c d : Bytes} (ha : a.length = 2) (hb : b.length = 2) (hc : c.length = 2) :
    (a ++ (b ++ (c ++ d))).take 2 = a ∧ ((a ++ (b ++ (c ++ d))).drop 2).take 2 = b ∧
      ((a ++ (b ++ (c ++ d))).drop 4).take 2 = c ∧ (a ++ (b ++ (c ++ d))).drop 6 = d := by
  have hdrop2 : (a ++ (b ++ (c ++ d))).drop 2 = b ++ (c ++ d) := List.drop_left' ha
  have hdrop4 : (a ++ (b ++ (c ++ d))).drop 4 = c ++ d := by
    rw [show 4 = 2 + 2 from rfl, ← List.drop_drop, hdrop2, List.drop_left' hb]
  have hdrop6 : (a ++ (b ++ (c ++ d))).drop 6 = d := by
    rw [show 6 = 4 + 2 from rfl, ← List.drop_drop, hdrop4, List.drop_left' hc]
  exact ⟨List.take_left' ha, by rw [hdrop2, List.take_left' hb], by rw [hdrop4, List.take_left' hc], hdrop6⟩

theorem MkeyAux.bytes_ne_nil (node : MkeyAux) : node.bytes ≠ [] := by
  apply List.ne_nil_of_length_pos
  rw [bytes, List.length_append, u16_length]
  omega

theorem MkeyAux.reads_decode {node : MkeyAux} (h : node.contents.length < 2 ^ 16) :
    Reads decode node.bytes node := by
  intro rest
  obtain ⟨hmkey, hlatest, hetype, hlen⟩ := split_pairs (d := u16 (UInt16.ofNat node.contents.length))
    (u16_length node.mkeyKvno) (u16_length node.latestKvno) (u16_length node.enctype.toUInt16)
  have hnat : (UInt16.ofNat node.contents.length).toNat = node.contents.length := by
    exact Nat.mod_eq_of_lt h
  have hbytes : node.bytes ++ rest = u16 node.mkeyKvno ++ (u16 node.latestKvno ++
      (u16 node.enctype.toUInt16 ++ u16 (UInt16.ofNat node.contents.length))) ++ (node.contents ++ rest) := by
    simp only [bytes, List.append_assoc]
  rw [hbytes]
  unfold decode
  rw [Wire.bind_of_ok (Wire.reads_take_of_length _ (by simp) _), hlen, ofU16_u16, hnat,
    Wire.bind_of_ok (Wire.reads_take _ node.contents rest), hmkey, hlatest, hetype]
  simp

theorem writeAll_encode {list : List MkeyAux} {bs : Bytes} (h : Wire.writeAll encode list = .ok bs) :
    bs = list.flatMap bytes ∧ ∀ node ∈ list, node.contents.length < 2 ^ 16 := by
  induction list generalizing bs with
  | nil =>
    cases h
    simp
  | cons node list ih =>
    simp only [Wire.writeAll, bind_eq_ok] at h
    obtain ⟨b, hb, rest, hrest, h⟩ := h
    cases h
    obtain ⟨rfl, hall⟩ := ih hrest
    unfold encode at hb
    split at hb
    · rename_i hlen
      cases hb
      exact ⟨rfl, List.forall_mem_cons.mpr ⟨hlen, hall⟩⟩
    · cases hb

section
variable [Alphabet] {e e' : MitEntry}

theorem updateMkeyAux_spec {list : List MkeyAux} (h : updateMkeyAux e list = .ok e') :
    TlEdit mkeyAux e e' ∧ lookupMkeyAux e' = .ok list := by
  unfold updateMkeyAux at h
  split at h
  · rename_i hnil
    cases h
    have htl : (e.putTl mkeyAux none).tl mkeyAux = none := tl_setTl e mkeyAux none
    exact ⟨setTl_edit e mkeyAux none, by rw [lookupMkeyAux, htl, hnil]⟩
  · rename_i hne
    obtain ⟨bs, hbs, h⟩ := bind_eq_ok.mp h
    cases h
    obtain ⟨rfl, hlens⟩ := writeAll_encode hbs
    refine ⟨setTl_edit e mkeyAux _, ?_⟩
    have htl := tl_setTl e mkeyAux (some (u16 tlVersion ++ list.flatMap bytes))
    have hlen : 10 ≤ (u16 tlVersion ++ list.flatMap bytes).length := by
      cases list with
      | nil => exact absurd rfl hne
      | cons node list =>
        simp only [List.length_append, u16_length, List.flatMap_cons, bytes]
        omega
    have hle : (list.flatMap bytes).length ≤ (u16 tlVersion ++ list.flatMap bytes).length := by
      rw [List.length_append]
      omega
    have hread := Wire.untilEnd_flatMap bytes list
      (fun node hn => ⟨MkeyAux.reads_decode (hlens node hn), node.bytes_ne_nil⟩) hle
    rw [setTl] at htl
    rw [lookupMkeyAux, htl]
    dsimp only
    rw [if_neg (by omega), List.take_left' (u16_length _), ofU16_u16, if_neg (by simp), if_neg (by omega),
      List.drop_left' (u16_length _), hread]

/-! ## Edits -/

theorem lookupActkvno_congr (htl : e'.tl actkvno = e.tl actkvno)
    (hlast : (e'.keyData.map (·.kvno)).getLast? = (e.keyData.map (·.kvno)).getLast?) :
    lookupActkvno e' = lookupActkvno e := by
  rw [List.getLast?_map, List.getLast?_map] at hlast
  rw [lookupActkvno, lookupActkvno, htl]
  cases e.tl actkvno with
  | some bytes => rfl
  | none =>
    cases h' : e'.keyData.getLast? with
    | none =>
      cases h : e.keyData.getLast? with
      | none => rfl
      | some key => simp [h, h'] at hlast
    | some key' =>
      cases h : e.keyData.getLast? with
      | none => simp [h, h'] at hlast
      | some key =>
        rw [h, h'] at hlast
        have hkvno := Option.some.inj hlast
        simp only [hkvno]

theorem lookupMkeyAux_congr (htl : e'.tl mkeyAux = e.tl mkeyAux) : lookupMkeyAux e' = lookupMkeyAux e := by
  rw [lookupMkeyAux, lookupMkeyAux, htl]

theorem entryMkvno_congr (htl : e'.tl mkvno = e.tl mkvno) : entryMkvno e' = entryMkvno e := by
  rw [entryMkvno, entryMkvno, htl]

theorem updateActkvno_edit (e : MitEntry) (list : List ActKvno) : TlEdit actkvno e (updateActkvno e list) := by
  unfold updateActkvno
  split <;> exact setTl_edit ..

end

/-! ## The active version -/

structure ActsOk (acts : List ActKvno) : Prop where
  sorted : acts.Pairwise fun a b => a.actTime ≤ b.actTime
  versions : (acts.map (·.kvno)).Nodup
  nonempty : acts ≠ []

/-- The node active at `now` stands before those to come and after those that were active before it. -/
def ActiveNode (now : UInt32) (pre : List ActKvno) (node : ActKvno) (post : List ActKvno) : Prop :=
  (∀ a ∈ pre, a.actTime ≤ now) ∧ (pre ≠ [] → node.actTime ≤ now) ∧ ∀ a ∈ post, now < a.actTime

theorem lastActive_of_later (h : ∀ a ∈ post, now < a.actTime) (v : UInt16) : MasterKeys.lastActive now v post = v := by
  cases post with
  | nil => rfl
  | cons a post => rw [MasterKeys.lastActive, if_pos (h a (List.mem_cons_self ..))]

theorem lastActive_append (hpre : ∀ a ∈ pre, a.actTime ≤ now)
    (hnode : node.actTime ≤ now) (hpost : ∀ a ∈ post, now < a.actTime) :
    MasterKeys.lastActive now v (pre ++ node :: post) = node.kvno := by
  induction pre generalizing v with
  | nil =>
    rw [List.nil_append, MasterKeys.lastActive, if_neg (UInt32.not_lt.mpr hnode), lastActive_of_later hpost]
  | cons a pre ih =>
    have ha := hpre a (List.mem_cons_self ..)
    rw [List.cons_append, MasterKeys.lastActive, if_neg (UInt32.not_lt.mpr ha)]
    exact ih fun b hb => hpre b (List.mem_cons_of_mem _ hb)

theorem findActkvnoIn_of_activeNode (h : ActiveNode now pre node post) :
    MasterKeys.findActkvnoIn now (pre ++ node :: post) = some node.kvno := by
  obtain ⟨hpre, hnode, hpost⟩ := h
  cases pre with
  | nil => rw [List.nil_append, MasterKeys.findActkvnoIn, lastActive_of_later hpost]
  | cons a pre =>
    rw [List.cons_append, MasterKeys.findActkvnoIn,
      lastActive_append (fun b hb => hpre b (List.mem_cons_of_mem _ hb)) (hnode (by simp)) hpost]

theorem exists_activeNode (now : UInt32) (hs : acts.Pairwise fun a b => a.actTime ≤ b.actTime) (hne : acts ≠ []) :
    ∃ pre node post, acts = pre ++ node :: post ∧ ActiveNode now pre node post := by
  induction acts with
  | nil => exact absurd rfl hne
  | cons a acts ih =>
    obtain ⟨ha, hs⟩ := List.pairwise_cons.mp hs
    cases acts with
    | nil => exact ⟨[], a, [], rfl, by simp, by simp, by simp⟩
    | cons b acts =>
      by_cases hb : now < b.actTime
      · refine ⟨[], a, b :: acts, rfl, by simp, by simp, ?_⟩
        intro c hc
        rcases List.mem_cons.mp hc with rfl | hc
        · exact hb
        · exact UInt32.lt_of_lt_of_le hb ((List.pairwise_cons.mp hs).1 c hc)
      · have hb := UInt32.not_lt.mp hb
        obtain ⟨pre, node, post, heq, hpre, hnode, hpost⟩ := ih hs (by simp)
        have hnode' : node.actTime ≤ now := by
          cases pre with
          | nil =>
            obtain ⟨rfl, -⟩ := List.cons.inj heq
            exact hb
          | cons c pre => exact hnode (by simp)
        refine ⟨a :: pre, node, post, by rw [heq]; rfl, ?_, fun _ => hnode', hpost⟩
        exact List.forall_mem_cons.mpr ⟨UInt32.le_trans (ha b (List.mem_cons_self ..)) hb, hpre⟩

theorem findActkvnoIn_filter {p : UInt16 → Bool}
    (hs : acts.Pairwise fun a b => a.actTime ≤ b.actTime) (hv : MasterKeys.findActkvnoIn now acts = some v)
    (hp : p v = true) : MasterKeys.findActkvnoIn now (acts.filter fun a => p a.kvno) = some v := by
  have hne : acts ≠ [] := by
    rintro rfl
    cases hv
  obtain ⟨pre, node, post, rfl, hactive⟩ := exists_activeNode now hs hne
  cases (findActkvnoIn_of_activeNode hactive).symm.trans hv
  obtain ⟨hpre, hnode, hpost⟩ := hactive
  rw [List.filter_append, List.filter_cons, if_pos hp]
  apply findActkvnoIn_of_activeNode
  refine ⟨fun a ha => hpre a (List.mem_of_mem_filter ha), fun hne => hnode ?_,
    fun a ha => hpost a (List.mem_of_mem_filter ha)⟩
  rintro rfl
  exact hne rfl

theorem mem_of_findActkvnoIn (hs : acts.Pairwise fun a b => a.actTime ≤ b.actTime)
    (hv : MasterKeys.findActkvnoIn now acts = some v) : v ∈ acts.map (·.kvno) := by
  have hne : acts ≠ [] := by
    rintro rfl
    cases hv
  obtain ⟨pre, node, post, rfl, hactive⟩ := exists_activeNode now hs hne
  cases (findActkvnoIn_of_activeNode hactive).symm.trans hv
  simp

/-! ## Dropping versions -/

theorem eraseP_eq_filter {α : Type} (f : α → UInt16) (v : UInt16) {l : List α} (h : (l.map f).Nodup) :
    l.eraseP (fun a => f a = v) = l.filter fun a => f a ≠ v := by
  induction l with
  | nil => rfl
  | cons a l ih =>
    obtain ⟨ha, hl⟩ := List.nodup_cons.mp h
    by_cases hv : f a = v
    · have hrest : l.filter (fun a => decide (f a ≠ v)) = l := by
        apply List.filter_eq_self.mpr
        intro b hb
        have : f b ≠ v := fun hbv => ha (hv ▸ hbv ▸ List.mem_map_of_mem hb)
        simpa using this
      rw [List.eraseP_cons_of_pos (by simpa using hv), List.filter_cons_of_neg (by simpa using hv), hrest]
    · rw [List.eraseP_cons_of_neg (by simpa using hv), List.filter_cons_of_pos (by simpa using hv), ih hl]

theorem dropFirst_eq_filter {α : Type} (f : α → UInt16) (versions : List UInt16) {l : List α} (h : (l.map f).Nodup) :
    dropFirst f versions l = l.filter fun a => f a ∉ versions := by
  unfold dropFirst
  induction versions generalizing l with
  | nil => simp
  | cons v versions ih =>
    have hsub : (l.filter fun a => decide (f a ≠ v)).Sublist l := List.filter_sublist
    rw [List.foldl_cons, eraseP_eq_filter f v h, ih ((hsub.map f).nodup h), List.filter_filter]
    apply List.filter_congr
    intro a _
    simp [Bool.and_comm]

theorem notMem_purged {versions : List UInt16} (hv : v ∈ versions) :
    v ∉ versions.filter (fun kvno => kvno ∉ inUse) ↔ v ∈ inUse := by
  simp [List.mem_filter, hv]

theorem ActsOk.filter (h : ActsOk acts) {p : ActKvno → Bool} (hne : acts.filter p ≠ []) :
    ActsOk (acts.filter p) where
  sorted := h.sorted.sublist List.filter_sublist
  versions := (List.filter_sublist.map _).nodup h.versions
  nonempty := hne

/-! ## Activating a version -/

theorem insertActkvno_cons (kvno : UInt16) (start : UInt32) (a : ActKvno) (acts : List ActKvno) :
    insertActkvno kvno start (a :: acts) =
      if start < a.actTime then ⟨kvno, start⟩ :: a :: acts else a :: insertActkvno kvno start acts := by
  unfold insertActkvno
  rw [List.findIdx?_cons]
  by_cases h : start < a.actTime
  · simp [h]
  simp only [h, decide_false, Bool.false_eq_true, if_false]
  cases acts.findIdx? fun a => decide (start < a.actTime) with
  | none => rfl
  | some i => rfl

theorem insertActkvno_perm (kvno : UInt16) (start : UInt32) (acts : List ActKvno) :
    (insertActkvno kvno start acts).Perm (⟨kvno, start⟩ :: acts) := by
  induction acts with
  | nil => exact List.Perm.refl _
  | cons a acts ih =>
    rw [insertActkvno_cons]
    split
    · exact List.Perm.refl _
    · exact (ih.cons a).trans (List.Perm.swap _ _ _)

theorem insertActkvno_pairwise {R : ActKvno → ActKvno → Prop}
    (hs : acts.Pairwise fun a b => a.actTime ≤ b.actTime) (hR : acts.Pairwise R)
    (hle : ∀ a ∈ acts, a.actTime ≤ start → R a ⟨kvno, start⟩)
    (hlt : ∀ a ∈ acts, start < a.actTime → R ⟨kvno, start⟩ a) : (insertActkvno kvno start acts).Pairwise R := by
  induction acts with
  | nil => exact List.pairwise_singleton _ _
  | cons a acts ih =>
    obtain ⟨hsa, hs⟩ := List.pairwise_cons.mp hs
    obtain ⟨hRa, hR'⟩ := List.pairwise_cons.mp hR
    rw [insertActkvno_cons]
    split
    case isTrue hstart =>
      refine List.pairwise_cons.mpr ⟨fun b hb => hlt b hb ?_, hR⟩
      rcases List.mem_cons.mp hb with rfl | hb
      · exact hstart
      · exact UInt32.lt_of_lt_of_le hstart (hsa b hb)
    case isFalse hstart =>
      refine List.pairwise_cons.mpr ⟨fun b hb => ?_, ih hs hR' (fun b hb => hle b (List.mem_cons_of_mem _ hb))
        fun b hb => hlt b (List.mem_cons_of_mem _ hb)⟩
      rcases List.mem_cons.mp ((insertActkvno_perm ..).mem_iff.mp hb) with rfl | hb
      · exact hle a (List.mem_cons_self ..) (UInt32.not_lt.mp hstart)
      · exact hRa b hb

theorem insertActkvno_sorted (h : acts.Pairwise fun a b => a.actTime ≤ b.actTime) :
    (insertActkvno kvno start acts).Pairwise fun a b => a.actTime ≤ b.actTime :=
  insertActkvno_pairwise h h (fun _ _ hle => hle) fun _ _ hlt => UInt32.le_of_lt hlt

theorem actsOk_insert (hs : acts.Pairwise fun a b => a.actTime ≤ b.actTime) (hv : (acts.map (·.kvno)).Nodup)
    (hk : kvno ∉ acts.map (·.kvno)) : ActsOk (insertActkvno kvno start acts) := by
  have hperm := insertActkvno_perm kvno start acts
  refine ⟨insertActkvno_sorted hs, ?_, ?_⟩
  · exact (hperm.map (·.kvno)).nodup_iff.mpr (List.nodup_cons.mpr ⟨hk, hv⟩)
  · intro hnil
    rw [hnil] at hperm
    exact List.cons_ne_nil _ _ (List.nil_perm.mp hperm)

theorem editActkvno_ok (h : ActsOk acts) (kvno : UInt16) (start : UInt32) : ActsOk (editActkvno acts kvno start) ∧
      ∀ a ∈ editActkvno acts kvno start, a.kvno = kvno ∨ a.kvno ∈ acts.map (·.kvno) := by
  unfold editActkvno
  cases hi : acts.findIdx? fun a => decide (a.kvno = kvno) with
  | none =>
    have hk : kvno ∉ acts.map (·.kvno) := by
      intro hm
      obtain ⟨a, ha, hak⟩ := List.mem_map.mp hm
      simpa [hak] using List.findIdx?_eq_none_iff.mp hi a ha
    refine ⟨actsOk_insert h.sorted h.versions hk, ?_⟩
    intro a ha
    rcases List.mem_cons.mp ((insertActkvno_perm ..).mem_iff.mp ha) with rfl | ha
    · exact .inl rfl
    · exact .inr (List.mem_map_of_mem ha)
  | some i =>
    dsimp only
    split
    · rename_i hlen
      obtain ⟨a, rfl⟩ := List.length_eq_one_iff.mp hlen
      exact ⟨⟨by simp, by simp, by simp⟩, by simp⟩
    · have herase : acts.eraseIdx i = acts.filter fun a => decide (a.kvno ≠ kvno) := by
        rw [← eraseP_eq_filter ActKvno.kvno kvno h.versions, List.eraseP_eq_eraseIdx, hi]
      have hsub : (acts.eraseIdx i).Sublist acts := List.eraseIdx_sublist ..
      have hk : kvno ∉ (acts.eraseIdx i).map (·.kvno) := by
        rw [herase]
        simp
      refine ⟨actsOk_insert (h.sorted.sublist hsub) ((hsub.map _).nodup h.versions) hk, ?_⟩
      intro a ha
      rcases List.mem_cons.mp ((insertActkvno_perm ..).mem_iff.mp ha) with rfl | ha
      · exact .inl rfl
      · exact .inr (List.mem_map_of_mem (hsub.subset ha))

theorem useMkey_eq_ok {list' : List ActKvno} (h : useMkey list kvno start now = .ok list') :
    list' = editActkvno list kvno start := by
  unfold useMkey at h
  dsimp only at h
  split at h
  · exact (Except.ok.inj h).symm
  · split at h
    · cases h
    · exact (Except.ok.inj h).symm

/-! ## The list of master keys -/

section
variable [Crypto] {play : Set EncryptionKey} {drawn : Set Bytes}

def SealedBy (play : Set EncryptionKey) (master : EncryptionKey) (blob : Bytes) : Prop :=
  ∀ other ∈ play, ∀ etype key, decryptKey other etype blob = .ok key → other = master

/-- What a master key in play seals with a confounder drawn, no other one in play opens. -/
def Integrity (play : Set EncryptionKey) (drawn : Set Bytes) : Prop :=
  ∀ confounder ∈ drawn, ∀ master ∈ play, ∀ key ∈ play, ∀ blob,
    encryptKey confounder master key = .ok blob → SealedBy play master blob

structure Kept (play : Set EncryptionKey) (newest : EncryptionKey) (data : KeyData) (m : UInt16 × EncryptionKey) : Prop where
  kvno : data.kvno = m.1
  wrapped : ∃ etype blob fields, data.fields = (etype, blob) :: fields ∧ etype.toInt32 = m.2.keytype ∧
    decryptKey newest m.2.keytype blob = .ok m.2 ∧ SealedBy play newest blob

structure AuxFor (play : Set EncryptionKey) (newest : EncryptionKey) (aux : MkeyAux) (m : UInt16 × EncryptionKey) : Prop where
  kvno : aux.mkeyKvno = m.1
  opens : decryptKey m.2 aux.enctype.toInt32 aux.contents = .ok newest
  sealed : SealedBy play m.2 aux.contents

variable {m : UInt16 × EncryptionKey} {newest new current : EncryptionKey} {data : KeyData} {draw : Nat → Bytes}
  {auxs : List MkeyAux}

theorem olderKey_of_kept (h : Kept play newest data m) : olderKey newest data = .ok m := by
  obtain ⟨etype, blob, fields, hfields, htype, hdec, -⟩ := h.wrapped
  simp only [olderKey, keyField, hfields, htype, hdec, bind, Except.bind, h.kvno]

theorem AuxFor.decrypt {mkey key : EncryptionKey} {aux : MkeyAux} (h : AuxFor play newest aux m)
    (hmkey : mkey ∈ play) (hdec : decryptKey mkey aux.enctype.toInt32 aux.contents = .ok key) : key = newest := by
  obtain rfl := h.sealed _ hmkey _ _ hdec
  exact Except.ok.inj (hdec.symm.trans h.opens)

section
variable {newest mkey : EncryptionKey} {older : List (UInt16 × EncryptionKey)} {auxs : List MkeyAux}

theorem findSome?_aux (haux : List.Forall₂ (AuxFor play newest) auxs older) (hmkey : mkey ∈ play)
    (h : auxs.findSome? (fun a => (decryptKey mkey a.enctype.toInt32 a.contents).toOption) = some current) :
    current = newest := by
  induction haux with
  | nil => cases h
  | @cons aux m auxs older hfor _ ih =>
    rw [List.findSome?_cons] at h
    cases hdec : decryptKey mkey aux.enctype.toInt32 aux.contents with
    | ok key =>
      rw [hdec] at h
      obtain rfl : key = current := Option.some.inj h
      exact hfor.decrypt hmkey hdec
    | error e =>
      rw [hdec] at h
      exact ih h

theorem findSome?_aux_of_mem (haux : List.Forall₂ (AuxFor play newest) auxs older) (hplay : m.2 ∈ play)
    (hm : m ∈ older) :
    auxs.findSome? (fun a => (decryptKey m.2 a.enctype.toInt32 a.contents).toOption) = some newest := by
  induction haux with
  | nil => cases hm
  | @cons aux m' auxs older hfor _ ih =>
    rw [List.findSome?_cons]
    cases hdec : decryptKey m.2 aux.enctype.toInt32 aux.contents with
    | ok key =>
      obtain rfl := hfor.decrypt hplay hdec
      rfl
    | error e =>
      rcases List.mem_cons.mp hm with rfl | hm
      · rw [hfor.opens] at hdec
        cases hdec
      · exact ih hm

end

theorem kept_kvnos {keyData : List KeyData} {ms : List (UInt16 × EncryptionKey)}
    (h : List.Forall₂ (Kept play newest) keyData ms) : keyData.map (·.kvno) = ms.map (·.1) := by
  induction h with
  | nil => rfl
  | cons hk _ ih => rw [List.map_cons, List.map_cons, hk.kvno, ih]

theorem aux_kvnos {older : List (UInt16 × EncryptionKey)}
    (h : List.Forall₂ (AuxFor play newest) auxs older) : auxs.map (·.mkeyKvno) = older.map (·.1) := by
  induction h with
  | nil => rfl
  | cons hk _ ih => rw [List.map_cons, List.map_cons, hk.kvno, ih]

theorem mkeyData_kept (hint : Integrity play drawn) {confounder : Bytes} {under key : EncryptionKey}
    (hdrawn : confounder ∈ drawn) (hunder : under ∈ play) (hkey : key ∈ play)
    (h : mkeyData confounder under key kvno = .ok data) : Kept play under data (kvno, key) := by
  unfold mkeyData at h
  split at h
  · cases h
  rename_i htype
  obtain ⟨blob, hblob, h⟩ := bind_eq_ok.mp h
  cases h
  exact ⟨rfl, _, blob, [], rfl, toInt32_toInt16 (Decidable.not_not.mp htype), decryptKey_encryptKey hblob _,
    hint _ hdrawn _ hunder _ hkey _ hblob⟩

section
variable (hint : Integrity play drawn) (hnew : new ∈ play)
include hint hnew

theorem addOld_spec (hdraw : ∀ n, draw n ∈ drawn) {old : UInt16 × EncryptionKey} (hold : old.2 ∈ play)
    {out : KeyData × MkeyAux} (h : addOld draw new kvno old = .ok out) :
    Kept play new out.1 old ∧ AuxFor play new out.2 old := by
  simp only [addOld, bind_eq_ok] at h
  obtain ⟨data, hdata, latest, hlatest, ⟨enctype, contents⟩, hfield, h⟩ := h
  cases h
  obtain ⟨etype, blob, fields, hfields, htype, hdec, hseal⟩ :=
    (mkeyData_kept hint (hdraw 1) hold hnew hlatest).wrapped
  rw [keyField, hfields] at hfield
  cases hfield
  refine ⟨mkeyData_kept hint (hdraw 0) hnew hold hdata, rfl, ?_, hseal⟩
  rw [htype]
  exact hdec

theorem addOlds_spec (hdraw : ∀ n, draw n ∈ drawn) {olds : List (UInt16 × EncryptionKey)}
    (holds : ∀ m ∈ olds, m.2 ∈ play)
    {out : List (KeyData × MkeyAux)} (h : addOlds draw new kvno olds = .ok out) :
    List.Forall₂ (Kept play new) (out.map (·.1)) olds ∧ List.Forall₂ (AuxFor play new) (out.map (·.2)) olds := by
  induction olds generalizing draw out with
  | nil =>
    cases h
    exact ⟨.nil, .nil⟩
  | cons old olds ih =>
    simp only [addOlds, bind_eq_ok] at h
    obtain ⟨one, hone, rest, hrest, h⟩ := h
    cases h
    obtain ⟨hold, holds⟩ := List.forall_mem_cons.mp holds
    obtain ⟨hkept, haux⟩ := addOld_spec hint hnew hdraw hold hone
    obtain ⟨hkepts, hauxs⟩ := ih (fun n => hdraw (n + 2)) holds hrest
    exact ⟨.cons hkept hkepts, .cons haux hauxs⟩

end

variable [Alphabet]

/-- `K/M` holds the master keys `newest` and `older`, activated as in `acts`. -/
structure KmInv (play : Set EncryptionKey) (km : MitEntry) (newest : UInt16 × EncryptionKey)
    (older : List (UInt16 × EncryptionKey)) (acts : List ActKvno) : Prop where
  inPlay : ∀ m ∈ newest :: older, m.2 ∈ play
  versions : ((newest :: older).map (·.1)).Nodup
  keyData : List.Forall₂ (Kept play newest.2) km.keyData (newest :: older)
  mkvno : entryMkvno km = .ok newest.1
  lookupActs : lookupActkvno km = .ok acts
  actsOk : ActsOk acts
  retained : ∀ a ∈ acts, a.kvno ∈ (newest :: older).map (·.1)
  aux : ∃ auxs, lookupMkeyAux km = .ok auxs ∧ List.Forall₂ (AuxFor play newest.2) auxs older

section
variable {km : MitEntry} {newest : UInt16 × EncryptionKey} {older : List (UInt16 × EncryptionKey)}
  {acts : List ActKvno} {mkey : EncryptionKey} {etype : Int16} {blob : Bytes}

structure First (play : Set EncryptionKey) (newest : UInt16 × EncryptionKey) (data : KeyData) (etype : Int16) (blob : Bytes) : Prop where
  kvno : data.kvno = newest.1
  field : ∃ fields, data.fields = (etype, blob) :: fields
  keytype : etype.toInt32 = newest.2.keytype
  opens : decryptKey newest.2 newest.2.keytype blob = .ok newest.2
  sealed : SealedBy play newest.2 blob

theorem KmInv.first (h : KmInv play km newest older acts) : ∃ data rest etype blob, km.keyData = data :: rest ∧
    First play newest data etype blob ∧ rest.mapM (olderKey newest.2) = .ok older := by
  obtain ⟨data, rest, hfirst, hrest, hdata⟩ := List.forall₂_cons_right_iff.mp h.keyData
  obtain ⟨etype, blob, fields, hfields, htype, hdec, hseal⟩ := hfirst.wrapped
  exact ⟨data, rest, etype, blob, hdata, ⟨hfirst.kvno, ⟨fields, hfields⟩, htype, hdec, hseal⟩,
    Wire.mapM_of_forall₂ (hrest.imp fun _ _ hk => olderKey_of_kept hk)⟩

theorem KmInv.latestKey_eq (h : KmInv play km newest older acts) (hf : First play newest data etype blob)
    (hmkey : mkey ∈ play) (hl : latestKey km mkey etype blob = .ok (some current)) : current = newest.2 := by
  obtain ⟨auxs, hlookup, haux⟩ := h.aux
  simp only [latestKey, hlookup, bind, Except.bind] at hl
  split at hl
  · rename_i key hdirect
    obtain rfl := Option.some.inj (Except.ok.inj hl)
    split at hdirect
    · rename_i htype
      cases hdec : decryptKey mkey mkey.keytype blob with
      | ok opened =>
        rw [hdec] at hdirect
        obtain rfl : opened = key := Option.some.inj hdirect
        obtain rfl := hf.sealed _ hmkey _ _ hdec
        exact Except.ok.inj (hdec.symm.trans hf.opens)
      | error e =>
        rw [hdec] at hdirect
        cases hdirect
    · cases hdirect
  · exact findSome?_aux haux hmkey (Except.ok.inj hl)

variable {m : UInt16 × EncryptionKey}

theorem KmInv.latestKey_of_mem (h : KmInv play km newest older acts)
    (hf : First play newest data etype blob) (hm : m ∈ newest :: older) :
    latestKey km m.2 etype blob = .ok (some newest.2) := by
  obtain ⟨auxs, hlookup, haux⟩ := h.aux
  cases hl : latestKey km m.2 etype blob with
  | error e =>
    simp only [latestKey, hlookup, bind, Except.bind] at hl
    split at hl <;> cases hl
  | ok found =>
    cases found with
    | some current => rw [h.latestKey_eq hf (h.inPlay m hm) hl]
    | none =>
      -- neither the newest key itself nor an older one fails
      simp only [latestKey, hlookup, bind, Except.bind] at hl
      split at hl
      · cases hl
      rename_i hdirect
      rcases List.mem_cons.mp hm with rfl | hm
      · rw [if_pos hf.keytype, hf.opens] at hdirect
        cases hdirect
      · rw [findSome?_aux_of_mem haux (h.inPlay m (List.mem_cons_of_mem _ hm)) hm] at hl
        cases hl

theorem KmInv.fetch_of_mem (h : KmInv play km newest older acts) (hm : m ∈ newest :: older) :
    MasterKeys.fetch km m.2 = .ok ⟨newest :: older, acts⟩ := by
  obtain ⟨data, rest, etype, blob, hdata, hf, holder⟩ := h.first
  obtain ⟨fields, hfields⟩ := hf.field
  unfold MasterKeys.fetch
  simp only [hdata, keyField, hfields, bind, Except.bind, h.latestKey_of_mem hf hm, holder, h.lookupActs, hf.kvno]

theorem KmInv.fetch_eq_ok (h : KmInv play km newest older acts) (hmkey : mkey ∈ play) {keys : MasterKeys}
    (hk : MasterKeys.fetch km mkey = .ok keys) : keys = ⟨newest :: older, acts⟩ := by
  obtain ⟨data, rest, etype, blob, hdata, hf, holder⟩ := h.first
  obtain ⟨fields, hfields⟩ := hf.field
  unfold MasterKeys.fetch at hk
  simp only [hdata, keyField, hfields, bind, Except.bind] at hk
  cases hl : latestKey km mkey etype blob with
  | error e =>
    simp only [hl] at hk
    cases hk
  | ok found =>
    cases found with
    | none =>
      simp only [hl] at hk
      cases hk
    | some current =>
      obtain rfl := h.latestKey_eq hf hmkey hl
      simp only [hl, holder, h.lookupActs, hf.kvno] at hk
      exact (Except.ok.inj hk).symm

theorem KmInv.get_eq (h : KmInv play km newest older acts) {master : EncryptionKey} :
    MasterKeys.get ⟨newest :: older, acts⟩ v = some master ↔ (v, master) ∈ newest :: older := by
  have hnodup := h.versions
  unfold MasterKeys.get
  generalize newest :: older = ms at hnodup
  induction ms with
  | nil => simp
  | cons m ms ih =>
    obtain ⟨hm, hnodup⟩ := List.nodup_cons.mp hnodup
    by_cases hv : m.1 = v
    · subst hv
      simp only [List.find?_cons, decide_true, Option.map_some, Option.some.injEq, List.mem_cons]
      constructor
      · rintro rfl
        exact .inl rfl
      · rintro (heq | hmem)
        · rw [← heq]
        · exact absurd (List.mem_map_of_mem hmem) hm
    · have hne : ¬ (v, master) = m := fun heq => hv (heq ▸ rfl)
      simp only [List.find?_cons, hv, decide_false, List.mem_cons, hne, false_or]
      exact ih hnodup

theorem KmInv.kvnos (h : KmInv play km newest older acts) : km.keyData.map (·.kvno) = (newest :: older).map (·.1) :=
  kept_kvnos h.keyData

end

/-! ## Edits of K/M -/

section
variable {km km' : MitEntry} {newest : UInt16 × EncryptionKey} {older : List (UInt16 × EncryptionKey)}
  {acts : List ActKvno}

theorem KmInv.stamped (h : KmInv play km newest older acts) (hedit : TlEdit modPrinc km km') :
    KmInv play km' newest older acts where
  inPlay := h.inPlay
  versions := h.versions
  keyData := hedit.keyData ▸ h.keyData
  mkvno := (entryMkvno_congr (hedit.tl (by decide))).trans h.mkvno
  lookupActs := (lookupActkvno_congr (hedit.tl (by decide)) (by rw [hedit.keyData])).trans h.lookupActs
  actsOk := h.actsOk
  retained := h.retained
  aux := by
    rw [lookupMkeyAux_congr (hedit.tl (by decide))]
    exact h.aux

theorem KmInv.activated (h : KmInv play km newest older acts) {acts' : List ActKvno} (hok : ActsOk acts')
    (hret : ∀ a ∈ acts', a.kvno ∈ (newest :: older).map (·.1)) : KmInv play (updateActkvno km acts') newest older acts' := by
  have hedit := updateActkvno_edit km acts'
  exact
    { inPlay := h.inPlay
      versions := h.versions
      keyData := hedit.keyData ▸ h.keyData
      mkvno := (entryMkvno_congr (hedit.tl (by decide))).trans h.mkvno
      lookupActs := lookupActkvno_updateActkvno km hok.nonempty
      actsOk := hok
      retained := hret
      aux := by
        rw [lookupMkeyAux_congr (hedit.tl (by decide))]
        exact h.aux }

theorem KmInv.added (hint : Integrity play drawn) (hdraw : ∀ n, draw n ∈ drawn) (hnew : new ∈ play)
    (h : KmInv play km newest older acts)
    (hfresh : nextKvno km ∉ km.keyData.map (·.kvno))
    (hadd : addNewMkey draw km ⟨newest :: older, acts⟩ new = .ok km') :
    KmInv play km' (nextKvno km, new) (newest :: older) acts := by
  simp only [addNewMkey, bind_eq_ok] at hadd
  obtain ⟨first, hfirst, olds, holds, hadd⟩ := hadd
  obtain ⟨hkept, haux⟩ := addOlds_spec hint hnew (fun n => hdraw (n + 1)) h.inPlay holds
  obtain ⟨hedit, hlookup⟩ := updateMkeyAux_spec hadd
  have hdata := hedit.keyData
  have hall : List.Forall₂ (Kept play new) km'.keyData ((nextKvno km, new) :: newest :: older) :=
    hdata ▸ .cons (mkeyData_kept hint (hdraw 0) hnew hnew hfirst) hkept
  have hlast : (km'.keyData.map (·.kvno)).getLast? = (km.keyData.map (·.kvno)).getLast? := by
    rw [kept_kvnos hall, h.kvnos]
    simp
  have hacts : km'.tl actkvno = km.tl actkvno :=
    (hedit.tl (by decide)).trans ((setTl_edit { km with keyData := first :: olds.map (·.1) } Krb5Rs.mkvno _).tl
      (k := actkvno) (by decide))
  exact
    { inPlay := List.forall_mem_cons.mpr ⟨hnew, h.inPlay⟩
      versions := by
        rw [List.map_cons, List.nodup_cons, ← h.kvnos]
        exact ⟨hfresh, h.kvnos ▸ h.versions⟩
      keyData := hall
      mkvno := (entryMkvno_congr (hedit.tl (by decide))).trans (entryMkvno_setTl ..)
      lookupActs := (lookupActkvno_congr hacts hlast).trans h.lookupActs
      actsOk := h.actsOk
      retained := fun a ha => List.mem_cons_of_mem _ (h.retained a ha)
      aux := ⟨_, hlookup, haux⟩ }

/-! ## Purging -/

theorem KmInv.restricted (h : KmInv play km newest older acts) (hnew : newest.1 ∈ inUse)
    (haux : List.Forall₂ (AuxFor play newest.2) auxs older)
    (hupdate : updateMkeyAux (updateActkvno { km with keyData := km.keyData.filter fun k => k.kvno ∈ inUse }
      (acts.filter fun a => a.kvno ∈ inUse)) (auxs.filter fun a => a.mkeyKvno ∈ inUse) = .ok km') :
    ∃ acts', KmInv play km' newest (older.filter fun m => m.1 ∈ inUse) acts' ∧
      ((acts.filter fun a => a.kvno ∈ inUse) ≠ [] → acts' = acts.filter fun a => a.kvno ∈ inUse) := by
  have heditAct := updateActkvno_edit { km with keyData := km.keyData.filter fun k => k.kvno ∈ inUse }
    (acts.filter fun a => a.kvno ∈ inUse)
  obtain ⟨heditAux, hlookup⟩ := updateMkeyAux_spec hupdate
  have hdata := heditAux.keyData.trans heditAct.keyData
  have hms : (newest :: older).filter (fun m => m.1 ∈ inUse) = newest :: older.filter fun m => m.1 ∈ inUse := by
    rw [List.filter_cons_of_pos (by simpa using hnew)]
  have hkept : List.Forall₂ (Kept play newest.2) km'.keyData (newest :: older.filter fun m => m.1 ∈ inUse) := by
    rw [hdata, ← hms]
    exact List.rel_filter (fun data m hk => by simp [hk.kvno]) h.keyData
  have hinv : ∀ acts', lookupActkvno km' = .ok acts' → ActsOk acts' →
      (∀ a ∈ acts', a.kvno ∈ (newest :: older.filter fun m => m.1 ∈ inUse).map (·.1)) →
      KmInv play km' newest (older.filter fun m => m.1 ∈ inUse) acts' := by
    intro acts' hlook hok hret
    exact
      { inPlay := by
          rw [← hms]
          exact fun m hm => h.inPlay m (List.mem_of_mem_filter hm)
        versions := by
          rw [← hms]
          exact (List.filter_sublist.map _).nodup h.versions
        keyData := hkept
        mkvno := (entryMkvno_congr ((heditAux.tl (by decide)).trans (heditAct.tl (by decide)))).trans h.mkvno
        lookupActs := hlook
        actsOk := hok
        retained := hret
        aux := ⟨_, hlookup, List.rel_filter (fun aux m hk => by simp [hk.kvno]) haux⟩ }
  by_cases hne : (acts.filter fun a => decide (a.kvno ∈ inUse)) = []
  · -- no activation is left, so the oldest version counts as active
    have htl : km'.tl actkvno = none := by
      rw [heditAux.tl (by decide), hne, updateActkvno, if_pos rfl]
      exact tl_setTl ..
    obtain ⟨first, rest, -, -, hcons⟩ := List.forall₂_cons_right_iff.mp hkept
    obtain ⟨last, hlast⟩ := List.getLast?_isSome.mpr (hcons ▸ List.cons_ne_nil _ _ : km'.keyData ≠ []) |>
      Option.isSome_iff_exists.mp
    have hmem : last.kvno ∈ (newest :: older.filter fun m => m.1 ∈ inUse).map (·.1) := by
      rw [← kept_kvnos hkept]
      exact List.mem_map_of_mem (List.mem_of_getLast? hlast)
    refine ⟨[⟨last.kvno, 0⟩], hinv _ ?_ ⟨by simp, by simp, by simp⟩ (by simpa using hmem), fun h => absurd hne h⟩
    rw [lookupActkvno, htl]
    simp only [hlast]
  · refine ⟨_, hinv _ ?_ (h.actsOk.filter hne) ?_, fun _ => rfl⟩
    · rw [lookupActkvno_congr (heditAux.tl (by decide)) (by rw [heditAux.keyData]), lookupActkvno_updateActkvno _ hne]
    · intro a ha
      obtain ⟨ha, huse⟩ := List.mem_filter.mp ha
      obtain ⟨m, hm, hkvno⟩ := List.mem_map.mp (h.retained a ha)
      rw [← hms]
      exact List.mem_map.mpr ⟨m, List.mem_filter.mpr ⟨hm, by simpa [hkvno] using huse⟩, hkvno⟩

theorem KmInv.purged (h : KmInv play km newest older acts) {purged : List UInt16} (hnew : newest.1 ∈ inUse)
    (hp : purgeMkeys km inUse = .ok (km', purged)) :
    ∃ acts', KmInv play km' newest (older.filter fun m => m.1 ∈ inUse) acts' ∧
      ((acts.filter fun a => a.kvno ∈ inUse) ≠ [] → acts' = acts.filter fun a => a.kvno ∈ inUse) := by
  obtain ⟨auxs, hlookup, haux⟩ := h.aux
  unfold purgeMkeys at hp
  dsimp only at hp
  rw [h.kvnos] at hp
  split at hp
  · rename_i hnone
    obtain ⟨rfl, -⟩ := Prod.mk.inj (Except.ok.inj hp)
    have hall : ∀ v ∈ (newest :: older).map (·.1), v ∈ inUse := by
      intro v hv
      simpa using List.filter_eq_nil_iff.mp hnone v hv
    have holder : older.filter (fun m => m.1 ∈ inUse) = older := by
      apply List.filter_eq_self.mpr
      intro m hm
      simpa using hall m.1 (List.mem_cons_of_mem _ (List.mem_map_of_mem hm))
    have hacts : acts.filter (fun a => a.kvno ∈ inUse) = acts := by
      apply List.filter_eq_self.mpr
      intro a ha
      simpa using hall a.kvno (h.retained a ha)
    rw [holder, hacts]
    exact ⟨acts, h, fun _ => rfl⟩
  · obtain ⟨acts₀, hacts, hp₁⟩ := bind_eq_ok.mp hp
    obtain ⟨auxs₀, hauxs, hp₂⟩ := bind_eq_ok.mp hp₁
    obtain ⟨km₁, hupdate, hp₃⟩ := bind_eq_ok.mp hp₂
    cases h.lookupActs.symm.trans hacts
    cases hlookup.symm.trans hauxs
    obtain ⟨rfl, -⟩ := Prod.mk.inj (Except.ok.inj hp₃)
    have hdropActs : dropFirst (·.kvno) (((newest :: older).map (·.1)).filter fun kvno => kvno ∉ inUse) acts =
        acts.filter fun a => a.kvno ∈ inUse := by
      rw [dropFirst_eq_filter _ _ h.actsOk.versions]
      apply List.filter_congr
      intro a ha
      rw [decide_eq_decide]
      exact notMem_purged (h.retained a ha)
    have hauxVersions : (auxs.map (·.mkeyKvno)).Nodup := by
      rw [aux_kvnos haux]
      exact (List.nodup_cons.mp h.versions).2
    have hdropAuxs : dropFirst (·.mkeyKvno) (((newest :: older).map (·.1)).filter fun kvno => kvno ∉ inUse) auxs =
        auxs.filter fun a => a.mkeyKvno ∈ inUse := by
      rw [dropFirst_eq_filter _ _ hauxVersions]
      apply List.filter_congr
      intro a ha
      rw [decide_eq_decide]
      apply notMem_purged
      apply List.mem_cons_of_mem
      rw [← aux_kvnos haux]
      exact List.mem_map_of_mem ha
    rw [hdropActs, hdropAuxs] at hupdate
    exact h.restricted hnew haux hupdate

end

end

end Krb5Rs
