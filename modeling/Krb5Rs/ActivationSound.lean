import Krb5Rs.MkeySound

/-!
# The activation list over whole runs

Every `use_mkey` drops the version it names and inserts it again behind the
entries active by then, so the list stays ordered by activation time and, among
equal times, by the last call for each version.
-/

namespace Krb5Rs

section
variable [Alphabet]

structure UseMkey where
  kvno : UInt16
  start : UInt32
  now : UInt32
deriving Repr, DecidableEq

def UseMkey.apply (km : MitEntry) (c : UseMkey) : Except StoreError MitEntry := do
  let list ← lookupActkvno km
  let list ← useMkey list c.kvno c.start c.now
  .ok (updateActkvno km list)

end

def timeOf (first : ActKvno) (calls : List UseMkey) (kvno : UInt16) : Option UInt32 :=
  calls.foldl (fun time c => if c.kvno = kvno then some c.start else time)
    (if first.kvno = kvno then some first.actTime else none)

def ActivatedLater (calls : List UseMkey) (u v : UInt16) : Prop :=
  ∃ before after, calls = before ++ after ∧ (∃ c ∈ after, c.kvno = v) ∧ ∀ c ∈ after, c.kvno ≠ u

/-- Activated earlier, or at the same time by an earlier call. -/
def Precedes (calls : List UseMkey) (a b : ActKvno) : Prop :=
  a.actTime < b.actTime ∨ a.actTime = b.actTime ∧ ActivatedLater calls a.kvno b.kvno

variable {calls : List UseMkey} {c : UseMkey} {acts : List ActKvno} {first a : ActKvno}

theorem Precedes.le {b : ActKvno} (h : Precedes calls a b) : a.actTime ≤ b.actTime := by
  rcases h with hlt | ⟨heq, -⟩
  · exact UInt32.le_of_lt hlt
  · exact UInt32.le_of_eq heq

theorem timeOf_concat (first : ActKvno) (calls : List UseMkey) (c : UseMkey) (kvno : UInt16) :
    timeOf first (calls ++ [c]) kvno = if c.kvno = kvno then some c.start else timeOf first calls kvno := by
  rw [timeOf, List.foldl_append]
  rfl

theorem activatedLater_concat {u v : UInt16} (h : ActivatedLater calls u v) (hu : c.kvno ≠ u) :
    ActivatedLater (calls ++ [c]) u v := by
  obtain ⟨before, after, rfl, ⟨d, hd, hdv⟩, hafter⟩ := h
  refine ⟨before, after ++ [c], List.append_assoc .., ⟨d, List.mem_append_left _ hd, hdv⟩, ?_⟩
  intro e he
  rcases List.mem_append.mp he with he | he
  · exact hafter e he
  · rw [List.mem_singleton.mp he]
    exact hu

theorem activatedLater_last (calls : List UseMkey) {u : UInt16} (hu : c.kvno ≠ u) :
    ActivatedLater (calls ++ [c]) u c.kvno := by
  refine ⟨calls, [c], rfl, ⟨c, List.mem_singleton_self c, rfl⟩, ?_⟩
  intro e he
  rw [List.mem_singleton.mp he]
  exact hu

/-! ## One edit -/

theorem editActkvno_eq (h : ActsOk acts) (kvno : UInt16) (start : UInt32) :
    editActkvno acts kvno start = insertActkvno kvno start (acts.filter fun a => a.kvno ≠ kvno) := by
  have herase := eraseP_eq_filter ActKvno.kvno kvno h.versions
  rw [List.eraseP_eq_eraseIdx] at herase
  unfold editActkvno
  cases hi : acts.findIdx? fun a => decide (a.kvno = kvno) with
  | none =>
    rw [hi] at herase
    exact congrArg (insertActkvno kvno start) herase
  | some i =>
    rw [hi] at herase
    dsimp only at herase ⊢
    rw [herase]
    split
    case isFalse => rfl
    case isTrue hlen =>
      -- the only entry is retimed, which is what inserting into no entries gives
      obtain ⟨a, rfl⟩ := List.length_eq_one_iff.mp hlen
      obtain ⟨b, hb, hkvno⟩ : ∃ b ∈ [a], b.kvno = kvno := by
        obtain ⟨hlt, hkvno, -⟩ := List.findIdx?_eq_some_iff_getElem.mp hi
        exact ⟨_, List.getElem_mem hlt, of_decide_eq_true hkvno⟩
      obtain rfl := List.mem_singleton.mp hb
      simp [hkvno, insertActkvno]

theorem mem_editActkvno (h : ActsOk acts) {kvno : UInt16} {start : UInt32} :
    a ∈ editActkvno acts kvno start ↔ a = ⟨kvno, start⟩ ∨ a ∈ acts ∧ a.kvno ≠ kvno := by
  rw [editActkvno_eq h, (insertActkvno_perm ..).mem_iff, List.mem_cons, List.mem_filter, decide_eq_true_eq]

/-! ## Runs -/

structure ActsAfter (first : ActKvno) (calls : List UseMkey) (acts : List ActKvno) : Prop where
  nonempty : acts ≠ []
  ordered : acts.Pairwise (Precedes calls)
  versions : (acts.map (·.kvno)).Nodup
  times : ∀ a, a ∈ acts ↔ timeOf first calls a.kvno = some a.actTime
  started : ∀ last ∈ calls.getLast?, ∀ a ∈ acts.head?, a.actTime ≤ last.now

theorem ActsAfter.ok (h : ActsAfter first calls acts) : ActsOk acts :=
  ⟨h.ordered.imp Precedes.le, h.versions, h.nonempty⟩

theorem actsAfter_nil (first : ActKvno) : ActsAfter first [] [first] where
  nonempty := List.cons_ne_nil _ _
  ordered := List.pairwise_singleton _ _
  versions := by simp
  times := by
    intro a
    rw [List.mem_singleton, timeOf, List.foldl_nil]
    constructor
    · rintro rfl
      exact if_pos rfl
    · intro h
      split at h
      case isFalse => cases h
      case isTrue hkvno =>
        cases first
        cases hkvno
        cases h
        rfl
  started := nofun

theorem ActsAfter.use {acts' : List ActKvno} (h : ActsAfter first calls acts)
    (huse : useMkey acts c.kvno c.start c.now = .ok acts') : ActsAfter first (calls ++ [c]) acts' := by
  have hstarted : ∀ a ∈ acts'.head?, a.actTime ≤ c.now := by
    intro a ha
    have hedit := useMkey_eq_ok huse
    unfold useMkey at huse
    rw [← hedit] at huse
    cases acts' with
    | nil => cases ha
    | cons b acts' =>
      cases ha
      dsimp only at huse
      split at huse
      case isTrue => cases huse
      case isFalse hnow => exact UInt32.not_lt.mp hnow
  obtain rfl := useMkey_eq_ok huse
  have hok := (editActkvno_ok h.ok c.kvno c.start).1
  refine ⟨hok.nonempty, ?_, hok.versions, ?_, ?_⟩
  · rw [editActkvno_eq h.ok]
    have hothers : ∀ a ∈ acts.filter fun a => a.kvno ≠ c.kvno, c.kvno ≠ a.kvno := by
      intro a ha
      exact (of_decide_eq_true (List.mem_filter.mp ha).2).symm
    refine insertActkvno_pairwise (h.ok.sorted.filter _) ?_ ?_ fun a _ hlt => .inl hlt
    · refine (h.ordered.filter _).imp_of_mem fun ha _ hab => ?_
      rcases hab with hlt | ⟨heq, hlater⟩
      · exact .inl hlt
      · exact .inr ⟨heq, activatedLater_concat hlater (hothers _ ha)⟩
    · intro a ha hle
      rcases UInt32.lt_or_eq_of_le hle with hlt | heq
      · exact .inl hlt
      · exact .inr ⟨heq, activatedLater_last calls (hothers a ha)⟩
  · intro a
    rw [mem_editActkvno h.ok, timeOf_concat]
    by_cases hkvno : c.kvno = a.kvno
    · obtain ⟨kvno, actTime⟩ := a
      subst hkvno
      simp [eq_comm]
    · rw [if_neg hkvno, ← h.times a]
      constructor
      · rintro (rfl | ⟨ha, -⟩)
        · exact absurd rfl hkvno
        · exact ha
      · intro ha
        exact .inr ⟨ha, fun heq => hkvno heq.symm⟩
  · intro last hlast a ha
    rw [List.getLast?_concat] at hlast
    cases hlast
    exact hstarted a ha

theorem ActsAfter.find (h : ActsAfter first calls acts) {t : UInt32} (ht : ∀ a ∈ acts.head?, a.actTime ≤ t) :
    ∃ node ∈ acts, MasterKeys.findActkvnoIn t acts = some node.kvno ∧ node.actTime ≤ t ∧
      ∀ b ∈ acts, b.actTime ≤ t → b = node ∨ Precedes calls b node := by
  obtain ⟨before, node, after, rfl, hactive⟩ := exists_activeNode t h.ok.sorted h.nonempty
  refine ⟨node, by simp, findActkvnoIn_of_activeNode hactive, ?_, ?_⟩
  · cases before with
    | nil => exact ht node rfl
    | cons a before => exact hactive.2.1 (List.cons_ne_nil _ _)
  · intro b hb hle
    rcases List.mem_append.mp hb with hb | hb
    · exact .inr ((List.pairwise_append.mp h.ordered).2.2 b hb node (List.mem_cons_self ..))
    · rcases List.mem_cons.mp hb with rfl | hb
      · exact .inl rfl
      · exact absurd (hactive.2.2 b hb) (UInt32.not_lt.mpr hle)

section
variable [Alphabet]

theorem lookup_of_run {done : List UseMkey} {km : MitEntry}
    (hlookup : lookupActkvno km = .ok acts) (hacts : ActsAfter first done acts) (calls : List UseMkey)
    {km' : MitEntry} (hrun : calls.foldlM UseMkey.apply km = .ok km') :
    ∃ acts', lookupActkvno km' = .ok acts' ∧ ActsAfter first (done ++ calls) acts' := by
  induction calls generalizing done km acts with
  | nil =>
    cases hrun
    rw [List.append_nil]
    exact ⟨acts, hlookup, hacts⟩
  | cons c calls ih =>
    obtain ⟨next, happly, hrun⟩ := Wire.bind_eq_ok.mp hrun
    obtain ⟨read, hread, happly⟩ := Wire.bind_eq_ok.mp happly
    cases hread.symm.trans hlookup
    obtain ⟨acts', huse, happly⟩ := Wire.bind_eq_ok.mp happly
    cases happly
    have hnext := hacts.use huse
    have hrest := ih (lookupActkvno_updateActkvno km hnext.nonempty) hnext hrun
    rwa [List.append_assoc] at hrest

/-- After any successful calls the list is ordered, holds every version once with the start of its
last call, has an active version, and tells the version active at any time from then on. -/
theorem activation_list_ordered {km km' : MitEntry} {first : ActKvno} {calls : List UseMkey}
    (hfirst : lookupActkvno km = .ok [first]) (hrun : calls.foldlM UseMkey.apply km = .ok km') :
    ∃ acts, lookupActkvno km' = .ok acts ∧ acts ≠ [] ∧
      acts.Pairwise (fun a b => a.actTime ≤ b.actTime) ∧ (acts.map (·.kvno)).Nodup ∧
      (∀ a, a ∈ acts ↔ timeOf first calls a.kvno = some a.actTime) ∧
      (∀ last ∈ calls.getLast?, ∀ a ∈ acts.head?, a.actTime ≤ last.now) ∧
      ∀ (keys : MasterKeys) (t : UInt32), keys.actkvno = acts → (∀ a ∈ acts.head?, a.actTime ≤ t) →
        ∃ node ∈ acts, keys.findActkvno t = some node.kvno ∧ node.actTime ≤ t ∧
          ∀ b ∈ acts, b.actTime ≤ t → b = node ∨ b.actTime < node.actTime ∨
            b.actTime = node.actTime ∧ ActivatedLater calls b.kvno node.kvno := by
  obtain ⟨acts, hlookup, hacts⟩ := lookup_of_run hfirst (actsAfter_nil first) calls hrun
  refine ⟨acts, hlookup, hacts.nonempty, hacts.ok.sorted, hacts.versions, hacts.times, hacts.started, ?_⟩
  rintro keys t rfl ht
  exact hacts.find ht

end

section
attribute [local instance] Alphabet.ascii

def newMasterEntry : MitEntry :=
  { principal := ⟨1, [⟨[67, 75], rfl⟩, ⟨[67, 77], rfl⟩]⟩, realm := ⟨[67, 82], rfl⟩
    keyData := [⟨1, 1, [(18, [9])]⟩] }

/-- Version 2 from 20 on, version 3 from the same time, then version 2 named again: 2 comes last. -/
theorem activation_list_ordered_tie :
    ∃ km' acts, [⟨2, 20, 10⟩, ⟨3, 20, 11⟩, ⟨2, 20, 12⟩].foldlM UseMkey.apply newMasterEntry = .ok km' ∧
      lookupActkvno km' = .ok acts ∧ acts = [⟨1, 0⟩, ⟨3, 20⟩, ⟨2, 20⟩] ∧ acts ≠ [] := by
  obtain ⟨km', hrun⟩ := Wire.exists_of_isOk
    (x := [⟨2, 20, 10⟩, ⟨3, 20, 11⟩, ⟨2, 20, 12⟩].foldlM UseMkey.apply newMasterEntry) (by decide +kernel)
  have hfirst : lookupActkvno newMasterEntry = .ok [⟨1, 0⟩] := rfl
  obtain ⟨acts, hlookup, hne, -⟩ := activation_list_ordered hfirst hrun
  refine ⟨km', acts, hrun, hlookup, ?_, hne⟩
  have hread : ([⟨2, 20, 10⟩, ⟨3, 20, 11⟩, ⟨2, 20, 12⟩].foldlM UseMkey.apply newMasterEntry >>= lookupActkvno) =
      .ok [⟨1, 0⟩, ⟨3, 20⟩, ⟨2, 20⟩] := by decide +kernel
  rw [hrun] at hread
  exact Except.ok.inj (hlookup.symm.trans hread)

end

end Krb5Rs
