import Krb5Rs.Admin
import Krb5Rs.RecentRing

/-!
# The password history

`add_to_history` of `kdb/admin.rs` with every index and difference checked: where
the code would panic there is no result. Over any calls that each keep at least one
old password, it is a queue of the newest passwords, however the policy's number
changes from call to call.
-/

namespace Krb5Rs

def resetHistory (hist : PasswordHistory) (histKvno : UInt32) : PasswordHistory :=
  if hist.adminHistoryKvno ≠ histKvno then ⟨histKvno, 0, []⟩ else hist

/-- `(i + nkeys + knext - keep) % nkeys`. -/
def keptIndex (nkeys knext keep i : Nat) : Option Nat :=
  if i + nkeys + knext < keep ∨ nkeys = 0 then none else some ((i + nkeys + knext - keep) % nkeys)

def makeRoom (oldKeys : List (List KeyData)) (knext nhist : Nat) : Option (List (List KeyData) × Nat) :=
  let nkeys := oldKeys.length
  if nkeys + 1 < nhist then
    -- `Vec::insert` panics behind the end
    if min knext nkeys ≤ nkeys then some (oldKeys.insertIdx (min knext nkeys) [], knext) else none
  else if nhist < nkeys + 1 then do
    let kept ← (List.range (nhist - 1)).mapM fun i => (keptIndex nkeys knext (nhist - 1) i).bind (oldKeys[·]?)
    some (kept, 0)
  else some (oldKeys, knext)

/-- `old_keys[knext] = entry`. -/
def storeAt (oldKeys : List (List KeyData)) (knext : Nat) (entry : List KeyData) : Option (List (List KeyData)) :=
  if knext < oldKeys.length then some (oldKeys.set knext entry) else none

def addToHistoryChecked (hist : PasswordHistory) (histKvno pwHistoryNum : UInt32) (entry : List KeyData) :
    Option PasswordHistory :=
  if pwHistoryNum.toNat ≤ 1 then some hist
  else do
    let hist := resetHistory hist histKvno
    let keep := pwHistoryNum.toNat - 1
    let room ← makeRoom hist.oldKeys hist.oldKeyNext.toNat pwHistoryNum.toNat
    let knext := if room.1.length < room.2 + 1 then 0 else room.2
    let oldKeys ← storeAt room.1 knext entry
    let next := if knext + 1 = keep then 0 else knext + 1
    some { hist with oldKeyNext := UInt32.ofNat next, oldKeys := oldKeys }

def addAll (histKvno : UInt32) (hist : PasswordHistory) (calls : List (UInt32 × List KeyData)) :
    Option PasswordHistory :=
  calls.foldlM (fun hist call => addToHistoryChecked hist histKvno call.1 call.2) hist

def PasswordHistory.view (hist : PasswordHistory) : List (List KeyData) :=
  RecentRing.view hist.oldKeys hist.oldKeyNext.toNat

/-! ## No index is out of range -/

theorem mapM_eq_some {α β : Type} {f : α → Option β} {g : α → β} {l : List α} (h : ∀ x ∈ l, f x = some (g x)) :
    l.mapM f = some (l.map g) := by
  induction l with
  | nil => rfl
  | cons x l ih =>
    obtain ⟨hx, hl⟩ := List.forall_mem_cons.mp h
    rw [List.mapM_cons, hx, ih hl]
    rfl

theorem makeRoom_eq (oldKeys : List (List KeyData)) (knext : Nat) {nhist : Nat} (h : 2 ≤ nhist) :
    makeRoom oldKeys knext nhist = some (RecentRing.resize [] (nhist - 1) oldKeys knext) := by
  unfold makeRoom RecentRing.resize
  by_cases hshort : oldKeys.length + 1 < nhist
  · rw [if_pos hshort, if_pos (Nat.min_le_right _ _), if_pos (by omega)]
  rw [if_neg hshort, if_neg (show ¬ oldKeys.length < nhist - 1 by omega)]
  by_cases hlong : nhist < oldKeys.length + 1
  · have hkept : ∀ i ∈ List.range (nhist - 1),
        (keptIndex oldKeys.length knext (nhist - 1) i).bind (oldKeys[·]?) =
          some (oldKeys.getD (RecentRing.keptAt oldKeys.length knext (nhist - 1) i) []) := by
      intro i _
      have hlt : RecentRing.keptAt oldKeys.length knext (nhist - 1) i < oldKeys.length := Nat.mod_lt _ (by omega)
      rw [keptIndex, if_neg (by omega), Option.bind_some, List.getD_eq_getElem _ _ hlt]
      exact List.getElem?_eq_getElem hlt
    rw [if_pos hlong, if_pos (by omega), mapM_eq_some hkept]
    rfl
  · rw [if_neg hlong, if_neg (by omega)]

def pushed (hist : PasswordHistory) (keep : Nat) (entry : List KeyData) : PasswordHistory :=
  { hist with
    oldKeyNext := UInt32.ofNat (RecentRing.push [] keep hist.oldKeys hist.oldKeyNext.toNat entry).2
    oldKeys := (RecentRing.push [] keep hist.oldKeys hist.oldKeyNext.toNat entry).1 }

variable {pwHistoryNum histKvno : UInt32} {hist : PasswordHistory}

theorem addToHistoryChecked_eq (hist : PasswordHistory) (histKvno : UInt32) (h : 2 ≤ pwHistoryNum.toNat)
    (entry : List KeyData) : addToHistoryChecked hist histKvno pwHistoryNum entry =
      some (pushed (resetHistory hist histKvno) (pwHistoryNum.toNat - 1) entry) := by
  have hroom := makeRoom_eq (resetHistory hist histKvno).oldKeys (resetHistory hist histKvno).oldKeyNext.toNat h
  have hplace : RecentRing.place (RecentRing.resize [] (pwHistoryNum.toNat - 1) (resetHistory hist histKvno).oldKeys
      (resetHistory hist histKvno).oldKeyNext.toNat).1 (RecentRing.resize [] (pwHistoryNum.toNat - 1)
        (resetHistory hist histKvno).oldKeys (resetHistory hist histKvno).oldKeyNext.toNat).2 < _ :=
    RecentRing.place_lt (by rw [RecentRing.resize_length]; omega) _
  rw [addToHistoryChecked, if_neg (by omega)]
  dsimp only
  rw [hroom]
  dsimp only [Option.bind_eq_bind, Option.bind_some]
  rw [storeAt, if_pos (by exact hplace)]
  rfl

/-- No call panics, and the model of the administrative operations computes what is stored. -/
theorem addToHistoryChecked_some (hist : PasswordHistory) (histKvno pwHistoryNum : UInt32) (entry : List KeyData) :
    addToHistoryChecked hist histKvno pwHistoryNum entry = some (addToHistory hist histKvno pwHistoryNum entry) := by
  by_cases h : pwHistoryNum.toNat ≤ 1
  · rw [addToHistoryChecked, addToHistory, if_pos h, if_pos h]
  · have hshort (n : Nat) : n + 1 < pwHistoryNum.toNat ↔ n < pwHistoryNum.toNat - 1 := by omega
    have hlong (n : Nat) : pwHistoryNum.toNat < n + 1 ↔ pwHistoryNum.toNat - 1 < n := by omega
    rw [addToHistoryChecked_eq hist histKvno (by omega) entry, addToHistory, if_neg h]
    simp only [hshort, hlong]
    rfl

/-! ## Runs -/

/-- A history between calls: under the version of the history key, or empty. -/
structure InUse (histKvno : UInt32) (hist : PasswordHistory) : Prop where
  current : hist.adminHistoryKvno = histKvno ∨ hist.oldKeys = []
  placed : RecentRing.Placed hist.oldKeys hist.oldKeyNext.toNat

theorem InUse.reset (h : InUse histKvno hist) :
    RecentRing.Placed (resetHistory hist histKvno).oldKeys (resetHistory hist histKvno).oldKeyNext.toNat ∧
      (resetHistory hist histKvno).adminHistoryKvno = histKvno ∧ (resetHistory hist histKvno).view = hist.view := by
  unfold resetHistory
  split
  case isTrue hother =>
    have hempty := h.current.resolve_left hother
    refine ⟨.inl rfl, rfl, ?_⟩
    rw [PasswordHistory.view, PasswordHistory.view, hempty, RecentRing.view, RecentRing.view, List.rotate_nil,
      List.rotate_nil]
  case isFalse hsame => exact ⟨h.placed, not_not.mp hsame, rfl⟩

theorem pushed_next (h : 2 ≤ pwHistoryNum.toNat) (entry : List KeyData) :
    (pushed hist (pwHistoryNum.toNat - 1) entry).oldKeyNext.toNat =
      (RecentRing.push [] (pwHistoryNum.toNat - 1) hist.oldKeys hist.oldKeyNext.toNat entry).2 := by
  have hnext := RecentRing.push_next_le [] (show 0 < pwHistoryNum.toNat - 1 by omega) hist.oldKeys
    hist.oldKeyNext.toNat entry
  have hlen := RecentRing.resize_length [] (pwHistoryNum.toNat - 1) hist.oldKeys hist.oldKeyNext.toNat
  have hnum := pwHistoryNum.toNat_lt
  apply UInt32.toNat_ofNat_of_lt'
  rw [RecentRing.push, RecentRing.write, List.length_set] at hnext
  exact Nat.lt_of_le_of_lt (hnext.trans (by omega)) hnum

theorem InUse.step (h : InUse histKvno hist) (hnum : 2 ≤ pwHistoryNum.toNat) (entry : List KeyData) :
    ∃ after, addToHistoryChecked hist histKvno pwHistoryNum entry = some after ∧ InUse histKvno after ∧
      after.oldKeyNext.toNat ≤ after.oldKeys.length ∧
      after.view = (entry :: hist.view).take (pwHistoryNum.toNat - 1) := by
  obtain ⟨hplaced, hkvno, hview⟩ := h.reset
  have hkeep : 0 < pwHistoryNum.toNat - 1 := by omega
  have hnext : (pushed (resetHistory hist histKvno) (pwHistoryNum.toNat - 1) entry).oldKeyNext.toNat ≤
      (pushed (resetHistory hist histKvno) (pwHistoryNum.toNat - 1) entry).oldKeys.length := by
    rw [pushed_next hnum]
    exact RecentRing.push_next_le [] hkeep _ _ entry
  refine ⟨_, addToHistoryChecked_eq hist histKvno hnum entry, ⟨.inl hkvno, .inr hnext⟩, hnext, ?_⟩
  rw [PasswordHistory.view, pushed_next hnum, ← hview]
  exact RecentRing.view_push [] hkeep hplaced entry

theorem InUse.run (h : InUse histKvno hist) {calls : List (UInt32 × List KeyData)}
    (hcalls : ∀ call ∈ calls, 2 ≤ call.1.toNat) :
    ∃ after, addAll histKvno hist calls = some after ∧ InUse histKvno after := by
  induction calls generalizing hist with
  | nil => exact ⟨hist, rfl, h⟩
  | cons call calls ih =>
    obtain ⟨hcall, hcalls⟩ := List.forall_mem_cons.mp hcalls
    obtain ⟨next, hnext, huse, -, -⟩ := h.step hcall call.2
    obtain ⟨after, hafter, hafterUse⟩ := ih huse hcalls
    refine ⟨after, ?_, hafterUse⟩
    rw [addAll, List.foldlM_cons, hnext]
    exact hafter

/-- From an empty history, after any calls, one more call is a push on a queue of bounded length. -/
theorem history_is_recent_queue (histKvno : UInt32) {hist : PasswordHistory} (hempty : hist.oldKeys = [])
    {calls : List (UInt32 × List KeyData)} (hcalls : ∀ call ∈ calls, 2 ≤ call.1.toNat) {pwHistoryNum : UInt32}
    (hnum : 2 ≤ pwHistoryNum.toNat) (entry : List KeyData) : ∃ before after, addAll histKvno hist calls = some before ∧
      addToHistoryChecked before histKvno pwHistoryNum entry = some after ∧
      after.view = (entry :: before.view).take (pwHistoryNum.toNat - 1) ∧
      after.oldKeyNext.toNat ≤ after.oldKeys.length := by
  have hstart : InUse histKvno hist := ⟨.inr hempty, .inl hempty⟩
  obtain ⟨before, hbefore, huse⟩ := hstart.run hcalls
  obtain ⟨after, hafter, -, hnext, hview⟩ := huse.step hnum entry
  exact ⟨before, after, hbefore, hafter, hview, hnext⟩

/-- Three passwords kept, then five, then two. -/
theorem history_is_recent_queue_resized :
    ∃ before after, addAll 1 {} [(3, [⟨2, 1, [(17, [1])]⟩]), (3, [⟨2, 2, [(17, [2])]⟩]), (3, [⟨2, 3, [(17, [3])]⟩]),
        (5, [⟨2, 4, [(17, [4])]⟩])] = some before ∧
      addToHistoryChecked before 1 2 [⟨2, 5, [(17, [5])]⟩] = some after ∧
      after.view = ([⟨2, 5, [(17, [5])]⟩] :: before.view).take 1 ∧
      after.oldKeyNext.toNat ≤ after.oldKeys.length :=
  history_is_recent_queue 1 rfl (by decide) (by decide) _

end Krb5Rs
