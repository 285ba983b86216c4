import Krb5Rs.SeqState

/-!
# The replay window refines the set of received numbers

`check` keeps a 64-bit map of the numbers below `next`. Along every run of calls
the map tracks the set of relative numbers received (`Refines`), except that a
number 63 above `next` shifts the map by the word size.
-/

namespace Krb5Rs

/-! ## Word facts -/

theorem seqmaskOf_toNat (wide : Bool) : (seqmaskOf wide).toNat = 2 ^ (if wide then 64 else 32) - 1 := by
  cases wide <;> rfl

theorem and_seqmaskOf (wide : Bool) (x : UInt64) (h : x.toNat ≤ (seqmaskOf wide).toNat) :
    x &&& seqmaskOf wide = x := by
  apply UInt64.toNat_inj.mp
  rw [UInt64.toNat_and, seqmaskOf_toNat, Nat.and_two_pow_sub_one_eq_mod]
  rw [seqmaskOf_toNat] at h
  apply Nat.mod_eq_of_lt
  have : 0 < 2 ^ (if wide then 64 else 32) := Nat.two_pow_pos _
  omega

theorem toNat_add_one {x : UInt64} (h : x.toNat + 1 < 2 ^ 64) : (x + 1).toNat = x.toNat + 1 := by
  rw [UInt64.toNat_add, UInt64.toNat_one, Nat.mod_eq_of_lt h]

theorem one_shl_toBitVec (n : UInt64) (h : n.toNat < 64) :
    ((1 : UInt64) <<< n).toBitVec = BitVec.twoPow 64 n.toNat := by
  rw [UInt64.toBitVec_shiftLeft, BitVec.twoPow_eq]
  simp [BitVec.shiftLeft_eq', Nat.mod_eq_of_lt h]

theorem shl_toBitVec (x n : UInt64) (h : n.toNat < 64) : (x <<< n).toBitVec = x.toBitVec <<< n.toNat := by
  simp [BitVec.shiftLeft_eq', Nat.mod_eq_of_lt h]

/-! ## One call -/

structure Refines (base : UInt64) (doSequence wide : Bool) (s : SeqState) (l : List Nat) : Prop where
  doReplay : s.doReplay = true
  doSequence : s.doSequence = doSequence
  seqmask : s.seqmask = seqmaskOf wide
  base : s.base = base
  next : s.next.toNat = Window.edge l
  recvmap : Window.Tracks s.recvmap.toBitVec (Window.edge l) {n | n ∈ l}

theorem refines_new (base : UInt64) (doSequence wide : Bool) :
    Refines base doSequence wide (SeqState.new base true doSequence wide) [] := by
  refine ⟨rfl, rfl, rfl, rfl, rfl, ?_⟩
  have : {n : Nat | n ∈ ([] : List Nat)} = ∅ := by simp
  rw [this]
  exact Window.tracks_zero _

section
variable {base seq : UInt64} {doSequence wide : Bool} {s : SeqState} {l : List Nat} {seqs : List UInt64}

theorem mem_append_singleton (l : List Nat) (n : Nat) : {m | m ∈ l ++ [n]} = insert n {m | m ∈ l} := by
  ext m
  simp [or_comm]

theorem check_eq (h : Refines base doSequence wide s l) (overflowChecks : Bool) {rel : UInt64}
    (hrel : (seq - base) &&& seqmaskOf wide = rel) (hlt : rel.toNat < (seqmaskOf wide).toNat) :
    s.check overflowChecks seq =
      if s.next ≤ rel then
        (if 64 ≤ rel - s.next then some 1
          else (shlU64 overflowChecks s.recvmap (rel - s.next + 1)).map (· ||| 1)).map fun m =>
            ({ s with recvmap := m, next := rel + 1 }, windowStatus doSequence l rel.toNat)
      else if 64 < s.next - rel then some (s, windowStatus doSequence l rel.toNat)
      else if s.recvmap &&& ((1 : UInt64) <<< (s.next - rel - 1)) ≠ 0 then some (s, .duplicate)
      else some ({ s with recvmap := s.recvmap ||| ((1 : UInt64) <<< (s.next - rel - 1)) },
        if doSequence then .unseq else .complete) := by
  have hmask : (seqmaskOf wide).toNat < 2 ^ 64 := UInt64.toNat_lt _
  have hadd : addU64 overflowChecks rel 1 = some (rel + 1) := by
    unfold addU64
    rw [if_neg]
    rintro ⟨-, h2⟩
    simp at h2
    omega
  have hone : (rel + 1).toNat = rel.toNat + 1 := toNat_add_one (by omega)
  have hand : (rel + 1) &&& seqmaskOf wide = rel + 1 := by
    apply and_seqmaskOf
    omega
  unfold SeqState.check
  simp only [h.doReplay, Bool.true_eq_false, false_and, ite_false, h.base, h.seqmask, hrel, hadd,
    h.doSequence, true_and, Option.bind_eq_bind, Option.bind_some, hand]
  by_cases hle : s.next ≤ rel
  · simp only [hle, ite_true]
    have hle' : Window.edge l ≤ rel.toNat := by
      rw [← h.next]; exact UInt64.le_iff_toNat_le.mp hle
    have hsub : (rel - s.next).toNat = rel.toNat - Window.edge l := by
      rw [UInt64.toNat_sub_of_le _ _ hle, h.next]
    have hpos : (0 < rel - s.next) ↔ Window.edge l < rel.toNat := by
      rw [UInt64.lt_iff_toNat_lt, hsub, UInt64.toNat_zero]
      omega
    have hst : (if 0 < rel - s.next ∧ doSequence = true then SeqStatus.gap else .complete) =
        windowStatus doSequence l rel.toNat := by
      unfold windowStatus
      simp only [hle', ite_true, hpos]
    rw [hst]
    by_cases h64 : 64 ≤ rel - s.next
    · simp [h64]
    simp only [h64, ite_false]
    have hoff : addU64 overflowChecks (rel - s.next) 1 = some (rel - s.next + 1) := by
      unfold addU64
      rw [if_neg]
      rintro ⟨-, h2⟩
      have := mt UInt64.le_iff_toNat_le.mpr h64
      simp at h2 this
      omega
    rw [hoff]
    cases hs : shlU64 overflowChecks s.recvmap (rel - s.next + 1) <;> simp [hs]
  · simp only [hle, ite_false]
    have hlt' : rel.toNat < Window.edge l := by
      rw [← h.next]
      have := mt UInt64.le_iff_toNat_le.mpr hle
      omega
    by_cases h64 : 64 < s.next - rel
    · have hsub : (s.next - rel).toNat = Window.edge l - rel.toNat := by
        rw [UInt64.toNat_sub_of_le, h.next]
        rw [UInt64.le_iff_toNat_le, h.next]; omega
      have h64' : 64 < Window.edge l - rel.toNat := by
        rw [← hsub]; exact UInt64.lt_iff_toNat_lt.mp h64
      have : ¬ Window.edge l ≤ rel.toNat := by omega
      simp only [h64, ite_true, windowStatus, this, ite_false, h64']
    · simp only [h64, ite_false]

/-- A number that is not 63 above the next expected one gets the status the
set of received numbers calls for, and joins the set. -/
theorem check_step (h : Refines base doSequence wide s l) (overflowChecks : Bool)
    (hlt : relative base wide seq < (seqmaskOf wide).toNat) (hjump : relative base wide seq ≠ Window.edge l + 63) :
    ∃ s', s.check overflowChecks seq = some (s', windowStatus doSequence l (relative base wide seq)) ∧
      Refines base doSequence wide s' (l ++ [relative base wide seq]) := by
  obtain ⟨rel, hrel⟩ : ∃ rel, (seq - base) &&& seqmaskOf wide = rel := ⟨_, rfl⟩
  have hn : relative base wide seq = rel.toNat := by rw [relative, hrel]
  rw [hn] at hlt hjump ⊢
  have hmask : (seqmaskOf wide).toNat < 2 ^ 64 := UInt64.toNat_lt _
  have hone : (rel + 1).toNat = rel.toNat + 1 := toNat_add_one (by omega)
  have hseen : ∀ n ∈ {n | n ∈ l}, n < Window.edge l := fun n hn => Window.lt_edge hn
  rw [check_eq h overflowChecks hrel hlt]
  by_cases hle : s.next ≤ rel
  · have hle' : Window.edge l ≤ rel.toNat := by
      rw [← h.next]; exact UInt64.le_iff_toNat_le.mp hle
    have hsub : (rel - s.next).toNat = rel.toNat - Window.edge l := by
      rw [UInt64.toNat_sub_of_le _ _ hle, h.next]
    have hedge : Window.edge (l ++ [rel.toNat]) = rel.toNat + 1 := by
      rw [Window.edge_append_singleton]; omega
    simp only [hle, ite_true]
    by_cases h64 : 64 ≤ rel - s.next
    · have h64' : 64 ≤ rel.toNat - Window.edge l := by
        rw [← hsub]; exact UInt64.le_iff_toNat_le.mp h64
      refine ⟨{ s with recvmap := 1, next := rel + 1 }, by simp only [h64, ite_true, Option.map_some],
        h.doReplay, h.doSequence, h.seqmask, h.base, ?_, ?_⟩
      · rw [hedge, hone]
      · rw [hedge, mem_append_singleton]
        exact Window.tracks_jump hseen hle' (by omega)
    · have h64' : rel.toNat - Window.edge l < 63 := by
        have := mt UInt64.le_iff_toNat_le.mpr h64
        simp at this
        omega
      have hamt : (rel - s.next + 1).toNat = rel.toNat - Window.edge l + 1 := by
        rw [toNat_add_one, hsub]
        omega
      have hshl : shlU64 overflowChecks s.recvmap (rel - s.next + 1) =
          some (s.recvmap <<< (rel - s.next + 1)) := by
        unfold shlU64
        rw [if_neg]
        rintro ⟨-, h2⟩
        have := UInt64.le_iff_toNat_le.mp h2
        simp at this
        omega
      refine ⟨{ s with recvmap := s.recvmap <<< (rel - s.next + 1) ||| 1, next := rel + 1 },
        by simp only [h64, ite_false, hshl, Option.map_some], h.doReplay, h.doSequence, h.seqmask,
        h.base, ?_, ?_⟩
      · rw [hedge, hone]
      · rw [hedge, mem_append_singleton, UInt64.toBitVec_or, shl_toBitVec _ _ (by omega), hamt]
        exact h.recvmap.shift hseen hle' (by omega)
  · have hlt' : rel.toNat < Window.edge l := by
      rw [← h.next]
      have := mt UInt64.le_iff_toNat_le.mpr hle
      omega
    have hedge : Window.edge (l ++ [rel.toNat]) = Window.edge l := by
      rw [Window.edge_append_singleton]; omega
    have hsub : (s.next - rel).toNat = Window.edge l - rel.toNat := by
      rw [UInt64.toNat_sub_of_le, h.next]
      rw [UInt64.le_iff_toNat_le, h.next]; omega
    simp only [hle, ite_false]
    by_cases h64 : 64 < s.next - rel
    · have h64' : 64 < Window.edge l - rel.toNat := by
        rw [← hsub]; exact UInt64.lt_iff_toNat_lt.mp h64
      -- Too far below the edge: the map has no bit for it and stays as it is.
      refine ⟨_, by simp only [h64, ite_true], h.doReplay, h.doSequence, h.seqmask, h.base, ?_, ?_⟩
      · rw [hedge, h.next]
      · rw [hedge, mem_append_singleton]
        exact h.recvmap.insert_below (by omega)
    · have h64' : Window.edge l - rel.toNat ≤ 64 := by
        have := mt UInt64.lt_iff_toNat_lt.mpr h64
        rw [hsub] at this
        simpa using this
      have hbit : ((1 : UInt64) <<< (s.next - rel - 1)).toBitVec =
          BitVec.twoPow 64 (Window.edge l - rel.toNat - 1) := by
        have : (s.next - rel - 1).toNat = Window.edge l - rel.toNat - 1 := by
          rw [UInt64.toNat_sub_of_le, hsub]
          · rfl
          · rw [UInt64.le_iff_toNat_le, hsub]; simp; omega
        rw [one_shl_toBitVec _ (by omega), this]
      have htest := h.recvmap.test hlt' h64'
      have hdup : s.recvmap &&& ((1 : UInt64) <<< (s.next - rel - 1)) ≠ 0 ↔ rel.toNat ∈ l := by
        refine Iff.trans ?_ htest
        rw [← hbit, ← UInt64.toBitVec_and]
        exact not_congr UInt64.toBitVec_inj.symm
      have hst : ¬ Window.edge l ≤ rel.toNat ∧ ¬ 64 < Window.edge l - rel.toNat := by omega
      simp only [h64, ite_false, hdup, windowStatus, hst.1, hst.2]
      by_cases hmem : rel.toNat ∈ l
      · refine ⟨_, by simp only [hmem, ite_true], h.doReplay, h.doSequence, h.seqmask, h.base, ?_, ?_⟩
        · rw [hedge, h.next]
        · rw [hedge, mem_append_singleton, Set.insert_eq_of_mem (by exact hmem)]
          exact h.recvmap
      · refine ⟨{ s with recvmap := s.recvmap ||| ((1 : UInt64) <<< (s.next - rel - 1)) },
          by simp only [hmem, ite_false], h.doReplay, h.doSequence, h.seqmask, h.base, ?_, ?_⟩
        · rw [hedge, h.next]
        · rw [hedge, mem_append_singleton, UInt64.toBitVec_or, hbit]
          exact h.recvmap.mark hlt'

theorem check_edgeJump (h : Refines base doSequence wide s l) (hlt : relative base wide seq < (seqmaskOf wide).toNat)
    (hjump : relative base wide seq = Window.edge l + 63) : s.check true seq = none := by
  obtain ⟨rel, hrel⟩ : ∃ rel, (seq - base) &&& seqmaskOf wide = rel := ⟨_, rfl⟩
  have hn : relative base wide seq = rel.toNat := by rw [relative, hrel]
  rw [hn] at hlt hjump
  have hle : s.next ≤ rel := by
    rw [UInt64.le_iff_toNat_le, h.next]; omega
  have hsub : (rel - s.next).toNat = 63 := by
    rw [UInt64.toNat_sub_of_le _ _ hle, h.next]; omega
  have h64 : ¬ 64 ≤ rel - s.next := by
    rw [UInt64.le_iff_toNat_le, hsub]; decide
  have hamt : 64 ≤ rel - s.next + 1 := by
    rw [UInt64.le_iff_toNat_le, toNat_add_one (by omega), hsub]
    decide
  have hshl : shlU64 true s.recvmap (rel - s.next + 1) = none := if_pos ⟨rfl, hamt⟩
  rw [check_eq h true hrel hlt]
  simp only [hle, ite_true, h64, ite_false, hshl, Option.map_none]

/-! ## Runs of calls -/

theorem checkAll_exact (overflowChecks : Bool) (hlt : ∀ seq ∈ seqs, relative base wide seq < (seqmaskOf wide).toNat)
    (hjump : NoEdgeJump l (seqs.map (relative base wide))) (h : Refines base doSequence wide s l) :
    s.checkAll overflowChecks seqs =
      some (windowStatuses doSequence l (seqs.map (relative base wide))) := by
  induction seqs generalizing s l with
  | nil => rfl
  | cons seq rest ih =>
    obtain ⟨hj, hjs⟩ := hjump
    obtain ⟨s', hc, hr⟩ := check_step h overflowChecks (hlt seq (by simp)) hj
    have hrest := ih (fun q hq => hlt q (by simp [hq])) hjs hr
    simp [SeqState.checkAll, hc, hrest, windowStatuses]

theorem noEdgeJump_of_checkAll {out : List SeqStatus}
    (hlt : ∀ seq ∈ seqs, relative base wide seq < (seqmaskOf wide).toNat)
    (h : Refines base doSequence wide s l) (hrun : s.checkAll true seqs = some out) :
    NoEdgeJump l (seqs.map (relative base wide)) := by
  induction seqs generalizing s l out with
  | nil => trivial
  | cons seq rest ih =>
    have hseq := hlt seq (by simp)
    have hj : relative base wide seq ≠ Window.edge l + 63 := by
      intro hj
      rw [SeqState.checkAll, check_edgeJump h hseq hj] at hrun
      cases hrun
    obtain ⟨s', hc, hr⟩ := check_step h true hseq hj
    refine ⟨hj, ?_⟩
    rw [SeqState.checkAll, hc] at hrun
    cases hs : s'.checkAll true rest with
    | none => simp [hs] at hrun
    | some statuses => exact ih (fun q hq => hlt q (by simp [hq])) hr hs

end

/-- As long as no relative number wraps, the calls return what the set of
received numbers calls for, in either build, when no number arrives exactly 63
above the one expected next; with overflow checks only then. -/
theorem replay_window_exact (base : UInt64) (doSequence wide : Bool) (seqs : List UInt64)
    (hlt : ∀ seq ∈ seqs, relative base wide seq < (seqmaskOf wide).toNat) :
    (∀ overflowChecks, NoEdgeJump [] (seqs.map (relative base wide)) →
      (SeqState.new base true doSequence wide).checkAll overflowChecks seqs =
        some (windowStatuses doSequence [] (seqs.map (relative base wide)))) ∧
    ((SeqState.new base true doSequence wide).checkAll true seqs =
        some (windowStatuses doSequence [] (seqs.map (relative base wide))) →
      NoEdgeJump [] (seqs.map (relative base wide))) :=
  ⟨fun checks hj => checkAll_exact checks hlt hj (refines_new base doSequence wide),
    noEdgeJump_of_checkAll hlt (refines_new base doSequence wide)⟩

/-- Sequence numbers 7, 9, 7 on base 5: a gap, then a replay. -/
theorem replay_window_exact_base_five : (SeqState.new 5 true false false).checkAll true [7, 9, 7] =
      some [.complete, .complete, .duplicate] := by
  refine (replay_window_exact 5 false false [7, 9, 7] ?_).1 true (by decide)
  simp only [List.forall_mem_cons]
  exact ⟨by decide, by decide, by decide, by simp⟩

/-- The first number received, 63 above the base, panics. Without overflow
checks, after 0, 1 and 65 the number 64 is called a duplicate. -/
theorem replay_window_edge_jump : (SeqState.new 0 true false true).checkAll true [63] = none ∧
    (SeqState.new 0 true false true).checkAll false [0, 1, 65, 64] =
      some [.complete, .complete, .complete, .duplicate] ∧
    windowStatuses false [] [0, 1, 65, 64] = [.complete, .complete, .complete, .complete] := by
  decide

end Krb5Rs
