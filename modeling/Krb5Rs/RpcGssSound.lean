import Krb5Rs.RpcGss
import Krb5Rs.Window
import Mathlib.Data.Set.Image

/-!
# The RPCSEC_GSS replay window

The window is checked before a call's MIC and advanced after it verifies. Over
the life of a context the 32-bit mask tracks the numbers that passed MIC
verification (`WindowInv`), so no number acts twice.
-/

namespace Krb5Rs

section
variable {M : Mech} {s : GssServer M} {e : Established M} {call : Call} {seq : UInt32} {calls : List Call}

/-! ## One call -/

theorem Presents.unique {gc gc' : Cred} (h : e.Presents call gc) (h' : e.Presents call gc') : gc = gc' := by
  have := h.decode.symm.trans h'.decode
  exact Except.ok.inj this

theorem data_cases (h : s.est = some e) (call : Call) (gc : Cred) (service : Service) :
    ((gc.proc = procDestroy → call.header.proc = 0) ∧ gc.handle = serverHandle ∧
        service = e.service ∧ e.micGood call = true ∧
        ((s.data call gc service).2.est = none ∨
          ∃ ctx, (s.data call gc service).2.est = some { e.advance gc.seq with ctx := ctx })) ∨
      (¬ ((gc.proc = procDestroy → call.header.proc = 0) ∧ gc.handle = serverHandle ∧
          service = e.service ∧ e.micGood call = true) ∧
        (∃ ctx, (s.data call gc service).2.est = some { e with ctx := ctx }) ∧
        ∀ p a q, (s.data call gc service).1 ≠ .dispatch p a q) := by
  unfold GssServer.data Established.micGood
  simp only [h]
  by_cases hd : gc.proc = procDestroy ∧ call.header.proc ≠ 0
  · rw [if_pos hd]
    exact Or.inr ⟨fun hc => hd.2 (hc.1 hd.1), ⟨e.ctx, h⟩, by simp [authError]⟩
  rw [if_neg hd]
  by_cases hh : gc.handle ≠ serverHandle ∨ service ≠ e.service
  · rw [if_pos hh]
    refine Or.inr ⟨fun hc => ?_, ⟨e.ctx, h⟩, by simp [authError]⟩
    exact hh.elim (· hc.2.1) (· hc.2.2.1)
  rw [if_neg hh]
  have hdest : gc.proc = procDestroy → call.header.proc = 0 := by
    intro hp
    by_contra hne
    exact hd ⟨hp, hne⟩
  have hhandle : gc.handle = serverHandle := by
    by_contra hne
    exact hh (Or.inl hne)
  have hservice : service = e.service := by
    by_contra hne
    exact hh (Or.inr hne)
  obtain ⟨good, ctx, hv⟩ : ∃ good ctx,
      M.verifyMic e.ctx call.header.signedPart call.header.verf.body = (good, ctx) := ⟨_, _, rfl⟩
  simp only [hv]
  cases good with
  | false => exact Or.inr ⟨fun hc => by simp at hc, ⟨ctx, rfl⟩, by simp [authError]⟩
  | true =>
    refine Or.inl ⟨hdest, hhandle, hservice, rfl, ?_⟩
    have hadv : ({ e with ctx := ctx } : Established M).advance gc.seq =
        { e.advance gc.seq with ctx := ctx } := by
      unfold Established.advance
      by_cases hlt : e.seqlast < gc.seq <;> simp [hlt]
    simp only [Bool.true_eq_false, ite_false, hadv]
    by_cases hp : gc.proc = procDestroy
    · simp only [hp, ite_true]
      split <;> exact Or.inl rfl
    · simp only [hp, ite_false]
      split <;> exact Or.inr ⟨_, rfl⟩

/-- What a call can do to an established context: it passes the window check
and MIC verification and is recorded, or it leaves the window as it was. -/
theorem handle_cases (h : s.est = some e) (call : Call) :
    (∃ gc, e.Presents call gc ∧ e.windowAccepts gc.seq = true ∧ e.micGood call = true ∧
        ((s.handle call).2.est = none ∨
          ∃ ctx, (s.handle call).2.est = some { e.advance gc.seq with ctx := ctx })) ∨
      ((∀ seq, ¬ s.Verified call seq) ∧ (∃ ctx, (s.handle call).2.est = some { e with ctx := ctx }) ∧
        ∀ p a q, (s.handle call).1 ≠ .dispatch p a q) := by
  have hsame : ∃ ctx, s.est = some { e with ctx := ctx } := ⟨e.ctx, h⟩
  have hunverified : (∀ gc, ¬ (e.Presents call gc ∧ e.windowAccepts gc.seq = true ∧
      e.micGood call = true)) → ∀ seq, ¬ s.Verified call seq := by
    rintro hno seq ⟨e', gc, he', hp, rfl, hw, hm⟩
    rw [h] at he'
    cases he'
    exact hno gc ⟨hp, hw, hm⟩
  unfold GssServer.handle
  by_cases hf : call.header.cred.flavor ≠ rpcsecGss ∨ call.header.cred.body = []
  · simp only [hf, ite_true]
    refine Or.inr ⟨hunverified ?_, hsame, by simp [authError]⟩
    rintro gc ⟨hp, -⟩
    exact hf.elim (· hp.flavor) hp.body
  simp only [hf, ite_false]
  cases hdec : Cred.decode call.header.cred.body with
  | error err =>
    refine Or.inr ⟨hunverified ?_, hsame, by simp [authError]⟩
    rintro gc ⟨hp, -⟩
    rw [hp.decode] at hdec
    cases hdec
  | ok gc =>
    have hgc : ∀ gc', e.Presents call gc' → gc' = gc := fun gc' hp =>
      Except.ok.inj (hp.decode.symm.trans hdec)
    dsimp only
    cases hsvc : Service.fromCode gc.service with
    | none =>
      refine Or.inr ⟨hunverified ?_, hsame, by simp [authError]⟩
      rintro gc' ⟨hp, -⟩
      obtain rfl := hgc gc' hp
      rw [hp.service] at hsvc
      cases hsvc
    | some service =>
      dsimp only
      by_cases hver : gc.version ≠ rpcsecGssVersion
      · rw [if_pos hver]
        refine Or.inr ⟨hunverified ?_, hsame, by simp [authError]⟩
        rintro gc' ⟨hp, -⟩
        obtain rfl := hgc gc' hp
        exact hver hp.version
      rw [if_neg hver]
      by_cases hinit : gc.proc = procInit ∨ gc.proc = procContinueInit
      · rw [if_pos ⟨by simp [h], hinit⟩]
        refine Or.inr ⟨hunverified ?_, hsame, by simp [authError]⟩
        rintro gc' ⟨hp, -⟩
        obtain rfl := hgc gc' hp
        rcases hp.proc with hp | hp <;> rw [hp] at hinit <;> revert hinit <;> decide
      rw [if_neg (fun hc => hinit hc.2)]
      by_cases hwin : e.windowAccepts gc.seq = true
      · rw [if_neg (by simp [h, hwin]), if_neg hinit]
        by_cases hproc : gc.proc = procData ∨ gc.proc = procDestroy
        · rw [if_pos hproc]
          rcases data_cases h call gc service with ⟨hd, hh, hs, hm, hout⟩ | ⟨hno, hout, hdis⟩
          · refine Or.inl ⟨gc, ⟨?_, ?_, hdec, ?_, hproc, hd, hh, hs ▸ hsvc⟩, hwin, hm, hout⟩
            · by_contra hne
              exact hf (Or.inl hne)
            · exact fun hb => hf (Or.inr hb)
            · by_contra hne
              exact hver hne
          · refine Or.inr ⟨hunverified ?_, hout, hdis⟩
            rintro gc' ⟨hp, -, hm⟩
            obtain rfl := hgc gc' hp
            have hsv := hp.service
            rw [hsvc] at hsv
            exact hno ⟨hp.destroy, hp.handle, Option.some.inj hsv, hm⟩
        · rw [if_neg hproc]
          refine Or.inr ⟨hunverified ?_, hsame, by simp [authError]⟩
          rintro gc' ⟨hp, -⟩
          obtain rfl := hgc gc' hp
          exact hproc hp.proc
      · rw [if_pos (by simpa [h] using hwin)]
        refine Or.inr ⟨hunverified ?_, hsame, by simp [authError]⟩
        rintro gc' ⟨hp, hw, -⟩
        obtain rfl := hgc gc' hp
        exact hwin hw

theorem handle_establishes (h : s.est = none) (he : (s.handle call).2.est = some e) :
    e.seqlast = 0 ∧ e.seqmask = 0 := by
  have hinit : ∀ service, (s.init call service).2.est = some e → e.seqlast = 0 ∧ e.seqmask = 0 := by
    intro service hi
    unfold GssServer.init at hi
    repeat' split at hi
    all_goals
      first
      | (obtain rfl := Option.some.inj hi; exact ⟨rfl, rfl⟩)
      | (simp only [h] at hi; cases hi)
  unfold GssServer.handle at he
  dsimp only at he
  repeat' split at he
  all_goals
    first
    | (simp only [h] at he; cases he)
    | exact hinit _ he
    | (simp only [GssServer.data, h] at he; cases he)

/-! ## The mask as a set of numbers -/

/-- The window of `e` records exactly the numbers `passed`. -/
structure WindowInv (e : Established M) (passed : Set UInt32) : Prop where
  le : ∀ seq ∈ passed, seq ≤ e.seqlast
  tracks : Window.Tracks e.seqmask.toBitVec (e.seqlast.toNat + 1) (UInt32.toNat '' passed)

theorem windowInv_fresh (hl : e.seqlast = 0) (hm : e.seqmask = 0) : WindowInv e ∅ := by
  refine ⟨by simp, ?_⟩
  rw [hl, hm, Set.image_empty]
  exact Window.tracks_zero _

theorem WindowInv.ctx {passed : Set UInt32} (h : WindowInv e passed) (ctx : M.Ctx) :
    WindowInv { e with ctx := ctx } passed := ⟨h.le, h.tracks⟩

theorem one_shl32_toBitVec (n : UInt32) (h : n.toNat < 32) :
    ((1 : UInt32) <<< n).toBitVec = BitVec.twoPow 32 n.toNat := by
  rw [UInt32.toBitVec_shiftLeft, BitVec.twoPow_eq]
  simp [BitVec.shiftLeft_eq', Nat.mod_eq_of_lt h]

theorem shl32_toBitVec (x n : UInt32) (h : n.toNat < 32) : (x <<< n).toBitVec = x.toBitVec <<< n.toNat := by
  simp [BitVec.shiftLeft_eq', Nat.mod_eq_of_lt h]

theorem le_maxSeq_of_windowAccepts (h : e.windowAccepts seq = true) : seq ≤ maxSeq := by
  unfold Established.windowAccepts at h
  by_cases hlt : maxSeq < seq
  · rw [if_pos hlt] at h; cases h
  · exact UInt32.not_lt.mp hlt

theorem windowAccepts_iff {passed : Set UInt32} (h : WindowInv e passed) (hmax : seq ≤ maxSeq) :
    e.windowAccepts seq = true ↔
      e.seqlast < seq ∨ (e.seqlast.toNat - seq.toNat < 32 ∧ seq ∉ passed) := by
  unfold Established.windowAccepts
  rw [if_neg (UInt32.not_lt.mpr hmax)]
  by_cases hle : seq ≤ e.seqlast
  · rw [if_pos hle]
    have hle' := UInt32.le_iff_toNat_le.mp hle
    have hsub := UInt32.toNat_sub_of_le _ _ hle
    have hwin : seqWindow ≤ e.seqlast - seq ↔ 32 ≤ e.seqlast.toNat - seq.toNat := by
      rw [UInt32.le_iff_toNat_le, hsub]; rfl
    have hnlt := UInt32.not_lt.mpr hle
    simp only [hnlt, false_or, Bool.not_eq_true', Bool.or_eq_false_iff, decide_eq_false_iff_not, hwin,
      Nat.not_le, ne_eq, not_not]
    refine and_congr_right fun h32 => ?_
    have hidx : e.seqlast.toNat + 1 - seq.toNat - 1 = (e.seqlast - seq).toNat := by omega
    have htest := h.tracks.test (n := seq.toNat) (by omega) (by omega)
    rw [hidx, ← one_shl32_toBitVec _ (by omega), ← UInt32.toBitVec_and] at htest
    have hmem : seq.toNat ∈ UInt32.toNat '' passed ↔ seq ∈ passed :=
      Function.Injective.mem_set_image fun _ _ => UInt32.toNat_inj.mp
    rw [hmem] at htest
    rw [← not_iff_not, not_not, ← htest]
    exact not_congr UInt32.toBitVec_inj.symm
  · rw [if_neg hle]
    simp [UInt32.not_le.mp hle]

theorem WindowInv.advance {passed : Set UInt32} (h : WindowInv e passed)
    (hacc : e.windowAccepts seq = true) : WindowInv (e.advance seq) (insert seq passed) := by
  have hseen : ∀ n ∈ UInt32.toNat '' passed, n < e.seqlast.toNat + 1 := by
    rintro _ ⟨seq', hs, rfl⟩
    have := UInt32.le_iff_toNat_le.mp (h.le seq' hs)
    omega
  unfold Established.advance
  by_cases hlt : e.seqlast < seq
  · rw [if_pos hlt]
    have hlt' := UInt32.lt_iff_toNat_lt.mp hlt
    have hsub := UInt32.toNat_sub_of_le _ _ (UInt32.le_of_lt hlt)
    refine ⟨?_, ?_⟩
    · rintro seq' (rfl | hs)
      · exact UInt32.le_refl _
      · exact UInt32.le_of_lt (UInt32.lt_of_le_of_lt (h.le seq' hs) hlt)
    · rw [Set.image_insert_eq, UInt32.toBitVec_or]
      unfold shlOrZero
      by_cases h32 : seq - e.seqlast < 32
      · have h32' : seq.toNat - e.seqlast.toNat < 32 := by
          rw [← hsub]; exact UInt32.lt_iff_toNat_lt.mp h32
        rw [if_pos h32, shl32_toBitVec _ _ (by omega), hsub]
        have hshift := h.tracks.shift hseen (n := seq.toNat) (by omega) (by omega)
        have hamt : seq.toNat - (e.seqlast.toNat + 1) + 1 = seq.toNat - e.seqlast.toNat := by omega
        rwa [hamt] at hshift
      · have h32' : 32 ≤ seq.toNat - e.seqlast.toNat := by
          have := mt UInt32.lt_iff_toNat_lt.mpr h32
          rw [hsub] at this
          simpa using this
        rw [if_neg h32]
        exact Window.tracks_jump hseen (n := seq.toNat) (by omega) (by omega)
  · rw [if_neg hlt]
    have hle := UInt32.not_lt.mp hlt
    have hle' := UInt32.le_iff_toNat_le.mp hle
    have hsub := UInt32.toNat_sub_of_le _ _ hle
    have hoff : (e.seqlast - seq).toNat < 32 := by
      rcases (windowAccepts_iff h (le_maxSeq_of_windowAccepts hacc)).mp hacc with hgt | ⟨h32, -⟩
      · exact absurd hgt hlt
      · rwa [hsub]
    refine ⟨?_, ?_⟩
    · rintro seq' (rfl | hs)
      · exact hle
      · exact h.le seq' hs
    · rw [Set.image_insert_eq, UInt32.toBitVec_or, one_shl32_toBitVec _ hoff, hsub]
      have hmark := h.tracks.mark (n := seq.toNat) (by omega)
      have hidx : e.seqlast.toNat + 1 - seq.toNat - 1 = e.seqlast.toNat - seq.toNat := by omega
      rwa [hidx] at hmark

/-! ## The life of a context -/

/-- The numbers that passed MIC verification in the run of `calls` from `s`. -/
def GssServer.passed (s : GssServer M) (calls : List Call) : Set UInt32 :=
  {seq | ∃ pre c post, calls = pre ++ c :: post ∧ (s.after pre).Verified c seq}

theorem after_concat (s : GssServer M) (calls : List Call) (c : Call) :
    s.after (calls ++ [c]) = ((s.after calls).handle c).2 := by
  simp [GssServer.after, List.foldl_append]

theorem passed_nil (s : GssServer M) : s.passed [] = ∅ := by
  simp [GssServer.passed]

theorem passed_concat (s : GssServer M) (calls : List Call) (c : Call) :
    s.passed (calls ++ [c]) = {seq | (s.after calls).Verified c seq} ∪ s.passed calls := by
  ext seq
  constructor
  · rintro ⟨pre, d, post, heq, hv⟩
    rcases List.eq_nil_or_concat post with rfl | ⟨post', x, rfl⟩
    · obtain ⟨rfl, hd⟩ := List.append_inj' heq rfl
      obtain rfl := (List.cons.inj hd).1
      exact Or.inl hv
    · refine Or.inr ⟨pre, d, post', ?_, hv⟩
      have heq' : calls ++ [c] = (pre ++ d :: post') ++ [x] := by simpa using heq
      exact (List.append_inj' heq' rfl).1
  · rintro (hv | ⟨pre, d, post, rfl, hv⟩)
    · exact ⟨calls, c, [], rfl, hv⟩
    · exact ⟨pre, d, post ++ [c], by simp, hv⟩

theorem alive_concat {c : Call} : s.Alive (calls ++ [c]) ↔ s.Alive calls ∧ (s.after calls).est.isSome := by
  induction calls generalizing s with
  | nil => simp [GssServer.Alive, GssServer.after]
  | cons d calls ih =>
    simp only [List.cons_append, GssServer.Alive, ih, GssServer.after, List.foldl_cons, and_assoc]

theorem alive_append {l₁ : List Call} (l₂ : List Call) (h : s.Alive (l₁ ++ l₂)) : s.Alive l₁ := by
  induction l₂ using List.reverseRecOn with
  | nil => simpa using h
  | append_singleton l₂ c ih =>
    rw [← List.append_assoc, alive_concat] at h
    exact ih h.1

theorem windowInv_after {e₀ : Established M} (h₀ : s.est = some e₀)
    (hl : e₀.seqlast = 0) (hm : e₀.seqmask = 0) (halive : s.Alive calls) (he : (s.after calls).est = some e) : WindowInv e (s.passed calls) := by
  induction calls using List.reverseRecOn generalizing e with
  | nil =>
    rw [passed_nil]
    cases h₀.symm.trans he
    exact windowInv_fresh hl hm
  | append_singleton calls c ih =>
    obtain ⟨halive', hsome⟩ := alive_concat.mp halive
    obtain ⟨e', he'⟩ := Option.isSome_iff_exists.mp hsome
    have hinv := ih halive' he'
    rw [after_concat] at he
    rw [passed_concat]
    rcases handle_cases he' c with ⟨gc, hp, hw, hm', hout⟩ | ⟨hno, ⟨ctx, hout⟩, -⟩
    · have hver : {seq | (s.after calls).Verified c seq} = {gc.seq} := by
        ext seq
        constructor
        · rintro ⟨e'', gc', he'', hp', rfl, -⟩
          cases he'.symm.trans he''
          exact congrArg Cred.seq (Presents.unique hp' hp)
        · rintro rfl
          exact ⟨e', gc, he', hp, rfl, hw, hm'⟩
      rw [hver, Set.singleton_union]
      rcases hout with hnone | ⟨ctx, hout⟩
      · rw [hnone] at he; cases he
      · cases hout.symm.trans he
        exact (hinv.advance hw).ctx ctx
    · have hver : {seq | (s.after calls).Verified c seq} = ∅ := by
        ext seq
        exact iff_of_false (hno seq) (by simp)
      rw [hver, Set.empty_union]
      cases hout.symm.trans he
      exact hinv.ctx ctx

theorem verified_of_acts (h : s.est = some e) {c : Call}
    (hact : s.Acts c) : ∃ seq, c.credSeq = some seq ∧ s.Verified c seq := by
  rcases handle_cases h c with ⟨gc, hp, hw, hm, -⟩ | ⟨-, ⟨ctx, hout⟩, hdis⟩
  · refine ⟨gc.seq, ?_, e, gc, h, hp, rfl, hw, hm⟩
    simp only [Call.credSeq, hp.decode]
  · rcases hact with ⟨p, a, q, hd⟩ | ⟨-, hnone⟩
    · exact absurd hd (hdis p a q)
    · rw [hout] at hnone; cases hnone

end

/-- From the call that establishes a context on, as long as it lives: no two
calls with one credential sequence number both act (are dispatched, or destroy
the context); a call whose MIC does not verify leaves the window unchanged; and
a well-formed call with a valid MIC passes the window check exactly when its
number is above `seqlast`, or within 32 of it and not verified before. -/
theorem rpcsec_gss_acts_once {M : Mech} (s : GssServer M) (opening : Call) (calls : List Call)
    (hnew : s.est = none) (halive : (s.handle opening).2.Alive calls) :
    (∀ pre c mid d post, calls = pre ++ c :: (mid ++ d :: post) →
      ((s.handle opening).2.after pre).Acts c →
      ((s.handle opening).2.after (pre ++ c :: mid)).Acts d → c.credSeq ≠ d.credSeq) ∧
    (∀ pre c post e, calls = pre ++ c :: post → ((s.handle opening).2.after pre).est = some e →
      e.micGood c = false →
      ∃ e', (((s.handle opening).2.after pre).handle c).2.est = some e' ∧
        e'.seqlast = e.seqlast ∧ e'.seqmask = e.seqmask) ∧
    (∀ pre c post e gc, calls = pre ++ c :: post → ((s.handle opening).2.after pre).est = some e →
      e.Presents c gc → e.micGood c = true → gc.seq ≤ maxSeq →
      (e.windowAccepts gc.seq = true ↔
        e.seqlast < gc.seq ∨
          (e.seqlast.toNat - gc.seq.toNat < 32 ∧ gc.seq ∉ (s.handle opening).2.passed pre))) := by
  set s₁ := (s.handle opening).2 with hs₁
  have hinv : ∀ pre c post e, calls = pre ++ c :: post → (s₁.after pre).est = some e →
      WindowInv e (s₁.passed pre) := by
    rintro pre c post e rfl he
    have hhead : s₁.est.isSome := by
      cases pre with
      | nil => exact halive.1
      | cons d pre => exact halive.1
    obtain ⟨e₀, he₀⟩ := Option.isSome_iff_exists.mp hhead
    obtain ⟨hl, hm⟩ := handle_establishes hnew he₀
    exact windowInv_after he₀ hl hm (alive_append _ halive) he
  refine ⟨?_, ?_, ?_⟩
  · rintro pre c mid d post rfl hc hd
    have hestc : (s₁.after pre).est.isSome := by
      have : s₁.Alive (pre ++ [c]) := by
        apply alive_append (mid ++ d :: post)
        simpa using halive
      exact (alive_concat.mp this).2
    have hestd : (s₁.after (pre ++ c :: mid)).est.isSome := by
      have : s₁.Alive ((pre ++ c :: mid) ++ [d]) := by
        apply alive_append post
        simpa using halive
      exact (alive_concat.mp this).2
    obtain ⟨ec, hec⟩ := Option.isSome_iff_exists.mp hestc
    obtain ⟨ed, hed⟩ := Option.isSome_iff_exists.mp hestd
    obtain ⟨seqc, hcs, hcv⟩ := verified_of_acts hec hc
    obtain ⟨seqd, hds, e', gc, he', hp, rfl, hw, -⟩ := verified_of_acts hed hd
    cases hed.symm.trans he'
    rw [hcs, hds]
    intro heq
    cases heq
    -- The first call put the number into the window the second one is checked against.
    have hw' := hinv (pre ++ c :: mid) d post ed (by simp) hed
    have hpassed : gc.seq ∈ s₁.passed (pre ++ c :: mid) := ⟨pre, c, mid, rfl, hcv⟩
    rcases (windowAccepts_iff hw' (le_maxSeq_of_windowAccepts hw)).mp hw with hlt | ⟨-, hnot⟩
    · exact absurd (hw'.le _ hpassed) (UInt32.not_le.mpr hlt)
    · exact hnot hpassed
  · rintro pre c post e hsplit he hmic
    rcases handle_cases he c with ⟨gc, -, -, hm, -⟩ | ⟨-, ⟨ctx, hout⟩, -⟩
    · rw [hmic] at hm; cases hm
    · exact ⟨_, hout, rfl, rfl⟩
  · rintro pre c post e gc hsplit he - - hmax
    exact windowAccepts_iff (hinv pre c post e hsplit he) hmax

def mirrorMech : Mech where
  Ctx := Unit
  Acceptor := Unit
  fresh := ()
  step _ _ := (.complete none, ())
  context _ := some ()
  getMic _ m := (some m.reverse, ())
  verifyMic _ m t := (t == m.reverse, ())
  wrap _ m := (some m, ())
  unwrap _ t := (some (true, t), ())

def mirrorCall (proc seq : UInt32) : Call :=
  let cred := gssVerf (Xdr.u32 1 ++ Xdr.u32 proc ++ Xdr.u32 seq ++ Xdr.u32 1 ++ Xdr.varOpaque serverHandle)
  let header : CallHeader := ⟨7, 2112, 2, 0, cred, .none⟩
  ⟨{ header with verf := gssVerf header.signedPart.reverse }, Xdr.varOpaque []⟩

/-- After `INIT`, call number 1 is dispatched and its replay does not act. -/
theorem rpcsec_gss_replay_does_not_act :
    ¬ (((GssServer.new mirrorMech).handle (mirrorCall procInit 0)).2.after
      [mirrorCall procData 1]).Acts (mirrorCall procData 1) := fun h =>
  (rpcsec_gss_acts_once (GssServer.new mirrorMech) (mirrorCall procInit 0)
    [mirrorCall procData 1, mirrorCall procData 1] rfl ⟨rfl, rfl, trivial⟩).1
    [] (mirrorCall procData 1) [] (mirrorCall procData 1) [] rfl
    (Or.inl ⟨0, Xdr.varOpaque [], 1, rfl⟩) h rfl

end Krb5Rs
