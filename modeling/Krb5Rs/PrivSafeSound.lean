import Krb5Rs.PrivSafe

/-!
# Which sequence numbers are accepted twice

The expected number moves forward by one with every accepted message, and once
by less than 2^25 to a number Heimdal starts from; so within 2^31 calls it does not come
round. A number on the wire is accepted a second time only in place of another
expected number, as a sign-extended form of it.
-/

namespace Krb5Rs

namespace PrivSafe

open Wire (Bytes)

section
variable {κ : Type}

/-! ## One call -/

inductive Accepts (ctx : AuthContext κ) (w : UInt32) (ctx' : AuthContext κ) : Prop
  | plain (hw : w = ctx.remoteSeq) (hseq : ctx'.remoteSeq = w + 1) (hheimdal : ctx'.connHeimdalSeq = ctx.connHeimdalSeq)
  | extended (hsane : ctx.connSaneSeq = false) (hext : chkHeimdalSeqnum ctx.remoteSeq w = true)
      (hseq : ctx'.remoteSeq = ctx.remoteSeq + 1) (hheimdal : ctx'.connHeimdalSeq = true)
  | jump (hzero : ctx.remoteSeq = 0) (hnew : ctx.connHeimdalSeq = false) (hw : w = 0x100 ∨ w = 0x10000 ∨ w = 0x1000000)
      (hseq : ctx'.remoteSeq = w + 1) (hheimdal : ctx'.connHeimdalSeq = true)

theorem checkSeqnum_spec (ctx : AuthContext κ) (w : UInt32) : ((ctx.checkSeqnum w).1 = true ∧
        Accepts ctx w { (ctx.checkSeqnum w).2 with remoteSeq := (ctx.checkSeqnum w).2.remoteSeq + 1 } ∧
        (ctx.checkSeqnum w).2.doSequence = ctx.doSequence) ∨
      ((ctx.checkSeqnum w).1 = false ∧ (ctx.checkSeqnum w).2 = ctx) := by
  unfold AuthContext.checkSeqnum
  dsimp only
  split
  · -- a sane peer
    by_cases hw : w = ctx.remoteSeq
    · exact Or.inl ⟨by simpa using hw, .plain hw (by rw [hw]) rfl, rfl⟩
    · exact Or.inr ⟨by simpa using hw, rfl⟩
  rename_i hsane
  split
  · split
    · rename_i hw
      exact Or.inl ⟨rfl, .plain hw.2 (by rw [hw.2]) rfl, rfl⟩
    split
    · rename_i hw
      exact Or.inl ⟨rfl, .plain hw.2 (by rw [hw.2]) rfl, rfl⟩
    split
    · rename_i hext
      exact Or.inl ⟨rfl, .extended (by simpa using hsane) hext rfl rfl, rfl⟩
    · exact Or.inr ⟨rfl, rfl⟩
  split
  · rename_i hw
    exact Or.inl ⟨rfl, .plain hw (by rw [hw]) rfl, rfl⟩
  split
  · rename_i hzero
    split
    · rename_i hw
      exact Or.inl ⟨rfl, .jump hzero.1 (by simpa using hzero.2) hw rfl rfl, rfl⟩
    · exact Or.inr ⟨rfl, rfl⟩
  · exact Or.inr ⟨rfl, rfl⟩

theorem checkReplay_keeps (ctx : AuthContext κ) (now : Int) (timestamp : Option Int) (tag : Bytes) :
    ∃ rcache, (ctx.checkReplay now timestamp tag).2 = { ctx with rcache } := by
  unfold AuthContext.checkReplay
  repeat' split
  all_goals exact ⟨_, rfl⟩

variable [Opener κ] {ctx : AuthContext κ} {w : UInt32}

structure Reads (ctx : AuthContext κ) (r : Except ApError Opened) (ctx' : AuthContext κ) : Prop where
  doSequence : ctx'.doSequence = ctx.doSequence
  accepted : ∀ m, r = .ok m → Accepts ctx m.wire ctx'
  refused : ∀ e, r = .error e → ctx'.remoteSeq = ctx.remoteSeq ∧ ctx'.connHeimdalSeq = ctx.connHeimdalSeq

omit [Opener κ] in
theorem reads_inSequence (ctx : AuthContext κ) (hseq : ctx.doSequence = true) (m : Opened) :
    Reads ctx (ctx.inSequence m).1 (ctx.inSequence m).2 := by
  unfold AuthContext.inSequence
  rw [if_pos hseq]
  dsimp only
  rcases checkSeqnum_spec ctx m.wire with ⟨hok, haccepts, hdo⟩ | ⟨hno, hsame⟩
  · rw [if_pos hok]
    refine ⟨hdo, ?_, ?_⟩
    · intro m' hm
      cases hm
      exact haccepts
    · intro e he
      cases he
  · rw [if_neg (by simp [hno]), hsame]
    refine ⟨rfl, ?_, fun e _ => ⟨rfl, rfl⟩⟩
    intro m' hm
    cases hm

omit [Opener κ] in
theorem reads_error (ctx : AuthContext κ) (e : ApError) (crypto : κ) (rcache : List Bytes) :
    Reads ctx (.error e) { ctx with crypto, rcache } := by
  refine ⟨rfl, ?_, fun _ _ => ⟨rfl, rfl⟩⟩
  intro m h
  cases h

theorem reads_rd (hseq : ctx.doSequence = true) (call : Call) : Reads ctx (ctx.rd call).1 (ctx.rd call).2 := by
  unfold AuthContext.rd
  split
  · exact reads_error ctx _ _ _
  rename_i m crypto _
  unfold AuthContext.rdOpened
  obtain ⟨rcache, hkeeps⟩ := checkReplay_keeps { ctx with crypto } call.now m.timestamp m.tag
  split
  · rename_i e ctx' hreplay
    rw [hreplay] at hkeeps
    rw [show ctx' = _ from hkeeps]
    exact reads_error ctx e crypto rcache
  · rename_i ctx' hreplay
    rw [hreplay] at hkeeps
    rw [show ctx' = _ from hkeeps]
    obtain ⟨hdo, haccepted, hrefused⟩ := reads_inSequence { ctx with crypto, rcache } hseq m
    refine ⟨hdo, ?_, hrefused⟩
    intro m' hm
    cases haccepted m' hm with
    | plain hw hs hh => exact .plain hw hs hh
    | extended hsane hext hs hh => exact .extended hsane hext hs hh
    | jump hzero hnew hw hs hh => exact .jump hzero hnew hw hs hh

/-! ## A run -/

structure Advances (n : Nat) (ctx ctx' : AuthContext κ) : Prop where
  doSequence : ctx'.doSequence = ctx.doSequence
  heimdal : ctx.connHeimdalSeq = true → ctx'.connHeimdalSeq = true
  moves : ∃ d, ctx'.remoteSeq.toNat = (ctx.remoteSeq.toNat + d) % 2 ^ 32 ∧
    d ≤ n + if ctx.connHeimdalSeq = ctx'.connHeimdalSeq then 0 else 2 ^ 24

omit [Opener κ] in
theorem Advances.refl (ctx : AuthContext κ) : Advances 0 ctx ctx := by
  refine ⟨rfl, id, 0, ?_, by simp⟩
  have := ctx.remoteSeq.toNat_lt
  omega

omit [Opener κ] in
theorem Advances.trans {n m : Nat} {a b c : AuthContext κ} (hab : Advances n a b) (hbc : Advances m b c) :
    Advances (n + m) a c := by
  obtain ⟨d, hd, hdle⟩ := hab.moves
  obtain ⟨d', hd', hdle'⟩ := hbc.moves
  refine ⟨hbc.doSequence.trans hab.doSequence, fun h => hbc.heimdal (hab.heimdal h), d + d', by omega, ?_⟩
  -- the flag is set at most once
  have hab' := hab.heimdal
  have hbc' := hbc.heimdal
  revert hdle hdle' hab' hbc'
  cases a.connHeimdalSeq <;> cases b.connHeimdalSeq <;> cases c.connHeimdalSeq <;> simp <;> omega

omit [Opener κ] in
theorem Accepts.advances {ctx' : AuthContext κ} (h : Accepts ctx w ctx')
    (hdo : ctx'.doSequence = ctx.doSequence) : Advances 1 ctx ctx' := by
  cases h with
  | plain hw hs hh =>
    refine ⟨hdo, fun h => hh.trans h, 1, ?_, by omega⟩
    rw [hs, hw, UInt32.toNat_add]
    rfl
  | extended hsane hext hs hh =>
    refine ⟨hdo, fun _ => hh, 1, ?_, by omega⟩
    rw [hs, UInt32.toNat_add]
    rfl
  | jump hzero hnew hw hs hh =>
    refine ⟨hdo, fun _ => hh, w.toNat + 1, ?_, ?_⟩
    · rw [hs, hzero, UInt32.toNat_add]
      simp
    · rw [hnew, hh, if_neg (by simp)]
      rcases hw with rfl | rfl | rfl <;> decide

theorem advances_rd (hseq : ctx.doSequence = true) (call : Call) : Advances 1 ctx (ctx.rd call).2 := by
  have hreads := reads_rd hseq call
  cases hr : (ctx.rd call).1 with
  | ok m => exact (hreads.accepted m hr).advances hreads.doSequence
  | error e =>
    obtain ⟨hsame, hflag⟩ := hreads.refused e hr
    refine ⟨hreads.doSequence, fun h => hflag.trans h, 0, ?_, by omega⟩
    have := ctx.remoteSeq.toNat_lt
    rw [hsame]
    omega

theorem advances_run (hseq : ctx.doSequence = true) (calls : List Call) :
    Advances calls.length ctx (ctx.run calls) := by
  induction calls generalizing ctx with
  | nil => exact Advances.refl ctx
  | cons call calls ih =>
    have hstep := advances_rd hseq call
    have := hstep.trans (ih (hstep.doSequence.trans hseq))
    rwa [Nat.add_comm] at this

theorem run_append (ctx : AuthContext κ) (calls more : List Call) : ctx.run (calls ++ more) = (ctx.run calls).run more := by
  induction calls generalizing ctx with
  | nil => rfl
  | cons call calls ih => exact ih _

theorem results_get {calls : List Call} {i : Nat} {r : Except ApError Opened} (h : (ctx.results calls)[i]? = some r) :
    ∃ before call after, calls = before ++ call :: after ∧ before.length = i ∧ r = ((ctx.run before).rd call).1 := by
  induction calls generalizing ctx i with
  | nil => simp [AuthContext.results] at h
  | cons call calls ih =>
    cases i with
    | zero =>
      exact ⟨[], call, calls, rfl, rfl, (Option.some.inj h).symm⟩
    | succ i =>
      obtain ⟨before, call', after, rfl, hlen, hr⟩ := ih h
      exact ⟨call :: before, call', after, rfl, by rw [List.length_cons, hlen], hr⟩

/-! ## Accepted twice -/

omit [Opener κ] in
theorem chkHeimdalSeqnum_bounds {expSeq : UInt32} (h : chkHeimdalSeqnum expSeq w = true) :
    expSeq.toNat < 2 ^ 24 ∧ 0xFF800000 ≤ w.toNat := by
  have hlow : ∀ mask : UInt32, w &&& mask = expSeq → expSeq.toNat ≤ mask.toNat := by
    rintro mask rfl
    exact Nat.and_le_right
  have hhigh : ∀ mask : UInt32, w &&& mask = mask → mask.toNat ≤ w.toNat := by
    intro mask he
    rw [← he, UInt32.toNat_and]
    exact Nat.and_le_left
  simp only [chkHeimdalSeqnum, decide_eq_true_eq] at h
  rcases h with ⟨-, h1, h2⟩ | ⟨-, h1, h2⟩ | ⟨-, h1, h2⟩
  all_goals
    have := hlow _ h2
    have := hhigh _ h1
    simp only [UInt32.toNat_ofNat] at *
    omega

omit [Opener κ] in
theorem Accepts.again {a a' b b' : AuthContext κ} {n : Nat} (hfirst : Accepts a w a') (hrun : Advances n a' b)
    (hagain : Accepts b w b') (hn : n + 1 < 2 ^ 31) :
    b.connSaneSeq = false ∧ chkHeimdalSeqnum b.remoteSeq w = true := by
  obtain ⟨d, hd, hdle⟩ := hrun.moves
  have hdle' : d ≤ n + 2 ^ 24 := by split at hdle <;> omega
  have hstart : (∃ k, k < 2 ^ 24 ∧ a'.remoteSeq.toNat = k + 1 ∧ 0xFF800000 ≤ w.toNat ∧ a'.connHeimdalSeq = true) ∨
      a'.remoteSeq.toNat = (w.toNat + 1) % 2 ^ 32 := by
    cases hfirst with
    | plain hw hs hh => exact Or.inr (by rw [hs, UInt32.toNat_add]; rfl)
    | jump hzero hnew hw hs hh => exact Or.inr (by rw [hs, UInt32.toNat_add]; rfl)
    | extended hsane hext hs hh =>
      obtain ⟨hlow, hhigh⟩ := chkHeimdalSeqnum_bounds hext
      refine Or.inl ⟨a.remoteSeq.toNat, hlow, ?_, hhigh, hh⟩
      rw [hs, UInt32.toNat_add, UInt32.toNat_one]
      omega
  cases hagain with
  | extended hsane hext hs hh => exact ⟨hsane, hext⟩
  | plain hw hs hh =>
    rw [← hw] at hd
    rcases hstart with ⟨k, hk, hstart, hhigh, -⟩ | hstart <;> omega
  | jump hzero hnew hw hs hh =>
    have hflag : a'.connHeimdalSeq = false := by
      cases hf : a'.connHeimdalSeq
      · rfl
      · rw [hrun.heimdal hf] at hnew
        cases hnew
    have hwle : w.toNat ≤ 2 ^ 24 := by rcases hw with rfl | rfl | rfl <;> decide
    rw [hzero, UInt32.toNat_zero] at hd
    rcases hstart with ⟨k, -, -, -, hset⟩ | hstart
    · rw [hflag] at hset
      cases hset
    · omega

end

section
variable {κ : Type} [Opener κ]

/-- Of fewer than 2^31 calls two accept the same number only if it is a high one and the later call took it for the
sign-extended form of the number it expected. -/
theorem accepted_twice (ctx : AuthContext κ) (hseq : ctx.doSequence = true) (calls : List Call)
    (hlen : calls.length < 2 ^ 31) (i j : Nat) (hij : i < j) (m m' : Opened)
    (hi : (ctx.results calls)[i]? = some (.ok m)) (hj : (ctx.results calls)[j]? = some (.ok m'))
    (hwire : m.wire = m'.wire) : 0xFF800000 ≤ m'.wire.toNat ∧ (ctx.run (calls.take j)).connSaneSeq = false ∧
      chkHeimdalSeqnum (ctx.run (calls.take j)).remoteSeq m'.wire = true := by
  obtain ⟨before, call, after, rfl, rfl, hr⟩ := results_get hi
  obtain ⟨before', call', after', hsplit, hlen', hr'⟩ := results_get hj
  have htake : (before ++ call :: after).take j = before' := by
    rw [hsplit, ← hlen', List.take_left]
  -- the calls before the second are those before the first, the first, and others
  obtain ⟨between, hbetween⟩ : ∃ between, before' = before ++ call :: between := by
    have hpre : before ++ [call] <+: before' := by
      have h1 : before ++ [call] <+: before ++ call :: after := ⟨after, by simp⟩
      have h2 : before' <+: before ++ call :: after := ⟨call' :: after', hsplit.symm⟩
      exact List.prefix_of_prefix_length_le h1 h2 (by simp; omega)
    obtain ⟨between, h⟩ := hpre
    exact ⟨between, by rw [← h]; simp⟩
  have hfirstSeq := (advances_run hseq before).doSequence.trans hseq
  have hfirst := (reads_rd hfirstSeq call).accepted m hr.symm
  have hnextSeq := (reads_rd hfirstSeq call).doSequence.trans hfirstSeq
  have hrun := advances_run hnextSeq between
  have hstate : ctx.run before' = (((ctx.run before).rd call).2).run between := by
    rw [hbetween, run_append]
    rfl
  have hlaterSeq := (advances_run hseq before').doSequence.trans hseq
  have hagain := (reads_rd hlaterSeq call').accepted m' hr'.symm
  rw [hwire] at hfirst
  have hcount : between.length + 1 < 2 ^ 31 := by
    have := congrArg List.length hsplit
    rw [hbetween] at this
    simp only [List.length_append, List.length_cons] at this hlen
    omega
  rw [← hstate] at hrun
  obtain ⟨hsane, hext⟩ := hfirst.again hrun hagain hcount
  rw [htake]
  exact ⟨(chkHeimdalSeqnum_bounds hext).2, hsane, hext⟩

end

section
local instance bareOpener : Opener Unit :=
  ⟨fun _ _ msg => (.ok ⟨none, [], some (UInt32.ofNat (Wire.ofBe msg)), []⟩, ())⟩

def bareCall (n : Nat) : Call := ⟨.priv, Wire.be 4 n, 0⟩

def bareMessage (n : UInt32) : Opened := ⟨none, [], some n, []⟩

def bareContext (expected : UInt32) : AuthContext Unit := ⟨false, true, 0, 0, expected, [], false, false, ()⟩

def wrapCalls : List Call := (List.range 256).map (fun k => bareCall (0xFFFFFF80 + k)) ++ [bareCall 0xFFFFFF80]

/-- It is accepted again in place of the number that is its lowest byte. -/
theorem high_number_again : ((bareContext 0xFFFFFF80).results wrapCalls)[0]? = some (.ok (bareMessage 0xFFFFFF80)) ∧
      ((bareContext 0xFFFFFF80).results wrapCalls)[256]? = some (.ok (bareMessage 0xFFFFFF80)) := by
  decide +kernel

theorem accepted_twice_extended : chkHeimdalSeqnum ((bareContext 0xFFFFFF80).run (wrapCalls.take 256)).remoteSeq 0xFFFFFF80 = true :=
  (accepted_twice (bareContext 0xFFFFFF80) rfl wrapCalls (by decide +kernel) 0 256 (by decide) (bareMessage 0xFFFFFF80)
    (bareMessage 0xFFFFFF80) (by decide +kernel) (by decide +kernel) rfl).2.2

end

end PrivSafe

end Krb5Rs
