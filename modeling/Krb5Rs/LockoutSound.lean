import Krb5Rs.Lockout

/-!
# How many guesses a lockout lets through

A failing attempt that passes the check leaves a count of one or one more than
before, and a count at the limit stays there until something resets it. So the
attempts that pass since the last reset are never more than the count.
-/

namespace Krb5Rs

open Utf8 (Str)
open TicketPolicy (saturatingAdd)

theorem bump_toNat (count : UInt32) : count.toNat ≤ (AuthState.bump count).toNat ∧
    min (count.toNat + 1) 4294967295 ≤ (AuthState.bump count).toNat := by
  unfold AuthState.bump
  split
  · subst_vars; simp
  rename_i h
  have hne : count.toNat ≠ 4294967295 := fun h' => h (UInt32.toNat_inj.mp h')
  have hlt := count.toNat_lt
  rw [UInt32.toNat_add]
  simp only [UInt32.reduceToNat]
  omega

variable {unlocked : Option Int} {state : AuthState}

/-- Past an administrator's unlock an account below the limit, or whose lockout has run out, is not locked. -/
theorem lockedCheckP_false {policy : LockoutPolicy} {now : Int}
    (h : lockedCheckP now policy state unlocked = false) (later : unlocked.getD 0 < state.lastFailed) :
    policy.maxFail = 0 ∨ state.failCount < policy.maxFail ∨
      policy.lockoutDuration ≠ 0 ∧ saturatingAdd state.lastFailed policy.lockoutDuration.toNat ≤ now := by
  unfold lockedCheckP at h
  rw [if_neg (by omega)] at h
  split at h
  · rename_i hlow
    exact hlow.elim .inl fun hlow => .inr (.inl hlow)
  split at h
  · cases h
  · rename_i hd
    simp only [decide_eq_false_iff_not, Int.not_lt] at h
    exact .inr (.inr ⟨hd, h⟩)

theorem currentCount_eq {now : Int} {interval : UInt32}
    (later : unlocked.getD 0 < state.lastFailed) (now_lt : now < 2 ^ 63)
    (within : ¬ (interval ≠ 0 ∧ state.lastFailed + interval.toNat < now)) :
    state.currentCount now interval unlocked = state.failCount := by
  unfold AuthState.currentCount
  rw [if_neg, if_neg]
  · cases unlocked with
    | none => simp
    | some u => simpa using later
  · rintro ⟨hi, hlt⟩
    refine within ⟨hi, ?_⟩
    unfold saturatingAdd at hlt
    omega

section
variable [Alphabet] {config : LockoutConfig} {policies : Str → Except StoreError (Option LockoutPolicy)}
  {policy : LockoutPolicy}

/-! ## What one outcome records -/

variable {client : PrincipalEntry} {state : AuthState} {now : Int} {account : Account} {code : Int32}
  {update : AuthStateUpdate} {passed : Nat}

theorem auditUpdate_locked (enabled : config.disableLockout = false) (hp : lockoutPolicy policies client = .ok policy)
    (locked : lockedCheckP now policy state (unlockTime client) = true) :
    auditUpdate config policies (.ok state) client now code = none := by
  unfold auditUpdate auditPolicy
  simp [enabled, hp, locked]

theorem auditUpdate_failing (enabled : config.disableLockout = false) (hp : lockoutPolicy policies client = .ok policy)
    (unlocked : lockedCheckP now policy state (unlockTime client) = false)
    (fails : code = preauthFailed ∨ code = badIntegrity) : auditUpdate config policies (.ok state) client now code =
      some (.failure now policy.failcntInterval (unlockTime client)) := by
  have h0 : code ≠ 0 := by rcases fails with rfl | rfl <;> decide
  unfold auditUpdate auditPolicy outcomeUpdate
  simp [enabled, hp, unlocked, fails, h0]

theorem auditUpdate_some (h : auditUpdate config policies (.ok state) client now code = some update) :
    ∃ policy, outcomeUpdate config policy state client now code = some update := by
  unfold auditUpdate at h
  split at h
  · generalize auditPolicy config policies client = policy at h
    cases policy with
    | error e => cases h
    | ok policy =>
      refine ⟨policy, ?_⟩
      simp only at h
      split at h
      · cases h
      · exact h
  · cases h

theorem outcomeUpdate_disabled (disabled : config.disableLockout = true)
    (h : outcomeUpdate config policy state client now code = some update) :
    (state.apply update).failCount = state.failCount ∧ (state.apply update).lastFailed = state.lastFailed := by
  simp only [outcomeUpdate, disabled, Bool.not_true, Bool.false_and, Bool.false_eq_true, false_and, if_false] at h
  split at h
  · split at h
    · cases h
    · cases h
      simp [AuthState.apply]
  · cases h

theorem auditAs_disabled (disabled : config.disableLockout = true) :
    (auditAs config policies state client now code).1.failCount = state.failCount ∧
      (auditAs config policies state client now code).1.lastFailed = state.lastFailed := by
  unfold auditAs
  generalize hu : auditUpdate config policies (.ok state) client now code = update
  cases update with
  | none => exact ⟨rfl, rfl⟩
  | some update =>
    obtain ⟨policy, hu⟩ := auditUpdate_some hu
    exact outcomeUpdate_disabled disabled hu

theorem auditAs_locked (hp : lockoutPolicy policies client = .ok policy)
    (locked : lockedCheckP now policy state (unlockTime client) = true) :
    (auditAs config policies state client now code).1.failCount = state.failCount ∧
      (auditAs config policies state client now code).1.lastFailed = state.lastFailed := by
  cases h : config.disableLockout with
  | true => exact auditAs_disabled h
  | false =>
    unfold auditAs
    rw [auditUpdate_locked h hp locked]
    exact ⟨rfl, rfl⟩

/-! ## The check -/

theorem checkLockout_eq (state : AuthState) (now : Int) (enabled : config.disableLockout = false)
    (hp : lockoutPolicy policies client = .ok policy) (limit : policy.maxFail ≠ 0) :
    checkLockout config policies (.ok state) client now =
      if lockedCheckP now policy state (unlockTime client) then .error ⟨18, "LOCKED_OUT"⟩ else .ok () := by
  unfold checkLockout
  simp only [enabled, Bool.false_eq_true, if_false, hp, bind, Except.bind, limit]

/-! ## Runs between two resets -/

def Fails (code : Int32) : Prop := code = preauthFailed ∨ code = badIntegrity

/-- The events that reset the count, at the account they meet: a success that pre-authentication proves, the interval
elapsed since the last failure, the end of a lockout, an administrator's unlock. -/
def Resets (policy : LockoutPolicy) (account : Account) : LockoutEvent → Prop
  | .attempt now code =>
    (code = 0 ∧ Flags.contains account.client.attributes PrincipalAttributes.requiresPreAuth) ∨
      (policy.failcntInterval ≠ 0 ∧ account.state.lastFailed + policy.failcntInterval.toNat < now) ∨
      (policy.maxFail ≤ account.state.failCount ∧ policy.lockoutDuration ≠ 0 ∧
        account.state.lastFailed + policy.lockoutDuration.toNat ≤ now)
  | .unlock _ => True

def Steady (config : LockoutConfig) (policies : Str → Except StoreError (Option LockoutPolicy))
    (policy : LockoutPolicy) : Account → List LockoutEvent → Prop
  | _, [] => True
  | account, e :: es =>
    ¬ Resets policy account e ∧ Steady config policies policy (lockoutStep config policies account e) es

instance (policy : LockoutPolicy) (account : Account) : DecidablePred (Resets policy account)
  | .attempt _ _ => inferInstanceAs (Decidable (_ ∨ _))
  | .unlock _ => inferInstanceAs (Decidable True)

instance decidableSteady (config : LockoutConfig) (policies : Str → Except StoreError (Option LockoutPolicy))
    (policy : LockoutPolicy) :
    (account : Account) → (events : List LockoutEvent) → Decidable (Steady config policies policy account events)
  | _, [] => inferInstanceAs (Decidable True)
  | account, e :: es =>
    have := decidableSteady config policies policy (lockoutStep config policies account e) es
    inferInstanceAs (Decidable (_ ∧ _))

/-- The failing attempts come after the unlock in force, and the end of a lockout is an `i64`. -/
def AfterUnlock (policy : LockoutPolicy) (unlocked : Option Int) (events : List LockoutEvent) : Prop :=
  ∀ now code, LockoutEvent.attempt now code ∈ events → Fails code →
    unlocked.getD 0 < now ∧ now + policy.lockoutDuration.toNat < 2 ^ 63

/-- The attempts that passed are counted: none yet, or no more than a count made after the unlock. -/
def Counted (policy : LockoutPolicy) (account : Account) (passed : Nat) : Prop :=
  passed = 0 ∨
    passed ≤ account.state.failCount.toNat ∧ passed ≤ policy.maxFail.toNat ∧
      (unlockTime account.client).getD 0 < account.state.lastFailed ∧
      account.state.lastFailed + policy.lockoutDuration.toNat < 2 ^ 63

theorem lockoutStep_attempt_client (config : LockoutConfig)
    (policies : Str → Except StoreError (Option LockoutPolicy)) (account : Account) (now : Int) (code : Int32) :
    (lockoutStep config policies account (.attempt now code)).client = account.client := by
  simp only [lockoutStep]
  split <;> rfl

theorem lockoutStep_other (config : LockoutConfig) (policies : Str → Except StoreError (Option LockoutPolicy))
    (now : Int) (fails : ¬ Fails code)
    (proves : ¬ (code = 0 ∧ Flags.contains account.client.attributes PrincipalAttributes.requiresPreAuth)) :
    (lockoutStep config policies account (.attempt now code)).state = account.state := by
  have hnone : auditUpdate config policies (.ok account.state) account.client now code = none := by
    generalize hu : auditUpdate config policies (.ok account.state) account.client now code = update
    cases update with
    | none => rfl
    | some update =>
      obtain ⟨policy, hu⟩ := auditUpdate_some hu
      simp only [outcomeUpdate, if_neg proves] at hu
      rw [if_neg (fun h => fails h.2)] at hu
      cases hu
  simp only [lockoutStep]
  split
  · rfl
  · simp [auditAs, hnone]

theorem lockoutStep_failing (now : Int) (fails : Fails code)
    (enabled : config.disableLockout = false) (hp : lockoutPolicy policies account.client = .ok policy)
    (limit : policy.maxFail ≠ 0) : (lockedCheckP now policy account.state (unlockTime account.client) = true ∧
        guesses config policies account (.attempt now code) = false ∧
        lockoutStep config policies account (.attempt now code) = account) ∨
      (lockedCheckP now policy account.state (unlockTime account.client) = false ∧
        guesses config policies account (.attempt now code) = true ∧
        (lockoutStep config policies account (.attempt now code)).state =
          account.state.apply (.failure now policy.failcntInterval (unlockTime account.client))) := by
  have hcheck := checkLockout_eq account.state now enabled hp limit
  cases hl : lockedCheckP now policy account.state (unlockTime account.client) with
  | true =>
    rw [hl, if_pos rfl] at hcheck
    refine .inl ⟨rfl, ?_, ?_⟩
    · simp [guesses, hcheck]
    · simp [lockoutStep, hcheck]
  | false =>
    rw [hl, if_neg Bool.false_ne_true] at hcheck
    refine .inr ⟨rfl, ?_, ?_⟩
    · simp only [guesses, hcheck, and_true, decide_eq_true_eq]
      exact fails
    · simp [lockoutStep, hcheck, auditAs, auditUpdate_failing enabled hp hl fails]

theorem counted_one (fails : Fails code) (enabled : config.disableLockout = false)
    (hp : lockoutPolicy policies account.client = .ok policy) (limit : policy.maxFail ≠ 0)
    (after : (unlockTime account.client).getD 0 < now ∧ now + policy.lockoutDuration.toNat < 2 ^ 63)
    (hg : guesses config policies account (.attempt now code) = true) :
    Counted policy (lockoutStep config policies account (.attempt now code)) 1 := by
  have hlimit : policy.maxFail.toNat ≠ 0 := fun h => limit (UInt32.toNat_inj.mp h)
  rcases lockoutStep_failing now fails enabled hp limit with ⟨_, hg', _⟩ | ⟨_, _, hs⟩
  · rw [hg] at hg'
    cases hg'
  refine .inr ?_
  rw [lockoutStep_attempt_client, hs]
  have hb := (bump_toNat (account.state.currentCount now policy.failcntInterval (unlockTime account.client))).2
  refine ⟨?_, by omega, after⟩
  simp only [AuthState.apply]
  omega

theorem counted_next (fails : Fails code)
    (enabled : config.disableLockout = false) (hp : lockoutPolicy policies account.client = .ok policy)
    (limit : policy.maxFail ≠ 0) (steady : ¬ Resets policy account (.attempt now code))
    (after : (unlockTime account.client).getD 0 < now ∧ now + policy.lockoutDuration.toNat < 2 ^ 63)
    (hg : guesses config policies account (.attempt now code) = true)
    (counted : passed ≤ account.state.failCount.toNat)
    (later : (unlockTime account.client).getD 0 < account.state.lastFailed)
    (ends : account.state.lastFailed + policy.lockoutDuration.toNat < 2 ^ 63) :
    Counted policy (lockoutStep config policies account (.attempt now code)) (passed + 1) := by
  simp only [Resets, not_or] at steady
  obtain ⟨_, hinterval, hended⟩ := steady
  rcases lockoutStep_failing now fails enabled hp limit with ⟨_, hg', _⟩ | ⟨hl, _, hs⟩
  · rw [hg] at hg'
    cases hg'
  have hlow : account.state.failCount.toNat < policy.maxFail.toNat := by
    rcases lockedCheckP_false hl later with h0 | hlow | ⟨hd, hle⟩
    · exact absurd h0 limit
    · exact hlow
    · refine Nat.lt_of_not_le fun hfull => hended ⟨UInt32.le_iff_toNat_le.mpr hfull, hd, ?_⟩
      unfold saturatingAdd at hle
      omega
  have hmax := policy.maxFail.toNat_lt
  have hb := (bump_toNat account.state.failCount).2
  refine .inr ?_
  rw [lockoutStep_attempt_client, hs]
  refine ⟨?_, by omega, after⟩
  simp only [AuthState.apply]
  rw [currentCount_eq later (by omega) hinterval]
  omega

theorem counted_step {e : LockoutEvent} (enabled : config.disableLockout = false)
    (hp : lockoutPolicy policies account.client = .ok policy) (limit : policy.maxFail ≠ 0)
    (steady : ¬ Resets policy account e) (after : AfterUnlock policy (unlockTime account.client) [e])
    (h : Counted policy account passed) : Counted policy (lockoutStep config policies account e)
      (passed + if guesses config policies account e then 1 else 0) := by
  cases e with
  | unlock time => exact absurd trivial steady
  | attempt now code =>
    by_cases fails : Fails code
    · have hafter := after now code (List.mem_singleton_self _) fails
      cases hg : guesses config policies account (.attempt now code) with
      | true =>
        rcases h with rfl | ⟨hcount, _, hlast, hend⟩
        · exact counted_one fails enabled hp limit hafter hg
        · exact counted_next fails enabled hp limit steady hafter hg hcount hlast hend
      | false =>
        rcases lockoutStep_failing now fails enabled hp limit with ⟨_, _, hs⟩ | ⟨_, hg', _⟩
        · rw [hs, if_neg Bool.false_ne_true]
          exact h
        · rw [hg] at hg'
          cases hg'
    · have hg : guesses config policies account (.attempt now code) = false := by
        simp only [guesses, decide_eq_false_iff_not]
        exact fun h => fails h.1
      rw [hg, if_neg Bool.false_ne_true]
      unfold Counted
      rw [lockoutStep_other config policies now fails fun h => steady (.inl h), lockoutStep_attempt_client]
      exact h

theorem counted_run (enabled : config.disableLockout = false) (limit : policy.maxFail ≠ 0) :
    ∀ (events : List LockoutEvent) (account : Account) (passed : Nat),
      lockoutPolicy policies account.client = .ok policy → Steady config policies policy account events →
      AfterUnlock policy (unlockTime account.client) events → Counted policy account passed →
      passed + guessCount config policies account events ≤ policy.maxFail.toNat
  | [], account, passed, _, _, _, h => by
    have : passed = 0 ∨ passed ≤ policy.maxFail.toNat := h.imp_right fun h => h.2.1
    simp only [guessCount]
    omega
  | e :: es, account, passed, hp, steady, after, h => by
    have hclient : (lockoutStep config policies account e).client = account.client := by
      cases e with
      | unlock time => exact absurd trivial steady.1
      | attempt now code => exact lockoutStep_attempt_client _ _ account now code
    have hstep := counted_step enabled hp limit steady.1
      (fun now code hmem => after now code (List.mem_singleton.mp hmem ▸ List.mem_cons_self)) h
    have := counted_run enabled limit es (lockoutStep config policies account e) _ (hclient ▸ hp) steady.2
      (hclient ▸ fun now code hmem => after now code (List.mem_cons_of_mem _ hmem)) hstep
    simp only [guessCount]
    omega

/-- With lockout enabled, from a reset on no more failing attempts pass than the limit, and the audit of a locked
account leaves its count. -/
theorem guesses_bounded {account : Account} {first : LockoutEvent} {rest : List LockoutEvent}
    (enabled : config.disableLockout = false) (hp : lockoutPolicy policies account.client = .ok policy)
    (limit : 0 < policy.maxFail)
    (steady : Steady config policies policy (lockoutStep config policies account first) rest)
    (after : AfterUnlock policy (unlockTime (lockoutStep config policies account first).client) (first :: rest)) :
    guessCount config policies account (first :: rest) ≤ policy.maxFail.toNat ∧
      ∀ (state : AuthState) (now : Int) (code : Int32),
        lockedCheckP now policy state (unlockTime account.client) = true →
          (auditAs config policies state account.client now code).1.failCount = state.failCount ∧
          (auditAs config policies state account.client now code).1.lastFailed = state.lastFailed := by
  have limit' : policy.maxFail ≠ 0 := fun h => by rw [h] at limit; exact absurd limit (by decide)
  refine ⟨?_, fun state now code => auditAs_locked hp⟩
  have hp' : lockoutPolicy policies (lockoutStep config policies account first).client = .ok policy := by
    cases first with
    | unlock time => exact hp
    | attempt now code => rw [lockoutStep_attempt_client]; exact hp
  refine counted_run enabled limit' rest _ _ hp' steady
    (fun now code hmem => after now code (List.mem_cons_of_mem _ hmem)) ?_
  cases hg : guesses config policies account first with
  | false => exact .inl rfl
  | true =>
    cases first with
    | unlock time => cases hg
    | attempt now code =>
      have fails : Fails code := by
        simp only [guesses, decide_eq_true_eq] at hg
        exact hg.1
      rw [lockoutStep_attempt_client] at after
      exact counted_one fails enabled hp limit' (after now code List.mem_cons_self fails) hg

end

section
attribute [local instance] Alphabet.ascii

def guessedClient : PrincipalEntry where
  name := ⟨1, [⟨[108], rfl⟩]⟩
  realm := ⟨[76], rfl⟩
  attributes := PrincipalAttributes.requiresPreAuth
  policy := some ⟨[108], rfl⟩

def onePolicy (policy : LockoutPolicy) : Str → Except StoreError (Option LockoutPolicy) := fun _ => .ok (some policy)

def guessedAccount : Account := ⟨guessedClient, ⟨0, 45, 0⟩⟩

theorem third_guess_locked_out : guessCount ⟨false, false⟩ (onePolicy ⟨2, 60, 300⟩) guessedAccount
      [.unlock ⟨50, 0⟩, .attempt 100 24, .attempt 110 31, .attempt 120 24] ≤ 2 := by
  have hp : lockoutPolicy (onePolicy ⟨2, 60, 300⟩) guessedAccount.client = .ok ⟨2, 60, 300⟩ := rfl
  refine (guesses_bounded rfl hp (by decide) (by decide) fun now code hmem _ => ?_).1
  simp only [List.mem_cons, LockoutEvent.attempt.injEq, reduceCtorEq, List.not_mem_nil, or_false, false_or] at hmem
  rcases hmem with ⟨rfl, _⟩ | ⟨rfl, _⟩ | ⟨rfl, _⟩ <;> decide

/-- Failures at the second of the unlock are forgotten one by one. -/
theorem guesses_at_unlock_pass : Steady ⟨false, false⟩ (onePolicy ⟨1, 0, 0⟩) ⟨1, 0, 0⟩
        (lockoutStep ⟨false, false⟩ (onePolicy ⟨1, 0, 0⟩) guessedAccount (.unlock ⟨100, 0⟩))
        [.attempt 100 24, .attempt 100 24] ∧
      guessCount ⟨false, false⟩ (onePolicy ⟨1, 0, 0⟩) guessedAccount
        [.unlock ⟨100, 0⟩, .attempt 100 24, .attempt 100 24] = 2 := by
  decide

end

end Krb5Rs
