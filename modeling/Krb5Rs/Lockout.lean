import Krb5Rs.TicketPolicy

/-!
# Account lockout

`kdc/lockout.rs` and `AuthState::apply` of `kdc/store.rs`: the check before
pre-authentication, what is recorded of each outcome, and the counters it
changes. Times are `i64` seconds, as integers; sums saturate.
-/

namespace Krb5Rs

open Utf8 (Str)
open TicketPolicy (saturatingAdd)

def preauthFailed : Int32 := 24
def badIntegrity : Int32 := 31

structure LockoutPolicy where
  maxFail : UInt32 := 0
  failcntInterval : UInt32 := 0
  lockoutDuration : UInt32 := 0
deriving Repr, DecidableEq

structure AuthState where
  failCount : UInt32
  lastFailed : Int
  lastSuccess : Int
deriving Repr, DecidableEq

def lockedCheckP (now : Int) (policy : LockoutPolicy) (state : AuthState) (lastAdminUnlock : Option Int) : Bool :=
  if state.lastFailed ≤ lastAdminUnlock.getD 0 then false
  else if policy.maxFail = 0 ∨ state.failCount < policy.maxFail then false
  else if policy.lockoutDuration = 0 then true
  else now < saturatingAdd state.lastFailed policy.lockoutDuration.toNat

inductive AuthStateUpdate
  | success (stamp : Int) (clearFailures recordSuccess : Bool)
  | failure (stamp : Int) (failcntInterval : UInt32) (lastAdminUnlock : Option Int)
  | set (state : AuthState)
deriving Repr, DecidableEq

namespace AuthState

def bump (count : UInt32) : UInt32 := if count = 4294967295 then count else count + 1

def currentCount (state : AuthState) (stamp : Int) (failcntInterval : UInt32) (lastAdminUnlock : Option Int) : UInt32 :=
  let count := if lastAdminUnlock.any (state.lastFailed ≤ ·) then 0 else state.failCount
  if failcntInterval ≠ 0 ∧ saturatingAdd state.lastFailed failcntInterval.toNat < stamp then 0 else count

def apply (state : AuthState) : AuthStateUpdate → AuthState
  | .success stamp clearFailures recordSuccess =>
    { state with
      failCount := if clearFailures ∧ state.failCount ≠ 0 then 0 else state.failCount
      lastSuccess := if recordSuccess then stamp else state.lastSuccess }
  | .failure stamp failcntInterval lastAdminUnlock =>
    { state with
      failCount := bump (state.currentCount stamp failcntInterval lastAdminUnlock)
      lastFailed := stamp }
  | .set state => state

end AuthState

structure LockoutConfig where
  disableLockout : Bool
  disableLastSuccess : Bool
deriving Repr, DecidableEq

section
variable [Alphabet]

def unlockTime (entry : PrincipalEntry) : Option Int :=
  (entry.lastAdminUnlock.map (·.seconds)).filter (· ≠ 0)

/-- The parameters of the entry's policy; a policy that is not there is none. -/
def lockoutPolicy (policies : Str → Except StoreError (Option LockoutPolicy)) (entry : PrincipalEntry) :
    Except KdcError LockoutPolicy :=
  match entry.policy with
  | none => .ok {}
  | some name =>
    match policies name with
    | .ok policy => .ok (policy.getD {})
    | .error _ => .error ⟨29, "LOOKING_UP_POLICY"⟩

def checkLockout (config : LockoutConfig) (policies : Str → Except StoreError (Option LockoutPolicy))
    (state : Except StoreError AuthState) (client : PrincipalEntry) (now : Int) : Except KdcError Unit :=
  if config.disableLockout then .ok ()
  else do
    let policy ← lockoutPolicy policies client
    if policy.maxFail = 0 then .ok ()
    else
      match state with
      | .error _ => .error ⟨29, "LOOKING_UP_AUTH_STATE"⟩
      | .ok state =>
        if lockedCheckP now policy state (unlockTime client) then .error ⟨18, "LOCKED_OUT"⟩ else .ok ()

def outcomeUpdate (config : LockoutConfig) (policy : LockoutPolicy) (state : AuthState) (client : PrincipalEntry)
    (now : Int) (code : Int32) : Option AuthStateUpdate :=
  if code = 0 ∧ Flags.contains client.attributes PrincipalAttributes.requiresPreAuth then
    let clearFailures := !config.disableLockout && state.failCount ≠ 0
    let recordSuccess := !config.disableLastSuccess
    if !clearFailures && !recordSuccess then none else some (.success now clearFailures recordSuccess)
  else if !config.disableLockout ∧ (code = preauthFailed ∨ code = badIntegrity) then
    some (.failure now policy.failcntInterval (unlockTime client))
  else none

def auditPolicy (config : LockoutConfig) (policies : Str → Except StoreError (Option LockoutPolicy))
    (client : PrincipalEntry) : Except KdcError LockoutPolicy :=
  if config.disableLockout then .ok {} else lockoutPolicy policies client

def auditUpdate (config : LockoutConfig) (policies : Str → Except StoreError (Option LockoutPolicy))
    (state : Except StoreError AuthState) (client : PrincipalEntry) (now : Int) (code : Int32) :
    Option AuthStateUpdate :=
  if code = 0 ∨ code = preauthFailed ∨ code = badIntegrity then
    match auditPolicy config policies client, state with
    | .ok policy, .ok state =>
      if lockedCheckP now policy state (unlockTime client) then none
      else outcomeUpdate config policy state client now code
    | _, _ => none
  else none

structure LockoutReport where
  principal : PrincipalName
  realm : Str
  stamp : Int
  failCount : UInt32
  lockoutDuration : UInt32
deriving DecidableEq

def lockoutReport (config : LockoutConfig) (policies : Str → Except StoreError (Option LockoutPolicy))
    (client : PrincipalEntry) (now : Int) (update : AuthStateUpdate) (after : AuthState) : Option LockoutReport :=
  match update, auditPolicy config policies client with
  | .failure .., .ok policy =>
    if lockedCheckP now policy after (unlockTime client) then
      some ⟨client.name, client.realm, now, after.failCount, policy.lockoutDuration⟩
    else none
  | _, _ => none

def auditAs (config : LockoutConfig) (policies : Str → Except StoreError (Option LockoutPolicy)) (state : AuthState)
    (client : PrincipalEntry) (now : Int) (code : Int32) : AuthState × Option LockoutReport :=
  match auditUpdate config policies (.ok state) client now code with
  | none => (state, none)
  | some update => (state.apply update, lockoutReport config policies client now update (state.apply update))

/-! ## Runs -/

/-- A request of an initial ticket at `now` with the outcome `code`, or an unlock by an administrator. -/
inductive LockoutEvent
  | attempt (now : Int) (code : Int32)
  | unlock (time : KerberosTime)

structure Account where
  client : PrincipalEntry
  state : AuthState

def guesses (config : LockoutConfig) (policies : Str → Except StoreError (Option LockoutPolicy)) (account : Account) :
    LockoutEvent → Bool
  | .attempt now code =>
    (code = preauthFailed ∨ code = badIntegrity) ∧
      checkLockout config policies (.ok account.state) account.client now = .ok ()
  | .unlock _ => false

def lockoutStep (config : LockoutConfig) (policies : Str → Except StoreError (Option LockoutPolicy))
    (account : Account) : LockoutEvent → Account
  | .attempt now code =>
    match checkLockout config policies (.ok account.state) account.client now with
    | .error _ => account
    | .ok () => { account with state := (auditAs config policies account.state account.client now code).1 }
  | .unlock time => { account with client := { account.client with lastAdminUnlock := some time } }

def guessCount (config : LockoutConfig) (policies : Str → Except StoreError (Option LockoutPolicy)) :
    Account → List LockoutEvent → Nat
  | _, [] => 0
  | account, e :: es =>
    (if guesses config policies account e then 1 else 0) +
      guessCount config policies (lockoutStep config policies account e) es

end

end Krb5Rs
