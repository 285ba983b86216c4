import Krb5Rs.CcName
import Krb5Rs.Kprop
import Krb5Rs.Transit

/-!
# Principals and local accounts

`localauth.rs` with its built-in modules: `aname_to_localname` and `kuserok`.
The regular expressions of rules, the password database, the file system and the
default realm are the system's.
-/

namespace Krb5Rs

open Wire (Bytes)
open Utf8 (Str)

namespace Localauth

inductive LocalauthError
  | noTranslation
  | badFormat
deriving Repr, DecidableEq

def maxUsername : Nat := 65

def bufsiz : Nat := 8192

inductive Builtin
  | default
  | rule
  | names
  | authToLocal
  | k5login
  | an2ln
deriving Repr, DecidableEq

def Builtin.all : List Builtin := [.default, .rule, .names, .authToLocal, .k5login, .an2ln]

def Builtin.an2lnType : Builtin → Option Profile.Text
  | .default => some "DEFAULT".toList
  | .rule => some "RULE".toList
  | _ => none

inductive Userok
  | accept
  | noHandle
  | deny
deriving Repr, DecidableEq

structure File where
  content : Option Bytes
  owner : Option Nat

def strOf (t : Profile.Text) : Str := Utf8.lossyStr (t.flatMap String.utf8EncodeChar)

def textOf (s : Str) : Profile.Text := Utf8.chars s.bytes

def cstr (b : Bytes) : Str := Utf8.lossyStr (b.takeWhile (· ≠ 0))

theorem cstr_of_plain {c : Bytes} (hzero : (0 : UInt8) ∉ c) (hvalid : Utf8.valid c = true) : (cstr c).bytes = c := by
  have hall : c.takeWhile (· ≠ 0) = c := by
    rw [List.takeWhile_eq_self_iff]
    intro b hb
    simpa using fun h : b = 0 => hzero (h ▸ hb)
  rw [cstr, hall]
  exact Utf8.lossy_of_valid hvalid

def joinPath (dir name : Bytes) : Bytes :=
  if name.head? = some 47 ∨ dir.isEmpty then name
  else if dir.getLast? = some 47 then dir ++ name
  else dir ++ 47 :: name

/-- The lines `fgets` gives: without the newline, cut to the buffer and at a NUL. -/
def fgetsLines (content : Bytes) : List Bytes :=
  let lines := content.splitOn 10
  let lines := if lines.getLast? = some [] then lines.dropLast else lines
  lines.map fun l => (l.take (bufsiz - 1)).takeWhile (· ≠ 0)

/-- `Profile::get_boolean`; `none` if the value is no boolean. -/
def getBoolean (root : Profile.Node) (path : List Profile.Text) (key : Profile.Text) (dflt : Bool) : Option Bool :=
  match Profile.getValues root path key with
  | [] => some dflt
  | v :: _ =>
    let is (words : List String) : Bool := words.any fun w => eqIgnoreAsciiCase (strOf v).bytes (ascii w)
    if is ["y", "yes", "true", "t", "1", "on"] then some true
    else if is ["n", "no", "false", "nil", "0", "off"] then some false
    else none

end Localauth

open Localauth

section
variable [Alphabet] {l : Str}

/-- The modules of a profile, and the system they run on. -/
structure Localauth where
  profile : Profile.Node
  modules : List Builtin
  defaultRealm : Option Str
  an2lnRule : Option Str → PrincipalName → Str → Except LocalauthError Str
  getpwnam : Str → Option (Bytes × Nat)
  file : Bytes → Option File

namespace Localauth

def an2lnDefault (la : Localauth) (aname : PrincipalName) (realm : Str) : Except LocalauthError Str :=
  match la.defaultRealm with
  | none => .error .noTranslation
  | some dflt =>
    if realm ≠ dflt then .error .noTranslation
    else
      match aname.components with
      | [c] => .ok (cstr c)
      | [c, d] => if d = dflt.bytes then .ok (cstr c) else .error .noTranslation
      | _ => .error .noTranslation

def an2lnTyped (la : Localauth) (m : Builtin) (residual : Option Str) (aname : PrincipalName) (realm : Str) :
    Except LocalauthError Str :=
  match m with
  | .default => la.an2lnDefault aname realm
  | .rule => la.an2lnRule residual aname realm
  | _ => .error .noTranslation

def splitValue (v : Profile.Text) : Profile.Text × Option Str :=
  match v.span (· ≠ ':') with
  | (t, []) => (t, none)
  | (t, _ :: r) => (t, some (strOf r))

def an2lnValue (la : Localauth) (v : Profile.Text) (aname : PrincipalName) (realm : Str) : Except LocalauthError Str :=
  match la.modules.find? fun m => m.an2lnType = some (splitValue v).1 with
  | some m => la.an2lnTyped m (splitValue v).2 aname realm
  | none => .error .badFormat

def an2lnValues (la : Localauth) (aname : PrincipalName) (realm : Str) : List Profile.Text → Except LocalauthError Str
  | [] => .error .noTranslation
  | v :: vs =>
    match la.an2lnValue v aname realm with
    | .error .noTranslation => la.an2lnValues aname realm vs
    | r => r

def an2lnAuthToLocal (la : Localauth) (aname : PrincipalName) (realm : Str) : Except LocalauthError Str :=
  match la.defaultRealm with
  | none => .error .noTranslation
  | some dflt =>
    match Profile.getValues la.profile ["realms".toList, textOf dflt] "auth_to_local".toList with
    | [] => la.an2lnDefault aname realm
    | values => la.an2lnValues aname realm values

/-- The last value of `auth_to_local_names` for the name without its realm. -/
def an2lnNames (la : Localauth) (aname : PrincipalName) : Except LocalauthError Str :=
  match la.defaultRealm with
  | none => .error .noTranslation
  | some dflt =>
    let pname := Utf8.chars (unparseNoRealm aname)
    match (Profile.getValues la.profile ["realms".toList, textOf dflt, "auth_to_local_names".toList] pname).getLast? with
    | some v => .ok (strOf v)
    | none => .error .noTranslation

def an2ln (la : Localauth) (m : Builtin) (residual : Option Str) (aname : PrincipalName) (realm : Str) :
    Except LocalauthError Str :=
  match m with
  | .default => la.an2lnDefault aname realm
  | .rule => la.an2lnRule residual aname realm
  | .names => la.an2lnNames aname
  | .authToLocal => la.an2lnAuthToLocal aname realm
  | .k5login => .error .noTranslation
  | .an2ln => .error .noTranslation

/-- The first untyped module that maps the principal wins; any error but "no translation" stops. -/
def localnameBy (la : Localauth) (aname : PrincipalName) (realm : Str) : List Builtin → Except LocalauthError Str
  | [] => .error .noTranslation
  | m :: ms =>
    if m.an2lnType.isSome then la.localnameBy aname realm ms
    else
      match la.an2ln m none aname realm with
      | .error .noTranslation => la.localnameBy aname realm ms
      | r => r

def anameToLocalname (la : Localauth) (aname : PrincipalName) (realm : Str) : Except LocalauthError Str :=
  la.localnameBy aname realm la.modules

def k5loginFile (la : Localauth) (home : Bytes) (lname : Str) : Bytes :=
  match Profile.getValues la.profile ["libdefaults".toList] "k5login_directory".toList with
  | [] => joinPath home (ascii ".k5login")
  | dir :: _ => joinPath (strOf dir).bytes lname.bytes

def k5loginLists (f : File) (uid : Nat) (princname : Bytes) : Bool :=
  match f.content with
  | none => false
  | some content => (f.owner = some uid ∨ f.owner = some 0) && (fgetsLines content).contains princname

def userokK5login (la : Localauth) (aname : PrincipalName) (realm lname : Str) : Userok :=
  match getBoolean la.profile ["libdefaults".toList] "k5login_authoritative".toList true with
  | none => .deny
  | some authoritative =>
    let refuse := if authoritative then Userok.deny else Userok.noHandle
    match la.getpwnam lname with
    | none => refuse
    | some (home, uid) =>
      match la.file (la.k5loginFile home lname) with
      | none => .noHandle
      | some f => if k5loginLists f uid (ccUnparseName aname realm) then .accept else refuse

def userokAn2ln (la : Localauth) (aname : PrincipalName) (realm lname : Str) : Userok :=
  match la.anameToLocalname aname realm with
  | .ok l => if l.bytes.length < maxUsername ∧ l = lname then .accept else .noHandle
  | .error _ => .noHandle

def userok (la : Localauth) (m : Builtin) (aname : PrincipalName) (realm lname : Str) : Userok :=
  match m with
  | .k5login => la.userokK5login aname realm lname
  | .an2ln => la.userokAn2ln aname realm lname
  | _ => .noHandle

def kuserokBy (la : Localauth) (aname : PrincipalName) (realm lname : Str) : Bool → List Builtin → Bool
  | accepted, [] => accepted
  | accepted, m :: ms =>
    match la.userok m aname realm lname with
    | .accept => la.kuserokBy aname realm lname true ms
    | .noHandle => la.kuserokBy aname realm lname accepted ms
    | .deny => false

def kuserok (la : Localauth) (aname : PrincipalName) (realm lname : Str) : Bool :=
  la.kuserokBy aname realm lname false la.modules

/-! ## Without configuration -/

structure Unconfigured (la : Localauth) : Prop where
  noAuthToLocal : ∀ dflt, Profile.getValues la.profile ["realms".toList, dflt] "auth_to_local".toList = []
  noNames : ∀ dflt pname, Profile.getValues la.profile ["realms".toList, dflt, "auth_to_local_names".toList] pname = []
  noFiles : ∀ path, la.file path = none

structure Stands (la : Localauth) (aname : PrincipalName) (realm lname : Str) : Prop where
  inDefault : la.defaultRealm = some realm
  name : ∃ c, (aname.components = [c] ∨ aname.components = [c, realm.bytes]) ∧ cstr c = lname

theorem stands_of_default {la : Localauth} {aname : PrincipalName} {realm : Str}
    (h : la.an2lnDefault aname realm = .ok l) : Stands la aname realm l := by
  unfold an2lnDefault at h
  cases hd : la.defaultRealm with
  | none => rw [hd] at h; cases h
  | some dflt =>
    rw [hd] at h
    by_cases hr : realm = dflt
    · subst hr
      simp only [ne_eq, not_true_eq_false, if_false] at h
      refine ⟨hd, ?_⟩
      split at h
      · rename_i c hc
        exact ⟨c, Or.inl hc, Except.ok.inj h⟩
      · rename_i c d hc
        split at h
        · rename_i heq
          exact ⟨c, Or.inr (heq ▸ hc), Except.ok.inj h⟩
        · cases h
      · cases h
    · simp only [ne_eq, hr, not_false_eq_true, if_true] at h
      cases h

section
variable {la : Localauth} (hla : la.Unconfigured)
include hla

variable {aname : PrincipalName} {realm lname : Str} {ms : List Builtin} {m : Builtin}

theorem stands_of_an2ln (hm : m.an2lnType = none)
    (h : la.an2ln m none aname realm = .ok l) : Stands la aname realm l := by
  cases m with
  | default => cases hm
  | rule => cases hm
  | names =>
    simp only [an2ln, an2lnNames, hla.noNames] at h
    split at h <;> cases h
  | authToLocal =>
    simp only [an2ln, an2lnAuthToLocal, hla.noAuthToLocal] at h
    split at h
    · cases h
    · exact stands_of_default h
  | k5login => cases h
  | an2ln => cases h

theorem stands_of_localname (h : la.localnameBy aname realm ms = .ok l) : Stands la aname realm l := by
  induction ms with
  | nil => cases h
  | cons m ms ih =>
    rw [localnameBy] at h
    split at h
    · exact ih h
    rename_i htype
    split at h
    · exact ih h
    · exact stands_of_an2ln hla (by simpa using htype) h

theorem stands_of_userok (h : la.userok m aname realm lname = .accept) : Stands la aname realm lname := by
  cases m with
  | k5login =>
    simp only [userok, userokK5login, hla.noFiles] at h
    repeat' split at h
    all_goals cases h
  | an2ln =>
    simp only [userok, userokAn2ln] at h
    split at h
    · rename_i l hl
      split at h
      · rename_i hok
        exact hok.2 ▸ stands_of_localname hla hl
      · cases h
    · cases h
  | _ => cases h

theorem stands_of_kuserok {accepted : Bool} (h : la.kuserokBy aname realm lname accepted ms = true) :
    accepted = true ∨ Stands la aname realm lname := by
  induction ms generalizing accepted with
  | nil => exact Or.inl h
  | cons m ms ih =>
    rw [kuserokBy] at h
    split at h
    · rename_i hm
      exact Or.inr (stands_of_userok hla hm)
    · exact ih h
    · cases h

end

/-- Without configuration a principal may log in to an account only if it is in the default realm and its first
component, as a C string, is the account's name. -/
theorem kuserok_sound (la : Localauth) (hla : la.Unconfigured) (aname : PrincipalName) (realm lname : Str)
    (h : la.kuserok aname realm lname = true) : la.defaultRealm = some realm ∧
      (∃ c, (aname.components = [c] ∨ aname.components = [c, realm.bytes]) ∧ cstr c = lname) ∧
      ((∀ c ∈ aname.components, (0 : UInt8) ∉ c ∧ Utf8.valid c = true) →
        aname.components = [lname.bytes] ∨ aname.components = [lname.bytes, realm.bytes]) := by
  rcases stands_of_kuserok hla h with h | h
  · cases h
  refine ⟨h.inDefault, h.name, ?_⟩
  intro hplain
  obtain ⟨c, hc, hl⟩ := h.name
  have hmem : c ∈ aname.components := by rcases hc with hc | hc <;> simp [hc]
  have hbytes : c = lname.bytes := by rw [← hl, cstr_of_plain (hplain c hmem).1 (hplain c hmem).2]
  rwa [← hbytes]

end Localauth

end

section
attribute [local instance] Alphabet.ascii

def plainLocalauth : Localauth where
  profile := Profile.Node.new [] none
  modules := Localauth.Builtin.all
  defaultRealm := some ⟨[79], rfl⟩
  an2lnRule _ _ _ := .error .noTranslation
  getpwnam l := if l.bytes = [112] then some ([], 1) else none
  file _ := none

theorem plainLocalauth_unconfigured : plainLocalauth.Unconfigured :=
  ⟨fun _ => rfl, fun _ _ => rfl, fun _ => rfl⟩

/-- The user logs in to its own account. -/
theorem kuserok_sound_own : plainLocalauth.kuserok ⟨1, [⟨[112], rfl⟩]⟩ ⟨[79], rfl⟩ ⟨[112], rfl⟩ = true ∧
    plainLocalauth.defaultRealm = some ⟨[79], rfl⟩ :=
  ⟨rfl, (Localauth.kuserok_sound plainLocalauth plainLocalauth_unconfigured ⟨1, [⟨[112], rfl⟩]⟩ ⟨[79], rfl⟩
    ⟨[112], rfl⟩ rfl).1⟩

/-- So does a principal whose component goes on behind a NUL. -/
theorem kuserok_behind_nul : plainLocalauth.Unconfigured ∧
    plainLocalauth.kuserok ⟨1, [⟨[112, 0, 80], rfl⟩]⟩ ⟨[79], rfl⟩ ⟨[112], rfl⟩ = true :=
  ⟨plainLocalauth_unconfigured, rfl⟩

end

end Krb5Rs
