import Krb5Rs.KpropSound
import Krb5Rs.S4uSound

/-!
# Principal names in a directory

`ldap_unparse_name` and `ldap_parse_name` of the LDAP backend's `attr.rs`: a name
is stored without the backslashes before `@`, and read with every `@` but the
last quoted again. Strings are their bytes.
-/

namespace Krb5Rs

open Wire (Bytes)
open Utf8 (Str)

/-- `replace("\\@", "@")`. -/
def unquoteAts : Bytes → Bytes
  | [] => []
  | b :: rest =>
    match rest with
    | [] => [b]
    | b' :: rest' => if b = 92 ∧ b' = 64 then 64 :: unquoteAts rest' else b :: unquoteAts (b' :: rest')

/-- `replace('@', "\\@")`. -/
def quoteAts (s : Bytes) : Bytes := s.flatMap fun b => if b = 64 then [92, 64] else [b]

section
variable [Alphabet]

def ldapUnparseName (name : PrincipalName) (realm : Str) : Bytes :=
  unquoteAts (Utf8.lossy (unparseName name realm))

def ldapParseName (s : Bytes) : Except StoreError (PrincipalName × Str) :=
  parseName (match rsplitOnce 64 s with
    | none => s
    | some (before, after) => quoteAts before ++ 64 :: after)

end

/-! ## Removing and adding the quotes -/

theorem unquoteAts_at (rest : Bytes) : unquoteAts (92 :: 64 :: rest) = 64 :: unquoteAts rest := by
  simp [unquoteAts]

variable {b : UInt8} {rest c after : Bytes} {s : NameState} {cs : List Bytes}

theorem unquoteAts_cons (h : b ≠ 92 ∨ rest.head? ≠ some 64) : unquoteAts (b :: rest) = b :: unquoteAts rest := by
  cases rest with
  | nil => rfl
  | cons b' rest =>
    rw [unquoteAts, if_neg]
    rintro ⟨rfl, rfl⟩
    exact h.elim (· rfl) (· rfl)

theorem unquoteAts_cons_at (rest : Bytes) : unquoteAts (64 :: rest) = 64 :: unquoteAts rest :=
  unquoteAts_cons (Or.inl (by decide))

theorem unquoteAts_of_notMem {s : Bytes} (h : (64 : UInt8) ∉ s) : unquoteAts s = s := by
  induction s with
  | nil => rfl
  | cons b s ih =>
    rw [unquoteAts_cons, ih fun hs => h (List.mem_cons_of_mem _ hs)]
    right
    intro hhead
    exact h (List.mem_cons_of_mem _ (List.mem_of_head? hhead))

theorem quoteByte_shape (b : UInt8) :
    (quoteByte b = [b] ∧ b ≠ 64 ∧ b ≠ 92) ∨ ∃ x, quoteByte b = [92, x] ∧ (x = 64 ↔ b = 64) ∧ (x = 92 ↔ b = 92) := by
  unfold quoteByte
  split
  · exact Or.inr ⟨b, rfl, Iff.rfl, Iff.rfl⟩
  rename_i hplain
  simp only [not_or] at hplain
  split
  · exact Or.inr ⟨116, rfl, by simp [hplain], by simp [hplain]⟩
  split
  · exact Or.inr ⟨110, rfl, by simp [hplain], by simp [hplain]⟩
  split
  · exact Or.inr ⟨98, rfl, by simp [hplain], by simp [hplain]⟩
  split
  · exact Or.inr ⟨48, rfl, by simp [hplain], by simp [hplain]⟩
  · exact Or.inl ⟨rfl, hplain.2⟩

def storedByte (b : UInt8) : Bytes := if b = 64 then [64] else quoteByte b

def storedComponent (c : Bytes) : Bytes := c.flatMap storedByte

theorem quoteAts_append (s t : Bytes) : quoteAts (s ++ t) = quoteAts s ++ quoteAts t := List.flatMap_append

theorem quoteAts_storedByte (b : UInt8) : quoteAts (storedByte b) = quoteByte b := by
  unfold storedByte
  split
  · rename_i h
    rw [h]
    rfl
  · rename_i h
    rcases quoteByte_shape b with ⟨hq, -, -⟩ | ⟨x, hq, hx, -⟩
    · simp [hq, quoteAts, h]
    · simp [hq, quoteAts, hx, h]

theorem quoteAts_storedComponent (c : Bytes) : quoteAts (storedComponent c) = appendComponent c := by
  induction c with
  | nil => rfl
  | cons b c ih =>
    rw [storedComponent, List.flatMap_cons, quoteAts_append, quoteAts_storedByte, ← storedComponent, ih]
    rfl

theorem head_quoteByte (b : UInt8) (rest : Bytes) : (quoteByte b ++ rest).head? ≠ some 64 := by
  rcases quoteByte_shape b with ⟨hq, hb, -⟩ | ⟨x, hq, -, -⟩
  · simpa [hq] using hb
  · simp [hq]

theorem unquoteAts_quoteByte (h : b ≠ 92 ∨ rest.head? ≠ some 64) :
    unquoteAts (quoteByte b ++ rest) = storedByte b ++ unquoteAts rest := by
  unfold storedByte
  split
  · rename_i hb
    subst hb
    exact unquoteAts_at rest
  · rename_i hb
    rcases quoteByte_shape b with ⟨hq, -, h92⟩ | ⟨x, hq, hx, hx92⟩
    · rw [hq, List.singleton_append, unquoteAts_cons (Or.inl h92), List.singleton_append]
    have hx64 := fun he => hb (hx.mp he)
    rw [hq]
    show unquoteAts (92 :: x :: rest) = 92 :: x :: unquoteAts rest
    rw [unquoteAts_cons (Or.inr (by simpa using hx64)), unquoteAts_cons (h.imp_left fun hb92 he => hb92 (hx92.mp he))]

theorem unquoteAts_appendComponent (h : c.getLast? ≠ some 92 ∨ rest.head? ≠ some 64) :
    unquoteAts (appendComponent c ++ rest) = storedComponent c ++ unquoteAts rest := by
  induction c with
  | nil => rfl
  | cons b c ih =>
    have hnext : b ≠ 92 ∨ (appendComponent c ++ rest).head? ≠ some 64 := by
      cases c with
      | nil => simpa [appendComponent] using h
      | cons d c =>
        right
        rw [appendComponent, List.flatMap_cons, List.append_assoc]
        exact head_quoteByte d _
    have hc : c.getLast? ≠ some 92 ∨ rest.head? ≠ some 64 := by
      cases c with
      | nil => left; simp
      | cons d c => rwa [List.getLast?_cons_cons] at h
    rw [appendComponent, List.flatMap_cons, List.append_assoc, ← appendComponent, unquoteAts_quoteByte hnext, ih hc,
      storedComponent, storedComponent, List.flatMap_cons, List.append_assoc]

def storedComponents : List Bytes → Bytes
  | [] => []
  | [c] => storedComponent c
  | c :: cs => storedComponent c ++ 47 :: storedComponents cs

theorem quoteAts_storedComponents (cs : List Bytes) : quoteAts (storedComponents cs) = unparseComponents cs := by
  induction cs with
  | nil => rfl
  | cons c cs ih =>
    cases cs with
    | nil => exact quoteAts_storedComponent c
    | cons d cs =>
      rw [storedComponents, quoteAts_append, quoteAts_storedComponent, unparseComponents, ← ih]
      · rfl
      · simp
      · simp

theorem unquoteAts_unparseComponents (h : (∀ c, cs.getLast? = some c → c.getLast? ≠ some 92) ∨ rest.head? ≠ some 64) :
    unquoteAts (unparseComponents cs ++ rest) = storedComponents cs ++ unquoteAts rest := by
  induction cs with
  | nil => rfl
  | cons c cs ih =>
    cases cs with
    | nil => exact unquoteAts_appendComponent (h.imp_left fun hc => hc c rfl)
    | cons d cs =>
      have hslash : unquoteAts (47 :: (unparseComponents (d :: cs) ++ rest)) =
          47 :: unquoteAts (unparseComponents (d :: cs) ++ rest) := unquoteAts_cons (Or.inl (by decide))
      rw [unparseComponents, storedComponents, List.append_assoc, List.append_assoc, List.cons_append, List.cons_append,
        unquoteAts_appendComponent (Or.inr (by simp)), hslash, ih h]
      · simp
      · simp

theorem at_mem_appendComponent : (64 : UInt8) ∈ appendComponent c ↔ (64 : UInt8) ∈ c := by
  have hbyte : ∀ b : UInt8, (64 : UInt8) ∈ quoteByte b ↔ b = 64 := by
    intro b
    rcases quoteByte_shape b with ⟨hq, hb, -⟩ | ⟨x, hq, hx, -⟩
    · simp [hq, hb, Ne.symm hb]
    · rw [hq, ← hx]
      simp [eq_comm]
  rw [appendComponent, List.mem_flatMap]
  constructor
  · rintro ⟨b, hb, h⟩
    exact (hbyte b).mp h ▸ hb
  · intro h
    exact ⟨64, h, (hbyte 64).mpr rfl⟩

theorem exists_last_at (h : (64 : UInt8) ∈ c) : ∃ before after, c = before ++ 64 :: after ∧ (64 : UInt8) ∉ after := by
  induction c with
  | nil => cases h
  | cons b c ih =>
    by_cases hc : (64 : UInt8) ∈ c
    · obtain ⟨before, after, rfl, hafter⟩ := ih hc
      exact ⟨b :: before, after, rfl, hafter⟩
    · obtain rfl : 64 = b := (List.mem_cons.mp h).resolve_right hc
      exact ⟨[], c, rfl, hc⟩

theorem unparseComponents_backslash (cs : List Bytes) (c : Bytes) :
    unparseComponents (cs ++ [c ++ [92]]) = unparseComponents (cs ++ [c]) ++ [92, 92] := by
  have hlast : appendComponent (c ++ [92]) = appendComponent c ++ [92, 92] := by
    rw [appendComponent, List.flatMap_append]
    rfl
  induction cs with
  | nil => exact hlast
  | cons d cs ih =>
    have hne : ∀ x : Bytes, cs ++ [x] ≠ [] := by simp
    have hcons : ∀ x : Bytes, unparseComponents (d :: (cs ++ [x])) = appendComponent d ++ 47 :: unparseComponents (cs ++ [x]) := by
      intro x
      obtain ⟨e, es, he⟩ := List.exists_cons_of_ne_nil (hne x)
      rw [he, unparseComponents]
      simp
    rw [List.cons_append, List.cons_append, hcons, hcons, ih, List.append_assoc, List.cons_append]

theorem unquoteAts_realm (before : Bytes) (h : (64 : UInt8) ∉ after) :
    unquoteAts (appendComponent (before ++ 64 :: after)) = storedComponent before ++ 64 :: appendComponent after := by
  have hsplit : appendComponent (before ++ 64 :: after) = appendComponent before ++ 92 :: 64 :: appendComponent after := by
    rw [appendComponent, List.flatMap_append, List.flatMap_cons]
    rfl
  rw [hsplit, unquoteAts_appendComponent (Or.inr (by simp)), unquoteAts_at,
    unquoteAts_of_notMem (at_mem_appendComponent.not.mpr h)]

theorem parseLoop_appendComponent_name (c : Bytes) (h : s.inRealm = false) (rest : Bytes) :
    parseLoop s (appendComponent c ++ rest) = parseLoop { s with current := s.current ++ c } rest := by
  rw [parseLoop_appendComponent, foldl_push_component c s h]

theorem parseLoop_appendComponent_realm (c : Bytes) (h : s.inRealm = true) (rest : Bytes) :
    parseLoop s (appendComponent c ++ rest) = parseLoop { s with realm := s.realm ++ c } rest := by
  rw [parseLoop_appendComponent, foldl_push_realm c s h]

theorem parseLoop_quoted (hb : b = 64 ∨ b = 92) (h : s.inRealm = false) (rest : Bytes) :
    parseLoop s (92 :: b :: rest) = parseLoop { s with current := s.current ++ [b] } rest := by
  have hu : unquoteByte b = b := by rcases hb with rfl | rfl <;> rfl
  rw [parseLoop_escaped, hu, NameState.push, h]
  rfl

/-! ## Names that are stored faithfully -/

section
variable [Alphabet] {name : PrincipalName}

/-- No `@` in the realm, and no backslash at the end of the last component. -/
structure Storable (name : PrincipalName) (realm : Str) : Prop where
  realm : (64 : UInt8) ∉ realm.bytes
  last : ∀ c, name.components.getLast? = some c → c.getLast? ≠ some 92

theorem ldapUnparseName_eq (realm : Str) (hutf : ∀ c ∈ name.components, Utf8.valid c = true) :
    ldapUnparseName name realm = unquoteAts (unparseComponents name.components ++ 64 :: appendComponent realm.bytes) := by
  rw [ldapUnparseName, Utf8.lossy_of_valid (valid_unparseName realm hutf), unparseName]

theorem ldapParseName_eq (before : Bytes) (h : (64 : UInt8) ∉ after) :
    ldapParseName (before ++ 64 :: after) = parseName (quoteAts before ++ 64 :: after) := by
  rw [ldapParseName, rsplitOnce_append h]

variable {realm : Str}

theorem ldapParseName_of_storable (hne : name.nameString ≠ [])
    (hutf : ∀ c ∈ name.components, Utf8.valid c = true) (h : Storable name realm) :
    ldapParseName (ldapUnparseName name realm) = .ok (name.inferred, realm) := by
  have hrealm := at_mem_appendComponent.not.mpr h.realm
  rw [ldapUnparseName_eq realm hutf, unquoteAts_unparseComponents (Or.inl h.last), unquoteAts_cons_at,
    unquoteAts_of_notMem hrealm, ldapParseName_eq _ hrealm, quoteAts_storedComponents]
  exact parseName_unparseName name realm hne

/-! ## Names that are not -/

theorem parseName_loop {key : Bytes} (h : parseName key = .ok (name, realm)) :
    ∃ s, parseLoop .init key = .ok s ∧ s.inRealm = true ∧ s.realm = realm.bytes := by
  unfold parseName parseNameInner at h
  split at h
  · cases h
  obtain ⟨s, hs, h⟩ := Wire.bind_eq_ok.mp h
  refine ⟨s, hs, ?_⟩
  cases hin : s.inRealm
  · simp [bind, Except.bind, hin] at h
  refine ⟨rfl, ?_⟩
  simp only [bind, Except.bind, hin, if_true] at h
  cases hr : Str.ofUtf8 s.realm with
  | none => rw [hr] at h; cases h
  | some r =>
    rw [hr] at h
    cases hg : generalStrings s.components with
    | error e => rw [hg] at h; cases h
    | ok ns =>
      rw [hg] at h
      obtain ⟨-, rfl⟩ := Prod.mk.inj (Except.ok.inj h)
      exact (Utf8.bytes_of_ofUtf8 hr).symm

theorem parseName_behind (hcs : cs ≠ []) (h : parseName (unparseComponents cs ++ rest) = .ok (name, realm)) :
    ∃ s s' : NameState, s.inRealm = false ∧ s.realm = [] ∧ parseLoop s rest = .ok s' ∧ s'.inRealm = true ∧
      s'.realm = realm.bytes := by
  obtain ⟨c, cs, rfl⟩ := List.exists_cons_of_ne_nil hcs
  obtain ⟨s', hs', hin, hrealm⟩ := parseName_loop h
  obtain ⟨s, hs, -, hout, hempty⟩ := parseLoop_unparseComponents rest c cs .init rfl rfl
  exact ⟨s, s', hout, hempty, hs ▸ hs', hin, hrealm⟩

section
variable {cs : List Bytes} (hcs : cs ≠ [])
include hcs

theorem not_ok_of_backslash {realm : Bytes} (hrealm : (64 : UInt8) ∉ realm) (p : PrincipalName × Str) :
    ldapParseName (unquoteAts (unparseComponents cs ++ 92 :: 92 :: 64 :: appendComponent realm)) ≠ .ok p := by
  have hat := at_mem_appendComponent.not.mpr hrealm
  have hstored : unquoteAts (92 :: 92 :: 64 :: appendComponent realm) = [92] ++ 64 :: appendComponent realm := by
    rw [unquoteAts_cons (Or.inr (by simp)), unquoteAts_at, unquoteAts_of_notMem hat]
    rfl
  rw [unquoteAts_unparseComponents (Or.inr (by simp)), hstored, ← List.append_assoc, ldapParseName_eq _ hat,
    quoteAts_append, quoteAts_storedComponents, List.append_assoc]
  intro h
  obtain ⟨s, s', hout, -, hloop, hin, -⟩ := parseName_behind hcs h
  have hread : parseLoop s (92 :: 64 :: (appendComponent realm ++ [])) =
      .ok { s with current := s.current ++ [64] ++ realm } := by
    rw [parseLoop_quoted (Or.inl rfl) hout, parseLoop_appendComponent_name realm (by exact hout)]
    rfl
  rw [List.append_nil] at hread
  cases hread.symm.trans hloop
  rw [show s.inRealm = true from hin] at hout
  cases hout

theorem realm_of_at (hlast : ∀ c, cs.getLast? = some c → c.getLast? ≠ some 92) (before : Bytes)
    (hafter : (64 : UInt8) ∉ after)
    (h : ldapParseName (unquoteAts (unparseComponents cs ++ 64 :: appendComponent (before ++ 64 :: after))) =
      .ok (name, realm)) : realm.bytes = after := by
  have hat := at_mem_appendComponent.not.mpr hafter
  rw [unquoteAts_unparseComponents (Or.inl hlast), unquoteAts_cons_at, unquoteAts_realm before hafter, ← List.cons_append,
    ← List.append_assoc, ldapParseName_eq _ hat, quoteAts_append, quoteAts_storedComponents, List.append_assoc] at h
  obtain ⟨s, s', hout, hempty, hloop, -, hrealm⟩ := parseName_behind hcs h
  have hquoted : quoteAts (64 :: storedComponent before) = 92 :: 64 :: appendComponent before := by
    rw [← quoteAts_storedComponent]
    rfl
  have hread : parseLoop s (92 :: 64 :: (appendComponent before ++ 64 :: (appendComponent after ++ []))) =
      .ok { s with current := s.current ++ [64] ++ before, inRealm := true, realm := s.realm ++ after } := by
    rw [parseLoop_quoted (Or.inl rfl) hout, parseLoop_appendComponent_name before (by exact hout),
      parseLoop_at _ (by exact hout), parseLoop_appendComponent_realm after rfl]
    rfl
  rw [hquoted] at hloop
  rw [List.append_nil] at hread
  cases hread.symm.trans hloop
  rw [← hrealm, hempty]
  rfl

theorem not_ok_of_backslash_at (before : Bytes) (hafter : (64 : UInt8) ∉ after) (p : PrincipalName × Str) :
    ldapParseName (unquoteAts (unparseComponents cs ++ 92 :: 92 :: 64 :: appendComponent (before ++ 64 :: after))) ≠
      .ok p := by
  have hat := at_mem_appendComponent.not.mpr hafter
  have hstored : unquoteAts (92 :: 92 :: 64 :: appendComponent (before ++ 64 :: after)) =
      92 :: 64 :: storedComponent before ++ 64 :: appendComponent after := by
    rw [unquoteAts_cons (Or.inr (by simp)), unquoteAts_at, unquoteAts_realm before hafter]
    rfl
  have hquoted : quoteAts (92 :: 64 :: storedComponent before) = 92 :: 92 :: 64 :: appendComponent before := by
    rw [← quoteAts_storedComponent]
    rfl
  rw [unquoteAts_unparseComponents (Or.inr (by simp)), hstored, ← List.append_assoc, ldapParseName_eq _ hat,
    quoteAts_append, quoteAts_storedComponents, List.append_assoc, hquoted]
  intro h
  obtain ⟨s, s', hout, -, hloop, -, -⟩ := parseName_behind hcs h
  have hread : parseLoop s (92 :: 92 :: 64 :: (appendComponent before ++ 64 :: appendComponent after)) =
      .error (.corrupt "multiple unescaped realm separators in MIT key") := by
    rw [parseLoop_quoted (Or.inr rfl) hout, parseLoop_at _ (by exact hout), parseLoop_appendComponent_realm before rfl,
      parseLoop.eq_def]
    simp
  rw [List.cons_append, List.cons_append, List.cons_append, hread] at hloop
  cases hloop

end

theorem storable_of_read (hne : name.nameString ≠ [])
    (hutf : ∀ c ∈ name.components, Utf8.valid c = true) {name' : PrincipalName}
    (h : ldapParseName (ldapUnparseName name realm) = .ok (name', realm)) : Storable name realm := by
  have hcs : name.components ≠ [] := by simpa [PrincipalName.components] using hne
  rw [ldapUnparseName_eq realm hutf] at h
  by_cases hlast : ∀ c, name.components.getLast? = some c → c.getLast? ≠ some 92
  · refine ⟨?_, hlast⟩
    intro hat
    obtain ⟨before, after, hsplit, hafter⟩ := exists_last_at hat
    rw [hsplit] at h
    have := realm_of_at hcs hlast before hafter h
    exact hafter (this ▸ hat)
  · -- the last component ends in a backslash
    exfalso
    simp only [not_forall, not_not] at hlast
    obtain ⟨c, hc, hback⟩ := hlast
    obtain ⟨cs, hcs'⟩ := List.getLast?_eq_some_iff.mp hc
    obtain ⟨c₀, rfl⟩ := List.getLast?_eq_some_iff.mp hback
    have hcs₀ : cs ++ [c₀] ≠ [] := by simp
    have htext : ∀ rest, unparseComponents name.components ++ 64 :: rest =
        unparseComponents (cs ++ [c₀]) ++ 92 :: 92 :: 64 :: rest := by
      intro rest
      rw [hcs', unparseComponents_backslash, List.append_assoc]
      rfl
    rw [htext] at h
    by_cases hat : (64 : UInt8) ∈ realm.bytes
    · obtain ⟨before, after, hsplit, hafter⟩ := exists_last_at hat
      rw [hsplit] at h
      exact not_ok_of_backslash_at hcs₀ before hafter _ h
    · exact not_ok_of_backslash hcs₀ hat _ h

/-- A name of UTF-8 components is read back exactly when it is storable, and storable names do not collide. -/
theorem ldap_round_trip (name : PrincipalName) (realm : Str) (hne : name.nameString ≠ [])
    (hutf : ∀ c ∈ name.components, Utf8.valid c = true) :
    ((∃ name', ldapParseName (ldapUnparseName name realm) = .ok (name', realm) ∧ name'.nameString = name.nameString) ↔
        Storable name realm) ∧
      (Storable name realm → ∀ (other : PrincipalName) (otherRealm : Str), other.nameString ≠ [] →
        (∀ c ∈ other.components, Utf8.valid c = true) → Storable other otherRealm →
        ldapUnparseName name realm = ldapUnparseName other otherRealm →
        name.nameString = other.nameString ∧ realm = otherRealm) := by
  refine ⟨⟨fun ⟨_, h, _⟩ => storable_of_read hne hutf h, ?_⟩, ?_⟩
  · intro h
    exact ⟨name.inferred, ldapParseName_of_storable hne hutf h, rfl⟩
  · intro h other otherRealm hne' hutf' h' heq
    have hread := ldapParseName_of_storable hne hutf h
    rw [heq, ldapParseName_of_storable hne' hutf' h'] at hread
    obtain ⟨hname, hrealm⟩ := Prod.mk.inj (Except.ok.inj hread)
    exact ⟨(congrArg PrincipalName.nameString hname).symm, hrealm.symm⟩

end

section
attribute [local instance] Alphabet.ascii

/-- An `@` in a name is stored plain and read back. -/
theorem ldap_round_trip_at :
    ∃ name', ldapParseName (ldapUnparseName ⟨1, [⟨[110, 64, 78], rfl⟩]⟩ ⟨[79], rfl⟩) = .ok (name', ⟨[79], rfl⟩) ∧
      name'.nameString = [⟨[110, 64, 78], rfl⟩] :=
  (ldap_round_trip ⟨1, [⟨[110, 64, 78], rfl⟩]⟩ ⟨[79], rfl⟩ (by simp) (by decide)).1.mpr
    ⟨by decide, by rintro _ ⟨⟩; decide⟩

/-- `n` of the realm `N@O` and `n@N` of the realm `O` are stored alike, and a name that ends in a backslash cannot be
read at all. -/
theorem ldap_names_collide :
    ldapUnparseName ⟨1, [⟨[110], rfl⟩]⟩ ⟨[78, 64, 79], rfl⟩ = ldapUnparseName ⟨1, [⟨[110, 64, 78], rfl⟩]⟩ ⟨[79], rfl⟩ ∧
      ldapParseName (ldapUnparseName ⟨1, [⟨[110, 92], rfl⟩]⟩ ⟨[79], rfl⟩) =
        .error (.corrupt "MIT principal key has no realm separator") :=
  ⟨rfl, rfl⟩

end

end Krb5Rs
