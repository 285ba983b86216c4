import Krb5Rs.MitName

/-!
# MIT principal-name keys read back

`parse_name` undoes the quoting of `unparse_name` for every name with a
component; only the name type is inferred afresh.
-/

namespace Krb5Rs

open Wire (Bytes)
open Utf8 (Str)
open NameState (components init push)

theorem parseLoop_escaped (s : NameState) (b : UInt8) (rest : Bytes) :
    parseLoop s (92 :: b :: rest) = parseLoop (s.push (unquoteByte b)) rest := by
  rw [parseLoop.eq_def]; simp

theorem parseLoop_plain (s : NameState) {b : UInt8} (rest : Bytes) (h : b ≠ 47 ∧ b ≠ 64 ∧ b ≠ 92) :
    parseLoop s (b :: rest) = parseLoop (s.push b) rest := by
  rw [parseLoop.eq_def]; simp [h]

variable {s : NameState}

theorem parseLoop_slash (rest : Bytes) (h : s.inRealm = false) :
    parseLoop s (47 :: rest) = parseLoop { s with done := s.done ++ [s.current], current := [] } rest := by
  rw [parseLoop.eq_def]; simp [h]

theorem parseLoop_at (rest : Bytes) (h : s.inRealm = false) :
    parseLoop s (64 :: rest) = parseLoop { s with inRealm := true } rest := by
  rw [parseLoop.eq_def]; simp [h]

theorem parseLoop_quoteByte (s : NameState) (b : UInt8) (rest : Bytes) :
    parseLoop s (quoteByte b ++ rest) = parseLoop (s.push b) rest := by
  unfold quoteByte
  by_cases h1 : b = 47 ∨ b = 64 ∨ b = 92
  · rw [if_pos h1]
    have hu : unquoteByte b = b := by
      rcases h1 with rfl | rfl | rfl <;> decide
    simp [parseLoop_escaped, hu]
  · rw [if_neg h1]
    by_cases h2 : b = 9
    · subst h2; exact parseLoop_escaped s 116 rest
    by_cases h3 : b = 10
    · subst h3; exact parseLoop_escaped s 110 rest
    by_cases h4 : b = 8
    · subst h4; exact parseLoop_escaped s 98 rest
    by_cases h5 : b = 0
    · subst h5; exact parseLoop_escaped s 48 rest
    simp only [h2, h3, h4, h5, if_false, List.cons_append, List.nil_append]
    exact parseLoop_plain s rest (by simpa [not_or] using h1)

theorem parseLoop_appendComponent (c : Bytes) : ∀ (s : NameState) (rest : Bytes),
      parseLoop s (appendComponent c ++ rest) = parseLoop (c.foldl push s) rest := by
  induction c with
  | nil => intro s rest; rfl
  | cons b c ih =>
    intro s rest
    show parseLoop s ((quoteByte b ++ appendComponent c) ++ rest) = _
    rw [List.append_assoc, parseLoop_quoteByte, ih]
    rfl

theorem foldl_push_component (c : Bytes) :
    ∀ s : NameState, s.inRealm = false → c.foldl push s = { s with current := s.current ++ c } := by
  induction c with
  | nil => intro s _; simp
  | cons b c ih =>
    intro s h
    rw [List.foldl_cons, ih _ (by simp [push, h])]
    simp [push, h]

theorem foldl_push_realm (c : Bytes) :
    ∀ s : NameState, s.inRealm = true → c.foldl push s = { s with realm := s.realm ++ c } := by
  induction c with
  | nil => intro s _; simp
  | cons b c ih =>
    intro s h
    rw [List.foldl_cons, ih _ (by simp [push, h])]
    simp [push, h]

theorem parseLoop_unparseComponents (rest : Bytes) :
    ∀ (c : Bytes) (cs : List Bytes) (s : NameState), s.inRealm = false → s.current = [] →
      ∃ s', parseLoop s (unparseComponents (c :: cs) ++ rest) = parseLoop s' rest ∧
        s'.components = s.done ++ c :: cs ∧ s'.inRealm = false ∧ s'.realm = s.realm := by
  intro c cs
  induction cs generalizing c with
  | nil =>
    intro s hr hc
    refine ⟨{ s with current := c }, ?_, rfl, hr, rfl⟩
    simp only [unparseComponents]
    rw [parseLoop_appendComponent, foldl_push_component c s hr, hc, List.nil_append]
  | cons d cs ih =>
    intro s hr hc
    obtain ⟨s', hp, hcs, hr', hrl⟩ := ih d { s with done := s.done ++ [c], current := [] } hr rfl
    refine ⟨s', ?_, by simpa using hcs, hr', hrl⟩
    rw [← hp]
    show parseLoop s ((appendComponent c ++ 47 :: unparseComponents (d :: cs)) ++ rest) = _
    rw [List.append_assoc, parseLoop_appendComponent, foldl_push_component c s hr, hc]
    exact parseLoop_slash _ hr

theorem zero_notMem_appendComponent (c : Bytes) : (0 : UInt8) ∉ appendComponent c := by
  intro h
  obtain ⟨b, -, hb⟩ := List.mem_flatMap.mp h
  unfold quoteByte at hb
  by_cases h0 : b = 0
  · subst h0; revert hb; decide
  split at hb
  · simp [Ne.symm h0] at hb
  · repeat' split at hb
    all_goals simp [Ne.symm h0] at hb

theorem zero_notMem_unparseComponents (cs : List Bytes) : (0 : UInt8) ∉ unparseComponents cs := by
  induction cs with
  | nil => simp [unparseComponents]
  | cons c cs ih =>
    cases cs with
    | nil => simpa [unparseComponents] using zero_notMem_appendComponent c
    | cons d cs =>
      simp only [unparseComponents, List.mem_append, List.mem_cons, not_or]
      exact ⟨zero_notMem_appendComponent c, by decide, ih⟩

section
variable [Alphabet]

theorem generalStrings_map_bytes (gs : List GeneralString) : generalStrings (gs.map (·.bytes)) = .ok gs := by
  induction gs with
  | nil => rfl
  | cons g gs ih =>
    simp only [List.map_cons, generalStrings, fromBytes_bytes, ih]
    rfl

theorem components_of_generalStrings {bs : List Bytes} {gs : List GeneralString}
    (h : generalStrings bs = .ok gs) : gs.map (·.bytes) = bs := by
  induction bs generalizing gs with
  | nil => cases h; rfl
  | cons b bs ih =>
    simp only [generalStrings] at h
    cases hb : GeneralString.fromBytes b with
    | none => simp [hb] at h
    | some g =>
      simp only [hb] at h
      cases hr : generalStrings bs with
      | error e => simp [hr, Except.map] at h
      | ok gs' =>
        simp only [hr, Except.map, Except.ok.injEq] at h
        subst h
        simp [bytes_of_fromBytes hb, ih hr]

/-- The name a key of `unparse_name` reads back as. -/
def PrincipalName.inferred (name : PrincipalName) : PrincipalName :=
  { name with nameType := inferNameType name.components }

theorem parseName_unparseName (name : PrincipalName) (realm : Str) (h : name.nameString ≠ []) :
    parseName (unparseName name realm) = .ok (name.inferred, realm) := by
  obtain ⟨c, cs, hcs⟩ : ∃ c cs, name.components = c :: cs :=
    List.exists_cons_of_ne_nil (by simpa [PrincipalName.components] using h)
  have hzero : (0 : UInt8) ∉ unparseName name realm := by
    simp only [unparseName, List.mem_append, List.mem_cons, not_or]
    exact ⟨zero_notMem_unparseComponents _, by decide, zero_notMem_appendComponent _⟩
  obtain ⟨s', hp, hs', hr, hrl⟩ := parseLoop_unparseComponents
    (64 :: appendComponent realm.bytes) c cs .init rfl rfl
  have hloop : parseLoop .init (unparseName name realm) =
      .ok { s' with inRealm := true, realm := realm.bytes } := by
    unfold unparseName
    rw [hcs, hp, parseLoop_at _ hr]
    have := parseLoop_appendComponent realm.bytes { s' with inRealm := true } []
    rw [foldl_push_realm _ _ rfl, List.append_nil] at this
    simpa [parseLoop, hrl, init] using this
  have hcomp : (components { s' with inRealm := true, realm := realm.bytes }) =
      name.components := by
    rw [hcs]; exact hs'
  have hgs : generalStrings name.components = .ok name.nameString := generalStrings_map_bytes _
  unfold parseName parseNameInner
  rw [if_neg hzero, hloop]
  simp only [bind, Except.bind, if_true, Utf8.ofUtf8_bytes, hcomp, hgs]
  rfl

theorem inferred_of_generalStrings {ns : List GeneralString} (h : generalStrings s.components = .ok ns) :
    PrincipalName.inferred ⟨inferNameType s.components, ns⟩ = ⟨inferNameType s.components, ns⟩ ∧ ns ≠ [] := by
  have hcomp : PrincipalName.components ⟨inferNameType s.components, ns⟩ = s.components :=
    components_of_generalStrings h
  refine ⟨by rw [PrincipalName.inferred, hcomp], ?_⟩
  rintro rfl
  simp [PrincipalName.components, components] at hcomp

theorem inferred_of_parseNameInner {key : Bytes} {defaultRealm : Option Bytes} {name : PrincipalName} {realm : Str}
    (h : parseNameInner key defaultRealm = .ok (name, realm)) : name.inferred = name ∧ name.nameString ≠ [] := by
  unfold parseNameInner at h
  split at h
  · cases h
  obtain ⟨s, -, h⟩ := Wire.bind_eq_ok.mp h
  have hlast : ∀ {realm' : Str}, (do
      let nameString ← generalStrings s.components
      .ok ((⟨inferNameType s.components, nameString⟩ : PrincipalName), realm')) =
        (.ok (name, realm) : Except StoreError _) → name.inferred = name ∧ name.nameString ≠ [] := by
    intro realm' h
    obtain ⟨ns, hns, h⟩ := Wire.bind_eq_ok.mp h
    obtain ⟨rfl, -⟩ := Prod.mk.inj (Except.ok.inj h)
    exact inferred_of_generalStrings hns
  dsimp only [bind, Except.bind] at h
  split at h
  · split at h
    · cases h
    · exact hlast h
  · split at h
    · cases h
    · split at h
      · cases h
      · exact hlast h

/-- Keys of the database read back as what they name, so they name one principal each, and what a
string names has a key. -/
theorem unparseName_is_key : (∀ (name : PrincipalName) (realm : Str), name.nameString ≠ [] →
      parseName (unparseName name realm) = .ok (name.inferred, realm)) ∧
    (∀ (name name' : PrincipalName) (realm realm' : Str), name.nameString ≠ [] → name'.nameString ≠ [] →
      unparseName name realm = unparseName name' realm' → name.nameString = name'.nameString ∧ realm = realm') ∧
    ∀ (key : Bytes) (defaultRealm : Option Bytes) (name : PrincipalName) (realm : Str),
      parseNameInner key defaultRealm = .ok (name, realm) →
      parseName (unparseName name realm) = .ok (name, realm) := by
  refine ⟨parseName_unparseName, ?_, ?_⟩
  · intro name name' realm realm' hne hne' heq
    have hread := parseName_unparseName name realm hne
    rw [heq, parseName_unparseName name' realm' hne'] at hread
    obtain ⟨hname, hrealm⟩ := Prod.mk.inj (Except.ok.inj hread)
    exact ⟨(congrArg PrincipalName.nameString hname).symm, hrealm.symm⟩
  · intro key defaultRealm name realm h
    obtain ⟨hinferred, hne⟩ := inferred_of_parseNameInner h
    rw [parseName_unparseName name realm hne, hinferred]

end

section
attribute [local instance] Alphabet.ascii

/-- The name with the components `/@`, none and a NUL, in the realm of a backslash. -/
theorem unparseName_is_key_quoted : parseName (unparseName ⟨1, [⟨[47, 64], rfl⟩, ⟨[], rfl⟩, ⟨[0], rfl⟩]⟩ ⟨[92], rfl⟩) =
      .ok (⟨1, [⟨[47, 64], rfl⟩, ⟨[], rfl⟩, ⟨[0], rfl⟩]⟩, ⟨[92], rfl⟩) :=
  unparseName_is_key.1 ⟨1, [⟨[47, 64], rfl⟩, ⟨[], rfl⟩, ⟨[0], rfl⟩]⟩ ⟨[92], rfl⟩ (by simp)

end

end Krb5Rs
