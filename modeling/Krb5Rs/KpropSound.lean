import Krb5Rs.Kprop
import Krb5Rs.MitNameSound

/-!
# What a line of `kpropd.acl` admits

Lines name principals as `unparse_name` writes them, with separators in a
component quoted; the client is written without quotes, and where its realm
ends is not marked. The check admits the clients that a line names as long as
nothing in their names would be quoted, and besides them those that a line is
mistaken for: clients displayed as another principal is written, and clients
whose realm differs from the line's by blanks or by the name of an enctype.
-/

namespace Krb5Rs

open Wire (Bytes)
open Utf8 (Str)

/-! ## Words and blanks -/

def isNameByte (b : UInt8) : Bool := b = 45 || Scan.isDigit b || (97 ≤ b && b ≤ 122)

theorem isNameByte_enctypeNames : ∀ entry ∈ enctypeNames, ∀ name ∈ entry.2, ∀ b ∈ name.map toAsciiLowercase, isNameByte b := by
  decide +kernel

variable {b : UInt8}

theorem not_isNameByte (h : isAsciiWhitespace b = true) :
    isNameByte (toAsciiLowercase b) = false ∧ Scan.isDigit b = false := by
  simp only [isAsciiWhitespace, Bool.or_eq_true, decide_eq_true_eq, or_assoc] at h
  rcases h with rfl | rfl | rfl | rfl | rfl <;> decide

variable {e : Int32} {rest : Bytes}

theorem word_of_enctype {s : Bytes} (h : enctypeFromName s = some e) :
    ∀ b ∈ s, isAsciiWhitespace b = false := by
  intro b hb
  by_contra hblank
  obtain ⟨hname, hdigit⟩ := not_isNameByte (by simpa using hblank)
  unfold enctypeFromName at h
  split at h
  · rename_i entry hentry
    have hsome := List.find?_some hentry
    obtain ⟨name, hmem, heq⟩ := List.any_eq_true.mp hsome
    simp only [eqIgnoreAsciiCase, decide_eq_true_eq] at heq
    have hlower := isNameByte_enctypeNames entry (List.mem_of_find?_eq_some hentry) name hmem (toAsciiLowercase b) (by
      rw [heq]
      exact List.mem_map_of_mem hb)
    rw [hname] at hlower
    cases hlower
  · split at h
    · rename_i hdigits
      have := List.all_eq_true.mp hdigits.2 b hb
      rw [hdigit] at this
      cases this
    · cases h

theorem enctypeFromName_nil : enctypeFromName [] = none := by decide +kernel

theorem lineAuthorizes_iff {principal line : Bytes} :
    lineAuthorizes principal e line = true ↔ ∃ rest, line = principal ++ rest ∧
      (∀ b, rest.head? = some b → isAsciiWhitespace b = true) ∧
      (rest.dropWhile isAsciiWhitespace = [] ∨ enctypeFromName (rest.dropWhile isAsciiWhitespace) = some e) := by
  unfold lineAuthorizes
  cases hdrop : line.dropPrefix? principal with
  | none =>
    simp only [Bool.false_eq_true, false_iff]
    rintro ⟨rest, rfl, -⟩
    have hsome : (principal ++ rest).dropPrefix? principal = some rest :=
      List.dropPrefix?_eq_some_iff.mpr ⟨principal, rfl, beq_self_eq_true _⟩
    rw [hdrop] at hsome
    cases hsome
  | some rest =>
    obtain ⟨p', hline, hp'⟩ := List.dropPrefix?_eq_some_iff.mp hdrop
    obtain rfl := eq_of_beq hp'
    have hunique : ∀ rest', line = p' ++ rest' ↔ rest' = rest := by
      intro rest'
      rw [hline]
      exact ⟨fun h => (List.append_cancel_left h).symm, fun h => by rw [h]⟩
    simp only [hunique, exists_eq_left]
    cases rest with
    | nil => simp
    | cons b rest => cases hb : isAsciiWhitespace b <;> simp [hb]

/-! ## Lines -/

section
variable [Alphabet]

/-- A line that names a principal, and an enctype after some blanks. The file is read as a string, so the name is one. -/
structure AclLine where
  name : PrincipalName
  realm : Str
  enctype : Option (Bytes × Bytes)
  utf8 : ∀ c ∈ name.components, Utf8.valid c = true
  formed : ∀ blanks word, enctype = some (blanks, word) →
    blanks ≠ [] ∧ (∀ b ∈ blanks, isAsciiWhitespace b = true ∧ b ≠ 10) ∧ (enctypeFromName word).isSome

namespace AclLine

def principal (l : AclLine) : Bytes := unparseName l.name l.realm

def tail (l : AclLine) : Bytes :=
  match l.enctype with
  | none => []
  | some (blanks, word) => blanks ++ word

def text (l : AclLine) : Bytes := l.principal ++ l.tail

/-- The line has no enctype or names this one. -/
def Allows (l : AclLine) (etype : Int32) : Prop :=
  ∀ blanks word, l.enctype = some (blanks, word) → enctypeFromName word = some etype

def Admits (l : AclLine) (c : Authenticated) : Prop :=
  (∃ name, parseName l.principal = .ok (name, c.crealm) ∧ name.nameString = c.client.nameString) ∧ l.Allows c.etype

end AclLine

def aclText (lines : List (Option AclLine)) : Bytes :=
  List.intercalate [10] (lines.map fun l => (l.map AclLine.text).getD [])

namespace Authenticated

/-- A line of the file can name the client: it has a component, and its components are strings. -/
def Listable (c : Authenticated) : Prop :=
  c.client.nameString ≠ [] ∧ ∀ comp ∈ c.client.components, Utf8.valid comp = true

def Plain (c : Authenticated) : Prop :=
  ∀ part ∈ c.crealm.bytes :: c.client.components, ∀ b ∈ part, quoteByte b = [b]

end Authenticated

/-- The line is taken for the client's, though it names another principal. -/
inductive AclLine.Mistaken (l : AclLine) (c : Authenticated) : Prop
  /-- The client is displayed as the other principal is written. -/
  | display (hprincipal : l.principal = c.principal.bytes) (hodd : ¬ (c.Listable ∧ c.Plain)) (hallows : l.Allows c.etype)
  /-- The realm in the line goes on with blanks. -/
  | blanks (more : Bytes) (hne : more ≠ []) (hblank : ∀ b ∈ more, isAsciiWhitespace b = true)
    (hprincipal : l.principal = c.principal.bytes ++ more) (hallows : l.Allows c.etype)
  /-- The realm in the line goes on with blanks and the name of the enctype. -/
  | enctype (more word : Bytes) (hne : more ≠ []) (hblank : ∀ b ∈ more, isAsciiWhitespace b = true)
    (hprincipal : l.principal = c.principal.bytes ++ (more ++ word)) (hword : enctypeFromName word = some c.etype)
    (hnone : l.enctype = none)
  /-- The client's realm goes on with some of the blanks behind the principal. -/
  | clientBlanks (taken left word : Bytes) (hne : taken ≠ []) (hleft : left ≠ [])
    (hprincipal : c.principal.bytes = l.principal ++ taken) (henc : l.enctype = some (taken ++ left, word))
    (hword : enctypeFromName word = some c.etype)
  /-- The client's realm goes on with blanks and the enctype of the line, which is then not compared. -/
  | clientEnctype (htext : c.principal.bytes = l.text) (hsome : l.enctype.isSome)

/-! ## Matches -/

variable {l : AclLine} {c : Authenticated} {name : PrincipalName}

theorem head_tail_blank (h : l.tail.head? = some b) : isAsciiWhitespace b = true := by
  unfold AclLine.tail at h
  split at h
  · cases h
  rename_i blanks word henc
  obtain ⟨hne, hblank, -⟩ := l.formed blanks word henc
  cases blanks with
  | nil => exact absurd rfl hne
  | cons a blanks =>
    cases h
    exact (hblank _ (List.mem_cons_self ..)).1

omit [Alphabet] in
theorem dropWhile_blanks {blanks word : Bytes} (hblank : ∀ b ∈ blanks, isAsciiWhitespace b = true)
    (hword : enctypeFromName word = some e) : (blanks ++ word).dropWhile isAsciiWhitespace = word := by
  rw [List.dropWhile_append_of_pos hblank]
  cases word with
  | nil => rfl
  | cons b word => exact List.dropWhile_cons_of_neg (by simp [word_of_enctype hword b (List.mem_cons_self ..)])

/-- What is left of the line, its blanks dropped, is nothing or the enctype. -/
def Trimmed (rest : Bytes) (etype : Int32) : Prop :=
  rest.dropWhile isAsciiWhitespace = [] ∨ enctypeFromName (rest.dropWhile isAsciiWhitespace) = some etype

theorem trimmed_tail (l : AclLine) (more : Bytes) (hmore : ∀ b ∈ more, isAsciiWhitespace b = true) :
    Trimmed (more ++ l.tail) e ↔ l.Allows e := by
  unfold Trimmed AclLine.Allows
  rw [List.dropWhile_append_of_pos hmore]
  unfold AclLine.tail
  split
  · rename_i henc
    simp [henc]
  · rename_i blanks word henc
    obtain ⟨-, hblank, hword⟩ := l.formed blanks word henc
    obtain ⟨e', he'⟩ := Option.isSome_iff_exists.mp hword
    have hne : word ≠ [] := by
      rintro rfl
      rw [enctypeFromName_nil] at he'
      cases he'
    rw [dropWhile_blanks (fun b hb => (hblank b hb).1) he', henc]
    simp [hne]

theorem tail_of_enctype {blanks word : Bytes} (h : l.enctype = some (blanks, word)) : l.tail = blanks ++ word := by
  rw [AclLine.tail, h]

/-- The client's display reaches into what follows the principal in the line. -/
theorem mistaken_of_client {taken : Bytes} (hne : taken ≠ []) (hprincipal : c.principal.bytes = l.principal ++ taken)
    (htail : l.tail = taken ++ rest) (hhead : ∀ b, rest.head? = some b → isAsciiWhitespace b = true)
    (htrim : Trimmed rest c.etype) : l.Mistaken c := by
  cases henc : l.enctype with
  | none =>
    rw [AclLine.tail, henc] at htail
    exact absurd (List.append_eq_nil_iff.mp htail.symm).1 hne
  | some part =>
    obtain ⟨blanks, word⟩ := part
    obtain ⟨-, hblank, hsome⟩ := l.formed blanks word henc
    obtain ⟨e', he'⟩ := Option.isSome_iff_exists.mp hsome
    have hword := word_of_enctype he'
    cases rest with
    | nil =>
      refine .clientEnctype ?_ (by simp [henc])
      rw [hprincipal, AclLine.text, htail, List.append_nil]
    | cons b rest =>
      have hb := hhead b rfl
      -- the rest begins with a blank, so it begins among the line's blanks
      have hin : b ∉ word := fun hmem => by
        rw [hword b hmem] at hb
        cases hb
      rcases List.append_eq_append_iff.mp ((tail_of_enctype henc).symm.trans htail) with ⟨w, -, hw⟩ | ⟨left, hleft, hrest⟩
      · refine absurd ?_ hin
        rw [hw]
        exact List.mem_append_right _ (List.mem_cons_self ..)
      · have hne' : left ≠ [] := by
          rintro rfl
          obtain rfl : b :: rest = word := hrest
          exact hin (List.mem_cons_self ..)
        have hall : ∀ b ∈ left, isAsciiWhitespace b = true := fun b hmem =>
          (hblank b (hleft ▸ List.mem_append_right _ hmem)).1
        rw [hrest, Trimmed, dropWhile_blanks hall he'] at htrim
        refine .clientBlanks taken left word hne hne' hprincipal (hleft ▸ henc) (htrim.resolve_left ?_)
        rintro rfl
        rw [enctypeFromName_nil] at he'
        cases he'

/-- The principal in the line goes on where the client's display ends. -/
theorem mistaken_of_line {more : Bytes} (hne : more ≠ []) (hprincipal : l.principal = c.principal.bytes ++ more)
    (hhead : ∀ b, (more ++ l.tail).head? = some b → isAsciiWhitespace b = true)
    (htrim : Trimmed (more ++ l.tail) c.etype) : l.Mistaken c := by
  by_cases hall : ∀ b ∈ more, isAsciiWhitespace b = true
  · exact .blanks more hne hall hprincipal ((trimmed_tail l more hall).mp htrim)
  have hsplit := List.takeWhile_append_dropWhile (p := isAsciiWhitespace) (l := more)
  have hblanks : ∀ b ∈ more.takeWhile isAsciiWhitespace, isAsciiWhitespace b = true := fun b hb =>
    List.mem_takeWhile_imp hb
  generalize more.takeWhile isAsciiWhitespace = blanks at hsplit hblanks
  have hword : more.dropWhile isAsciiWhitespace ≠ [] := fun hnil =>
    hall (List.dropWhile_eq_nil_iff.mp hnil)
  have hdrop : (more ++ l.tail).dropWhile isAsciiWhitespace = more.dropWhile isAsciiWhitespace ++ l.tail := by
    rw [List.dropWhile_append]
    simp [hword]
  rw [Trimmed, hdrop] at htrim
  generalize more.dropWhile isAsciiWhitespace = word at *
  have hetype := htrim.resolve_left (by simp [hword])
  have htail : l.tail = [] := by
    cases htail : l.tail with
    | nil => rfl
    | cons b tail =>
      have hb := word_of_enctype hetype b (by simp [htail])
      rw [head_tail_blank (by rw [htail]; rfl)] at hb
      cases hb
  have hnone : l.enctype = none := by
    cases henc : l.enctype with
    | none => rfl
    | some part =>
      rw [tail_of_enctype henc] at htail
      exact absurd (List.append_eq_nil_iff.mp htail).1 (l.formed _ _ henc).1
  rw [htail, List.append_nil] at hetype hhead
  refine .enctype blanks word ?_ hblanks (hsplit ▸ hprincipal) hetype hnone
  rintro rfl
  obtain ⟨b, word', rfl⟩ := List.exists_cons_of_ne_nil hword
  have hb := word_of_enctype hetype b (List.mem_cons_self ..)
  rw [hhead b (by rw [← hsplit]; rfl)] at hb
  cases hb

/-! ## The whole file -/

omit [Alphabet] in
theorem newline_notMem_appendComponent (c : Bytes) : (10 : UInt8) ∉ appendComponent c := by
  intro h
  obtain ⟨b, -, hb⟩ := List.mem_flatMap.mp h
  by_cases h10 : b = 10
  · subst h10
    revert hb
    decide
  · unfold quoteByte at hb
    repeat' split at hb
    all_goals simp [Ne.symm h10] at hb

omit [Alphabet] in
theorem newline_notMem_unparseComponents (cs : List Bytes) : (10 : UInt8) ∉ unparseComponents cs := by
  induction cs with
  | nil => exact List.not_mem_nil
  | cons c cs ih =>
    cases cs with
    | nil => exact newline_notMem_appendComponent c
    | cons d cs =>
      simp only [unparseComponents, List.mem_append, List.mem_cons, not_or]
      exact ⟨newline_notMem_appendComponent c, by decide, ih⟩

theorem newline_notMem_text (l : AclLine) : (10 : UInt8) ∉ l.text := by
  simp only [AclLine.text, AclLine.principal, unparseName, List.mem_append, List.mem_cons, not_or]
  refine ⟨⟨newline_notMem_unparseComponents _, by decide, newline_notMem_appendComponent _⟩, ?_⟩
  unfold AclLine.tail
  split
  · exact List.not_mem_nil
  rename_i blanks word henc
  obtain ⟨-, hblank, hword⟩ := l.formed blanks word henc
  obtain ⟨e, he⟩ := Option.isSome_iff_exists.mp hword
  rw [List.mem_append, not_or]
  refine ⟨fun h => (hblank _ h).2 rfl, fun h => ?_⟩
  cases word_of_enctype he _ h

theorem lineAuthorizes_nil (c : Authenticated) (e : Int32) : lineAuthorizes c.principal.bytes e [] = false := by
  rw [← Bool.not_eq_true, lineAuthorizes_iff]
  rintro ⟨rest, h, -⟩
  simp [Authenticated.principal] at h

theorem authorizedPrincipal_iff {lines : List (Option AclLine)} {acl : Str} (hacl : acl.bytes = aclText lines)
    (c : Authenticated) : authorizedPrincipal acl c.principal c.etype = true ↔
      ∃ l, some l ∈ lines ∧ lineAuthorizes c.principal.bytes c.etype l.text = true := by
  unfold authorizedPrincipal
  rw [hacl]
  cases hempty : lines with
  | nil => simp [aclText, lineAuthorizes_nil]
  | cons first rest =>
    rw [← hempty, aclText, List.splitOn_intercalate]
    · rw [List.any_map, List.any_eq_true]
      constructor
      · rintro ⟨line, hmem, hline⟩
        cases line with
        | none =>
          change lineAuthorizes c.principal.bytes c.etype [] = true at hline
          rw [lineAuthorizes_nil] at hline
          cases hline
        | some l => exact ⟨l, hmem, hline⟩
      · rintro ⟨l, hmem, hl⟩
        exact ⟨some l, hmem, hl⟩
    · intro text htext
      obtain ⟨line, -, rfl⟩ := List.mem_map.mp htext
      cases line with
      | none => exact List.not_mem_nil
      | some l => exact newline_notMem_text l
    · rw [hempty]
      simp

/-! ## Clients -/

omit [Alphabet] in
theorem unparseComponents_eq (cs : List Bytes) : unparseComponents cs = List.intercalate [47] (cs.map appendComponent) := by
  induction cs with
  | nil => rfl
  | cons c cs ih =>
    cases cs with
    | nil => simp [unparseComponents]
    | cons d cs =>
      rw [List.map_cons, List.map_cons, List.intercalate_cons_cons, ← List.map_cons, ← ih]
      simp [unparseComponents]

omit [Alphabet] in
theorem quoteByte_high (h : 0x80 ≤ b) : quoteByte b = [b] := by
  have hne : ∀ k : UInt8, k.toNat < 0x80 → b ≠ k := by
    rintro k hk rfl
    exact absurd h (Nat.not_le.mpr hk)
  simp [quoteByte, hne]

omit [Alphabet] in
theorem quoteByte_low {a : UInt8} (h : a ≤ 0x7f) : ∀ b ∈ quoteByte a, b ≤ 0x7f := by
  unfold quoteByte
  repeat' split
  all_goals
    intro b hb
    simp only [List.mem_cons, List.not_mem_nil, or_false] at hb
    rcases hb with rfl | rfl
  all_goals first | exact h | decide

omit [Alphabet] in
theorem valid_appendComponent {c : Bytes} (h : Utf8.valid c = true) : Utf8.valid (appendComponent c) = true :=
  Utf8.valid_flatMap (fun _ => quoteByte_low) (fun _ => quoteByte_high) h

theorem valid_unparseName (realm : Str) (h : ∀ c ∈ name.components, Utf8.valid c = true) :
    Utf8.valid (unparseName name realm) = true := by
  have hcomps : Utf8.valid (unparseComponents name.components) = true := by
    rw [unparseComponents_eq]
    exact valid_intercalate (List.forall_mem_map.mpr fun c hc => valid_appendComponent (h c hc))
  rw [unparseName, Utf8.valid_append _ _ hcomps]
  exact (Utf8.valid_append [64] _ rfl).trans (valid_appendComponent realm.valid)

omit [Alphabet] in
theorem appendComponent_of_plain {c : Bytes} (h : ∀ b ∈ c, quoteByte b = [b]) : appendComponent c = c := by
  rw [appendComponent, List.flatMap_congr h, List.flatMap_singleton']

omit [Alphabet] in
theorem length_appendComponent (c : Bytes) : c.length ≤ (appendComponent c).length ∧
    ((appendComponent c).length = c.length → ∀ b ∈ c, quoteByte b = [b]) := by
  have hbyte : ∀ b, (quoteByte b).length = 1 ∧ quoteByte b = [b] ∨ (quoteByte b).length = 2 := by
    intro b
    unfold quoteByte
    repeat' split
    all_goals simp
  induction c with
  | nil => simp [appendComponent]
  | cons b c ih =>
    have hlen : (appendComponent (b :: c)).length = (quoteByte b).length + (appendComponent c).length := by
      simp [appendComponent]
    rw [hlen, List.length_cons]
    rcases hbyte b with ⟨hone, hb⟩ | htwo
    · refine ⟨by omega, fun h => List.forall_mem_cons.mpr ⟨hb, ih.2 (by omega)⟩⟩
    · exact ⟨by omega, fun h => by omega⟩

omit [Alphabet] in
theorem length_unparseComponents (cs : List Bytes) :
    (List.intercalate [47] cs).length ≤ (unparseComponents cs).length ∧
    ((unparseComponents cs).length = (List.intercalate [47] cs).length → ∀ c ∈ cs, ∀ b ∈ c, quoteByte b = [b]) := by
  induction cs with
  | nil => simp [unparseComponents]
  | cons c cs ih =>
    obtain ⟨hle, heq⟩ := length_appendComponent c
    cases cs with
    | nil =>
      simp only [unparseComponents, List.intercalate_singleton]
      exact ⟨hle, fun h => by simpa using heq h⟩
    | cons d cs =>
      have hlen : (unparseComponents (c :: d :: cs)).length =
          (appendComponent c).length + ((unparseComponents (d :: cs)).length + 1) := by
        simp [unparseComponents]
      rw [hlen, List.intercalate_cons_cons, List.length_append, List.length_append, List.length_singleton]
      refine ⟨by omega, fun h => List.forall_mem_cons.mpr ⟨heq (by omega), ih.2 (by omega)⟩⟩

theorem unparseName_eq_iff (h : c.Listable) : unparseName c.client c.crealm = c.principal.bytes ↔ c.Plain := by
  have htext : c.client.text.bytes = List.intercalate [47] c.client.components := by
    change List.intercalate [47] (c.client.components.map Utf8.lossy) = _
    rw [List.map_congr_left fun comp hcomp => Utf8.lossy_of_valid (h.2 comp hcomp), List.map_id']
  change unparseComponents _ ++ 64 :: appendComponent _ = c.client.text.bytes ++ 64 :: c.crealm.bytes ↔ _
  rw [htext]
  constructor
  · intro heq
    have hlen := congrArg List.length heq
    simp only [List.length_append, List.length_cons] at hlen
    obtain ⟨hle, hplain⟩ := length_unparseComponents c.client.components
    obtain ⟨hle', hplain'⟩ := length_appendComponent c.crealm.bytes
    exact List.forall_mem_cons.mpr ⟨hplain' (by omega), hplain (by omega)⟩
  · intro hplain
    obtain ⟨hrealm, hcomps⟩ := List.forall_mem_cons.mp hplain
    rw [unparseComponents_eq, List.map_congr_left fun comp hcomp => appendComponent_of_plain (hcomps comp hcomp),
      List.map_id', appendComponent_of_plain hrealm]

/-! ## Names read from lines -/

theorem parseName_of_nil {name' : PrincipalName} {realm realm' : Str} (hnil : name.nameString = [])
    (h : parseName (unparseName name realm) = .ok (name', realm')) : realm' = realm ∧ name'.components = [[]] := by
  have hkey : unparseName name realm = 64 :: appendComponent realm.bytes := by
    simp [unparseName, PrincipalName.components, hnil, unparseComponents]
  have hzero : (0 : UInt8) ∉ 64 :: appendComponent realm.bytes := by
    simp only [List.mem_cons, not_or]
    exact ⟨by decide, zero_notMem_appendComponent _⟩
  have hloop : parseLoop .init (64 :: appendComponent realm.bytes) = .ok ⟨[], [], realm.bytes, true⟩ := by
    rw [parseLoop_at _ rfl]
    have := parseLoop_appendComponent realm.bytes ⟨[], [], [], true⟩ []
    rw [foldl_push_realm _ _ rfl, List.append_nil] at this
    simpa [parseLoop, NameState.init] using this
  unfold parseName parseNameInner at h
  rw [hkey, if_neg hzero, hloop] at h
  simp only [bind, Except.bind, if_true, Utf8.ofUtf8_bytes] at h
  split at h
  · cases h
  · rename_i ns hns
    cases h
    exact ⟨rfl, components_of_generalStrings hns⟩

theorem parseName_principal {realm : Str} (h : parseName l.principal = .ok (name, realm)) :
    unparseName name realm = l.principal ∧ ∀ comp ∈ name.components, Utf8.valid comp = true := by
  by_cases hnil : l.name.nameString = []
  · obtain ⟨rfl, hcomps⟩ := parseName_of_nil hnil h
    refine ⟨?_, by simp [hcomps, Utf8.valid]⟩
    rw [AclLine.principal, unparseName, unparseName, hcomps]
    simp [PrincipalName.components, hnil, unparseComponents, appendComponent]
  · cases h.symm.trans (parseName_unparseName l.name l.realm hnil)
    exact ⟨rfl, l.utf8⟩

theorem AclLine.Admits.listable (h : l.Admits c) : c.Listable ∧ unparseName c.client c.crealm = l.principal := by
  obtain ⟨⟨name, hparse, hname⟩, -⟩ := h
  obtain ⟨hprincipal, hutf8⟩ := parseName_principal hparse
  have hcomps : name.components = c.client.components := by rw [PrincipalName.components, hname]; rfl
  refine ⟨⟨?_, by rwa [← hcomps]⟩, ?_⟩
  · rw [← hname]
    exact (inferred_of_parseNameInner hparse).2
  · rw [← hprincipal, unparseName, unparseName, hcomps]

theorem admits_of_principal (hne : c.client.nameString ≠ []) (hl : l.principal = unparseName c.client c.crealm)
    (hallows : l.Allows c.etype) : l.Admits c :=
  ⟨⟨c.client.inferred, by rw [hl, parseName_unparseName _ _ hne], rfl⟩, hallows⟩

/-! ## Who is admitted -/

theorem lineAuthorizes_text : lineAuthorizes c.principal.bytes c.etype l.text = true ↔
    l.Admits c ∧ c.Plain ∨ l.Mistaken c := by
  rw [lineAuthorizes_iff]
  have hwhole : l.principal = c.principal.bytes → l.Allows c.etype → l.Admits c ∧ c.Plain ∨ l.Mistaken c := by
    intro hprincipal hallows
    by_cases hodd : c.Listable ∧ c.Plain
    · have hunparse := (unparseName_eq_iff hodd.1).mpr hodd.2
      exact .inl ⟨admits_of_principal hodd.1.1 (hprincipal.trans hunparse.symm) hallows, hodd.2⟩
    · exact .inr (.display hprincipal hodd hallows)
  constructor
  · rintro ⟨rest, hline, hhead, htrim⟩
    rcases List.append_eq_append_iff.mp hline with ⟨taken, hclient, htail⟩ | ⟨more, hprincipal, rfl⟩
    · by_cases hne : taken = []
      · subst hne
        obtain rfl : l.tail = rest := htail
        exact hwhole (by simpa using hclient.symm) ((trimmed_tail l [] (by simp)).mp htrim)
      · exact .inr (mistaken_of_client hne hclient htail hhead htrim)
    · by_cases hne : more = []
      · subst hne
        exact hwhole (by simpa using hprincipal) ((trimmed_tail l [] (by simp)).mp htrim)
      · exact .inr (mistaken_of_line hne hprincipal hhead htrim)
  · have hexact : l.principal = c.principal.bytes → l.Allows c.etype → ∃ rest, l.text = c.principal.bytes ++ rest ∧
        (∀ b, rest.head? = some b → isAsciiWhitespace b = true) ∧ Trimmed rest c.etype := by
      intro hprincipal hallows
      exact ⟨l.tail, by rw [AclLine.text, hprincipal], fun b hb => head_tail_blank hb,
        (trimmed_tail l [] (by simp)).mpr hallows⟩
    have hstart : ∀ {more after : Bytes}, more ≠ [] → (∀ b ∈ more, isAsciiWhitespace b = true) →
        ∀ b, (more ++ after).head? = some b → isAsciiWhitespace b = true := by
      intro more after hne hblank b hb
      obtain ⟨a, more, rfl⟩ := List.exists_cons_of_ne_nil hne
      cases hb
      exact hblank _ (List.mem_cons_self ..)
    rintro (⟨hadmits, hplain⟩ | hmistaken)
    · obtain ⟨hlistable, hunparse⟩ := hadmits.listable
      exact hexact (hunparse.symm.trans ((unparseName_eq_iff hlistable).mpr hplain)) hadmits.2
    cases hmistaken with
    | display hprincipal _ hallows => exact hexact hprincipal hallows
    | blanks more hne hblank hprincipal hallows =>
      refine ⟨more ++ l.tail, ?_, hstart hne hblank, (trimmed_tail l more hblank).mpr hallows⟩
      rw [AclLine.text, hprincipal, List.append_assoc]
    | enctype more word hne hblank hprincipal hword hnone =>
      refine ⟨more ++ word, ?_, hstart hne hblank, .inr (by rw [dropWhile_blanks hblank hword, hword])⟩
      rw [AclLine.text, AclLine.tail, hnone, hprincipal, List.append_nil]
    | clientBlanks taken left word _ hleft hprincipal henc hword =>
      have hblank : ∀ b ∈ left, isAsciiWhitespace b = true := fun b hb =>
        ((l.formed _ _ henc).2.1 b (List.mem_append_right _ hb)).1
      refine ⟨left ++ word, ?_, hstart hleft hblank, .inr (by rw [dropWhile_blanks hblank hword, hword])⟩
      rw [AclLine.text, tail_of_enctype henc, hprincipal, List.append_assoc, List.append_assoc]
    | clientEnctype htext _ => exact ⟨[], by rw [htext, List.append_nil], by simp, .inl rfl⟩

/-- The check agrees with the lines of a file just when a client some line is mistaken for is admitted by a line, and
a client a line admits has nothing quoted in its name, unless a line is mistaken for it too. -/
theorem acl_enforced_iff {lines : List (Option AclLine)} {acl : Str} (hacl : acl.bytes = aclText lines)
    (c : Authenticated) :
    (authorizedPrincipal acl c.principal c.etype = true ↔ ∃ l, some l ∈ lines ∧ l.Admits c) ↔
      ((∃ l, some l ∈ lines ∧ l.Mistaken c) → ∃ l, some l ∈ lines ∧ l.Admits c) ∧
      ((∃ l, some l ∈ lines ∧ l.Admits c) → c.Plain ∨ ∃ l, some l ∈ lines ∧ l.Mistaken c) := by
  rw [authorizedPrincipal_iff hacl]
  simp only [lineAuthorizes_text]
  constructor
  · intro h
    refine ⟨fun ⟨l, hl, hmistaken⟩ => h.mp ⟨l, hl, .inr hmistaken⟩, fun hadmits => ?_⟩
    obtain ⟨l, hl, ⟨-, hplain⟩ | hmistaken⟩ := h.mpr hadmits
    · exact .inl hplain
    · exact .inr ⟨l, hl, hmistaken⟩
  · rintro ⟨hsound, hcomplete⟩
    constructor
    · rintro ⟨l, hl, ⟨hadmits, -⟩ | hmistaken⟩
      · exact ⟨l, hl, hadmits⟩
      · exact hsound ⟨l, hl, hmistaken⟩
    · rintro ⟨l, hl, hadmits⟩
      rcases hcomplete ⟨l, hl, hadmits⟩ with hplain | ⟨l', hl', hmistaken⟩
      · exact ⟨l, hl, .inl ⟨hadmits, hplain⟩⟩
      · exact ⟨l', hl', .inr hmistaken⟩

end

section
attribute [local instance] Alphabet.ascii

def hostName : PrincipalName := ⟨3, [⟨[105], rfl⟩, ⟨[106], rfl⟩]⟩

def slashName : PrincipalName := ⟨1, [⟨[105, 47, 106], rfl⟩]⟩

def hostClient : Authenticated := ⟨hostName, ⟨[73], rfl⟩, 18⟩

def slashClient : Authenticated := ⟨slashName, ⟨[73], rfl⟩, 18⟩

def hostLine : AclLine := ⟨hostName, ⟨[73], rfl⟩, none, by decide, by simp⟩

def slashLine : AclLine := ⟨slashName, ⟨[73], rfl⟩, none, by decide, by simp⟩

def spaceLine : AclLine := ⟨hostName, ⟨[73, 32], rfl⟩, none, by decide, by simp⟩

def enctypeLine : AclLine where
  name := hostName
  realm := ⟨[73], rfl⟩
  enctype := some ([32], ascii "aes256-cts")
  utf8 := by decide
  formed := by
    rintro blanks word henc
    cases henc
    decide +kernel

def enctypeClient : Authenticated := ⟨hostName, ⟨73 :: 32 :: ascii "aes256-cts", by decide⟩, 17⟩

/-- The line of `i/j` admits the client of one component, whose own line does not; a line whose realm ends in a space
admits the client of the realm without it; and a line with an enctype admits a client of another enctype, in the realm
that goes on with the name of the first. -/
theorem slash_taken_for_separator :
    (authorizedPrincipal ⟨aclText [some hostLine], by decide⟩ slashClient.principal 18 = true ∧
      ¬ hostLine.Admits slashClient) ∧
    (authorizedPrincipal ⟨aclText [some slashLine], by decide⟩ slashClient.principal 18 = false ∧
      slashLine.Admits slashClient) ∧
    (authorizedPrincipal ⟨aclText [some spaceLine], by decide⟩ hostClient.principal 18 = true ∧
      ¬ spaceLine.Admits hostClient) ∧
    authorizedPrincipal ⟨aclText [some enctypeLine], by decide +kernel⟩ enctypeClient.principal 17 = true ∧
      ¬ enctypeLine.Admits enctypeClient := by
  refine ⟨⟨by decide +kernel, ?_⟩, ⟨by decide +kernel, ?_⟩, ⟨by decide +kernel, ?_⟩, by decide +kernel, ?_⟩
  · intro h
    exact absurd h.listable.2 (by decide +kernel)
  · exact admits_of_principal (by decide) rfl (by simp [AclLine.Allows, slashLine])
  · intro h
    exact absurd h.listable.2 (by decide +kernel)
  · intro h
    exact absurd h.listable.2 (by decide +kernel)

/-- A client with nothing to quote, in the file of its own line. -/
theorem host_enforced : authorizedPrincipal ⟨aclText [some hostLine], by decide⟩ hostClient.principal 18 = true ↔
    ∃ l, some l ∈ [some hostLine] ∧ l.Admits hostClient := by
  have hadmits : hostLine.Admits hostClient := admits_of_principal (by decide) rfl (by simp [AclLine.Allows, hostLine])
  refine (acl_enforced_iff rfl hostClient).mpr ⟨fun _ => ⟨hostLine, by simp, hadmits⟩, fun _ => .inl ?_⟩
  intro part hpart
  revert part
  decide +kernel

end

end Krb5Rs
