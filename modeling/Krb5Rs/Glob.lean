import Krb5Rs.Scan
import Krb5Rs.StarMatch
import Krb5Rs.Store

/-!
# Patterns of principal names

`Glob` of `kdb/kadm5.rs`: the expression of a listing becomes a basic regular
expression, which is compiled to tokens and matched by falling back to the latest
star. A position in a byte string is what is left from it.
-/

namespace Krb5Rs

open Wire (Bytes)
open Utf8 (Str)

/-! ## Sets of bytes -/

inductive CharClass
  | alpha
  | digit
  | alnum
  | upper
  | lower
  | space
  | blank
  | punct
  | print
  | graph
  | cntrl
  | xdigit
deriving Repr, DecidableEq

namespace CharClass

def all : List CharClass := [alpha, digit, alnum, upper, lower, space, blank, punct, print, graph, cntrl, xdigit]

def name : CharClass → String
  | alpha => "alpha"
  | digit => "digit"
  | alnum => "alnum"
  | upper => "upper"
  | lower => "lower"
  | space => "space"
  | blank => "blank"
  | punct => "punct"
  | print => "print"
  | graph => "graph"
  | cntrl => "cntrl"
  | xdigit => "xdigit"

def isUpper (c : UInt8) : Bool := 65 ≤ c ∧ c ≤ 90
def isLower (c : UInt8) : Bool := 97 ≤ c ∧ c ≤ 122

def contains (c : UInt8) : CharClass → Bool
  | alpha => isUpper c || isLower c
  | digit => Scan.isDigit c
  | alnum => isUpper c || isLower c || Scan.isDigit c
  | upper => isUpper c
  | lower => isLower c
  | space => c = 32 ∨ 9 ≤ c ∧ c ≤ 13
  | blank => c = 32 ∨ c = 9
  | punct => (33 ≤ c ∧ c ≤ 47) ∨ (58 ≤ c ∧ c ≤ 64) ∨ (91 ≤ c ∧ c ≤ 96) ∨ (123 ≤ c ∧ c ≤ 126)
  | print => 32 ≤ c ∧ c ≤ 126
  | graph => 33 ≤ c ∧ c ≤ 126
  | cntrl => c ≤ 31 ∨ c = 127
  | xdigit => Scan.isDigit c || (65 ≤ c ∧ c ≤ 70) || (97 ≤ c ∧ c ≤ 102)

end CharClass

inductive SetItem
  | range (lo hi : UInt8)
  | cls (name : CharClass)
deriving Repr, DecidableEq

def SetItem.contains (c : UInt8) : SetItem → Bool
  | .range lo hi => lo ≤ c ∧ c ≤ hi
  | .cls name => name.contains c

def SetItem.ofClass (name : Bytes) : Option SetItem := (CharClass.all.find? fun c => ascii c.name = name).map .cls

inductive Tok
  | any
  | star
  | byte (b : UInt8)
  | set (negate : Bool) (items : List SetItem)
deriving Repr, DecidableEq

namespace Glob

/-! ## Brackets -/

inductive BracketAtom
  | byte (b : UInt8)
  | item (i : SetItem)
deriving Repr, DecidableEq

def untilDelim (delim : UInt8) : Bytes → Option (Bytes × Bytes)
  | a :: b :: rest =>
    if a = delim ∧ b = 93 then some ([], rest)
    else (untilDelim delim (b :: rest)).map fun r => (a :: r.1, r.2)
  | _ => none

def namedAtom (delim : UInt8) (name : Bytes) : Option BracketAtom :=
  if delim = 58 then (SetItem.ofClass name).map .item
  else
    match name with
    | [b] => some (if delim = 46 then .byte b else .item (.range b b))
    | _ => none

def bracketAtom : Bytes → Option (BracketAtom × Bytes)
  | [] => none
  | c :: rest =>
    match rest with
    | d :: rest' =>
      if c = 91 ∧ (d = 58 ∨ d = 46 ∨ d = 61) then do
        let r ← untilDelim d rest'
        let atom ← namedAtom d r.1
        some (atom, r.2)
      else some (.byte c, rest)
    | [] => some (.byte c, [])

def rangeDash (re : Bytes) : Bool :=
  match re with
  | d :: c :: _ => d = 45 ∧ c ≠ 93
  | _ => false

def BracketAtom.toItem : BracketAtom → SetItem
  | .byte b => .range b b
  | .item i => i

def bracketRange (atom : BracketAtom) (re : Bytes) : Option (SetItem × Bytes) :=
  match atom with
  | .item _ => none
  | .byte lo => do
    let r ← bracketAtom re.tail
    match r.1 with
    | .item _ => none
    | .byte hi => if hi < lo ∨ rangeDash r.2 then none else some (.range lo hi, r.2)

def bracketMember (re : Bytes) : Option (SetItem × Bytes) := do
  let r ← bracketAtom re
  if rangeDash r.2 then bracketRange r.1 r.2 else some (r.1.toItem, r.2)

variable {re : Bytes}

theorem untilDelim_lt {delim : UInt8} {r : Bytes × Bytes} (h : untilDelim delim re = some r) :
    r.2.length < re.length := by
  induction re generalizing r with
  | nil => cases h
  | cons a re ih =>
    cases re with
    | nil => cases h
    | cons b rest =>
      rw [untilDelim] at h
      split at h
      · cases h
        exact Nat.lt_succ_of_lt (Nat.lt_succ_self _)
      · obtain ⟨r', hr', rfl⟩ := Option.map_eq_some_iff.mp h
        have hlt := ih hr'
        exact Nat.lt_succ_of_lt hlt

theorem bracketAtom_lt {r : BracketAtom × Bytes} (h : bracketAtom re = some r) : r.2.length < re.length := by
  unfold bracketAtom at h
  split at h
  case h_1 => cases h
  case h_2 c rest =>
    split at h
    case h_1 d rest' =>
      split at h
      case isTrue =>
        obtain ⟨name, hname, h⟩ := Option.bind_eq_some_iff.mp h
        obtain ⟨atom, -, h⟩ := Option.bind_eq_some_iff.mp h
        cases h
        exact Nat.lt_succ_of_lt (Nat.lt_succ_of_lt (untilDelim_lt hname))
      case isFalse =>
        cases h
        exact Nat.lt_succ_self _
    case h_2 =>
      cases h
      exact Nat.lt_succ_self _

theorem bracketMember_lt {r : SetItem × Bytes} (h : bracketMember re = some r) : r.2.length < re.length := by
  obtain ⟨atom, hatom, h⟩ := Option.bind_eq_some_iff.mp h
  have hlt := bracketAtom_lt hatom
  split at h
  case isTrue =>
    unfold bracketRange at h
    split at h
    case h_1 => cases h
    case h_2 lo _ =>
      obtain ⟨high, hhigh, h⟩ := Option.bind_eq_some_iff.mp h
      have hlt' := bracketAtom_lt hhigh
      rw [List.length_tail] at hlt'
      split at h
      case h_1 => cases h
      case h_2 =>
        split at h
        case isTrue => cases h
        case isFalse =>
          cases h
          dsimp only
          omega
  case isFalse =>
    cases h
    exact hlt

/-- The members of a bracket up to its end, of which the first may be `]`. -/
def bracketItems (first : Bool) (re : Bytes) : Option (List SetItem × Bytes) :=
  if re.head? = some 93 ∧ first = false then some ([], re.tail)
  else
    match _h : bracketMember re with
    | none => none
    | some (item, next) => (bracketItems false next).map fun r => (item :: r.1, r.2)
termination_by re.length
decreasing_by exact bracketMember_lt ‹_›

def bracket (re : Bytes) : Option (Tok × Bytes) :=
  let negate : Bool := re.head? = some 94
  (bracketItems true (if negate then re.tail else re)).map fun r => (.set negate r.1, r.2)

theorem bracketItems_le {first : Bool} {r : List SetItem × Bytes} (h : bracketItems first re = some r) :
    r.2.length ≤ re.length := by
  fun_induction bracketItems first re generalizing r with
  | case1 first re hend =>
    cases h
    rw [List.length_tail]
    omega
  | case2 => cases h
  | case3 first re hmore item next hmember ih =>
    obtain ⟨r', hr', rfl⟩ := Option.map_eq_some_iff.mp h
    have hle := ih hr'
    exact Nat.le_trans hle (Nat.le_of_lt (bracketMember_lt hmember))

theorem bracket_le {r : Tok × Bytes} (h : bracket re = some r) : r.2.length ≤ re.length := by
  obtain ⟨items, hitems, rfl⟩ := Option.map_eq_some_iff.mp h
  refine Nat.le_trans (bracketItems_le hitems) ?_
  split
  · rw [List.length_tail]
    omega
  · exact Nat.le_refl _

/-! ## Expressions -/

/-- `glob_to_regexp`; `quoted` is behind a backslash. A final backslash was refused before. -/
def toRegexp (quoted : Bool) : Bytes → Bytes
  | [] => []
  | c :: rest =>
    if quoted then c :: toRegexp false rest
    else if c = 63 then 46 :: toRegexp false rest
    else if c = 42 then 46 :: 42 :: toRegexp false rest
    else if c = 46 ∨ c = 94 ∨ c = 36 then 92 :: c :: toRegexp false rest
    else if c = 92 then 92 :: toRegexp true rest
    else c :: toRegexp false rest

def compile (re : Bytes) : Option (List Tok) :=
  match re with
  | [] => some []
  | c :: rest =>
    if c = 92 then
      match rest with
      | [] => none
      | d :: rest => (compile rest).map (.byte d :: ·)
    else if c = 46 then
      if rest.head? = some 42 then (compile rest.tail).map (.star :: ·) else (compile rest).map (.any :: ·)
    else if c = 91 then
      match _h : bracket rest with
      | none => none
      | some (tok, next) => (compile next).map (tok :: ·)
    else (compile rest).map (.byte c :: ·)
termination_by re.length
decreasing_by
  · exact Nat.lt_succ_of_lt (Nat.lt_succ_self _)
  · exact Nat.lt_succ_of_le (by rw [List.length_tail]; omega)
  · exact Nat.lt_succ_self _
  · exact Nat.lt_succ_of_le (bracket_le ‹_›)
  · exact Nat.lt_succ_self _

end Glob

structure Glob where
  toks : List Tok
deriving Repr, DecidableEq

namespace Glob

def expression (exp : Option Str) : Bytes := (exp.map (·.bytes)).getD [42]

def new (exp : Option Str) (realmDefault : Bool) : Option Glob :=
  let glob := expression exp
  if glob.getLast? = some 92 then none
  else
    let re := toRegexp false glob ++ if realmDefault ∧ 64 ∉ glob then [64, 46, 42] else []
    (compile re).map .mk

def one (t : Tok) (c : UInt8) : Bool :=
  match t with
  | .any => true
  | .byte b => b = c
  | .set negate items => items.any (·.contains c) ≠ negate
  | .star => false

def isStar (t : Tok) : Bool := t = .star

def matchesName (g : Glob) (name : Bytes) : Bool := StarMatch.search isStar one g.toks name

/-! ## What matches -/

def Stands (t : Tok) (piece : Bytes) : Prop :=
  match t with
  | .star => True
  | .any => ∃ c, piece = [c]
  | .byte b => piece = [b]
  | .set false items => ∃ c, piece = [c] ∧ ∃ i ∈ items, i.contains c = true
  | .set true items => ∃ c, piece = [c] ∧ ∀ i ∈ items, i.contains c = false

theorem stands_iff (t : Tok) (piece : Bytes) : StarMatch.Stands isStar one t piece ↔ Stands t piece := by
  cases t with
  | star => exact iff_of_true (.inl rfl) trivial
  | any => simp [StarMatch.Stands, isStar, one, Stands]
  | byte b => simp [StarMatch.Stands, isStar, one, Stands]
  | set negate items => cases negate <;> simp [StarMatch.Stands, isStar, one, Stands]

def plainTok (b : UInt8) : Tok := if b = 42 then .star else if b = 63 then .any else .byte b

theorem toRegexp_head (glob tail : Bytes) (htail : tail.head? ≠ some 42) :
    (toRegexp false glob ++ tail).head? ≠ some 42 := by
  cases glob with
  | nil => exact htail
  | cons c rest =>
    rw [toRegexp, if_neg Bool.false_ne_true]
    split_ifs with h1 h2 h3 h4
    · simp
    · simp
    · simp
    · simp
    · simpa using h2

theorem compile_star (re : Bytes) : compile (46 :: 42 :: re) = (compile re).map (.star :: ·) := by
  rw [compile.eq_def]
  rfl

theorem compile_any {re : Bytes} (h : re.head? ≠ some 42) : compile (46 :: re) = (compile re).map (.any :: ·) := by
  rw [compile.eq_def]
  exact if_neg h

theorem compile_quoted (c : UInt8) (re : Bytes) : compile (92 :: c :: re) = (compile re).map (.byte c :: ·) := by
  rw [compile.eq_def]
  rfl

theorem compile_byte {c : UInt8} (h92 : c ≠ 92) (h46 : c ≠ 46) (h91 : c ≠ 91) (re : Bytes) :
    compile (c :: re) = (compile re).map (.byte c :: ·) := by
  rw [compile.eq_def]
  dsimp only
  rw [if_neg h92, if_neg h46, if_neg h91]

theorem compile_toRegexp {glob tail : Bytes} (hbracket : 91 ∉ glob) (hquote : 92 ∉ glob) (htail : tail.head? ≠ some 42) :
    compile (toRegexp false glob ++ tail) = (compile tail).map (glob.map plainTok ++ ·) := by
  induction glob with
  | nil => simp [toRegexp]
  | cons c rest ih =>
    have hb : c ≠ 91 := fun h => hbracket (h ▸ List.mem_cons_self ..)
    have hq : c ≠ 92 := fun h => hquote (h ▸ List.mem_cons_self ..)
    have hrest := ih (fun h => hbracket (List.mem_cons_of_mem _ h)) (fun h => hquote (List.mem_cons_of_mem _ h))
    have hcons (t : Tok) : (compile (toRegexp false rest ++ tail)).map (t :: ·) =
        (compile tail).map (t :: rest.map plainTok ++ ·) := by
      rw [hrest, Option.map_map]
      rfl
    rw [toRegexp, if_neg Bool.false_ne_true, List.map_cons, plainTok]
    by_cases h63 : c = 63
    · rw [if_pos h63, if_neg (by rw [h63]; decide), if_pos h63, List.cons_append,
        compile_any (toRegexp_head rest tail htail), hcons]
    rw [if_neg h63, if_neg h63]
    by_cases h42 : c = 42
    · rw [if_pos h42, if_pos h42, List.cons_append, List.cons_append, compile_star, hcons]
    rw [if_neg h42, if_neg h42]
    by_cases hspecial : c = 46 ∨ c = 94 ∨ c = 36
    · rw [if_pos hspecial, List.cons_append, List.cons_append, compile_quoted, hcons]
    · rw [if_neg hspecial, if_neg hq, List.cons_append, compile_byte hq (fun h => hspecial (.inl h)) hb, hcons]

theorem matchesName_iff (g : Glob) (name : Bytes) :
    g.matchesName name = true ↔ ∃ pieces : List Bytes, name = pieces.flatten ∧ List.Forall₂ Stands g.toks pieces := by
  have hstands : StarMatch.Stands isStar one = Stands := by
    funext t piece
    exact propext (stands_iff t piece)
  rw [matchesName, StarMatch.search_iff, StarMatch.Matches, hstands]

/-- The realm any name may have when the pattern names none. -/
def realmTail (glob : Bytes) (realmDefault : Bool) : List Tok :=
  if realmDefault ∧ 64 ∉ glob then [.byte 64, .star] else []

theorem new_plain {exp : Option Str} (realmDefault : Bool) (hbracket : 91 ∉ expression exp)
    (hquote : 92 ∉ expression exp) :
    new exp realmDefault = some ⟨(expression exp).map plainTok ++ realmTail (expression exp) realmDefault⟩ := by
  unfold new realmTail
  dsimp only
  rw [if_neg fun h => hquote (List.mem_of_getLast? h)]
  split
  case isTrue h =>
    have htail : compile [64, 46, 42] = some [.byte 64, .star] := by
      rw [compile_byte (by decide) (by decide) (by decide), compile_star, compile]
      rfl
    rw [compile_toRegexp hbracket hquote (by decide), htail]
    rfl
  case isFalse h =>
    rw [compile_toRegexp hbracket hquote (by decide), compile]
    rfl

/-- A compiled expression matches the names that can be split as its tokens say, and an expression without brackets
and backslashes is compiled byte by byte. -/
theorem glob_semantics (g : Glob) (name : Bytes) (exp : Option Str) (realmDefault : Bool) :
    (g.matchesName name = true ↔
      ∃ pieces : List Bytes, name = pieces.flatten ∧ List.Forall₂ Stands g.toks pieces) ∧
    (91 ∉ expression exp → 92 ∉ expression exp →
      new exp realmDefault = some ⟨(expression exp).map plainTok ++ realmTail (expression exp) realmDefault⟩) :=
  ⟨g.matchesName_iff name, new_plain realmDefault⟩

def anyHost : Str := ⟨[104, 42, 63], rfl⟩

/-- `h*?` without a realm. -/
theorem glob_semantics_host : 91 ∉ expression (some anyHost) ∧ 92 ∉ expression (some anyHost) ∧
      new (some anyHost) true = some ⟨[.byte 104, .star, .any, .byte 64, .star]⟩ :=
  ⟨by decide, by decide, (glob_semantics ⟨[]⟩ [] (some anyHost) true).2 (by decide) (by decide)⟩

end Glob

end Krb5Rs
