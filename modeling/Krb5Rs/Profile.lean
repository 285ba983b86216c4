import Mathlib.Data.List.Basic

/-!
# Profiles

`profile/parse.rs`: the grammar of krb5.conf and the tree it builds. The parser
keeps its current section as a path; how the path names a section is left to a
cursor, which for the source is a list of child indices.
-/

namespace Krb5Rs

namespace Profile

abbrev Text := List Char

/-- A section has no value. -/
structure Node where
  name : Text
  value : Option Text
  isFinal : Bool
  children : List Node

def Node.new (name : Text) (value : Option Text) : Node := ⟨name, value, false, []⟩

def Node.isSection (n : Node) : Bool := n.value.isNone

/-- The order of the bytes of two names, which is that of their characters. -/
def cmp : Text → Text → Ordering
  | [], [] => .eq
  | [], _ :: _ => .lt
  | _ :: _, [] => .gt
  | a :: as, b :: bs => if a < b then .lt else if b < a then .gt else cmp as bs

/-! ## Adding a node -/

inductive Spot
  | merge (i : Nat)
  | suppressed
  | insert (i : Nat)

def findSpot (name : Text) (value : Option Text) (checkFinal : Bool) : List Node → Nat → Spot
  | [], i => .insert i
  | p :: ps, i =>
    match cmp p.name name with
    | .gt => .insert i
    | .eq =>
      if value.isNone ∧ p.isSection then .merge i
      else if checkFinal ∧ p.isFinal then .suppressed
      else findSpot name value checkFinal ps (i + 1)
    | .lt => findSpot name value checkFinal ps (i + 1)

def addNode (sec : Node) (name : Text) (value : Option Text) (checkFinal : Bool) : Node × Option Nat :=
  match findSpot name value checkFinal sec.children 0 with
  | .merge i => (sec, some i)
  | .suppressed => (sec, none)
  | .insert i => ({ sec with children := sec.children.insertIdx i (Node.new name value) }, some i)

/-! ## Lines -/

def isBlank (c : Char) : Bool := c = ' ' ∨ c = '\t'

def isWhitespace (c : Char) : Bool :=
  let n := c.toNat
  (9 ≤ n ∧ n ≤ 13) ∨ n = 0x20 ∨ n = 0x85 ∨ n = 0xa0 ∨ n = 0x1680 ∨ (0x2000 ≤ n ∧ n ≤ 0x200a) ∨ n = 0x2028 ∨
    n = 0x2029 ∨ n = 0x202f ∨ n = 0x205f ∨ n = 0x3000

def skipBlanks (s : Text) : Text := s.dropWhile isBlank

def stripTrailingWs (s : Text) : Text := (s.reverse.dropWhile isWhitespace).reverse

def parseQuotedString : Text → Text
  | [] => []
  | '"' :: _ => []
  | '\\' :: [] => []
  | '\\' :: 'n' :: s => '\n' :: parseQuotedString s
  | '\\' :: 't' :: s => '\t' :: parseQuotedString s
  | '\\' :: 'b' :: s => Char.ofNat 8 :: parseQuotedString s
  | '\\' :: c :: s => c :: parseQuotedString s
  | c :: s => c :: parseQuotedString s

inductive Item
  | blank
  | header (name : Text) (final junk : Bool)
  | badHeader
  | close (final : Bool)
  | relation (tag value : Text)
  | subsection (tag : Text) (awaitsBrace : Bool)
  | badRelation

def headerItem (after : Text) : Item :=
  match after.span (· ≠ ']') with
  | (_, []) => .badHeader
  | (name, _ :: '*' :: rest) => .header name true (!(skipBlanks rest).isEmpty)
  | (name, _ :: rest) => .header name false (!(skipBlanks rest).isEmpty)

def trimTag (tag : Text) : Option Text :=
  match tag.span (!isBlank ·) with
  | (_, []) => some tag
  | (t, blanks) => if blanks.all isWhitespace then some t else none

def valueItem (tag value : Text) : Item :=
  match value with
  | [] => .subsection tag true
  | '"' :: quoted => .relation tag (parseQuotedString quoted)
  | '{' :: rest => if (skipBlanks rest).isEmpty then .subsection tag false else .relation tag (stripTrailingWs value)
  | _ => .relation tag (stripTrailingWs value)

def relationItem (cp : Text) : Item :=
  match cp.span (· ≠ '=') with
  | ([], _) => .badRelation
  | (_, []) => .badRelation
  | (tag, _ :: rest) =>
    match trimTag tag with
    | none => .badRelation
    | some tag => valueItem tag (skipBlanks rest)

def lineItem (line : Text) : Item :=
  match skipBlanks line with
  | [] => .blank
  | '\x00' :: _ => .blank
  | ';' :: _ => .blank
  | '#' :: _ => .blank
  | '[' :: after => headerItem after
  | '}' :: '*' :: _ => .close true
  | '}' :: _ => .close false
  | cp => relationItem cp

def starTag (tag : Text) : Text × Bool := (tag.takeWhile (· ≠ '*'), tag.contains '*')

/-! ## The parser -/

structure Cursor (π : Type) where
  top : π
  /-- Into the child at an index, of a name. -/
  enter : π → Nat → Text → π
  leave : π → π
  see : π → Node → Option Node
  edit : π → (Node → Node) → Node → Option Node

def seeIndex : List Nat → Node → Option Node
  | [], n => some n
  | i :: is, n => n.children[i]?.bind (seeIndex is)

def editIndex (f : Node → Node) : List Nat → Node → Option Node
  | [], n => some (f n)
  | i :: is, n => do
    let child ← n.children[i]?
    let child' ← editIndex f is child
    some { n with children := n.children.set i child' }

def indexCursor : Cursor (List Nat) where
  top := []
  enter path i _ := path ++ [i]
  leave path := path.dropLast
  see := seeIndex
  edit path f := editIndex f path

inductive LineState
  | init
  | std
  | getObrace
deriving DecidableEq

structure ParseState (π : Type) where
  root : Node
  path : π
  state : LineState
  groupLevel : Nat
  discard : Nat

inductive ProfileError
  | malformed (line : Nat) (msg : String)
  | io (msg : String)
deriving Repr, DecidableEq

/-- How a parse ends without a tree: an error, a failed index, or files that include each other without end. -/
inductive Fault
  | error (e : ProfileError)
  | panic
  | endless
deriving Repr, DecidableEq

def orPanic {α : Type} (o : Option α) : Except Fault α :=
  match o with
  | some a => .ok a
  | none => .error .panic

section
variable {π : Type} (cursor : Cursor π)

def lineError {α : Type} (lineno : Nat) (msg : String) : Except Fault α := .error (.error (.malformed lineno msg))

def markFinal (final : Bool) (n : Node) : Node := if final then { n with isFinal := true } else n

def markChild (final : Bool) (i : Nat) (n : Node) : Node := { n with children := n.children.modify i (markFinal final) }

def openHeader (st : ParseState π) (name : Text) (final : Bool) : ParseState π :=
  let added := addNode st.root name none false
  let i := added.2.getD 0
  let wasFinal := (added.1.children[i]?.map (·.isFinal)).getD false
  { st with
    root := markChild final i added.1
    path := cursor.enter cursor.top i name
    groupLevel := 1
    discard := if wasFinal then 1 else 0 }

def finishSection (st : ParseState π) (final : Bool) : Except Fault Node :=
  if final then orPanic (cursor.edit st.path (markFinal true) st.root) else .ok st.root

def closeGroup (st : ParseState π) (final : Bool) : Except Fault (ParseState π) := do
  let root ← finishSection cursor st final
  let groupLevel := st.groupLevel - 1
  let discard := if groupLevel < st.discard then 0 else st.discard
  .ok { st with root, groupLevel, discard, path := if discard = 0 then cursor.leave st.path else st.path }

def withRelation (tag value : Text) (final : Bool) (sec : Node) : Node :=
  let added := addNode sec tag (some value) true
  match added.2 with
  | some i => markChild final i added.1
  | none => added.1

def addRelation (st : ParseState π) (tag value : Text) : Except Fault (ParseState π) :=
  if st.discard = 0 then do
    let root ← orPanic (cursor.edit st.path (withRelation (starTag tag).1 value (starTag tag).2) st.root)
    .ok { st with root }
  else .ok st

def subsectionAt (tag : Text) (sec : Node) : Nat × Bool :=
  let added := addNode sec tag none false
  let i := added.2.getD 0
  (i, (added.1.children[i]?.map (·.isFinal)).getD false)

def withSubsection (tag : Text) (final : Bool) (sec : Node) : Node :=
  markChild final (subsectionAt tag sec).1 (addNode sec tag none false).1

def openSubsection (st : ParseState π) (tag : Text) (awaitsBrace : Bool) : Except Fault (ParseState π) :=
  let level := st.groupLevel + 1
  let st := { st with state := if awaitsBrace then .getObrace else st.state, groupLevel := level }
  if st.discard = 0 then do
    let sec ← orPanic (cursor.see st.path st.root)
    let root ← orPanic (cursor.edit st.path (withSubsection (starTag tag).1 (starTag tag).2) st.root)
    let at_ := subsectionAt (starTag tag).1 sec
    .ok { st with root, path := cursor.enter st.path at_.1 (starTag tag).1, discard := if at_.2 then level else 0 }
  else .ok st

def parseStdLine (st : ParseState π) (lineno : Nat) : Item → Except Fault (ParseState π)
  | .blank => .ok st
  | .header name final junk =>
    if 1 < st.groupLevel then lineError lineno "section header must be at top level"
    else if junk then lineError lineno "syntax error in section header"
    else .ok (openHeader cursor st name final)
  | .badHeader =>
    if 1 < st.groupLevel then lineError lineno "section header must be at top level"
    else lineError lineno "syntax error in section header"
  | .close final =>
    if st.groupLevel < 2 then lineError lineno "extraneous close brace" else closeGroup cursor st final
  | .relation tag value => addRelation cursor st tag value
  | .subsection tag awaitsBrace => openSubsection cursor st tag awaitsBrace
  | .badRelation => lineError lineno "syntax error in relations line"

/-! ## Included files -/

inductive Directive
  | file (name : Text)
  | dir (name : Text)

def includeWord : Text := ['i', 'n', 'c', 'l', 'u', 'd', 'e']

def includedirWord : Text := includeWord ++ ['d', 'i', 'r']

def directive (line : Text) : Option Directive :=
  let isAfter (word : Text) : Bool := word.isPrefixOf line && (line.drop word.length).head?.any isBlank
  let argument (word : Text) : Text := stripTrailingWs (skipBlanks (line.drop word.length))
  if isAfter includeWord then some (.file (argument includeWord))
  else if isAfter includedirWord then some (.dir (argument includedirWord))
  else none

/-- The files and directories of the system, or why they cannot be read. -/
structure FileSystem where
  file : Text → Except String Text
  dir : Text → Except String (List Text)

def validName (name : Text) : Bool :=
  if name.head? = some '.' then false
  else if ['.', 'c', 'o', 'n', 'f'].isSuffixOf name then true
  else name.all fun c => c.isAlphanum || c = '-' || c = '_'

def joinPath (dir name : Text) : Text :=
  if dir = [] then name else if dir.getLast? = some '/' then dir ++ name else dir ++ '/' :: name

def includeAll (load : Text → Node → Except Fault Node) : List Text → Node → Except Fault Node
  | [], root => .ok root
  | name :: names, root => do
    let root ← load name root
    includeAll load names root

def dirFiles (fs : FileSystem) (dir : Text) : Except Fault (List Text) :=
  match fs.dir dir with
  | .error io => lineError 0 ("couldn't open includedir " ++ String.ofList dir ++ ": " ++ io)
  | .ok names => .ok (((names.filter validName).mergeSort fun a b => cmp a b != .gt).map (joinPath dir))

def blameLine (lineno : Nat) (name : Text) (r : Except Fault Node) : Except Fault Node :=
  match r with
  | .error (.error (.io io)) =>
    lineError lineno ("couldn't open include file " ++ String.ofList name ++ ": " ++ io)
  | r => r

def runDirective (fs : FileSystem) (load : Text → Node → Except Fault Node) (lineno : Nat) (root : Node) :
    Directive → Except Fault Node
  | .file name => blameLine lineno name (load name root)
  | .dir dir => do
    let names ← dirFiles fs dir
    includeAll load names root

def parsePlainLine (st : ParseState π) (lineno : Nat) (line : Text) : Except Fault (ParseState π) :=
  match st.state with
  | .init =>
    if line.head? = some '[' then parseStdLine cursor { st with state := .std } lineno (lineItem line) else .ok st
  | .std => parseStdLine cursor st lineno (lineItem line)
  | .getObrace =>
    if (skipBlanks line).head? = some '{' then .ok { st with state := .std }
    else lineError lineno "profile_parse(): missing '\x7b'"

def parseLine (fs : FileSystem) (load : Text → Node → Except Fault Node) (st : ParseState π) (lineno : Nat)
    (line : Text) : Except Fault (ParseState π) :=
  match directive line with
  | some d => do
    let root ← runDirective fs load lineno st.root d
    .ok { st with root }
  | none => parsePlainLine cursor st lineno line

def parseLines (fs : FileSystem) (load : Text → Node → Except Fault Node) :
    ParseState π → Nat → List Text → Except Fault (ParseState π)
  | st, _, [] => .ok st
  | st, lineno, line :: lines => do
    let st ← parseLine cursor fs load st lineno line
    parseLines fs load st (lineno + 1) lines

def splitLines : Text → Text → List Text
  | line, [] => [line.reverse]
  | line, '\n' :: s => line.reverse :: splitLines [] s
  | line, c :: s => splitLines (c :: line) s

def stripCr (line : Text) : Text := if line.getLast? = some '\r' then line.dropLast else line

def initialState (root : Node) : ParseState π := ⟨root, cursor.top, .init, 0, 0⟩

def parseWith (fs : FileSystem) (load : Text → Node → Except Fault Node) (text : Text) (root : Node) :
    Except Fault Node := do
  let st ← parseLines cursor fs load (initialState cursor root) 1 ((splitLines [] text).map stripCr)
  .ok st.root

def parseFile (fs : FileSystem) : Nat → Text → Node → Except Fault Node
  | 0, _, _ => .error .endless
  | fuel + 1, name, root =>
    match fs.file name with
    | .error io => .error (.error (.io io))
    | .ok text => parseWith cursor fs (parseFile fs fuel) text root

def parseTextInto (fs : FileSystem) (fuel : Nat) (text : Text) (root : Node) : Except Fault Node :=
  parseWith cursor fs (parseFile cursor fs fuel) text root

def parseText (fs : FileSystem) (fuel : Nat) (text : Text) : Except Fault Node :=
  parseTextInto cursor fs fuel text (Node.new ['(', 'r', 'o', 'o', 't', ')'] none)

end

end Profile

end Krb5Rs
