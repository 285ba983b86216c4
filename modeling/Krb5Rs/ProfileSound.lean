import Krb5Rs.Profile

/-!
# Where the lines after an include go

The section a text has open is the one its headers and braces name. The parser
keeps the child indices that lead there, which an included file moves when it
adds a node in front of an open section.
-/

namespace Krb5Rs

namespace Profile

/-! ## Sections by name -/

def sectionIndex (name : Text) (children : List Node) : Option Nat :=
  children.findIdx? fun c => c.isSection && c.name = name

def indicesOf : List Text → Node → Option (List Nat)
  | [], _ => some []
  | name :: names, n => do
    let i ← sectionIndex name n.children
    let child ← n.children[i]?
    let is ← indicesOf names child
    some (i :: is)

def nameCursor : Cursor (List Text) where
  top := []
  enter path _ name := path ++ [name]
  leave path := path.dropLast
  see path n := do
    let is ← indicesOf path n
    seeIndex is n
  edit path f n := do
    let is ← indicesOf path n
    editIndex f is n

theorem cmp_eq {a b : Text} (h : cmp a b = .eq) : a = b := by
  induction a generalizing b with
  | nil => cases b <;> simp_all [cmp]
  | cons x a ih =>
    cases b with
    | nil => simp [cmp] at h
    | cons y b =>
      simp only [cmp] at h
      split at h
      · cases h
      split at h
      · cases h
      · rename_i h1 h2
        rw [ih h, Char.le_antisymm (Char.not_lt.mp h2) (Char.not_lt.mp h1)]

theorem cmp_self (a : Text) : cmp a a = .eq := by
  induction a with
  | nil => rfl
  | cons x a ih => simp [cmp, ih]

theorem findSpot_section (name : Text) (children : List Node) (i : Nat) :
    (∃ k, findSpot name none false children i = .merge (i + k) ∧ sectionIndex name children = some k) ∨
      ∃ k, findSpot name none false children i = .insert (i + k) ∧
        sectionIndex name (children.insertIdx k (Node.new name none)) = some k := by
  induction children generalizing i with
  | nil => exact .inr ⟨0, rfl, by simp [sectionIndex, Node.new, Node.isSection]⟩
  | cons p ps ih =>
    have hskip (hp : (p.isSection && decide (p.name = name)) = false)
        (hs : findSpot name none false (p :: ps) i = findSpot name none false ps (i + 1)) :
        (∃ k, findSpot name none false (p :: ps) i = .merge (i + k) ∧ sectionIndex name (p :: ps) = some k) ∨
          ∃ k, findSpot name none false (p :: ps) i = .insert (i + k) ∧
            sectionIndex name ((p :: ps).insertIdx k (Node.new name none)) = some k := by
      rw [hs]
      rcases ih (i + 1) with ⟨k, hk, hf⟩ | ⟨k, hk, hf⟩
      · refine .inl ⟨k + 1, by rw [hk]; congr 1; omega, ?_⟩
        unfold sectionIndex at hf ⊢
        rw [List.findIdx?_cons, hp, hf]
        rfl
      · refine .inr ⟨k + 1, by rw [hk]; congr 1; omega, ?_⟩
        unfold sectionIndex at hf ⊢
        rw [List.insertIdx_succ_cons, List.findIdx?_cons, hp, hf]
        rfl
    cases hc : cmp p.name name with
    | gt =>
      refine .inr ⟨0, by simp [findSpot, hc], ?_⟩
      simp [sectionIndex, Node.new, Node.isSection, List.findIdx?_cons]
    | eq =>
      by_cases hp : p.isSection = true
      · refine .inl ⟨0, by simp [findSpot, hc, hp], ?_⟩
        simp [sectionIndex, List.findIdx?_cons, hp, cmp_eq hc]
      · exact hskip (by simp [hp]) (by simp [findSpot, hc, hp])
    | lt =>
      refine hskip ?_ (by simp [findSpot, hc])
      have hne : p.name ≠ name := by
        rintro rfl
        rw [cmp_self] at hc
        cases hc
      simp [hne]

theorem addNode_section (sec : Node) (name : Text) : ∃ i, (addNode sec name none false).2 = some i ∧
      sectionIndex name (addNode sec name none false).1.children = some i := by
  unfold addNode
  rcases findSpot_section name sec.children 0 with ⟨k, hk, hf⟩ | ⟨k, hk, hf⟩
  · rw [hk, Nat.zero_add]
    exact ⟨k, rfl, hf⟩
  · rw [hk, Nat.zero_add]
    exact ⟨k, rfl, hf⟩

def Keeps (f : Node → Node) : Prop := ∀ n, (f n).name = n.name ∧ (f n).value = n.value

variable {name : Text} {f : Node → Node} {children : List Node} (tag : Text) (final : Bool)

theorem sectionIndex_cons_congr {c d : Node} {cs ds : List Node} (hn : d.name = c.name)
    (hv : d.value = c.value) (h : sectionIndex name ds = sectionIndex name cs) :
    sectionIndex name (d :: ds) = sectionIndex name (c :: cs) := by
  unfold sectionIndex at h ⊢
  rw [List.findIdx?_cons, List.findIdx?_cons, h, Node.isSection, Node.isSection, hn, hv]

theorem sectionIndex_set {i : Nat} {child child' : Node}
    (hi : children[i]? = some child) (hn : child'.name = child.name) (hv : child'.value = child.value) :
    sectionIndex name (children.set i child') = sectionIndex name children := by
  induction children generalizing i with
  | nil => rfl
  | cons c cs ih =>
    cases i with
    | zero =>
      obtain rfl : c = child := by simpa using hi
      exact sectionIndex_cons_congr hn hv rfl
    | succ i => exact sectionIndex_cons_congr rfl rfl (ih (by simpa using hi))

theorem sectionIndex_modify (hf : Keeps f) (i : Nat) :
    sectionIndex name (children.modify i f) = sectionIndex name children := by
  induction children generalizing i with
  | nil => cases i <;> rfl
  | cons c cs ih =>
    cases i with
    | zero => exact sectionIndex_cons_congr (hf c).1 (hf c).2 rfl
    | succ i => exact sectionIndex_cons_congr rfl rfl (ih i)

theorem markFinal_keeps : Keeps (markFinal final) := by
  intro n
  cases final <;> exact ⟨rfl, rfl⟩

theorem addNode_keeps (name : Text) (value : Option Text) (checkFinal : Bool) :
    Keeps fun sec => (addNode sec name value checkFinal).1 := by
  intro sec
  simp only [addNode]
  split <;> exact ⟨rfl, rfl⟩

theorem withRelation_keeps (value : Text) (final : Bool) : Keeps (withRelation tag value final) := by
  intro sec
  obtain ⟨hn, hv⟩ := addNode_keeps tag (some value) true sec
  simp only [withRelation]
  split
  · exact ⟨hn, hv⟩
  · exact ⟨hn, hv⟩

theorem withSubsection_keeps : Keeps (withSubsection tag final) :=
  fun sec => addNode_keeps tag none false sec

/-! ## Paths -/

variable {names : List Text} {n : Node} {named : ParseState (List Text)} {path : List Nat} {lineno : Nat}

theorem indicesOf_cons : indicesOf (name :: names) n = some path ↔
      ∃ i child is, sectionIndex name n.children = some i ∧ n.children[i]? = some child ∧
        indicesOf names child = some is ∧ path = i :: is := by
  simp only [indicesOf, bind, Option.bind_eq_some_iff, Option.some.injEq]
  constructor
  · rintro ⟨i, hi, child, hc, is, his, rfl⟩
    exact ⟨i, child, is, hi, hc, his, rfl⟩
  · rintro ⟨i, child, is, hi, hc, his, rfl⟩
    exact ⟨i, hi, child, hc, is, his, rfl⟩

theorem editIndex_named (hf : Keeps f) (h : indicesOf names n = some path) :
    ∃ sec n', seeIndex path n = some sec ∧ editIndex f path n = some n' ∧ indicesOf names n' = some path ∧
      seeIndex path n' = some (f sec) ∧ n'.name = n.name ∧ n'.value = n.value := by
  induction names generalizing path n with
  | nil =>
    cases h
    exact ⟨n, f n, rfl, rfl, rfl, rfl, hf n⟩
  | cons name names ih =>
    obtain ⟨i, child, is, hi, hc, his, rfl⟩ := indicesOf_cons.mp h
    obtain ⟨sec, child', hsee, hedit, hnamed, hsee', hn, hv⟩ := ih his
    obtain ⟨hlt, -⟩ := List.getElem?_eq_some_iff.mp hc
    have hset : (n.children.set i child')[i]? = some child' := List.getElem?_set_self hlt
    refine ⟨sec, { n with children := n.children.set i child' }, ?_, ?_, ?_, ?_, rfl, rfl⟩
    · simp [seeIndex, hc, hsee]
    · simp [editIndex, hc, hedit]
    · exact indicesOf_cons.mpr ⟨i, child', is, (sectionIndex_set hc hn hv).trans hi, hset, hnamed, rfl⟩
    · simp [seeIndex, hset, hsee']

theorem indicesOf_snoc {sec : Node} {i : Nat} (h : indicesOf names n = some path) (hsee : seeIndex path n = some sec)
    (hi : sectionIndex name sec.children = some i) : indicesOf (names ++ [name]) n = some (path ++ [i]) := by
  induction names generalizing path n with
  | nil =>
    cases h
    obtain rfl := Option.some.inj hsee
    obtain ⟨hlt, -⟩ := List.findIdx?_eq_some_iff_getElem.mp hi
    exact indicesOf_cons.mpr ⟨i, n.children[i], [], hi, List.getElem?_eq_getElem hlt, rfl, rfl⟩
  | cons s names ih =>
    obtain ⟨j, child, is, hj, hc, his, rfl⟩ := indicesOf_cons.mp h
    have hsee' : seeIndex is child = some sec := by simpa [seeIndex, hc] using hsee
    exact indicesOf_cons.mpr ⟨j, child, is ++ [i], hj, hc, ih his hsee', rfl⟩

theorem indicesOf_dropLast (h : indicesOf names n = some path) : indicesOf names.dropLast n = some path.dropLast := by
  induction names generalizing path n with
  | nil =>
    cases h
    rfl
  | cons name names ih =>
    obtain ⟨i, child, is, hi, hc, his, rfl⟩ := indicesOf_cons.mp h
    cases names with
    | nil =>
      cases his
      rfl
    | cons name' names =>
      obtain ⟨i', child', is', hi', hc', his', rfl⟩ := indicesOf_cons.mp his
      exact indicesOf_cons.mpr ⟨i, child, _, hi, hc, ih his, rfl⟩

/-! ## The two cursors side by side -/

structure Agree (st : ParseState (List Nat)) (named : ParseState (List Text)) : Prop where
  root : st.root = named.root
  path : indicesOf named.path named.root = some st.path
  state : st.state = named.state
  groupLevel : st.groupLevel = named.groupLevel
  discard : st.discard = named.discard

inductive Same : Except Fault (ParseState (List Nat)) → Except Fault (ParseState (List Text)) → Prop
  | ok {st named} : Agree st named → Same (.ok st) (.ok named)
  | error {e} : e ≠ .panic → Same (.error e) (.error e)

theorem Same.lineError {msg : String} : Same (lineError lineno msg) (lineError lineno msg) :=
  .error (by simp)

section
variable {st : ParseState (List Nat)} {named : ParseState (List Text)} (h : Agree st named)
include h

theorem edit_agree (hf : Keeps f) :
    ∃ sec root, indexCursor.edit st.path f st.root = some root ∧ nameCursor.edit named.path f named.root = some root ∧
      indexCursor.see st.path st.root = some sec ∧ nameCursor.see named.path named.root = some sec ∧
      indicesOf named.path root = some st.path ∧ seeIndex st.path root = some (f sec) := by
  obtain ⟨sec, root, hsee, hedit, hpath, hsee', -, -⟩ := editIndex_named hf h.path
  refine ⟨sec, root, ?_, ?_, ?_, ?_, hpath, hsee'⟩
  · rw [h.root]
    exact hedit
  · simp [nameCursor, h.path, hedit]
  · rw [h.root]
    exact hsee
  · simp [nameCursor, h.path, hsee]

end

theorem sectionIndex_opened (sec : Node) :
    sectionIndex tag (withSubsection tag final sec).children = some (subsectionAt tag sec).1 := by
  obtain ⟨i, hi, hf⟩ := addNode_section sec tag
  unfold withSubsection markChild
  rw [sectionIndex_modify (markFinal_keeps final), hf]
  simp [subsectionAt, hi]

variable {st : ParseState (List Nat)}

theorem openHeader_agree (h : Agree st named) (name : Text) (final : Bool) :
    Agree (openHeader indexCursor st name final) (openHeader nameCursor named name final) := by
  have hroot := h.root
  refine ⟨?_, ?_, h.state, rfl, ?_⟩
  · simp [openHeader, hroot]
  · have hpath : (openHeader indexCursor st name final).path = [] ++ [(subsectionAt name named.root).1] := by
      simp [openHeader, hroot, subsectionAt, indexCursor]
    have htop : indicesOf [] (withSubsection name final named.root) = some [] := rfl
    rw [hpath]
    exact indicesOf_snoc htop rfl (sectionIndex_opened name final named.root)
  · simp [openHeader, hroot]

theorem closeGroup_agree (h : Agree st named)
    (final : Bool) : Same (closeGroup indexCursor st final) (closeGroup nameCursor named final) := by
  have hfinish : ∃ root, finishSection indexCursor st final = .ok root ∧
      finishSection nameCursor named final = .ok root ∧ indicesOf named.path root = some st.path := by
    cases final with
    | false => exact ⟨named.root, by rw [← h.root]; rfl, rfl, h.path⟩
    | true =>
      obtain ⟨sec, root, hi, hn, -, -, hpath, -⟩ := edit_agree h (markFinal_keeps true)
      exact ⟨root, by simp [finishSection, hi, orPanic], by simp [finishSection, hn, orPanic], hpath⟩
  obtain ⟨root, hi, hn, hpath⟩ := hfinish
  unfold closeGroup
  rw [hi, hn]
  refine .ok ⟨rfl, ?_, h.state, by simp [h.groupLevel], by simp [h.groupLevel, h.discard]⟩
  simp only [h.groupLevel, h.discard]
  generalize (if named.groupLevel - 1 < named.discard then 0 else named.discard) = discard
  by_cases hd : discard = 0
  · rw [if_pos hd, if_pos hd]
    exact indicesOf_dropLast hpath
  · rw [if_neg hd, if_neg hd]
    exact hpath

theorem addRelation_agree (h : Agree st named)
    (tag value : Text) : Same (addRelation indexCursor st tag value) (addRelation nameCursor named tag value) := by
  unfold addRelation
  rw [h.discard]
  split
  · obtain ⟨sec, root, hi, hn, -, -, hpath, -⟩ :=
      edit_agree h (withRelation_keeps (starTag tag).1 value (starTag tag).2)
    rw [hi, hn]
    exact .ok ⟨rfl, hpath, h.state, h.groupLevel, rfl⟩
  · exact .ok h

theorem openSubsection_agree (h : Agree st named) (tag : Text) (awaitsBrace : Bool) :
    Same (openSubsection indexCursor st tag awaitsBrace) (openSubsection nameCursor named tag awaitsBrace) := by
  unfold openSubsection
  dsimp only
  rw [h.discard, h.groupLevel, h.state]
  split
  · obtain ⟨sec, root, hi, hn, hsi, hsn, hpath, hsee⟩ := edit_agree h (withSubsection_keeps (starTag tag).1 (starTag tag).2)
    rw [hi, hn, hsi, hsn]
    refine .ok ⟨rfl, ?_, rfl, rfl, rfl⟩
    exact indicesOf_snoc hpath hsee (sectionIndex_opened _ _ sec)
  · exact .ok ⟨h.root, h.path, rfl, rfl, rfl⟩

theorem parseStdLine_agree (h : Agree st named) (lineno : Nat) (item : Item) :
    Same (parseStdLine indexCursor st lineno item) (parseStdLine nameCursor named lineno item) := by
  cases item with
  | blank => exact .ok h
  | header name final junk =>
    simp only [parseStdLine, h.groupLevel]
    split
    · exact .lineError
    · split
      · exact .lineError
      · exact .ok (openHeader_agree h name final)
  | badHeader =>
    simp only [parseStdLine, h.groupLevel]
    split
    · exact .lineError
    · exact .lineError
  | close final =>
    simp only [parseStdLine, h.groupLevel]
    split
    · exact .lineError
    · exact closeGroup_agree h final
  | relation tag value => exact addRelation_agree h tag value
  | subsection tag awaitsBrace => exact openSubsection_agree h tag awaitsBrace
  | badRelation => exact .lineError

theorem parsePlainLine_agree (h : Agree st named) (lineno : Nat) (line : Text) :
    Same (parsePlainLine indexCursor st lineno line) (parsePlainLine nameCursor named lineno line) := by
  have hstd : Agree { st with state := .std } { named with state := .std } :=
    ⟨h.root, h.path, rfl, h.groupLevel, h.discard⟩
  unfold parsePlainLine
  rw [h.state]
  cases named.state with
  | init =>
    dsimp only
    split
    · exact parseStdLine_agree hstd lineno _
    · exact .ok h
  | std => exact parseStdLine_agree h lineno _
  | getObrace =>
    dsimp only
    split
    · exact .ok hstd
    · exact .lineError

/-! ## Runs -/

def AllSettled (load : Text → Node → Except Fault Node) (settled : Text → Node → Prop) : List Text → Node → Prop
  | [], _ => True
  | name :: names, root =>
    settled name root ∧ ∀ root', load name root = .ok root' → AllSettled load settled names root'

def DirectiveSettled (fs : FileSystem) (load : Text → Node → Except Fault Node) (settled : Text → Node → Prop)
    (root : Node) : Directive → Prop
  | .file name => settled name root
  | .dir dir => ∀ names, dirFiles fs dir = .ok names → AllSettled load settled names root

def Settled (fs : FileSystem) (load : Text → Node → Except Fault Node) (settled : Text → Node → Prop) :
    ParseState (List Text) → Nat → List Text → Prop
  | _, _, [] => True
  | st, lineno, line :: lines =>
    (∀ d, directive line = some d → DirectiveSettled fs load settled st.root d ∧
      ∀ root, runDirective fs load lineno st.root d = .ok root → indicesOf st.path root = indicesOf st.path st.root) ∧
    ∀ st', parseLine nameCursor fs load st lineno line = .ok st' → Settled fs load settled st' (lineno + 1) lines

def FileSettled (fs : FileSystem) : Nat → Text → Node → Prop
  | 0, _, _ => True
  | fuel + 1, name, root =>
    ∀ text, fs.file name = .ok text → Settled fs (parseFile nameCursor fs fuel) (FileSettled fs fuel)
      (initialState nameCursor root) 1 ((splitLines [] text).map stripCr)

def Loads (load load' : Text → Node → Except Fault Node) (settled : Text → Node → Prop) : Prop :=
  ∀ name root, settled name root → load name root = load' name root ∧ load' name root ≠ .error .panic

section
variable {fs : FileSystem} {load load' : Text → Node → Except Fault Node} {settled : Text → Node → Prop} {root : Node}

theorem includeAll_agree (hload : Loads load load' settled) :
    ∀ (names : List Text) (root : Node), AllSettled load' settled names root →
      includeAll load names root = includeAll load' names root ∧ includeAll load' names root ≠ .error .panic
  | [], root, _ => ⟨rfl, by simp [includeAll]⟩
  | name :: names, root, h => by
    obtain ⟨heq, hne⟩ := hload name root h.1
    simp only [includeAll, heq]
    cases hr : load' name root with
    | error e => exact ⟨rfl, by rw [hr] at hne; exact hne⟩
    | ok root' => exact includeAll_agree hload names root' (h.2 root' hr)

theorem blameLine_ne_panic {r : Except Fault Node} (h : r ≠ .error .panic) :
    blameLine lineno name r ≠ .error .panic := by
  unfold blameLine
  split
  · simp [lineError]
  · exact h

theorem runDirective_agree (hload : Loads load load' settled) (lineno : Nat) {d : Directive}
    (h : DirectiveSettled fs load' settled root d) :
    runDirective fs load lineno root d = runDirective fs load' lineno root d ∧
      runDirective fs load' lineno root d ≠ .error .panic := by
  cases d with
  | file name =>
    obtain ⟨heq, hne⟩ := hload name root h
    simp only [runDirective, heq]
    exact ⟨trivial, blameLine_ne_panic hne⟩
  | dir dir =>
    simp only [runDirective]
    cases hd : dirFiles fs dir with
    | error e =>
      refine ⟨rfl, ?_⟩
      unfold dirFiles at hd
      split at hd
      · cases hd; simp [bind, Except.bind]
      · cases hd
    | ok names => exact includeAll_agree hload names root (h names hd)

theorem parseLine_agree (hload : Loads load load' settled) (h : Agree st named) {line : Text} {lines : List Text}
    (hs : Settled fs load' settled named lineno (line :: lines)) :
    Same (parseLine indexCursor fs load st lineno line) (parseLine nameCursor fs load' named lineno line) := by
  unfold parseLine
  cases hd : directive line with
  | none => exact parsePlainLine_agree h lineno line
  | some d =>
    obtain ⟨hdir, hplace⟩ := hs.1 d hd
    obtain ⟨heq, hne⟩ := runDirective_agree hload lineno hdir
    simp only [h.root, heq]
    cases hr : runDirective fs load' lineno named.root d with
    | error e => exact .error fun he => hne (by rw [hr, he])
    | ok root => exact .ok ⟨rfl, (hplace root hr).trans h.path, h.state, h.groupLevel, h.discard⟩

theorem parseLines_agree (hload : Loads load load' settled) :
    ∀ (lines : List Text) (st : ParseState (List Nat)) (named : ParseState (List Text)) (lineno : Nat),
      Agree st named → Settled fs load' settled named lineno lines →
      Same (parseLines indexCursor fs load st lineno lines) (parseLines nameCursor fs load' named lineno lines)
  | [], st, named, lineno, h, _ => .ok h
  | line :: lines, st, named, lineno, h, hs => by
    have hline := parseLine_agree hload h hs
    have hrest := hs.2
    simp only [parseLines]
    generalize parseLine indexCursor fs load st lineno line = r at hline
    generalize parseLine nameCursor fs load' named lineno line = r' at hline hrest
    cases hline with
    | error he => exact .error he
    | ok hst => exact parseLines_agree hload lines _ _ (lineno + 1) hst (hrest _ rfl)

theorem parseWith_agree (hload : Loads load load' settled) {text : Text}
    (hs : Settled fs load' settled (initialState nameCursor root) 1 ((splitLines [] text).map stripCr)) :
    parseWith indexCursor fs load text root = parseWith nameCursor fs load' text root ∧
      parseWith nameCursor fs load' text root ≠ .error .panic := by
  have hinit : Agree (initialState indexCursor root) (initialState nameCursor root) := ⟨rfl, rfl, rfl, rfl, rfl⟩
  have h := parseLines_agree hload _ _ _ 1 hinit hs
  unfold parseWith
  generalize parseLines indexCursor fs load (initialState indexCursor root) 1 _ = r at h
  generalize parseLines nameCursor fs load' (initialState nameCursor root) 1 _ = r' at h
  cases h with
  | error he => exact ⟨rfl, fun h => he (Except.error.inj h)⟩
  | ok hst => exact ⟨congrArg Except.ok hst.root, by simp [bind, Except.bind]⟩

end

theorem parseFile_agree (fs : FileSystem) :
    ∀ fuel, Loads (parseFile indexCursor fs fuel) (parseFile nameCursor fs fuel) (FileSettled fs fuel)
  | 0 => fun _ _ _ => ⟨rfl, by simp [parseFile]⟩
  | fuel + 1 => by
    intro name root h
    simp only [parseFile]
    cases hf : fs.file name with
    | error io => exact ⟨rfl, by simp⟩
    | ok text => exact parseWith_agree (parseFile_agree fs fuel) (h text hf)

/-- Where includes leave the open sections at their places, lines go to the sections the text names. -/
theorem include_keeps_place {fs : FileSystem} {fuel : Nat} {text : Text} {root : Node}
    (h : Settled fs (parseFile nameCursor fs fuel) (FileSettled fs fuel) (initialState nameCursor root) 1
      ((splitLines [] text).map stripCr)) :
    parseTextInto indexCursor fs fuel text root = parseTextInto nameCursor fs fuel text root ∧
      parseTextInto indexCursor fs fuel text root ≠ .error .panic := by
  obtain ⟨heq, hne⟩ := parseWith_agree (parseFile_agree fs fuel) h
  unfold parseTextInto
  rw [heq]
  exact ⟨rfl, hne⟩

def outline (root : Node) : List (Text × List Text) := root.children.map fun c => (c.name, c.children.map (·.name))

def sectionFile : FileSystem where
  file name := if name = ['f'] then .ok ['[', 'b', ']'] else .error "No such file or directory"
  dir _ := .error "No such file or directory"

def includingText (name : Char) : Text := ['[', name, ']', '\n'] ++ includeWord ++ [' ', 'f', '\n', 'a', '=', '1']

/-- The file's header names the section that is open. -/
theorem include_of_open_section : parseTextInto indexCursor sectionFile 1 (includingText 'b') (Node.new [] none) =
        parseTextInto nameCursor sectionFile 1 (includingText 'b') (Node.new [] none) ∧
      parseTextInto indexCursor sectionFile 1 (includingText 'b') (Node.new [] none) ≠ .error .panic := by
  refine include_keeps_place ⟨fun d hd => ?_, fun st hst => ⟨fun d hd => ⟨?_, ?_⟩, fun st' hst' => ⟨fun d hd => ?_, fun _ _ => trivial⟩⟩⟩
  · cases hd
  · cases hst
    cases hd
    intro text htext
    cases htext
    exact ⟨fun d hd => (by cases hd), fun _ _ => trivial⟩
  · cases hst
    cases hd
    intro root hroot
    cases hroot
    rfl
  · cases hd

/-- The section `b` takes the place of `z`, and the relation with it; a subsection of `z` is no longer found. -/
theorem include_moves_open_section :
    (parseText indexCursor sectionFile 1 (includingText 'z')).map outline = .ok [(['b'], [['a']]), (['z'], [])] ∧
      (parseText nameCursor sectionFile 1 (includingText 'z')).map outline = .ok [(['b'], []), (['z'], [['a']])] ∧
      (parseText indexCursor sectionFile 1
          (['[', 'z', ']', '\n', 's', '=', '\x7b', '\n'] ++ includeWord ++ [' ', 'f', '\n', 'a', '=', '1'])).map outline =
        .error .panic := by
  decide +kernel

end Profile

end Krb5Rs
