import Krb5Rs.Keytab

/-!
# A keytab file is a bag of entries

The file is a row of cells, each an entry with the zeros that follow it in a
reused hole, or a hole. Adding an entry fills a hole or appends a cell, and
removing one turns its cell into a hole of the same size.
-/

namespace Krb5Rs

open Wire (Bytes Reads be ofBe bind_of_ok pure_apply)

namespace Keytab

/-! ## Numbers -/

theorem ofBe_beI16 (v : Int16) : (UInt16.ofNat (ofBe (beI16 v))).toInt16 = v := by
  unfold beI16
  rw [Wire.ofBe_be _ _ (by have := v.toUInt16.toNat_lt; omega), UInt16.ofNat_toNat]
  simp

theorem ofBe_beI32 (v : Int32) : (UInt32.ofNat (ofBe (beI32 v))).toInt32 = v := by
  unfold beI32
  rw [Wire.ofBe_be _ _ (by have := v.toUInt32.toNat_lt; omega), UInt32.ofNat_toNat]
  simp

variable {n : Nat} {bs : Bytes}

theorem toInt_ofNat16 (h : n < 2 ^ 15) : (Int16.ofNat n).toInt = n :=
  Int16.toInt_ofNat_of_lt h

theorem toInt_ofNat32 (h : n < 2 ^ 31) : (Int32.ofNat n).toInt = n :=
  Int32.toInt_ofNat_of_lt h

theorem toInt_neg_ofNat32 (h : n < 2 ^ 31) : (-Int32.ofNat n).toInt = -n := by
  rw [Int32.toInt_neg, toInt_ofNat32 h, Int.bmod_eq_of_le (by omega) (by omega)]

theorem asUsize_ofNat (h : n < 2 ^ 31) : asUsize (.ofNat n) = n := by
  unfold asUsize
  rw [toInt_ofNat32 h]
  omega

theorem ne_of_toInt {v w : Int32} (h : v.toInt ≠ w.toInt) : v ≠ w := fun heq => h (by rw [heq])

theorem reads_i16 (v : Int16) : Reads (readI16 false) (beI16 v) v := by
  have h : Reads (readI16 false) (beI16 v) (UInt16.ofNat (ofBe (beI16 v))).toInt16 :=
    (Wire.reads_take_of_length KtError.format (by simp [beI16])).map _
  rwa [ofBe_beI16] at h

theorem reads_i32 (v : Int32) : Reads (readI32 false) (beI32 v) v := by
  have h : Reads (readI32 false) (beI32 v) (UInt32.ofNat (ofBe (beI32 v))).toInt32 :=
    (Wire.reads_take_of_length KtError.format (by simp [beI32])).map _
  rwa [ofBe_beI32] at h

def Sized (bs : Bytes) : Prop := bs ≠ [] ∧ bs.length < 2 ^ 15

theorem not_ofNat16_le (hpos : n ≠ 0) (hlt : n < 2 ^ 15) : ¬ Int16.ofNat n ≤ 0 := by
  rw [Int16.le_iff_toInt_le, toInt_ofNat16 hlt, Int16.toInt_zero]
  omega

theorem reads_sized (h : Sized bs) : Reads (readSized false) (beI16 (.ofNat bs.length) ++ bs) bs := by
  refine (reads_i16 _).bind ?_
  rw [if_neg (not_ofNat16_le (by simpa using h.1) h.2), toInt_ofNat16 h.2]
  exact Wire.reads_take _ _

theorem readSized_append (h : Sized bs) (rest : Bytes) :
    readSized false (beI16 (.ofNat bs.length) ++ (bs ++ rest)) = .ok (bs, rest) := by
  exact reads_sized h rest

theorem readCount_append (hpos : n ≠ 0) (hlt : n < 2 ^ 15) (rest : Bytes) :
    readCount false (beI16 (.ofNat n) ++ rest) = .ok (.ofNat n, rest) := by
  unfold readCount
  rw [bind_of_ok (reads_i16 _ rest)]
  simp only [Bool.false_eq_true, if_false]
  rw [if_neg (not_ofNat16_le hpos hlt)]
  rfl

theorem readVno32_kvno (kvno : UInt32) (rest : Bytes) :
    readVno32 false kvno.toUInt8.toUInt32 (be 4 kvno.toNat ++ rest) = .ok (kvno, be 4 kvno.toNat ++ rest) := by
  have htake : (be 4 kvno.toNat ++ rest).take 4 = be 4 kvno.toNat := List.take_left' (by simp)
  have hread : UInt32.ofNat (number false (be 4 kvno.toNat)) = kvno := by
    unfold number
    rw [if_neg Bool.false_ne_true, Wire.ofBe_be _ _ (by have := kvno.toNat_lt; omega), UInt32.ofNat_toNat]
  unfold readVno32
  dsimp only
  rw [htake, hread]
  split
  · rfl
  rename_i h
  have hzero := Classical.byContradiction fun hne => h ⟨by simp, hne⟩
  rw [hzero]
  rfl

section
variable [Alphabet]

theorem reads_component {c : GeneralString} (h : Sized c.bytes) : Reads (readComponent false) (component c) c := by
  have hpermitted : Reads (permitted c.bytes) [] c := by
    intro rest
    simp [permitted]
  have := (reads_sized h).bind hpermitted
  rwa [List.append_nil] at this

structure Storable (e : KeytabEntry) : Prop where
  count : e.principal.nameString ≠ []
  count_lt : e.principal.nameString.length < 2 ^ 15
  realm : Sized e.realm.bytes
  components : ∀ c ∈ e.principal.nameString, Sized c.bytes
  keytype : -2 ^ 15 ≤ e.key.keytype.toInt ∧ e.key.keytype.toInt < 2 ^ 15
  key : Sized e.key.keyBytes

variable {e : KeytabEntry} {file : Option Bytes}

theorem readEntry_body (h : Storable e) (rest : Bytes) :
    readEntry false (entryBody e ++ rest) = .ok (e, be 4 e.kvno.toNat ++ rest) := by
  have hcomps (rest : Bytes) : readComponents false (.ofNat e.principal.nameString.length)
      (e.principal.nameString.flatMap component ++ rest) = .ok (e.principal.nameString, rest) := by
    unfold readComponents
    rw [toInt_ofNat16 h.count_lt]
    exact Wire.reads_times component _ (fun c hc => reads_component (h.components c hc)) rest
  have htime (rest : Bytes) : readI32 false (be 4 e.timestamp.toNat ++ rest) = .ok (e.timestamp.toInt32, rest) := by
    have := reads_i32 e.timestamp.toInt32 rest
    simpa [beI32] using this
  have hkvno (rest : Bytes) : Wire.take KtError.format 1 ([e.kvno.toUInt8] ++ rest) = .ok ([e.kvno.toUInt8], rest) :=
    Wire.reads_take KtError.format [e.kvno.toUInt8] rest
  have hetype : e.key.keytype.toInt16.toInt32 = e.key.keytype := by
    obtain ⟨hlo, hhi⟩ := h.keytype
    apply Int32.toInt_inj.mp
    rw [Int16.toInt_toInt32, Int32.toInt_toInt16, Int.bmod_eq_of_le (by omega) (by omega)]
  unfold readEntry entryBody
  simp only [List.append_assoc]
  rw [bind_of_ok (readCount_append (by simpa using h.count) h.count_lt _), bind_of_ok (readSized_append h.realm _),
    bind_of_ok (hcomps _)]
  rw [show readNameType false = readI32 false from rfl, bind_of_ok (reads_i32 _ _), bind_of_ok (htime _),
    bind_of_ok (hkvno _), bind_of_ok (reads_i16 _ _), bind_of_ok (readSized_append h.key _)]
  rw [List.headD_cons, bind_of_ok (readVno32_kvno _ _), pure_apply, Utf8.lossyStr_bytes, hetype]
  simp

theorem parseEntry_body (h : Storable e) (pad : Nat) :
    parseEntry (entryBody e ++ List.replicate pad 0) false = .ok e := by
  unfold parseEntry
  rw [readEntry_body h]
  rfl

theorem component_length (c : GeneralString) : (component c).length = 2 + c.bytes.length := by
  simp [component, beI16]

theorem components_length_le {l : List GeneralString} (h : ∀ c ∈ l, Sized c.bytes) :
    (l.flatMap component).length ≤ l.length * 32769 := by
  induction l with
  | nil => simp
  | cons c l ih =>
    have hc := (h c List.mem_cons_self).2
    have hl := ih fun x hx => h x (List.mem_cons_of_mem _ hx)
    rw [List.flatMap_cons, List.length_append, component_length, List.length_cons]
    omega

theorem entryBody_length (h : Storable e) : 0 < (entryBody e).length ∧ (entryBody e).length < 2 ^ 31 := by
  have hc := components_length_le h.components
  have hn := h.count_lt
  have hr := h.realm.2
  have hk := h.key.2
  have hlen : (entryBody e).length =
      e.realm.bytes.length + (e.principal.nameString.flatMap component).length + e.key.keyBytes.length + 21 := by
    simp only [entryBody, List.length_append, beI16, beI32, Wire.be_length, List.length_singleton]
    omega
  omega

/-! ## Cells -/

inductive Cell
  | used (e : KeytabEntry) (pad : Nat)
  | hole (size : Nat)

namespace Cell

def size : Cell → Nat
  | used e pad => (entryBody e).length + pad
  | hole size => size

def bytes : Cell → Bytes
  | used e pad => beI32 (.ofNat ((entryBody e).length + pad)) ++ (entryBody e ++ List.replicate pad 0)
  | hole size => beI32 (-.ofNat size) ++ List.replicate size 0

def entry : Cell → Option KeytabEntry
  | used e _ => some e
  | hole _ => none

/-- A cell the code writes: its size is positive and an `i32`. -/
structure Ok (c : Cell) : Prop where
  pos : 0 < c.size
  lt : c.size < 2 ^ 31
  storable : ∀ e, c.entry = some e → Storable e

theorem bytes_length (c : Cell) : c.bytes.length = 4 + c.size := by
  cases c <;> simp [bytes, size, beI32]

end Cell

def placed : Nat → List Cell → List (Nat × Nat × Option KeytabEntry)
  | _, [] => []
  | pos, c :: cs => (pos, c.size, c.entry) :: placed (pos + 4 + c.size) cs

def Cell.field : Cell → Int32
  | used e pad => .ofNat ((entryBody e).length + pad)
  | hole size => -.ofNat size

variable {c : Cell}

theorem Cell.field_spec (h : c.Ok) :
    c.field ≠ Int32.minValue ∧ c.field ≠ 0 ∧ c.field.toInt.natAbs = c.size ∧ (c.field < 0 ↔ c.entry = none) := by
  obtain ⟨hpos, hlt, -⟩ := h
  have hmin : Int32.minValue.toInt = -2 ^ 31 := rfl
  have hzero : (0 : Int32).toInt = 0 := rfl
  have hint : c.field.toInt = if c.entry = none then -(c.size : Int) else c.size := by
    cases c with
    | used e pad => exact toInt_ofNat32 hlt
    | hole size => exact toInt_neg_ofNat32 hlt
  rw [Int32.lt_iff_toInt_lt]
  refine ⟨ne_of_toInt ?_, ne_of_toInt ?_, ?_, ?_⟩
  · rw [hint, hmin]
    split <;> omega
  · rw [hint, hzero]
    split <;> omega
  · rw [hint]
    split <;> omega
  · rw [hint, hzero]
    split
    · simp only [*, iff_true]
      omega
    · simp only [*, iff_false]
      omega

theorem Cell.bytes_eq (h : c.Ok) : ∃ body, c.bytes = beI32 c.field ++ body ∧ body.length = c.size ∧
      recordEntry false (c.field < 0) body = .ok c.entry := by
  have hsign := (Cell.field_spec h).2.2.2
  cases c with
  | used e pad =>
    refine ⟨entryBody e ++ List.replicate pad 0, rfl, by simp [size], ?_⟩
    have hneg : ¬ (Cell.used e pad).field < 0 := by simp [hsign, entry]
    simp only [recordEntry, decide_eq_true_eq, if_neg hneg, parseEntry_body (h.storable e rfl) pad]
    rfl
  | hole size =>
    refine ⟨List.replicate size 0, rfl, by simp [Cell.size], ?_⟩
    have hneg := hsign.mpr rfl
    simp only [recordEntry, decide_eq_true_eq, if_pos hneg]
    rfl

theorem Cell.front (h : c.Ok) (rest : Bytes) :
    (c.bytes ++ rest).length = 4 + c.size + rest.length ∧ (c.bytes ++ rest).take 4 = beI32 c.field ∧
      (c.bytes ++ rest).drop (4 + c.size) = rest ∧
      recordEntry false (c.field < 0) (((c.bytes ++ rest).drop 4).take c.size) = .ok c.entry := by
  obtain ⟨body, hbytes, hlen, hentry⟩ := Cell.bytes_eq h
  have hfour : (beI32 c.field).length = 4 := by simp [beI32]
  refine ⟨by rw [List.length_append, c.bytes_length], ?_, List.drop_left' c.bytes_length, ?_⟩
  · rw [hbytes, List.append_assoc]
    exact List.take_left' hfour
  · rw [hbytes, List.append_assoc, List.drop_left' hfour, List.take_left' hlen, hentry]

variable {cells : List Cell} {fuel : Nat}

theorem recordsFrom_cells (h : ∀ c ∈ cells, c.Ok) (hf : cells.length ≤ fuel) (pos : Nat) :
    recordsFrom false fuel pos (cells.flatMap Cell.bytes) = .ok (placed pos cells) := by
  induction cells generalizing fuel pos with
  | nil => cases fuel <;> rfl
  | cons c cs ih =>
    obtain ⟨hc, hcs⟩ := List.forall_mem_cons.mp h
    obtain ⟨hlength, htake, hrest, hentry⟩ := Cell.front hc (cs.flatMap Cell.bytes)
    obtain ⟨hmin, hzero, habs, -⟩ := Cell.field_spec hc
    have hfield : (UInt32.ofNat (number false (beI32 c.field))).toInt32 = c.field := ofBe_beI32 _
    cases fuel with
    | zero => simp at hf
    | succ fuel =>
      rw [List.flatMap_cons, recordsFrom]
      dsimp only
      rw [htake, hfield, habs, if_neg (by omega), if_neg hmin, if_neg hzero, if_neg (by omega), hentry, hrest]
      rw [ih hcs (by simpa using hf)]
      rfl

theorem findSlot_cells (h : ∀ c ∈ cells, c.Ok) {needed : Nat} (hn : needed < 2 ^ 31)
    (hf : cells.length ≤ fuel) (pos : Nat) : (∃ pre n post, cells = pre ++ Cell.hole n :: post ∧ needed ≤ n ∧
        findSlot (.ofNat needed) fuel pos (cells.flatMap Cell.bytes) =
          .ok (.reuse (pos + (pre.flatMap Cell.bytes).length) n)) ∨
      findSlot (.ofNat needed) fuel pos (cells.flatMap Cell.bytes) =
        .ok (.append (pos + (cells.flatMap Cell.bytes).length)) := by
  induction cells generalizing fuel pos with
  | nil => cases fuel <;> exact .inr rfl
  | cons c cs ih =>
    obtain ⟨hc, hcs⟩ := List.forall_mem_cons.mp h
    obtain ⟨hlength, htake, hrest, -⟩ := Cell.front hc (cs.flatMap Cell.bytes)
    obtain ⟨hmin, hzero, habs, hsign⟩ := Cell.field_spec hc
    cases fuel with
    | zero => simp at hf
    | succ fuel =>
      rw [List.flatMap_cons, findSlot]
      dsimp only
      rw [htake, ofBe_beI32, habs, if_neg (by omega), if_neg hmin, asUsize_ofNat hn]
      by_cases hfit : c.field < 0 ∧ needed ≤ c.size
      · rw [if_pos hfit]
        cases c with
        | used e pad => exact absurd (hsign.mp hfit.1) (by simp [Cell.entry])
        | hole n => exact .inl ⟨[], n, cs, rfl, hfit.2, rfl⟩
      · rw [if_neg hfit, if_neg hzero, hrest]
        have hfuel : cs.length ≤ fuel := by simpa using hf
        rcases ih hcs hfuel (pos + 4 + c.size) with ⟨pre, n, post, rfl, hle, heq⟩ | heq
        · refine .inl ⟨c :: pre, n, post, rfl, hle, ?_⟩
          rw [heq, List.flatMap_cons, List.length_append, c.bytes_length]
          congr 2
          omega
        · refine .inr ?_
          rw [heq, List.length_append, c.bytes_length]
          congr 2
          omega

/-! ## Files -/

def layout (cells : List Cell) : Bytes := [5, 2] ++ cells.flatMap Cell.bytes

/-- A file that is a row of cells, or no file, which is as good as none. -/
structure Holds (file : Option Bytes) (cells : List Cell) : Prop where
  data : file.getD [5, 2] = layout cells
  ok : ∀ c ∈ cells, c.Ok

theorem cells_length_le (cells : List Cell) : cells.length ≤ (layout cells).length := by
  unfold layout
  rw [List.length_append]
  induction cells with
  | nil => simp
  | cons c cs ih =>
    rw [List.length_cons, List.flatMap_cons, List.length_append, c.bytes_length]
    omega

theorem ensureWritable_holds (h : Holds file cells) : ensureWritable file = .ok () := by
  cases file with
  | none => rfl
  | some data =>
    obtain rfl : data = layout cells := h.data
    simp [ensureWritable, layout]

theorem records_layout (h : ∀ c ∈ cells, c.Ok) : records (some (layout cells)) = .ok (placed 2 cells) := by
  have hversion : fileVersion (layout cells) = .ok false := by simp [fileVersion, layout]
  unfold records
  dsimp only
  exact recordsFrom_cells h (cells_length_le cells) 2

theorem placed_entries (pos : Nat) (cells : List Cell) :
    (placed pos cells).filterMap (·.2.2) = cells.filterMap Cell.entry := by
  induction cells generalizing pos with
  | nil => rfl
  | cons c cs ih => simp only [placed, List.filterMap_cons, ih]

theorem Holds.none_cells (h : Holds none cells) : cells = [] := by
  cases cells with
  | nil => rfl
  | cons c cs =>
    have := congrArg List.length h.data
    simp [layout, c.bytes_length] at this

theorem entries_holds (h : Holds file cells) : entries file = .ok (cells.filterMap Cell.entry) := by
  cases file with
  | none => rw [h.none_cells]; rfl
  | some data =>
    obtain rfl : data = layout cells := h.data
    unfold entries
    rw [records_layout h.ok]
    exact congrArg Except.ok (placed_entries 2 cells)

theorem layout_replace (pre post : List Cell) (c d : Cell) :
    (layout (pre ++ c :: post)).take (2 + (pre.flatMap Cell.bytes).length) ++ d.bytes ++
        (layout (pre ++ c :: post)).drop (2 + (pre.flatMap Cell.bytes).length + 4 + c.size) =
      layout (pre ++ d :: post) := by
  have hsplit : layout (pre ++ c :: post) = ([5, 2] ++ pre.flatMap Cell.bytes) ++ (c.bytes ++ post.flatMap Cell.bytes) := by
    simp [layout]
  have hpre : ([5, 2] ++ pre.flatMap Cell.bytes).length = 2 + (pre.flatMap Cell.bytes).length := by simp; omega
  rw [hsplit, List.take_left' hpre, Nat.add_assoc (2 + _), ← List.drop_drop, List.drop_left' hpre,
    List.drop_left' c.bytes_length]
  simp [layout, List.append_assoc]

theorem fillSlot_reuse {pre post : List Cell} (hle : (entryBody e).length ≤ n) :
    fillSlot (layout (pre ++ Cell.hole n :: post)) (entryBody e) (.reuse (2 + (pre.flatMap Cell.bytes).length) n) =
      layout (pre ++ Cell.used e (n - (entryBody e).length) :: post) := by
  have h := layout_replace pre post (.hole n) (.used e (n - (entryBody e).length))
  simp only [Cell.bytes, Cell.size, Nat.add_sub_cancel' hle] at h
  rw [← h]
  simp only [fillSlot, List.append_assoc]

theorem fillSlot_append : fillSlot (layout cells) (entryBody e) (.append (2 + (cells.flatMap Cell.bytes).length)) =
      layout (cells ++ [Cell.used e 0]) := by
  have hlen : (layout cells).length = 2 + (cells.flatMap Cell.bytes).length := by simp [layout]; omega
  simp only [fillSlot]
  rw [if_neg (by omega)]
  simp [layout, Cell.bytes]

theorem addEntry_holds (h : Holds file cells) (he : Storable e) :
    ∃ file' cells', addEntry file e = .ok file' ∧ Holds file' cells' ∧
      (cells'.filterMap Cell.entry).Perm (e :: cells.filterMap Cell.entry) := by
  obtain ⟨hpos, hlt⟩ := entryBody_length he
  have hdrop : (layout cells).drop 2 = cells.flatMap Cell.bytes := rfl
  have hused : ∀ e', (some e = some e') → Storable e' := by
    intro e' heq
    cases heq
    exact he
  unfold addEntry
  rw [ensureWritable_holds h]
  dsimp only [bind, Except.bind]
  rw [h.data, hdrop]
  rcases findSlot_cells h.ok hlt (cells_length_le cells) 2 with ⟨pre, n, post, rfl, hle, heq⟩ | heq
  · obtain ⟨hpre, hok⟩ := List.forall_mem_append.mp h.ok
    obtain ⟨hhole, hpost⟩ := List.forall_mem_cons.mp hok
    have hsize : (Cell.used e (n - (entryBody e).length)).size = n := Nat.add_sub_cancel' hle
    rw [heq]
    refine ⟨_, pre ++ Cell.used e (n - (entryBody e).length) :: post, rfl, ⟨fillSlot_reuse hle, ?_⟩, ?_⟩
    · refine List.forall_mem_append.mpr ⟨hpre, List.forall_mem_cons.mpr ⟨⟨?_, ?_, hused⟩, hpost⟩⟩
      · rw [hsize]; exact hhole.pos
      · rw [hsize]; exact hhole.lt
    · simp only [List.filterMap_append, List.filterMap_cons, Cell.entry]
      exact List.perm_middle
  · rw [heq]
    refine ⟨_, cells ++ [Cell.used e 0], rfl, ⟨fillSlot_append, ?_⟩, ?_⟩
    · exact List.forall_mem_append.mpr ⟨h.ok, List.forall_mem_singleton.mpr ⟨hpos, hlt, hused⟩⟩
    · simp only [List.filterMap_append, List.filterMap_cons, List.filterMap_nil, Cell.entry]
      exact List.perm_append_singleton _ _

theorem find_placed (cells : List Cell) (pos : Nat) (entry : KeytabEntry) :
    (∃ pre e pad post, cells = pre ++ Cell.used e pad :: post ∧ sameKey e entry = true ∧
        (placed pos cells).find? (fun r => r.2.2.any (sameKey · entry)) =
          some (pos + (pre.flatMap Cell.bytes).length, (Cell.used e pad).size, some e)) ∨
      (placed pos cells).find? (fun r => r.2.2.any (sameKey · entry)) = none ∧
        ∀ e ∈ cells.filterMap Cell.entry, sameKey e entry = false := by
  induction cells generalizing pos with
  | nil => exact .inr ⟨rfl, by simp⟩
  | cons c cs ih =>
    by_cases hc : c.entry.any (sameKey · entry) = true
    · cases c with
      | hole n => simp [Cell.entry] at hc
      | used e pad =>
        refine .inl ⟨[], e, pad, cs, rfl, by simpa [Cell.entry] using hc, ?_⟩
        exact List.find?_cons_of_pos hc
    · have hstep : (placed pos (c :: cs)).find? (fun r => r.2.2.any (sameKey · entry)) =
          (placed (pos + 4 + c.size) cs).find? (fun r => r.2.2.any (sameKey · entry)) := List.find?_cons_of_neg hc
      rw [hstep]
      rcases ih (pos + 4 + c.size) with ⟨pre, e, pad, post, rfl, hsame, heq⟩ | ⟨heq, hall⟩
      · refine .inl ⟨c :: pre, e, pad, post, rfl, hsame, ?_⟩
        rw [heq, List.flatMap_cons, List.length_append, c.bytes_length]
        congr 2
        omega
      · refine .inr ⟨heq, fun e he => ?_⟩
        obtain ⟨d, hd, hde⟩ := List.mem_filterMap.mp he
        rcases List.mem_cons.mp hd with rfl | hd
        · simpa [hde] using hc
        · exact hall e (List.mem_filterMap.mpr ⟨d, hd, hde⟩)

theorem eraseRecord_layout (pre post : List Cell) (c : Cell) :
    eraseRecord (layout (pre ++ c :: post)) (2 + (pre.flatMap Cell.bytes).length) c.size =
      layout (pre ++ Cell.hole c.size :: post) := by
  rw [← layout_replace pre post c (.hole c.size)]
  simp only [eraseRecord, Cell.bytes, List.append_assoc]

theorem removeEntry_holds (h : Holds file cells) (entry : KeytabEntry) :
    (∃ file' cells' e, removeEntry file entry = .ok file' ∧ Holds file' cells' ∧ sameKey e entry = true ∧
        (cells.filterMap Cell.entry).Perm (e :: cells'.filterMap Cell.entry)) ∨
      (∃ err, removeEntry file entry = .error err) ∧ ∀ e ∈ cells.filterMap Cell.entry, sameKey e entry = false := by
  unfold removeEntry
  rw [ensureWritable_holds h]
  cases file with
  | none =>
    rw [h.none_cells]
    exact .inr ⟨⟨_, rfl⟩, by simp⟩
  | some data =>
    obtain rfl : data = layout cells := h.data
    rcases find_placed cells 2 entry with ⟨pre, e, pad, post, rfl, hsame, heq⟩ | ⟨heq, hall⟩
    · obtain ⟨hpre, hok⟩ := List.forall_mem_append.mp h.ok
      obtain ⟨hused, hpost⟩ := List.forall_mem_cons.mp hok
      refine .inl ⟨some (layout (pre ++ Cell.hole (Cell.used e pad).size :: post)),
        pre ++ Cell.hole (Cell.used e pad).size :: post, e, ?_, ⟨rfl, ?_⟩, hsame, ?_⟩
      · dsimp only [bind, Except.bind, readFile]
        rw [records_layout h.ok]
        dsimp only
        unfold removeRecord
        rw [heq]
        exact congrArg (fun bs => Except.ok (some bs)) (eraseRecord_layout pre post _)
      · exact List.forall_mem_append.mpr ⟨hpre, List.forall_mem_cons.mpr
          ⟨⟨hused.pos, hused.lt, fun e he => by cases he⟩, hpost⟩⟩
      · simp only [List.filterMap_append, List.filterMap_cons, Cell.entry]
        exact List.perm_middle
    · refine .inr ⟨⟨.notFound, ?_⟩, hall⟩
      dsimp only [bind, Except.bind, readFile]
      rw [records_layout h.ok]
      dsimp only
      unfold removeRecord
      rw [heq]

/-! ## Runs -/

def BagStep : KeytabOp → Bool → List KeytabEntry → List KeytabEntry → Prop
  | .add e, success, bag, bag' => success = true ∧ bag' = e :: bag
  | .remove entry, true, bag, bag' => ∃ e, sameKey e entry = true ∧ bag.Perm (e :: bag')
  | .remove entry, false, bag, bag' => (∀ e ∈ bag, sameKey e entry = false) ∧ bag' = bag

inductive BagRun : List KeytabOp → List Bool → List KeytabEntry → List KeytabEntry → Prop
  | nil {bag} : BagRun [] [] bag bag
  | cons {op success ops successes bag bag' bag''} :
    BagStep op success bag bag' → BagRun ops successes bag' bag'' → BagRun (op :: ops) (success :: successes) bag bag''

def Adds (ops : List KeytabOp) : Prop := ∀ e, KeytabOp.add e ∈ ops → Storable e

variable {bag : List KeytabEntry}

theorem bagStep_apply {op : KeytabOp} (h : Holds file cells) (hbag : (cells.filterMap Cell.entry).Perm bag)
    (hop : Adds [op]) : (∃ file' cells' bag', op.apply file = .ok file' ∧ Holds file' cells' ∧
        (cells'.filterMap Cell.entry).Perm bag' ∧ BagStep op true bag bag') ∨
      (∃ err, op.apply file = .error err) ∧ BagStep op false bag bag := by
  cases op with
  | add e =>
    obtain ⟨file', cells', hadd, hholds, hperm⟩ := addEntry_holds h (hop e List.mem_cons_self)
    exact .inl ⟨file', cells', e :: bag, hadd, hholds, hperm.trans (hbag.cons e), rfl, rfl⟩
  | remove entry =>
    rcases removeEntry_holds h entry with ⟨file', cells', e, hremove, hholds, hsame, hperm⟩ | ⟨herr, hall⟩
    · exact .inl ⟨file', cells', _, hremove, hholds, .refl _, e, hsame, hbag.symm.trans hperm⟩
    · exact .inr ⟨herr, fun e he => hall e (hbag.mem_iff.mpr he), rfl⟩

theorem bagRun_runOps {ops : List KeytabOp} (h : Holds file cells)
    (hbag : (cells.filterMap Cell.entry).Perm bag) (hops : Adds ops) :
    ∃ cells' bag', Holds (runOps file ops).1 cells' ∧ (cells'.filterMap Cell.entry).Perm bag' ∧
      BagRun ops (runOps file ops).2 bag bag' := by
  induction ops generalizing file cells bag with
  | nil => exact ⟨cells, bag, h, hbag, .nil⟩
  | cons op ops ih =>
    have htail := fun e he => hops e (List.mem_cons_of_mem _ he)
    have hhead : Adds [op] := fun e he => hops e (List.mem_singleton.mp he ▸ List.mem_cons_self)
    rcases bagStep_apply h hbag hhead with ⟨file', cells₁, bag₁, happly, hholds, hperm, hstep⟩ | ⟨⟨err, happly⟩, hstep⟩
    · obtain ⟨cells', bag', hholds', hperm', hrun⟩ := ih hholds hperm htail
      refine ⟨cells', bag', ?_, hperm', ?_⟩
      · rw [runOps, happly]; exact hholds'
      · rw [runOps, happly]; exact .cons hstep hrun
    · obtain ⟨cells', bag', hholds', hperm', hrun⟩ := ih h hbag htail
      refine ⟨cells', bag', ?_, hperm', ?_⟩
      · rw [runOps, happly]; exact hholds'
      · rw [runOps, happly]; exact .cons hstep hrun

/-- From no file, the entries of the file are those of the bag. -/
theorem keytab_refines_bag {ops : List KeytabOp} (hops : Adds ops) :
    ∃ bag found, BagRun ops (runOps none ops).2 [] bag ∧ entries (runOps none ops).1 = .ok found ∧
      found.Perm bag := by
  have hempty : Holds none [] := ⟨rfl, by simp⟩
  obtain ⟨cells, bag, hholds, hperm, hrun⟩ := bagRun_runOps hempty (.refl _) hops
  exact ⟨bag, _, hrun, entries_holds hholds, hperm⟩

end

section
attribute [local instance] Alphabet.ascii

def fileKey (kvno : UInt32) (key : Bytes) : KeytabEntry :=
  ⟨⟨1, [⟨[102], rfl⟩]⟩, ⟨[89], rfl⟩, 7, kvno, ⟨18, key⟩⟩

theorem fileKey_storable (kvno : UInt32) {key : Bytes} (h : Sized key) : Storable (fileKey kvno key) where
  count := List.cons_ne_nil _ _
  count_lt := Nat.lt_of_sub_pos (Nat.zero_lt_succ _)
  realm := ⟨List.cons_ne_nil _ _, by simp [fileKey]⟩
  components := List.forall_mem_singleton.mpr ⟨List.cons_ne_nil _ _, by simp [GeneralString.bytes]⟩
  keytype := (by decide : -2 ^ 15 ≤ (18 : Int32).toInt ∧ (18 : Int32).toInt < 2 ^ 15)
  key := h

/-- The third call writes into the hole the second leaves. -/
theorem fileKey_reused :
    entries (runOps none [.add (fileKey 256 [1, 2]), .remove (fileKey 256 []), .add (fileKey 300 [9])]).1 =
        .ok [fileKey 300 [9]] ∧
      ∃ bag found,
        BagRun [.add (fileKey 256 [1, 2]), .remove (fileKey 256 []), .add (fileKey 300 [9])]
          (runOps none [.add (fileKey 256 [1, 2]), .remove (fileKey 256 []), .add (fileKey 300 [9])]).2 [] bag ∧
        entries (runOps none [.add (fileKey 256 [1, 2]), .remove (fileKey 256 []), .add (fileKey 300 [9])]).1 =
          .ok found ∧
        found.Perm bag := by
  refine ⟨by decide +kernel, keytab_refines_bag fun e he => ?_⟩
  simp only [List.mem_cons, KeytabOp.add.injEq, reduceCtorEq, List.not_mem_nil, or_false, false_or] at he
  rcases he with rfl | rfl
  · exact fileKey_storable 256 ⟨List.cons_ne_nil _ _, by decide⟩
  · exact fileKey_storable 300 ⟨List.cons_ne_nil _ _, by decide⟩

end

end Keytab

end Krb5Rs
