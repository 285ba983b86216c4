import Krb5Rs.UlogSound

/-!
# Update logs that make a server panic

Every field of the header is checked where it is used but one: no one checks
that a block holds an entry's header. `get_entries` decodes one from whatever a
block holds, so a log with shorter blocks that passes `check_on_map` panics as soon
as there is an entry to return. The sizes of an update near 4 GiB overflow. Nothing
else panics, and no operation makes a block too short.
-/

namespace Krb5Rs

open Wire (Bytes bind_eq_ok)

namespace Ulog

open Iprop (Update)

/-! ## Reading entries -/

variable {f : Bytes} {u : Ulog} {upd : Update} {h : Header} {w : World} {recsize : Nat} {now : Time}

theorem readEntry_panics {block : UInt16} {index : Nat} :
    readEntry f block index = .error .panicked ↔ block.toNat < entryDataOffset := by
  unfold readEntry
  dsimp only
  by_cases hshort : block.toNat < entryDataOffset
  · rw [if_pos hshort]
    exact iff_of_true rfl hshort
  rw [if_neg hshort]
  refine iff_of_false ?_ hshort
  split
  · exact fun h => by cases h
  · exact fun h => by cases h

theorem lift_ne_panicked {α : Type} (x : Except StoreError α) : lift x ≠ .error .panicked := by
  cases x with
  | ok a => exact fun h => by cases h
  | error e => exact fun h => by cases h

theorem bind_panics {α β : Type} {x : Except Fault α} {g : α → Except Fault β} :
    (x >>= g) = .error .panicked ↔ x = .error .panicked ∨ ∃ a, x = .ok a ∧ g a = .error .panicked := by
  cases x with
  | error e =>
    constructor
    · intro h
      cases h
      exact .inl rfl
    · rintro (h | ⟨a, ha, -⟩)
      · cases h
        rfl
      · cases ha
  | ok a =>
    constructor
    · exact fun h => .inr ⟨a, rfl, h⟩
    · rintro (h | ⟨b, hb, h⟩)
      · cases h
      · cases hb
        exact h

theorem readUpdate_panics (u : Ulog) (f : Bytes) (block : UInt16) (sno : Nat) :
    u.readUpdate f block sno = .error .panicked ↔ block.toNat < entryDataOffset := by
  unfold readUpdate
  rw [bind_panics, readEntry_panics]
  refine or_iff_left ?_
  rintro ⟨⟨ent, data⟩, -, h⟩
  rcases bind_panics.mp h with hlift | ⟨upd, -, h⟩
  · exact lift_ne_panicked _ hlift
  · cases h

theorem mapM_panics {α β : Type} {g : α → Except Fault β} {p : Prop} (hg : ∀ a, g a = .error .panicked ↔ p)
    (l : List α) : l.mapM g = .error .panicked ↔ l ≠ [] ∧ p := by
  induction l with
  | nil => exact iff_of_false (fun h => by cases h) fun h => h.1 rfl
  | cons a l ih =>
    rw [List.mapM_cons, bind_panics, hg a]
    constructor
    · rintro (hp | ⟨b, -, h⟩)
      · exact ⟨List.cons_ne_nil a l, hp⟩
      · rcases bind_panics.mp h with hl | ⟨bs, -, h⟩
        · exact ⟨List.cons_ne_nil a l, (ih.mp hl).2⟩
        · cases h
    · exact fun h => .inl h.2

/-- The header is taken as it is, its blocks hold no entry header, and there is an entry to return. -/
def ShortBlock (u : Ulog) (f : Bytes) (last : Last) : Prop :=
  (readHeader f).state = kdbStable ∧ (readHeader f).block.toNat < entryDataOffset ∧
    u.getSnoStatus f last = .ok ∧ last.sno < (readHeader f).lastSno

instance (u : Ulog) (f : Bytes) (last : Last) : Decidable (ShortBlock u f last) := instDecidableAnd

theorem getEntries_panics {last : Last} : (u.getEntries f last now).1 = .error .panicked ↔ ShortBlock u f last := by
  -- a log left unstable is reset, and a reset log has blocks of 2048 bytes
  have hreset : ∀ g h, u.resetIf ((readHeader f).state ≠ kdbStable) f (readHeader f) now = (g, h) →
      (u.snoStatus g h last = .ok ∧ last.sno < h.lastSno ∧ h.block.toNat < entryDataOffset ↔ ShortBlock u f last) := by
    intro g h heq
    by_cases hstable : (readHeader f).state = kdbStable
    · rw [resetIf, if_neg (by simp [hstable])] at heq
      obtain ⟨rfl, rfl⟩ := Prod.mk.inj heq
      constructor
      · rintro ⟨hstatus, hlt, hshort⟩
        exact ⟨hstable, hshort, hstatus, hlt⟩
      · rintro ⟨-, hshort, hstatus, hlt⟩
        exact ⟨hstatus, hlt, hshort⟩
    · rw [resetIf, if_pos (by simp [hstable])] at heq
      have hblock : h.block = ulogBlock := by
        rw [show h = (u.reset f now).2 from (congrArg Prod.snd heq).symm]
        rfl
      refine iff_of_false ?_ fun hshort => hstable hshort.1
      rintro ⟨-, -, hshort⟩
      rw [hblock] at hshort
      exact absurd hshort (by decide)
  unfold getEntries
  dsimp only
  cases heq : u.resetIf ((readHeader f).state ≠ kdbStable) f (readHeader f) now with
  | mk g h =>
    rw [← hreset g h heq]
    cases hstatus : u.snoStatus g h last with
    | ok =>
      have hread := mapM_panics (readUpdate_panics u g h.block)
        ((List.range (h.lastSno.toNat - last.sno.toNat)).map (last.sno.toNat + ·))
      have hlt : last.sno < h.lastSno ↔
          (List.range (h.lastSno.toNat - last.sno.toNat)).map (last.sno.toNat + ·) ≠ [] := by
        rw [UInt32.lt_iff_toNat_lt, ne_eq, List.map_eq_nil_iff, List.range_eq_nil]
        omega
      rw [hlt, and_iff_right rfl, ← hread]
      cases (((List.range (h.lastSno.toNat - last.sno.toNat)).map (last.sno.toNat + ·)).mapM
          (u.readUpdate g h.block)) with
      | ok updates => exact iff_of_false (fun h => by cases h) fun h => by cases h
      | error e => simp
    | error | fullResyncNeeded | busy | nil | permDenied =>
      exact iff_of_false (fun h => by cases h) fun h => by cases h.1

/-! ## Storing updates -/

/-- The record's size, or the block it needs, passes 32 bits. -/
def Overflows (upd : Update) : Prop :=
  ∃ data, upd.encode = .ok data ∧ data.length < 2 ^ 32 ∧ 2 ^ 32 ≤ entryHeaderSize + data.length + ulogBlock.toNat

theorem blockFor_panics : u.blockFor recsize upd = .error .panicked ↔ 2 ^ 32 ≤ recsize + ulogBlock.toNat := by
  have hiff : 2 ^ 32 ≤ (recsize / ulogBlock.toNat + 1) * ulogBlock.toNat ↔ 2 ^ 32 ≤ recsize + ulogBlock.toNat := by
    rw [show ulogBlock.toNat = 2048 from rfl]
    omega
  unfold blockFor
  dsimp only
  rw [← hiff]
  split
  case isTrue hover => exact iff_of_true rfl hover
  case isFalse hfits =>
    refine iff_of_false ?_ hfits
    split
    · exact fun h => by cases h
    · split
      · exact fun h => by cases h
      · exact fun h => by cases h

theorem grow_panics : u.grow f h recsize upd = .error .panicked ↔ 2 ^ 32 ≤ recsize + ulogBlock.toNat := by
  unfold grow
  split
  case isTrue hlarge =>
    unfold resize
    rw [bind_panics, blockFor_panics]
    refine or_iff_left ?_
    rintro ⟨block, hblock, hrest⟩
    rcases bind_panics.mp hrest with hextend | ⟨g, -, hmove⟩
    · unfold extendTo at hextend
      split at hextend <;> cases hextend
    · have hlt := (blockFor_size hblock).1
      rw [if_neg (by rw [UInt16.lt_iff_toNat_lt]; omega)] at hmove
      cases hmove
  case isFalse hsmall =>
    have hblock := h.block.toNat_lt
    rw [show ulogBlock.toNat = 2048 from rfl]
    exact iff_of_false (fun h => by cases h) (by omega)

theorem encoded_panics {β : Type} {store : Bytes → Except Fault β} (hstore : ∀ data : Bytes, entryHeaderSize + data.length < 2 ^ 32 →
      (store data = .error .panicked ↔ 2 ^ 32 ≤ entryHeaderSize + data.length + ulogBlock.toNat)) :
    (lift upd.encode >>= fun data =>
        if 2 ^ 32 ≤ data.length then .error (.error (.backend "ulog update too large"))
        else if 2 ^ 32 ≤ entryHeaderSize + data.length then .error .panicked
        else store data) = .error .panicked ↔ Overflows upd := by
  rw [bind_panics, or_iff_right (lift_ne_panicked _)]
  refine exists_congr fun data => ?_
  rw [lift_eq_ok]
  refine and_congr_right fun _ => ?_
  split
  case isTrue htoo => exact iff_of_false (fun h => by cases h) (by omega)
  case isFalse hfits =>
    rw [and_iff_right (Nat.lt_of_not_le hfits)]
    split
    case isTrue hover => exact iff_of_true rfl (by omega)
    case isFalse hsum => exact hstore data (Nat.lt_of_not_le hsum)

theorem storeUpdate_panics : u.storeUpdate f h upd = .error .panicked ↔ Overflows upd := by
  refine encoded_panics fun data _ => ?_
  rw [bind_panics, grow_panics]
  refine or_iff_left ?_
  rintro ⟨⟨g, h⟩, -, hput⟩
  cases hput

theorem checkFits_panics : u.checkFits f upd = .error .panicked ↔ Overflows upd := by
  refine encoded_panics fun data _ => ?_
  split
  case isTrue =>
    rw [bind_panics, blockFor_panics]
    refine or_iff_left ?_
    rintro ⟨block, -, hok⟩
    cases hok
  case isFalse hsmall =>
    have hblock : ulogBlock.toNat = 2048 := rfl
    have hlt := (readHeader f).block.toNat_lt
    exact iff_of_false (fun h => by cases h) (by omega)

theorem encode_stamp {data : Bytes} (sno : UInt32) (time : Time) (h : upd.encode = .ok data) :
    ∃ data', ({ upd with sno, time } : Update).encode = .ok data' ∧ data'.length = data.length := by
  obtain ⟨princName, hprinc, h⟩ := bind_eq_ok.mp h
  obtain ⟨values, hvalues, h⟩ := bind_eq_ok.mp h
  obtain ⟨kdcsSeenBy, hseen, h⟩ := bind_eq_ok.mp h
  obtain ⟨futures, hfutures, h⟩ := bind_eq_ok.mp h
  cases h
  refine ⟨_, bind_eq_ok.mpr ⟨_, hprinc, bind_eq_ok.mpr ⟨_, hvalues, bind_eq_ok.mpr ⟨_, hseen,
    bind_eq_ok.mpr ⟨_, hfutures, rfl⟩⟩⟩⟩, ?_⟩
  simp only [List.length_append, Iprop.putTime, Iprop.putU32_length]

theorem overflows_stamp (sno : UInt32) (time : Time) : Overflows { upd with sno, time } ↔ Overflows upd := by
  constructor
  · rintro ⟨data, hdata, hsize⟩
    obtain ⟨data', hdata', hlen⟩ := encode_stamp upd.sno upd.time hdata
    exact ⟨data', hdata', hlen ▸ hsize⟩
  · rintro ⟨data, hdata, hsize⟩
    obtain ⟨data', hdata', hlen⟩ := encode_stamp sno time hdata
    exact ⟨data', hdata', hlen ▸ hsize⟩

theorem append_panics (u : Ulog) (f : Bytes) (h : Header) (upd : Update) :
    (u.append f h upd).1 = .error .panicked ↔ Overflows upd := by
  have hstore : u.storeUpdate f h upd = .error .panicked ↔ Overflows upd := storeUpdate_panics
  rw [← hstore, append]
  cases u.storeUpdate f h upd with
  | ok g => exact iff_of_false (fun h => by cases h) fun h => by cases h
  | error e => simp

theorem addUpdate_panics : (u.addUpdate f upd now).1 = .error .panicked ↔ Overflows upd := by
  unfold addUpdate
  dsimp only
  cases u.resetIf ((readHeader f).lastSno = 4294967295) f (readHeader f) now with
  | mk g h => exact (append_panics u g h _).trans (overflows_stamp _ _)

/-! ## Mapping -/

theorem checkOnMap_eq (u : Ulog) (path : String) (f : Bytes) (now : Time) :
    (∃ e, u.checkOnMap path f now = (.error (.error e), f)) ∨
      ∃ c c' r size, u.checkOnMap path f now =
          (r, ZeroFile.extend (u.resetIf c' (u.resetIf c f (readHeader f) now).1
            (u.resetIf c f (readHeader f) now).2 now).1 size) ∧
        r ≠ .error .panicked := by
  unfold checkOnMap
  dsimp only
  split
  case isTrue => exact .inl ⟨_, rfl⟩
  case isFalse =>
    refine .inr ⟨(readHeader f).hmagic ≠ hdrMagic, ?_⟩
    generalize u.resetIf ((readHeader f).hmagic ≠ hdrMagic) f (readHeader f) now = first
    refine ⟨u.mismatched first.1 first.2, ?_⟩
    obtain ⟨r, size, heq, hr⟩ := lengthen_cases u (u.resetIf (u.mismatched first.1 first.2) first.1 first.2 now).1
      (u.resetIf (u.mismatched first.1 first.2) first.1 first.2 now).2
    exact ⟨r, size, heq, hr⟩

theorem map_ne_panicked (path : String) (file : Option Bytes) (entries : UInt32) (now : Time) :
    (map path file entries now).1 ≠ .error .panicked := by
  by_cases hpos : 0 < entries.toNat
  · rcases map_eq path file hpos now with ⟨f, -, heq⟩ | ⟨-, e, heq⟩
    · rw [heq]
      rcases checkOnMap_eq ⟨entries, hpos⟩ path f now with ⟨e, hcheck⟩ | ⟨c, c', r, size, hcheck, hr⟩
      · rw [hcheck]
        exact fun h => by cases h
      rw [hcheck]
      cases r with
      | ok => exact fun h => by cases h
      | error e =>
        intro h
        cases h
        exact hr rfl
    · rw [heq]
      exact fun h => by cases h
  · unfold map
    rw [dif_neg hpos]
    exact fun h => by cases h

/-- Whatever a log holds, one operation on it panics only for blocks that hold no entry header, or for
an update near 4 GiB. -/
theorem no_panic_iff (path : String) (entries : UInt32) (u : Ulog) (f : Bytes) (last : Last) (upd : Update)
    (now : Time) : ((map path (some f) entries now).1 ≠ .error .panicked ∧ getLast f ≠ .error .panicked ∧
        (u.getEntries f last now).1 ≠ .error .panicked ∧ u.checkFits f upd ≠ .error .panicked ∧
        (u.addUpdate f upd now).1 ≠ .error .panicked) ↔
      ¬ ShortBlock u f last ∧ ¬ Overflows upd := by
  rw [ne_eq, ne_eq (u.getEntries f last now).1, getEntries_panics, ne_eq (u.checkFits f upd), checkFits_panics,
    ne_eq (u.addUpdate f upd now).1, addUpdate_panics]
  constructor
  · rintro ⟨-, -, hshort, hover, -⟩
    exact ⟨hshort, hover⟩
  · rintro ⟨hshort, hover⟩
    exact ⟨map_ne_panicked path (some f) entries now, fun h => (by cases h), hshort, hover, hover⟩

/-! ## Runs -/

/-- A header taken as it is has blocks for an entry header. -/
def Roomy (f : Bytes) : Prop := (readHeader f).state = kdbStable → entryDataOffset ≤ (readHeader f).block.toNat

theorem roomy_of_header {g : Bytes} (hf : Roomy f) (hstate : (readHeader g).state = (readHeader f).state)
    (hblock : (readHeader g).block = (readHeader f).block) : Roomy g := by
  intro hstable
  rw [hblock]
  exact hf (hstate ▸ hstable)

theorem roomy_reset (u : Ulog) (f : Bytes) (now : Time) : Roomy (u.reset f now).1 := by
  intro _
  rw [readHeader_reset]
  show 24 ≤ ulogBlock.toNat
  decide

theorem roomy_resetIf (c : Bool) (now : Time) (hf : Roomy f) : Roomy (u.resetIf c f h now).1 := by
  cases c with
  | true => exact roomy_reset u f now
  | false => exact hf

theorem roomy_setLast (last : Last) (hf : Roomy f) : Roomy (u.setLast f last) := by
  refine roomy_of_header hf ?_ ?_ <;> rw [setLast, readHeader_writeHeader] <;> rfl

theorem roomy_extend (size : Nat) (hf : Roomy f) : Roomy (ZeroFile.extend f size) :=
  roomy_of_header hf (by rw [readHeader_extend]) (by rw [readHeader_extend])

theorem advance_block (u : Ulog) (f : Bytes) (h : Header) (upd : Update) : (u.advance f h upd).block = h.block := by
  unfold advance
  dsimp only
  split
  · rfl
  · split <;> rfl

theorem roomy_append (hf : Roomy f) : Roomy (u.append f h upd).2 := by
  rw [append]
  cases hstore : u.storeUpdate f h upd with
  | error e => exact hf
  | ok g =>
    obtain ⟨data, block, hstored⟩ := storeUpdate_ok hstore
    intro _
    have hblock : (readHeader g).block = block := by
      rw [hstored.header]
      exact advance_block u g { h with block := block } upd
    rw [hblock]
    exact Nat.le_of_add_right_le hstored.holds.fits

theorem roomy_getEntries (u : Ulog) (last : Last) (now : Time) (hf : Roomy f) : Roomy (u.getEntries f last now).2 := by
  have hreset := roomy_resetIf (u := u) (h := readHeader f) ((readHeader f).state ≠ kdbStable) now hf
  unfold getEntries
  dsimp only
  split
  · split
    · exact hreset
    · exact hreset
  · exact hreset

theorem roomy_map (path : String) {file : Option Bytes} (entries : UInt32) (now : Time)
    (hfile : ∀ f ∈ file, Roomy f) : ∀ f ∈ (map path file entries now).2, Roomy f := by
  have hzero : ∀ size, Roomy (ZeroFile.extend [] size) := by
    intro size hstable
    rw [readHeader_extend] at hstable
    exact absurd hstable (by decide)
  by_cases hpos : 0 < entries.toNat
  · rcases map_eq path file hpos now with ⟨f, hf, heq⟩ | ⟨-, e, heq⟩
    · have hroomy : Roomy f := by
        rcases hf with hf | ⟨-, size, rfl⟩
        · exact hfile f hf
        · exact hzero size
      rw [heq]
      rintro g hg
      cases hg
      rcases checkOnMap_eq ⟨entries, hpos⟩ path f now with ⟨e, hcheck⟩ | ⟨c, c', r, size, hcheck, -⟩
      · rw [hcheck]
        exact hroomy
      · rw [hcheck]
        exact roomy_extend size (roomy_resetIf c' now (roomy_resetIf c now hroomy))
    · rw [heq]
      rintro g hg
      cases hg
      exact hzero 0
  · unfold map
    rw [dif_neg hpos]
    exact hfile

def World.Roomy (w : World) : Prop := ∀ f ∈ w.file, Ulog.Roomy f

theorem roomy_file (h : w.file = some f) (hf : Ulog.Roomy f) : w.Roomy :=
  fun _ hg => Option.some.inj (h.symm.trans hg) ▸ hf

/-- The update of an operation is far from 4 GiB. -/
def Op.Small : Op → Prop
  | .addUpdate upd _ => ¬ Overflows upd
  | .storeReplayed upd _ => ¬ Overflows upd
  | _ => True

theorem withLog_total {op : Ulog → Bytes → Option World} (hw : w.Roomy)
    (hop : ∀ u f, Ulog.Roomy f → ∃ w', op u f = some w' ∧ w'.Roomy) : ∃ w', w.withLog op = some w' ∧ w'.Roomy := by
  unfold World.withLog
  split
  case h_1 u f _ hfile => exact hop u f (hw f hfile)
  case h_2 => exact ⟨w, rfl, hw⟩

theorem appended_total {r : Except Fault Update × Bytes} (hr : r.1 ≠ .error .panicked)
    (hroomy : Ulog.Roomy r.2) : ∃ w', w.appended r = some w' ∧ w'.Roomy := by
  obtain ⟨r, f⟩ := r
  cases r with
  | ok upd => exact ⟨_, rfl, roomy_file rfl hroomy⟩
  | error e =>
    cases e with
    | panicked => exact absurd rfl hr
    | error e => exact ⟨_, rfl, roomy_file rfl hroomy⟩

theorem step_total {op : Op} (hw : w.Roomy) (hop : op.Small) : ∃ w', step w op = some w' ∧ w'.Roomy := by
  cases op with
  | map path entries now =>
    have hpanic := map_ne_panicked path w.file entries now
    have hfile := roomy_map path entries now hw
    cases hmap : map path w.file entries now with
    | mk r file =>
      rw [hmap] at hpanic hfile
      rw [step, hmap]
      cases r with
      | ok u => exact ⟨_, rfl, hfile⟩
      | error e =>
        cases e with
        | panicked => exact absurd rfl hpanic
        | error e => exact ⟨_, rfl, hfile⟩
  | reset now => exact withLog_total hw fun u f _ => ⟨_, rfl, roomy_file rfl (roomy_reset u f now)⟩
  | setLast last => exact withLog_total hw fun u f hf => ⟨_, rfl, roomy_file rfl (roomy_setLast last hf)⟩
  | addUpdate upd now =>
    exact withLog_total hw fun u f hf => appended_total (fun h => hop (addUpdate_panics.mp h))
      (roomy_append (roomy_resetIf _ now hf))
  | storeReplayed upd now =>
    exact withLog_total hw fun u f hf => appended_total (fun h => hop ((append_panics u _ _ upd).mp h))
      (roomy_append (roomy_resetIf _ now hf))
  | getEntries last now =>
    refine withLog_total hw fun u f hf => ?_
    have hpanic : (u.getEntries f last now).1 ≠ .error .panicked := by
      intro hpanic
      obtain ⟨hstable, hshort, -⟩ := getEntries_panics.mp hpanic
      exact absurd (hf hstable) (Nat.not_le.mpr hshort)
    have hfile := roomy_getEntries u last now hf
    cases hget : u.getEntries f last now with
    | mk r g =>
      rw [hget] at hpanic hfile
      cases r with
      | ok answer => exact ⟨_, rfl, roomy_file rfl hfile⟩
      | error e =>
        cases e with
        | panicked => exact absurd rfl hpanic
        | error e => exact ⟨_, rfl, roomy_file rfl hfile⟩

theorem run_total (ops : List Op) (hw : w.Roomy) (hops : ∀ op ∈ ops, op.Small) :
    ∃ w', run w ops = some w' ∧ w'.Roomy := by
  induction ops generalizing w with
  | nil => exact ⟨w, rfl, hw⟩
  | cons op ops ih =>
    obtain ⟨w₁, hstep, hw₁⟩ := step_total hw (hops op List.mem_cons_self)
    rw [run, hstep]
    exact ih hw₁ fun op hop => hops op (List.mem_cons_of_mem _ hop)

theorem run_total_update : ∃ w, run World.init [.map "ulog" 3 ⟨10, 0⟩, .addUpdate (bareUpdate 65 0 0 false) ⟨11, 0⟩] =
    some w ∧ w.Roomy := by
  refine run_total _ (fun f hf => nomatch hf) (List.forall_mem_cons.mpr ⟨trivial, List.forall_mem_singleton.mpr ?_⟩)
  rintro ⟨data, hdata, -, hlong⟩
  have hlen : (bareUpdate 65 0 0 false).encode.toOption.all (·.length < 2 ^ 31) = true := by decide +kernel
  rw [hdata] at hlen
  have hshort : data.length < 2 ^ 31 := of_decide_eq_true hlen
  rw [show ulogBlock.toNat = 2048 from rfl, entryHeaderSize] at hlong
  omega

/-- Two entries in blocks of twelve bytes, with the second header over the end of the first. -/
def overlappedLog : Bytes :=
  Header.encode
    { hmagic := hdrMagic, dbVersionNum := kdbVersion, num := 2, firstTime := ⟨0, 0⟩, lastTime := ⟨0, 0⟩,
      firstSno := 1, lastSno := 2, state := kdbStable, block := 12 } ++
    [0, 0, 0, 0, 1, 0, 0, 0, 0, 0, 0, 0, 0, 0, 0, 0, 2, 0, 0, 0, 0, 0, 0, 0, 0, 0, 0, 0]

/-- The log is mapped as it is, and panics for a replica that has the first entry. -/
theorem overlappedLog_panics :
    ((run ⟨some overlappedLog, none, []⟩ [.map "ulog" 2 ⟨9, 0⟩]).bind (·.file)) = some overlappedLog ∧
      (run ⟨some overlappedLog, none, []⟩ [.map "ulog" 2 ⟨9, 0⟩, .getEntries ⟨1, ⟨0, 0⟩⟩ ⟨9, 0⟩]).isNone := by
  decide +kernel

end Ulog

end Krb5Rs
