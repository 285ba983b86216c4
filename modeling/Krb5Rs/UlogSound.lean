import Krb5Rs.Ulog
import Krb5Rs.UlogXdrSound

/-!
# The update log serves what was logged

The invariant of the log: the serial numbers after the header's first one, up
to its last one, are each in their slot with the update stored under them. It
holds along every run whose replayed updates follow the last one.
-/

namespace Krb5Rs

open Wire (Bytes)
open ZeroFile (read write extend read_write_of_disjoint read_write_self byteAt byteAt_read read_add read_extend read_length)

namespace Ulog

open Iprop (Update)

/-! ## Headers read back -/

variable {i j n recsize e : Nat} {block old new : UInt16} {f f' data : Bytes} {upd : Update} {hdr hdr' : Header} {u : Ulog}
  {w w' : World} {stored : List Update} {entries : UInt32}

theorem neU32_skip (a r : Bytes) (h : a.length ≤ i) : neU32 (a ++ r) i = neU32 r (i - a.length) := by
  simp [neU32, List.drop_append, List.drop_eq_nil_of_le h]

theorem neU16_skip (a r : Bytes) (h : a.length ≤ i) : neU16 (a ++ r) i = neU16 r (i - a.length) := by
  simp [neU16, List.drop_append, List.drop_eq_nil_of_le h]

theorem neU32_le (v : UInt32) (r : Bytes) : neU32 (Wire.le 4 v.toNat ++ r) 0 = v := by
  have hlt := v.toNat_lt
  simp [neU32, Wire.ofLe_le 4 _ hlt]

theorem neU16_le (v : UInt16) (r : Bytes) : neU16 (Wire.le 2 v.toNat ++ r) 0 = v := by
  have hlt := v.toNat_lt
  simp [neU16, Wire.ofLe_le 2 _ hlt]

@[simp] theorem Header.encode_length (h : Header) : h.encode.length = headerSize := by
  simp [Header.encode, headerSize]

@[simp] theorem EntryHeader.encode_length (h : EntryHeader) : h.encode.length = entryDataOffset := by
  simp [EntryHeader.encode, entryDataOffset]

theorem Header.decode_encode (h : Header) : Header.decode h.encode = h := by
  have hlast := neU16_le h.block []
  rw [List.append_nil] at hlast
  unfold Header.decode Header.encode
  simp only [List.append_assoc]
  simp (disch := simp) only [neU32_skip, neU16_skip, neU32_le, neU16_le, Wire.le_length,
    List.length_cons, List.length_nil, Nat.reduceSub, Nat.reduceAdd, hlast]

theorem EntryHeader.decode_encode (h : EntryHeader) (r : Bytes) : EntryHeader.decode (h.encode ++ r) = h := by
  have hcommit : ∀ r, neU32 (Wire.le 4 (if h.commit then 1 else 0) ++ r) 0 = if h.commit then 1 else 0 := by
    intro r
    cases h.commit
    · exact neU32_le 0 r
    · exact neU32_le 1 r
  unfold EntryHeader.decode EntryHeader.encode
  simp only [List.append_assoc]
  simp (disch := simp) only [neU32_skip, neU32_le, Wire.le_length, Nat.reduceSub, hcommit]
  obtain ⟨um, sno, time, commit, size⟩ := h
  cases commit <;> rfl

/-! ## Where things are in the file -/

@[simp] theorem readHeader_writeHeader (f : Bytes) (h : Header) : readHeader (writeHeader f h) = h := by
  have := read_write_self f h.encode 0
  rw [Header.encode_length] at this
  rw [readHeader, writeHeader, this, Header.decode_encode]

@[simp] theorem readHeader_extend (f : Bytes) (size : Nat) : readHeader (extend f size) = readHeader f := by
  simp [readHeader]

theorem read_writeHeader (f : Bytes) (h : Header) (n i : Nat) (block : UInt16) :
    read (writeHeader f h) n (entryOffset i block) = read f n (entryOffset i block) := by
  apply read_write_of_disjoint
  simp [entryOffset]

theorem entryOffset_succ (i : Nat) (block : UInt16) :
    entryOffset (i + 1) block = entryOffset i block + block.toNat := by
  simp only [entryOffset, Nat.succ_mul]
  omega

theorem entryOffset_mono (block : UInt16) (h : i ≤ j) : entryOffset i block ≤ entryOffset j block := by
  have := Nat.mul_le_mul_right block.toNat h
  simp only [entryOffset]
  omega

theorem read_write_slot (f d : Bytes) (hij : i ≠ j) (hn : n ≤ block.toNat) (hd : d.length ≤ block.toNat) :
    read (write f d (entryOffset j block)) n (entryOffset i block) = read f n (entryOffset i block) := by
  apply read_write_of_disjoint
  rcases Nat.lt_or_gt_of_ne hij with hlt | hgt
  · have := entryOffset_mono block (Nat.succ_le_of_lt hlt)
    rw [entryOffset_succ] at this
    omega
  · have := entryOffset_mono block (Nat.succ_le_of_lt hgt)
    rw [entryOffset_succ] at this
    omega

/-! ## Slots -/

structure Holds (f : Bytes) (block : UInt16) (i : Nat) (upd : Update) (data : Bytes) : Prop where
  encode : upd.encode = .ok data
  size : data.length < 2 ^ 32
  fits : entryDataOffset + data.length ≤ block.toNat
  bytes : read f (entryDataOffset + data.length) (entryOffset i block) =
    (entryOf upd data.length true).encode ++ data

theorem Holds.frame {g : Bytes} {block' : UInt16} (h : Holds f block i upd data) (hb : block.toNat ≤ block'.toNat)
    (hr : ∀ n ≤ block.toNat, read g n (entryOffset i block') = read f n (entryOffset i block)) :
    Holds g block' i upd data :=
  ⟨h.encode, h.size, Nat.le_trans h.fits hb, (hr _ h.fits).trans h.bytes⟩

theorem Holds.entryHeader (h : Holds f hdr.block i upd data) : entryHeader f hdr i = entryOf upd data.length true := by
  have := ZeroFile.read_take f (entryOffset i hdr.block)
    (Nat.le_add_right entryDataOffset data.length)
  rw [h.bytes] at this
  have hdec := EntryHeader.decode_encode (entryOf upd data.length true) []
  rw [List.append_nil] at hdec
  rw [Ulog.entryHeader, ← this, List.take_left' (by simp), hdec]

theorem Holds.readEntry (h : Holds f block i upd data) :
    readEntry f block i = .ok (entryOf upd data.length true, data) := by
  obtain ⟨k, hk⟩ := Nat.exists_eq_add_of_le h.fits
  have hb : read f block.toNat (entryOffset i block) =
      (entryOf upd data.length true).encode ++ (data ++ read f k (entryOffset i block +
        (entryDataOffset + data.length))) := by
    rw [hk, read_add, h.bytes, List.append_assoc]
  have hsize : (entryOf upd data.length true).entrySize.toNat = data.length :=
    UInt32.toNat_ofNat_of_lt' h.size
  have hge : ¬ block.toNat < entryDataOffset := by have := h.fits; omega
  unfold Ulog.readEntry
  rw [hb]
  simp only [if_neg hge, EntryHeader.decode_encode, hsize]
  rw [if_pos (by simp; omega), ← List.append_assoc, List.take_left' (by simp; omega),
    List.drop_left' (by simp)]

theorem Holds.readUpdate {sno : Nat} (h : Holds f block (sno % u.entries.toNat) upd data)
    (hd : upd.Distinct) : u.readUpdate f block sno = .ok { upd with commit := true } := by
  unfold Ulog.readUpdate
  rw [h.readEntry]
  simp [bind, Except.bind, Iprop.decode_encode hd h.encode, lift, entryOf]

/-! ## Growing the blocks -/

theorem byteAt_moveSlot (old new : UInt16) (f : Bytes) (i x : Nat) (h : old ≤ new) :
    byteAt (moveSlot old new f i) x =
      if entryOffset i new ≤ x ∧ x < entryOffset (i + 1) new then
        if x - entryOffset i new < old.toNat then
          byteAt f (entryOffset i old + (x - entryOffset i new))
        else 0
      else byteAt f x := by
  have hle : old.toNat ≤ new.toNat := h
  unfold moveSlot
  rw [ZeroFile.byteAt_write, entryOffset_succ]
  have hlen : (read f old.toNat (entryOffset i old) ++
      List.replicate (new.toNat - old.toNat) 0).length = new.toNat := by
    simp; omega
  rw [hlen]
  by_cases hx : entryOffset i new ≤ x ∧ x < entryOffset i new + new.toNat
  · rw [if_pos hx, if_pos hx, ZeroFile.byteAt_append_zeros]
    by_cases ho : x - entryOffset i new < old.toNat
    · rw [if_pos ho, byteAt_read _ _ ho]
    · rw [if_neg ho, byteAt, List.getElem?_eq_none (by simpa using ho)]
      rfl
  · rw [if_neg hx, if_neg hx]

theorem entryOffset_le (i : Nat) (h : old ≤ new) : entryOffset i old ≤ entryOffset i new := by
  have := Nat.mul_le_mul_left i (show old.toNat ≤ new.toNat from h)
  simp only [entryOffset]
  omega

/-- Moving the slots from the last to the first: bytes outside the new slots stay, and each new
slot starts with the bytes of the old one. -/
theorem byteAt_moveSlots (old new : UInt16) (h : old ≤ new) (n : Nat) : ∀ f : Bytes,
      (∀ x, x < headerSize ∨ entryOffset n new ≤ x →
        byteAt ((List.range n).reverse.foldl (moveSlot old new) f) x = byteAt f x) ∧
      ∀ i < n, ∀ o < new.toNat,
        byteAt ((List.range n).reverse.foldl (moveSlot old new) f) (entryOffset i new + o) =
          if o < old.toNat then byteAt f (entryOffset i old + o) else 0 := by
  induction n with
  | zero =>
    intro f
    exact ⟨fun x _ => rfl, fun i hi => absurd hi (Nat.not_lt_zero i)⟩
  | succ n ih =>
    intro f
    obtain ⟨hout, hin⟩ := ih (moveSlot old new f n)
    have hrange : (List.range (n + 1)).reverse = n :: (List.range n).reverse := by
      rw [List.range_succ, List.reverse_append]; rfl
    have hsucc := entryOffset_succ n new
    have hhead : headerSize ≤ entryOffset n new := by simp [entryOffset]
    simp only [hrange, List.foldl_cons]
    constructor
    · intro x hx
      rw [hout x (by omega), byteAt_moveSlot old new f n x h, if_neg (by omega)]
    · intro i hi o ho
      rcases Nat.lt_succ_iff_lt_or_eq.mp hi with hlt | rfl
      · rw [hin i hlt o ho]
        by_cases hold : o < old.toNat
        · have h1 := entryOffset_mono old (Nat.succ_le_of_lt hlt)
          have h2 := entryOffset_le n h
          rw [entryOffset_succ] at h1
          rw [if_pos hold, if_pos hold, byteAt_moveSlot old new f n _ h, if_neg (by omega)]
        · rw [if_neg hold, if_neg hold]
      · rw [hout _ (by omega), byteAt_moveSlot old new f i _ h, if_pos (by omega)]
        have : entryOffset i new + o - entryOffset i new = o := by omega
        rw [this]

theorem read_moveSlots (h : old ≤ new) (f : Bytes) {m : Nat} (hi : i < n) (hm : m ≤ old.toNat) :
    read ((List.range n).reverse.foldl (moveSlot old new) f) m (entryOffset i new) =
      read f m (entryOffset i old) := by
  have hle : old.toNat ≤ new.toNat := h
  apply ZeroFile.read_congr
  intro o ho
  rw [(byteAt_moveSlots old new h n f).2 i hi o (by omega), if_pos (by omega)]

theorem read_movedSlot (h : old ≤ new) (f : Bytes) (hi : i < n) :
    read ((List.range n).reverse.foldl (moveSlot old new) f) new.toNat (entryOffset i new) =
      read f old.toNat (entryOffset i old) ++ List.replicate (new.toNat - old.toNat) 0 := by
  have hle : old.toNat ≤ new.toNat := h
  apply ZeroFile.eq_of_byteAt
  · rw [read_length, List.length_append, read_length, List.length_replicate]
    omega
  · intro o ho
    rw [read_length] at ho
    rw [byteAt_read _ _ ho, (byteAt_moveSlots old new h n f).2 i hi o ho, ZeroFile.byteAt_append_zeros]
    split
    case isTrue hold => rw [byteAt_read _ _ hold]
    case isFalse hnew =>
      rw [byteAt, List.getElem?_eq_none (by rw [read_length]; omega)]
      rfl

theorem blockFor_size (h : u.blockFor recsize upd = .ok block) :
    recsize < block.toNat ∧ headerSize + u.entries.toNat * block.toNat ≤ maxLogLen := by
  unfold blockFor at h
  dsimp only at h
  rw [show ulogBlock.toNat = 2048 from rfl] at h
  split at h
  case isTrue => cases h
  case isFalse =>
    split at h
    case isTrue => cases h
    case isFalse hfits =>
      split at h
      case isTrue => cases h
      case isFalse hsize =>
        cases h
        rw [UInt16.toNat_ofNat_of_lt' (Nat.lt_of_not_le hfits)]
        exact ⟨by omega, Nat.le_of_not_lt hsize⟩

theorem resize_ok (h : u.resize f hdr recsize upd = .ok (f', hdr')) :
    recsize < hdr'.block.toNat ∧ hdr' = { hdr with block := hdr'.block } ∧ hdr.block ≤ hdr'.block ∧
      ∀ i < u.entries.toNat, ∀ m ≤ hdr.block.toNat,
        read f' m (entryOffset i hdr'.block) = read f m (entryOffset i hdr.block) := by
  simp only [resize, Wire.bind_eq_ok] at h
  obtain ⟨new, hnew, f₁, hf₁, h⟩ := h
  by_cases hlt : new < hdr.block
  · rw [if_pos hlt] at h; cases h
  rw [if_neg hlt] at h
  obtain ⟨rfl, rfl⟩ := h
  have hle := UInt16.not_lt.mp hlt
  refine ⟨(blockFor_size hnew).1, rfl, hle, ?_⟩
  intro i hi m hm
  rw [read_writeHeader, read_moveSlots hle _ hi hm]
  unfold extendTo at hf₁
  split at hf₁
  · cases hf₁
  · cases hf₁
    exact read_extend ..

/-- Slots copied in place from the last to the first, to larger blocks that overlap the old ones. -/
theorem resize_moves_slots (u : Ulog) (f : Bytes) (hdr : Header) (new : UInt16) (h : hdr.block < new) (i : Nat)
    (hi : i < u.entries.toNat) :
    read ((List.range u.entries.toNat).reverse.foldl (moveSlot hdr.block new) f) new.toNat (entryOffset i new) =
        read f hdr.block.toNat (entryOffset i hdr.block) ++ List.replicate (new.toNat - hdr.block.toNat) 0 ∧
      ∀ (recsize : Nat) (upd : Update), u.blockFor recsize upd = .ok new →
        ∃ f', u.resize f hdr recsize upd = .ok (f', { hdr with block := new }) ∧
          read f' new.toNat (entryOffset i new) =
            read f hdr.block.toNat (entryOffset i hdr.block) ++ List.replicate (new.toNat - hdr.block.toNat) 0 := by
  have hle := UInt16.le_of_lt h
  refine ⟨read_movedSlot hle f hi, ?_⟩
  intro recsize upd hnew
  have hsize := (blockFor_size hnew).2
  have hextend : extendTo f (headerSize + u.entries.toNat * new.toNat) =
      .ok (ZeroFile.extend f (headerSize + u.entries.toNat * new.toNat)) :=
    if_neg (by rw [maxLogLen] at hsize; omega)
  have hresize : u.resize f hdr recsize upd =
      .ok (writeHeader ((List.range u.entries.toNat).reverse.foldl (moveSlot hdr.block new)
        (ZeroFile.extend f (headerSize + u.entries.toNat * new.toNat))) { hdr with block := new },
        { hdr with block := new }) := by
    rw [resize, hnew]
    show (extendTo f _ >>= _) = _
    rw [hextend]
    exact if_neg (UInt16.not_lt.mpr hle)
  refine ⟨_, hresize, ?_⟩
  rw [read_writeHeader, read_movedSlot hle _ hi, read_extend]

def smallHeader : Header := ⟨hdrMagic, kdbVersion, 3, ⟨0, 0⟩, ⟨0, 0⟩, 1, 3, kdbStable, 28⟩

def growingLog : Ulog := ⟨3, by decide⟩

def longUpdate : Update := ⟨[97], 4, ⟨0, 0⟩, [], false, false, [], []⟩

/-- Three slots of 28 bytes become slots of 2048; the last one. -/
theorem resize_moves_slots_three : ∃ f', growingLog.resize (List.replicate 124 9) smallHeader 100 longUpdate =
        .ok (f', { smallHeader with block := 2048 }) ∧
      read f' 2048 (entryOffset 2 2048) =
        read (List.replicate 124 9) 28 (entryOffset 2 smallHeader.block) ++ List.replicate 2020 0 :=
  (resize_moves_slots growingLog (List.replicate 124 9) smallHeader 2048 (by decide) 2 (by decide)).2 100 longUpdate rfl

/-! ## Storing an update -/

theorem lift_eq_ok {α : Type} {x : Except StoreError α} {a : α} : lift x = .ok a ↔ x = .ok a := by
  cases x <;> simp [lift]

theorem entryHeader_writeHeader (f : Bytes) (h h' : Header) (i : Nat) :
    entryHeader (writeHeader f h) h' i = entryHeader f h' i := by
  simp [entryHeader, read_writeHeader]

theorem advance_writeHeader (u : Ulog) (f : Bytes) (h h' : Header) (upd : Update) :
    u.advance (writeHeader f h) h' upd = u.advance f h' upd := by
  simp [advance, entryHeader_writeHeader]

theorem advance_state (u : Ulog) (f : Bytes) (h : Header) (upd : Update) (st st' : UInt16) :
    { u.advance f { h with state := st' } upd with state := st } =
      { u.advance f h upd with state := st } := by
  unfold advance
  by_cases h0 : h.num = 0
  · simp [h0]
  · by_cases h1 : h.num < u.entries <;> simp [h0, h1, entryHeader]

theorem holds_write (f : Bytes) (block : UInt16) (i : Nat) (pad : Bytes)
    (he : upd.encode = .ok data) (hs : data.length < 2 ^ 32) (hf : entryDataOffset + data.length ≤ block.toNat) :
    Holds (write (write f ((entryOf upd data.length false).encode ++ data ++ pad) (entryOffset i block))
      (entryOf upd data.length true).encode (entryOffset i block)) block i upd data := by
  refine ⟨he, hs, hf, ?_⟩
  rw [read_add]
  congr 1
  · have := read_write_self (write f ((entryOf upd data.length false).encode ++ data ++ pad)
      (entryOffset i block)) (entryOf upd data.length true).encode (entryOffset i block)
    rwa [EntryHeader.encode_length] at this
  · rw [read_write_of_disjoint _ _ (Or.inr (by simp))]
    have := read_write_self f ((entryOf upd data.length false).encode ++ data ++ pad) (entryOffset i block)
    have hlen : ((entryOf upd data.length false).encode ++ data ++ pad).length =
        entryDataOffset + (data.length + pad.length) := by simp
    rw [hlen, read_add, List.append_assoc] at this
    have := (List.append_inj this (by simp)).2
    rw [read_add] at this
    exact (List.append_inj this (by simp)).1

structure Stored (u : Ulog) (f : Bytes) (hdr : Header) (upd : Update) (f' : Bytes) (data : Bytes)
    (block : UInt16) : Prop where
  le : hdr.block ≤ block
  header : readHeader f' = { u.advance f' { hdr with block := block } upd with state := kdbStable }
  holds : Holds f' block (u.slot upd.sno) upd data
  frame : ∀ i < u.entries.toNat, i ≠ u.slot upd.sno → ∀ m ≤ hdr.block.toNat,
    read f' m (entryOffset i block) = read f m (entryOffset i hdr.block)

theorem grow_ok (h : u.grow f hdr recsize upd = .ok (f', hdr')) :
    recsize ≤ hdr'.block.toNat ∧ hdr' = { hdr with block := hdr'.block } ∧ hdr.block ≤ hdr'.block ∧
      ∀ i < u.entries.toNat, ∀ m ≤ hdr.block.toNat,
        read f' m (entryOffset i hdr'.block) = read f m (entryOffset i hdr.block) := by
  unfold grow at h
  by_cases hb : hdr.block.toNat < recsize
  · rw [if_pos hb] at h
    obtain ⟨h1, h2, h3, h4⟩ := resize_ok h
    exact ⟨Nat.le_of_lt h1, h2, h3, h4⟩
  · rw [if_neg hb] at h
    obtain ⟨rfl, rfl⟩ := h
    exact ⟨Nat.le_of_not_lt hb, rfl, UInt16.le_refl _, fun _ _ _ _ => rfl⟩

theorem storeUpdate_ok (h : u.storeUpdate f hdr upd = .ok f') : ∃ data block, Stored u f hdr upd f' data block := by
  simp only [storeUpdate, Wire.bind_eq_ok, lift_eq_ok] at h
  obtain ⟨data, hdata, h⟩ := h
  by_cases hsize : 2 ^ 32 ≤ data.length
  · rw [if_pos hsize] at h; cases h
  rw [if_neg hsize] at h
  by_cases hsum : 2 ^ 32 ≤ entryHeaderSize + data.length
  · rw [if_pos hsum] at h; cases h
  rw [if_neg hsum] at h
  simp only [Wire.bind_eq_ok] at h
  obtain ⟨⟨f₁, hdr₁⟩, hgrow, h⟩ := h
  cases h
  obtain ⟨hfit, hhdr, hle, hframe⟩ := grow_ok hgrow
  have hfit' : entryDataOffset + data.length ≤ hdr₁.block.toNat := by
    simp only [entryHeaderSize, entryDataOffset] at *; omega
  refine ⟨data, hdr₁.block, hle, ?_, ?_, ?_⟩
  · unfold putEntry
    rw [readHeader_writeHeader, advance_writeHeader, advance_state u _ hdr₁ upd kdbStable kdbUnstable,
      ← hhdr]
  · refine (holds_write (writeHeader f₁ { hdr₁ with state := kdbUnstable }) hdr₁.block
      (u.slot upd.sno) (List.replicate (hdr₁.block.toNat - (entryDataOffset + data.length)) 0)
      hdata (by omega) hfit').frame (UInt16.le_refl _) ?_
    intro n _
    exact read_writeHeader ..
  · intro i hi hne m hm
    have hm' := Nat.le_trans hm hle
    unfold putEntry
    rw [read_writeHeader, read_write_slot _ _ hne hm' (by simp only [EntryHeader.encode_length]; omega),
      read_write_slot _ _ hne hm' (by simp; omega), read_writeHeader, hframe i hi m hm]

/-! ## The invariant -/

def lookup (stored : List Update) (n : Nat) : Option Update := stored.find? fun upd => upd.sno.toNat = n

def Live (u : Ulog) (f : Bytes) (block : UInt16) (stored : List Update) (n : Nat) : Prop :=
  ∃ upd data, lookup stored n = some upd ∧ upd.Distinct ∧
    Holds f block ((n - 1) % u.entries.toNat) upd data

structure Inv (u : Ulog) (f : Bytes) (stored : List Update) : Prop where
  magic : (readHeader f).hmagic = hdrMagic
  stable : (readHeader f).state = kdbStable
  span : (readHeader f).lastSno.toNat + 1 = (readHeader f).firstSno.toNat + (readHeader f).num.toNat
  pos : 0 < (readHeader f).num.toNat
  le : (readHeader f).num.toNat ≤ u.entries.toNat
  live : ∀ n, (readHeader f).firstSno.toNat < n → n ≤ (readHeader f).lastSno.toNat →
    Live u f (readHeader f).block stored n

theorem sno_of_lookup (h : lookup stored n = some upd) : upd.sno.toNat = n := by
  simpa using List.find?_some h

theorem mod_ne_mod {a b : Nat} (hab : a < b) (hbe : b < a + e) : a % e ≠ b % e := by
  intro h
  have h0 := Nat.sub_mod_eq_zero_of_mod_eq h.symm
  rw [Nat.mod_eq_of_lt (by omega)] at h0
  omega

theorem slot_eq (u : Ulog) {sno : UInt32} (h : 0 < sno.toNat) : u.slot sno = (sno.toNat - 1) % u.entries.toNat := by
  unfold slot
  rw [UInt32.toNat_mod, UInt32.toNat_sub_of_le sno 1 (UInt32.le_iff_toNat_le.mpr h)]
  rfl

theorem live_of_stored (hi : Inv u f stored) (hs : Stored u f (readHeader f) upd f' data block)
    (hsno : upd.sno.toNat = (readHeader f).lastSno.toNat + 1) (hd : upd.Distinct) :
    ∀ n, (readHeader f).firstSno.toNat < n → n ≤ upd.sno.toNat → Live u f' block (upd :: stored) n := by
  have hslot := slot_eq u (show 0 < upd.sno.toNat by omega)
  have hspan := hi.span
  have hle := hi.le
  intro n hn hn'
  by_cases hlast : n = upd.sno.toNat
  · subst hlast
    exact ⟨upd, data, by simp [lookup], hd, hslot ▸ hs.holds⟩
  obtain ⟨old, odata, hlook, hod, hold⟩ := hi.live n hn (by omega)
  refine ⟨old, odata, by simpa [lookup, Ne.symm hlast] using hlook, hod, hold.frame hs.le ?_⟩
  intro m hm
  apply hs.frame _ (Nat.mod_lt _ u.pos) _ m hm
  rw [hslot]
  exact mod_ne_mod (by omega) (by omega)

theorem Inv.store (hi : Inv u f stored) (h : u.storeUpdate f (readHeader f) upd = .ok f')
    (hsno : upd.sno.toNat = (readHeader f).lastSno.toNat + 1) (hd : upd.Distinct) : Inv u f' (upd :: stored) := by
  obtain ⟨data, block, hs⟩ := storeUpdate_ok h
  have hlive := live_of_stored hi hs hsno hd
  have hspan := hi.span
  have hpos := hi.pos
  have hle := hi.le
  have hE := u.entries.toNat_lt
  have hnum : (readHeader f).num ≠ 0 := by
    intro h0; rw [h0] at hpos; simp at hpos
  by_cases hroom : (readHeader f).num < u.entries
  · have hroom' : (readHeader f).num.toNat < u.entries.toNat := hroom
    have hhdr : readHeader f' = { readHeader f with
        lastSno := upd.sno, lastTime := upd.time, num := (readHeader f).num + 1, block := block,
        state := kdbStable } := by
      rw [hs.header]; simp [advance, hnum, hroom]
    have hadd : ((readHeader f).num + 1).toNat = (readHeader f).num.toNat + 1 := by
      rw [UInt32.toNat_add]; simp; omega
    constructor <;> rw [hhdr]
    · exact hi.magic
    · show upd.sno.toNat + 1 = (readHeader f).firstSno.toNat + ((readHeader f).num + 1).toNat
      omega
    · show 0 < ((readHeader f).num + 1).toNat
      omega
    · show ((readHeader f).num + 1).toNat ≤ _
      omega
    · exact hlive
  · -- the ring is full: the first serial number moves on by one
    have hfull : (readHeader f).num.toNat = u.entries.toNat := by
      have := UInt32.not_lt.mp hroom
      have : u.entries.toNat ≤ (readHeader f).num.toNat := this
      omega
    obtain ⟨first, fdata, hlook, -, hfirst⟩ := hlive ((readHeader f).firstSno.toNat + 1) (by omega) (by omega)
    have hindex : ((readHeader f).firstSno.toNat + 1 - 1) % u.entries.toNat =
        (upd.sno % u.entries).toNat := by
      rw [UInt32.toNat_mod, hsno, hspan, hfull]
      simp
    rw [hindex] at hfirst
    have hhdr : readHeader f' = { readHeader f with
        lastSno := upd.sno, lastTime := upd.time, firstSno := first.sno, firstTime := first.time,
        block := block, state := kdbStable } := by
      have hent : entryHeader f' { readHeader f with
          block := block, lastSno := upd.sno, lastTime := upd.time } (upd.sno % u.entries).toNat =
            entryOf first fdata.length true := hfirst.entryHeader
      rw [hs.header]
      simp only [advance, hnum, hroom, if_false, hent]
      rfl
    have hfsno := sno_of_lookup hlook
    constructor <;> rw [hhdr]
    · exact hi.magic
    · show upd.sno.toNat + 1 = first.sno.toNat + (readHeader f).num.toNat
      omega
    · exact hpos
    · exact hle
    · intro n hn hn'
      exact hlive n (by simp only [hfsno] at hn; omega) hn'

theorem inv_of_single (stored : List Update) (hm : (readHeader f).hmagic = hdrMagic)
    (hs : (readHeader f).state = kdbStable) (hn : (readHeader f).num = 1)
    (hl : (readHeader f).lastSno = (readHeader f).firstSno) : Inv u f stored := by
  have hpos := u.pos
  refine ⟨hm, hs, ?_, ?_, ?_, ?_⟩
  · rw [hl, hn]; rfl
  · rw [hn]; decide
  · rw [hn]; exact hpos
  · intro n h1 h2
    rw [hl] at h2
    omega

theorem readHeader_reset (u : Ulog) (f : Bytes) (now : Time) : readHeader (u.reset f now).1 = (u.reset f now).2 :=
  readHeader_writeHeader ..

theorem inv_reset (u v : Ulog) (f : Bytes) (now : Time) (stored : List Update) : Inv v (u.reset f now).1 stored := by
  apply inv_of_single <;> rw [readHeader_reset] <;> rfl

theorem Inv.setLast (hi : Inv u f stored) (last : Last) : Inv u (u.setLast f last) stored := by
  apply inv_of_single <;> simp only [Ulog.setLast, readHeader_writeHeader, setDummy]
  · exact hi.magic
  · exact hi.stable

/-! ## Operations keep the invariant -/

def InvAfter (u : Ulog) (stored : List Update) : Except Fault Update × Bytes → Prop
  | (.ok upd, f) => Inv u f (upd :: stored)
  | (.error _, f) => Inv u f stored

theorem Inv.append (hi : Inv u f stored)
    (hsno : upd.sno.toNat = (readHeader f).lastSno.toNat + 1) (hd : upd.Distinct) :
    InvAfter u stored (u.append f (readHeader f) upd) := by
  unfold Ulog.append
  cases h : u.storeUpdate f (readHeader f) upd with
  | error e => exact hi
  | ok f' => exact hi.store h hsno hd

theorem Inv.addUpdate (hi : Inv u f stored) (hd : upd.Distinct) (now : Time) :
    InvAfter u stored (u.addUpdate f upd now) := by
  unfold Ulog.addUpdate
  by_cases hmax : (readHeader f).lastSno = 4294967295
  · have : InvAfter u stored (u.append (u.reset f now).1 (readHeader (u.reset f now).1)
        { upd with sno := 2, time := now }) :=
      (inv_reset u u f now stored).append (by rw [readHeader_reset]; rfl) hd
    rw [readHeader_reset] at this
    simp only [resetIf, hmax, decide_true, if_true]
    exact this
  · simp only [resetIf, hmax, decide_false, Bool.false_eq_true, if_false]
    refine hi.append ?_ hd
    have hlt := (readHeader f).lastSno.toNat_lt
    have hne : (readHeader f).lastSno.toNat ≠ 4294967295 := fun h => hmax (UInt32.toNat_inj.mp h)
    simp
    omega

/-- The serial number of a replayed update is the one after the last, or the one a reset log
expects next. -/
def Follows (f : Bytes) (upd : Update) : Prop :=
  upd.sno.toNat = (readHeader f).lastSno.toNat + 1 ∨ upd.sno = 2

theorem Inv.storeReplayed (hi : Inv u f stored) (hd : upd.Distinct)
    (hf : Follows f upd) (now : Time) : InvAfter u stored (u.storeReplayed f upd now) := by
  unfold Ulog.storeReplayed
  dsimp only
  by_cases hnext : upd.sno.toNat = (readHeader f).lastSno.toNat + 1
  · have hlt := upd.sno.toNat_lt
    have heq : upd.sno = (readHeader f).lastSno + 1 := by
      apply UInt32.toNat_inj.mp
      simp
      omega
    have hc : decide ((readHeader f).num ≠ 0 ∧ upd.sno ≠ (readHeader f).lastSno + 1) = false := by
      simp [heq]
    rw [hc]
    exact hi.append hnext hd
  · have h2 := hf.resolve_left hnext
    have hc : decide ((readHeader f).num ≠ 0 ∧ upd.sno ≠ (readHeader f).lastSno + 1) = true := by
      refine decide_eq_true ⟨fun h0 => ?_, fun heq => ?_⟩
      · have := hi.pos
        rw [h0] at this
        simp at this
      · have h1 : (readHeader f).lastSno = 1 := by
          have := congrArg (· - 1) (h2.symm.trans heq)
          simpa using this.symm
        rw [h1, h2] at hnext
        exact hnext rfl
    rw [hc]
    have : InvAfter u stored (u.append (u.reset f now).1 (readHeader (u.reset f now).1) upd) :=
      (inv_reset u u f now stored).append (by rw [readHeader_reset, h2]; rfl) hd
    rwa [readHeader_reset] at this

/-! ## Reading the log -/

theorem mapM_ok {α β ε : Type} {g : α → Except ε β} {p : α → Option β} {l : List α}
    (h : ∀ a ∈ l, ∃ b, p a = some b ∧ g a = .ok b) : ∃ bs, l.mapM g = .ok bs ∧ bs.map some = l.map p := by
  induction l with
  | nil => exact ⟨[], rfl, rfl⟩
  | cons a l ih =>
    obtain ⟨b, hp, hg⟩ := h a (List.mem_cons_self ..)
    obtain ⟨bs, hbs, hmap⟩ := ih fun c hc => h c (List.mem_cons_of_mem _ hc)
    refine ⟨b :: bs, ?_, by simp [hp, hmap]⟩
    rw [List.mapM_cons, hg, hbs]
    rfl

def served (stored : List Update) (n : Nat) : Option Update :=
  (lookup stored n).map fun upd => { upd with commit := true }

inductive Answers (f : Bytes) (stored : List Update) (last : Last) :
    UpdateStatus → List Update → Last → Prop
  | ok {updates : List Update}
      (hle : last.sno.toNat ≤ (readHeader f).lastSno.toNat)
      (hserved : updates.map some = (List.range' (last.sno.toNat + 1)
        ((readHeader f).lastSno.toNat - last.sno.toNat)).map (served stored)) :
      Answers f stored last .ok updates ⟨(readHeader f).lastSno, (readHeader f).lastTime⟩
  | nil (h : last = ⟨(readHeader f).lastSno, (readHeader f).lastTime⟩) :
      Answers f stored last .nil [] ⟨0, ⟨0, 0⟩⟩
  | resync : Answers f stored last .fullResyncNeeded [] ⟨0, ⟨0, 0⟩⟩

theorem Inv.getEntries (hi : Inv u f stored) (last : Last) (now : Time) :
    ∃ status updates stop, u.getEntries f last now = (.ok (status, updates, stop), f) ∧
      Answers f stored last status updates stop := by
  unfold Ulog.getEntries
  simp only [hi.stable, ne_eq, not_true, decide_false, resetIf, Bool.false_eq_true, if_false]
  unfold snoStatus
  by_cases hnil : last.sno = (readHeader f).lastSno ∧ last.time = (readHeader f).lastTime
  · rw [if_pos hnil]
    obtain ⟨sno, time⟩ := last
    obtain ⟨rfl, rfl⟩ := hnil
    exact ⟨_, _, _, rfl, .nil rfl⟩
  rw [if_neg hnil]
  by_cases hout : (readHeader f).num = 0 ∨ (readHeader f).lastSno < last.sno ∨
      last.sno < (readHeader f).firstSno
  · rw [if_pos hout]
    exact ⟨_, _, _, rfl, .resync⟩
  rw [if_neg hout]
  cases hc : u.checkSno f (readHeader f) last.sno last.time with
  | false => exact ⟨_, _, _, rfl, .resync⟩
  | true =>
    simp only [not_or, UInt32.not_lt] at hout
    have hle := hout.2.1
    have hge : (readHeader f).firstSno.toNat ≤ last.sno.toNat := hout.2.2
    have hlive : ∀ n ∈ (List.range ((readHeader f).lastSno.toNat - last.sno.toNat)).map
        (last.sno.toNat + ·), ∃ upd, served stored (n + 1) = some upd ∧
          u.readUpdate f (readHeader f).block n = .ok upd := by
      intro n hn
      obtain ⟨k, hk, rfl⟩ := List.mem_map.mp hn
      have hk := List.mem_range.mp hk
      obtain ⟨upd, data, hlook, hd, hh⟩ := hi.live (last.sno.toNat + k + 1) (by omega) (by omega)
      exact ⟨_, by simp [served, hlook], hh.readUpdate hd⟩
    obtain ⟨updates, hok, hmap⟩ := mapM_ok hlive
    rw [hok]
    refine ⟨_, _, _, rfl, .ok hle ?_⟩
    rw [hmap, List.map_map, List.range'_eq_map_range, List.map_map]
    apply List.map_congr_left
    intro k _
    show served stored (last.sno.toNat + k + 1) = served stored (last.sno.toNat + 1 + k)
    rw [Nat.add_right_comm]

/-! ## Mapping the log again -/

theorem Inv.extend (hi : Inv u f stored) (size : Nat) : Inv u (ZeroFile.extend f size) stored := by
  refine ⟨?_, ?_, ?_, ?_, ?_, ?_⟩ <;> rw [readHeader_extend]
  · exact hi.magic
  · exact hi.stable
  · exact hi.span
  · exact hi.pos
  · exact hi.le
  · intro n h1 h2
    obtain ⟨upd, data, hlook, hd, hh⟩ := hi.live n h1 h2
    exact ⟨upd, data, hlook, hd, hh.frame (UInt16.le_refl _) fun m _ => read_extend ..⟩

theorem lengthen_cases (u : Ulog) (f : Bytes) (h : Header) :
    ∃ r size, u.lengthen f h = (r, ZeroFile.extend f size) ∧ r ≠ .error .panicked := by
  have hid : ZeroFile.extend f 0 = f := by simp [ZeroFile.extend]
  unfold lengthen extendTo
  by_cases hn : h.num ≠ u.entries
  · rw [if_pos hn]
    by_cases hs : 2 ^ 31 - 1 < headerSize + u.entries.toNat * h.block.toNat
    · exact ⟨.error (.error (.backend "ulog too large")), 0, by simp only [if_pos hs, hid], by simp⟩
    · exact ⟨.ok (), _, by simp only [if_neg hs]; rfl, by simp⟩
  · exact ⟨.ok (), 0, by rw [if_neg hn, hid], by simp⟩

theorem checkOnMap_cases (v : Ulog) (path : String) (now : Time)
    (hm : (readHeader f).hmagic = hdrMagic ∨ (readHeader f).hmagic = 0) :
    ∃ r f', v.checkOnMap path f now = (r, f') ∧ r ≠ .error .panicked ∧
      ((∀ u stored, Inv u f' stored) ∨
        ((readHeader f).hmagic = hdrMagic ∧ v.mismatched f (readHeader f) = false ∧
          ∃ size, f' = ZeroFile.extend f size)) := by
  unfold checkOnMap
  rw [if_neg (fun h => hm.elim h.1 h.2)]
  by_cases hmag : (readHeader f).hmagic = hdrMagic
  · have hc : decide ((readHeader f).hmagic ≠ hdrMagic) = false := by simp [hmag]
    rw [hc]
    simp only [resetIf, Bool.false_eq_true, if_false]
    cases hbad : v.mismatched f (readHeader f) with
    | false =>
      obtain ⟨r, size, heq, hr⟩ := lengthen_cases v f (readHeader f)
      exact ⟨r, _, heq, hr, Or.inr ⟨hmag, rfl, size, rfl⟩⟩
    | true =>
      obtain ⟨r, size, heq, hr⟩ := lengthen_cases v (v.reset f now).1 (v.reset f now).2
      exact ⟨r, _, heq, hr, Or.inl fun u stored => (inv_reset v u f now stored).extend size⟩
  · -- no log yet: it is reset, and may be reset again
    have hc : decide ((readHeader f).hmagic ≠ hdrMagic) = true := by simp [hmag]
    rw [hc]
    simp only [resetIf, if_true]
    cases hbad : v.mismatched (v.reset f now).1 (v.reset f now).2 with
    | false =>
      obtain ⟨r, size, heq, hr⟩ := lengthen_cases v (v.reset f now).1 (v.reset f now).2
      exact ⟨r, _, heq, hr, Or.inl fun u stored => (inv_reset v u f now stored).extend size⟩
    | true =>
      obtain ⟨r, size, heq, hr⟩ := lengthen_cases v (v.reset (v.reset f now).1 now).1
        (v.reset (v.reset f now).1 now).2
      exact ⟨r, _, heq, hr, Or.inl fun u stored => (inv_reset v u _ now stored).extend size⟩

theorem add_mod_cases (a : Nat) (h : j < e) : (a + j) % e = if a % e + j < e then a % e + j else a % e + j - e := by
  have ha := Nat.mod_lt a (show 0 < e by omega)
  rw [← Nat.mod_add_mod]
  split
  · exact Nat.mod_eq_of_lt (by omega)
  · rw [Nat.mod_eq_sub_mod (by omega), Nat.mod_eq_of_lt (by omega)]

theorem mod_eq_between {a b c d : Nat} (hac : a ≤ c) (hcb : c ≤ b) (hd : b < a + d) (he : b < a + e)
    (ha : a % d = a % e) (hb : b % d = b % e) : c % d = c % e := by
  obtain ⟨j, rfl⟩ := Nat.exists_eq_add_of_le hac
  obtain ⟨k, rfl⟩ := Nat.exists_eq_add_of_le (Nat.le_trans hac hcb)
  rw [add_mod_cases a (show k < d by omega), add_mod_cases a (show k < e by omega)] at hb
  rw [add_mod_cases a (show j < d by omega), add_mod_cases a (show j < e by omega)]
  split at hb <;> split at hb <;> split <;> split <;> omega

theorem Inv.remap {v : Ulog} (hi : Inv u f stored) (hkept : v.mismatched f (readHeader f) = false)
    (hfirst : v.slot (readHeader f).firstSno = u.slot (readHeader f).firstSno)
    (hlast : v.slot (readHeader f).lastSno = u.slot (readHeader f).lastSno) : Inv v f stored := by
  have hspan := hi.span
  have hpos := hi.pos
  have hle := hi.le
  have hnum : (readHeader f).num.toNat ≤ v.entries.toNat := by
    simp only [mismatched, decide_eq_false_iff_not, not_and, not_or, UInt32.not_lt] at hkept
    exact (hkept fun h0 => by rw [h0] at hpos; simp at hpos).1
  refine ⟨hi.magic, hi.stable, hspan, hpos, hnum, ?_⟩
  intro n h1 h2
  obtain ⟨upd, data, hlook, hd, hh⟩ := hi.live n h1 h2
  have hmod : (n - 1) % v.entries.toNat = (n - 1) % u.entries.toNat := by
    by_cases h0 : (readHeader f).firstSno.toNat = 0
    · rw [Nat.mod_eq_of_lt (by omega), Nat.mod_eq_of_lt (by omega)]
    · rw [slot_eq _ (by omega), slot_eq _ (by omega)] at hfirst hlast
      apply mod_eq_between _ _ _ _ hfirst hlast <;> omega
  exact ⟨upd, data, hlook, hd, hmod ▸ hh⟩

/-! ## Runs -/

/-- The step does not meet the log's two weak spots: a replayed update that leaves a gap, and a
`map` with another number of entries that finds the ends of the log in slots they were not put in. -/
def Op.Regular (w : World) : Op → Prop
  | .map _ entries _ => ∀ u f, w.handle = some u → w.file = some f →
      ∀ hpos : 0 < entries.toNat, mismatched ⟨entries, hpos⟩ f (readHeader f) = false →
        slot ⟨entries, hpos⟩ (readHeader f).firstSno = u.slot (readHeader f).firstSno ∧
        slot ⟨entries, hpos⟩ (readHeader f).lastSno = u.slot (readHeader f).lastSno
  | .addUpdate upd _ => upd.Distinct
  | .storeReplayed upd _ => upd.Distinct ∧ ∀ f, w.file = some f → Follows f upd
  | _ => True

def RegularRun (w : World) : List Op → Prop
  | [] => True
  | op :: ops => op.Regular w ∧ ∀ w', step w op = some w' → RegularRun w' ops

/-- Nothing mapped yet: no log, or an empty one. -/
def World.Inv (w : World) : Prop :=
  match w.handle with
  | some u => ∃ f, w.file = some f ∧ Ulog.Inv u f w.stored
  | none => ∀ f, w.file = some f → (readHeader f).hmagic = 0 ∨ ∀ u stored, Ulog.Inv u f stored

theorem World.inv_init : World.init.Inv := by
  intro f hf
  cases hf

theorem World.Inv.file (hw : w.Inv) (hu : w.handle = some u) : ∃ f, w.file = some f ∧ Ulog.Inv u f w.stored := by
  simpa only [World.Inv, hu] using hw

theorem World.Inv.handle_eq_none (hw : w.Inv) (hf : w.file = none) : w.handle = none := by
  cases hu : w.handle with
  | none => rfl
  | some u =>
    obtain ⟨f, hf', -⟩ := hw.file hu
    rw [hf] at hf'
    cases hf'

theorem World.inv_of_log (hu : w.handle = some u) (hf : w.file = some f) (hi : Ulog.Inv u f w.stored) : w.Inv := by
  simp only [World.Inv, hu]
  exact ⟨f, hf, hi⟩

theorem appended_inv {r : Except Fault Update × Bytes} (hu : w.handle = some u) (hr : InvAfter u w.stored r)
    (h : w.appended r = some w') : w'.Inv := by
  obtain ⟨r, f⟩ := r
  cases r with
  | ok upd =>
    cases h
    exact World.inv_of_log hu rfl hr
  | error e =>
    cases e with
    | panicked => cases h
    | error e =>
      cases h
      exact World.inv_of_log hu rfl hr

theorem withLog_inv {op : Ulog → Bytes → Option World} (hw : w.Inv) (hop : ∀ u f, w.handle = some u → w.file = some f → Ulog.Inv u f w.stored →
      op u f = some w' → w'.Inv) (h : w.withLog op = some w') : w'.Inv := by
  unfold World.withLog at h
  cases hu : w.handle with
  | none =>
    simp only [hu] at h
    exact Option.some.inj h ▸ hw
  | some u =>
    obtain ⟨f, hf, hi⟩ := hw.file hu
    simp only [hu, hf] at h
    exact hop u f hu hf hi h

theorem checkOnMap_inv (v : Ulog) (path : String) (now : Time) (hw : w.Inv) (hf : w.file = some f)
    (hr : (Op.map path v.entries now).Regular w) : ∃ r f', v.checkOnMap path f now = (r, f') ∧ r ≠ .error .panicked ∧
      World.Inv { w with file := some f', handle := some v } ∧ World.Inv { w with file := some f' } := by
  have hm : (readHeader f).hmagic = hdrMagic ∨ (readHeader f).hmagic = 0 := by
    cases hu : w.handle with
    | some u =>
      obtain ⟨g, hg, hi⟩ := hw.file hu
      cases hf.symm.trans hg
      exact Or.inl hi.magic
    | none =>
      simp only [World.Inv, hu] at hw
      rcases hw f hf with h0 | hi
      · exact Or.inr h0
      · exact Or.inl (hi v []).magic
  obtain ⟨r, f', heq, hnp, hcase⟩ := checkOnMap_cases v path now hm
  refine ⟨r, f', heq, hnp, ?_⟩
  cases hu : w.handle with
  | some u =>
    obtain ⟨g, hg, hi⟩ := hw.file hu
    cases hf.symm.trans hg
    rcases hcase with hall | ⟨-, hkept, size, rfl⟩
    · exact ⟨World.inv_of_log rfl rfl (hall v _), World.inv_of_log rfl rfl (hall u _)⟩
    · obtain ⟨hfirst, hlast⟩ := hr u f hu hf v.pos hkept
      exact ⟨World.inv_of_log rfl rfl ((hi.remap hkept hfirst hlast).extend size),
        World.inv_of_log rfl rfl (hi.extend size)⟩
  | none =>
    simp only [World.Inv, hu] at hw
    have hall : ∀ u stored, Ulog.Inv u f' stored := by
      rcases hcase with hall | ⟨hmag, -, size, rfl⟩
      · exact hall
      rcases hw f hf with h0 | hi
      · rw [hmag] at h0
        exact absurd h0 (by decide)
      · exact fun u stored => (hi u stored).extend size
    refine ⟨World.inv_of_log rfl rfl (hall v _), ?_⟩
    intro g hg
    cases hg
    exact Or.inr hall

theorem map_eq (path : String) (file : Option Bytes) (hpos : 0 < entries.toNat) (now : Time) :
    (∃ f, (file = some f ∨ file = none ∧ ∃ size, f = ZeroFile.extend [] size) ∧
      map path file entries now = ((checkOnMap ⟨entries, hpos⟩ path f now).1.map fun _ => ⟨entries, hpos⟩,
        some (checkOnMap ⟨entries, hpos⟩ path f now).2)) ∨
    (file = none ∧ ∃ e, map path file entries now = (.error (.error e), some [])) := by
  unfold map
  rw [dif_pos hpos]
  cases file with
  | some f =>
    refine Or.inl ⟨f, Or.inl rfl, ?_⟩
    dsimp only
    obtain ⟨r, f'⟩ := checkOnMap ⟨entries, hpos⟩ path f now
    cases r <;> rfl
  | none =>
    simp only [extendTo]
    by_cases hs : 2 ^ 31 - 1 < headerSize + entries.toNat * ulogBlock.toNat
    · exact Or.inr ⟨trivial, _, by rw [if_pos hs]⟩
    refine Or.inl ⟨_, Or.inr ⟨trivial, headerSize + entries.toNat * ulogBlock.toNat, rfl⟩, ?_⟩
    rw [if_neg hs]
    dsimp only
    obtain ⟨r, f'⟩ := checkOnMap ⟨entries, hpos⟩ path _ now
    cases r <;> rfl

theorem mapped_inv {path : String} {now : Time} (hw : w.Inv)
    (hr : (Op.map path entries now).Regular w) (h : w.mapped (map path w.file entries now) = some w') : w'.Inv := by
  -- whatever `check_on_map` answers, the world it leaves has the invariant
  have key : ∀ (hpos : 0 < entries.toNat) (f : Bytes),
      (∃ r f', checkOnMap ⟨entries, hpos⟩ path f now = (r, f') ∧ r ≠ .error .panicked ∧
        World.Inv { w with file := some f', handle := some ⟨entries, hpos⟩ } ∧
        World.Inv { w with file := some f' }) →
      map path w.file entries now = ((checkOnMap ⟨entries, hpos⟩ path f now).1.map fun _ => ⟨entries, hpos⟩,
        some (checkOnMap ⟨entries, hpos⟩ path f now).2) → w'.Inv := by
    rintro hpos f ⟨r, f', heq, hnp, hok, herr⟩ hmap
    rw [hmap, heq] at h
    cases r with
    | ok a => exact Option.some.inj h ▸ hok
    | error e =>
      cases e with
      | panicked => exact absurd rfl hnp
      | error e => exact Option.some.inj h ▸ herr
  by_cases hpos : 0 < entries.toNat
  · rcases map_eq path w.file hpos now with ⟨f, hf | ⟨hf, size, rfl⟩, hmap⟩ | ⟨hf, e, hmap⟩
    · exact key hpos f (checkOnMap_inv ⟨entries, hpos⟩ path now hw hf hr) hmap
    · -- a new file holds zeros
      have hzero : World.Inv { w with file := some (ZeroFile.extend [] size), handle := none } := by
        intro f hf
        cases hf
        rw [readHeader_extend]
        exact Or.inl rfl
      have hnone := hw.handle_eq_none hf
      have := checkOnMap_inv ⟨entries, hpos⟩ path now hzero rfl
        (fun u f hu => by cases hu)
      refine key hpos _ ?_ hmap
      simpa only [hnone] using this
    · rw [hmap] at h
      cases h
      have hnone := hw.handle_eq_none hf
      simp only [World.Inv, hnone]
      intro f hf
      cases hf
      exact Or.inl rfl
  · unfold map at h
    rw [dif_neg hpos] at h
    cases h
    exact hw

theorem step_inv {op : Op} (hw : w.Inv) (hr : op.Regular w) (h : step w op = some w') : w'.Inv := by
  cases op with
  | map path entries now => exact mapped_inv hw hr h
  | reset now =>
    refine withLog_inv hw (fun u f hu _ _ h => ?_) h
    cases h
    exact World.inv_of_log hu rfl (inv_reset u u f now _)
  | setLast last =>
    refine withLog_inv hw (fun u f hu _ hi h => ?_) h
    cases h
    exact World.inv_of_log hu rfl (hi.setLast last)
  | addUpdate upd now =>
    exact withLog_inv hw (fun u f hu _ hi h => appended_inv hu (hi.addUpdate hr now) h) h
  | storeReplayed upd now =>
    exact withLog_inv hw
      (fun u f hu hf hi h => appended_inv hu (hi.storeReplayed hr.1 (hr.2 f hf) now) h) h
  | getEntries last now =>
    refine withLog_inv hw (fun u f hu _ hi h => ?_) h
    obtain ⟨status, updates, stop, heq, -⟩ := hi.getEntries last now
    rw [heq] at h
    cases h
    exact World.inv_of_log hu rfl hi

theorem run_inv (ops : List Op) : ∀ {w w' : World}, w.Inv → RegularRun w ops → run w ops = some w' → w'.Inv := by
  induction ops with
  | nil =>
    intro w w' hw _ h
    exact Option.some.inj h ▸ hw
  | cons op ops ih =>
    intro w w' hw hreg h
    simp only [run] at h
    cases hs : step w op with
    | none => simp [hs] at h
    | some w₁ =>
      simp only [hs] at h
      exact ih (step_inv hw hreg.1 hs) (hreg.2 w₁ hs) h

/-- In every state a regular run reaches, `get_entries` answers with exactly the updates stored
under the serial numbers after the given one, or that there are none, or that a full resync is
needed. -/
theorem ulog_serves_what_was_logged (ops : List Op) (w : World) (hreg : RegularRun World.init ops)
    (hrun : run World.init ops = some w) (u : Ulog) (f : Bytes) (hu : w.handle = some u)
    (hf : w.file = some f) (last : Last) (now : Time) :
    ∃ status updates stop, u.getEntries f last now = (.ok (status, updates, stop), f) ∧
      Answers f w.stored last status updates stop := by
  obtain ⟨g, hg, hi⟩ := (run_inv ops World.inv_init hreg hrun).file hu
  cases hf.symm.trans hg
  exact hi.getEntries last now

def World.ask (w : World) (last : Last) (now : Time) : Option (UpdateStatus × List Update) :=
  match w.handle, w.file with
  | some u, some f =>
    match (u.getEntries f last now).1 with
    | .ok (status, updates, _) => some (status, updates)
    | .error _ => none
  | _, _ => none

def bareUpdate (name : UInt8) (sno seconds : UInt32) (commit : Bool) : Update :=
  { princName := [name], sno, time := ⟨seconds, 0⟩, values := [], deleted := false, commit,
    kdcsSeenBy := [], futures := [] }

theorem ulog_serves_first_update :
    ∃ w u f, run World.init [.map "ulog" 3 ⟨10, 0⟩, .addUpdate (bareUpdate 65 0 0 false) ⟨11, 0⟩] = some w ∧
      w.handle = some u ∧ w.file = some f ∧
      w.ask ⟨1, ⟨10, 0⟩⟩ ⟨12, 0⟩ = some (.ok, [bareUpdate 65 2 11 true]) ∧
      ∃ status updates stop, u.getEntries f ⟨1, ⟨10, 0⟩⟩ ⟨12, 0⟩ = (.ok (status, updates, stop), f) ∧
        Answers f w.stored ⟨1, ⟨10, 0⟩⟩ status updates stop := by
  let ops : List Op := [.map "ulog" 3 ⟨10, 0⟩, .addUpdate (bareUpdate 65 0 0 false) ⟨11, 0⟩]
  have hend : (run World.init ops).map (fun w =>
      (w.handle.isSome, w.file.isSome, w.ask ⟨1, ⟨10, 0⟩⟩ ⟨12, 0⟩)) =
        some (true, true, some (.ok, [bareUpdate 65 2 11 true])) := by decide +kernel
  obtain ⟨w, hw, hend⟩ := Option.map_eq_some_iff.mp hend
  simp only [Prod.mk.injEq] at hend
  obtain ⟨u, hu⟩ := Option.isSome_iff_exists.mp hend.1
  obtain ⟨f, hf⟩ := Option.isSome_iff_exists.mp hend.2.1
  have hreg : RegularRun World.init ops := by
    refine ⟨?_, fun w' _ => ⟨?_, fun _ _ => trivial⟩⟩
    · intro u f hu
      cases hu
    · intro v hv
      cases hv
  exact ⟨w, u, f, hw, hu, hf, hend.2.2, ulog_serves_what_was_logged ops w hreg hw u f hu hf _ _⟩

/-- A reset leaves the old slots, and a replayed update two numbers on passes over one: serial
number 2, never stored, is served as the update stored under 5. -/
theorem ulog_serves_stale_slot : (run World.init [.map "ulog" 3 ⟨10, 0⟩, .setLast ⟨4, ⟨11, 0⟩⟩,
        .addUpdate (bareUpdate 65 0 0 false) ⟨12, 0⟩, .reset ⟨13, 0⟩,
        .storeReplayed (bareUpdate 66 3 9 true) ⟨14, 0⟩]).map
      (fun w => (w.ask ⟨1, ⟨14, 0⟩⟩ ⟨15, 0⟩, lookup w.stored 2)) =
    some (some (.ok, [bareUpdate 65 5 12 true, bareUpdate 66 3 9 true]), none) := by
  decide +kernel

end Ulog

end Krb5Rs
