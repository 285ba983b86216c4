import Krb5Rs.UlogXdr
import Krb5Rs.ZeroFile

/-!
# The update log

The log file of `kdb/mit/ulog.rs`: a header of 40 bytes and a ring of entry
slots of `block` bytes. Headers are in host byte order, little-endian here;
file operations succeed, and a lock is held during each operation.
-/

namespace Krb5Rs

open Wire (Bytes)
open ZeroFile (read write extend)

namespace Ulog

open Iprop (Update)

def kdbVersion : UInt16 := 1
def kdbStable : UInt16 := 1
def kdbUnstable : UInt16 := 2
def ulogMagic : UInt32 := 0x06661212
def hdrMagic : UInt32 := 0x06662323
def ulogBlock : UInt16 := 2048
def maxLogLen : Nat := 0x10000000
def headerSize : Nat := 40
def entryHeaderSize : Nat := 28
def entryDataOffset : Nat := 24

structure Last where
  sno : UInt32
  time : Time
deriving Repr, DecidableEq

inductive UpdateStatus
  | ok
  | error
  | fullResyncNeeded
  | busy
  | nil
  | permDenied
deriving Repr, DecidableEq

inductive Fault
  | error (e : StoreError)
  | panicked
deriving DecidableEq

def lift {α : Type} : Except StoreError α → Except Fault α
  | .ok a => .ok a
  | .error e => .error (.error e)

/-! ## Headers -/

structure Header where
  hmagic : UInt32
  dbVersionNum : UInt16
  num : UInt32
  firstTime : Time
  lastTime : Time
  firstSno : UInt32
  lastSno : UInt32
  state : UInt16
  block : UInt16
deriving Repr, DecidableEq

structure EntryHeader where
  umagic : UInt32
  sno : UInt32
  time : Time
  commit : Bool
  entrySize : UInt32
deriving Repr, DecidableEq

def neU32 (b : Bytes) (i : Nat) : UInt32 := UInt32.ofNat (Wire.ofLe ((b.drop i).take 4))

def neU16 (b : Bytes) (i : Nat) : UInt16 := UInt16.ofNat (Wire.ofLe ((b.drop i).take 2))

def Header.decode (b : Bytes) : Header :=
  { hmagic := neU32 b 0
    dbVersionNum := neU16 b 4
    num := neU32 b 8
    firstTime := ⟨neU32 b 12, neU32 b 16⟩
    lastTime := ⟨neU32 b 20, neU32 b 24⟩
    firstSno := neU32 b 28
    lastSno := neU32 b 32
    state := neU16 b 36
    block := neU16 b 38 }

def Header.encode (h : Header) : Bytes :=
  Wire.le 4 h.hmagic.toNat ++ Wire.le 2 h.dbVersionNum.toNat ++ [0, 0] ++ Wire.le 4 h.num.toNat ++
    Wire.le 4 h.firstTime.seconds.toNat ++ Wire.le 4 h.firstTime.useconds.toNat ++
    Wire.le 4 h.lastTime.seconds.toNat ++ Wire.le 4 h.lastTime.useconds.toNat ++
    Wire.le 4 h.firstSno.toNat ++ Wire.le 4 h.lastSno.toNat ++ Wire.le 2 h.state.toNat ++
    Wire.le 2 h.block.toNat

def EntryHeader.decode (b : Bytes) : EntryHeader :=
  { umagic := neU32 b 0
    sno := neU32 b 4
    time := ⟨neU32 b 8, neU32 b 12⟩
    commit := neU32 b 16 ≠ 0
    entrySize := neU32 b 20 }

def EntryHeader.encode (h : EntryHeader) : Bytes :=
  Wire.le 4 h.umagic.toNat ++ Wire.le 4 h.sno.toNat ++ Wire.le 4 h.time.seconds.toNat ++
    Wire.le 4 h.time.useconds.toNat ++ Wire.le 4 (if h.commit then 1 else 0) ++
    Wire.le 4 h.entrySize.toNat

def readHeader (f : Bytes) : Header := Header.decode (read f headerSize 0)

def writeHeader (f : Bytes) (h : Header) : Bytes := write f h.encode 0

def entryOffset (index : Nat) (block : UInt16) : Nat := headerSize + index * block.toNat

def entryHeader (f : Bytes) (h : Header) (index : Nat) : EntryHeader :=
  EntryHeader.decode (read f entryDataOffset (entryOffset index h.block))

/-- The header and the XDR data of a slot. Decoding the header of a block shorter than one panics. -/
def readEntry (f : Bytes) (block : UInt16) (index : Nat) : Except Fault (EntryHeader × Bytes) :=
  let b := read f block.toNat (entryOffset index block)
  if block.toNat < entryDataOffset then .error .panicked
  else
    let h := EntryHeader.decode b
    let stop := h.entrySize.toNat + entryDataOffset
    if stop ≤ b.length then .ok (h, (b.take stop).drop entryDataOffset)
    else .error (.error (.corrupt "ulog entry size exceeds its block"))

end Ulog

/-- A mapped log. `map` refuses a log of no entries. -/
structure Ulog where
  entries : UInt32
  pos : 0 < entries.toNat
deriving DecidableEq

namespace Ulog

open Iprop (Update)

/-! ## Operations -/

def extendTo (f : Bytes) (size : Nat) : Except Fault Bytes :=
  if 2 ^ 31 - 1 < size then .error (.error (.backend "ulog too large")) else .ok (extend f size)

def slot (u : Ulog) (sno : UInt32) : Nat := ((sno - 1) % u.entries).toNat

def checkSno (u : Ulog) (f : Bytes) (h : Header) (sno : UInt32) (time : Time) : Bool :=
  let ent := entryHeader f h (u.slot sno)
  ent.sno = sno ∧ ent.time = time

def snoStatus (u : Ulog) (f : Bytes) (h : Header) (last : Last) : UpdateStatus :=
  if last.sno = h.lastSno ∧ last.time = h.lastTime then .nil
  else if h.num = 0 ∨ h.lastSno < last.sno ∨ last.sno < h.firstSno then .fullResyncNeeded
  else if u.checkSno f h last.sno last.time then .ok
  else .fullResyncNeeded

def setDummy (u : Ulog) (f : Bytes) (h : Header) (sno : UInt32) (time : Time) : Bytes × Header :=
  let ent : EntryHeader := { umagic := ulogMagic, sno, time, commit := false, entrySize := 0 }
  let b := ent.encode ++ List.replicate (entryHeaderSize - entryDataOffset) 0
  (write f b (entryOffset (u.slot sno) h.block),
    { h with num := 1, firstSno := sno, lastSno := sno, firstTime := time, lastTime := time })

def reset (u : Ulog) (f : Bytes) (now : Time) : Bytes × Header :=
  let h : Header :=
    { hmagic := hdrMagic, dbVersionNum := kdbVersion, num := 0, firstTime := ⟨0, 0⟩,
      lastTime := ⟨0, 0⟩, firstSno := 0, lastSno := 0, state := 0, block := ulogBlock }
  let (f, h) := u.setDummy f h 1 now
  let h := { h with state := kdbStable }
  (writeHeader f h, h)

def resetIf (u : Ulog) (c : Bool) (f : Bytes) (h : Header) (now : Time) : Bytes × Header :=
  if c then u.reset f now else (f, h)

/-- The block size a record of `recsize` bytes needs. -/
def blockFor (u : Ulog) (recsize : Nat) (upd : Update) : Except Fault UInt16 :=
  let newBlock := (recsize / ulogBlock.toNat + 1) * ulogBlock.toNat
  if 2 ^ 32 ≤ newBlock then .error .panicked
  else if 2 ^ 16 ≤ newBlock then
    .error (.error (.backend ("ulog overflow caused by principal " ++
      Utf8.text (Utf8.lossy upd.princName))))
  else if maxLogLen < headerSize + u.entries.toNat * newBlock then
    .error (.error (.backend "ulog would exceed its maximum size"))
  else .ok (UInt16.ofNat newBlock)

def checkFits (u : Ulog) (f : Bytes) (upd : Update) : Except Fault Unit := do
  let data ← lift upd.encode
  if 2 ^ 32 ≤ data.length then .error (.error (.backend "ulog update too large"))
  else if 2 ^ 32 ≤ entryHeaderSize + data.length then .error .panicked
  else if (readHeader f).block.toNat < entryHeaderSize + data.length then do
    let _ ← u.blockFor (entryHeaderSize + data.length) upd
    .ok ()
  else .ok ()

/-- One pass of `resize`: slot `i` moves to its new offset. -/
def moveSlot (oldBlock newBlock : UInt16) (f : Bytes) (i : Nat) : Bytes :=
  write f (read f oldBlock.toNat (entryOffset i oldBlock) ++
    List.replicate (newBlock.toNat - oldBlock.toNat) 0) (entryOffset i newBlock)

def resize (u : Ulog) (f : Bytes) (h : Header) (recsize : Nat) (upd : Update) :
    Except Fault (Bytes × Header) := do
  let newBlock ← u.blockFor recsize upd
  let f ← extendTo f (headerSize + u.entries.toNat * newBlock.toNat)
  if newBlock < h.block then .error .panicked
  else
    let f := (List.range u.entries.toNat).reverse.foldl (moveSlot h.block newBlock) f
    let h := { h with block := newBlock }
    .ok (writeHeader f h, h)

def entryOf (upd : Update) (size : Nat) (commit : Bool) : EntryHeader :=
  { umagic := ulogMagic, sno := upd.sno, time := upd.time, commit, entrySize := UInt32.ofNat size }

def advance (u : Ulog) (f : Bytes) (h : Header) (upd : Update) : Header :=
  let h := { h with lastSno := upd.sno, lastTime := upd.time }
  if h.num = 0 then { h with num := 1, firstSno := upd.sno, firstTime := upd.time }
  else if h.num < u.entries then { h with num := h.num + 1 }
  else
    let first := entryHeader f h (upd.sno % u.entries).toNat
    { h with firstSno := first.sno, firstTime := first.time }

def grow (u : Ulog) (f : Bytes) (h : Header) (recsize : Nat) (upd : Update) :
    Except Fault (Bytes × Header) :=
  if h.block.toNat < recsize then u.resize f h recsize upd else .ok (f, h)

def putEntry (u : Ulog) (f : Bytes) (h : Header) (upd : Update) (data : Bytes) : Bytes :=
  let h := { h with state := kdbUnstable }
  let f := writeHeader f h
  let offset := entryOffset (u.slot upd.sno) h.block
  let block := (entryOf upd data.length false).encode ++ data ++
    List.replicate (h.block.toNat - (entryDataOffset + data.length)) 0
  let f := write f block offset
  let f := write f (entryOf upd data.length true).encode offset
  let h := { u.advance f h upd with state := kdbStable }
  writeHeader f h

def storeUpdate (u : Ulog) (f : Bytes) (h : Header) (upd : Update) : Except Fault Bytes := do
  let data ← lift upd.encode
  if 2 ^ 32 ≤ data.length then .error (.error (.backend "ulog update too large"))
  else if 2 ^ 32 ≤ entryHeaderSize + data.length then .error .panicked
  else do
    let (f, h) ← u.grow f h (entryHeaderSize + data.length) upd
    .ok (u.putEntry f h upd data)

def append (u : Ulog) (f : Bytes) (h : Header) (upd : Update) : Except Fault Update × Bytes :=
  match u.storeUpdate f h upd with
  | .ok f => (.ok upd, f)
  | .error e => (.error e, f)

def addUpdate (u : Ulog) (f : Bytes) (upd : Update) (now : Time) : Except Fault Update × Bytes :=
  let h := readHeader f
  let (f, h) := u.resetIf (h.lastSno = 4294967295) f h now
  u.append f h { upd with sno := h.lastSno + 1, time := now }

def storeReplayed (u : Ulog) (f : Bytes) (upd : Update) (now : Time) : Except Fault Update × Bytes :=
  let h := readHeader f
  let (f, h) := u.resetIf (h.num ≠ 0 ∧ upd.sno ≠ h.lastSno + 1) f h now
  u.append f h upd

def setLast (u : Ulog) (f : Bytes) (last : Last) : Bytes :=
  let (f, h) := u.setDummy f (readHeader f) last.sno last.time
  writeHeader f h

def getLast (f : Bytes) : Except Fault Last :=
  let h := readHeader f
  .ok ⟨h.lastSno, h.lastTime⟩

def getSnoStatus (u : Ulog) (f : Bytes) (last : Last) : UpdateStatus := u.snoStatus f (readHeader f) last

def readUpdate (u : Ulog) (f : Bytes) (block : UInt16) (sno : Nat) : Except Fault Update := do
  let (ent, data) ← readEntry f block (sno % u.entries.toNat)
  let upd ← lift (Update.decode data)
  .ok { upd with commit := ent.commit }

def getEntries (u : Ulog) (f : Bytes) (last : Last) (now : Time) :
    Except Fault (UpdateStatus × List Update × Last) × Bytes :=
  let h := readHeader f
  let (f, h) := u.resetIf (h.state ≠ kdbStable) f h now
  match u.snoStatus f h last with
  | .ok =>
    let snos := (List.range (h.lastSno.toNat - last.sno.toNat)).map (last.sno.toNat + ·)
    match snos.mapM (u.readUpdate f h.block) with
    | .ok updates => (.ok (.ok, updates, ⟨h.lastSno, h.lastTime⟩), f)
    | .error e => (.error e, f)
  | status => (.ok (status, [], ⟨0, ⟨0, 0⟩⟩), f)

def mismatched (u : Ulog) (f : Bytes) (h : Header) : Bool :=
  h.num ≠ 0 ∧ (u.entries < h.num ∨ u.checkSno f h h.firstSno h.firstTime = false ∨
    u.checkSno f h h.lastSno h.lastTime = false)

def lengthen (u : Ulog) (f : Bytes) (h : Header) : Except Fault Unit × Bytes :=
  if h.num ≠ u.entries then
    match extendTo f (headerSize + u.entries.toNat * h.block.toNat) with
    | .ok f => (.ok (), f)
    | .error e => (.error e, f)
  else (.ok (), f)

def checkOnMap (u : Ulog) (path : String) (f : Bytes) (now : Time) : Except Fault Unit × Bytes :=
  let h := readHeader f
  if h.hmagic ≠ hdrMagic ∧ h.hmagic ≠ 0 then
    (.error (.error (.corrupt ("ulog " ++ path ++ " has a corrupt header"))), f)
  else
    let (f, h) := u.resetIf (h.hmagic ≠ hdrMagic) f h now
    let (f, h) := u.resetIf (u.mismatched f h) f h now
    u.lengthen f h

def map (path : String) (file : Option Bytes) (entries : UInt32) (now : Time) :
    Except Fault Ulog × Option Bytes :=
  if hpos : 0 < entries.toNat then
    let u : Ulog := ⟨entries, hpos⟩
    let created : Except Fault Bytes × Bytes := match file with
      | some f => (.ok f, f)
      | none => (extendTo [] (headerSize + entries.toNat * ulogBlock.toNat), [])
    match created with
    | (.error e, f) => (.error e, some f)
    | (.ok f, _) =>
      match u.checkOnMap path f now with
      | (.ok (), f) => (.ok u, some f)
      | (.error e, f) => (.error e, some f)
  else (.error (.error (.backend "iprop_ulogsize must be positive")), file)

/-! ## Runs -/

inductive Op
  | map (path : String) (entries : UInt32) (now : Time)
  | reset (now : Time)
  | setLast (last : Last)
  | addUpdate (upd : Update) (now : Time)
  | storeReplayed (upd : Update) (now : Time)
  | getEntries (last : Last) (now : Time)

/-- The file, the log as last mapped, and every update stored so far, the newest first. -/
structure World where
  file : Option Bytes
  handle : Option Ulog
  stored : List Update

def World.init : World := ⟨none, none, []⟩

def World.mapped (w : World) : Except Fault Ulog × Option Bytes → Option World
  | (.ok u, file) => some { w with file, handle := some u }
  | (.error (.error _), file) => some { w with file }
  | (.error .panicked, _) => none

def World.appended (w : World) : Except Fault Update × Bytes → Option World
  | (.ok upd, f) => some { w with file := some f, stored := upd :: w.stored }
  | (.error (.error _), f) => some { w with file := some f }
  | (.error .panicked, _) => none

def World.withLog (w : World) (op : Ulog → Bytes → Option World) : Option World :=
  match w.handle, w.file with
  | some u, some f => op u f
  | _, _ => some w

def step (w : World) : Op → Option World
  | .map path entries now => w.mapped (map path w.file entries now)
  | .reset now => w.withLog fun u f => some { w with file := some (u.reset f now).1 }
  | .setLast last => w.withLog fun u f => some { w with file := some (u.setLast f last) }
  | .addUpdate upd now => w.withLog fun u f => w.appended (u.addUpdate f upd now)
  | .storeReplayed upd now => w.withLog fun u f => w.appended (u.storeReplayed f upd now)
  | .getEntries last now => w.withLog fun u f =>
    match u.getEntries f last now with
    | (.error .panicked, _) => none
    | (_, f) => some { w with file := some f }

def run (w : World) : List Op → Option World
  | [] => some w
  | op :: ops =>
    match step w op with
    | none => none
    | some w => run w ops

end Ulog

end Krb5Rs
