import Krb5Rs.Master

/-!
# FILE keytabs

`keytab/file.rs`: records of signed size, a negative size for the hole a
deleted record leaves. Numbers of a v1 file are in the host's order, little
endian here; v2 is big endian, and the only format written.
-/

namespace Krb5Rs

open Wire (Bytes Reader be ofBe ofLe)
open Utf8 (Str)

namespace Keytab

structure KeytabEntry [Alphabet] where
  principal : PrincipalName
  realm : Str
  timestamp : UInt32
  kvno : UInt32
  key : EncryptionKey
deriving DecidableEq

inductive KtError
  | notFound
  | kvnoNotFound
  | format
  | endOfFile
  | io
deriving Repr, DecidableEq

def beI16 (v : Int16) : Bytes := be 2 v.toUInt16.toNat

def beI32 (v : Int32) : Bytes := be 4 v.toUInt32.toNat

def number (v1 : Bool) (bs : Bytes) : Nat := if v1 then ofLe bs else ofBe bs

section
variable [Alphabet]

/-! ## Records -/

def component (c : GeneralString) : Bytes := beI16 (.ofNat c.bytes.length) ++ c.bytes

def entryBody (e : KeytabEntry) : Bytes :=
  beI16 (.ofNat e.principal.nameString.length) ++ beI16 (.ofNat e.realm.bytes.length) ++ e.realm.bytes ++
    e.principal.nameString.flatMap component ++ beI32 e.principal.nameType ++ be 4 e.timestamp.toNat ++
    [e.kvno.toUInt8] ++ beI16 e.key.keytype.toInt16 ++ beI16 (.ofNat e.key.keyBytes.length) ++ e.key.keyBytes ++
    be 4 e.kvno.toNat

def readI16 (v1 : Bool) : Reader KtError Int16 := do
  let bs ← Wire.take .format 2
  pure (UInt16.ofNat (number v1 bs)).toInt16

def readI32 (v1 : Bool) : Reader KtError Int32 := do
  let bs ← Wire.take .format 4
  pure (UInt32.ofNat (number v1 bs)).toInt32

/-- A positive length and that many bytes; any other length ends the file. -/
def readSized (v1 : Bool) : Reader KtError Bytes := do
  let len ← readI16 v1
  if len ≤ 0 then Wire.fail .endOfFile else Wire.take .format len.toInt.toNat

def permitted (bs : Bytes) : Reader KtError GeneralString :=
  match GeneralString.fromBytes bs with
  | some c => pure c
  | none => Wire.fail .format

def readComponent (v1 : Bool) : Reader KtError GeneralString := do
  let bs ← readSized v1
  permitted bs

def readComponents (v1 : Bool) (count : Int16) : Reader KtError (List GeneralString) :=
  Wire.times (readComponent v1) count.toInt.toNat

def readNameType (v1 : Bool) : Reader KtError Int32 := if v1 then pure 0 else readI32 v1

def readCount (v1 : Bool) : Reader KtError Int16 := do
  let count ← readI16 v1
  let count := if v1 then count - 1 else count
  if count ≤ 0 then Wire.fail .endOfFile else pure count

def readVno32 (v1 : Bool) (kvno : UInt32) : Reader KtError UInt32 := fun rest =>
  let vno32 := UInt32.ofNat (number v1 (rest.take 4))
  .ok (if 4 ≤ rest.length ∧ vno32 ≠ 0 then vno32 else kvno, rest)

def readEntry (v1 : Bool) : Reader KtError KeytabEntry := do
  let count ← readCount v1
  let realm ← readSized v1
  let comps ← readComponents v1 count
  let nameType ← readNameType v1
  let timestamp ← readI32 v1
  let kvno8 ← Wire.take .format 1
  let etype ← readI16 v1
  let key ← readSized v1
  let kvno ← readVno32 v1 (kvno8.headD 0).toUInt32
  pure ⟨⟨nameType, comps⟩, Utf8.lossyStr realm, timestamp.toUInt32, kvno, ⟨etype.toInt32, key⟩⟩

def parseEntry (d : Bytes) (v1 : Bool) : Except KtError KeytabEntry := (readEntry v1 d).map (·.1)

def recordEntry (v1 hole : Bool) (body : Bytes) : Except KtError (Option KeytabEntry) :=
  if hole then .ok none else (parseEntry body v1).map some

def recordsFrom (v1 : Bool) : Nat → Nat → Bytes → Except KtError (List (Nat × Nat × Option KeytabEntry))
  | 0, _, _ => .ok []
  | fuel + 1, pos, rest =>
    if rest.length < 4 then .ok []
    else
      let size := (UInt32.ofNat (number v1 (rest.take 4))).toInt32
      if size = Int32.minValue then .error .format
      else if size = 0 then .ok []
      else
        let n := size.toInt.natAbs
        if rest.length < 4 + n then .error .format
        else
          match recordEntry v1 (size < 0) ((rest.drop 4).take n) with
          | .error .endOfFile => .ok []
          | .error e => .error e
          | .ok entry => do
            let out ← recordsFrom v1 fuel (pos + 4 + n) (rest.drop (4 + n))
            .ok ((pos, n, entry) :: out)

def fileVersion (data : Bytes) : Except KtError Bool :=
  if data.length < 2 then .error .format
  else if data.take 2 = [5, 1] then .ok true
  else if data.take 2 = [5, 2] then .ok false
  else .error .format

def records (file : Option Bytes) : Except KtError (List (Nat × Nat × Option KeytabEntry)) :=
  match file with
  | none => .ok []
  | some data => do
    let v1 ← fileVersion data
    recordsFrom v1 data.length 2 (data.drop 2)

def entries (file : Option Bytes) : Except KtError (List KeytabEntry) := do
  let rs ← records file
  .ok (rs.filterMap (·.2.2))

/-! ## Writes -/

def ensureWritable (file : Option Bytes) : Except KtError Unit :=
  match file with
  | none => .ok ()
  | some data =>
    if data.length < 2 then .error .format else if data.take 2 = [5, 1] then .error .format else .ok ()

/-- Where an entry is written: a hole of a size at a position, or the place after the last record. -/
inductive Slot
  | reuse (pos hole : Nat)
  | append (pos : Nat)
deriving Repr, DecidableEq

/-- `as usize` of a signed number. -/
def asUsize (n : Int32) : Nat := (n.toInt % 2 ^ 64).toNat

/-- The first hole large enough, in `rest`, which starts at `pos`. -/
def findSlot (needed : Int32) : Nat → Nat → Bytes → Except KtError Slot
  | 0, pos, _ => .ok (.append pos)
  | fuel + 1, pos, rest =>
    if rest.length < 4 then .ok (.append pos)
    else
      let size := (UInt32.ofNat (ofBe (rest.take 4))).toInt32
      let n := size.toInt.natAbs
      if size = Int32.minValue then .error .format
      else if size < 0 ∧ asUsize needed ≤ n then .ok (.reuse pos n)
      else if size = 0 then .ok (.append pos)
      else findSlot needed fuel (pos + 4 + n) (rest.drop (4 + n))

def fillSlot (data body : Bytes) : Slot → Bytes
  | .reuse pos hole =>
    data.take pos ++ beI32 (.ofNat hole) ++ body ++ List.replicate (hole - body.length) 0 ++ data.drop (pos + 4 + hole)
  | .append pos =>
    let rec_ := beI32 (.ofNat body.length) ++ body
    if pos + 4 ≤ data.length then data.take pos ++ rec_ ++ data.drop (pos + 4) else data ++ rec_

def addEntry (file : Option Bytes) (entry : KeytabEntry) : Except KtError (Option Bytes) := do
  ensureWritable file
  let data := file.getD [5, 2]
  let body := entryBody entry
  let slot ← findSlot (.ofNat body.length) data.length 2 (data.drop 2)
  .ok (some (fillSlot data body slot))

def sameKey (e entry : KeytabEntry) : Bool :=
  e.principal.nameString = entry.principal.nameString ∧ e.realm = entry.realm ∧ e.kvno = entry.kvno ∧
    e.key.keytype = entry.key.keytype

def eraseRecord (data : Bytes) (off size : Nat) : Bytes :=
  data.take off ++ beI32 (-.ofNat size) ++ List.replicate size 0 ++ data.drop (off + 4 + size)

def readFile (file : Option Bytes) : Except KtError Bytes :=
  match file with
  | some data => .ok data
  | none => .error .io

def removeRecord (data : Bytes) (rs : List (Nat × Nat × Option KeytabEntry)) (entry : KeytabEntry) :
    Except KtError (Option Bytes) :=
  match rs.find? fun r => r.2.2.any (sameKey · entry) with
  | some r => .ok (some (eraseRecord data r.1 r.2.1))
  | none => .error .notFound

def removeEntry (file : Option Bytes) (entry : KeytabEntry) : Except KtError (Option Bytes) := do
  ensureWritable file
  let data ← readFile file
  let rs ← records file
  removeRecord data rs entry

/-! ## Runs -/

inductive KeytabOp
  | add (entry : KeytabEntry)
  | remove (entry : KeytabEntry)

def KeytabOp.apply (file : Option Bytes) : KeytabOp → Except KtError (Option Bytes)
  | .add entry => addEntry file entry
  | .remove entry => removeEntry file entry

def runOps : Option Bytes → List KeytabOp → Option Bytes × List Bool
  | file, [] => (file, [])
  | file, op :: ops =>
    match op.apply file with
    | .ok file' => ((runOps file' ops).1, true :: (runOps file' ops).2)
    | .error _ => ((runOps file ops).1, false :: (runOps file ops).2)

end

end Keytab

end Krb5Rs
