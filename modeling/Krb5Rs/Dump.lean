import Krb5Rs.MitEntry
import Krb5Rs.Scan

/-!
# Dump files

The text format of `kdb5_util dump` and `load`: `write_dump`, and the loader of
`kdb/mit/dump.rs` with its `fscanf` rules.
-/

namespace Krb5Rs

open Wire (Bytes Reader times)
open Utf8 (Str)
open Scan (natText intText num token expect)

inductive DumpVersion
  | beta7
  | r13
  | r18
  | r111
deriving Repr, DecidableEq

def DumpVersion.header : DumpVersion → Bytes
  | .beta7 => ascii "kdb5_util load_dump version 4\n"
  | .r13 => ascii "kdb5_util load_dump version 5\n"
  | .r18 => ascii "kdb5_util load_dump version 6\n"
  | .r111 => ascii "kdb5_util load_dump version 7\n"

def DumpVersion.fromHeader (line : Bytes) : Option DumpVersion :=
  [DumpVersion.beta7, .r13, .r18, .r111].find? fun v => v.header = line

namespace Dump

/-! ## Writing -/

def baseLength : Nat := 38

def maxAllowedKsLen : Nat := 512

def octetText (data : Bytes) : Bytes :=
  (if data = [] then ascii "-1" else []) ++ data.flatMap Scan.hexText

def u32AsI32 (v : UInt32) : Bytes := intText v.toInt32.toInt

def tlItem (t : TlData) : Bytes :=
  [9] ++ intText t.kind.toInt16.toInt ++ [9] ++ natText t.data.length ++ [9] ++ octetText t.data

def tlList (tlData : List TlData) (filterKadm : Bool) : Bytes :=
  (tlData.filter fun t => ¬ (filterKadm ∧ t.kind = kadmData)).flatMap tlItem

def keyField (field : Int16 × Bytes) : Bytes :=
  intText field.1.toInt ++ [9] ++ natText field.2.length ++ [9] ++ octetText field.2 ++ [9]

def keyItem (key : KeyData) : Bytes :=
  intText key.ver.toInt16.toInt ++ [9] ++ natText key.kvno.toNat ++ [9] ++ key.fields.flatMap keyField

section
variable [Alphabet]

def principalRecord (e : MitEntry) (version : DumpVersion) : Bytes :=
  let kadm : Bool := version ≠ .beta7
  let name := unparseName e.principal e.realm
  let tlCount := (e.tlData.filter fun t => kadm ∨ t.kind ≠ kadmData).length
  ascii "princ" ++ [9] ++ natText baseLength ++ [9] ++ natText name.length ++ [9] ++ natText tlCount ++
    [9] ++ natText e.keyData.length ++ [9] ++ ascii "0" ++ [9] ++ name ++
    [9] ++ u32AsI32 e.attributes ++ [9] ++ u32AsI32 e.maxLife ++ [9] ++ u32AsI32 e.maxRenewableLife ++
    [9] ++ natText e.expiration.toNat ++ [9] ++ natText e.pwExpiration.toNat ++
    [9] ++ natText e.lastSuccess.toNat ++ [9] ++ natText e.lastFailed.toNat ++
    [9] ++ u32AsI32 e.failAuthCount ++ tlList e.tlData (!kadm) ++ [9] ++ e.keyData.flatMap keyItem ++
    ascii "-1;\n"

end

def keysaltsText (p : MitPolicy) : Bytes :=
  match p.allowedKeysalts with
  | some s => s.bytes
  | none => ascii "-"

def policyRecord (p : MitPolicy) (version : DumpVersion) : Bytes :=
  ascii "policy" ++ [9] ++ p.name.bytes ++ [9] ++ u32AsI32 p.pwMinLife ++ [9] ++ u32AsI32 p.pwMaxLife ++
    [9] ++ u32AsI32 p.pwMinLength ++ [9] ++ u32AsI32 p.pwMinClasses ++ [9] ++ u32AsI32 p.pwHistoryNum ++
    [9] ++ ascii "0" ++
    (if version = .r18 ∨ version = .r111 then
      [9] ++ u32AsI32 p.pwMaxFail ++ [9] ++ u32AsI32 p.pwFailcntInterval ++
        [9] ++ u32AsI32 p.pwLockoutDuration
    else []) ++
    (if version = .r111 then
      [9] ++ u32AsI32 p.attributes ++ [9] ++ u32AsI32 p.maxLife ++ [9] ++ u32AsI32 p.maxRenewableLife ++
        [9] ++ keysaltsText p ++ [9] ++ natText p.tlData.length ++ tlList p.tlData false
    else []) ++ [10]

def writeDump [Alphabet] (version : DumpVersion) (entries : List MitEntry) (policies : List MitPolicy) :
    Bytes :=
  version.header ++ entries.flatMap (principalRecord · version) ++ policies.flatMap (policyRecord · version)

/-! ## Reading -/

inductive Record [Alphabet]
  | principal (e : MitEntry)
  | policy (p : MitPolicy)
deriving DecidableEq

structure LoadError where
  messages : List String
  line : Nat
deriving Repr, DecidableEq

structure Place where
  fname : String
  line : Nat

def Place.loadErr (p : Place) (msg : String) : LoadError :=
  ⟨[p.fname ++ "(" ++ toString p.line ++ "): " ++ msg], p.line⟩

def Place.fail (p : Place) (msg : String) : LoadError := ⟨[msg], p.line⟩

abbrev Load (α : Type) := Reader LoadError α

/-- `%u`, with C's wraparound. -/
def unsigned (bs : Bytes) : Option UInt32 × Bytes :=
  let (n, rest) := num bs
  (n.map UInt32.ofInt, rest)

/-- `read_octets_or_minus1`. -/
def octets (len : Nat) (bs : Bytes) : Option Bytes × Bytes :=
  if len = 0 then
    match num bs with
    | (some n, rest) => (if n = -1 then some [] else none, rest)
    | (none, rest) => (none, rest)
  else Scan.octets len bs

def atEof : Load Bool := fun bs => .ok ((Scan.skip bs).isEmpty, Scan.skip bs)

def tlDatum (place : Place) : Load TlData := do
  let kind ← expect num (place.loadErr "cannot read tagged data type and length")
  let len ← expect num (place.loadErr "cannot read tagged data type and length")
  let len := UInt32.ofInt len
  if ¬ (-2 ^ 15 ≤ kind ∧ kind < 2 ^ 15) ∨ 2 ^ 16 ≤ len.toNat then
    Wire.fail (place.loadErr "data type or length overflowed")
  else do
    let data ← expect (octets len.toNat) (place.loadErr "cannot read tagged data contents")
    pure ⟨(Int16.ofInt kind).toUInt16, data⟩

def tlData (place : Place) (count : Nat) : Load (List TlData) := times (tlDatum place) count

def keyDataField (place : Place) : Load (Int16 × Bytes) := do
  let kind ← expect num (place.loadErr "cannot read key type and length")
  let len ← expect num (place.loadErr "cannot read key type and length")
  if ¬ (0 ≤ len ∧ len < 2 ^ 16) then Wire.fail (place.loadErr "cannot read key type and length")
  else do
    let data ← expect (octets len.toNat) (place.loadErr "cannot read key data")
    pure (Int16.ofInt kind, data)

def keyDatum (place : Place) : Load KeyData := do
  let ver ← expect num (place.loadErr "cannot read key size and version")
  let kvno ← expect num (place.loadErr "cannot read key size and version")
  if 2 < ver then Wire.fail (place.loadErr "unsupported key_data_ver version")
  else if ¬ (0 ≤ kvno ∧ kvno < 2 ^ 16) then Wire.fail (place.loadErr "invalid kvno")
  else do
    let fields ← times (keyDataField place) ver.toNat
    pure { ver := UInt16.ofInt ver, kvno := UInt16.ofInt kvno, fields }

/-- `read_record_end`: what stands before the end of the line is reported, not fatal. -/
def recordEnd (place : Place) : Load (List String) := fun bs =>
  if bs.take 2 = ascii ";\n" then .ok ([], bs.drop 2)
  else
    let n := match bs.findIdx? (· = 10) with
      | some i => i + 1
      | none => bs.length
    let trash := ((Utf8.lossy (bs.take n)).reverse.dropWhile (· = 10)).reverse
    .ok ([place.fname ++ "(" ++ toString place.line ++ "): ignoring trash at end of line: " ++ Utf8.text trash],
      bs.drop n)

def readName (place : Place) (n : Nat) : Load Bytes := fun bs =>
  let bs := Scan.skip bs
  if n ≤ bs.length then .ok (bs.take n, bs.drop n) else .error (place.loadErr "cannot read name string")

section
variable [Alphabet]

def parseLoaded (place : Place) (name : Bytes) : Load (PrincipalName × Str) :=
  match parseName name with
  | .ok p => pure p
  | .error e =>
    Wire.fail (place.fail (e.display ++ " while parsing name " ++ Utf8.text (Utf8.lossy name)))

def principal (place : Place) : Load (MitEntry × Nat × List String) := do
  let place : Place := { place with line := place.line + 1 }
  let size := expect unsigned (place.loadErr "cannot match size tokens")
  let _len ← size
  let nameLen ← size
  let tlCount ← size
  let keyCount ← size
  let eLength ← size
  if (2 ^ 32 - 1) / 2 < nameLen.toNat then
    Wire.fail (place.loadErr "cannot allocate principal (too large)")
  else if 2 ^ 16 - 1 < tlCount.toNat then Wire.fail (place.loadErr "cannot allocate tl_data (too large)")
  else if 2 ^ 15 - 1 < keyCount.toNat then Wire.fail (place.loadErr "invalid key_data size")
  else if 2 ^ 16 - 1 < eLength.toNat then Wire.fail (place.loadErr "invalid principal extra data size")
  else do
    let name ← readName place nameLen.toNat
    let place : Place := { place with line := place.line + name.count 10 }
    let (principal, realm) ← parseLoaded place name
    let field := expect unsigned (place.loadErr "cannot read principal attributes")
    let attributes ← field
    let maxLife ← field
    let maxRenewableLife ← field
    let expiration ← field
    let pwExpiration ← field
    let lastSuccess ← field
    let lastFailed ← field
    let failAuthCount ← field
    let tlData ← tlData place tlCount.toNat
    let keyData ← times (keyDatum place) keyCount.toNat
    let _ ← expect (octets eLength.toNat) (place.loadErr "cannot read extra data")
    let warnings ← recordEnd place
    pure ({ principal, realm, attributes, maxLife, maxRenewableLife, expiration, pwExpiration,
            lastSuccess, lastFailed, failAuthCount, tlData, keyData }, place.line, warnings)

end

def policyField (place : Place) (read : Nat) : Load UInt32 :=
  expect unsigned (place.fail ("cannot parse policy (" ++ toString read ++ " read)"))

def policyExtra (place : Place) (p : MitPolicy) : Load MitPolicy := do
  let attributes ← policyField place 0
  let maxLife ← policyField place 1
  let maxRenewableLife ← policyField place 2
  let keysalts ← expect (token maxAllowedKsLen) (place.fail "cannot parse policy (3 read)")
  let count ← expect num (place.fail "cannot parse policy (4 read)")
  if ¬ (-2 ^ 15 ≤ count ∧ count < 2 ^ 15) then Wire.fail (place.fail "cannot parse policy (4 read)")
  else do
    let tlData ← tlData place count.toNat
    pure { p with
      attributes, maxLife, maxRenewableLife, tlData
      allowedKeysalts := if keysalts = ascii "-" then none else some (Utf8.lossyStr keysalts) }

def nextByte : Load (Option UInt8) := fun bs =>
  match bs with
  | [] => .ok (none, [])
  | b :: rest => .ok (some b, rest)

def policyR111 (place : Place) (p : MitPolicy) : Load (Option MitPolicy) := do
  let some next ← nextByte | pure none
  if next = 10 then pure (some p)
  else do
    let eof ← atEof
    if eof then pure none
    else do
      let p ← policyExtra place p
      pure (some p)

def policyR18 (version : DumpVersion) (place : Place) (p : MitPolicy) : Load (Option MitPolicy) := do
  let pwMaxFail ← policyField place 7
  let pwFailcntInterval ← policyField place 8
  let pwLockoutDuration ← policyField place 9
  let p := { p with pwMaxFail, pwFailcntInterval, pwLockoutDuration }
  if version ≠ .r111 then pure (some p) else policyR111 place p

def policyName : Load (Option Bytes) := fun bs =>
  let (name, rest) := token 1023 bs
  .ok (name, rest)

def policyBase (place : Place) (name : Bytes) : Load MitPolicy := do
  let pwMinLife ← policyField place 1
  let pwMaxLife ← policyField place 2
  let pwMinLength ← policyField place 3
  let pwMinClasses ← policyField place 4
  let pwHistoryNum ← policyField place 5
  let _refcnt ← policyField place 6
  pure
    { name := Utf8.lossyStr name, pwMinLife, pwMaxLife, pwMinLength, pwMinClasses, pwHistoryNum,
      pwMaxFail := 0, pwFailcntInterval := 0, pwLockoutDuration := 0, attributes := 0, maxLife := 0,
      maxRenewableLife := 0, allowedKeysalts := none, tlData := [] }

def policy (version : DumpVersion) (place : Place) : Load (Option MitPolicy) := do
  let some name ← policyName | pure none
  let p ← policyBase place name
  if version = .beta7 ∨ version = .r13 then pure (some p) else policyR18 version place p

section
variable [Alphabet]

/-- A record, the line it ends on and its warnings; `none` at the end of the input. -/
def nextRecord (version : DumpVersion) (place : Place) : Load (Option (Record × Nat × List String)) := do
  let eof ← atEof
  if eof then pure none
  else do
    let tag ← expect (token 99) (place.fail "")
    if tag = ascii "princ" then do
      let eof ← atEof
      if eof then pure none
      else do
        let (e, line, warnings) ← principal place
        pure (some (.principal e, line, warnings))
    else if tag = ascii "policy" then do
      let place : Place := { place with line := place.line + 1 }
      let p ← policy version place
      pure (p.map fun p => (.policy p, place.line, []))
    else if tag = ascii "End" then pure none
    else Wire.fail (place.fail ("unknown record type \"" ++ Utf8.text (Utf8.lossy tag) ++ "\""))

inductive LoadFailure
  | header (message : String)
  | record (version : DumpVersion) (error : LoadError) (warnings : List String)
deriving DecidableEq

/-- The records from line `line` on. Each record takes at least its tag, so `fuel` beyond the
length of the input is never used up. -/
def readRecordsAux (version : DumpVersion) (fname : String) :
    Nat → Nat → List String → Bytes → Except LoadFailure (List Record × List String)
  | 0, _, warnings, _ => .ok ([], warnings)
  | fuel + 1, line, warnings, body =>
    match nextRecord version ⟨fname, line⟩ body with
    | .error error => .error (.record version error warnings)
    | .ok (none, _) => .ok ([], warnings)
    | .ok (some (record, line, more), rest) => do
      let (records, warnings) ← readRecordsAux version fname fuel line (warnings ++ more) rest
      .ok (record :: records, warnings)

def readRecords (body : Bytes) (fname : String) (version : DumpVersion) :
    Except LoadFailure (List Record × List String) :=
  readRecordsAux version fname (body.length + 1) 1 [] body

def readHeader (data : Bytes) (fname : String) (forced : Option DumpVersion) :
    Except String (DumpVersion × Bytes) :=
  let stop := match data.findIdx? (· = 10) with
    | some i => i + 1
    | none => data.length
  if stop = 0 then .error ("can't read dump header in " ++ fname)
  else
    let header := data.take stop
    let version := match forced with
      | some v => if v.header.isPrefixOf header then some v else none
      | none => DumpVersion.fromHeader header
    match version with
    | some v => .ok (v, data.drop stop)
    | none => .error ("dump header bad in " ++ fname)

def readDump (data : Bytes) (fname : String) (forced : Option DumpVersion) :
    Except LoadFailure (DumpVersion × List Record × List String) :=
  match readHeader data fname forced with
  | .error message => .error (.header message)
  | .ok (version, body) => do
    let (records, warnings) ← readRecords body fname version
    .ok (version, records, warnings)

end

end Dump

end Krb5Rs
