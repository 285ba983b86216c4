import Krb5Rs.Window

/-!
# Per-message sequence state of the GSS mechanism

`SeqState` and its `check` follow `gssapi/seqstate.rs`. Arithmetic on `u64` is
Rust's: `overflowChecks` says whether the build panics on overflow (`none`) or
wraps, masking shift amounts to the word size.
-/

namespace Krb5Rs

def addU64 (overflowChecks : Bool) (a b : UInt64) : Option UInt64 :=
  if overflowChecks = true ∧ 2 ^ 64 ≤ a.toNat + b.toNat then none else some (a + b)

def shlU64 (overflowChecks : Bool) (x n : UInt64) : Option UInt64 :=
  if overflowChecks = true ∧ 64 ≤ n then none else some (x <<< n)

inductive SeqStatus
  | complete
  | gap
  | unseq
  | old
  | duplicate
deriving Repr, DecidableEq

structure SeqState where
  doReplay : Bool
  doSequence : Bool
  seqmask : UInt64
  base : UInt64
  next : UInt64
  recvmap : UInt64
deriving Repr, DecidableEq

/-- `u64::MAX` for 64-bit sequence numbers, `u32::MAX` otherwise. -/
def seqmaskOf (wide : Bool) : UInt64 :=
  if wide then 0xffffffffffffffff else 0xffffffff

def SeqState.new (base : UInt64) (doReplay doSequence wide : Bool) : SeqState where
  doReplay := doReplay
  doSequence := doSequence
  seqmask := seqmaskOf wide
  base := base
  next := 0
  recvmap := 0

def SeqState.check (overflowChecks : Bool) (s : SeqState) (seq : UInt64) :
    Option (SeqState × SeqStatus) :=
  if s.doReplay = false ∧ s.doSequence = false then
    some (s, .complete)
  else
    let rel := (seq - s.base) &&& s.seqmask
    if s.next ≤ rel then do
      let offset := rel - s.next
      let recvmap ← if 64 ≤ offset then some 1 else do
        let amount ← addU64 overflowChecks offset 1
        let shifted ← shlU64 overflowChecks s.recvmap amount
        some (shifted ||| 1)
      let after ← addU64 overflowChecks rel 1
      let status := if 0 < offset ∧ s.doSequence = true then .gap else .complete
      some ({ s with recvmap := recvmap, next := after &&& s.seqmask }, status)
    else
      let offset := s.next - rel
      if 64 < offset then
        some (s, if s.doSequence then .unseq else .old)
      else
        let bit := (1 : UInt64) <<< (offset - 1)
        if s.doReplay = true ∧ s.recvmap &&& bit ≠ 0 then
          some (s, .duplicate)
        else
          some ({ s with recvmap := s.recvmap ||| bit }, if s.doSequence then .unseq else .complete)

/-- The statuses of successive calls, `none` when a call panics. -/
def SeqState.checkAll (overflowChecks : Bool) : SeqState → List UInt64 → Option (List SeqStatus)
  | _, [] => some []
  | s, seq :: rest => do
    let (s', status) ← s.check overflowChecks seq
    let statuses ← s'.checkAll overflowChecks rest
    some (status :: statuses)

/-! ## The window as a set of numbers -/

/-- What a replay-checking receiver says of relative number `n` after the
relative numbers `earlier`, remembering all of them. -/
def windowStatus (doSequence : Bool) (earlier : List Nat) (n : Nat) : SeqStatus :=
  if Window.edge earlier ≤ n then
    if Window.edge earlier < n ∧ doSequence = true then .gap else .complete
  else if 64 < Window.edge earlier - n then
    if doSequence then .unseq else .old
  else if n ∈ earlier then .duplicate
  else if doSequence then .unseq else .complete

def windowStatuses (doSequence : Bool) : List Nat → List Nat → List SeqStatus
  | _, [] => []
  | earlier, n :: rest =>
    windowStatus doSequence earlier n :: windowStatuses doSequence (earlier ++ [n]) rest

/-- The number `check` works with: the distance from `base`, masked. -/
def relative (base : UInt64) (wide : Bool) (seq : UInt64) : Nat :=
  ((seq - base) &&& seqmaskOf wide).toNat

/-- No number arrives exactly 63 above the one expected next. -/
def NoEdgeJump : List Nat → List Nat → Prop
  | _, [] => True
  | earlier, n :: rest => n ≠ Window.edge earlier + 63 ∧ NoEdgeJump (earlier ++ [n]) rest

instance decidableNoEdgeJump : ∀ earlier l : List Nat, Decidable (NoEdgeJump earlier l)
  | _, [] => isTrue trivial
  | earlier, n :: rest =>
    have := decidableNoEdgeJump (earlier ++ [n]) rest
    inferInstanceAs (Decidable (n ≠ Window.edge earlier + 63 ∧ NoEdgeJump (earlier ++ [n]) rest))

end Krb5Rs
