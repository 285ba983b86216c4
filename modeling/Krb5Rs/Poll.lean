import Krb5Rs.Cockroach

/-!
# Polling the replication log

`scan_buckets`, `prune` and `poll` of the Cockroach backend. A row of the log is
in the bucket of the time its transaction started and is ordered by the
timestamp it committed at. Reads are made at a timestamp of their own and see
what was committed by then, so the log is given with its whole history: every
row that is ever committed and every `prune` that is.
-/

namespace Krb5Rs

open TicketPolicy (saturatingAdd)

/-- A row of `replication_log`; `start` is `now()` of its transaction in nanoseconds since 1970. -/
structure LoggedRow where
  id : Nat
  start : Nat
  commit : ReplicationTs
  row : LogRow

/-- A `prune` transaction: the timestamp it reads, the age it keeps in nanoseconds, and when it commits. -/
structure Prune where
  ts : ReplicationTs
  olderThan : Nat
  commit : ReplicationTs

/-- `replication_log` with its history, and the columns of `replication_meta`. -/
structure ReplicationLog where
  bucketWidthSeconds : Int
  transactionTimeoutMs : Int
  prunedBefore : ReplicationTs
  rows : List LoggedRow
  prunes : List Prune

structure PollRead where
  upto : ReplicationTs
  rows : List LoggedRow
  truncated : Bool

def saturatingSub (a b : Int) : Int := saturatingAdd a (-b)

def commitSkewMarginNs : Int := 5000000000

def scanBuckets (since upto : ReplicationTs) (transactionTimeoutMs bucketWidthSeconds : Int) : Int × Int :=
  let overlap := min (max transactionTimeoutMs 0 * 1000000 + commitSkewMarginNs) (2 ^ 63 - 1)
  (saturatingSub since.wallNanos overlap / 1000000000 / bucketWidthSeconds,
    upto.wallNanos / 1000000000 / bucketWidthSeconds)

def Prune.cutoff (p : Prune) : ReplicationTs := ⟨saturatingSub p.ts.wallNanos p.olderThan, 0⟩

namespace ReplicationLog

/-- `floor(EXTRACT(EPOCH FROM now()) / bucket_width_seconds)`. -/
def bucket (log : ReplicationLog) (r : LoggedRow) : Int := r.start / (1000000000 * log.bucketWidthSeconds)

def oldestBucket (log : ReplicationLog) (p : Prune) : Int :=
  (scanBuckets p.cutoff p.cutoff log.transactionTimeoutMs log.bucketWidthSeconds).1

/-- `DELETE FROM replication_log WHERE bucket < $1`, of the rows there are when the transaction commits. -/
def Deletes (log : ReplicationLog) (p : Prune) (r : LoggedRow) : Prop :=
  r.commit ≤ p.commit ∧ log.bucket r < log.oldestBucket p

instance (log : ReplicationLog) (p : Prune) (r : LoggedRow) : Decidable (log.Deletes p r) :=
  inferInstanceAs (Decidable (_ ∧ _))

def visible (log : ReplicationLog) (t : ReplicationTs) : List LoggedRow :=
  log.rows.filter fun r => r.commit ≤ t ∧ ∀ p ∈ log.prunes, p.commit ≤ t → ¬ log.Deletes p r

/-- `pruned_before` as a read at `t` sees it. -/
def watermark (log : ReplicationLog) (t : ReplicationTs) : ReplicationTs :=
  (log.prunes.filter fun p => p.commit ≤ t).foldl (fun w p => max w p.cutoff) log.prunedBefore

def badMeta : StoreError := .corrupt "replication bucket width and transaction timeout must be positive"

/-- The log after a `prune`, with the cutoff and the number of rows deleted. -/
def prune (log : ReplicationLog) (p : Prune) : Except StoreError (ReplicationLog × ReplicationTs × Nat) :=
  if 2 ^ 63 ≤ p.olderThan then .error (.backend "duration out of range")
  else if log.bucketWidthSeconds ≤ 0 ∨ log.transactionTimeoutMs ≤ 0 then .error badMeta
  else
    .ok ({ log with prunes := log.prunes ++ [p] }, p.cutoff,
      ((log.visible p.commit).filter fun r => log.bucket r < log.oldestBucket p).length)

/-- `ORDER BY crdb_internal_mvcc_timestamp, bucket, id`. -/
def Follows (log : ReplicationLog) (a b : LoggedRow) : Prop :=
  a.commit < b.commit ∨ a.commit = b.commit ∧
    (log.bucket a < log.bucket b ∨ log.bucket a = log.bucket b ∧ a.id ≤ b.id)

instance (log : ReplicationLog) : DecidableRel log.Follows := fun _ _ => inferInstanceAs (Decidable (_ ∨ _))

def select (log : ReplicationLog) (t : ReplicationTs) (buckets : Int × Int) (since upto : ReplicationTs) :
    List LoggedRow :=
  ((log.visible t).filter fun r => (buckets.1 ≤ log.bucket r ∧ log.bucket r ≤ buckets.2) ∧ since < r.commit ∧
    r.commit ≤ upto).insertionSort log.Follows

/-- `i64::try_from(limit.max(1)).unwrap_or(i64::MAX - 1)`. -/
def pollLimit (limit : Nat) : Nat := if max limit 1 < 2 ^ 63 then max limit 1 else 2 ^ 63 - 2

/-- `limit.saturating_add(1)`. -/
def fetchLimit (limit : Nat) : Nat := min (limit + 1) (2 ^ 63 - 1)

/-- The batch ends at the last commit timestamp among the first `limit` rows, if there are later ones. -/
def cutShort (log : ReplicationLog) (t : ReplicationTs) (buckets : Int × Int) (since cutoff : ReplicationTs) :
    PollRead :=
  let truncated := !(log.select t buckets cutoff t).isEmpty
  let upto := if truncated then cutoff else t
  ⟨upto, log.select t buckets since upto, truncated⟩

def poll (log : ReplicationLog) (t since : ReplicationTs) (limit : Nat) : Except StoreError PollRead :=
  if log.bucketWidthSeconds ≤ 0 ∨ log.transactionTimeoutMs ≤ 0 then .error badMeta
  else if since < log.watermark t then
    .error (.stale "replication checkpoint is below pruned_before; rebuild required")
  else if t ≤ since then .ok ⟨since, [], false⟩
  else
    let buckets := scanBuckets since t log.transactionTimeoutMs log.bucketWidthSeconds
    let rows := (log.select t buckets since t).take (fetchLimit (pollLimit limit))
    if h : pollLimit limit < rows.length then
      .ok (log.cutShort t buckets since (rows.get ⟨pollLimit limit - 1, by omega⟩).commit)
    else .ok ⟨t, rows, false⟩

/-- Polls that each start from the timestamp the last one returned; a poll that fails returns nothing. -/
def follow (log : ReplicationLog) (since : ReplicationTs) : List (ReplicationTs × Nat) → List PollRead × ReplicationTs
  | [] => ([], since)
  | poll :: polls =>
    match log.poll poll.1 since poll.2 with
    | .ok read =>
      let rest := log.follow read.upto polls
      (read :: rest.1, rest.2)
    | .error _ => log.follow since polls

end ReplicationLog

end Krb5Rs
