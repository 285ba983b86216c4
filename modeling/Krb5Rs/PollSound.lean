import Krb5Rs.Feed
import Krb5Rs.Poll

/-!
# Polls lose nothing and repeat nothing

A row that commits between two timestamps is in the buckets that are scanned
for them, because its transaction started no earlier than the timeout and the
margin before. The same margin keeps `prune` from deleting a row that commits
at its cutoff or later, and a poll from before the cutoff is refused. So each
poll returns the rows of its own interval, all of them, and the polls are a
chain of batches.
-/

namespace Krb5Rs

open TicketPolicy (saturatingAdd)

namespace ReplicationLog

/-- Rows commit within the timeout and the margin of their start; their keys are distinct and their times are `i64`s. -/
structure Timely (log : ReplicationLog) : Prop where
  keys : (log.rows.map fun r => (log.bucket r, r.id)).Nodup
  count : log.rows.length < 2 ^ 63
  wall : ∀ r ∈ log.rows, r.commit.wallNanos < 2 ^ 63
  after : ∀ r ∈ log.rows, (r.start : Int) ≤ r.commit.wallNanos
  within : ∀ r ∈ log.rows, r.commit.wallNanos ≤ r.start + (log.transactionTimeoutMs * 1000000 + commitSkewMarginNs)

/-! ## Buckets -/

theorem wall_le_of_le {a b : ReplicationTs} (h : a ≤ b) : a.wallNanos ≤ b.wallNanos := by
  rw [ReplicationTs.le_iff] at h
  omega

variable {log : ReplicationLog}

theorem bucket_eq (r : LoggedRow) : log.bucket r = r.start / 1000000000 / log.bucketWidthSeconds := by
  rw [bucket, Int.ediv_ediv_of_nonneg (by omega)]

variable {since : ReplicationTs} {read : PollRead} {limit : Nat}

section
variable {log : ReplicationLog} (hwidth : 0 < log.bucketWidthSeconds) (htimeout : 0 < log.transactionTimeoutMs)
include hwidth

variable {r : LoggedRow} {upto t cutoff : ReplicationTs}

theorem start_lt_of_bucket_lt {n : Int} (h : log.bucket r < n / 1000000000 / log.bucketWidthSeconds) :
    (r.start : Int) < n := by
  by_contra hle
  have hsecs : n / 1000000000 ≤ (r.start : Int) / 1000000000 := Int.ediv_le_ediv (by omega) (by omega)
  have hbuckets := Int.ediv_le_ediv hwidth hsecs
  rw [← bucket_eq] at hbuckets
  omega

include htimeout

theorem commit_lt_of_bucket_lt (hlog : log.Timely) (hr : r ∈ log.rows) (hwall : since.wallNanos < 2 ^ 63)
    (h : log.bucket r < (scanBuckets since upto log.transactionTimeoutMs log.bucketWidthSeconds).1) :
    r.commit < since := by
  have hstart := start_lt_of_bucket_lt hwidth h
  have hwithin := hlog.within r hr
  rw [ReplicationTs.lt_iff]
  unfold saturatingSub saturatingAdd commitSkewMarginNs at *
  omega

theorem mem_scanBuckets (hlog : log.Timely) (hr : r ∈ log.rows) (hsince : since < r.commit) (hupto : r.commit ≤ upto) :
    (scanBuckets since upto log.transactionTimeoutMs log.bucketWidthSeconds).1 ≤ log.bucket r ∧
      log.bucket r ≤ (scanBuckets since upto log.transactionTimeoutMs log.bucketWidthSeconds).2 := by
  constructor
  · by_contra hlt
    have hwall := lt_of_le_of_lt (wall_le_of_le (le_of_lt hsince)) (hlog.wall r hr)
    exact lt_asymm hsince (commit_lt_of_bucket_lt hwidth htimeout hlog hr hwall (not_le.mp hlt))
  · have hwall := wall_le_of_le hupto
    have hafter := hlog.after r hr
    rw [bucket_eq]
    exact Int.ediv_le_ediv hwidth (Int.ediv_le_ediv (by omega) (by omega))

/-! ## Pruning -/

omit hwidth htimeout in
theorem le_foldl_cutoff (ps : List Prune) (w : ReplicationTs) : w ≤ ps.foldl (fun w p => max w p.cutoff) w ∧
    ∀ q ∈ ps, q.cutoff ≤ ps.foldl (fun w p => max w p.cutoff) w := by
  induction ps generalizing w with
  | nil => simp
  | cons q ps ih =>
    obtain ⟨hw, hps⟩ := ih (max w q.cutoff)
    exact ⟨le_trans (le_max_left ..) hw, List.forall_mem_cons.mpr ⟨le_trans (le_max_right ..) hw, hps⟩⟩

omit hwidth htimeout in
theorem cutoff_le_watermark {p : Prune} (hp : p ∈ log.prunes) (ht : p.commit ≤ t) : p.cutoff ≤ log.watermark t :=
  (le_foldl_cutoff _ _).2 p (List.mem_filter.mpr ⟨hp, by simpa using ht⟩)

omit hwidth htimeout in
theorem cutoff_wall_lt (p : Prune) : p.cutoff.wallNanos < 2 ^ 63 := by
  change saturatingSub p.ts.wallNanos p.olderThan < 2 ^ 63
  unfold saturatingSub saturatingAdd
  omega

theorem mem_visible (hlog : log.Timely) (hmark : log.watermark t ≤ since)
    (hsince : since < r.commit) : r ∈ log.visible t ↔ r ∈ log.rows ∧ r.commit ≤ t := by
  simp only [visible, List.mem_filter, decide_eq_true_eq]
  constructor
  · rintro ⟨hr, ht, -⟩
    exact ⟨hr, ht⟩
  · rintro ⟨hr, ht⟩
    refine ⟨hr, ht, ?_⟩
    rintro p hp hpt ⟨-, hbucket⟩
    have hcut := commit_lt_of_bucket_lt hwidth htimeout hlog hr (cutoff_wall_lt p) hbucket
    exact lt_asymm hsince (lt_of_lt_of_le hcut (le_trans (cutoff_le_watermark hp hpt) hmark))

/-! ## One poll -/

theorem mem_select (hlog : log.Timely) {lo : ReplicationTs} (hmark : log.watermark t ≤ since)
    (hlo : since ≤ lo) (hupto : upto ≤ t) (r : LoggedRow) :
    r ∈ log.select t (scanBuckets since t log.transactionTimeoutMs log.bucketWidthSeconds) lo upto ↔
      r ∈ log.rows ∧ lo < r.commit ∧ r.commit ≤ upto := by
  simp only [select, List.mem_insertionSort, List.mem_filter, decide_eq_true_eq]
  constructor
  · rintro ⟨hr, -, hafter, hle⟩
    exact ⟨((mem_visible hwidth htimeout hlog hmark (lt_of_le_of_lt hlo hafter)).mp hr).1, hafter, hle⟩
  · rintro ⟨hr, hafter, hle⟩
    have hsince := lt_of_le_of_lt hlo hafter
    have ht := le_trans hle hupto
    exact ⟨(mem_visible hwidth htimeout hlog hmark hsince).mpr ⟨hr, ht⟩,
      mem_scanBuckets hwidth htimeout hlog hr hsince ht, hafter, hle⟩

omit hwidth htimeout in
theorem nodup_select (hlog : log.Timely) (t : ReplicationTs) (buckets : Int × Int) (since upto : ReplicationTs) :
    (log.select t buckets since upto).Nodup := by
  have hrows := hlog.keys.of_map _
  exact (List.perm_insertionSort _ _).nodup_iff.mpr ((hrows.filter _).filter _)

omit hwidth htimeout in
theorem length_select_le (t : ReplicationTs) (buckets : Int × Int) (since upto : ReplicationTs) :
    (log.select t buckets since upto).length ≤ log.rows.length := by
  rw [select, List.length_insertionSort]
  exact le_trans (List.length_filter_le ..) (List.length_filter_le ..)

/-- What a poll returns: the rows up to `upto`, which is the read timestamp unless there are more rows. -/
structure Advances (log : ReplicationLog) (t since : ReplicationTs) (read : PollRead) : Prop where
  exact : Feed.Exact LoggedRow.commit log.rows ⟨since, read.upto, read.rows⟩
  progress : since < t → since < read.upto
  complete : since < t → read.truncated = false → read.upto = t

theorem exact_select (hlog : log.Timely) (hmark : log.watermark t ≤ since) (hle : since ≤ upto) (hupto : upto ≤ t) :
    Feed.Exact LoggedRow.commit log.rows
      ⟨since, upto, log.select t (scanBuckets since t log.transactionTimeoutMs log.bucketWidthSeconds) since upto⟩ :=
  ⟨hle, nodup_select hlog .., mem_select hwidth htimeout hlog hmark (le_refl since) hupto⟩

omit hwidth htimeout in
theorem take_fetchLimit {l : List LoggedRow} (hl : l.length < 2 ^ 63)
    (h : ¬ limit < (l.take (fetchLimit limit)).length) : l.take (fetchLimit limit) = l := by
  apply List.take_of_length_le
  rw [List.length_take] at h
  unfold fetchLimit at *
  omega

theorem advances_cutShort (hlog : log.Timely) (hmark : log.watermark t ≤ since)
    (hsince : since < cutoff) (hcutoff : cutoff ≤ t) : log.Advances t since
      (log.cutShort t (scanBuckets since t log.transactionTimeoutMs log.bucketWidthSeconds) since cutoff) := by
  unfold cutShort
  cases (log.select t (scanBuckets since t log.transactionTimeoutMs log.bucketWidthSeconds) cutoff t).isEmpty with
  | true =>
    exact
      { exact := exact_select hwidth htimeout hlog hmark (le_of_lt (lt_of_lt_of_le hsince hcutoff)) (le_refl t)
        progress := fun h => h
        complete := fun _ _ => rfl }
  | false =>
    exact
      { exact := exact_select hwidth htimeout hlog hmark (le_of_lt hsince) hcutoff
        progress := fun _ => hsince
        complete := fun _ h => by cases h }

theorem poll_advances (hlog : log.Timely) (hmark : log.watermark t ≤ since)
    (limit : Nat) : ∃ read, log.poll t since limit = .ok read ∧ log.Advances t since read := by
  unfold poll
  rw [if_neg (by omega), if_neg (not_lt.mpr hmark)]
  by_cases hle : t ≤ since
  · rw [if_pos hle]
    refine ⟨_, rfl, ⟨le_refl since, List.nodup_nil, ?_⟩, fun h => absurd h (not_lt.mpr hle),
      fun h => absurd h (not_lt.mpr hle)⟩
    intro r
    constructor
    · intro hr
      cases hr
    · rintro ⟨-, hlt, hle'⟩
      exact absurd hle' (not_le.mpr hlt)
  · rw [if_neg hle]
    have hlt := not_le.mp hle
    dsimp only
    split
    · rename_i hmore
      obtain ⟨-, hsince, hcutoff⟩ := (mem_select hwidth htimeout hlog hmark (le_refl since) (le_refl t) _).mp
        (List.mem_of_mem_take (List.get_mem _ ⟨pollLimit limit - 1, Nat.lt_of_le_of_lt (Nat.sub_le ..) hmore⟩))
      exact ⟨_, rfl, advances_cutShort hwidth htimeout hlog hmark hsince hcutoff⟩
    · rename_i hall
      rw [take_fetchLimit (lt_of_le_of_lt (length_select_le ..) hlog.count) hall]
      exact ⟨_, rfl, exact_select hwidth htimeout hlog hmark (le_of_lt hlt) (le_refl t), fun h => h, fun _ _ => rfl⟩

end

theorem advances_of_poll (hlog : log.Timely) {t : ReplicationTs}
    (h : log.poll t since limit = .ok read) : log.Advances t since read := by
  by_cases hmeta : log.bucketWidthSeconds ≤ 0 ∨ log.transactionTimeoutMs ≤ 0
  · rw [poll, if_pos hmeta] at h
    cases h
  by_cases hmark : since < log.watermark t
  · rw [poll, if_neg hmeta, if_pos hmark] at h
    cases h
  · obtain ⟨read', hread, hadv⟩ := poll_advances (by omega) (by omega) hlog (not_lt.mp hmark) limit
    cases h.symm.trans hread
    exact hadv

/-- A prune takes no row that committed at its cutoff or later. Polls from before the cutoff are refused, and every other
poll returns the rows of its interval, whatever the prune deleted. -/
theorem prune_spares_later {log' : ReplicationLog} {p : Prune} {cutoff : ReplicationTs} {n : Nat} (hlog : log.Timely)
    (h : log.prune p = .ok (log', cutoff, n)) : log'.Timely ∧ ∀ t,
      (∀ r ∈ log.visible t, cutoff ≤ r.commit → r ∈ log'.visible t) ∧
      (p.commit ≤ t → cutoff ≤ log'.watermark t ∧ ∀ since limit, since < cutoff →
        log'.poll t since limit = .error (.stale "replication checkpoint is below pruned_before; rebuild required")) ∧
      ∀ since limit read, log'.poll t since limit = .ok read →
        ∀ r, r ∈ read.rows ↔ r ∈ log.rows ∧ since < r.commit ∧ r.commit ≤ read.upto := by
  unfold prune at h
  split at h
  · cases h
  split at h
  · cases h
  rename_i hmeta
  obtain ⟨rfl, hrest⟩ := Prod.mk.inj (Except.ok.inj h)
  obtain ⟨rfl, -⟩ := Prod.mk.inj hrest
  have htimely : { log with prunes := log.prunes ++ [p] : ReplicationLog }.Timely :=
    ⟨hlog.keys, hlog.count, hlog.wall, hlog.after, hlog.within⟩
  refine ⟨htimely, fun t => ⟨fun r hr hlater => ?_, fun ht => ?_, fun since limit read hread =>
    (advances_of_poll htimely hread).exact.mem_iff⟩⟩
  · simp only [visible, List.mem_filter, decide_eq_true_eq] at hr ⊢
    refine ⟨hr.1, hr.2.1, fun q hq hqt hdel => ?_⟩
    rcases List.mem_append.mp hq with hq | hq
    · exact hr.2.2 q hq hqt hdel
    · cases List.mem_singleton.mp hq
      exact not_lt.mpr hlater (commit_lt_of_bucket_lt (by omega) (by omega) hlog hr.1 (cutoff_wall_lt p) hdel.2)
  · have hmark : p.cutoff ≤ { log with prunes := log.prunes ++ [p] : ReplicationLog }.watermark t :=
      cutoff_le_watermark (by simp) ht
    exact ⟨hmark, fun since limit hsince => by rw [poll, if_neg hmeta, if_pos (lt_of_lt_of_le hsince hmark)]⟩

/-! ## Sequences of polls -/

def batches (since : ReplicationTs) : List PollRead → List (Feed.Batch LoggedRow ReplicationTs)
  | [] => []
  | read :: reads => ⟨since, read.upto, read.rows⟩ :: batches read.upto reads

theorem flatMap_batches (since : ReplicationTs) (reads : List PollRead) :
    (batches since reads).flatMap (·.items) = reads.flatMap (·.rows) := by
  induction reads generalizing since with
  | nil => rfl
  | cons read reads ih => rw [batches, List.flatMap_cons, List.flatMap_cons, ih]

theorem chain_follow (hlog : log.Timely) (since : ReplicationTs) (polls : List (ReplicationTs × Nat)) :
    Feed.Chain since (batches since (log.follow since polls).1) (log.follow since polls).2 ∧
      ∀ b ∈ batches since (log.follow since polls).1, Feed.Exact LoggedRow.commit log.rows b := by
  induction polls generalizing since with
  | nil => exact ⟨.nil since, by simp [follow, batches]⟩
  | cons poll polls ih =>
    unfold follow
    split
    · rename_i read hread
      obtain ⟨hchain, hexact⟩ := ih read.upto
      refine ⟨.cons (b := ⟨since, read.upto, read.rows⟩) hchain, ?_⟩
      exact List.forall_mem_cons.mpr ⟨(advances_of_poll hlog hread).exact, hexact⟩
    · exact ih since

theorem exists_batch {reads : List PollRead} (h : read ∈ reads) : ∃ b ∈ batches since reads, b.items = read.rows := by
  induction reads generalizing since with
  | nil => cases h
  | cons first reads ih =>
    rcases List.mem_cons.mp h with rfl | h
    · exact ⟨_, List.mem_cons_self .., rfl⟩
    · obtain ⟨b, hb, hrows⟩ := @ih first.upto h
      exact ⟨b, List.mem_cons_of_mem _ hb, hrows⟩

/-- Polls return the rows between the first timestamp and the last, each of them once, and the rows of one commit
together. A poll from the watermark or later succeeds and gets further. -/
theorem polls_lose_nothing (log : ReplicationLog) (hlog : log.Timely) :
    (∀ (first : ReplicationTs) (polls : List (ReplicationTs × Nat)),
      (∀ r, r ∈ (log.follow first polls).1.flatMap (·.rows) ↔
        r ∈ log.rows ∧ first < r.commit ∧ r.commit ≤ (log.follow first polls).2) ∧
      ((log.follow first polls).1.flatMap (·.rows)).Nodup ∧
      ∀ read ∈ (log.follow first polls).1, ∀ r ∈ read.rows, ∀ r' ∈ log.rows, r'.commit = r.commit → r' ∈ read.rows) ∧
    ∀ t since limit, 0 < log.bucketWidthSeconds → 0 < log.transactionTimeoutMs → log.watermark t ≤ since →
      ∃ read, log.poll t since limit = .ok read ∧
        (since < t → since < read.upto ∧ (read.truncated = false → read.upto = t)) := by
  constructor
  · intro first polls
    obtain ⟨hchain, hexact⟩ := chain_follow hlog first polls
    rw [← flatMap_batches first]
    refine ⟨hchain.mem_iff hexact, hchain.nodup hexact, ?_⟩
    intro read hread r hr r' hr' hcommit
    obtain ⟨b, hb, hrows⟩ := exists_batch hread
    rw [← hrows] at hr ⊢
    exact (hexact b hb).whole hr hr' hcommit
  · intro t since limit hwidth htimeout hmark
    obtain ⟨read, hread, hadv⟩ := poll_advances hwidth htimeout hlog hmark limit
    exact ⟨read, hread, fun h => ⟨hadv.progress h, hadv.complete h⟩⟩

def sampleLog : ReplicationLog where
  bucketWidthSeconds := 10
  transactionTimeoutMs := 30000
  prunedBefore := ⟨0, 0⟩
  rows :=
    [⟨1, 9000000000, ⟨10000000000, 0⟩, ⟨.lockout, (⟨[103], rfl⟩, []), .upsert⟩⟩,
      ⟨2, 100000000000, ⟨101000000000, 1⟩, ⟨.policy, (⟨[103], rfl⟩, []), .upsert⟩⟩,
      ⟨3, 100000000000, ⟨101000000000, 1⟩, ⟨.principal, (⟨[103], rfl⟩, []), .upsert⟩⟩,
      ⟨4, 99000000000, ⟨130000000000, 0⟩, ⟨.principal, (⟨[103], rfl⟩, []), .delete⟩⟩]
  prunes := [⟨⟨150000000000, 0⟩, 60000000000, ⟨151000000000, 0⟩⟩]

theorem timely_sampleLog : sampleLog.Timely where
  keys := by decide
  count := by decide
  wall := by decide
  after := by decide
  within := by decide

/-- A second prune deletes three rows. -/
theorem sampleLog_pruned : ∃ log', sampleLog.prune ⟨⟨200000000000, 0⟩, 40000000000, ⟨201000000000, 0⟩⟩ =
      .ok (log', ⟨160000000000, 0⟩, 3) ∧ log'.Timely ∧
    log'.poll ⟨210000000000, 0⟩ ⟨150000000000, 0⟩ 1 =
      .error (.stale "replication checkpoint is below pruned_before; rebuild required") := by
  have h : ∃ log', sampleLog.prune ⟨⟨200000000000, 0⟩, 40000000000, ⟨201000000000, 0⟩⟩ =
      .ok (log', ⟨160000000000, 0⟩, 3) := ⟨_, rfl⟩
  obtain ⟨log', h⟩ := h
  obtain ⟨htimely, hpolls⟩ := prune_spares_later timely_sampleLog h
  exact ⟨log', h, htimely, ((hpolls _).2.1 (by decide)).2 _ _ (by decide)⟩

def samplePolls : List (ReplicationTs × Nat) := [(⟨20000000000, 0⟩, 1), (⟨140000000000, 0⟩, 1), (⟨160000000000, 0⟩, 1)]

/-- With a limit of one row the second poll returns both rows of a commit, and the third what is left. -/
theorem rows_of_samplePolls : (∀ r, r ∈ (sampleLog.follow ⟨1, 0⟩ samplePolls).1.flatMap (·.rows) ↔
      r ∈ sampleLog.rows ∧ ⟨1, 0⟩ < r.commit ∧ r.commit ≤ (sampleLog.follow ⟨1, 0⟩ samplePolls).2) ∧
    (sampleLog.follow ⟨1, 0⟩ samplePolls).1.map (·.rows.map (·.id)) = [[1], [2, 3], [4]] ∧
    (sampleLog.follow ⟨1, 0⟩ samplePolls).2 = ⟨160000000000, 0⟩ :=
  ⟨((polls_lose_nothing sampleLog timely_sampleLog).1 ⟨1, 0⟩ samplePolls).1, by decide +kernel, by decide +kernel⟩

end ReplicationLog

end Krb5Rs
