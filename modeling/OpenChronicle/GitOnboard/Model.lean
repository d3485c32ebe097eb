/-
Git onboarding (`services/git_onboard.py`): filtering, clustering, the watermark, and
`onboard_git_prepare` as a program over the store.

The three compiled subject patterns are parameters: what they match depends on the case tables of the
regex engine, and nothing here does. Labels and time spans of clusters are texts for the reader and are
left out. `git log` is a parameter as well (`Lib/Ancestry.lean` says what it lists); its output reaches
the program as parsed commits, newest first.

The program is used in three ways. Alone, against a store that may refuse an insert, it is evaluated;
beside another run its calls are taken one at a time; and where only the calls matter, its traces are
read. So it is written once, over an interface of five calls: the rows of a source are listed, a row is
deleted, one is inserted, a new row gets its id and its time, and the history is extracted.

The clustering is plain computation. Its two passes and the loop that merges the smallest groups are
definitions of their own, under the names of the source where it has one.
-/
import Mathlib.Data.Finset.Card
import Mathlib.Data.Rat.Defs
import OpenChronicle.Lib.Ancestry
import OpenChronicle.Lib.Program
import OpenChronicle.Store.Query

set_option autoImplicit false

namespace OpenChronicle

open Program

/-! ## Commits -/

/-- `models/git_commit.py`; the date is the instant of the author date. -/
structure GitCommit where
  hash : String
  author : String
  date : Instant
  subject : String
  body : String := ""
  files_changed : List String := []
  insertions : ℕ := 0
  deletions : ℕ := 0
  deriving DecidableEq, Repr

/-- `CommitCluster`, less its label and its span. -/
structure CommitCluster where
  commits : List GitCommit
  deriving DecidableEq, Repr

/-- `_MERGE_PATTERN`, `_FORMAT_PATTERN` and `_VERSION_BUMP_PATTERN`, as tests of a subject. -/
structure SubjectPatterns where
  is_merge : String → Bool
  is_format : String → Bool
  is_version_bump : String → Bool

/-- `filter_commits`. -/
def filter_commits (P : SubjectPatterns) (commits : List GitCommit) : List GitCommit :=
  commits.filter fun c =>
    !P.is_merge c.subject && !P.is_format c.subject && !P.is_version_bump c.subject
      && !(c.insertions == 0 && c.deletions == 0)

/-! ## Clustering -/

/-- `sorted(commits, key=lambda c: c.date)`. -/
def by_date (commits : List GitCommit) : List GitCommit :=
  commits.mergeSort fun a b => a.date ≤ b.date

/-- `_jaccard`. -/
def jaccard (a b : Finset String) : ℚ :=
  if a = ∅ ∧ b = ∅ then 0 else ((a ∩ b).card : ℚ) / (a ∪ b).card

/-- The files of a group. -/
def group_files (group : List GitCommit) : Finset String :=
  (group.flatMap (·.files_changed)).toFinset

/-- Pass 1, one commit: the groups and the current one are kept newest last. The hours between two commits are
divided exactly here and as a float in the source (`total_seconds() / 3600`), so that a gap within a rounding error
of a window that is no whole number of hours may be taken the other way; a gap of nothing is none in both. -/
def time_step (time_window_hours : ℚ) (groups : List (List GitCommit)) (commit : GitCommit) :
    List (List GitCommit) :=
  match groups.getLast?, groups.getLast?.bind (·.getLast?) with
  | some current, some prev =>
      if time_window_hours < ((commit.date - prev.date : ℤ) : ℚ) / 3600000000 then
        groups ++ [[commit]]
      else groups.dropLast ++ [current ++ [commit]]
  | _, _ => groups ++ [[commit]]

/-- Pass 2, one group. -/
def overlap_step (merged : List (List GitCommit)) (group : List GitCommit) :
    List (List GitCommit) :=
  match merged.getLast? with
  | some last =>
      if 1 / 5 < jaccard (group_files last) (group_files group) then
        merged.dropLast ++ [last ++ group]
      else merged ++ [group]
  | none => [group]

/-- `min(range(len(merged)), key=lambda i: len(merged[i]))`: the first of the smallest. -/
def smallest_idx (merged : List (List GitCommit)) : ℕ :=
  merged.findIdx fun g => merged.all fun g' => g.length ≤ g'.length

/-- One round of the cap loop. -/
def merge_smallest (merged : List (List GitCommit)) : List (List GitCommit) :=
  let idx := smallest_idx merged
  let into := if 0 < idx then idx - 1 else if 1 < merged.length then 1 else 0
  if into = idx then merged
  else
    let smallest := merged.getD idx []
    -- the pop moves later groups down by one, the target is named before it
    (merged.modify into (· ++ smallest)).eraseIdx idx

/-- The `while` loop of the cap; each round removes a group, so as many rounds as there
are groups suffice. -/
def cap_groups (max_clusters : ℕ) : ℕ → List (List GitCommit) → List (List GitCommit)
  | 0, merged => merged
  | rounds + 1, merged =>
      if max_clusters < merged.length then cap_groups max_clusters rounds (merge_smallest merged)
      else merged

/-- `cluster_commits`. -/
def cluster_commits (commits : List GitCommit) (max_clusters : ℤ) (time_window_hours : ℚ) :
    List CommitCluster :=
  match by_date commits with
  | [] => []
  | first :: rest =>
      let groups := rest.foldl (time_step time_window_hours) [[first]]
      let merged := groups.tail.foldl overlap_step (groups.take 1)
      let capped := cap_groups (max 1 max_clusters).toNat merged.length merged
      capped.map fun group => ⟨by_date group⟩

/-! ## Extraction -/

/-- `ExtractedHistory`. -/
structure ExtractedHistory where
  commits : List GitCommit := []
  branch : String := ""
  head : String := ""
  watermark_unreachable : Bool := false
  deriving DecidableEq, Repr

/-- A repository: its commits, what `git log` lists of them, and how a revision named on
the command line is found. -/
structure Repository (C : Type) where
  history : Ancestry.History C
  log : Ancestry.Log history
  detail : C → GitCommit
  rev_parse : String → Option C
  branch : String
  /-- A commit is found by its hash. -/
  rev_parse_hash : ∀ c, rev_parse (detail c).hash = some c

/-- Why `git log` fails: a start point that is not there, or anything else. -/
inductive GitError where
  | unreachable_revision
  | failed
  deriving DecidableEq, Repr

section Extraction

variable {C : Type} (R : Repository C)

/-- `extract_commits_from_git`. -/
def extract_commits_from_git (head : C) (max_commits : ℕ) (since_commit : Option String) :
    Except GitError (List GitCommit) :=
  let listing (since : Option C) := ((R.log.list since head).take max_commits).map R.detail
  match since_commit with
  | none => .ok (listing none)
  | some s =>
      if s = "" then .ok (listing none)
      else
        match R.rev_parse s with
        | some c => .ok (listing (some c))
        | none => .error .unreachable_revision

/-- `_extract_with_recovery`. -/
def extract_with_recovery (head : C) (max_commits : ℕ) (since_commit : Option String) :
    Except GitError (List GitCommit × Bool) :=
  match since_commit with
  | none => (extract_commits_from_git R head max_commits none).map (·, false)
  | some s =>
      match extract_commits_from_git R head max_commits (some s) with
      | .ok commits => .ok (commits, false)
      | .error .failed => .error .failed
      | .error .unreachable_revision =>
          (extract_commits_from_git R head max_commits none).map (·, true)

/-- `extract_history_from_path`. -/
def extract_history_from_path (head : C) (max_commits : ℕ) (since_commit : Option String) :
    Except GitError ExtractedHistory :=
  (extract_with_recovery R head max_commits since_commit).map fun (commits, unreachable) =>
    { commits, branch := R.branch, head := (R.detail head).hash, watermark_unreachable := unreachable }

end Extraction

/-! ## The watermark and the run -/

def WATERMARK_SOURCE : String := "git-onboard-watermark"

/-- `[0-9a-fA-F]`. -/
def is_hex (c : Char) : Bool := c.isDigit || ('a' ≤ c && c ≤ 'f') || ('A' ≤ c && c ≤ 'F')

/-- The characters between `^` and `$` of `_WATERMARK_HASH_RE`. -/
def hash_chars (cs : List Char) : Bool := 7 ≤ cs.length && cs.length ≤ 64 && cs.all is_hex

/-- `_WATERMARK_HASH_RE.match`; `$` also matches before a final newline. -/
def watermark_hash_re (s : String) : Bool :=
  hash_chars s.toList || (s.toList.getLast? = some '\n' && hash_chars s.toList.dropLast)

/-- The `status` of `OnboardPrepared`; `present` is `"exists"`. -/
inductive OnboardStatus where
  | ok
  | up_to_date
  | present
  | empty
  deriving DecidableEq, Repr

/-- What a run returns, less the texts. -/
structure OnboardPrepared where
  status : OnboardStatus
  history : ExtractedHistory := {}
  filtered : List GitCommit := []
  clusters : List CommitCluster := []
  watermark_before : Option String := none
  existing_count : ℕ := 0
  deriving DecidableEq, Repr

/-- The calls of a run. -/
inductive OnboardOp where
  | list_memory_by_source (source : String) (project_id : String)
  | delete_memory (memory_id : String)
  | add_memory (item : MemoryItem)
  /-- The id and the instant a `MemoryItem` defaults to. -/
  | new_item
  | extract (since_commit : Option String)

@[reducible] def OnboardOp.Resp : OnboardOp → Type
  | list_memory_by_source .. => List MemoryItem
  | new_item => String × Instant
  | extract _ => ExtractedHistory
  | _ => Unit

/-- The calls with their answers. -/
abbrev onboardSig : Sig := ⟨OnboardOp, OnboardOp.Resp⟩

abbrev OnboardProg := Prog onboardSig Exc

/-- One store call or one extraction. -/
def onboard_act (o : OnboardOp) : OnboardProg o.Resp := Prog.op (S := onboardSig) o

/-- `for m in items: store.delete_memory(m.id)`. -/
def delete_all : List MemoryItem → OnboardProg Unit
  | [] => pure ()
  | m :: rest => do
      onboard_act (.delete_memory m.id)
      delete_all rest

/-- `save_watermark`. -/
def save_watermark (project_id latest_hash : String) : OnboardProg Unit := do
  let existing : List MemoryItem ← onboard_act (.list_memory_by_source WATERMARK_SOURCE project_id)
  delete_all existing
  let fresh : String × Instant ← onboard_act .new_item
  onboard_act (.add_memory
    { id := fresh.1, content := latest_hash, tags := [WATERMARK_SOURCE], created_at := fresh.2
      pinned := false, project_id := some project_id, source := WATERMARK_SOURCE })

/-- The watermark read from its rows; a malformed one counts as none. -/
def stored_watermark (watermark_items : List MemoryItem) : Option String :=
  (watermark_items.head?.map (·.content)).filter watermark_hash_re

/-- `onboard_git_prepare` from the extraction on. -/
def walk_and_anchor (P : SubjectPatterns) (project_id : String) (max_clusters : ℤ)
    (watermark_hash : Option String) : OnboardProg OnboardPrepared := do
  let history : ExtractedHistory ← onboard_act (.extract watermark_hash)
  match history.commits with
  | [] =>
      if watermark_hash.isSome then
        pure { status := .up_to_date, history, watermark_before := watermark_hash }
      else pure { status := .empty, history }
  | newest :: _ => do
      save_watermark project_id newest.hash
      pure
        { status := .ok, history, filtered := filter_commits P history.commits
          clusters := cluster_commits (filter_commits P history.commits) max_clusters 72
          watermark_before := watermark_hash }

/-- `onboard_git_prepare`. -/
def onboard_git_prepare (P : SubjectPatterns) (project_id : String) (max_clusters : ℤ)
    (force : Bool) : OnboardProg OnboardPrepared := do
  let existing : List MemoryItem ← onboard_act (.list_memory_by_source "git-onboard" project_id)
  let watermark_items : List MemoryItem ←
    onboard_act (.list_memory_by_source WATERMARK_SOURCE project_id)
  if force then do
    delete_all (existing ++ watermark_items)
    walk_and_anchor P project_id max_clusters none
  else if existing ≠ [] ∧ stored_watermark watermark_items = none then
    pure { status := .present, existing_count := existing.length }
  else walk_and_anchor P project_id max_clusters (stored_watermark watermark_items)

/-! ## `oc onboard git` -/

/-- `materialize_clusters`; `format` is `format_cluster_as_raw_memory`, and `max` of no date raises. -/
def materialize_clusters (format : CommitCluster → String) (project_id : String) :
    List CommitCluster → OnboardProg (List MemoryItem)
  | [] => pure []
  | cluster :: rest =>
      match (cluster.commits.map (·.date)).max? with
      | none => .raise .Other
      | some latest_date => do
          let fresh : String × Instant ← onboard_act .new_item
          let item : MemoryItem :=
            { id := fresh.1, content := format cluster, tags := ["git-derived"], created_at := latest_date
              pinned := false, project_id := some project_id, source := "git-onboard" }
          onboard_act (.add_memory item)
          let memories ← materialize_clusters format project_id rest
          pure (item :: memories)

/-- `cmd_onboard_git`, from `onboard_git_prepare` on, less what it prints. -/
def cmd_onboard_git (P : SubjectPatterns) (format : CommitCluster → String) (project_id : String)
    (max_memories : ℤ) (force : Bool) : OnboardProg (List MemoryItem) := do
  let prepared ← onboard_git_prepare P project_id max_memories force
  if prepared.status = .ok then materialize_clusters format project_id prepared.clusters
  else pure []

/-! ## A run alone on the store -/

/-- What a run meets: how fresh ids are made, the clock, the repository and its HEAD. -/
structure OnboardEnv (F : Type) (C : Type) where
  R : Repository C
  new_id : Db F → String
  now : Instant
  head : C
  max_commits : ℕ

/-- The store, the extractor and the id generator, answering one call. -/
def onboard_answer {F C : Type} (E : OnboardEnv F C) :
    (o : OnboardOp) → Db F → Except Exc o.Resp × Db F
  | .list_memory_by_source source project_id, db =>
      (.ok (db.list_memory_by_source source (some project_id)), db)
  | .delete_memory memory_id, db =>
      match db.delete_memory memory_id with
      | .ok db' => (.ok (), db')
      | .error e => (.error e, db)
  | .add_memory item, db =>
      match db.add_memory item with
      | .ok db' => (.ok (), db')
      | .error e => (.error e, db)
  | .new_item, db => (.ok (E.new_id db, E.now), db)
  | .extract since_commit, db =>
      match extract_history_from_path E.R E.head E.max_commits since_commit with
      | .ok history => (.ok history, db)
      | .error _ => (.error .Other, db)

/-- A run's world with the extractor left open: `none` is one that raises. The store may refuse to
insert a row. -/
structure OnboardWorld (F : Type) where
  new_id : Db F → String
  now : Instant
  extract : Option String → Option ExtractedHistory
  refuses : Db F → MemoryItem → Bool

/-- One call in such a world. -/
def OnboardWorld.answer {F : Type} (X : OnboardWorld F) :
    (o : OnboardOp) → Db F → Except Exc o.Resp × Db F
  | .list_memory_by_source source project_id, db =>
      (.ok (db.list_memory_by_source source (some project_id)), db)
  | .delete_memory memory_id, db =>
      match db.delete_memory memory_id with
      | .ok db' => (.ok (), db')
      | .error e => (.error e, db)
  | .add_memory item, db =>
      if X.refuses db item then (.error .OperationalError, db)
      else match db.add_memory item with
        | .ok db' => (.ok (), db')
        | .error e => (.error e, db)
  | .new_item, db => (.ok (X.new_id db, X.now), db)
  | .extract since_commit, db =>
      match X.extract since_commit with
      | some history => (.ok history, db)
      | none => (.error .Other, db)

def OnboardEnv.world {F C : Type} (E : OnboardEnv F C) : OnboardWorld F where
  new_id := E.new_id
  now := E.now
  extract since_commit := (extract_history_from_path E.R E.head E.max_commits since_commit).toOption
  refuses _ _ := false

/-- A non-forced run. -/
def onboard_run {F C : Type} (P : SubjectPatterns) (E : OnboardEnv F C) (project_id : String)
    (max_clusters : ℤ) (db : Db F) : Except Exc OnboardPrepared × Db F :=
  (onboard_git_prepare P project_id max_clusters false).eval (S := onboardSig) (onboard_answer E) db

end OpenChronicle
