/-
Onboarding a growing repository run after run: which commits the histories hold.

The store remembers one commit, the first of the last listing that had one. The first half shows that
the successive runs of `onboard_git_prepare` list what `Ancestry.Log.walks` lists, whatever else happens
to the store in between; the second half is then about histories only. One commit is enough to resume
from exactly when the history shown so far has a single tip: on a HEAD that merges side branches it is
not, and the next run lists again what the newest commit does not reach.

`Anchored` is the invariant between two runs: the store resumes from a known commit. A run keeps it with
another commit (`run_anchored`), and it is the only thing that one run leaves for the next. The
watermark is a memory row like any other, found by its tag and checked for the shape of a hash when it
is read; that every hash has this shape is a field of `Site`, because `git` writes hashes in full.

The limit on the number of commits is in the theorem through `WithinLimit`: where a listing is cut off,
the commits behind the cut are behind the watermark too and are never listed.
-/
import Mathlib.Algebra.GroupWithZero.Nat
import Mathlib.Algebra.Order.BigOperators.Group.List
import Mathlib.Data.List.Forall2
import OpenChronicle.GitOnboard.Calls

set_option autoImplicit false

namespace OpenChronicle

open Program Ancestry

variable {F C : Type}

/-! ## One run -/

/-- What stays the same over all runs: the repository, the project, the settings. Every
hash has the shape the watermark is checked for, and a new id is a free one. -/
structure Site (F C : Type) where
  P : SubjectPatterns
  R : Repository C
  project_id : String
  max_clusters : ℤ
  new_id : Db F → String
  hash_shape : ∀ c, watermark_hash_re (R.detail c).hash = true
  new_id_free : ∀ db : Db F, db.get_memory (new_id db) = none

/-- One run: the clock, the HEAD it finds, and what becomes of the store between it and
the next run. Anything may, except that the watermark rows are not touched and the
project is not removed. -/
structure Visit (S : Site F C) where
  now : Instant
  head : C
  after : Db F → Db F
  keeps_watermarks : ∀ db, (after db).watermarks S.project_id = db.watermarks S.project_id
  keeps_project : ∀ db, S.project_id ∈ db.projects.map (·.id) →
    S.project_id ∈ (after db).projects.map (·.id)

namespace Site

variable (S : Site F C)

/-- What a run reads of its visit. -/
def env (max_commits : ℕ) (v : Visit S) : OnboardEnv F C :=
  { R := S.R, new_id := S.new_id, now := v.now, head := v.head, max_commits }

/-- The runs of the visits, in turn. -/
def onboard_runs (max_commits : ℕ) : List (Visit S) → Db F → List (Except Exc OnboardPrepared)
  | [], _ => []
  | v :: rest, db =>
      let out := onboard_run S.P (S.env max_commits v) S.project_id S.max_clusters db
      out.1 :: onboard_runs max_commits rest (v.after out.2)

/-- The store resumes from `anchor`: it is in the one watermark row, or there is no such
row and the project has not been onboarded. -/
structure Anchored (db : Db F) (anchor : Option C) : Prop where
  project : S.project_id ∈ db.projects.map (·.id)
  row : (db.watermarks S.project_id).map (·.content)
    = (anchor.map fun c => (S.R.detail c).hash).toList
  started : anchor = none → db.list_memory_by_source "git-onboard" (some S.project_id) = []

/-- What a run that lists `walk` reports. -/
def Reports (walk : List C) (out : Except Exc OnboardPrepared) : Prop :=
  ∃ p, out = .ok p ∧ p.history.commits = walk.map S.R.detail ∧ (walk = [] → p.status = .up_to_date)

variable {S}

/-- What `stored_watermark` makes of the rows that `Anchored` speaks of: it takes the first of them, and
there is at most one. -/
theorem Anchored.stored {db : Db F} {anchor : Option C} (h : S.Anchored db anchor) :
    stored_watermark (db.watermarks S.project_id) = anchor.map fun c => (S.R.detail c).hash := by
  rw [stored_watermark, ← List.head?_map, h.row]
  rcases anchor with _ | c
  · rfl
  · simp [S.hash_shape c]

/-- The extractor starts behind the anchor. -/
theorem extract_history_anchor {S : Site F C} (head : C) (max_commits : ℕ) (anchor : Option C) :
    extract_history_from_path S.R head max_commits (anchor.map fun c => (S.R.detail c).hash)
      = .ok { commits := ((S.R.log.list anchor head).take max_commits).map S.R.detail
              branch := S.R.branch, head := (S.R.detail head).hash } := by
  rcases anchor with _ | c
  · rfl
  · have hne : (S.R.detail c).hash ≠ "" := by
      intro h
      have hshape := S.hash_shape c
      rw [h] at hshape
      exact absurd hshape (by decide)
    simp only [extract_history_from_path, extract_with_recovery, extract_commits_from_git,
      Option.map_some, if_neg hne, S.R.rev_parse_hash]
    rfl

/-- A HEAD reaches a root, and a root is not a merge. -/
theorem list_none_ne_nil (R : Repository C) (head : C) : R.log.list none head ≠ [] := by
  intro hnil
  obtain ⟨x, hx⟩ := R.history.exists_shown head
  have hin : x ∈ R.log.list none head :=
    (R.log.mem_list none head x).mpr ⟨hx, fun ⟨_, hs, _⟩ => nomatch hs⟩
  rw [hnil] at hin
  cases hin

/-- A run lists what is behind its anchor and moves the anchor to the first commit of it. -/
theorem run_anchored {db : Db F} {anchor : Option C} (h : S.Anchored db anchor) (max_commits : ℕ)
    (hmax : anchor = none → 0 < max_commits) (v : Visit S) :
    let walk := (S.R.log.list anchor v.head).take max_commits
    let out := onboard_run S.P (S.env max_commits v) S.project_id S.max_clusters db
    S.Reports walk out.1 ∧ S.Anchored (v.after out.2) (walk.head?.or anchor) := by
  intro walk out
  set w := anchor.map fun c => (S.R.detail c).hash with hw
  -- the two lists, neither of which ends the run
  have hprepare : out = (walk_and_anchor S.P S.project_id S.max_clusters w).eval (S := onboardSig)
      (onboard_answer (S.env max_commits v)) db := by
    refine (eval_answered (o := .list_memory_by_source "git-onboard" S.project_id) rfl).trans ?_
    refine (eval_answered (o := .list_memory_by_source WATERMARK_SOURCE S.project_id) rfl).trans ?_
    have hnot : ¬ (db.list_memory_by_source "git-onboard" (some S.project_id) ≠ []
        ∧ stored_watermark (db.watermarks S.project_id) = none) := by
      rintro ⟨hsome, hnone⟩
      rw [h.stored, Option.map_eq_none_iff] at hnone
      exact hsome (h.started hnone)
    have hw' : stored_watermark (db.watermarks S.project_id) = w := h.stored
    rw [Db.watermarks] at hnot hw'
    rw [if_neg (by simp), if_neg hnot, hw']
  -- git is asked for what is behind the anchor
  have hextract : onboard_answer (S.env max_commits v) (.extract w) db
      = (.ok { commits := walk.map S.R.detail, branch := S.R.branch
               head := (S.R.detail v.head).hash }, db) := by
    have hex : extract_history_from_path S.R v.head max_commits w = .ok _ :=
      extract_history_anchor v.head max_commits anchor
    simp only [onboard_answer, env, hex]
    rfl
  have hwalk : out = _ := hprepare.trans (eval_answered hextract)
  clear_value out
  rcases hl : walk with _ | ⟨first, others⟩
  · -- nothing is listed: then there is an anchor, and it stays
    have hsome : ∃ c, anchor = some c := by
      rcases anchor with _ | c
      · have hlen := List.length_pos_of_ne_nil (list_none_ne_nil S.R v.head)
        have hnil := congrArg List.length hl
        simp only [walk, List.length_take, List.length_nil] at hnil
        have hpos := hmax rfl
        omega
      · exact ⟨c, rfl⟩
    obtain ⟨c, rfl⟩ := hsome
    rw [hl] at hwalk
    refine ⟨⟨_, congrArg Prod.fst hwalk, rfl, fun _ => rfl⟩, ?_⟩
    have hdb : out.2 = db := congrArg Prod.snd hwalk
    rw [hdb, List.head?_nil, Option.none_or]
    refine ⟨v.keeps_project db h.project, ?_, fun heq => by cases heq⟩
    rw [v.keeps_watermarks]
    exact h.row
  · -- the first commit of the listing is saved
    rw [hl] at hwalk
    obtain ⟨db', item, hsave, hproj, hrow, hcontent⟩ := eval_save_watermark (S.env max_commits v).world
      S.project_id (S.R.detail first).hash db S.new_id_free (fun _ _ _ => rfl) h.project
    rw [← onboard_answer_eq] at hsave
    have hend := hwalk.trans (Prog.eval_bind (onboard_answer (S.env max_commits v))
      (save_watermark S.project_id (S.R.detail first).hash) _ db)
    rw [hsave] at hend
    refine ⟨⟨_, congrArg Prod.fst hend, rfl, fun heq => by cases heq⟩, ?_⟩
    have hdb : out.2 = db' := congrArg Prod.snd hend
    rw [hdb, List.head?_cons, Option.some_or]
    refine ⟨v.keeps_project db' hproj, ?_, fun heq => by cases heq⟩
    rw [v.keeps_watermarks, hrow]
    simp [hcontent]

/-! ## Run after run -/

/-- The runs report what the walks of the repository list. -/
theorem runs_report {max_commits : ℕ} (hmax : 0 < max_commits) (visits : List (Visit S)) {db : Db F}
    {anchor : Option C} (h : S.Anchored db anchor) :
    List.Forall₂ S.Reports (S.R.log.walks max_commits anchor (visits.map (·.head)))
      (S.onboard_runs max_commits visits db) := by
  induction visits generalizing db anchor with
  | nil => exact .nil
  | cons v rest ih =>
      obtain ⟨hreports, hanchored⟩ := run_anchored h max_commits (fun _ => hmax) v
      exact .cons hreports (ih hanchored)

/-- The commits in the histories of the runs, in order. -/
def delivered (outs : List (Except Exc OnboardPrepared)) : List GitCommit :=
  outs.flatMap fun
    | .ok p => p.history.commits
    | .error _ => []

/-- The commits of the histories are the commits of the walks, with what the repository knows of them. -/
theorem delivered_of_reports {walks : List (List C)} {outs : List (Except Exc OnboardPrepared)}
    (h : List.Forall₂ S.Reports walks outs) : delivered outs = walks.flatten.map S.R.detail := by
  induction h with
  | nil => rfl
  | cons hout _ ih =>
      obtain ⟨p, rfl, hcommits, -⟩ := hout
      rw [delivered, List.flatMap_cons, List.flatten_cons, List.map_append]
      exact congrArg₂ _ hcommits ih

/-- Two commits with the same details have the same hash. -/
theorem detail_injective : Function.Injective S.R.detail := by
  intro a b h
  have ha := S.R.rev_parse_hash a
  rw [h, S.R.rev_parse_hash b] at ha
  exact (Option.some.inj ha).symm

variable (S) in
/-- The runs return; their histories hold every non-merge commit the last HEAD reaches,
and nothing else, once over all runs; and a run that finds the HEAD of the run before it
is up to date. -/
structure DeliversOnce (heads : List C) (outs : List (Except Exc OnboardPrepared)) : Prop where
  returned : ∀ out ∈ outs, ∃ p, out = .ok p
  once : (delivered outs).Nodup
  all : ∀ g, g ∈ delivered outs
    ↔ ∃ last, heads.getLast? = some last ∧ ∃ c, S.R.history.Shows last c ∧ S.R.detail c = g
  idle : ∀ i head, heads[i]? = some head → heads[i + 1]? = some head →
    ∃ p, outs[i + 1]? = some (.ok p) ∧ p.status = .up_to_date

/-- A HEAD that stayed has nothing new. -/
theorem delivers_idle {H : History C} {prev : Option C} {heads : List C} {walks : List (List C)}
    (h : Log.Delivers H prev heads walks) (i : ℕ) {head : C} (hi : heads[i]? = some head)
    (hnext : heads[i + 1]? = some head) : walks[i + 1]? = some [] := by
  induction heads generalizing prev walks i with
  | nil => simp at hi
  | cons first rest ih =>
      rcases walks with _ | ⟨walk, walks⟩
      · cases h
      rw [List.getElem?_cons_succ] at hnext ⊢
      rcases i with _ | i
      · rw [List.getElem?_cons_zero] at hi
        obtain rfl := Option.some.inj hi
        rcases rest with _ | ⟨second, rest⟩
        · simp at hnext
        rcases walks with _ | ⟨walk', walks⟩
        · cases h.2
        rw [List.getElem?_cons_zero] at hnext ⊢
        obtain rfl := Option.some.inj hnext
        congr 1
        refine List.eq_nil_iff_forall_not_mem.mpr ?_
        intro x hx
        obtain ⟨hshown, hnew⟩ := (h.2.1.2 x).mp hx
        exact hnew ⟨second, rfl, hshown.2⟩
      · rw [List.getElem?_cons_succ] at hi
        exact ih h.2 i hi hnext

/-- Walks that deliver what is new each time make runs that deliver each commit once. -/
theorem deliversOnce_of_delivers {heads : List C} {walks : List (List C)}
    {outs : List (Except Exc OnboardPrepared)} (hgrows : Log.Grows S.R.history none heads)
    (hdel : Log.Delivers S.R.history none heads walks)
    (hrep : List.Forall₂ S.Reports walks outs) : S.DeliversOnce heads outs := by
  obtain ⟨hnodup, hmem⟩ := Log.delivers_flatten hgrows hdel
  have hnone : ∀ x, ¬ S.R.history.Covers none x := by
    rintro x ⟨_, hs, -⟩
    cases hs
  refine ⟨?_, ?_, ?_, ?_⟩
  · intro out hout
    obtain ⟨i, hi, rfl⟩ := List.getElem_of_mem hout
    obtain ⟨p, hp, -⟩ := (List.forall₂_iff_get.mp hrep).2 i
      ((List.forall₂_iff_get.mp hrep).1 ▸ hi) hi
    exact ⟨p, hp⟩
  · rw [delivered_of_reports hrep]
    exact hnodup.map detail_injective
  · intro g
    rw [delivered_of_reports hrep, List.mem_map]
    constructor
    · rintro ⟨c, hc, rfl⟩
      obtain ⟨⟨last, hlast, hshown⟩, -⟩ := (hmem c).mp hc
      exact ⟨last, hlast, c, hshown, rfl⟩
    · rintro ⟨last, hlast, c, hshown, rfl⟩
      exact ⟨c, (hmem c).mpr ⟨⟨last, hlast, hshown⟩, hnone c⟩, rfl⟩
  · intro i head hi hnext
    have hwalk := delivers_idle hdel i hi hnext
    obtain ⟨hlen, hget⟩ := List.forall₂_iff_get.mp hrep
    obtain ⟨hlt, hnil⟩ := List.getElem?_eq_some_iff.mp hwalk
    obtain ⟨p, hp, -, hstatus⟩ := hget (i + 1) hlt (hlen ▸ hlt)
    refine ⟨p, ?_, hstatus hnil⟩
    rw [List.getElem?_eq_getElem (hlen ▸ hlt)]
    exact congrArg some hp

/-- The first walk has something to list, so a limit it keeps to is positive. -/
theorem limit_pos {max_commits : ℕ} {head : C} {rest : List C}
    (h : S.R.log.WithinLimit max_commits none (head :: rest)) : 0 < max_commits := by
  have hlen := List.length_pos_of_ne_nil (list_none_ne_nil S.R head)
  have hle := h.1
  omega

/-- **Each commit once.** On a project not onboarded before, the runs over a growing
history deliver every commit exactly once, whatever limit the new commits keep to, if and
only if every HEAD that a later run resumes from has a single tip. -/
theorem each_commit_delivered_once_iff (S : Site F C) (visits : List (Visit S)) (db : Db F)
    (hfresh : S.Anchored db none)
    (hgrows : Log.Grows S.R.history none (visits.map (·.head))) :
    (∀ max_commits, S.R.log.WithinLimit max_commits none (visits.map (·.head)) →
        S.DeliversOnce (visits.map (·.head)) (S.onboard_runs max_commits visits db))
      ↔ ∀ h ∈ (visits.map (·.head)).dropLast, S.R.history.OneTip h := by
  constructor
  · intro h
    -- with room for every walk nothing is cut, and what is listed twice is delivered twice
    obtain ⟨limit, hlimit, hfull⟩ := S.R.log.exists_uncut none none (visits.map (·.head))
    rcases visits with _ | ⟨v, rest⟩
    · intro h hin
      cases hin
    have hpos : 0 < limit := limit_pos hlimit
    have honce := (h limit hlimit).once
    rw [delivered_of_reports (runs_report hpos _ hfresh), hfull] at honce
    have honce' : ([] ++ (S.R.log.full none ((v :: rest).map Visit.head)).flatten).Nodup :=
      honce.of_map _
    refine Log.oneTip_of_nodup ?_ ?_ hgrows honce'
    · rintro x - ⟨_, hs, -⟩
      cases hs
    · intro a ha
      cases ha
  · intro htips max_commits hlimit
    rcases visits with _ | ⟨v, rest⟩
    · have hnone : Log.Delivers S.R.history none [] [] := trivial
      exact deliversOnce_of_delivers trivial hnone .nil
    have hpos : 0 < max_commits := limit_pos hlimit
    exact deliversOnce_of_delivers hgrows
      (Log.walks_deliver (fun _ _ => Iff.rfl) hgrows hlimit htips) (runs_report hpos _ hfresh)

end Site

/-! ## A merge of two side branches -/

namespace Diamond

/-- Two commits on one root, and their merge. -/
inductive Commit where
  | root | left | right | merge
  deriving DecidableEq, Repr

namespace Commit

def parents : Commit → List Commit
  | root => []
  | left => [root]
  | right => [root]
  | merge => [left, right]

/-- A merge is made after its parents. -/
def date : Commit → ℕ
  | root => 1
  | left => 2
  | right => 3
  | merge => 4

def ancestors : Commit → List Commit
  | root => [root]
  | left => [left, root]
  | right => [right, root]
  | merge => [merge, right, left, root]

def hash : Commit → String
  | root => "aaaaaaaa"
  | left => "bbbbbbbb"
  | right => "cccccccc"
  | merge => "dddddddd"

def of_hash (s : String) : Option Commit :=
  [root, left, right, merge].find? fun c => c.hash = s

end Commit

def history : History Commit where
  parents := Commit.parents
  date := Commit.date
  older := by
    intro c p hp
    cases c <;> cases p <;> revert hp <;> decide

/-- The table of ancestors is right. -/
theorem reaches_iff {a b : Commit} : history.Reaches a b ↔ b ∈ a.ancestors := by
  constructor
  · intro h
    induction h with
    | refl => cases a <;> decide
    | @tail c p _ hp ih =>
        change p ∈ c.parents at hp
        revert ih hp
        cases a <;> cases c <;> cases p <;> decide
  · have step : ∀ {c p : Commit}, p ∈ c.parents → history.Reaches c p :=
      fun hp => Relation.ReflTransGen.single hp
    have hl : history.Reaches .left .root := step (by decide)
    have hr : history.Reaches .right .root := step (by decide)
    have hml : history.Reaches .merge .left := step (by decide)
    have hmr : history.Reaches .merge .right := step (by decide)
    intro h
    cases a <;> cases b <;> first
      | exact Relation.ReflTransGen.refl
      | assumption
      | exact hml.trans hl
      | exact absurd h (by decide)

/-- The non-merge commits that `head` reaches and `since` does not, newest first. -/
def list (since : Option Commit) (head : Commit) : List Commit :=
  [.right, .left, .root].filter fun c =>
    c ∈ head.ancestors && !(since.any fun s => c ∈ s.ancestors)

def log : Log history where
  list := list
  nodup := by
    intro since head
    exact List.Nodup.filter _ (by decide)
  mem_list := by
    intro since head x
    have hplain : history.Plain x ↔ x ∈ [Commit.right, .left, .root] := by
      cases x <;> simp [History.Plain, history, Commit.parents]
    have hcovers : history.Covers since x ↔ ∃ s, since = some s ∧ x ∈ s.ancestors :=
      exists_congr fun s => and_congr_right fun _ => reaches_iff
    rw [History.Shows, hplain, hcovers, reaches_iff, list, List.mem_filter]
    cases since <;> simp [and_assoc]
  newest_first := by
    intro since head
    exact List.Pairwise.filter _ (by decide)

def repository : Repository Commit where
  history := history
  log := log
  detail c := { hash := c.hash, author := "", date := c.date, subject := "", insertions := 1 }
  rev_parse := Commit.of_hash
  branch := "main"
  rev_parse_hash := by
    intro c
    cases c <;> decide

/-- An id longer than any in the table. -/
def new_id (db : Db Unit) : String :=
  String.ofList (List.replicate ((db.memory_items.map (·.id.length)).sum + 1) 'm')

theorem new_id_free (db : Db Unit) : db.get_memory (new_id db) = none := by
  rw [Db.get_memory, Option.map_eq_none_iff]
  refine Keyed.lookup_eq_none_iff.mpr ?_
  intro hin
  obtain ⟨m, hm, hid⟩ := List.mem_map.mp hin
  have hle : m.id.length ≤ (db.memory_items.map (·.id.length)).sum :=
    List.le_sum_of_mem (List.mem_map_of_mem hm)
  have hlen : (new_id db).length = (db.memory_items.map (·.id.length)).sum + 1 := by
    simp [new_id]
  rw [← hid] at hlen
  omega

def site : Site Unit Commit where
  P := { is_merge := fun _ => false, is_format := fun _ => false, is_version_bump := fun _ => false }
  R := repository
  project_id := "p"
  max_clusters := 15
  new_id := new_id
  hash_shape := by
    intro c
    cases c <;> decide +kernel
  new_id_free := new_id_free

/-- A run that finds `head`; nothing else happens to the store. -/
def visit (head : Commit) : Visit site where
  now := 0
  head := head
  after := id
  keeps_watermarks := fun _ => rfl
  keeps_project := fun _ h => h

theorem one_project : ([{ id := "p", name := "p", created_at := 0 }].map fun p : Project => p.id).Nodup :=
  List.nodup_singleton _

theorem no_memory : ∀ m ∈ ([] : List MemoryRow), ∀ p, m.project_id = some p →
    ∃ q ∈ [{ id := "p", name := "p", created_at := 0 }], Project.id q = p := by
  intro m hm
  cases hm

/-- A store with the project and nothing else. -/
def store : Db Unit where
  projects := [{ id := "p", name := "p", created_at := 0 }]
  project_pk := one_project
  memory_fk := no_memory

/-- The sample store has been onboarded by nobody. -/
theorem store_anchored : site.Anchored store none := ⟨by decide, rfl, fun _ => rfl⟩

/-- Two HEADs with a single tip each, the second on top of the first. -/
theorem each_commit_delivered_once_iff_sample :
    site.Anchored store none ∧ Log.Grows history none [Commit.left, .merge]
      ∧ ∀ max_commits, log.WithinLimit max_commits none [Commit.left, .merge] →
        site.DeliversOnce [Commit.left, .merge]
          (site.onboard_runs max_commits [visit .left, visit .merge] store) := by
  have hgrows : Log.Grows history none [Commit.left, .merge] := by
    refine ⟨nofun, ?_, trivial⟩
    intro p hp
    obtain rfl := Option.some.inj hp
    exact reaches_iff.mpr (by decide)
  refine ⟨store_anchored, hgrows, ?_⟩
  refine (Site.each_commit_delivered_once_iff site [visit .left, visit .merge] store store_anchored
    hgrows).mpr ?_
  intro h hin
  obtain rfl : h = Commit.left := List.mem_singleton.mp hin
  refine ⟨.left, ⟨Nat.le_refl 1, Relation.ReflTransGen.refl⟩, ?_⟩
  rintro x ⟨-, hr⟩
  exact hr

/-- A merge HEAD found twice: the first run lists `right`, `left` and `root` and remembers
`right`, so the second run lists `left` again instead of being up to date. -/
theorem merge_head_lists_again :
    site.Anchored store none ∧ Log.Grows history none [Commit.merge, .merge]
      ∧ log.WithinLimit 3 none [Commit.merge, .merge]
      ∧ ¬ site.DeliversOnce [Commit.merge, .merge]
          (site.onboard_runs 3 [visit .merge, visit .merge] store) := by
  refine ⟨store_anchored, ⟨nofun, ?_, trivial⟩, ⟨by decide, by decide, trivial⟩, ?_⟩
  · intro p hp
    obtain rfl := Option.some.inj hp
    exact Relation.ReflTransGen.refl
  · intro h
    have honce := h.once
    rw [Site.delivered_of_reports
      (Site.runs_report (by decide) [visit .merge, visit .merge] store_anchored)] at honce
    exact absurd (honce.of_map _) (by decide)

end Diamond

end OpenChronicle
