/-
Onboarding runs that fail half way.

`onboard_git_prepare` deletes under `force` before it extracts, so that an extraction that raises leaves
the project without its git memories. And it saves the watermark before `oc onboard git` adds a memory,
so that after an insert that raises the next run resumes behind commits of which nothing is stored: it
walks again only those that the newest commit does not reach.

Both are orders of two effects, and for both it is said exactly when the order shows. The first shows
when there was something to delete. For the second one has to compare two walks. The failed run has
stored the memories of some first clusters; the next run walks what its HEAD reaches and the watermark
does not. So a commit of a cluster that was not stored comes back exactly if the newest commit does not
reach it (`Resumes`), and in an ordinary history, where the newest commit reaches what it was made from,
it does not come back.

The store is the one of the model, and it may refuse any insert (`refuses`): a full disk, a lock that
times out, a text that cannot be bound. The repository is any that `git log` can list.
-/
import OpenChronicle.GitOnboard.Clusters
import OpenChronicle.GitOnboard.Delivery

set_option autoImplicit false

namespace OpenChronicle

open Program Ancestry Runs

variable {F C : Type}

/-! ## An extraction that raises -/

/-- The hash that `onboard_git_prepare` passes to the extractor. -/
def asked_since (project_id : String) (force : Bool) (db : Db F) : Option String :=
  if force then none else stored_watermark (db.watermarks project_id)

/-- The project's git memories and its watermark rows, all of them with ids of their own. -/
theorem Db.wiped_nodup (db : Db F) (project_id : String) :
    ((db.list_memory_by_source "git-onboard" (some project_id) ++ db.watermarks project_id).map (·.id)).Nodup := by
  rw [List.map_append]
  refine List.nodup_append.mpr ⟨db.list_memory_by_source_nodup _ _, db.list_memory_by_source_nodup _ _, ?_⟩
  rintro a ha b hb rfl
  obtain ⟨m, hm, hid⟩ := List.mem_map.mp ha
  obtain ⟨m', hm', hid'⟩ := List.mem_map.mp hb
  obtain ⟨hget, hsource, -⟩ := Db.mem_list_memory_by_source.mp hm
  obtain ⟨hget', hsource', -⟩ := Db.mem_list_memory_by_source.mp hm'
  rw [hid] at hget
  rw [hid', hget] at hget'
  obtain rfl := Option.some.inj hget'
  rw [hsource] at hsource'
  exact absurd hsource' (by decide)

section Raised

variable (P : SubjectPatterns) {X : OnboardWorld F} (project_id : String) (max_clusters : ℤ)

/-- Nothing of the walk is left when the extraction raises. -/
theorem eval_walk_raised {since : Option String} {db : Db F} (hraises : X.extract since = none) :
    (walk_and_anchor P project_id max_clusters since).eval (S := onboardSig) X.answer db = (.error .Other, db) := by
  refine eval_raised ?_
  rw [OnboardWorld.answer, hraises]

/-- What follows the two lists: under `force` a walk in the wiped store. -/
theorem eval_prepare_forced (db : Db F) :
    ∃ db', (onboard_git_prepare P project_id max_clusters true).eval (S := onboardSig) X.answer db
        = (walk_and_anchor P project_id max_clusters none).eval (S := onboardSig) X.answer db'
      ∧ db'.projects = db.projects
      ∧ ∀ id, db'.get_memory id =
        if id ∈ (db.list_memory_by_source "git-onboard" (some project_id) ++ db.watermarks project_id).map (·.id)
        then none else db.get_memory id := by
  obtain ⟨db', hdel, hproj, hget⟩ := eval_delete_all X.serves
    (db.list_memory_by_source "git-onboard" (some project_id) ++ db.watermarks project_id) db (by
      intro m hm
      rcases List.mem_append.mp hm with hin | hin
      · exact (Db.mem_list_memory_by_source.mp hin).1
      · exact (Db.mem_list_memory_by_source.mp hin).1) (db.wiped_nodup project_id)
  refine ⟨db', ?_, hproj, hget⟩
  refine (eval_answered (X.serves.list "git-onboard" project_id db)).trans ?_
  refine (eval_answered (X.serves.list WATERMARK_SOURCE project_id db)).trans ?_
  show ((delete_all (db.list_memory_by_source "git-onboard" (some project_id) ++ db.watermarks project_id))
    >>= fun _ => walk_and_anchor P project_id max_clusters none).eval (S := onboardSig) X.answer db = _
  rw [Prog.eval_bind, hdel]

/-- Without `force` the run is over, or it is a walk in the store as it is. -/
theorem eval_prepare_unforced (db : Db F) :
    (∃ prepared, (onboard_git_prepare P project_id max_clusters false).eval (S := onboardSig) X.answer db
        = (.ok prepared, db) ∧ prepared.status = .present)
      ∨ (onboard_git_prepare P project_id max_clusters false).eval (S := onboardSig) X.answer db
        = (walk_and_anchor P project_id max_clusters (stored_watermark (db.watermarks project_id))).eval
            (S := onboardSig) X.answer db := by
  have hlisted : (onboard_git_prepare P project_id max_clusters false).eval (S := onboardSig) X.answer db
      = (if db.list_memory_by_source "git-onboard" (some project_id) ≠ []
            ∧ stored_watermark (db.watermarks project_id) = none then
          (pure { status := .present
                  existing_count := (db.list_memory_by_source "git-onboard" (some project_id)).length } :
            OnboardProg OnboardPrepared)
        else walk_and_anchor P project_id max_clusters (stored_watermark (db.watermarks project_id))).eval
          (S := onboardSig) X.answer db := by
    refine (eval_answered (X.serves.list "git-onboard" project_id db)).trans ?_
    refine (eval_answered (X.serves.list WATERMARK_SOURCE project_id db)).trans ?_
    rfl
  rw [hlisted]
  split
  · exact .inl ⟨_, rfl, rfl⟩
  · exact .inr rfl

/-- **A run whose extraction raises leaves the memories as they were exactly if it is not forced, or
there is nothing to wipe.** -/
theorem failed_onboarding_changes_nothing_iff (force : Bool) (db : Db F)
    (hraises : X.extract (asked_since project_id force db) = none) :
    ((onboard_git_prepare P project_id max_clusters force).eval (S := onboardSig) X.answer db).2.memory_items
        = db.memory_items
      ↔ force = false ∨ db.list_memory_by_source "git-onboard" (some project_id) = []
        ∧ db.watermarks project_id = [] := by
  cases force with
  | false =>
      have hraises : X.extract (stored_watermark (db.watermarks project_id)) = none := hraises
      -- an unforced run has only read when it extracts
      rcases eval_prepare_unforced P project_id max_clusters (X := X) db with ⟨prepared, heval, -⟩ | heval
      · simp [heval]
      · rw [heval, eval_walk_raised P project_id max_clusters hraises]
        simp
  | true =>
      have hraises : X.extract none = none := hraises
      -- a forced run has deleted by then what the two lists showed
      obtain ⟨db', heval, -, hget⟩ := eval_prepare_forced P project_id max_clusters (X := X) db
      rw [heval, eval_walk_raised P project_id max_clusters hraises]
      constructor
      · intro hsame
        right
        -- if the rows are the same, none of them was deleted, so there was none
        have hget_same : ∀ id, db'.get_memory id = db.get_memory id := by
          intro id
          rw [Db.get_memory, Db.memory_row, hsame]
          rfl
        have hnone : db.list_memory_by_source "git-onboard" (some project_id) ++ db.watermarks project_id = [] := by
          refine List.eq_nil_iff_forall_not_mem.mpr ?_
          intro m hm
          have hthere : db.get_memory m.id = some m := by
            rcases List.mem_append.mp hm with hin | hin
            · exact (Db.mem_list_memory_by_source.mp hin).1
            · exact (Db.mem_list_memory_by_source.mp hin).1
          have hgone := hget m.id
          rw [if_pos (List.mem_map_of_mem hm), hget_same, hthere] at hgone
          cases hgone
        exact List.append_eq_nil_iff.mp hnone
      · rintro (hforce | ⟨hitems, hmarks⟩)
        · cases hforce
        · -- nothing was deleted, so the store is the one that was
          have hrun : (onboard_git_prepare P project_id max_clusters true).eval (S := onboardSig) X.answer db
              = (.error .Other, db) := by
            refine (eval_answered (X.serves.list "git-onboard" project_id db)).trans ?_
            refine (eval_answered (X.serves.list WATERMARK_SOURCE project_id db)).trans ?_
            show ((delete_all (db.list_memory_by_source "git-onboard" (some project_id) ++ db.watermarks project_id))
              >>= fun _ => walk_and_anchor P project_id max_clusters none).eval (S := onboardSig) X.answer db = _
            rw [hitems, hmarks]
            exact eval_walk_raised P project_id max_clusters hraises
          rw [heval, eval_walk_raised P project_id max_clusters hraises] at hrun
          rw [(Prod.mk.inj hrun).2]

end Raised

/-! ## An insert that raises -/

section Prepared

variable {P : SubjectPatterns} {X : OnboardWorld F} {project_id : String} {max_clusters : ℤ}
  {db db' : Db F} {prepared : OnboardPrepared}

/-- What a run has done that ends with `ok`. -/
structure Ready (P : SubjectPatterns) (X : OnboardWorld F) (project_id : String) (max_clusters : ℤ)
    (projects : List Project) (prepared : OnboardPrepared) (db' : Db F) : Prop where
  extracted : ∃ since, X.extract since = some prepared.history
  clusters : prepared.clusters = cluster_commits (filter_commits P prepared.history.commits) max_clusters 72
  saved : ∃ newest rest, prepared.history.commits = newest :: rest
    ∧ (db'.watermarks project_id).map (·.content) = [newest.hash]
  projects : db'.projects = projects

/-- A walk that returns has saved its newest commit as the watermark. -/
theorem walk_ready {since : Option String}
    (h : (walk_and_anchor P project_id max_clusters since).eval (S := onboardSig) X.answer db = (.ok prepared, db'))
    (hok : prepared.status = .ok) : Ready P X project_id max_clusters db.projects prepared db' := by
  rcases hextract : X.extract since with _ | history
  · rw [eval_walk_raised P project_id max_clusters hextract] at h
    cases h
  have hanswer : X.answer (.extract since) db = (.ok history, db) := by
    rw [OnboardWorld.answer, hextract]
  have hwalk : (walk_and_anchor P project_id max_clusters since).eval (S := onboardSig) X.answer db = _ :=
    eval_answered hanswer
  rw [hwalk] at h
  clear hwalk
  rcases hcommits : history.commits with _ | ⟨newest, rest⟩
  · -- nothing was walked: the status is another one
    simp only [hcommits] at h
    split at h
    · obtain ⟨hres, -⟩ := Prod.mk.inj h
      obtain rfl := Except.ok.inj hres
      cases hok
    · obtain ⟨hres, -⟩ := Prod.mk.inj h
      obtain rfl := Except.ok.inj hres
      cases hok
  · simp only [hcommits] at h
    rw [Prog.eval_bind] at h
    rcases hsave : (save_watermark project_id newest.hash).eval (S := onboardSig) X.answer db with ⟨e | u, db₁⟩
    · rw [hsave] at h
      cases h
    · rw [hsave] at h
      obtain ⟨hres, rfl⟩ := Prod.mk.inj h
      obtain rfl := Except.ok.inj hres
      obtain ⟨hproj, hmarks⟩ := watermarks_of_save hsave
      refine ⟨⟨since, hextract⟩, ?_, ⟨newest, rest, hcommits, hmarks⟩, hproj⟩
      rw [hcommits]

/-- And so has a prepared run. -/
theorem prepare_ready {force : Bool}
    (h : (onboard_git_prepare P project_id max_clusters force).eval (S := onboardSig) X.answer db
      = (.ok prepared, db')) (hok : prepared.status = .ok) :
    Ready P X project_id max_clusters db.projects prepared db' := by
  cases force with
  | false =>
      rcases eval_prepare_unforced P project_id max_clusters (X := X) db with ⟨found, heval, hpresent⟩ | heval
      · rw [heval] at h
        obtain ⟨hres, -⟩ := Prod.mk.inj h
        obtain rfl := Except.ok.inj hres
        rw [hpresent] at hok
        cases hok
      · rw [heval] at h
        exact walk_ready h hok
  | true =>
      obtain ⟨db₁, heval, hproj, -⟩ := eval_prepare_forced P project_id max_clusters (X := X) db
      rw [heval] at h
      rw [← hproj]
      exact walk_ready h hok

end Prepared

section Materialize

variable {X : OnboardWorld F} {format : CommitCluster → String} {project_id : String}

/-- The insert of one memory: it is there, or the store is as before. -/
theorem answer_add_cases (X : OnboardWorld F) (item : MemoryItem) (db : Db F) :
    (∃ db', db.add_memory item = .ok db' ∧ X.answer (.add_memory item) db = (.ok (), db'))
      ∨ ∃ e, X.answer (.add_memory item) db = (.error e, db) := by
  rw [OnboardWorld.answer]
  split
  · exact .inr ⟨_, rfl⟩
  · split
    · next db' hadd => exact .inl ⟨db', hadd, rfl⟩
    · exact .inr ⟨_, rfl⟩

variable (X format project_id) in
/-- Adding memories ends with the memories of the first clusters, of all of them or up to the
insert that raises; the watermark stays. -/
theorem eval_materialize (clusters : List CommitCluster) (hfilled : ∀ cluster ∈ clusters, cluster.commits ≠ [])
    (db : Db F) : ∃ k db', k ≤ clusters.length
      ∧ (∃ stored, (materialize_clusters format project_id (clusters.take k)).eval (S := onboardSig) X.answer db
          = (.ok stored, db'))
      ∧ (∀ e db'', (materialize_clusters format project_id clusters).eval (S := onboardSig) X.answer db
          = (.error e, db'') → k < clusters.length ∧ db'' = db')
      ∧ db'.watermarks project_id = db.watermarks project_id ∧ db'.projects = db.projects := by
  induction clusters generalizing db with
  | nil => exact ⟨0, db, Nat.le_refl 0, ⟨[], rfl⟩, nofun, rfl, rfl⟩
  | cons cluster rest ih =>
      rcases hlatest : (cluster.commits.map (·.date)).max? with _ | latest_date
      · have hnil := List.max?_eq_none_iff.mp hlatest
        exact absurd (List.map_eq_nil_iff.mp hnil) (hfilled cluster (by simp))
      -- the item is made before it is added: a failure leaves what was added so far
      let item : MemoryItem :=
        { id := X.new_id db, content := format cluster, tags := ["git-derived"], created_at := latest_date
          pinned := false, project_id := some project_id, source := "git-onboard" }
      have hrun : ∀ rest', (materialize_clusters format project_id (cluster :: rest')).eval (S := onboardSig)
          X.answer db = (onboard_act (.add_memory item) >>= fun _ =>
            materialize_clusters format project_id rest' >>= fun memories =>
              pure (item :: memories)).eval (S := onboardSig) X.answer db := by
        intro rest'
        rw [materialize_clusters]
        simp only [hlatest]
        exact eval_answered (o := .new_item) (r := (X.new_id db, X.now)) rfl
      rcases answer_add_cases X item db with ⟨db₁, hadd, hanswer⟩ | ⟨e, hanswer⟩
      · obtain ⟨k, db', hk, ⟨stored, hstored⟩, hfails, hmarks, hproj⟩ :=
          ih (fun cluster' hin => hfilled cluster' (by simp [hin])) db₁
        refine ⟨k + 1, db', Nat.succ_le_succ hk, ⟨item :: stored, ?_⟩, ?_, hmarks.trans ?_, hproj.trans ?_⟩
        · rw [List.take_succ_cons, hrun, eval_answered hanswer, Prog.eval_bind, hstored]
          rfl
        · intro e db'' hraised
          rw [hrun, eval_answered hanswer, Prog.eval_bind] at hraised
          -- the failure is one of a later item
          rcases hrest : (materialize_clusters format project_id rest).eval (S := onboardSig) X.answer db₁
            with ⟨e' | memories, db₂⟩
          · rw [hrest] at hraised
            obtain ⟨-, rfl⟩ := Prod.mk.inj hraised
            obtain ⟨hlt, hsame⟩ := hfails e' _ hrest
            exact ⟨Nat.succ_lt_succ hlt, hsame⟩
          · rw [hrest] at hraised
            cases hraised
        · exact Db.list_memory_by_source_add hadd (show "git-onboard" ≠ WATERMARK_SOURCE by decide)
        · exact (Db.add_memory_ok hadd).2.2
      · -- this item fails, and nothing is added
        refine ⟨0, db, Nat.zero_le _, ⟨[], rfl⟩, ?_, rfl, rfl⟩
        intro e' db'' hraised
        rw [hrun, eval_raised hanswer] at hraised
        exact ⟨Nat.succ_pos _, (Prod.mk.inj hraised).2.symm⟩

end Materialize

namespace Site

variable {S : Site F C}

/-- A result that was mapped had a result before. -/
theorem exists_of_map_ok {ε α β : Type} {x : Except ε α} {f : α → β} {b : β} (h : x.map f = .ok b) :
    ∃ a, x = .ok a ∧ f a = b := by
  rcases x with e | a
  · cases h
  · exact ⟨a, rfl, Except.ok.inj h⟩

/-- What is walked is the beginning of what `git log` lists. -/
theorem extract_commits_listed {R : Repository C} {head : C} {max_commits : ℕ} {since : Option String}
    {commits : List GitCommit} (h : extract_commits_from_git R head max_commits since = .ok commits) :
    ∃ start, commits = ((R.log.list start head).take max_commits).map R.detail := by
  unfold extract_commits_from_git at h
  split at h
  · exact ⟨none, (Except.ok.inj h).symm⟩
  · split at h
    · exact ⟨none, (Except.ok.inj h).symm⟩
    · split at h
      · next c _ => exact ⟨some c, (Except.ok.inj h).symm⟩
      · cases h

/-- A walk is a part of a listing. -/
theorem extract_history_listed {R : Repository C} {head : C} {max_commits : ℕ} {since : Option String}
    {history : ExtractedHistory} (h : extract_history_from_path R head max_commits since = .ok history) :
    ∃ start, history.commits = ((R.log.list start head).take max_commits).map R.detail := by
  unfold extract_history_from_path at h
  obtain ⟨⟨commits, unreachable⟩, hcommits, rfl⟩ := exists_of_map_ok h
  unfold extract_with_recovery at hcommits
  split at hcommits
  · obtain ⟨l, hl, heq⟩ := exists_of_map_ok hcommits
    obtain ⟨rfl, -⟩ := Prod.mk.inj heq
    exact extract_commits_listed hl
  · split at hcommits
    · next l hl =>
        obtain ⟨rfl, -⟩ := Prod.mk.inj (Except.ok.inj hcommits)
        exact extract_commits_listed hl
    · cases hcommits
    · -- the saved commit is gone, and the whole history is walked
      obtain ⟨l, hl, heq⟩ := exists_of_map_ok hcommits
      obtain ⟨rfl, -⟩ := Prod.mk.inj heq
      exact extract_commits_listed hl

/-- The run of a visit, with a store that may refuse to insert rows. -/
def failing_world (S : Site F C) (max_commits : ℕ) (v : Visit S) (refuses : Db F → MemoryItem → Bool) :
    OnboardWorld F := { (S.env max_commits v).world with refuses := refuses }

/-- What it takes for a commit to be walked by a run that resumes behind `newest`. -/
structure Resumes [DecidableEq C] (S : Site F C) (newest head : C) (max_commits : ℕ) (c : C) : Prop where
  not_behind : ¬ S.R.history.Reaches newest c
  reached : S.R.history.Reaches head c
  within_limit : (S.R.log.list (some newest) head).idxOf c < max_commits

/-- What a run that resumes behind `newest` walks. -/
theorem mem_resumed_iff [DecidableEq C] (S : Site F C) {newest head c : C} {max_commits : ℕ}
    (hplain : S.R.history.Plain c) :
    S.R.detail c ∈ ((S.R.log.list (some newest) head).take max_commits).map S.R.detail
      ↔ S.Resumes newest head max_commits c := by
  rw [List.mem_map_of_injective detail_injective]
  constructor
  · intro hin
    obtain ⟨⟨-, hreached⟩, hnot⟩ := (S.R.log.mem_list _ _ _).mp (List.mem_of_mem_take hin)
    refine ⟨fun hr => hnot ⟨newest, rfl, hr⟩, hreached, ?_⟩
    exact (List.mem_take_iff_idxOf_lt (List.mem_of_mem_take hin)).mp hin
  · rintro ⟨hnot, hreached, hlimit⟩
    have hin : c ∈ S.R.log.list (some newest) head := by
      refine (S.R.log.mem_list _ _ _).mpr ⟨⟨hplain, hreached⟩, ?_⟩
      rintro ⟨s, hs, hr⟩
      obtain rfl := Option.some.inj hs
      exact hnot hr
    exact (List.mem_take_iff_idxOf_lt hin).mpr hlimit

/-- **After an insert that raises.** The run has stored the memories of some first clusters. The next
one walks the commits of the others again exactly if the newest commit walked reaches none of them,
the new HEAD reaches them all, and the limit does not cut them off. -/
theorem unstored_walked_again_iff [DecidableEq C] (S : Site F C) (max_commits : ℕ) (v : Visit S)
    (refuses : Db F → MemoryItem → Bool) (format : CommitCluster → String) (force : Bool) {db db₁ db' : Db F}
    (hproject : S.project_id ∈ db.projects.map (·.id)) {prepared : OnboardPrepared}
    (hprepared : (onboard_git_prepare S.P S.project_id S.max_clusters force).eval (S := onboardSig)
      (S.failing_world max_commits v refuses).answer db = (.ok prepared, db₁))
    (hok : prepared.status = .ok) {e : Exc}
    (hfails : (cmd_onboard_git S.P format S.project_id S.max_clusters force).eval (S := onboardSig)
      (S.failing_world max_commits v refuses).answer db = (.error e, db')) :
    ∃ newest k, prepared.history.commits.head? = some (S.R.detail newest) ∧ k < prepared.clusters.length
      ∧ (∃ stored, (materialize_clusters format S.project_id (prepared.clusters.take k)).eval (S := onboardSig)
          (S.failing_world max_commits v refuses).answer db₁ = (.ok stored, db'))
      ∧ ∀ (next_max_commits : ℕ) (next : Visit S), ∃ p,
        (onboard_run S.P (S.env next_max_commits next) S.project_id S.max_clusters db').1 = .ok p
        ∧ ((∀ g ∈ (prepared.clusters.drop k).flatMap (·.commits), g ∈ p.history.commits)
          ↔ ∀ c, S.R.detail c ∈ (prepared.clusters.drop k).flatMap (·.commits) →
            S.Resumes newest next.head next_max_commits c) := by
  have hready := prepare_ready hprepared hok
  obtain ⟨since, hextracted⟩ := hready.extracted
  have hhistory : extract_history_from_path S.R v.head max_commits since = .ok prepared.history := by
    have htake : (extract_history_from_path S.R v.head max_commits since).toOption = some prepared.history :=
      hextracted
    rcases hx : extract_history_from_path S.R v.head max_commits since with x | history
    · rw [hx] at htake
      cases htake
    · rw [hx] at htake
      exact congrArg Except.ok (Option.some.inj htake)
  obtain ⟨start, hcommits⟩ := extract_history_listed hhistory
  obtain ⟨first, rest, hfirst, hmarks⟩ := hready.saved
  obtain ⟨newest, hnewest⟩ : ∃ newest, first = S.R.detail newest := by
    have hin : first ∈ ((S.R.log.list start v.head).take max_commits).map S.R.detail := by
      rw [← hcommits, hfirst]
      exact List.mem_cons_self
    obtain ⟨newest, -, rfl⟩ := List.mem_map.mp hin
    exact ⟨newest, rfl⟩
  subst hnewest
  obtain ⟨hconcat, hfilled, -, -, -⟩ := cluster_commits_partitions
    (filter_commits S.P prepared.history.commits) S.max_clusters 72 (by decide)
  rw [← hready.clusters] at hconcat hfilled
  -- a commit of a cluster was listed
  have hlisted : ∀ g ∈ prepared.clusters.flatMap (·.commits), ∃ c, S.R.detail c = g ∧ S.R.history.Plain c := by
    intro g hg
    rw [hconcat] at hg
    have hwalked : g ∈ prepared.history.commits := (List.mem_filter.mp (mem_by_key.mp hg)).1
    rw [hcommits] at hwalked
    obtain ⟨c, hc, rfl⟩ := List.mem_map.mp hwalked
    exact ⟨c, rfl, ((S.R.log.mem_list _ _ _).mp (List.mem_of_mem_take hc)).1.1⟩
  obtain ⟨k, db₂, -, hstored, hends, hmarks₂, hproj₂⟩ := eval_materialize (S.failing_world max_commits v refuses)
    format S.project_id prepared.clusters hfilled db₁
  have hraised : (materialize_clusters format S.project_id prepared.clusters).eval (S := onboardSig)
      (S.failing_world max_commits v refuses).answer db₁ = (.error e, db') := by
    rw [cmd_onboard_git, Prog.eval_bind, hprepared] at hfails
    simp only [hok, if_true] at hfails
    exact hfails
  obtain ⟨hk, rfl⟩ := hends e db' hraised
  refine ⟨newest, k, by rw [hfirst]; rfl, hk, hstored, ?_⟩
  intro next_max_commits next
  have hanchored : S.Anchored db' (some newest) := by
    refine ⟨?_, ?_, nofun⟩
    · rw [hproj₂, hready.projects]
      exact hproject
    · rw [hmarks₂, hmarks]
      rfl
  obtain ⟨⟨p, hp, hwalk, -⟩, -⟩ := run_anchored hanchored next_max_commits nofun next
  refine ⟨p, hp, ?_⟩
  have hagain : ∀ c, S.R.history.Plain c →
      (S.R.detail c ∈ p.history.commits ↔ S.Resumes newest next.head next_max_commits c) := by
    intro c hplain
    rw [hwalk]
    exact mem_resumed_iff S hplain
  have hunstored : ∀ g ∈ (prepared.clusters.drop k).flatMap (·.commits), g ∈ prepared.clusters.flatMap (·.commits) := by
    intro g hg
    obtain ⟨cluster, hcluster, hin⟩ := List.mem_flatMap.mp hg
    exact List.mem_flatMap.mpr ⟨cluster, List.mem_of_mem_drop hcluster, hin⟩
  constructor
  · intro hall c hc
    obtain ⟨c', hsame, hplain⟩ := hlisted _ (hunstored _ hc)
    obtain rfl := detail_injective hsame
    exact (hagain c' hplain).mp (hall _ hc)
  · intro hall g hg
    obtain ⟨c, rfl, hplain⟩ := hlisted g (hunstored g hg)
    exact (hagain c hplain).mpr (hall c hg)

end Site

/-! ## Two failures -/

namespace Diamond

/-- A project with one git memory. -/
def onboarded : Db Unit where
  projects := [{ id := "p", name := "p", created_at := 0 }]
  project_pk := one_project
  memory_items := [{ rowid := 1, id := "m", content := "kept", created_at := 0, project_id := some "p"
                     source := "git-onboard" }]

/-- `git clone` times out. -/
def unreachable_host : OnboardWorld Unit where
  new_id := new_id
  now := 0
  extract _ := none
  refuses _ _ := false

theorem forced_run_loses_memories :
    ¬ ((onboard_git_prepare site.P "p" 15 true).eval (S := onboardSig) unreachable_host.answer onboarded).2.memory_items
      = onboarded.memory_items := by
  intro hsame
  have hlength := congrArg List.length hsame
  revert hlength
  decide +kernel

/-- The same project with the watermark of an earlier run, so that the next run extracts from there. -/
def resumed : Db Unit where
  projects := [{ id := "p", name := "p", created_at := 0 }]
  project_pk := one_project
  memory_items :=
    [{ rowid := 1, id := "m", content := "kept", created_at := 0, project_id := some "p", source := "git-onboard" },
     { rowid := 2, id := "w", content := "aaaaaaaa", created_at := 0, project_id := some "p", source := WATERMARK_SOURCE }]

theorem failed_onboarding_changes_nothing_unforced :
    ((onboard_git_prepare site.P "p" 15 false).eval (S := onboardSig) unreachable_host.answer resumed).1
        = .error .Other
      ∧ ((onboard_git_prepare site.P "p" 15 false).eval (S := onboardSig) unreachable_host.answer resumed).2.memory_items
        = resumed.memory_items :=
  ⟨rfl, (failed_onboarding_changes_nothing_iff site.P (X := unreachable_host) "p" 15 false resumed rfl).mpr (.inl rfl)⟩

/-- The store is full when the first memory is to be added. -/
def full (_ : Db Unit) (item : MemoryItem) : Bool := item.source = "git-onboard"

theorem cluster_root : cluster_commits [repository.detail .root] 15 72 = [⟨[repository.detail .root]⟩] := by
  simp [cluster_commits, by_date, cap_groups]

def root_prepared : OnboardPrepared where
  status := .ok
  history := { commits := [repository.detail .root], branch := "main", head := "aaaaaaaa" }
  filtered := [repository.detail .root]
  clusters := [⟨[repository.detail .root]⟩]

/-- What the failing run leaves: a watermark, and no memory. -/
def root_store : Db Unit :=
  ((onboard_git_prepare site.P "p" 15 false).eval (S := onboardSig)
    (site.failing_world 10 (visit .root) full).answer store).2

theorem root_prepares : (onboard_git_prepare site.P "p" 15 false).eval (S := onboardSig)
    (site.failing_world 10 (visit .root) full).answer store = (.ok root_prepared, root_store) := by
  refine Prod.ext ?_ rfl
  rw [root_prepared, ← cluster_root]
  rfl

theorem root_fails : (cmd_onboard_git site.P (fun _ => "text") "p" 15 false).eval (S := onboardSig)
    (site.failing_world 10 (visit .root) full).answer store = (.error .OperationalError, root_store) := by
  rw [cmd_onboard_git, Prog.eval_bind, root_prepares]
  rfl

/-- The next run that finds the commit at HEAD would have to resume in front of it. -/
theorem unstored_walked_again_iff_root : ∃ newest, ∀ next : Visit site, ∃ p,
    (onboard_run site.P (site.env 10 next) "p" 15 root_store).1 = .ok p
      ∧ (repository.detail .root ∈ p.history.commits ↔ site.Resumes newest next.head 10 .root) := by
  obtain ⟨newest, k, -, hk, -, hnext⟩ := Site.unstored_walked_again_iff site 10 (visit .root) full
    (fun _ => "text") false (by decide) root_prepares rfl root_fails
  obtain rfl : k = 0 := Nat.lt_one_iff.mp hk
  refine ⟨newest, fun next => ?_⟩
  obtain ⟨p, hp, hagain⟩ := hnext 10 next
  refine ⟨p, hp, ?_⟩
  have hone : (root_prepared.clusters.drop 0).flatMap (·.commits) = [repository.detail .root] := rfl
  rw [hone] at hagain
  constructor
  · intro hin
    refine hagain.mp ?_ .root List.mem_cons_self
    intro g hg
    rw [List.mem_singleton.mp hg]
    exact hin
  · intro hresumes
    refine hagain.mpr ?_ _ List.mem_cons_self
    intro c hc
    obtain rfl := Site.detail_injective (S := site) (List.mem_singleton.mp hc)
    exact hresumes

/-- The next run on the same repository is up to date, and the one commit is in no memory. -/
theorem watermark_runs_ahead :
    (cmd_onboard_git site.P (fun _ => "text") "p" 15 false).eval (S := onboardSig)
        (site.failing_world 10 (visit .root) full).answer store = (.error .OperationalError, root_store)
      ∧ root_store.list_memory_by_source "git-onboard" (some "p") = []
      ∧ ∃ p, (onboard_run site.P (site.env 10 (visit .root)) "p" 15 root_store).1 = .ok p
        ∧ ¬ ∀ g ∈ root_prepared.clusters.flatMap (·.commits), g ∈ p.history.commits := by
  refine ⟨root_fails, rfl, _, rfl, ?_⟩
  intro hall
  exact absurd (hall (repository.detail .root) List.mem_cons_self) nofun

end Diamond

end OpenChronicle
