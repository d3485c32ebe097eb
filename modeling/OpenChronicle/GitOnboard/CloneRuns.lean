/-
What a run of `extract_commits_from_url` starts, whatever git answers and whatever was stored.

Three strings of a child's arguments come from elsewhere: the URL and the branch from the caller, the
watermark from a memory anyone may have written. None of them can be taken for an option: the URL stands
behind `--`, the branch behind `--branch`, and a stored watermark is used only when it looks like a hash,
so that the range made of it does not begin with a dash. git's parser is not modelled, and nothing is said
of what git makes of its arguments.

A run is a tree of calls with the answers as branches, and a statement about its children is an induction
over no more than the program text: the children are the first of a fixed plan. The one branch in it that
needs an argument is the last: the walk is repeated only for an error that git's own text brought about.

The environment of a child holds the allowlisted variables and, for a clone from github.com,
one entry made of the token; nothing else of the process environment can be told from the outside.
-/
import OpenChronicle.GitOnboard.Clone
import OpenChronicle.Lib.Traces

set_option autoImplicit false

namespace OpenChronicle.GitHost

open Program PyStr GitLog
open Config (Environ)

/-! ## The arguments of a child -/

/-- The character that options start with. -/
def dash : CodePoint := .scalar '-'

/-- What the caller of an extraction asks for. -/
structure Request where
  repo_url : Text
  max_commits : ℤ
  since_commit : Option String
  branch : Option Text

/-- The children an extraction may start. -/
inductive GitCall where
  | clone (tmpdir : Text)
  | abbrev_ref (repo_path : Text)
  | head (repo_path : Text)
  | log (repo_path : Text) (since_commit : Option String)

section Calls

variable (q : Request)

/-- The argument lists as the source builds them; the last is the walk, with its format and its range. -/
def GitCall.argv : GitCall → List Text
  | clone tmpdir => clone_argv q.repo_url q.max_commits q.since_commit q.branch tmpdir
  | abbrev_ref repo_path => abbrev_ref_argv repo_path
  | head repo_path => head_argv repo_path
  | log repo_path since_commit => log_argv repo_path q.max_commits since_commit

/-- The options that the source writes, child by child. -/
def CLONE_OPTIONS : List Text := ["--quiet", "--no-checkout", "--depth", "--branch", "--"].map Text.ofString

def REF_OPTIONS : List Text := ["-C", "--abbrev-ref"].map Text.ofString

def LOG_OPTIONS : List Text := ["-C", "--no-merges", "--numstat"].map Text.ofString ++ [FORMAT]

/-- The options that the source writes. -/
def GitCall.own : GitCall → List Text
  | clone _ => CLONE_OPTIONS
  | abbrev_ref _ => REF_OPTIONS
  | head _ => REF_OPTIONS
  | log .. => (Text.ofString "--max-count=" ++ decimal q.max_commits) :: LOG_OPTIONS

/-- Those among them that have their value in the next argument. -/
def valued : List Text := ["-C", "--depth", "--branch"].map Text.ofString

/-- Whatever begins with a dash is meant as an option, or cannot be taken for one where it stands. -/
def GitCall.Guarded (c : GitCall) : Prop := Argv.Guarded dash (c.own q) valued (c.argv q)

/-- The range git is to walk does not begin with a dash. -/
def Undashed (since_commit : Option String) : Prop := ∀ a ∈ revision_range since_commit, a.head? ≠ some dash

variable {q}

open Argv (CommandLine)

/-- The options with a value, one lemma each: what follows them is read as their value. -/
theorem depth_line {own rest : List Text} (hown : Text.ofString "--depth" ∈ own)
    (h : CommandLine dash own valued rest) :
    CommandLine dash own valued (depth_args q.max_commits q.since_commit ++ rest) := by
  unfold depth_args
  split
  · exact .setting hown (by decide +kernel) h
  · exact h

/-- The branch is the value of `--branch`. -/
theorem branch_line {own rest : List Text} (hown : Text.ofString "--branch" ∈ own)
    (h : CommandLine dash own valued rest) : CommandLine dash own valued (branch_args q.branch ++ rest) := by
  cases q.branch with
  | none => exact h
  | some branch => exact .setting hown (by decide +kernel) h

/-- The range is the one argument that stands in the open. -/
theorem range_line {own rest : List Text} {since_commit : Option String} (hrange : Undashed since_commit)
    (h : CommandLine dash own valued rest) :
    CommandLine dash own valued (revision_range since_commit ++ rest) := by
  -- the range is the one argument made of stored text; it has no `--` before it
  have hone : revision_range since_commit = [] ∨ ∃ a, revision_range since_commit = [a] := by
    unfold revision_range
    split
    · split
      · exact .inl rfl
      · exact .inr ⟨_, rfl⟩
    · exact .inl rfl
  rcases hone with hnil | ⟨a, ha⟩
  · rw [hnil]
    exact h
  · rw [ha]
    exact .word (hrange a (by rw [ha]; exact List.mem_singleton_self a)) h

/-- **No argument can be taken for an option that is not one.** -/
theorem argv_guarded (c : GitCall) (h : ∀ repo_path since, c = .log repo_path since → Undashed since) :
    c.Guarded q := by
  refine CommandLine.guarded ?_
  cases c with
  | clone tmpdir =>
      -- URL and directory stand behind `--`; depth and branch are the values of their options
      have htail : CommandLine dash CLONE_OPTIONS valued (depth_args q.max_commits q.since_commit
          ++ (branch_args q.branch ++ [Text.ofString "--", q.repo_url, tmpdir])) :=
        depth_line (by decide +kernel) (branch_line (by decide +kernel)
          (.operands (by decide +kernel) [q.repo_url, tmpdir]))
      rw [GitCall.argv, clone_argv, GitCall.own, List.append_assoc, List.append_assoc]
      exact .word (by decide +kernel) (.word (by decide +kernel) (.option (by decide +kernel)
        (.option (by decide +kernel) htail)))
  | abbrev_ref repo_path =>
      rw [GitCall.argv, abbrev_ref_argv, GitCall.own]
      exact .word (by decide +kernel) (.setting (by decide +kernel) (by decide +kernel)
        (.word (by decide +kernel) (.option (by decide +kernel) (.word (by decide +kernel) .done))))
  | head repo_path =>
      rw [GitCall.argv, head_argv, GitCall.own]
      exact .word (by decide +kernel) (.setting (by decide +kernel) (by decide +kernel)
        (.word (by decide +kernel) (.word (by decide +kernel) .done)))
  | log repo_path since_commit =>
      have hown : ∀ a ∈ LOG_OPTIONS, a ∈ (GitCall.log repo_path since_commit).own q :=
        fun a ha => List.mem_cons_of_mem _ ha
      have htail : CommandLine dash ((GitCall.log repo_path since_commit).own q) valued
          [Text.ofString "--max-count=" ++ decimal q.max_commits, Text.ofString "--no-merges", FORMAT,
            Text.ofString "--numstat"] :=
        .option List.mem_cons_self (.option (hown _ (by decide +kernel))
          (.option (hown _ (by decide +kernel)) (.option (hown _ (by decide +kernel)) .done)))
      rw [GitCall.argv, log_argv, List.append_assoc]
      exact .word (by decide +kernel) (.setting (hown _ (by decide +kernel)) (by decide +kernel)
        (.word (by decide +kernel) (range_line (h repo_path since_commit rfl) htail)))

end Calls

/-! ## The children of a run -/

/-- A call of the host with its answer. -/
abbrev HostEvent : Type := Prog.Answered hostSig GitExc

/-- The environment each child is given. -/
def GitCall.env (environ : Environ) (clone_env : ChildEnv) : GitCall → ChildEnv
  | clone _ => clone_env
  | _ => git_child_env environ

/-- In seconds, as the source gives them to `subprocess.run`. -/
def GitCall.timeout : GitCall → ℕ
  | clone _ => 300
  | log .. => 60
  | _ => 10

def GitCall.child (environ : Environ) (q : Request) (clone_env : ChildEnv) (c : GitCall) : Child :=
  ⟨c.argv q, c.env environ clone_env, c.timeout⟩

/-- The children of an extraction that meets no failure but an unreachable watermark, in order. -/
def plan (q : Request) (tmpdir : Text) : List GitCall :=
  [.clone tmpdir, .abbrev_ref tmpdir, .head tmpdir, .log tmpdir q.since_commit]
    ++ (if q.since_commit.isSome then [.log tmpdir none] else [])

/-- The extraction asked for. -/
def Request.extraction (X : Platform) (q : Request) : HostProg WalkedHistory :=
  extract_commits_from_url X q.repo_url q.max_commits q.since_commit q.branch

section Runs

variable (X : Platform) (q : Request) (clone_env : ChildEnv) (tmpdir : Text)

/-- The call of the host that starts the child. -/
def GitCall.start (c : GitCall) : HostOp := .run (c.child X.environ q clone_env)

/-- A child is started once, whatever becomes of it. -/
theorem run_git_once (child : Child) (timed_out : String) : (run_git child timed_out).Once (S := hostSig) (HostOp.run child) := by
  refine (Prog.Once.op (S := hostSig)).attempt.bind fun r => ?_
  cases r with
  | ok result => trivial
  | error e => cases e <;> trivial

/-- A walk starts one child. -/
theorem extract_once (since_commit : Option String) :
    (extract_commits_from_git X tmpdir q.max_commits since_commit).Once
      (GitCall.start X q clone_env (.log tmpdir since_commit)) := by
  refine (run_git_once _ _).bind fun result => ?_
  by_cases hcode : result.returncode ≠ 0
  · rw [if_pos hcode]
    trivial
  · rw [if_neg hcode]
    cases parse_log X.decimals X.utc_now result.stdout with
    | ok commits => trivial
    | error e => trivial

/-- The walk, and possibly the walk again without the watermark. -/
theorem recovery_along :
    (extract_with_recovery X tmpdir q.max_commits q.since_commit).Along
      ((plan q tmpdir).drop 3 |>.map (GitCall.start X q clone_env)) := by
  unfold extract_with_recovery
  rcases hsince : q.since_commit with _ | since
  · have hplan : (plan q tmpdir).drop 3 = [.log tmpdir none] := by simp [plan, hsince]
    rw [hplan]
    exact (extract_once X q clone_env tmpdir none).along fun commits => trivial
  · have hplan : (plan q tmpdir).drop 3 = [.log tmpdir (some since), .log tmpdir none] := by simp [plan, hsince]
    rw [hplan]
    -- only a `RuntimeError` with a marker in its text goes on
    refine (extract_once X q clone_env tmpdir (some since)).attempt.along fun r => ?_
    cases r with
    | ok commits => trivial
    | error e =>
        cases e with
        | RuntimeError message =>
            dsimp only
            by_cases hmark : is_unreachable_revision_error X message = true
            · rw [if_pos hmark]
              exact (extract_once X q clone_env tmpdir none).along fun commits => trivial
            · rw [if_neg hmark]
              trivial
        | FileNotFoundError => trivial
        | TimeoutExpired => trivial
        | IndexError => trivial
        | UnicodeEncodeError => trivial
        | parser e => trivial
        | Other => trivial

/-- The children follow the plan and stop at the first that fails. -/
theorem walk_along :
    (clone_and_walk X q.repo_url q.max_commits q.since_commit q.branch clone_env tmpdir).Along
      ((plan q tmpdir).map (GitCall.start X q clone_env)) := by
  have hplan : plan q tmpdir = .clone tmpdir :: .abbrev_ref tmpdir :: .head tmpdir :: (plan q tmpdir).drop 3 := by
    rw [plan]
    rfl
  rw [hplan]
  refine (run_git_once _ _).along fun result => ?_
  by_cases hcode : result.returncode ≠ 0
  · rw [if_pos hcode]
    trivial
  · rw [if_neg hcode]
    -- both names are asked for before either answer is looked at
    unfold extract_history_from_path resolve_ref
    rw [Prog.bind_assoc]
    refine (Prog.Once.op (S := hostSig)).along fun branch => ?_
    rw [Prog.bind_assoc]
    refine (Prog.Once.op (S := hostSig)).along fun head => ?_
    by_cases hrefs : branch.returncode ≠ 0 ∨ head.returncode ≠ 0
    · rw [if_pos hrefs]
      trivial
    · rw [if_neg hrefs]
      exact (recovery_along X q clone_env tmpdir).bind_settled fun walked => trivial

/-- The clone comes first, so the children are not none. -/
theorem walk_starts {t : List HostEvent} {res : Except GitExc WalkedHistory}
    (h : (clone_and_walk X q.repo_url q.max_commits q.since_commit q.branch clone_env tmpdir).Trace t res) :
    t ≠ [] := by
  unfold clone_and_walk at h
  rcases Prog.trace_bind.mp h with ⟨result, t₁, t₂, rfl, hclone, -⟩ | ⟨e, hclone, -⟩
  · obtain ⟨r, rfl⟩ := (run_git_once _ _).of_trace hclone
    exact List.cons_ne_nil _ _
  · obtain ⟨r, rfl⟩ := (run_git_once _ _).of_trace hclone
    exact List.cons_ne_nil _ _

/-- What the answer to a walk must be for the walk to be made again. -/
def Unreachable : Except GitExc CompletedProcess → Prop
  | .ok result => result.returncode ≠ 0 ∧ is_unreachable_revision_error X (log_failed X tmpdir result) = true
  | .error (.RuntimeError message) => is_unreachable_revision_error X message = true
  | .error _ => False

/-- The two messages of a child that could not be run name no revision. -/
theorem reachable_message {message : String} (h : message = NOT_INSTALLED ∨ message = LOG_TIMED_OUT) :
    is_unreachable_revision_error X (Text.ofString message) = false := by
  -- on ASCII the platform's `lower` is known
  have hall : message.toList.all (fun c => decide (c.toNat < 128)) = true := by
    rcases h with rfl | rfl
    · decide +kernel
    · decide +kernel
  have hascii : ∀ c ∈ message.toList, c.toNat < 128 :=
    fun c hc => of_decide_eq_true (List.all_eq_true.mp hall c hc)
  have hlower : X.lower (Text.ofString message) = chars (message.toList.map Char.toLower) :=
    X.lower_ascii message.toList hascii
  rw [is_unreachable_revision_error, hlower]
  rcases h with rfl | rfl
  · decide +kernel
  · decide +kernel

/-- A walk that raises `RuntimeError` did so for its answer. -/
theorem extract_raised {since_commit : Option String} {t : List HostEvent} {message : Text}
    (h : (extract_commits_from_git X tmpdir q.max_commits since_commit).Trace t (.error (.RuntimeError message)))
    (hmark : is_unreachable_revision_error X message = true) :
    ∃ r, t = [⟨GitCall.start X q clone_env (.log tmpdir since_commit), r⟩] ∧ Unreachable X tmpdir r := by
  -- so the message was made of what git answered
  have hfresh : ∀ {text : String}, (text = NOT_INSTALLED ∨ text = LOG_TIMED_OUT) → message ≠ Text.ofString text := by
    rintro text htext rfl
    rw [reachable_message X htext] at hmark
    cases hmark
  obtain ⟨r, rfl⟩ := (extract_once X q clone_env tmpdir since_commit).of_trace h
  refine ⟨r, rfl, ?_⟩
  unfold extract_commits_from_git run_git at h
  rw [Prog.bind_assoc] at h
  rcases Prog.trace_bind.mp h with ⟨x, t₁, t₂, ht, hcall, hrest⟩ | ⟨e, he, -⟩
  · obtain ⟨y, hy, hx⟩ := Prog.trace_attempt.mp hcall
    cases hx
    obtain ⟨a, rest, rfl, ha⟩ := hy
    have hra : r = a := eq_of_heq (Sigma.mk.inj (List.cons.inj ht).1).2
    suffices hanswer : Unreachable X tmpdir a by
      rw [hra]
      exact hanswer
    cases a with
    | ok result =>
        obtain ⟨-, rfl⟩ := ha
        dsimp only at hrest
        by_cases hcode : result.returncode ≠ 0
        · rw [Prog.pure_eq, Prog.ret_bind, if_pos hcode] at hrest
          obtain ⟨-, hres⟩ := hrest
          cases hres
          exact ⟨hcode, hmark⟩
        · rw [Prog.pure_eq, Prog.ret_bind, if_neg hcode] at hrest
          cases hparse : parse_log X.decimals X.utc_now result.stdout with
          | ok commits =>
              rw [hparse] at hrest
              cases hrest.2
          | error e =>
              rw [hparse] at hrest
              cases hrest.2
    | error e =>
        obtain ⟨-, rfl⟩ := ha
        cases e with
        | RuntimeError m =>
            cases hrest.2
            exact hmark
        | FileNotFoundError =>
            cases hrest.2
            exact absurd rfl (hfresh (.inl rfl))
        | TimeoutExpired =>
            cases hrest.2
            exact absurd rfl (hfresh (.inr rfl))
        | IndexError => cases hrest.2
        | UnicodeEncodeError => cases hrest.2
        | parser e => cases hrest.2
        | Other => cases hrest.2
  · obtain ⟨x, -, hx⟩ := Prog.trace_attempt.mp he
    cases hx

/-- A walk is made again only for a watermark that is not in the clone. -/
theorem recovery_again {t : List HostEvent} {res : Except GitExc (List LogCommit × Bool)}
    (h : (extract_with_recovery X tmpdir q.max_commits q.since_commit).Trace t res) (hlen : 1 < t.length) :
    ∃ r, ⟨GitCall.start X q clone_env (.log tmpdir q.since_commit), r⟩ ∈ t ∧ Unreachable X tmpdir r := by
  unfold extract_with_recovery at h
  cases hsince : q.since_commit with
  | none =>
      rw [hsince] at h
      -- without a watermark there is one walk
      rcases Prog.trace_bind.mp h with ⟨commits, t₁, t₂, rfl, hwalk, hend⟩ | ⟨e, hwalk, -⟩
      · obtain ⟨r, rfl⟩ := (extract_once X q clone_env tmpdir none).of_trace hwalk
        rw [hend.1] at hlen
        simp at hlen
      · obtain ⟨r, rfl⟩ := (extract_once X q clone_env tmpdir none).of_trace hwalk
        simp at hlen
  | some since =>
      rw [hsince] at h
      rcases Prog.trace_bind.mp h with ⟨r, t₁, t₂, rfl, hcall, hrest⟩ | ⟨e, he, -⟩
      · obtain ⟨x, hx, hr⟩ := Prog.trace_attempt.mp hcall
        cases hr
        obtain ⟨y, hone⟩ := (extract_once X q clone_env tmpdir (some since)).of_trace hx
        rw [hone, List.length_append, List.length_singleton] at hlen
        have hmore : t₂ ≠ [] := by
          rintro rfl
          simp at hlen
        -- something is called behind the first walk only for an unreachable watermark
        have hmark : ∃ message, r = .error (.RuntimeError message)
            ∧ is_unreachable_revision_error X message = true := by
          cases r with
          | ok commits => exact absurd hrest.1 hmore
          | error e =>
              cases e with
              | RuntimeError message =>
                  dsimp only at hrest
                  by_cases hmark : is_unreachable_revision_error X message = true
                  · exact ⟨message, rfl, hmark⟩
                  · rw [if_neg hmark] at hrest
                    exact absurd hrest.1 hmore
              | FileNotFoundError => exact absurd hrest.1 hmore
              | TimeoutExpired => exact absurd hrest.1 hmore
              | IndexError => exact absurd hrest.1 hmore
              | UnicodeEncodeError => exact absurd hrest.1 hmore
              | parser e => exact absurd hrest.1 hmore
              | Other => exact absurd hrest.1 hmore
        obtain ⟨message, rfl, hmark⟩ := hmark
        obtain ⟨a, rfl, ha⟩ := extract_raised X q clone_env tmpdir hx hmark
        exact ⟨a, List.mem_append_left _ (List.mem_singleton_self _), ha⟩
      · obtain ⟨x, -, hx⟩ := Prog.trace_attempt.mp he
        cases hx

/-- Nor does a run of all five children happen for another reason. -/
theorem walk_again {t : List HostEvent} {res : Except GitExc WalkedHistory}
    (h : (clone_and_walk X q.repo_url q.max_commits q.since_commit q.branch clone_env tmpdir).Trace t res)
    (hlen : 4 < t.length) :
    ∃ r, ⟨GitCall.start X q clone_env (.log tmpdir q.since_commit), r⟩ ∈ t ∧ Unreachable X tmpdir r := by
  unfold clone_and_walk at h
  rcases Prog.trace_bind.mp h with ⟨result, t₁, t₂, rfl, hclone, hrest⟩ | ⟨e, hclone, -⟩
  · obtain ⟨r, rfl⟩ := (run_git_once _ _).of_trace hclone
    rw [List.length_append, List.length_singleton] at hlen
    by_cases hcode : result.returncode ≠ 0
    · rw [if_pos hcode] at hrest
      rw [hrest.1, List.length_nil] at hlen
      omega
    · rw [if_neg hcode, extract_history_from_path] at hrest
      -- clone and two `rev-parse` are three children, so a fifth leaves two for the walks
      have hrefs : ∀ {u : List HostEvent} {x : Except GitExc (List Char × List Char)},
          (resolve_ref X tmpdir).Trace u x → u.length ≤ 2 := by
        intro u x hu
        unfold resolve_ref at hu
        rcases Prog.trace_op_bind.mp hu with ⟨branch, u', rfl, hu'⟩ | ⟨e, rfl, -⟩
        · rcases Prog.trace_op_bind.mp hu' with ⟨head, u'', rfl, hu''⟩ | ⟨e, rfl, -⟩
          · by_cases hfail : branch.returncode ≠ 0 ∨ head.returncode ≠ 0
            · rw [if_pos hfail] at hu''
              rw [hu''.1]
              rfl
            · rw [if_neg hfail] at hu''
              rw [hu''.1]
              rfl
          · exact Nat.le_refl 2
        · exact Nat.le_succ 1
      rcases Prog.trace_bind.mp hrest with ⟨names, u, v, rfl, hu, hv⟩ | ⟨e, hu, -⟩
      · have htwo := hrefs hu
        rw [List.length_append] at hlen
        rcases Prog.trace_bind.mp hv with ⟨walked, v₁, v₂, rfl, hv₁, hv₂⟩ | ⟨e, hv, -⟩
        · rw [hv₂.1, List.append_nil] at hlen ⊢
          obtain ⟨r, hr, hunreachable⟩ := recovery_again X q clone_env tmpdir hv₁ (by omega)
          exact ⟨r, List.mem_append_right _ (List.mem_append_right _ hr), hunreachable⟩
        · obtain ⟨r, hr, hunreachable⟩ := recovery_again X q clone_env tmpdir hv (by omega)
          exact ⟨r, List.mem_append_right _ (List.mem_append_right _ hr), hunreachable⟩
      · have htwo := hrefs hu
        omega
  · obtain ⟨r, rfl⟩ := (run_git_once _ _).of_trace hclone
    simp at hlen

/-- What a run that made its directory did: the gates had passed, the children are the first of the plan,
the directory is removed behind them, and the fifth was started for a watermark that is not in the clone. -/
structure Walked (children : List GitCall) (s : List HostEvent) : Prop where
  gates : clone_gates q.repo_url q.branch = .ok ()
  env : build_clone_env X.environ q.repo_url = .ok clone_env
  made : s.head? = some ⟨.mkdtemp, .ok tmpdir⟩
  started : children ≠ []
  planned : children <+: plan q tmpdir
  calls : s.map Sigma.fst = .mkdtemp :: children.map (GitCall.start X q clone_env) ++ [.cleanup tmpdir]
  again : 4 < children.length →
    ∃ r, ⟨GitCall.start X q clone_env (.log tmpdir q.since_commit), r⟩ ∈ s ∧ Unreachable X tmpdir r

end Runs

section Extraction

variable {X : Platform} {q : Request} {s : List HostEvent} {out : Except GitExc WalkedHistory}

/-- **Every run**: nothing is called, or no directory could be made, or the run is `Walked`. -/
theorem extraction_walks (h : (q.extraction X).Trace s out) :
    s = [] ∨ (∃ e, s = [⟨.mkdtemp, .error e⟩])
      ∨ ∃ clone_env tmpdir children, Walked X q clone_env tmpdir children s := by
  unfold Request.extraction extract_commits_from_url at h
  cases hgates : clone_gates q.repo_url q.branch with
  | error e =>
      rw [hgates] at h
      exact .inl h.1
  | ok u =>
      rw [hgates] at h
      cases henv : build_clone_env X.environ q.repo_url with
      | error e =>
          rw [henv] at h
          exact .inl h.1
      | ok clone_env =>
          rw [henv] at h
          rcases Prog.trace_op_bind.mp h with ⟨tmpdir, rest, rfl, hrest⟩ | ⟨e, rfl, -⟩
          · -- the removal is called whatever the body did
            obtain ⟨r, fr, t₁, t₂, rfl, hbody, hfin, -⟩ := Prog.trace_tryFinally.mp hrest
            obtain ⟨x, rfl⟩ := (Prog.Once.op (S := hostSig)).of_trace hfin
            obtain ⟨children, hplan, hchildren⟩ :=
              List.prefix_map_iff.mp ((walk_along X q clone_env tmpdir).of_trace hbody)
            refine .inr (.inr ⟨clone_env, tmpdir, children, hgates, henv, rfl, ?_, hplan, ?_, ?_⟩)
            · rintro rfl
              exact walk_starts X q clone_env tmpdir hbody (List.map_eq_nil_iff.mp hchildren)
            · rw [List.map_cons, List.map_append, hchildren]
              rfl
            · intro hlong
              have hlen : t₁.length = children.length := by
                rw [← List.length_map, hchildren, List.length_map]
              obtain ⟨r, hr, hunreachable⟩ := walk_again X q clone_env tmpdir hbody (by omega)
              exact ⟨r, List.mem_cons_of_mem _ (List.mem_append_left _ hr), hunreachable⟩
          · exact .inr (.inl ⟨e, rfl⟩)

/-- What a run of `onboard_git_prepare` hands over is no watermark or one that looks like a hash. -/
theorem undashed_of_stored {P : SubjectPatterns} {project_id : String} {max_clusters : ℤ} {force : Bool}
    {t : List OnboardEvent} {res : Except Exc OnboardPrepared}
    (h : (onboard_git_prepare P project_id max_clusters force).Trace t res) {since_commit : Option String}
    {r : Except Exc ExtractedHistory} (hextract : ⟨.extract since_commit, r⟩ ∈ t) : Undashed since_commit := by
  rcases since_commit with _ | w
  · intro a ha
    cases ha
  · have hpassed : w ∈ passed t := List.mem_filterMap.mpr ⟨_, hextract, rfl⟩
    obtain ⟨-, items, -, hstored⟩ := (mem_passed_iff h w).mp hpassed
    have hre := (Option.filter_eq_some_iff.mp hstored).2
    -- in both shapes the first character is a hexadecimal digit
    have hhead : ∃ v, HashText v ∧ v.toList <+: w.toList := by
      rcases (watermark_hash_re_iff w).mp hre with hhash | ⟨v, hhash, rfl⟩
      · exact ⟨w, hhash, List.prefix_refl _⟩
      · exact ⟨v, hhash, ⟨_, String.toList_append.symm⟩⟩
    obtain ⟨v, hhash, rest, hrest⟩ := hhead
    have hharmless := hhash.harmless.2
    obtain ⟨c, cs, hv⟩ : ∃ c cs, v.toList = c :: cs := by
      have hlen := hhash.1
      cases hcs : v.toList with
      | nil =>
          rw [hcs, List.length_nil] at hlen
          omega
      | cons c cs => exact ⟨c, cs, rfl⟩
    intro a ha
    rw [revision_range] at ha
    by_cases hempty : w = ""
    · rw [if_pos hempty] at ha
      cases ha
    · rw [if_neg hempty, List.mem_singleton] at ha
      rw [ha, Text.ofString, ← hrest, hv]
      rw [Text.ofString, hv] at hharmless
      exact hharmless

/-- The log of the plan is limited to the watermark or to nothing. -/
theorem log_of_plan {q : Request} {tmpdir repo_path : Text} {since : Option String}
    (h : GitCall.log repo_path since ∈ plan q tmpdir) : since = q.since_commit ∨ since = none := by
  unfold plan at h
  rcases List.mem_append.mp h with h | h
  · simp only [List.mem_cons, reduceCtorEq, GitCall.log.injEq, List.not_mem_nil, or_false, false_or] at h
    exact .inl h.2
  · by_cases hsome : q.since_commit.isSome = true
    · rw [if_pos hsome, List.mem_singleton, GitCall.log.injEq] at h
      exact .inr h.2
    · rw [if_neg hsome] at h
      cases h

/-- **What onboarding runs.** Whatever rows the store holds and whatever git answers: no child is started
unless both gates accept, the children are a beginning of clone, two `rev-parse`, the walk and, for a
watermark that is not in the clone, the walk again without it, no argument of any of them begins with a
dash unless it is an option of the source or stands where none is looked for, and the directory they work
in is made before the first and removed behind the last. -/
theorem onboarding_starts_only_what_it_means {P : SubjectPatterns} {project_id : String} {max_clusters : ℤ}
    {force : Bool} {t : List OnboardEvent} {res : Except Exc OnboardPrepared}
    (hprepare : (onboard_git_prepare P project_id max_clusters force).Trace t res)
    {r : Except Exc ExtractedHistory} (hextract : ⟨.extract q.since_commit, r⟩ ∈ t)
    (hrun : (q.extraction X).Trace s out) :
    s = [] ∨ (∃ e, s = [⟨.mkdtemp, .error e⟩])
      ∨ ∃ clone_env tmpdir children, Walked X q clone_env tmpdir children s
        ∧ ∀ c ∈ children, c.Guarded q := by
  rcases extraction_walks hrun with hnone | hfail | ⟨clone_env, tmpdir, children, hwalked⟩
  · exact .inl hnone
  · exact .inr (.inl hfail)
  · refine .inr (.inr ⟨clone_env, tmpdir, children, hwalked, ?_⟩)
    intro c hc
    refine argv_guarded c ?_
    rintro repo_path since rfl
    rcases log_of_plan (hwalked.planned.subset hc) with rfl | rfl
    · exact undashed_of_stored hprepare hextract
    · intro a ha
      cases ha

end Extraction

/-! ## A clone that fails -/

def ascii_lower : CodePoint → CodePoint
  | .scalar c => .scalar c.toLower
  | .surrogate n => .surrogate n

theorem no_offset : (0 : ℤ).natAbs < Calendar.DAY := by decide

/-- A platform with a token and a secret of the server. -/
def platform : Platform where
  environ name := if name = "OC_GIT_TOKEN" then some (Text.ofString "ghp_1") else
    if name = "OC_API_KEY" then some (Text.ofString "k") else none
  decimals := ascii_table
  lower := List.map ascii_lower
  lower_ascii s _ := by
    rw [chars, chars, List.map_map, List.map_map]
    rfl
  repr _ := ""
  redact_url_userinfo := id
  utc_now := new_year 2026 year_2026 0 no_offset

def request : Request where
  repo_url := Text.ofString "https://github.com/a/b"
  max_commits := 500
  since_commit := some "abc1234"
  branch := none

def watermark_row : MemoryItem where
  id := "w"
  content := "abc1234"
  created_at := 0
  source := WATERMARK_SOURCE

def prepared_events : List OnboardEvent :=
  [⟨.list_memory_by_source "git-onboard" "p", .ok []⟩, ⟨.list_memory_by_source WATERMARK_SOURCE "p", .ok [watermark_row]⟩,
   ⟨.extract (some "abc1234"), .error .Other⟩]

/-- The environment of the clone. -/
def request_env : ChildEnv :=
  match build_clone_env platform.environ request.repo_url with
  | .ok env => env
  | .error _ => []

/-- What git says here holds the token, as some versions of it do. -/
def refused : CompletedProcess := ⟨128, [], "fatal: ghp_1".toList⟩

def failed_events : List HostEvent :=
  [⟨.mkdtemp, .ok (Text.ofString "/t")⟩,
   ⟨GitCall.start platform request request_env (.clone (Text.ofString "/t")), .ok refused⟩,
   ⟨.cleanup (Text.ofString "/t"), .ok ()⟩]

theorem gates_pass : clone_gates request.repo_url request.branch = .ok () := by
  decide +kernel

theorem env_built : build_clone_env platform.environ request.repo_url = .ok request_env := by
  decide +kernel

theorem prepared : (onboard_git_prepare ⟨fun _ => false, fun _ => false, fun _ => false⟩ "p" 15 false).Trace
    prepared_events (.error .Other) :=
  ⟨_, _, rfl, _, _, rfl, _, _, rfl, rfl, rfl⟩

theorem failed_run : (request.extraction platform).Trace failed_events
    (.error (.RuntimeError (clone_failed platform request.repo_url refused request_env))) := by
  unfold Request.extraction extract_commits_from_url
  rw [gates_pass, env_built]
  exact ⟨_, _, rfl, _, _, rfl, _, _, rfl, rfl, rfl⟩

theorem onboarding_starts_only_what_it_means_sample :
    failed_events = [] ∨ (∃ e, failed_events = [⟨.mkdtemp, .error e⟩])
      ∨ ∃ clone_env tmpdir children, Walked platform request clone_env tmpdir children failed_events
        ∧ ∀ c ∈ children, c.Guarded request :=
  onboarding_starts_only_what_it_means prepared (List.mem_of_getElem? (i := 2) rfl) failed_run

end OpenChronicle.GitHost
