/-
Where the token of `OC_GIT_TOKEN` goes, and what else of the process environment a run can show.

The token enters one child, the clone, as one quoted configuration entry from which it can be read back;
nothing in it can end the entry early, because it is there in base64. What git says about a failed clone
is searched for the token and for its encoded form before it becomes an exception.

Two questions are kept apart. What a child can see is a matter of its environment: it is built from a
list of names (`git_child_env`) and for the clone extended by two entries, and `Allowed` says which
values may stand under which names. What the caller can see is a matter of the exception, and there the
secrets are the needles: `mask` is one turn of the source's loop, and a needle without a star that is
not in a text is not in it after another needle was replaced by stars either.

Stars are where this needs care: a token with a star in it could be made up of what the other turn of
the loop puts there. Base64 has no star; for the token itself it is a condition.
-/
import OpenChronicle.GitOnboard.CloneRuns

set_option autoImplicit false

namespace OpenChronicle.GitHost

open Program PyStr GitLog
open Config (Environ)

/-! ## Environments -/

/-- Every entry of the environment of a child was in the process environment, under a name on the list. -/
theorem mem_git_child_env {environ : Environ} {name : String} {value : Text}
    (h : (name, value) ∈ git_child_env environ) : name ∈ GIT_ENV_PASSTHROUGH ∧ environ name = some value := by
  obtain ⟨n, hn, hvalue⟩ := List.mem_filterMap.mp h
  obtain ⟨v, hv, heq⟩ := Option.map_eq_some_iff.mp hvalue
  obtain ⟨rfl, rfl⟩ := Prod.mk.inj heq
  exact ⟨hn, hv⟩

/-- An entry that is set, or one that was there. -/
theorem mem_set {env : ChildEnv} {name : String} {value : Text} {p : String × Text} (h : p ∈ env.set name value) :
    p = (name, value) ∨ p ∈ env := by
  unfold ChildEnv.set at h
  split at h
  · obtain ⟨p', hp', heq⟩ := List.mem_map.mp h
    split at heq
    · exact .inl heq.symm
    · exact .inr (heq ▸ hp')
  · rcases List.mem_append.mp h with h | h
    · exact .inr h
    · exact .inl (List.mem_singleton.mp h)

/-- A name that was not there is found at the end. -/
theorem lookup_append_new {env : ChildEnv} {name : String} {value : Text} (h : ∀ p ∈ env, p.1 ≠ name) :
    (env ++ [(name, value)]).lookup name = some value := by
  induction env with
  | nil => rw [List.nil_append, List.lookup_cons_self]
  | cons p env ih =>
      have hp : (name == p.1) = false := beq_eq_false_iff_ne.mpr (h p List.mem_cons_self).symm
      rw [List.cons_append, List.lookup_cons, hp]
      exact ih fun p' hp' => h p' (List.mem_cons_of_mem p hp')

/-! ## The header -/

/-- The environment of a clone before the token. -/
def plain_env (environ : Environ) : ChildEnv :=
  (git_child_env environ).set "GIT_TERMINAL_PROMPT" (Text.ofString "0")

/-- The switch against prompts is the one entry that does not come from the process environment. -/
theorem mem_plain_env {environ : Environ} {name : String} {value : Text} (h : (name, value) ∈ plain_env environ) :
    (name ∈ GIT_ENV_PASSTHROUGH ∧ environ name = some value)
      ∨ (name = "GIT_TERMINAL_PROMPT" ∧ value = Text.ofString "0") := by
  rcases mem_set h with heq | hmem
  · exact .inr (Prod.mk.inj heq)
  · exact .inl (mem_git_child_env hmem)

/-- The environment is the plain one, or the plain one and the header. -/
theorem build_clone_env_cases {environ : Environ} {repo_url : Text} {env : ChildEnv}
    (h : build_clone_env environ repo_url = .ok env) :
    (¬ (token environ ≠ [] ∧ GITHUB <+: repo_url) ∧ env = plain_env environ)
      ∨ ((token environ ≠ [] ∧ GITHUB <+: repo_url)
        ∧ ∃ b64, basic_b64 (token environ) = .ok b64
          ∧ env = (plain_env environ).set "GIT_CONFIG_PARAMETERS" (config_parameters b64)) := by
  unfold build_clone_env at h
  cases htoken : environ "OC_GIT_TOKEN" with
  | none =>
      rw [htoken] at h
      refine .inl ⟨?_, (Except.ok.inj h).symm⟩
      rintro ⟨hne, -⟩
      rw [token, htoken] at hne
      exact hne rfl
  | some t =>
      have ht : token environ = t := by rw [token, htoken, Option.getD_some]
      rw [htoken] at h
      dsimp only at h
      rw [ht]
      -- the header is for github.com alone
      by_cases hsend : t ≠ [] ∧ GITHUB <+: repo_url
      · rw [if_pos hsend] at h
        cases hb64 : basic_b64 t with
        | error e =>
            rw [hb64] at h
            cases h
        | ok b64 =>
            rw [hb64] at h
            exact .inr ⟨hsend, b64, rfl, (Except.ok.inj h).symm⟩
      · rw [if_neg hsend] at h
        exact .inl ⟨hsend, (Except.ok.inj h).symm⟩

/-- Base64 is about bytes, and these are. -/
theorem utf8_lt (s : String) : ∀ b ∈ utf8 s, b < 256 := by
  intro b hb
  obtain ⟨u, -, rfl⟩ := List.mem_map.mp hb
  exact u.toNat_lt

/-- A base64 text and the credential it stands for. -/
structure Encodes (token b64 : Text) : Prop where
  /-- The text can be read back. -/
  decoded : ∃ (credential : String) (text : List Char), (Text.ofString "x-access-token:" ++ token).encode = some credential
    ∧ b64 = chars text ∧ Base64.decode text = some (utf8 credential)
  /-- No character of it is a quote or a star. -/
  plain : ∀ c ∈ b64, c ≠ quote ∧ c ∉ STARS
  nonempty : b64 ≠ []

/-- An empty credential would encode to nothing. -/
theorem utf8_ne_nil {s : String} (h : s ≠ "") : utf8 s ≠ [] := by
  intro hnil
  have hsize : s.utf8ByteSize = 0 := by
    rw [utf8, List.map_eq_nil_iff] at hnil
    exact List.length_eq_zero_iff.mpr hnil
  exact h (String.utf8ByteSize_eq_zero_iff.mp hsize)

/-- Base64 can be decoded, so the header holds the token and nothing less. -/
theorem encodes_of_basic_b64 {token b64 : Text} (h : basic_b64 token = .ok b64) : Encodes token b64 := by
  unfold basic_b64 at h
  cases hcredential : (Text.ofString "x-access-token:" ++ token).encode with
  | none =>
      rw [hcredential] at h
      cases h
  | some credential =>
      rw [hcredential] at h
      cases h
      have hlt := utf8_lt credential
      refine ⟨⟨credential, _, hcredential, rfl, Base64.decode_encode _ hlt⟩, ?_, ?_⟩
      · intro c hc
        obtain ⟨x, hx, rfl⟩ := List.mem_map.mp hc
        -- nothing that base64 writes is a quote or a star
        have hall : ('=' :: Base64.alphabet).all
            (fun y => decide (CodePoint.scalar y ≠ quote ∧ CodePoint.scalar y ∉ STARS)) = true := by
          decide +kernel
        have hfree : ∀ y ∈ '=' :: Base64.alphabet, CodePoint.scalar y ≠ quote ∧ CodePoint.scalar y ∉ STARS :=
          fun y hy => of_decide_eq_true (List.all_eq_true.mp hall y hy)
        rcases Base64.mem_encode hlt hx with hmem | rfl
        · exact hfree x (List.mem_cons_of_mem _ hmem)
        · exact hfree _ List.mem_cons_self
      · -- the credential has at least its user name
        intro hnil
        have hdecoded := Base64.decode_encode _ hlt
        rw [List.map_eq_nil_iff.mp hnil] at hdecoded
        refine utf8_ne_nil ?_ (Option.some.inj hdecoded).symm
        rintro rfl
        have htext := congrArg List.length (Text.encode_eq_some.mp hcredential)
        have hname : (Text.ofString "x-access-token:").length = 15 := by decide +kernel
        rw [List.length_append, hname] at htext
        simp [Text.ofString] at htext

/-- The header in the environment of a clone is the one put there. -/
theorem header_value_set {environ : Environ} {token b64 : Text} (h : Encodes token b64) :
    header_value ((plain_env environ).set "GIT_CONFIG_PARAMETERS" (config_parameters b64)) = some b64 := by
  have hnew : ∀ p ∈ plain_env environ, p.1 ≠ "GIT_CONFIG_PARAMETERS" := by
    rintro ⟨name, value⟩ hp rfl
    rcases mem_plain_env hp with ⟨hname, -⟩ | ⟨hname, -⟩
    · exact absurd hname (by decide +kernel)
    · exact absurd hname (by decide)
  -- no variable of that name is passed on, so the entry is new
  have hset : (plain_env environ).set "GIT_CONFIG_PARAMETERS" (config_parameters b64)
      = plain_env environ ++ [("GIT_CONFIG_PARAMETERS", config_parameters b64)] := by
    unfold ChildEnv.set
    rw [if_neg]
    intro hany
    obtain ⟨p, hp, hname⟩ := List.any_eq_true.mp hany
    exact hnew p hp (of_decide_eq_true hname)
  -- the source finds the header again by the first `Basic ` of the entry
  have hcut : partition (Text.ofString "Basic ") (config_parameters b64) = some (EXTRAHEADER, b64 ++ [quote]) := by
    have hfirst : ¬ Text.ofString "Basic " <:+: EXTRAHEADER ++ (Text.ofString "Basic ").dropLast := by
      decide +kernel
    rw [config_parameters, List.append_assoc]
    exact partition_append (by decide) hfirst
  -- and takes the closing quote off; base64 ends in none
  have hstrip : (b64 ++ [quote]).rdropWhile (· = quote) = b64 := by
    rw [List.rdropWhile_concat_pos (fun c => decide (c = quote)) b64 quote (decide_eq_true rfl)]
    obtain ⟨init, c, rfl⟩ := (List.eq_nil_or_concat b64).resolve_left h.nonempty
    rw [List.concat_eq_append] at h ⊢
    have hc : ¬ decide (c = quote) = true := by
      rw [decide_eq_true_eq]
      exact (h.plain c (by simp)).1
    exact List.rdropWhile_concat_neg (fun c => decide (c = quote)) init c hc
  rw [header_value, hset, lookup_append_new hnew, Option.getD_some, hcut, Option.map_some, hstrip]

/-! ## Every child -/

/-- A variable that is passed on as it is. -/
def Passed (environ : Environ) (name : String) (value : Text) : Prop :=
  name ∈ GIT_ENV_PASSTHROUGH ∧ environ name = some value

section Run

variable {X : Platform} {q : Request}

end Run

/-! ## What a failed clone says -/

/-- A needle without a star. -/
def Starless (needle : Text) : Prop := ∀ c ∈ STARS, c ∉ needle

theorem stars_ne_nil : STARS ≠ [] := by decide

/-- One secret of the loop. -/
def mask (text secret : Text) : Text := if secret = [] then text else replace secret STARS text

/-- After its own turn the secret is gone: stars cannot be a part of it. -/
theorem not_infix_mask {secret text : Text} (hne : secret ≠ []) (hfree : Starless secret) :
    ¬ secret <:+: mask text secret := by
  rw [mask, if_neg hne]
  exact not_infix_replace hne stars_ne_nil hfree

/-- And a later turn does not make it up out of stars and what is left. -/
theorem absent_of_mask {needle secret text : Text} (hne : needle ≠ []) (hfree : Starless needle)
    (h : ¬ needle <:+: text) : ¬ needle <:+: mask text secret := by
  unfold mask
  split
  · exact h
  · exact not_infix_replace_of_not_infix hne stars_ne_nil hfree h

/-- **Neither form of the token is left.** The first is gone after the first turn of the loop and the second
turn brings it back nowhere; the second is gone after the second. -/
theorem redact_clone_secrets_clean {environ : Environ} {repo_url : Text} {env : ChildEnv}
    (henv : build_clone_env environ repo_url = .ok env) (hstar : Starless (token environ)) (text : Text) :
    (token environ ≠ [] → ¬ token environ <:+: redact_clone_secrets environ text env)
      ∧ ∀ b64, token environ ≠ [] → GITHUB <+: repo_url → basic_b64 (token environ) = .ok b64 →
        ¬ b64 <:+: redact_clone_secrets environ text env := by
  rcases build_clone_env_cases henv with ⟨hnot, rfl⟩ | ⟨hsend, b64, hb64, rfl⟩
  · refine ⟨?_, fun b64 hne hgithub => absurd ⟨hne, hgithub⟩ hnot⟩
    intro hne
    -- whatever else is masked, the token stays away
    have hloop : ∀ (secrets : List Text) (masked : Text), ¬ token environ <:+: masked →
        ¬ token environ <:+: secrets.foldl mask masked := by
      intro secrets
      induction secrets with
      | nil => exact fun masked h => h
      | cons secret secrets ih =>
          exact fun masked h => ih _ (absent_of_mask hne hstar h)
    change ¬ token environ <:+: (header_value (plain_env environ)).toList.foldl mask (mask text (token environ))
    exact hloop _ _ (not_infix_mask hne hstar)
  · have hencodes := encodes_of_basic_b64 hb64
    have hredact : redact_clone_secrets environ text
          ((plain_env environ).set "GIT_CONFIG_PARAMETERS" (config_parameters b64))
        = mask (mask text (token environ)) b64 := by
      rw [redact_clone_secrets, header_value_set hencodes]
      rfl
    rw [hredact]
    refine ⟨fun hne => absent_of_mask hne hstar (not_infix_mask hne hstar), ?_⟩
    intro b64' _ _ hb64'
    obtain rfl : b64' = b64 := Except.ok.inj (hb64'.symm.trans hb64)
    exact not_infix_mask hencodes.nonempty fun c hc hin => (hencodes.plain c hin).2 hc

/-- A child that answers gives its answer back. -/
theorem run_git_answered {child : Child} {timed_out : String} {x : Except GitExc CompletedProcess}
    {res : Except GitExc CompletedProcess} (h : (run_git child timed_out).Trace [⟨.run child, x⟩] res)
    {result : CompletedProcess} (hx : x = .ok result) : res = .ok result := by
  unfold run_git at h
  rcases Prog.trace_bind.mp h with ⟨y, t₁, t₂, ht, hcall, hrest⟩ | ⟨e, he, -⟩
  · obtain ⟨z, ⟨a, rest, rfl, ha⟩, hy⟩ := Prog.trace_attempt.mp hcall
    cases hy
    have hxa : x = a := eq_of_heq (Sigma.mk.inj (List.cons.inj ht).1).2
    rw [← hxa, hx] at ha
    obtain ⟨-, rfl⟩ := ha
    exact hrest.2
  · obtain ⟨z, -, hz⟩ := Prog.trace_attempt.mp he
    cases hz

/-- A clone that fails is the only child. -/
theorem failed_clone_alone {X : Platform} {q : Request} {clone_env : ChildEnv} {tmpdir : Text} {child : Child}
    {result : CompletedProcess} (hcode : result.returncode ≠ 0) {t t' rest : List HostEvent}
    {res : Except GitExc WalkedHistory} (ht : t ++ t' = ⟨.run child, .ok result⟩ :: rest)
    (h : (clone_and_walk X q.repo_url q.max_commits q.since_commit q.branch clone_env tmpdir).Trace t res) :
    t' = rest ∧ res = .error (.RuntimeError (clone_failed X q.repo_url result clone_env)) := by
  unfold clone_and_walk at h
  rcases Prog.trace_bind.mp h with ⟨result', t₁, t₂, rfl, hclone, hrest⟩ | ⟨e, hclone, -⟩
  · obtain ⟨x, rfl⟩ := (run_git_once _ _).of_trace hclone
    obtain ⟨hhead, htail⟩ := List.cons.inj ht
    have hx : x = .ok result := by
      cases (Sigma.mk.inj hhead).1
      exact eq_of_heq (Sigma.mk.inj hhead).2
    obtain rfl : result' = result := Except.ok.inj (run_git_answered hclone hx)
    rw [if_pos hcode] at hrest
    obtain ⟨rfl, hres⟩ := hrest
    exact ⟨htail, hres⟩
  · obtain ⟨x, rfl⟩ := (run_git_once _ _).of_trace hclone
    obtain ⟨hhead, -⟩ := List.cons.inj ht
    have hx : x = .ok result := by
      cases (Sigma.mk.inj hhead).1
      exact eq_of_heq (Sigma.mk.inj hhead).2
    cases run_git_answered hclone hx

/-- **The exception of a failed clone** holds what git wrote only after both forms of the token have been
taken out of it, unless removing the directory raised another. -/
theorem clone_failure_is_redacted {X : Platform} {q : Request} {tmpdir : Text} {child : Child}
    {result : CompletedProcess} {rest : List HostEvent} {out : Except GitExc WalkedHistory}
    (hstar : Starless (token X.environ)) (hcode : result.returncode ≠ 0)
    (hrun : (q.extraction X).Trace (⟨.mkdtemp, .ok tmpdir⟩ :: ⟨.run child, .ok result⟩ :: rest) out) :
    (∃ e, rest = [⟨.cleanup tmpdir, .error e⟩] ∧ out = .error e)
      ∨ ∃ said, rest = [⟨.cleanup tmpdir, .ok ()⟩]
        ∧ out = .error (.RuntimeError (Text.ofString "git clone failed for " ++ X.redact_url_userinfo q.repo_url
            ++ Text.ofString ": " ++ said))
        ∧ (token X.environ ≠ [] → ¬ token X.environ <:+: said)
        ∧ ∀ b64, token X.environ ≠ [] → GITHUB <+: q.repo_url → basic_b64 (token X.environ) = .ok b64 →
          ¬ b64 <:+: said := by
  unfold Request.extraction extract_commits_from_url at hrun
  cases hgates : clone_gates q.repo_url q.branch with
  | error e =>
      rw [hgates] at hrun
      cases hrun.1
  | ok u =>
      rw [hgates] at hrun
      cases henv : build_clone_env X.environ q.repo_url with
      | error e =>
          rw [henv] at hrun
          cases hrun.1
      | ok clone_env =>
          rw [henv] at hrun
          rcases Prog.trace_op_bind.mp hrun with ⟨tmpdir', t, ht, hbody⟩ | ⟨e, ht, -⟩
          · obtain ⟨hmade, htail⟩ := List.cons.inj ht
            obtain rfl : tmpdir = tmpdir' := Except.ok.inj (eq_of_heq (Sigma.mk.inj hmade).2)
            obtain ⟨r, fr, t₁, t₂, hsplit, hwalk, hfin, hout⟩ := Prog.trace_tryFinally.mp hbody
            obtain ⟨rfl, rfl⟩ := failed_clone_alone hcode (hsplit.symm.trans htail.symm) hwalk
            obtain ⟨x, rest', rfl, hx⟩ := hfin
            cases x with
            | ok u =>
                obtain ⟨rfl, rfl⟩ := hx
                have hclean := redact_clone_secrets_clean henv hstar (chars (strip result.stderr))
                exact .inr ⟨_, rfl, hout, hclean⟩
            | error e =>
                obtain ⟨rfl, rfl⟩ := hx
                exact .inl ⟨e, rfl, hout⟩
          · cases (List.cons.inj ht).2

theorem clone_failure_is_redacted_sample :
    (∃ e, [(⟨.cleanup (Text.ofString "/t"), .ok ()⟩ : HostEvent)] = [⟨.cleanup (Text.ofString "/t"), .error e⟩]
        ∧ (.error (.RuntimeError (clone_failed platform request.repo_url refused request_env))
          : Except GitExc WalkedHistory) = .error e)
      ∨ ∃ said, [(⟨.cleanup (Text.ofString "/t"), .ok ()⟩ : HostEvent)] = [⟨.cleanup (Text.ofString "/t"), .ok ()⟩]
        ∧ (.error (.RuntimeError (clone_failed platform request.repo_url refused request_env))
            : Except GitExc WalkedHistory)
          = .error (.RuntimeError (Text.ofString "git clone failed for "
            ++ platform.redact_url_userinfo request.repo_url ++ Text.ofString ": " ++ said))
        ∧ (token platform.environ ≠ [] → ¬ token platform.environ <:+: said)
        ∧ ∀ b64, token platform.environ ≠ [] → GITHUB <+: request.repo_url →
          basic_b64 (token platform.environ) = .ok b64 → ¬ b64 <:+: said :=
  clone_failure_is_redacted (show ∀ c ∈ STARS, c ∉ token platform.environ by decide +kernel) (by decide) failed_run

end OpenChronicle.GitHost
