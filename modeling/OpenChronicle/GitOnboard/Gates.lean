/-
What may reach a `git` command line: the destination policy, the branch name and the watermark.

Each gate is a regular expression between `^` and `$`, tested with `re.match`. That accepts a string of
the grammar, and also such a string with a newline at its end, which `$` allows. The newline is the only
difference: `Exactly` fails on these strings and on no others.

The grammars are written down without regular expressions (`GithubUrl`, `BranchName`, `HashText`), as
what the gates are there for, and the expressions of the source are shown to have them as their
languages. A string is a list of code points, since a Python string may hold a surrogate: the classes
with a `^` in them accept those, the classes with letters do not.

For the watermark the gate is not at the command line but where the row is read, so the statement is
about a whole run: which hashes it hands to the extractor, whatever rows the store answers with. A
forced run reads the rows only to delete them.
-/
import OpenChronicle.GitOnboard.Model
import OpenChronicle.Lib.Delimited
import OpenChronicle.Lib.Regex

set_option autoImplicit false

namespace OpenChronicle

open Program PyStr

/-! ## Character classes -/

/-- `[A-Za-z0-9]`. -/
def ascii_alnum : CodePoint → Bool
  | .scalar c => c.isAlphanum
  | .surrogate _ => false

/-- `[A-Za-z0-9…]` with the punctuation given. -/
def alnum_or (extra : List Char) : CodePoint → Bool
  | .scalar c => c.isAlphanum || c ∈ extra
  | .surrogate _ => false

/-- `[^\s]`. -/
def not_space : CodePoint → Bool
  | .scalar c => !isspace c
  | .surrogate _ => true

/-- The characters a lower-case letter of `https` or `ssh` stands for under `re.IGNORECASE`. -/
def ignore_case (c : Char) : CodePoint → Bool
  | .scalar d => d = c || d = c.toUpper || (c = 's' && d = 'ſ')
  | .surrogate _ => false

/-- A literal under `re.IGNORECASE`. -/
def lit_ignore_case : List Char → Regex CodePoint
  | [] => .epsilon
  | c :: rest => .seq (.char (ignore_case c)) (lit_ignore_case rest)

/-- A literal of the pattern. -/
def lit (s : String) : Regex CodePoint := Regex.lit (Text.ofString s)

/-- `re.match` of a pattern between `^` and `$`. -/
def re_match (r : Regex CodePoint) (s : Text) : Bool := Regex.match_dollar (.scalar '\n') r s

/-! ## Patterns -/

/-- `_HTTPS_URL`. -/
def HTTPS_URL : Regex CodePoint := .seq (lit_ignore_case "https://".toList) (.plus not_space)

/-- `_SSH_URL`. -/
def SSH_URL : Regex CodePoint := .seq (lit_ignore_case "ssh://".toList) (.plus not_space)

/-- `_SCP_URL`. -/
def SCP_URL : Regex CodePoint :=
  .seq (.plus (alnum_or ['.', '_', '-'])) (.seq (lit "@") (.seq (.plus (alnum_or ['.', '_', '-']))
    (.seq (lit ":") (.plus not_space))))

/-- The characters of an owner or a repository. -/
def segment_char : CodePoint → Bool := alnum_or ['_', '.', '-']

/-- `_GITHUB_HTTPS_RE`; the lazy `+?` changes which match is found, not whether there is one. -/
def GITHUB_HTTPS_RE : Regex CodePoint :=
  .seq (lit "https://github.com/") (.seq (.plus segment_char) (.seq (lit "/") (.seq (.plus segment_char)
    (.seq (.opt (lit ".git")) (.opt (lit "/"))))))

/-- The characters of a branch behind the first. -/
def branch_char : CodePoint → Bool := alnum_or ['.', '_', '/', '-']

/-- `_BRANCH_RE`. -/
def BRANCH_RE : Regex CodePoint := .seq (.char ascii_alnum) (.star (.char branch_char))

/-! ## Gates -/

/-- What the gates raise; in the source all are `ValueError`, but for the one that is an accident. -/
inductive GateError where
  | unsupported_url
  | embedded_credentials
  | query_or_fragment
  | not_github
  | invalid_branch (branch : Text)
  | IndexError
  deriving DecidableEq, Repr

/-- The text of the error; `repr` writes a string as Python does. -/
def GateError.message (repr : Text → String) : GateError → String
  | unsupported_url => "Unsupported repo URL. Use an https:// or ssh:// URL, or scp-style user@host:path "
      ++ "(ext::/fd::/file:// transports and local paths are not allowed)."
  | embedded_credentials => "Credentials embedded in the URL are not supported. "
      ++ "For private github.com repos set OC_GIT_TOKEN on the server instead."
  | query_or_fragment => "Unsupported repo URL: query strings and fragments are not allowed in a clone URL."
  | not_github => "This server only onboards https://github.com/<owner>/<repo> URLs. "
      ++ "For repos hosted elsewhere (or unpushed local history), run `oc onboard git` on the machine that has them."
  | invalid_branch branch => "Invalid branch name: " ++ repr branch
      ++ ". Use a plain ref name (letters, digits, ., _, /, -; not starting with -)."
  | IndexError => "list index out of range"

/-- `repo_url.split("://", 1)[1].split("/", 1)[0]`. -/
def authority (repo_url : Text) : Except GateError Text :=
  match partition (Text.ofString "://") repo_url with
  | none => .error .IndexError
  | some (_, rest) =>
      match partition (Text.ofString "/") rest with
      | none => .ok rest
      | some (host, _) => .ok host

/-- `_validate_repo_url`. -/
def validate_repo_url (repo_url : Text) : Except GateError Unit := do
  if repo_url = [] || !(re_match HTTPS_URL repo_url || re_match SSH_URL repo_url || re_match SCP_URL repo_url) then
    .error .unsupported_url
  if re_match HTTPS_URL repo_url then
    let host ← authority repo_url
    if .scalar '@' ∈ host then .error .embedded_credentials
  if .scalar '?' ∈ repo_url || .scalar '#' ∈ repo_url then .error .query_or_fragment

/-- `validate_server_repo_url`. -/
def validate_server_repo_url (repo_url : Text) : Except GateError Unit := do
  validate_repo_url repo_url
  if !re_match GITHUB_HTTPS_RE repo_url then .error .not_github

/-- `_validate_branch`. -/
def validate_branch (branch : Text) : Except GateError Unit :=
  if !re_match BRANCH_RE branch then .error (.invalid_branch branch) else .ok ()

/-! ## Grammars -/

/-- What `$` lets pass. -/
def newline : CodePoint := .scalar '\n'

/-- `https://github.com/<owner>/<repo>`, an optional `.git` and an optional trailing slash. -/
def GithubUrl (s : Text) : Prop :=
  ∃ owner repo git slash : Text, (owner ≠ [] ∧ ∀ c ∈ owner, segment_char c = true)
    ∧ (repo ≠ [] ∧ ∀ c ∈ repo, segment_char c = true)
    ∧ (git = Text.ofString ".git" ∨ git = []) ∧ (slash = Text.ofString "/" ∨ slash = [])
    ∧ s = Text.ofString "https://github.com/" ++ (owner ++ (Text.ofString "/" ++ (repo ++ (git ++ slash))))

/-- A letter or digit, then characters of a ref name. -/
def BranchName (s : Text) : Prop :=
  ∃ c rest, ascii_alnum c = true ∧ (∀ d ∈ rest, branch_char d = true) ∧ s = c :: rest

/-- 7 to 64 hexadecimal digits. -/
def HashText (s : String) : Prop :=
  7 ≤ s.toList.length ∧ s.toList.length ≤ 64 ∧ ∀ c ∈ s.toList, is_hex c = true

/-- No whitespace, no newline, no leading dash. -/
def Harmless (s : Text) : Prop := (∀ c ∈ s, not_space c = true) ∧ s.head? ≠ some (.scalar '-')

/-- On this string the gate accepts exactly its grammar, and nothing that could harm. -/
def Exactly (accepts grammar : Text → Prop) (s : Text) : Prop :=
  (accepts s ↔ grammar s) ∧ (accepts s → Harmless s)

section Exact

variable {accepts grammar : Text → Prop}

/-- A gate that also accepts its grammar with a newline is exact everywhere else. -/
theorem exactly_iff (haccepts : ∀ s, accepts s ↔ grammar s ∨ ∃ t, grammar t ∧ s = t ++ [newline])
    (hharmless : ∀ s, grammar s → Harmless s) (s : Text) :
    Exactly accepts grammar s ↔ ¬ ∃ t, grammar t ∧ s = t ++ [newline] := by
  have hnewline : ∀ t, ¬ Harmless (t ++ [newline]) := by
    intro t h
    exact absurd (h.1 newline (by simp)) (by decide)
  constructor
  · rintro ⟨-, hsafe⟩ ⟨t, ht, rfl⟩
    exact hnewline t (hsafe ((haccepts _).mpr (.inr ⟨t, ht, rfl⟩)))
  · intro hno
    have hsame : accepts s ↔ grammar s := (haccepts s).trans (or_iff_left hno)
    exact ⟨hsame, fun h => hharmless s (hsame.mp h)⟩

end Exact

/-! ## What the characters are -/

/-- The classes of the source, as ranges of code points. -/
theorem isAlphanum_eq (c : Char) : c.isAlphanum
    = (decide (c.val ≥ 'A'.val ∧ c.val ≤ 'Z'.val) || (c.val ≥ 'a'.val && c.val ≤ 'z'.val) || c.isDigit) := rfl

/-- A class of letters, digits and marks has no whitespace. -/
theorem not_space_of_alnum_or {extra : List Char} (hextra : ∀ c ∈ extra, isspace c = false) {c : CodePoint}
    (h : alnum_or extra c = true) : not_space c = true := by
  cases c with
  | surrogate n => rfl
  | scalar c =>
      rw [alnum_or, Bool.or_eq_true, decide_eq_true_eq] at h
      rcases h with halnum | hin
      · -- letters and digits lie between `0` and `z`, clear of every space
        have hrange : 48 ≤ c.toNat ∧ c.toNat ≤ 122 := by
          simp only [isAlphanum_eq, Char.isDigit, Bool.or_eq_true, Bool.and_eq_true, decide_eq_true_eq, ge_iff_le,
            UInt32.le_iff_toNat_le] at halnum
          have hval : c.toNat = c.val.toNat := rfl
          rcases halnum with (⟨hlow, hhigh⟩ | ⟨hlow, hhigh⟩) | ⟨hlow, hhigh⟩
          all_goals
            simp at hlow hhigh
            omega
        simp only [not_space, isspace, Bool.not_eq_true', Bool.or_eq_false_iff, Bool.and_eq_false_iff,
          decide_eq_false_iff_not, beq_eq_false_iff_ne, ne_eq]
        omega
      · rw [not_space, hextra c hin]
        rfl

/-- In particular that of owners and repositories. -/
theorem not_space_segment {c : CodePoint} (h : segment_char c = true) : not_space c = true :=
  not_space_of_alnum_or (by simp [isspace]) h

/-- None of these is in an owner or a repository. -/
theorem segment_ne {c d : CodePoint} (hc : segment_char c = true) (hd : segment_char d = false) : c ≠ d := by
  rintro rfl
  rw [hc] at hd
  cases hd

/-! ## The URL gate -/

/-- The language of the pattern is the grammar. -/
theorem mem_github (s : Text) : s ∈ GITHUB_HTTPS_RE.lang ↔ GithubUrl s := by
  rw [GITHUB_HTTPS_RE, Regex.mem_seq]
  constructor
  · rintro ⟨scheme, hscheme, path, hpath, rfl⟩
    obtain ⟨owner, howner, tail, htail, rfl⟩ := Regex.mem_seq.mp hpath
    obtain ⟨slash, hslash, name, hname, rfl⟩ := Regex.mem_seq.mp htail
    obtain ⟨repo, hrepo, ending, hending, rfl⟩ := Regex.mem_seq.mp hname
    obtain ⟨git, hgit, last, hlast, rfl⟩ := Regex.mem_seq.mp hending
    rw [lit, Regex.mem_lit] at hscheme hslash
    rw [hscheme, hslash]
    rw [Regex.mem_opt, lit, Regex.mem_lit] at hgit hlast
    exact ⟨owner, repo, git, last, Regex.mem_plus.mp howner, Regex.mem_plus.mp hrepo, hgit, hlast, rfl⟩
  · rintro ⟨owner, repo, git, slash, howner, hrepo, hgit, hslash, rfl⟩
    refine ⟨_, Regex.mem_lit.mpr rfl, _, ?_, rfl⟩
    refine Regex.mem_seq.mpr ⟨owner, Regex.mem_plus.mpr howner, _, ?_, rfl⟩
    refine Regex.mem_seq.mpr ⟨_, Regex.mem_lit.mpr rfl, _, ?_, rfl⟩
    refine Regex.mem_seq.mpr ⟨repo, Regex.mem_plus.mpr hrepo, _, ?_, rfl⟩
    refine Regex.mem_seq.mpr ⟨git, ?_, slash, ?_, rfl⟩
    · rw [Regex.mem_opt, lit, Regex.mem_lit]
      exact hgit
    · rw [Regex.mem_opt, lit, Regex.mem_lit]
      exact hslash

/-- A GitHub URL, as far as the other checks look at it. -/
theorem GithubUrl.parts {s : Text} (h : GithubUrl s) :
    ∃ path : Text, s = Text.ofString "https://github.com/" ++ path
      ∧ ∀ c ∈ path, segment_char c = true ∨ c = .scalar '/' := by
  obtain ⟨owner, repo, git, slash, ⟨-, howner⟩, ⟨-, hrepo⟩, hgit, hslash, rfl⟩ := h
  refine ⟨_, rfl, ?_⟩
  have hgit' : ∀ c ∈ git, segment_char c = true := by
    rcases hgit with rfl | rfl
    · decide
    · simp
  have hslash' : ∀ c ∈ slash, c = .scalar '/' := by
    rcases hslash with rfl | rfl
    · decide
    · simp
  intro c hc
  rcases List.mem_append.mp hc with hc | hc
  · exact .inl (howner c hc)
  rcases List.mem_append.mp hc with hc | hc
  · exact .inr (by simpa [Text.ofString] using hc)
  rcases List.mem_append.mp hc with hc | hc
  · exact .inl (hrepo c hc)
  rcases List.mem_append.mp hc with hc | hc
  · exact .inl (hgit' c hc)
  · exact .inr (hslash' c hc)

/-- It begins with a letter, and each of its parts is free of whitespace. -/
theorem GithubUrl.harmless {s : Text} (h : GithubUrl s) : Harmless s := by
  obtain ⟨path, rfl, hpath⟩ := h.parts
  constructor
  · intro c hc
    have hscheme : ∀ d ∈ Text.ofString "https://github.com/", not_space d = true := by decide
    rcases List.mem_append.mp hc with hc | hc
    · exact hscheme c hc
    · rcases hpath c hc with hseg | rfl
      · exact not_space_segment hseg
      · decide
  · simp [Text.ofString]

/-- The general check has nothing against it, with or without a newline. -/
theorem validate_repo_url_github {t : Text} (h : GithubUrl t) {s : Text} (hs : s = t ∨ s = t ++ [newline]) :
    validate_repo_url s = .ok () := by
  obtain ⟨path, hpath, hchars⟩ := h.parts
  obtain ⟨path', hs', hchars'⟩ : ∃ path' : Text, s = Text.ofString "https://github.com/" ++ path'
      ∧ ∀ c ∈ path', segment_char c = true ∨ c = .scalar '/' ∨ c = newline := by
    rcases hs with rfl | rfl
    · exact ⟨path, hpath, fun c hc => (hchars c hc).imp_right .inl⟩
    · refine ⟨path ++ [newline], by rw [hpath, List.append_assoc], ?_⟩
      intro c hc
      rcases List.mem_append.mp hc with hc | hc
      · exact (hchars c hc).imp_right .inl
      · exact .inr (.inr (List.mem_singleton.mp hc))
  -- the scheme is followed by a character at least, and `$` allows the newline
  have hhttps : re_match HTTPS_URL s = true := by
    have hmem : t ∈ HTTPS_URL.lang := by
      have hsplit : t = Text.ofString "https://" ++ (Text.ofString "github.com/" ++ path) := by
        rw [hpath, ← List.append_assoc]
        rfl
      rw [hsplit]
      refine Regex.mem_seq.mpr ⟨_, (Regex.fullmatch_iff _ _).mp (by decide), _, Regex.mem_plus.mpr ⟨?_, ?_⟩, rfl⟩
      · simp [Text.ofString]
      · intro c hc
        exact h.harmless.1 c (by rw [hsplit]; exact List.mem_append_right _ hc)
    refine Regex.match_dollar_iff.mpr ?_
    rcases hs with rfl | rfl
    · exact .inl hmem
    · exact .inr ⟨t, hmem, rfl⟩
  -- the host ends at the first slash
  have hhost : authority s = .ok (Text.ofString "github.com") := by
    have hscheme : s = Text.ofString "https" ++ Text.ofString "://" ++ (Text.ofString "github.com/" ++ path') := by
      rw [hs', ← List.append_assoc]
      rfl
    have hrest : Text.ofString "github.com/" ++ path' = Text.ofString "github.com" ++ Text.ofString "/" ++ path' := rfl
    rw [authority, hscheme, partition_append (by decide) (by decide)]
    dsimp only
    rw [hrest, partition_append (by decide) (by decide)]
  -- no character of a query or a fragment stands in it
  have hnone : ∀ c : CodePoint, segment_char c = false → c ≠ .scalar '/' → c ≠ newline →
      c ∉ Text.ofString "https://github.com/" → c ∉ s := by
    intro c hseg hslash hline hlit hc
    rw [hs'] at hc
    rcases List.mem_append.mp hc with hc | hc
    · exact hlit hc
    · rcases hchars' c hc with h | h | h
      · exact segment_ne h hseg rfl
      · exact hslash h
      · exact hline h
  have hempty : s ≠ [] := by
    rw [hs']
    simp [Text.ofString]
  have hquestion := hnone (.scalar '?') (by decide) (by decide) (by decide) (by decide)
  have hhash := hnone (.scalar '#') (by decide) (by decide) (by decide) (by decide)
  rw [validate_repo_url, hhttps, hhost]
  simp only [hempty, hquestion, hhash, Bool.true_or, Bool.not_true, Bool.or_false, decide_false]
  rw [if_neg (by decide), if_pos trivial]
  rfl

/-- What the server's URL gate accepts. -/
theorem validate_server_repo_url_iff (s : Text) :
    validate_server_repo_url s = .ok () ↔ GithubUrl s ∨ ∃ t, GithubUrl t ∧ s = t ++ [newline] := by
  have hre : re_match GITHUB_HTTPS_RE s = true ↔ GithubUrl s ∨ ∃ t, GithubUrl t ∧ s = t ++ [newline] := by
    rw [re_match, Regex.match_dollar_iff, mem_github]
    exact or_congr_right (exists_congr fun t => and_congr_left fun _ => mem_github t)
  rw [← hre, validate_server_repo_url]
  constructor
  · intro h
    by_contra hno
    rw [Bool.not_eq_true] at hno
    rw [hno] at h
    rcases hgeneral : validate_repo_url s with e | _
    · rw [hgeneral] at h
      cases h
    · rw [hgeneral] at h
      cases h
  · intro h
    have hgeneral : validate_repo_url s = .ok () := by
      rcases hre.mp h with hs | ⟨t, ht, hs⟩
      · exact validate_repo_url_github hs (.inl rfl)
      · exact validate_repo_url_github ht (.inr hs)
    rw [hgeneral, h]
    rfl

/-! ## The branch gate -/

/-- The language of the pattern is the grammar. -/
theorem mem_branch (s : Text) : s ∈ BRANCH_RE.lang ↔ BranchName s := by
  rw [BRANCH_RE, Regex.mem_seq_char]
  exact exists_congr fun c => exists_congr fun rest => and_congr_right fun _ => and_congr_left fun _ =>
    Regex.mem_star_char

/-- A branch begins with a letter or a digit. -/
theorem BranchName.harmless {s : Text} (h : BranchName s) : Harmless s := by
  obtain ⟨c, rest, hc, hrest, rfl⟩ := h
  constructor
  · intro d hd
    rcases List.mem_cons.mp hd with rfl | hd
    · refine @not_space_of_alnum_or [] (by simp) d ?_
      cases d with
      | scalar d => simpa [alnum_or, ascii_alnum] using hc
      | surrogate n => cases hc
    · exact not_space_of_alnum_or (by simp [isspace]) (hrest d hd)
  · rw [List.head?_cons, ne_eq, Option.some.injEq]
    rintro rfl
    exact absurd hc (by decide)

/-- What the branch gate accepts. -/
theorem validate_branch_iff (s : Text) :
    validate_branch s = .ok () ↔ BranchName s ∨ ∃ t, BranchName t ∧ s = t ++ [newline] := by
  have hre : re_match BRANCH_RE s = true ↔ BranchName s ∨ ∃ t, BranchName t ∧ s = t ++ [newline] := by
    rw [re_match, Regex.match_dollar_iff, mem_branch]
    exact or_congr_right (exists_congr fun t => and_congr_left fun _ => mem_branch t)
  rw [← hre, validate_branch]
  cases re_match BRANCH_RE s with
  | true => exact iff_of_true rfl rfl
  | false => exact iff_of_false nofun nofun

/-! ## The watermark -/

/-- The events of a run of `onboard_git_prepare`. -/
abbrev OnboardEvent : Type := Prog.Answered onboardSig Exc

/-- The watermarks handed to the extractor, which puts each in front of `..HEAD`. -/
def passed (t : List OnboardEvent) : List String :=
  t.filterMap fun
    | ⟨.extract (some h), _⟩ => some h
    | _ => none

/-- Piece by piece of a run. -/
theorem passed_append (t t' : List OnboardEvent) : passed (t ++ t') = passed t ++ passed t' := List.filterMap_append

/-- Deleting rows hands nothing to the extractor. -/
theorem trace_delete_all {items : List MemoryItem} {t : List OnboardEvent} {res : Except Exc Unit}
    (h : (delete_all items).Trace t res) : passed t = [] := by
  induction items generalizing t with
  | nil =>
      obtain ⟨rfl, -⟩ := h
      rfl
  | cons m rest ih =>
      rw [delete_all, onboard_act] at h
      rcases Prog.trace_op_bind.mp h with ⟨_, t', rfl, h'⟩ | ⟨e, rfl, -⟩
      · have hrest := ih h'
        exact hrest
      · rfl

/-- Nor does saving the next watermark. -/
theorem trace_save_watermark {project_id latest_hash : String} {t : List OnboardEvent} {res : Except Exc Unit}
    (h : (save_watermark project_id latest_hash).Trace t res) : passed t = [] := by
  rw [save_watermark, onboard_act] at h
  rcases Prog.trace_op_bind.mp h with ⟨existing, t', rfl, h'⟩ | ⟨e, rfl, -⟩
  · rcases Prog.trace_bind.mp h' with ⟨_, t₁, t₂, rfl, hdelete, hrest⟩ | ⟨e, hdelete, -⟩
    · have htail : passed t₂ = [] := by
        rw [onboard_act] at hrest
        rcases Prog.trace_op_bind.mp hrest with ⟨fresh, t₃, rfl, hadd⟩ | ⟨e, rfl, -⟩
        · obtain ⟨r, t₄, rfl, hlast⟩ := hadd
          cases r with
          | ok r =>
              obtain ⟨rfl, -⟩ := hlast
              rfl
          | error e =>
              obtain ⟨rfl, -⟩ := hlast
              rfl
        · rfl
      rw [← List.singleton_append, passed_append, passed_append, trace_delete_all hdelete, htail]
      rfl
    · rw [← List.singleton_append, passed_append, trace_delete_all hdelete]
      rfl
  · rfl

/-- The extractor is called once, with the watermark of the run. -/
theorem trace_walk_and_anchor {P : SubjectPatterns} {project_id : String} {max_clusters : ℤ}
    {watermark_hash : Option String} {t : List OnboardEvent} {res : Except Exc OnboardPrepared}
    (h : (walk_and_anchor P project_id max_clusters watermark_hash).Trace t res) :
    passed t = watermark_hash.toList := by
  have hhead : ∀ r, passed [⟨.extract watermark_hash, r⟩] = watermark_hash.toList := by
    intro r
    cases watermark_hash <;> rfl
  rw [walk_and_anchor, onboard_act] at h
  rcases Prog.trace_op_bind.mp h with ⟨history, t', rfl, h'⟩ | ⟨e, rfl, -⟩
  · rw [← List.singleton_append, passed_append, hhead]
    suffices htail : passed t' = [] by rw [htail, List.append_nil]
    rcases hcommits : history.commits with _ | ⟨newest, older⟩
    · rw [hcommits] at h'
      dsimp only at h'
      by_cases hw : watermark_hash.isSome = true
      · rw [if_pos hw] at h'
        obtain ⟨rfl, -⟩ := h'
        rfl
      · rw [if_neg hw] at h'
        obtain ⟨rfl, -⟩ := h'
        rfl
    · rw [hcommits] at h'
      dsimp only at h'
      rcases Prog.trace_bind.mp h' with ⟨_, t₁, t₂, rfl, hsave, ⟨rfl, -⟩⟩ | ⟨e, hsave, -⟩
      · rw [List.append_nil]
        exact trace_save_watermark hsave
      · exact trace_save_watermark hsave
  · exact hhead _

/-- The first two calls of a run, when both are answered. -/
def Reads (project_id : String) (items : List MemoryItem) (t : List OnboardEvent) : Prop :=
  ∃ existing rest, t = ⟨.list_memory_by_source "git-onboard" project_id, .ok existing⟩
    :: ⟨.list_memory_by_source WATERMARK_SOURCE project_id, .ok items⟩ :: rest

/-- What a run hands to the extractor: the stored watermark, unless the run is forced. -/
theorem mem_passed_iff {P : SubjectPatterns} {project_id : String} {max_clusters : ℤ} {force : Bool}
    {t : List OnboardEvent} {res : Except Exc OnboardPrepared}
    (h : (onboard_git_prepare P project_id max_clusters force).Trace t res) (w : String) :
    w ∈ passed t ↔ force = false ∧ ∃ items, Reads project_id items t ∧ stored_watermark items = some w := by
  rw [onboard_git_prepare, onboard_act] at h
  rcases Prog.trace_op_bind.mp h with ⟨existing, t', rfl, h'⟩ | ⟨e, rfl, -⟩
  · rw [onboard_act] at h'
    rcases Prog.trace_op_bind.mp h' with ⟨items, rest, rfl, hrest⟩ | ⟨e, rfl, -⟩
    · -- both lists are made before anything else, so the second is the one that is read
      have hreads : ∀ items', Reads project_id items' (⟨.list_memory_by_source "git-onboard" project_id, .ok existing⟩
          :: ⟨.list_memory_by_source WATERMARK_SOURCE project_id, .ok items⟩ :: rest) ↔ items' = items := by
        intro items'
        constructor
        · rintro ⟨existing', rest', heq⟩
          obtain ⟨hsecond, -⟩ := List.cons.inj (List.cons.inj heq).2
          exact (Except.ok.inj (eq_of_heq (Sigma.mk.inj hsecond).2)).symm
        · rintro rfl
          exact ⟨existing, rest, rfl⟩
      have hpassed : passed (⟨.list_memory_by_source "git-onboard" project_id, .ok existing⟩
          :: ⟨.list_memory_by_source WATERMARK_SOURCE project_id, .ok items⟩ :: rest) = passed rest := rfl
      rw [hpassed]
      cases force with
      | true =>
          rw [if_pos rfl] at hrest
          -- a forced run wipes the project and walks from the start
          have hnone : passed rest = [] := by
            rcases Prog.trace_bind.mp hrest with ⟨_, t₁, t₂, rfl, hdelete, hwalk⟩ | ⟨e, hdelete, -⟩
            · rw [passed_append, trace_delete_all hdelete, trace_walk_and_anchor hwalk]
              rfl
            · exact trace_delete_all hdelete
          rw [hnone]
          simp
      | false =>
          rw [if_neg (by decide)] at hrest
          -- memories without a watermark end the run
          by_cases hpresent : existing ≠ [] ∧ stored_watermark items = none
          · rw [if_pos hpresent] at hrest
            obtain ⟨rfl, -⟩ := hrest
            simp only [passed, List.filterMap_nil, List.not_mem_nil, false_iff]
            rintro ⟨-, items', hitems, hstored⟩
            rw [(hreads items').mp hitems, hpresent.2] at hstored
            cases hstored
          · rw [if_neg hpresent] at hrest
            rw [trace_walk_and_anchor hrest, Option.mem_toList]
            constructor
            · intro hw
              exact ⟨rfl, items, (hreads items).mpr rfl, hw⟩
            · rintro ⟨-, items', hitems, hstored⟩
              rwa [(hreads items').mp hitems] at hstored
    · simp [passed, Reads]
  · simp [passed, Reads]

/-- What the check of a stored watermark accepts. -/
theorem watermark_hash_re_iff (w : String) :
    watermark_hash_re w = true ↔ HashText w ∨ ∃ h, HashText h ∧ w = h ++ "\n" := by
  have hchars : ∀ cs, hash_chars cs = true ↔ 7 ≤ cs.length ∧ cs.length ≤ 64 ∧ ∀ c ∈ cs, is_hex c = true := by
    intro cs
    simp [hash_chars, and_assoc]
  rw [watermark_hash_re, Bool.or_eq_true, hchars, Bool.and_eq_true, decide_eq_true_eq, hchars]
  refine or_congr_right ?_
  constructor
  · rintro ⟨hlast, hhash⟩
    refine ⟨String.ofList w.toList.dropLast, by rw [HashText, String.toList_ofList]; exact hhash, ?_⟩
    apply String.toList_injective
    rw [String.toList_append, String.toList_ofList]
    exact (List.dropLast_append_getLast? '\n' hlast).symm
  · rintro ⟨h, hhash, rfl⟩
    rw [String.toList_append, show "\n".toList = ['\n'] from rfl, List.getLast?_concat, List.dropLast_concat]
    exact ⟨rfl, hhash⟩

/-- A hash begins with a digit or a letter. -/
theorem HashText.harmless {w : String} (h : HashText w) : Harmless (Text.ofString w) := by
  have halnum : ∀ c ∈ w.toList, c.isAlphanum = true := by
    intro c hc
    have hhex := h.2.2 c hc
    simp only [is_hex, Bool.or_eq_true, Bool.and_eq_true, decide_eq_true_eq] at hhex
    simp only [isAlphanum_eq, Bool.or_eq_true, Bool.and_eq_true, decide_eq_true_eq]
    rcases hhex with (hdigit | ⟨hlow, hhigh⟩) | ⟨hlow, hhigh⟩
    · exact .inr hdigit
    · exact .inl (.inr ⟨hlow, Char.le_trans hhigh (by decide)⟩)
    · exact .inl (.inl ⟨hlow, Char.le_trans hhigh (by decide)⟩)
  constructor
  · intro c hc
    obtain ⟨d, hd, rfl⟩ := List.mem_map.mp hc
    exact @not_space_of_alnum_or [] (by simp) (.scalar d) (by simp [alnum_or, halnum d hd])
  · intro hdash
    rw [Text.ofString, List.head?_map, Option.map_eq_some_iff] at hdash
    obtain ⟨d, hd, hdash⟩ := hdash
    have hbad := halnum d (List.mem_of_head? hd)
    rw [CodePoint.scalar.inj hdash] at hbad
    exact absurd hbad (by decide)

/-! ## The gates -/

/-- **Each gate is exact but for a newline at the end.** The URL gate and the branch gate are exact on
a string if and only if it is not one of their grammar followed by a newline. A run hands only harmless
hashes to the extractor if and only if it is forced, or the newest watermark row it read is not a hash
followed by a newline. -/
theorem gates_exact_iff (s : Text) :
    (Exactly (fun s => validate_server_repo_url s = .ok ()) GithubUrl s
      ↔ ¬ ∃ t, GithubUrl t ∧ s = t ++ [newline])
    ∧ (Exactly (fun s => validate_branch s = .ok ()) BranchName s
      ↔ ¬ ∃ t, BranchName t ∧ s = t ++ [newline])
    ∧ ∀ (P : SubjectPatterns) (project_id : String) (max_clusters : ℤ) (force : Bool) (t : List OnboardEvent)
        (res : Except Exc OnboardPrepared), (onboard_git_prepare P project_id max_clusters force).Trace t res →
      ((∀ w ∈ passed t, HashText w ∧ Harmless (Text.ofString w))
        ↔ ¬ (force = false ∧ ∃ items h, Reads project_id items t ∧ HashText h
          ∧ items.head?.map (·.content) = some (h ++ "\n"))) := by
  refine ⟨exactly_iff validate_server_repo_url_iff (fun _ => GithubUrl.harmless) s,
    exactly_iff validate_branch_iff (fun _ => BranchName.harmless) s, ?_⟩
  intro P project_id max_clusters force t res htrace
  have hpassed := mem_passed_iff htrace
  constructor
  · rintro hhash ⟨hforce, items, h, hreads, hh, hcontent⟩
    have hmem : h ++ "\n" ∈ passed t := by
      refine (hpassed _).mpr ⟨hforce, items, hreads, ?_⟩
      rw [stored_watermark, hcontent, Option.filter_some, if_pos]
      exact (watermark_hash_re_iff _).mpr (.inr ⟨h, hh, rfl⟩)
    have hharmless := (hhash _ hmem).2.1 newline (by
      rw [Text.ofString, String.toList_append, List.map_append]
      exact List.mem_append_right _ (by decide))
    exact absurd hharmless (by decide)
  · intro hno w hw
    obtain ⟨hforce, items, hreads, hstored⟩ := (hpassed w).mp hw
    rw [stored_watermark, Option.filter_eq_some_iff] at hstored
    obtain ⟨hcontent, hre⟩ := hstored
    rcases (watermark_hash_re_iff w).mp hre with hhash | ⟨h, hh, rfl⟩
    · exact ⟨hhash, hhash.harmless⟩
    · exact absurd ⟨hforce, items, h, hreads, hh, hcontent⟩ hno

/-- A URL, a branch and a hash, each with a newline at the end: the two gates accept, and the regular
expression of the watermark matches. -/
theorem gates_accept_a_newline :
    validate_server_repo_url (Text.ofString "https://github.com/o/r\n") = .ok ()
      ∧ validate_branch (Text.ofString "main\n") = .ok ()
      ∧ stored_watermark [{ id := "w", content := "0123abc\n", created_at := 0, source := WATERMARK_SOURCE }]
        = some "0123abc\n"
      ∧ ¬ Harmless (Text.ofString "https://github.com/o/r\n")
      ∧ ¬ Harmless (Text.ofString "main\n") ∧ ¬ HashText "0123abc\n" := by
  refine ⟨by decide +kernel, by decide +kernel, by decide +kernel, ?_, ?_, ?_⟩
  · intro h
    exact absurd (h.1 newline (by decide)) (by decide)
  · intro h
    exact absurd (h.1 newline (by decide)) (by decide)
  · intro h
    exact absurd (h.2.2 '\n' (by decide)) (by decide)

end OpenChronicle
