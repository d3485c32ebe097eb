/-
What the layers of a setting amount to: blank variables are unset, and what cannot be read is passed
over.

Every reader looks at a variable through `given` or through the parts of a list that are not blank, so
it cannot tell a blank variable from one that is not there. The list of allowed hosts of the HTTP server
is the exception: it asks whether the first of two variables is empty, and whitespace is not empty.

The statement compares two environments, the one that there is and the one with its blank variables
removed, and says of each reader that it gives the same settings in both. That is stronger than a list
of defaults, since it holds of every file configuration and of every combination of variables, and it is
proved reader by reader: each of them is built from a few readings of single variables, and each such
reading is indifferent to the change.

For the exception the condition is exact. Whitespace in the first variable hides the second one, and
this shows only if the second one would have named other hosts than the configuration does.
-/
import OpenChronicle.Config.Environment
import OpenChronicle.Lib.Replace

set_option autoImplicit false

namespace OpenChronicle.Config

open PyStr

/-! ## Blank variables -/

/-- The environment with its blank variables unset. -/
def unset_blank (environ : Environ) : Environ := fun name => given (environ name)

/-- To remove the blank variables twice changes nothing more. -/
theorem given_given (raw : Option Text) : given (given raw) = given raw := by
  unfold given
  rw [Option.filter_filter]
  congr 1
  funext s
  exact Bool.and_self _

/-- A reader that strips cannot tell either. -/
theorem stripped_given (raw : Option Text) : stripped (given raw) = stripped raw := by
  rw [stripped, given_given, stripped]

theorem given_of_blank {s : Text} (h : s.blank = true) : given (some s) = none := by
  rw [given, Option.filter_some, if_neg]
  rw [h]
  decide

theorem given_of_not_blank {s : Text} (h : s.blank = false) : given (some s) = some s := by
  rw [given, Option.filter_some, if_pos]
  rw [h]
  rfl

/-- There is nothing in a blank list. -/
theorem csv_of_blank {raw : Text} (h : raw.blank = true) : csv raw = [] := by
  rw [csv, List.map_eq_nil_iff, List.filter_eq_nil_iff]
  intro part hpart
  -- a piece of a blank text is blank
  have hblank : Text.blank part = true := by
    rw [Text.blank, List.all_eq_true] at h ⊢
    intro c hc
    exact h c ((infix_of_piece part hpart).subset hc)
  rw [hblank]
  decide

/-- A list of blanks is the empty list. -/
theorem csv_given (raw : Option Text) : csv ((given raw).getD []) = csv (raw.getD []) := by
  cases raw with
  | none => rfl
  | some s =>
      cases hs : s.blank with
      | true =>
          rw [given_of_blank hs, Option.getD_none, Option.getD_some, csv_of_blank hs]
          exact csv_of_blank rfl
      | false => rw [given_of_not_blank hs]

section Readers

variable (B : Builtins) (environ : Environ) (fc : Json.Dict)

/-- The override that most settings go through. -/
theorem env_override_blank (name : String) (value : Json) :
    env_override (unset_blank environ) name value = env_override environ name value := by
  rw [env_override, unset_blank, given_given, env_override]

/-- A port that is not given is taken from the configuration. -/
theorem resolve_port_given (raw : Option Text) (value : Json) (default : ℤ) :
    resolve_port B (given raw) value default = resolve_port B raw value default := by
  rw [resolve_port, env_port, stripped_given]
  rfl

theorem parse_allowed_hosts_given (raw : Option Text) (value : Json) :
    parse_allowed_hosts B (given raw) value = parse_allowed_hosts B raw value := by
  unfold parse_allowed_hosts
  rw [given_given]

/-- From here on: the readers, each from the readings that it is made of. -/
theorem mcp_config_blank (binds_port : Bool) :
    MCPConfig.from_env B (unset_blank environ) fc binds_port = MCPConfig.from_env B environ fc binds_port := by
  simp only [MCPConfig.from_env, unset_blank, stripped_given, resolve_port_given, parse_allowed_hosts_given]

theorem resolve_blank (explicit : Option Text) (env_var : String) (data_dir : Option Text) (suffix fallback : String) :
    resolve (unset_blank environ) explicit env_var data_dir suffix fallback
      = resolve environ explicit env_var data_dir suffix fallback := by
  unfold resolve unset_blank
  rw [given_given]

theorem runtime_paths_blank (db_path config_dir output_dir : Option Text) :
    RuntimePaths.resolve (unset_blank environ) db_path config_dir output_dir
      = RuntimePaths.resolve environ db_path config_dir output_dir := by
  have hdata : given (unset_blank environ "OC_DATA_DIR") = given (environ "OC_DATA_DIR") := given_given _
  simp only [RuntimePaths.resolve, resolve_blank, hdata]

theorem cloud_backup_blank :
    read_cloud_backup_config (unset_blank environ) = read_cloud_backup_config environ := by
  have hremote : stripped (unset_blank environ "OC_CLOUD_REMOTE") = stripped (environ "OC_CLOUD_REMOTE") :=
    stripped_given _
  have hrecipients : csv ((unset_blank environ "OC_CLOUD_AGE_RECIPIENTS").getD [])
      = csv ((environ "OC_CLOUD_AGE_RECIPIENTS").getD []) := csv_given _
  rw [read_cloud_backup_config, hremote, hrecipients, read_cloud_backup_config]

/-- The one float among the settings. -/
theorem load_timeout_blank : load_timeout B (unset_blank environ) fc = load_timeout B environ fc := by
  rw [load_timeout, env_override_blank, load_timeout]

end Readers

/-! ## What stops the service -/

/-- The settings of the embeddings load, or their timeout is a number of the file without a float. -/
theorem load_embedding_settings_eq_none_iff (B : Builtins) (environ : Environ) (fc : Json.Dict) :
    load_embedding_settings B environ fc = none
      ↔ given (environ "OC_EMBEDDING_TIMEOUT") = none
        ∧ ∃ n, key fc "timeout" = .int n ∧ B.float_of_int n = none := by
  have hload : load_embedding_settings B environ fc = none ↔ load_timeout B environ fc = none := by
    unfold load_embedding_settings
    split
    · next h => exact iff_of_true rfl h
    · next timeout h =>
        refine iff_of_false (fun h => by cases h) fun h' => ?_
        rw [h'] at h
        cases h
  rw [hload, load_timeout, Option.map_eq_none_iff, env_override]
  cases hgiven : given (environ "OC_EMBEDDING_TIMEOUT") with
  | some raw => exact iff_of_false (fun h => by cases h) fun h => by cases h.1
  | none =>
      cases hvalue : key fc "timeout" with
      | int n =>
          constructor
          · intro h
            exact ⟨rfl, n, rfl, h⟩
          · rintro ⟨-, m, hm, hnone⟩
            cases hm
            exact hnone
      | null => exact iff_of_false (fun h => by cases h) fun ⟨_, n, hn, _⟩ => by cases hn
      | bool b => exact iff_of_false (fun h => by cases h) fun ⟨_, n, hn, _⟩ => by cases hn
      | float bits => exact iff_of_false (fun h => by cases h) fun ⟨_, n, hn, _⟩ => by cases hn
      | str s => exact iff_of_false (fun h => by cases h) fun ⟨_, n, hn, _⟩ => by cases hn
      | list items => exact iff_of_false (fun h => by cases h) fun ⟨_, n, hn, _⟩ => by cases hn
      | dict fields => exact iff_of_false (fun h => by cases h) fun ⟨_, n, hn, _⟩ => by cases hn

/-- Whether the settings load at all does not depend on blank variables. -/
theorem load_embedding_settings_blank (B : Builtins) (environ : Environ) (fc : Json.Dict) :
    load_embedding_settings B (unset_blank environ) fc = load_embedding_settings B environ fc := by
  have hprovider : load_provider B (unset_blank environ) fc = load_provider B environ fc := by
    rw [load_provider, env_override_blank, load_provider]
  have hdimensions : load_dimensions B (unset_blank environ) fc = load_dimensions B environ fc := by
    rw [load_dimensions, env_override_blank, load_dimensions]
  have htimeout := load_timeout_blank B environ fc
  unfold load_embedding_settings
  split
  · next h =>
      rw [htimeout] at h
      split
      · rfl
      · next timeout h' =>
          rw [h] at h'
          cases h'
  · next timeout h =>
      rw [htimeout] at h
      split
      · next h' =>
          rw [h] at h'
          cases h'
      · next timeout' h' =>
          obtain rfl : timeout = timeout' := Option.some.inj (h.symm.trans h')
          simp only [hprovider, hdimensions, env_override_blank]

/-! ## Allowed hosts -/

/-- The variable of the HTTP server is blank without being empty, and hides what the other would have
named. -/
def Hidden (B : Builtins) (environ : Environ) (fc : Json.Dict) : Prop :=
  (∃ s, environ "OC_API_ALLOWED_HOSTS" = some s ∧ s ≠ [] ∧ s.blank = true)
    ∧ parse_allowed_hosts B (environ "OC_MCP_ALLOWED_HOSTS") (key fc "allowed_hosts")
      ≠ parse_allowed_hosts B none (key fc "allowed_hosts")

example (B : Builtins) : parse_allowed_hosts B
    (first_set (some (Text.ofString " ")) (some (Text.ofString "nas:*"))) .null = DEFAULT_ALLOWED_HOSTS := rfl

/-- The exception, and exactly when it shows. -/
theorem allowed_hosts_blank_iff (B : Builtins) (environ : Environ) (fc : Json.Dict) :
    parse_allowed_hosts B
        (first_set (unset_blank environ "OC_API_ALLOWED_HOSTS") (unset_blank environ "OC_MCP_ALLOWED_HOSTS"))
        (key fc "allowed_hosts")
      = parse_allowed_hosts B (first_set (environ "OC_API_ALLOWED_HOSTS") (environ "OC_MCP_ALLOWED_HOSTS"))
        (key fc "allowed_hosts")
      ↔ ¬ Hidden B environ fc := by
  have hnone : first_set none (unset_blank environ "OC_MCP_ALLOWED_HOSTS") = given (environ "OC_MCP_ALLOWED_HOSTS") :=
    rfl
  -- a variable that is not blank comes first in both environments
  have hsame : ∀ s, given (some s) = some s → s ≠ [] →
      first_set (given (some s)) (unset_blank environ "OC_MCP_ALLOWED_HOSTS")
        = first_set (some s) (environ "OC_MCP_ALLOWED_HOSTS") := by
    intro s hs hne
    rw [hs, first_set, first_set, Option.filter_some, if_pos (decide_eq_true hne)]
    rfl
  cases hapi : environ "OC_API_ALLOWED_HOSTS" with
  | none =>
      have hunset : unset_blank environ "OC_API_ALLOWED_HOSTS" = none := by
        rw [unset_blank, hapi]
        rfl
      rw [hunset, hnone, parse_allowed_hosts_given]
      refine iff_of_true rfl ?_
      rintro ⟨⟨s, hs, -⟩, -⟩
      rw [hapi] at hs
      cases hs
  | some s =>
      have hvariable : unset_blank environ "OC_API_ALLOWED_HOSTS" = given (some s) := by
        rw [unset_blank, hapi]
      rw [hvariable]
      cases hblank : s.blank with
      | false =>
          have hne : s ≠ [] := by
            rintro rfl
            cases hblank
          rw [hsame s (given_of_not_blank hblank) hne]
          refine iff_of_true rfl ?_
          rintro ⟨⟨s', hs', -, hblank'⟩, -⟩
          rw [hapi] at hs'
          cases hs'
          rw [hblank] at hblank'
          cases hblank'
      | true =>
          rw [given_of_blank hblank, hnone, parse_allowed_hosts_given]
          by_cases hne : s = []
          · -- the empty variable gives way to the other
            subst hne
            refine iff_of_true rfl ?_
            rintro ⟨⟨s', hs', hne', -⟩, -⟩
            rw [hapi] at hs'
            cases hs'
            exact hne' rfl
          · have hfirst : first_set (some s) (environ "OC_MCP_ALLOWED_HOSTS") = some s := by
              rw [first_set, Option.filter_some, if_pos (decide_eq_true hne)]
              rfl
            have hread : parse_allowed_hosts B (some s) (key fc "allowed_hosts")
                = parse_allowed_hosts B none (key fc "allowed_hosts") := by
              rw [← parse_allowed_hosts_given, given_of_blank hblank]
            -- here the blank variable is taken and then read as unset
            rw [hfirst, hread, Hidden, hapi]
            constructor
            · rintro heq ⟨-, hdiffer⟩
              exact hdiffer heq
            · intro h
              by_contra hdiffer
              exact h ⟨⟨s, rfl, hne, hblank⟩, hdiffer⟩

/-! ## The readers together -/

/-- **Blank variables count as unset** in every reader of settings, but for the HTTP server's allowed hosts:
there exactly when the variable is whitespace and hides hosts that the other one names. -/
theorem blank_variables_are_unset (B : Builtins) (environ : Environ) (fc : Json.Dict) :
    (∀ binds_port, MCPConfig.from_env B (unset_blank environ) fc binds_port = MCPConfig.from_env B environ fc binds_port)
    ∧ (∀ db_path config_dir output_dir, RuntimePaths.resolve (unset_blank environ) db_path config_dir output_dir
        = RuntimePaths.resolve environ db_path config_dir output_dir)
    ∧ read_cloud_backup_config (unset_blank environ) = read_cloud_backup_config environ
    ∧ load_embedding_settings B (unset_blank environ) fc = load_embedding_settings B environ fc
    ∧ (HTTPConfig.from_env B (unset_blank environ) fc = HTTPConfig.from_env B environ fc
        ↔ ¬ Hidden B environ fc) := by
  refine ⟨mcp_config_blank B environ fc, runtime_paths_blank environ, cloud_backup_blank environ,
    load_embedding_settings_blank B environ fc, ?_⟩
  rw [← allowed_hosts_blank_iff]
  have hhost : (HTTPConfig.from_env B (unset_blank environ) fc).host = (HTTPConfig.from_env B environ fc).host := by
    simp only [HTTPConfig.from_env, unset_blank, stripped_given]
  have hport : (HTTPConfig.from_env B (unset_blank environ) fc).port = (HTTPConfig.from_env B environ fc).port := by
    apply Subtype.ext
    exact resolve_port_given B _ _ _
  have hkey : (HTTPConfig.from_env B (unset_blank environ) fc).api_key = (HTTPConfig.from_env B environ fc).api_key := by
    simp only [HTTPConfig.from_env, unset_blank, stripped_given]
  rw [HTTPConfig.ext_iff]
  constructor
  · rintro ⟨-, -, -, hhosts⟩
    exact hhosts
  · intro hhosts
    exact ⟨hhost, hport, hkey, hhosts⟩

end OpenChronicle.Config
