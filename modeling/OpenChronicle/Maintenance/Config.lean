/-
What `load_jobs` makes of a hand-edited file.

Every default job is built from its default and the last entry of the file that names it. Of all values
JSON has for an interval only the infinities raise: `int` answers them with an `OverflowError`, which is
neither of the two exceptions that are caught.

The file is any JSON object. An entry that is not an object, one without a name, one with a name that is
no default job: each is passed over, and the lemmas about entries say so by `named`. Among the entries
of one name the last decides as a whole, its fields laid over the default's; the entries before it are
not looked at, so an infinity in one of them does no harm. That is why the condition speaks of
`Deciding` and not of any entry of the name.
-/
import Mathlib.Data.Option.Basic
import OpenChronicle.Lib.Json
import OpenChronicle.Maintenance.Model

set_option autoImplicit false

namespace OpenChronicle.Maintenance

open PyStr

/-! ## Entries -/

/-- The fields of an entry that names the job. -/
def named (name : String) : Json → Option Json.Dict
  | .dict fields =>
      match Json.Dict.get fields (Text.ofString "name") with
      | .str s => if s = Text.ofString name then some fields else none
      | _ => none
  | _ => none

/-- The last entry of the file that names the job has these fields. -/
def Deciding (file_config : Json.Dict) (name : String) (fields : Json.Dict) : Prop :=
  ∃ before e after, config_entries file_config = before ++ e :: after ∧ named name e = some fields
    ∧ ∀ e' ∈ after, named name e' = none

/-- `inf` or `-inf`. -/
def Infinite (value : Json) : Prop :=
  value = .float 0x7FF0000000000000 ∨ value = .float 0xFFF0000000000000

section Entries

variable {file_config : Json.Dict} {entries : List Json} {name : String} {fields : Json.Dict}

/-- The source fills a dictionary in a loop; its last write for a name is the last entry with it. -/
theorem override_eq (entries : List Json) (name : String) :
    override entries name = ((entries.filterMap (named name)).getLast?).getD [] := rfl

/-- Without an entry the default is taken as it is. -/
theorem override_of_none (h : ∀ e ∈ entries, named name e = none) : override entries name = [] := by
  rw [override_eq, List.filterMap_eq_nil_iff.mpr h]
  rfl

/-- The split of the list at the deciding entry is where the loop writes last. -/
theorem override_of_deciding (h : Deciding file_config name fields) :
    override (config_entries file_config) name = fields := by
  obtain ⟨before, e, after, hcut, hnamed, hafter⟩ := h
  rw [override_eq, hcut, List.filterMap_append, List.filterMap_cons_some hnamed,
    List.filterMap_eq_nil_iff.mpr hafter, List.getLast?_concat]
  rfl

/-- An entry decides, or none names the job. -/
theorem deciding_or_none (file_config : Json.Dict) (name : String) :
    (∃ fields, Deciding file_config name fields) ∨ ∀ e ∈ config_entries file_config, named name e = none := by
  rw [← List.filterMap_eq_nil_iff]
  rcases List.eq_nil_or_concat ((config_entries file_config).filterMap (named name)) with hnil | ⟨rest, fields, hlast⟩
  · exact .inr hnil
  · left
    refine ⟨fields, ?_⟩
    rw [List.concat_eq_append, List.filterMap_eq_append_iff] at hlast
    obtain ⟨before, tail, hcut, -, htail⟩ := hlast
    obtain ⟨skipped, e, after, htail, hskipped, hnamed, hafter⟩ := List.filterMap_eq_cons_iff.mp htail
    refine ⟨before ++ skipped, e, after, ?_, hnamed, List.filterMap_eq_nil_iff.mp hafter⟩
    rw [hcut, htail, List.append_assoc]

end Entries

/-! ## Intervals -/

section Intervals

variable (int_of_str : Text → Option ℤ)

/-- Of the 64 bits of a float, the exponent is all ones and the fraction zero, for either sign. -/
theorem truncate_infinite_iff (bits : BitVec 64) :
    truncate bits = .infinite ↔ bits = 0x7FF0000000000000 ∨ bits = 0xFFF0000000000000 := by
  have hlt := bits.isLt
  have hfields : truncate bits = .infinite ↔ bits.toNat / 2 ^ 52 % 2048 = 2047 ∧ bits.toNat % 2 ^ 52 = 0 := by
    rw [truncate]
    split
    · next hexponent =>
        split
        · next hfraction => exact iff_of_true rfl ⟨hexponent, hfraction⟩
        · next hfraction => exact iff_of_false nofun fun h => hfraction h.2
    · next hexponent => exact iff_of_false nofun fun h => hexponent h.1
  have hplus : (0x7FF0000000000000 : BitVec 64).toNat = 2047 * 2 ^ 52 := rfl
  have hminus : (0xFFF0000000000000 : BitVec 64).toNat = 4095 * 2 ^ 52 := rfl
  rw [hfields, ← BitVec.toNat_inj, ← BitVec.toNat_inj, hplus, hminus]
  omega

/-- `int` raises what is not caught for the infinities alone. -/
theorem interval_of_none_iff (raw : Json) : interval_of int_of_str raw = none ↔ Infinite raw := by
  cases raw with
  | float bits =>
      have hbits := truncate_infinite_iff bits
      rw [interval_of, Infinite, Json.float.injEq, Json.float.injEq, ← hbits]
      dsimp only
      rcases truncate bits with n | _ | _
      · exact iff_of_false nofun nofun
      · exact iff_of_false nofun nofun
      · exact iff_of_true rfl rfl
  | null => exact iff_of_false nofun (by rintro (h | h) <;> cases h)
  | bool b => exact iff_of_false nofun (by rintro (h | h) <;> cases h)
  | int n => exact iff_of_false nofun (by rintro (h | h) <;> cases h)
  | str s => exact iff_of_false nofun (by rintro (h | h) <;> cases h)
  | list items => exact iff_of_false nofun (by rintro (h | h) <;> cases h)
  | dict fields => exact iff_of_false nofun (by rintro (h | h) <;> cases h)

/-- An interval is positive, whatever it is made from. -/
theorem interval_of_pos {raw : Json} {n : ℤ} (h : interval_of int_of_str raw = some n) : 0 < n := by
  have hpositive : ∀ m : ℤ, 0 < if m ≤ 0 then (3600 : ℤ) else m := by
    intro m
    split
    · decide
    · omega
  cases raw with
  | int m =>
      obtain rfl := Option.some.inj h
      exact hpositive m
  | str s =>
      obtain rfl := Option.some.inj h
      exact hpositive _
  | float bits =>
      rw [interval_of] at h
      dsimp only at h
      split at h
      · obtain rfl := Option.some.inj h
        exact hpositive _
      · obtain rfl := Option.some.inj h
        decide
      · cases h
  | null => obtain rfl := Option.some.inj h; decide
  | bool b => obtain rfl := Option.some.inj h; decide
  | list items => obtain rfl := Option.some.inj h; decide
  | dict fields => obtain rfl := Option.some.inj h; decide

/-- What `{**default, **fields}` answers for the interval. -/
theorem load_job_none_iff (fields : Json.Dict) (default : JobSpec) : load_job int_of_str fields default = none
    ↔ Infinite (Json.Dict.get fields (Text.ofString "interval_seconds")) := by
  rw [load_job, Option.map_eq_none_iff, interval_of_none_iff]
  by_cases hhas : Json.Dict.has fields (Text.ofString "interval_seconds") = true
  · rw [if_pos hhas]
  · have hmissing : Json.Dict.get fields (Text.ofString "interval_seconds") = .null := by
      rw [Json.Dict.has, List.any_eq_true] at hhas
      rw [Json.Dict.get, List.find?_eq_none.mpr]
      · rfl
      · exact fun x hx hkey => hhas ⟨x, hx, hkey⟩
    rw [if_neg hhas, hmissing]
    exact iff_of_false (by rintro (h | h) <;> cases h) (by rintro (h | h) <;> cases h)

/-- What an accepted job has: its name from the default, and a positive interval. -/
theorem load_job_some {fields : Json.Dict} {default spec : JobSpec}
    (h : load_job int_of_str fields default = some spec) : spec.name = default.name ∧ 0 < spec.interval_seconds := by
  obtain ⟨interval, hinterval, rfl⟩ := Option.map_eq_some_iff.mp h
  exact ⟨rfl, interval_of_pos int_of_str hinterval⟩

/-- A job without an entry keeps its default. -/
theorem load_job_default {default : JobSpec} (h : 0 < default.interval_seconds) :
    load_job int_of_str [] default = some default := by
  have hpositive : ¬ default.interval_seconds ≤ 0 := by omega
  rw [load_job]
  show (interval_of int_of_str (.int default.interval_seconds)).map _ = _
  rw [interval_of]
  dsimp only
  rw [if_neg hpositive]
  rfl

/-! ## The whole file -/

/-- What `load_jobs` has to return. -/
structure Loaded (file_config : Json.Dict) (specs : List JobSpec) : Prop where
  one_for_each : specs.map JobSpec.name = DEFAULT_JOBS.map JobSpec.name
  positive : ∀ spec ∈ specs, 0 < spec.interval_seconds
  unmentioned : ∀ default ∈ DEFAULT_JOBS, (∀ e ∈ config_entries file_config, named default.name e = none) →
    default ∈ specs
  last_decides : ∀ default ∈ DEFAULT_JOBS, ∀ fields, Deciding file_config default.name fields →
    ∃ spec ∈ specs, load_job int_of_str fields default = some spec

/-- A loop that fails nowhere has a result for each element, in order. -/
theorem mapM_some {α β : Type} {f : α → Option β} {l : List α} (h : ∀ a ∈ l, f a ≠ none) :
    ∃ m, l.mapM f = some m ∧ m.map some = l.map f := by
  induction l with
  | nil => exact ⟨[], rfl, rfl⟩
  | cons a l ih =>
      obtain ⟨b, hb⟩ := Option.ne_none_iff_exists'.mp (h a List.mem_cons_self)
      obtain ⟨m, hm, hall⟩ := ih fun x hx => h x (List.mem_cons_of_mem _ hx)
      refine ⟨b :: m, ?_, ?_⟩
      · rw [List.mapM_cons, hb, hm]
        rfl
      · rw [List.map_cons, List.map_cons, hb, hall]

/-- A loop fails with its first failure. -/
theorem mapM_none {α β : Type} {f : α → Option β} {l : List α} {a : α} (ha : a ∈ l) (h : f a = none) :
    l.mapM f = none := by
  induction l with
  | nil => cases ha
  | cons x l ih =>
      rw [List.mapM_cons]
      rcases List.mem_cons.mp ha with rfl | hin
      · rw [h]
        rfl
      · rw [ih hin]
        rcases f x with _ | y
        · rfl
        · rfl

/-- **When `load_jobs` returns, and what.** It returns a job for each default, with the last entry of the
file deciding, unless an entry that decides has an infinite interval; then it raises. -/
theorem load_jobs_loads_iff (file_config : Json.Dict) :
    (∃ specs, load_jobs int_of_str file_config = some specs ∧ Loaded int_of_str file_config specs)
      ↔ ∀ default ∈ DEFAULT_JOBS, ∀ fields, Deciding file_config default.name fields →
          ¬ Infinite (Json.Dict.get fields (Text.ofString "interval_seconds")) := by
  constructor
  · rintro ⟨specs, hload, -⟩ default hdefault fields hdeciding hinfinite
    rw [load_jobs, mapM_none hdefault] at hload
    · cases hload
    · rw [override_of_deciding hdeciding, load_job_none_iff]
      exact hinfinite
  · intro h
    -- an entry that is not infinite gives a job, and so does a default without one
    have hsome : ∀ default ∈ DEFAULT_JOBS,
        load_job int_of_str (override (config_entries file_config) default.name) default ≠ none := by
      intro default hdefault
      rw [Ne, load_job_none_iff]
      rcases deciding_or_none file_config default.name with ⟨fields, hdeciding⟩ | hnone
      · rw [override_of_deciding hdeciding]
        exact h default hdefault fields hdeciding
      · rw [override_of_none hnone]
        rintro (hnull | hnull) <;> cases hnull
    obtain ⟨specs, hload, hall⟩ := mapM_some hsome
    have hleft : ∀ default ∈ DEFAULT_JOBS, ∃ spec ∈ specs,
        load_job int_of_str (override (config_entries file_config) default.name) default = some spec := by
      intro default hdefault
      have hmem := List.mem_map_of_mem (f := fun default : JobSpec =>
        load_job int_of_str (override (config_entries file_config) default.name) default) hdefault
      rw [← hall] at hmem
      obtain ⟨spec, hspec, heq⟩ := List.mem_map.mp hmem
      exact ⟨spec, hspec, heq.symm⟩
    refine ⟨specs, hload, ?_, ?_, ?_, ?_⟩
    · -- each job keeps the name of its default, and their order
      have hnames : (specs.map some).map (Option.map JobSpec.name)
          = DEFAULT_JOBS.map fun default => some default.name := by
        rw [hall, List.map_map]
        apply List.map_congr_left
        intro default hdefault
        obtain ⟨spec, -, hspec⟩ := hleft default hdefault
        rw [Function.comp_apply, hspec, Option.map_some, (load_job_some int_of_str hspec).1]
      rw [List.map_map] at hnames
      apply List.map_injective_iff.mpr (Option.some_injective String)
      rw [List.map_map, List.map_map]
      exact hnames
    · intro spec hspec
      have hmem : some spec ∈ specs.map some := List.mem_map_of_mem hspec
      rw [hall] at hmem
      obtain ⟨default, -, hdefault⟩ := List.mem_map.mp hmem
      exact (load_job_some int_of_str hdefault).2
    · intro default hdefault hnone
      obtain ⟨spec, hspec, hload⟩ := hleft default hdefault
      -- what no entry decides about is the default itself
      have hpositive : ∀ default ∈ DEFAULT_JOBS, 0 < default.interval_seconds := by decide
      rw [override_of_none hnone, load_job_default int_of_str (hpositive default hdefault)] at hload
      rw [Option.some.inj hload]
      exact hspec
    · intro default hdefault fields hdeciding
      obtain ⟨spec, hspec, hload⟩ := hleft default hdefault
      rw [override_of_deciding hdeciding] at hload
      exact ⟨spec, hspec, hload⟩

end Intervals

/-- `{"maintenance": {"jobs": [{"name": "db_backup", "interval_seconds": Infinity}]}}` -/
def infinite_config : Json.Dict :=
  [(Text.ofString "maintenance", .dict [(Text.ofString "jobs", .list [.dict
    [(Text.ofString "name", .str (Text.ofString "db_backup")),
      (Text.ofString "interval_seconds", .float 0x7FF0000000000000)]])])]

/-- It raises. -/
theorem infinite_interval_raises : load_jobs (fun _ => none) infinite_config = none
    ∧ ¬ ∃ specs, load_jobs (fun _ => none) infinite_config = some specs
      ∧ Loaded (fun _ => none) infinite_config specs := by
  have hraises : load_jobs (fun _ => none) infinite_config = none := rfl
  refine ⟨hraises, ?_⟩
  rintro ⟨specs, hload, -⟩
  rw [hraises] at hload
  cases hload

end OpenChronicle.Maintenance
