/-
`CachedPrefixExporter`: Prometheus text with a bounded cache of sample prefixes.

The cache maps a name and its sorted labels to the text before the value. What it holds depends on every
scrape so far, what comes out must not. `_prefix` is the only method that touches the cache, so both
facts are about it: it answers `_make_prefix` of the key whatever is cached, and it keeps the bounds.
`prometheus_client` and the formatting of floats are not part of the repository; they are the parameters
in `Installed`.

The invariant is `Kept`: each entry is what `_make_prefix` gives for its key, there are no more entries
than the limit, and the counter of bytes is their sum and below its own limit. A scrape is a loop over
samples, and an exception may leave it at any of them; the invariant holds there too, so the next scrape
starts from such a cache.

Only what `_make_prefix` accepts is cached. Whatever it turns down goes through the standard encoder,
and that no two keys have one prefix is a fact about the escaping: a label value ends at the first quote
that is not escaped.
-/
import Mathlib.Algebra.GroupWithZero.Nat
import Mathlib.Data.List.Lex
import Mathlib.Data.List.Sort
import Mathlib.Order.Nat
import OpenChronicle.Lib.Delimited
import OpenChronicle.Lib.Keyed
import OpenChronicle.Lib.Regex

set_option autoImplicit false

namespace OpenChronicle.CachedExporter

open PyStr

/-! ## Metrics -/

/-- A sample with plain strings; `V` is the type of its value, `T` of its timestamp. -/
structure Sample (V T : Type) where
  name : Text
  labels : List (Text × Text)
  value : V
  timestamp : Option T
  /-- The labels are a dict. -/
  labels_nodup : (labels.map (·.1)).Nodup

structure Metric (V T : Type) where
  name : Text
  documentation : Text
  type : Text
  samples : List (Sample V T)

/-- What `registry.collect()` yields, and what it raises in the end. -/
structure Collected (V T E : Type) where
  metrics : List (Metric V T)
  raises : Option E

/-- What is installed: `floatToGoString`, `f" {int(float(timestamp) * 1000)}"`,
`_standard_family`, `generate_latest` with another escaping, and the error of a strict
`encode`. -/
structure Installed (V T E : Type) where
  floatToGoString : V → Except E Text
  timestamp_text : T → Except E Text
  standard_family : Metric V T → Except E Text
  generate_latest : Collected V T E → Text → Except E String
  UnicodeEncodeError : E

/-! ## Prefixes -/

/-- `tuple[str, tuple[tuple[str, str], ...]]`. -/
abbrev PrefixKey := Text × List (Text × Text)

/-- `[a-zA-Z_:]`. -/
def metric_start : CodePoint → Bool
  | .scalar c => c.isAlpha || c = '_' || c = ':'
  | .surrogate _ => false

/-- `[a-zA-Z0-9_:]`. -/
def metric_char : CodePoint → Bool
  | .scalar c => c.isAlphanum || c = '_' || c = ':'
  | .surrogate _ => false

/-- `[a-zA-Z_]`. -/
def label_start : CodePoint → Bool
  | .scalar c => c.isAlpha || c = '_'
  | .surrogate _ => false

/-- `[a-zA-Z0-9_]`. -/
def label_char : CodePoint → Bool
  | .scalar c => c.isAlphanum || c = '_'
  | .surrogate _ => false

/-- `_METRIC_NAME`. -/
def METRIC_NAME : Regex CodePoint := .seq (.char metric_start) (.star (.char metric_char))

/-- `_LABEL_NAME`. -/
def LABEL_NAME : Regex CodePoint := .seq (.char label_start) (.star (.char label_char))

def backslash : CodePoint := .scalar '\\'

def newline : CodePoint := .scalar '\n'

def quote : CodePoint := .scalar '"'

/-- `s.replace(c, new)`. -/
def replace (c : CodePoint) (new : Text) (s : Text) : Text :=
  s.flatMap fun d => if d = c then new else [d]

/-- The three replacements of a label value, one after another. -/
def escape (value : Text) : Text :=
  replace quote [backslash, quote]
    (replace newline [backslash, .scalar 'n'] (replace backslash [backslash, backslash] value))

/-- `f'{label}="{value}"'`. -/
def label_text (pair : Text × Text) : Text :=
  pair.1 ++ .scalar '=' :: quote :: (escape pair.2 ++ [quote])

/-- `_make_prefix`; `none` is `_UseStandard`. -/
def make_prefix_of (key : PrefixKey) : Option Text :=
  let (name, labels) := key
  if !METRIC_NAME.fullmatch name then none
  else if !(labels.all fun pair => LABEL_NAME.fullmatch pair.1) then none
  else
    let escaped := labels.map label_text
    let body := if escaped = [] then []
      else .scalar '\x7b' :: ([CodePoint.scalar ','].intercalate escaped ++ [.scalar '\x7d'])
    some (name ++ body ++ [.scalar ' '])

/-- The number of a code point. -/
def ord : CodePoint → ℕ
  | .scalar c => c.toNat
  | .surrogate n => 0xD800 + n

/-- `a <= b` on pairs of strings. -/
def pair_le (a b : Text × Text) : Bool :=
  a.1.map ord < b.1.map ord || (a.1 = b.1 && a.2.map ord ≤ b.2.map ord)

/-- `tuple(sorted(labels.items()))`. -/
def sorted_items (labels : List (Text × Text)) : List (Text × Text) :=
  labels.insertionSort fun a b => pair_le a b = true

def sample_key {V T : Type} (sample : Sample V T) : PrefixKey :=
  (sample.name, sorted_items sample.labels)

/-! ## The cache -/

/-- `_prefixes` and `_payload_bytes`. -/
structure Cache where
  prefixes : List (PrefixKey × Text) := []
  payload_bytes : ℕ := 0

/-- `len(text.encode("utf-8", errors="surrogatepass"))`. -/
def utf8_len (text : Text) : ℕ :=
  (text.map fun c => match c with | .scalar c => c.utf8Size | .surrogate _ => 3).sum

/-- The strings an entry retains: name, prefix, labels and their values. -/
def strings (entry : PrefixKey × Text) : List Text :=
  entry.1.1 :: entry.2 :: entry.1.2.flatMap fun pair => [pair.1, pair.2]

def size (entry : PrefixKey × Text) : ℕ := ((strings entry).map utf8_len).sum

/-- `max_entries` and `max_payload_bytes`; the constructor refuses negative ones. -/
structure Limits where
  max_entries : ℕ
  max_payload_bytes : ℕ

variable {V T E : Type}

/-- `_prefix`; `none` is `_UseStandard`. -/
def prefix_of (limits : Limits) (cache : Cache) (sample : Sample V T) : Option Text × Cache :=
  let key := sample_key sample
  match Keyed.lookup Prod.fst cache.prefixes key with
  | some (_, cached) => (some cached, cache)
  | none =>
      match make_prefix_of key with
      | none => (none, cache)
      | some made =>
          if cache.prefixes.length < limits.max_entries then
            let bytes := size (key, made)
            if cache.payload_bytes + bytes ≤ limits.max_payload_bytes then
              (some made, {
                prefixes := cache.prefixes ++ [(key, made)]
                payload_bytes := cache.payload_bytes + bytes })
            else (some made, cache)
          else (some made, cache)

/-! ## A family and a scrape -/

/-- Why a family is not written. -/
inductive Stop (E : Type) where
  | use_standard
  | raised (e : E)

/-- `_header`. -/
def header (name kind documentation : Text) : Text :=
  let help_text := replace newline [backslash, .scalar 'n']
    (replace backslash [backslash, backslash] documentation)
  Text.ofString "# HELP " ++ name ++ Text.ofString " " ++ help_text ++ Text.ofString "\n# TYPE "
    ++ name ++ Text.ofString " " ++ kind ++ Text.ofString "\n"

/-- `output` and `extra` of the loop over the samples. -/
structure Lines where
  output : List Text
  extra : List (Text × List Text) := []

/-- `extra.setdefault(name, []).append(line)`, or `output.append(line)`. -/
def Lines.add (lines : Lines) (extra_names : List Text) (name line : Text) : Lines :=
  if name ∈ extra_names then
    let before := ((Keyed.lookup Prod.fst lines.extra name).map (·.2)).getD []
    { lines with extra := Keyed.upsert Prod.fst lines.extra (name, before ++ [line]) }
  else { lines with output := lines.output ++ [line] }

variable (lib : Installed V T E) (limits : Limits)

/-- One line, of a prefix and the sample. -/
def sample_line (text : Text) (sample : Sample V T) : Except E Text := do
  let timestamp ← match sample.timestamp with
    | none => Except.ok []
    | some t => lib.timestamp_text t
  let value ← lib.floatToGoString sample.value
  return text ++ value ++ timestamp ++ [newline]

/-- The loop over the samples of a family. -/
def sample_lines (extra_names : List Text) :
    Cache → Lines → List (Sample V T) → Except (Stop E) Lines × Cache
  | cache, lines, [] => (.ok lines, cache)
  | cache, lines, sample :: rest =>
      match prefix_of limits cache sample with
      | (none, cache) => (.error .use_standard, cache)
      | (some text, cache) =>
          match sample_line lib text sample with
          | .error e => (.error (.raised e), cache)
          | .ok line => sample_lines extra_names cache (lines.add extra_names sample.name line) rest

/-- `_family`. -/
def family (cache : Cache) (metric : Metric V T) : Except (Stop E) Text × Cache :=
  if metric.type ∉ [Text.ofString "counter", Text.ofString "gauge", Text.ofString "histogram"]
      ∨ METRIC_NAME.fullmatch metric.name = false then (.error .use_standard, cache)
  else
    let name := if metric.type = Text.ofString "counter" then metric.name ++ Text.ofString "_total"
      else metric.name
    let output := [header name metric.type metric.documentation]
    let extra_names := ["_created", "_gsum", "_gcount"].map (metric.name ++ Text.ofString ·)
    match sample_lines lib limits extra_names cache { output } metric.samples with
    | (.error e, cache) => (.error e, cache)
    | (.ok lines, cache) =>
        let sorted := lines.extra.insertionSort fun a b => a.1.map ord ≤ b.1.map ord
        let extra := sorted.flatMap fun (name, lines) =>
          header name (Text.ofString "gauge") metric.documentation :: lines
        (.ok (lines.output ++ extra).flatten, cache)

/-- The loop over the collected metrics. -/
def families (raises : Option E) : Cache → List (Metric V T) → Except E (List Text) × Cache
  | cache, [] =>
      match raises with
      | none => (.ok [], cache)
      | some e => (.error e, cache)
  | cache, metric :: rest =>
      let written := family lib limits cache metric
      let text : Except E Text := match written.1 with
        | .ok text => .ok text
        | .error .use_standard => lib.standard_family metric
        | .error (.raised e) => .error e
      match text with
      | .error e => (.error e, written.2)
      | .ok text =>
          match families raises written.2 rest with
          | (.error e, cache) => (.error e, cache)
          | (.ok texts, cache) => (.ok (text :: texts), cache)

/-- A scrape: the registry and the escaping asked for. -/
structure Scrape (V T E : Type) where
  registry : Collected V T E
  escaping : Text

/-- `__call__`. -/
def call (cache : Cache) (scrape : Scrape V T E) : Except E String × Cache :=
  if scrape.escaping ≠ Text.ofString "underscores" then
    (lib.generate_latest scrape.registry scrape.escaping, cache)
  else
    match families lib limits scrape.registry.raises cache scrape.registry.metrics with
    | (.error e, cache) => (.error e, cache)
    | (.ok output, cache) =>
        match Text.encode output.flatten with
        | none => (.error lib.UnicodeEncodeError, cache)
        | some bytes => (.ok bytes, cache)

/-- The answers to a sequence of scrapes, and the cache they leave. -/
def scrapes : Cache → List (Scrape V T E) → List (Except E String) × Cache
  | cache, [] => ([], cache)
  | cache, scrape :: rest =>
      let answer := call lib limits cache scrape
      let later := scrapes answer.2 rest
      (answer.1 :: later.1, later.2)

/-! ## What the cache holds -/

/-- What every sample leaves: the cached texts are what `_make_prefix` makes, they are
within both limits, and their bytes are counted. -/
structure Kept (limits : Limits) (cache : Cache) : Prop where
  made : ∀ entry ∈ cache.prefixes, make_prefix_of entry.1 = some entry.2
  few : cache.prefixes.length ≤ limits.max_entries
  counted : cache.payload_bytes = (cache.prefixes.map size).sum
  bounded : cache.payload_bytes ≤ limits.max_payload_bytes

theorem kept_empty (limits : Limits) : Kept limits {} where
  made := by simp
  few := Nat.zero_le _
  counted := rfl
  bounded := Nat.zero_le _

variable {limits}

/-- **The cache is not seen in the prefix**, and one sample keeps it in bounds. -/
theorem prefix_of_spec {cache : Cache} (h : Kept limits cache) (sample : Sample V T) :
    (prefix_of limits cache sample).1 = make_prefix_of (sample_key sample)
      ∧ Kept limits (prefix_of limits cache sample).2 := by
  rw [prefix_of]
  dsimp only
  rcases hcached : Keyed.lookup Prod.fst cache.prefixes (sample_key sample) with _ | ⟨key, cached⟩
  · rcases hmade : make_prefix_of (sample_key sample) with _ | made
    · exact ⟨rfl, h⟩
    · by_cases hroom : cache.prefixes.length < limits.max_entries
      · by_cases hbytes : cache.payload_bytes + size (sample_key sample, made)
            ≤ limits.max_payload_bytes
        · simp only [if_pos hroom, if_pos hbytes]
          refine ⟨trivial, ?_, ?_, ?_, hbytes⟩
          · intro entry hentry
            rcases List.mem_append.mp hentry with hentry | hentry
            · exact h.made entry hentry
            · rw [List.mem_singleton.mp hentry]
              exact hmade
          · rw [List.length_append, List.length_singleton]
            exact hroom
          · rw [List.map_append, List.sum_append, h.counted]
            simp
        · simp only [if_pos hroom, if_neg hbytes]
          exact ⟨trivial, h⟩
      · simp only [if_neg hroom]
        exact ⟨trivial, h⟩
  · -- what is found under the key was made from the key
    have hkey : key = sample_key sample := Keyed.key_of_lookup Prod.fst hcached
    have hmade := h.made _ (Keyed.mem_of_lookup hcached)
    rw [hkey] at hmade
    exact ⟨hmade.symm, h⟩

/-- The cache after some samples. -/
def cache_after (limits : Limits) (visited : List (Sample V T)) : Cache :=
  visited.foldl (fun cache sample => (prefix_of limits cache sample).2) {}

theorem kept_after (visited : List (Sample V T)) : Kept limits (cache_after limits visited) := by
  induction visited using List.reverseRecOn with
  | nil => exact kept_empty limits
  | append_singleton visited sample ih =>
      rw [cache_after, List.foldl_append]
      exact (prefix_of_spec ih sample).2

/-! ## Two caches, one answer

At every level: from two caches that hold what they should, the same result comes out, and
both are left as after some more samples. -/

/-- The cache is the one after some samples. -/
def Reached (V T : Type) (limits : Limits) (cache : Cache) : Prop :=
  ∃ visited : List (Sample V T), cache = cache_after limits visited

theorem Reached.kept {cache : Cache} (h : Reached V T limits cache) : Kept limits cache := by
  obtain ⟨visited, rfl⟩ := h
  exact kept_after visited

theorem Reached.prefix_of {cache : Cache} (h : Reached V T limits cache) (sample : Sample V T) :
    Reached V T limits (prefix_of limits cache sample).2 := by
  obtain ⟨visited, rfl⟩ := h
  exact ⟨visited ++ [sample], by rw [cache_after, cache_after, List.foldl_append]; rfl⟩

variable {lib} {limits' : Limits} {c c' : Cache}

theorem prefix_of_eq (h : Reached V T limits c) (h' : Reached V T limits' c') (sample : Sample V T) :
    (prefix_of limits c sample).1 = (prefix_of limits' c' sample).1 := by
  rw [(prefix_of_spec h.kept sample).1, (prefix_of_spec h'.kept sample).1]

theorem sample_lines_eq (extra_names : List Text) (samples : List (Sample V T)) :
    ∀ {c c' : Cache} (lines : Lines), Reached V T limits c → Reached V T limits' c' →
      (sample_lines lib limits extra_names c lines samples).1
          = (sample_lines lib limits' extra_names c' lines samples).1
        ∧ Reached V T limits (sample_lines lib limits extra_names c lines samples).2
        ∧ Reached V T limits' (sample_lines lib limits' extra_names c' lines samples).2 := by
  induction samples with
  | nil => exact fun _ h h' => ⟨rfl, h, h'⟩
  | cons sample rest ih =>
      intro c c' lines h h'
      have hsame := prefix_of_eq h h' sample
      have hnext := h.prefix_of sample
      have hnext' := h'.prefix_of sample
      rw [sample_lines, sample_lines]
      rcases hrun : prefix_of limits c sample with ⟨text, d⟩
      rcases hrun' : prefix_of limits' c' sample with ⟨text', d'⟩
      rw [hrun, hrun'] at hsame
      rw [hrun] at hnext
      rw [hrun'] at hnext'
      obtain rfl : text = text' := hsame
      rcases text with _ | text
      · exact ⟨rfl, hnext, hnext'⟩
      · dsimp only
        rcases sample_line lib text sample with e | line
        · exact ⟨rfl, hnext, hnext'⟩
        · exact ih _ hnext hnext'

theorem family_eq (h : Reached V T limits c) (h' : Reached V T limits' c') (metric : Metric V T) :
    (family lib limits c metric).1 = (family lib limits' c' metric).1
      ∧ Reached V T limits (family lib limits c metric).2
      ∧ Reached V T limits' (family lib limits' c' metric).2 := by
  rw [family, family]
  by_cases hstandard : metric.type ∉ [Text.ofString "counter", Text.ofString "gauge",
      Text.ofString "histogram"] ∨ METRIC_NAME.fullmatch metric.name = false
  · rw [if_pos hstandard, if_pos hstandard]
    exact ⟨rfl, h, h'⟩
  · rw [if_neg hstandard, if_neg hstandard]
    dsimp only
    obtain ⟨hsame, hleft, hleft'⟩ := @sample_lines_eq V T E lib limits limits'
      (["_created", "_gsum", "_gcount"].map (metric.name ++ Text.ofString ·)) metric.samples _ _
      { output := [header (if metric.type = Text.ofString "counter"
          then metric.name ++ Text.ofString "_total" else metric.name) metric.type
          metric.documentation] } h h'
    revert hsame hleft hleft'
    generalize sample_lines lib limits _ c _ metric.samples = run
    generalize sample_lines lib limits' _ c' _ metric.samples = run'
    intro hsame hleft hleft'
    obtain ⟨out, d⟩ := run
    obtain ⟨out', d'⟩ := run'
    obtain rfl : out = out' := hsame
    rcases out with e | lines
    · exact ⟨rfl, hleft, hleft'⟩
    · exact ⟨rfl, hleft, hleft'⟩

theorem families_eq (raises : Option E) (metrics : List (Metric V T)) :
    ∀ {c c' : Cache}, Reached V T limits c → Reached V T limits' c' →
      (families lib limits raises c metrics).1 = (families lib limits' raises c' metrics).1
        ∧ Reached V T limits (families lib limits raises c metrics).2
        ∧ Reached V T limits' (families lib limits' raises c' metrics).2 := by
  induction metrics with
  | nil =>
      intro c c' h h'
      rcases raises with _ | e
      · exact ⟨rfl, h, h'⟩
      · exact ⟨rfl, h, h'⟩
  | cons metric rest ih =>
      intro c c' h h'
      obtain ⟨hsame, hnext, hnext'⟩ := family_eq h h' metric
      rw [families, families]
      rw [← hsame]
      split
      · exact ⟨rfl, hnext, hnext'⟩
      · obtain ⟨hrest, hlast, hlast'⟩ := ih hnext hnext'
        revert hrest hlast hlast'
        generalize families lib limits raises (family lib limits c metric).2 rest = run
        generalize families lib limits' raises (family lib limits' c' metric).2 rest = run'
        intro hrest hlast hlast'
        obtain ⟨out, d⟩ := run
        obtain ⟨out', d'⟩ := run'
        obtain rfl : out = out' := hrest
        rcases out with e | texts
        · exact ⟨rfl, hlast, hlast'⟩
        · exact ⟨rfl, hlast, hlast'⟩

theorem call_eq (h : Reached V T limits c) (h' : Reached V T limits' c') (scrape : Scrape V T E) :
    (call lib limits c scrape).1 = (call lib limits' c' scrape).1
      ∧ Reached V T limits (call lib limits c scrape).2
      ∧ Reached V T limits' (call lib limits' c' scrape).2 := by
  rw [call, call]
  by_cases hescaping : scrape.escaping ≠ Text.ofString "underscores"
  · rw [if_pos hescaping, if_pos hescaping]
    exact ⟨rfl, h, h'⟩
  · rw [if_neg hescaping, if_neg hescaping]
    obtain ⟨hsame, hleft, hleft'⟩ :=
      families_eq scrape.registry.raises scrape.registry.metrics h h'
    revert hsame hleft hleft'
    generalize families lib limits scrape.registry.raises c scrape.registry.metrics = run
    generalize families lib limits' scrape.registry.raises c' scrape.registry.metrics = run'
    intro hsame hleft hleft'
    obtain ⟨out, d⟩ := run
    obtain ⟨out', d'⟩ := run'
    obtain rfl : out = out' := hsame
    rcases out with e | output
    · exact ⟨rfl, hleft, hleft'⟩
    · rcases hbytes : Text.encode output.flatten with _ | bytes
      · simp only [hbytes]
        exact ⟨trivial, hleft, hleft'⟩
      · simp only [hbytes]
        exact ⟨trivial, hleft, hleft'⟩

theorem scrapes_eq (runs : List (Scrape V T E)) :
    ∀ {c c' : Cache}, Reached V T limits c → Reached V T limits' c' →
      (scrapes lib limits c runs).1 = (scrapes lib limits' c' runs).1
        ∧ Reached V T limits (scrapes lib limits c runs).2 := by
  induction runs with
  | nil => exact fun h _ => ⟨rfl, h⟩
  | cons scrape rest ih =>
      intro c c' h h'
      obtain ⟨hsame, hnext, hnext'⟩ := call_eq h h' scrape
      obtain ⟨hrest, hlast⟩ := ih hnext hnext'
      rw [scrapes, scrapes]
      exact ⟨congrArg₂ List.cons hsame hrest, hlast⟩

/-! ## No two keys have one prefix -/

/-- What one character of a label value becomes. -/
def escaped (c : CodePoint) : Text :=
  if c = backslash then [backslash, backslash]
  else if c = newline then [backslash, .scalar 'n']
  else if c = quote then [backslash, quote]
  else [c]

/-- The replacements do not get at what the earlier ones put in. -/
theorem escape_eq (value : Text) : escape value = value.flatMap escaped := by
  rw [escape, replace, replace, replace, List.flatMap_assoc, List.flatMap_assoc]
  refine List.flatMap_congr fun c _ => ?_
  rw [escaped]
  by_cases hb : c = backslash
  · subst hb
    decide
  · by_cases hn : c = newline
    · subst hn
      decide
    · by_cases hq : c = quote
      · subst hq
        decide
      · simp [hb, hn, hq]

/-- An escaped character is read back whatever follows it, and is not a closing quote. -/
theorem escaped_unique {c d : CodePoint} {x y : Text} (h : escaped c ++ x = escaped d ++ y) :
    c = d ∧ x = y := by
  have hbn : backslash ≠ newline := by decide
  have hbq : backslash ≠ quote := by decide
  have hnq : newline ≠ quote := by decide
  rw [escaped, escaped] at h
  by_cases hc : c = backslash ∨ c = newline ∨ c = quote
  · by_cases hd : d = backslash ∨ d = newline ∨ d = quote
    · rcases hc with rfl | rfl | rfl <;> rcases hd with rfl | rfl | rfl <;>
        simp_all [backslash, newline, quote]
    · -- a backslash is never left alone
      simp only [not_or] at hd
      rcases hc with rfl | rfl | rfl <;> simp_all [backslash, newline, quote]
  · simp only [not_or] at hc
    by_cases hd : d = backslash ∨ d = newline ∨ d = quote
    · rcases hd with rfl | rfl | rfl <;> simp_all [backslash, newline, quote]
    · simp only [not_or] at hd
      simpa [hc, hd] using h

theorem escaped_ne_quote (c : CodePoint) (x y : Text) : escaped c ++ x ≠ quote :: y := by
  intro h
  rw [escaped] at h
  by_cases hb : c = backslash
  · simp [hb, backslash, quote] at h
  · by_cases hn : c = newline
    · simp [hn, newline, backslash, quote] at h
    · by_cases hq : c = quote
      · simp [hq, newline, backslash, quote] at h
      · simp only [hb, hn, hq, if_false, List.cons_append, List.nil_append, List.cons.injEq] at h
        exact h.1

/-- A value ends at the first quote that is not escaped. -/
theorem escape_unique {v : Text} : ∀ {w x y : Text},
    escape v ++ quote :: x = escape w ++ quote :: y → v = w ∧ x = y := by
  simp only [escape_eq]
  induction v with
  | nil =>
      intro w x y h
      rcases w with _ | ⟨d, w⟩
      · exact ⟨rfl, (List.cons.inj h).2⟩
      · rw [List.flatMap_nil, List.nil_append, List.flatMap_cons, List.append_assoc] at h
        exact absurd h.symm (escaped_ne_quote d _ x)
  | cons c v ih =>
      intro w x y h
      rcases w with _ | ⟨d, w⟩
      · rw [List.flatMap_nil, List.nil_append, List.flatMap_cons, List.append_assoc] at h
        exact absurd h (escaped_ne_quote c _ y)
      · rw [List.flatMap_cons, List.flatMap_cons, List.append_assoc, List.append_assoc] at h
        obtain ⟨rfl, htail⟩ := escaped_unique h
        obtain ⟨rfl, hrest⟩ := ih htail
        exact ⟨rfl, hrest⟩

theorem metric_chars {name : Text} (h : METRIC_NAME.fullmatch name = true) :
    ∀ c ∈ name, metric_char c = true := by
  obtain ⟨c, rest, hc, hrest, rfl⟩ :=
    Regex.mem_seq_char.mp ((Regex.fullmatch_iff METRIC_NAME name).mp h)
  rw [List.forall_mem_cons]
  refine ⟨?_, Regex.mem_star_char.mp hrest⟩
  rcases c with c | n
  · simp only [metric_start, metric_char, Char.isAlphanum, Bool.or_eq_true] at hc ⊢
    tauto
  · cases hc

theorem label_chars {name : Text} (h : LABEL_NAME.fullmatch name = true) :
    ∀ c ∈ name, label_char c = true := by
  obtain ⟨c, rest, hc, hrest, rfl⟩ :=
    Regex.mem_seq_char.mp ((Regex.fullmatch_iff LABEL_NAME name).mp h)
  rw [List.forall_mem_cons]
  refine ⟨?_, Regex.mem_star_char.mp hrest⟩
  rcases c with c | n
  · simp only [label_start, label_char, Char.isAlphanum, Bool.or_eq_true] at hc ⊢
    tauto
  · cases hc

/-- One label with what follows it. -/
theorem label_unique {p q : Text × Text} {x y : Text} (hp : LABEL_NAME.fullmatch p.1 = true)
    (hq : LABEL_NAME.fullmatch q.1 = true) (h : label_text p ++ x = label_text q ++ y) :
    p = q ∧ x = y := by
  have hsplit : p.1 ++ .scalar '=' :: (quote :: (escape p.2 ++ quote :: x))
      = q.1 ++ .scalar '=' :: (quote :: (escape q.2 ++ quote :: y)) := by
    simpa [label_text] using h
  obtain ⟨hname, -, hvalue⟩ := append_cons_unique (label_chars hp) (label_chars hq) (by decide)
    (by decide) hsplit
  obtain ⟨hvalue, hrest⟩ := escape_unique (List.cons.inj hvalue).2
  exact ⟨Prod.ext hname hvalue, hrest⟩

/-- The labels between the braces. -/
theorem labels_unique (l : List (Text × Text)) :
    ∀ {p q : Text × Text} {m : List (Text × Text)} {x y : Text},
      (∀ r ∈ p :: l, LABEL_NAME.fullmatch r.1 = true) →
      (∀ r ∈ q :: m, LABEL_NAME.fullmatch r.1 = true) →
      [CodePoint.scalar ','].intercalate ((p :: l).map label_text) ++ .scalar '\x7d' :: x
        = [CodePoint.scalar ','].intercalate ((q :: m).map label_text) ++ .scalar '\x7d' :: y →
      p :: l = q :: m := by
  -- the last label is followed by a brace, any other one by a comma
  have hone : ∀ (p : Text × Text) (x : Text),
      [CodePoint.scalar ','].intercalate ([p].map label_text) ++ .scalar '\x7d' :: x
        = label_text p ++ .scalar '\x7d' :: x := by
    intro p x
    simp [List.intercalate]
  have hmore : ∀ (p p' : Text × Text) (l : List (Text × Text)) (x : Text),
      [CodePoint.scalar ','].intercalate ((p :: p' :: l).map label_text) ++ .scalar '\x7d' :: x
        = label_text p ++ .scalar ',' ::
          ([CodePoint.scalar ','].intercalate ((p' :: l).map label_text) ++ .scalar '\x7d' :: x) := by
    intro p p' l x
    simp [List.intercalate]
  induction l with
  | nil =>
      intro p q m x y hl hm h
      rcases m with _ | ⟨q', m⟩
      · rw [hone, hone] at h
        obtain ⟨rfl, -⟩ := label_unique (hl p List.mem_cons_self) (hm q List.mem_cons_self) h
        rfl
      · rw [hone, hmore] at h
        obtain ⟨-, htail⟩ := label_unique (hl p List.mem_cons_self) (hm q List.mem_cons_self) h
        exact absurd (List.cons.inj htail).1 (by decide)
  | cons p' l ih =>
      intro p q m x y hl hm h
      rcases m with _ | ⟨q', m⟩
      · rw [hone, hmore] at h
        obtain ⟨-, htail⟩ := label_unique (hl p List.mem_cons_self) (hm q List.mem_cons_self) h
        exact absurd (List.cons.inj htail).1 (by decide)
      · rw [hmore, hmore] at h
        obtain ⟨rfl, htail⟩ := label_unique (hl p List.mem_cons_self) (hm q List.mem_cons_self) h
        rw [ih (fun r hr => hl r (List.mem_cons_of_mem _ hr))
          (fun r hr => hm r (List.mem_cons_of_mem _ hr)) (List.cons.inj htail).2]

/-- The parts of a prefix. -/
theorem make_prefix_eq {name : Text} {labels : List (Text × Text)} {text : Text}
    (h : make_prefix_of (name, labels) = some text) :
    (∀ c ∈ name, metric_char c = true) ∧ (∀ r ∈ labels, LABEL_NAME.fullmatch r.1 = true)
      ∧ text = name ++ (if labels = [] then [.scalar ' ']
        else .scalar '\x7b' :: ([CodePoint.scalar ','].intercalate (labels.map label_text)
          ++ .scalar '\x7d' :: [.scalar ' '])) := by
  rw [make_prefix_of] at h
  dsimp only at h
  by_cases hname : METRIC_NAME.fullmatch name = true
  · by_cases hlabels : labels.all (fun pair => LABEL_NAME.fullmatch pair.1) = true
    · simp only [hname, hlabels, Bool.not_true, Bool.false_eq_true, if_false, Option.some.injEq] at h
      refine ⟨metric_chars hname, List.all_eq_true.mp hlabels, ?_⟩
      rw [← h]
      by_cases hnil : labels = []
      · simp [hnil]
      · simp [hnil]
    · simp [hname, hlabels] at h
  · simp [hname] at h

/-- **A prefix belongs to one key.** -/
theorem make_prefix_unique {key key' : PrefixKey} {text : Text} (h : make_prefix_of key = some text)
    (h' : make_prefix_of key' = some text) : key = key' := by
  obtain ⟨name, labels⟩ := key
  obtain ⟨name', labels'⟩ := key'
  obtain ⟨hname, hlabels, rfl⟩ := make_prefix_eq h
  obtain ⟨hname', hlabels', heq⟩ := make_prefix_eq h'
  have hbrace : metric_char (.scalar '\x7b') = false := by decide
  have hspace : metric_char (.scalar ' ') = false := by decide
  rcases labels with _ | ⟨p, labels⟩
  · rcases labels' with _ | ⟨q, labels'⟩
    · obtain ⟨rfl, -⟩ := append_cons_unique hname hname' hspace hspace heq
      rfl
    · obtain ⟨-, hmark, -⟩ := append_cons_unique hname hname' hspace hbrace heq
      exact absurd hmark (by decide)
  · rcases labels' with _ | ⟨q, labels'⟩
    · obtain ⟨-, hmark, -⟩ := append_cons_unique hname hname' hbrace hspace heq
      exact absurd hmark (by decide)
    · obtain ⟨rfl, -, hrest⟩ := append_cons_unique hname hname' hbrace hbrace heq
      rw [labels_unique labels hlabels hlabels' hrest]

/-! ## The result -/

variable (lib) (limits) in
/-- **The cache is invisible and bounded.** Whatever the limits, a sequence of scrapes
answers what it answers with no entries allowed. After any samples, so at every moment of
every run, the cache is within both limits and `_payload_bytes` is the size of what it
retains. And samples of one prefix have one name and the same labels, whatever was cached
when either was written. -/
theorem cached_exporter_spec (runs : List (Scrape V T E)) :
    (∀ max_payload_bytes, (scrapes lib limits {} runs).1
        = (scrapes lib ⟨0, max_payload_bytes⟩ {} runs).1)
      ∧ Reached V T limits (scrapes lib limits {} runs).2
      ∧ (∀ visited : List (Sample V T),
        (cache_after limits visited).prefixes.length ≤ limits.max_entries
          ∧ (cache_after limits visited).payload_bytes
            = ((cache_after limits visited).prefixes.map size).sum
          ∧ (cache_after limits visited).payload_bytes ≤ limits.max_payload_bytes)
      ∧ ∀ (visited visited' : List (Sample V T)) (a b : Sample V T) (text : Text),
        (prefix_of limits (cache_after limits visited) a).1 = some text →
        (prefix_of limits (cache_after limits visited') b).1 = some text →
        a.name = b.name ∧ ∀ pair, pair ∈ a.labels ↔ pair ∈ b.labels := by
  have hempty : Reached V T limits {} := ⟨[], rfl⟩
  refine ⟨?_, ?_, ?_, ?_⟩
  · exact fun _ => (scrapes_eq runs hempty ⟨[], rfl⟩).1
  · exact (scrapes_eq runs hempty hempty).2
  · intro visited
    have hkept : Kept limits (cache_after limits visited) := kept_after visited
    exact ⟨hkept.few, hkept.counted, hkept.bounded⟩
  · intro visited visited' a b text ha hb
    rw [(prefix_of_spec (kept_after visited) a).1] at ha
    rw [(prefix_of_spec (kept_after visited') b).1] at hb
    obtain ⟨hname, hlabels⟩ := Prod.mk.inj (make_prefix_unique ha hb)
    refine ⟨hname, fun pair => ?_⟩
    rw [← List.mem_insertionSort (r := fun a b => pair_le a b = true), ← sorted_items, hlabels,
      sorted_items, List.mem_insertionSort]

end OpenChronicle.CachedExporter
