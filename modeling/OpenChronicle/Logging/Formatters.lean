/-
`_RedactingFormatter` and `_JsonFormatter`.

A record comes with what `logging` makes of it: the message with its arguments, the rendered traceback
with every chained exception in it, and the attributes of the record, among them those of `extra`. The
first formatter redacts the line it has put together. The second redacts strings before they are
encoded, and looks for them at the top of each attribute only; what stands in a list or a dictionary is
encoded as it is.

The encoded text is not modelled, only which strings are in it. `strings` collects them, keys included,
from wherever they sit, and `refusal` says when `json.dumps` raises instead. A `TypeError`, for a value
or a key that it does not take, is caught, and the `repr` is written. The `ValueError` of a value that
contains itself is not, and then there is no line; nor is there one where the keys of a dictionary
cannot be sorted.
-/
import OpenChronicle.Lib.Keyed
import OpenChronicle.Logging.Redaction

set_option autoImplicit false

namespace OpenChronicle.Logging

open PyStr Redaction

/-! ## Values -/

/-- A key of a dictionary, as `json` sees it. A number, a bool or `None` becomes a text
without a colon. -/
inductive Key where
  | str (s : Text)
  | number
  | none
  /-- `json` does not take it. -/
  | object
  deriving DecidableEq, Repr

/-- The value of an attribute, as `json` sees it; a tuple is a list. -/
inductive PyValue where
  | none
  | bool (b : Bool)
  | int (n : ℤ)
  | float
  | str (s : Text)
  | list (items : List PyValue)
  | dict (fields : List (Key × PyValue))
  /-- An object that `json` cannot encode. -/
  | object (type_name : Text)
  /-- A value that is its own part, or nests too deep. -/
  | cycle

/-- What `json.dumps` raises. -/
inductive Refusal where
  | TypeError
  | ValueError
  deriving DecidableEq, Repr

/-- A key of any other type is a `TypeError`. -/
def Key.refusal : Key → Option Refusal
  | object => some .TypeError
  | _ => Option.none

def Key.is_str : Key → Bool
  | str _ => true
  | _ => false

def Key.strings : Key → List Text
  | str s => [s]
  | _ => []

namespace PyValue

mutual

/-- What `json.dumps(value)` raises: the first that is met. -/
def refusal : PyValue → Option Refusal
  | list items => refusal_items items
  | dict fields => refusal_fields fields
  | object _ => some .TypeError
  | cycle => some .ValueError
  | _ => Option.none

/-- The items of a list, in order. -/
def refusal_items : List PyValue → Option Refusal
  | [] => Option.none
  | v :: rest => v.refusal <|> refusal_items rest

/-- A key, then its value, one after the other. -/
def refusal_fields : List (Key × PyValue) → Option Refusal
  | [] => Option.none
  | (k, v) :: rest => k.refusal <|> v.refusal <|> refusal_fields rest

end

mutual

/-- The strings of a value, keys included, wherever they sit. -/
def strings : PyValue → List Text
  | str s => [s]
  | list items => strings_items items
  | dict fields => strings_fields fields
  | _ => []

def strings_items : List PyValue → List Text
  | [] => []
  | v :: rest => v.strings ++ strings_items rest

def strings_fields : List (Key × PyValue) → List Text
  | [] => []
  | (k, v) :: rest => k.strings ++ v.strings ++ strings_fields rest

end

/-- Keys that can be compared: strings with strings, numbers with numbers. -/
def keys_sort (keys : List Key) : Bool :=
  keys.length ≤ 1 || keys.all Key.is_str || keys.all (· = .number)

mutual

/-- `sort_keys=True` goes through. -/
def sortable : PyValue → Bool
  | list items => sortable_items items
  | dict fields => keys_sort (fields.map (·.1)) && sortable_fields fields
  | _ => true

def sortable_items : List PyValue → Bool
  | [] => true
  | v :: rest => v.sortable && sortable_items rest

def sortable_fields : List (Key × PyValue) → Bool
  | [] => true
  | (_, v) :: rest => v.sortable && sortable_fields rest

end

end PyValue

/-! ## Records -/

/-- A record, with what `logging` renders of it. `getMessage` is `none` where the arguments
do not fit the message. -/
structure LogRecord where
  levelname : Text
  name : Text
  /-- `formatTime`, by the format of either formatter. -/
  asctime : Text
  ts : Text
  getMessage : Option Text
  /-- `formatException(record.exc_info)`, where there is an exception. -/
  exc_info : Option Text
  /-- The traceback another formatter has left on the record. -/
  exc_text : Text
  stack_info : Text
  /-- `record.__dict__.items()`. -/
  attributes : List (Text × PyValue)
  names_nodup : (attributes.map (·.1)).Nodup

/-- What stands between a line and the block below it. -/
def newline : CodePoint := .scalar '\n'

/-- `f"{s:<7}"`. -/
def ljust7 (s : Text) : Text := s ++ List.replicate (7 - s.length) (.scalar ' ')

/-- A block on lines of its own; an empty one is left out. -/
def add_block (s block : Text) : Text :=
  if block = [] then s
  else if s.getLast? = some newline then s ++ block
  else s ++ [newline] ++ block

/-- `logging.Formatter.format` with
`"%(asctime)s %(levelname)-7s %(name)s: %(message)s"`. -/
def Formatter_format (r : LogRecord) : Option Text :=
  r.getMessage.map fun message =>
    let s := r.asctime ++ Text.ofString " " ++ ljust7 r.levelname ++ Text.ofString " " ++ r.name
      ++ Text.ofString ": " ++ message
    let exc_text := if r.exc_text = [] then r.exc_info.getD [] else r.exc_text
    add_block (add_block s exc_text) r.stack_info

/-- `_RedactingFormatter.format`. -/
def RedactingFormatter_format (r : LogRecord) : Option Text :=
  (Formatter_format r).map redact_userinfo_in_text

/-- `_JsonFormatter._STANDARD_KEYS`. -/
def STANDARD_KEYS : List Text :=
  ["args", "asctime", "created", "exc_info", "exc_text", "filename", "funcName", "levelname",
    "levelno", "lineno", "message", "module", "msecs", "msg", "name", "pathname", "process",
    "processName", "relativeCreated", "stack_info", "taskName", "thread", "threadName"].map
    Text.ofString

/-- The attributes that the loop does not pass over. -/
def is_extra (key : Text) : Bool := !(key ∈ STANDARD_KEYS || key.head? = some (.scalar '_'))

abbrev Payload := List (Text × PyValue)

/-- `payload[key] = value`. -/
def assign (payload : Payload) (key : Text) (value : PyValue) : Payload :=
  Keyed.upsert (·.1) payload (key, value)

variable (repr : PyValue → Text)

/-- `redact_userinfo_in_text(value) if isinstance(value, str) else value`. -/
def redact_str : PyValue → PyValue
  | .str s => .str (redact_userinfo_in_text s)
  | value => value

/-- What the loop makes of a value; `none` is an exception other than `TypeError`. -/
def payload_value (value : PyValue) : Option PyValue :=
  match value.refusal with
  | none => some (redact_str value)
  | some .TypeError => some (redact_str (.str (repr value)))
  | some .ValueError => none

/-- The loop over the attributes. -/
def add_extras : List (Text × PyValue) → Payload → Option Payload
  | [], payload => some payload
  | (key, value) :: rest, payload =>
      if is_extra key then
        match payload_value repr value with
        | none => none
        | some value => add_extras rest (assign payload key value)
      else add_extras rest payload

/-- The payload before the loop. -/
def base_payload (r : LogRecord) (message : Text) : Payload :=
  let payload : Payload := [(Text.ofString "ts", .str r.ts), (Text.ofString "level", .str r.levelname),
    (Text.ofString "logger", .str r.name),
    (Text.ofString "message", .str (redact_userinfo_in_text message))]
  match r.exc_info with
  | none => payload
  | some exc => assign payload (Text.ofString "exc") (.str (redact_userinfo_in_text exc))

/-- `_JsonFormatter.format`: the fields of the JSON object, in any order. `none` is an
exception, and then nothing is written. -/
def JsonFormatter_format (r : LogRecord) : Option Payload :=
  match r.getMessage with
  | none => none
  | some message =>
      match add_extras repr r.attributes (base_payload r message) with
      | none => none
      | some payload => if payload.all (·.2.sortable) then some payload else none

/-! ## What reaches the payload -/

section Payload

variable {repr : PyValue → Text} {r : LogRecord}

/-- The strings of a value that the formatter does not look at: those below its top. -/
def nested : PyValue → List Text
  | .str _ => []
  | value => value.strings

theorem redact_str_cases (value : PyValue) :
    (∃ t, value = .str t ∧ redact_str value = .str (redact_userinfo_in_text t))
      ∨ (redact_str value = value ∧ nested value = value.strings) := by
  cases value with
  | str t => exact .inl ⟨t, rfl, rfl⟩
  | none | bool | int | float | list | dict | object | cycle => exact .inr ⟨rfl, rfl⟩

/-- Every string of what the loop emits was redacted, or was nested in a value `json` takes. -/
theorem payload_value_strings {value emitted : PyValue}
    (h : payload_value repr value = some emitted) {s : Text} (hs : s ∈ emitted.strings) :
    ¬ Exposed s ∨ (value.refusal = none ∧ s ∈ nested value) := by
  have hredacted : ∀ t : Text, s ∈ (PyValue.str (redact_userinfo_in_text t)).strings → ¬ Exposed s := by
    intro t ht
    rw [PyValue.strings, List.mem_singleton] at ht
    rw [ht]
    exact redact_not_exposed t
  rcases hrefusal : value.refusal with _ | (_ | _)
  · simp only [payload_value, hrefusal, Option.some.injEq] at h
    subst h
    rcases redact_str_cases value with ⟨t, -, ht⟩ | ⟨hsame, hnested⟩
    · rw [ht] at hs
      exact .inl (hredacted t hs)
    · rw [hsame, ← hnested] at hs
      exact .inr ⟨rfl, hs⟩
  · simp only [payload_value, hrefusal, Option.some.injEq] at h
    subst h
    exact .inl (hredacted _ hs)
  · simp only [payload_value, hrefusal] at h
    cases h

/-- A nested string is emitted as it is. -/
theorem payload_value_nested {value : PyValue} (hrefusal : value.refusal = none) {s : Text}
    (hs : s ∈ nested value) : payload_value repr value = some value ∧ s ∈ value.strings := by
  simp only [payload_value, hrefusal]
  rcases redact_str_cases value with ⟨t, rfl, -⟩ | ⟨hsame, hnested⟩
  · cases hs
  · rw [hnested] at hs
    exact ⟨congrArg some hsame, hs⟩

theorem payload_value_eq_none_iff {value : PyValue} :
    payload_value repr value = none ↔ value.refusal = some .ValueError := by
  rcases hrefusal : value.refusal with _ | (_ | _)
  · simp [payload_value, hrefusal]
  · simp [payload_value, hrefusal]
  · simp [payload_value, hrefusal]

/-- The loop goes through exactly when no value of an extra is refused for good. -/
theorem add_extras_isSome (attributes : List (Text × PyValue)) : ∀ payload : Payload,
    (add_extras repr attributes payload).isSome
      ↔ ∀ kv ∈ attributes, is_extra kv.1 = true → kv.2.refusal ≠ some .ValueError := by
  induction attributes with
  | nil => simp [add_extras]
  | cons kv rest ih =>
      intro payload
      obtain ⟨key, value⟩ := kv
      rw [add_extras, List.forall_mem_cons]
      by_cases hkey : is_extra key = true
      · rw [if_pos hkey]
        rcases hv : payload_value repr value with _ | emitted
        · simp [hkey, payload_value_eq_none_iff.mp hv]
        · have hne : value.refusal ≠ some .ValueError := by
            intro h
            rw [payload_value_eq_none_iff.mpr h] at hv
            cases hv
          simp only [ih, hne, ne_eq, not_false_eq_true, implies_true, true_and]
      · rw [if_neg hkey, ih]
        simp [hkey]

/-- After the loop a field is an extra as emitted, or one from before that no extra has
taken the name of. -/
theorem mem_add_extras (attributes : List (Text × PyValue)) :
    ∀ {payload out : Payload}, (attributes.map (·.1)).Nodup →
      add_extras repr attributes payload = some out → ∀ (k : Text) (v : PyValue),
      ((k, v) ∈ out ↔
        (∃ value, (k, value) ∈ attributes ∧ is_extra k = true ∧ payload_value repr value = some v)
        ∨ ((k, v) ∈ payload ∧ ¬ (is_extra k = true ∧ k ∈ attributes.map (·.1)))) := by
  induction attributes with
  | nil =>
      intro payload out _ h k v
      obtain rfl := Option.some.inj h
      simp
  | cons kv rest ih =>
      intro payload out hnodup h k v
      obtain ⟨key, value⟩ := kv
      obtain ⟨hkey, hnodup⟩ := List.nodup_cons.mp hnodup
      rw [add_extras] at h
      by_cases hextra : is_extra key = true
      · rw [if_pos hextra] at h
        rcases hv : payload_value repr value with _ | emitted
        · rw [hv] at h
          cases h
        · rw [hv] at h
          rw [ih hnodup h k v, assign, Keyed.mem_upsert_iff]
          by_cases hk : k = key
          · -- the name is taken here, and by no later attribute
            subst hk
            have hlater : ∀ w, (k, w) ∉ rest := fun w hw => hkey (List.mem_map.mpr ⟨(k, w), hw, rfl⟩)
            simp only [List.mem_cons, Prod.mk.injEq, true_and, hlater, or_false, hextra,
              exists_eq_left, hv, Option.some.injEq, List.map_cons, and_self,
              not_true_eq_false, and_false, false_and, exists_false, false_or, hkey,
              not_false_eq_true, and_true, ne_eq]
            exact eq_comm
          · simp only [List.mem_cons, Prod.mk.injEq, hk, false_and, false_or, ne_eq,
              not_false_eq_true, and_true, List.map_cons]
      · rw [if_neg hextra] at h
        rw [ih hnodup h k v]
        by_cases hk : k = key
        · subst hk
          simp [hextra]
        · simp only [List.mem_cons, Prod.mk.injEq, hk, false_and, false_or, List.map_cons]

/-- Before the loop every field is a string, and the message and the traceback are redacted. -/
theorem base_payload_cases {message : Text} {k : Text} {v : PyValue}
    (h : (k, v) ∈ base_payload r message) :
    ∃ t, v = .str t ∧ (k = Text.ofString "message" ∨ k = Text.ofString "exc" →
      ∃ u, t = redact_userinfo_in_text u) := by
  have hfour : (k, v) ∈ ([(Text.ofString "ts", .str r.ts), (Text.ofString "level", .str r.levelname),
      (Text.ofString "logger", .str r.name),
      (Text.ofString "message", .str (redact_userinfo_in_text message))] : Payload) →
      ∃ t, v = .str t ∧ (k = Text.ofString "message" ∨ k = Text.ofString "exc" →
        ∃ u, t = redact_userinfo_in_text u) := by
    intro hmem
    simp only [List.mem_cons, Prod.mk.injEq, List.not_mem_nil, or_false] at hmem
    rcases hmem with ⟨rfl, rfl⟩ | ⟨rfl, rfl⟩ | ⟨rfl, rfl⟩ | ⟨-, rfl⟩
    · exact ⟨_, rfl, fun hk => absurd hk (by decide)⟩
    · exact ⟨_, rfl, fun hk => absurd hk (by decide)⟩
    · exact ⟨_, rfl, fun hk => absurd hk (by decide)⟩
    · exact ⟨_, rfl, fun _ => ⟨message, rfl⟩⟩
  rcases hexc : r.exc_info with _ | exc
  · simp only [base_payload, hexc] at h
    exact hfour h
  · simp only [base_payload, hexc, assign] at h
    rcases Keyed.mem_upsert_iff.mp h with heq | ⟨hmem, -⟩
    · exact ⟨_, (Prod.mk.inj heq).2, fun _ => ⟨exc, rfl⟩⟩
    · exact hfour hmem

theorem json_format_iff {payload : Payload} :
    JsonFormatter_format repr r = some payload
      ↔ ∃ message, r.getMessage = some message
        ∧ add_extras repr r.attributes (base_payload r message) = some payload
        ∧ payload.all (·.2.sortable) = true := by
  rcases hmessage : r.getMessage with _ | message
  · simp [JsonFormatter_format, hmessage]
  · rcases hout : add_extras repr r.attributes (base_payload r message) with _ | out
    · simp [JsonFormatter_format, hmessage, hout]
    · by_cases hsort : out.all (·.2.sortable) = true
      · simp only [JsonFormatter_format, hmessage, hout, if_pos hsort, Option.some.injEq,
          exists_eq_left']
        constructor
        · rintro rfl
          exact ⟨rfl, hsort⟩
        · exact fun h => h.1
      · simp only [JsonFormatter_format, hmessage, hout, if_neg hsort, Option.some.injEq,
          exists_eq_left']
        refine iff_of_false (by simp) ?_
        rintro ⟨rfl, h⟩
        exact hsort h

/-- The fields sort when those of the extras that are emitted as they are do. -/
theorem payload_sortable_iff {payload : Payload} {message : Text}
    (hout : add_extras repr r.attributes (base_payload r message) = some payload) :
    payload.all (·.2.sortable) = true
      ↔ ∀ kv ∈ r.attributes, is_extra kv.1 = true → kv.2.refusal = none → kv.2.sortable = true := by
  have hmem := mem_add_extras r.attributes r.names_nodup hout
  rw [List.all_eq_true]
  constructor
  · rintro hall ⟨k, value⟩ hkv hextra hrefusal
    have hemit : payload_value repr value = some (redact_str value) := by
      simp only [payload_value, hrefusal]
    have hin := hall (k, redact_str value) ((hmem k _).mpr (.inl ⟨value, hkv, hextra, hemit⟩))
    rcases redact_str_cases value with ⟨t, rfl, -⟩ | ⟨hsame, -⟩
    · rfl
    · rwa [hsame] at hin
  · rintro hall ⟨k, v⟩ hkv
    rcases (hmem k v).mp hkv with ⟨value, hvalue, hextra, hemit⟩ | ⟨hbase, -⟩
    · rcases hrefusal : value.refusal with _ | (_ | _)
      · simp only [payload_value, hrefusal, Option.some.injEq] at hemit
        subst hemit
        rcases redact_str_cases value with ⟨t, -, ht⟩ | ⟨hsame, -⟩
        · rw [ht]
          rfl
        · rw [hsame]
          exact hall _ hvalue hextra hrefusal
      · simp only [payload_value, hrefusal, Option.some.injEq] at hemit
        subst hemit
        rfl
      · simp only [payload_value, hrefusal] at hemit
        cases hemit
    · obtain ⟨t, rfl, -⟩ := base_payload_cases hbase
      rfl

/-- The JSON formatter does not raise: the arguments fit the message, no extra holds a cycle,
and the keys of the dictionaries can be sorted. -/
def Formats (r : LogRecord) : Prop :=
  r.getMessage.isSome ∧ ∀ kv ∈ r.attributes, is_extra kv.1 = true →
    kv.2.refusal ≠ some .ValueError ∧ (kv.2.refusal = none → kv.2.sortable = true)

theorem formats_iff : (∃ payload, JsonFormatter_format repr r = some payload) ↔ Formats r := by
  simp only [json_format_iff]
  rw [Formats]
  constructor
  · rintro ⟨payload, message, hmessage, hout, hsort⟩
    have hloop := (add_extras_isSome r.attributes (base_payload r message)).mp
      (by rw [hout]; rfl)
    refine ⟨by rw [hmessage]; rfl, fun kv hkv hextra => ⟨hloop kv hkv hextra, ?_⟩⟩
    exact (payload_sortable_iff hout).mp hsort kv hkv hextra
  · rintro ⟨hmessage, hall⟩
    obtain ⟨message, hmessage⟩ := Option.isSome_iff_exists.mp hmessage
    obtain ⟨payload, hout⟩ := Option.isSome_iff_exists.mp
      ((add_extras_isSome r.attributes (base_payload r message)).mpr
        fun kv hkv hextra => (hall kv hkv hextra).1)
    refine ⟨payload, message, hmessage, hout, (payload_sortable_iff hout).mpr ?_⟩
    exact fun kv hkv hextra => (hall kv hkv hextra).2

end Payload

/-! ## The result -/

variable (repr : PyValue → Text)

/-- No userinfo reaches the log: neither the line of the one formatter nor a string in the
message, the exception or an extra of the other's object is exposed. -/
def NoUserinfo (r : LogRecord) : Prop :=
  (∀ line, RedactingFormatter_format r = some line → ¬ Exposed line)
    ∧ ∀ payload, JsonFormatter_format repr r = some payload → ∀ k v, (k, v) ∈ payload →
      (k = Text.ofString "message" ∨ k = Text.ofString "exc"
        ∨ (is_extra k = true ∧ k ∈ r.attributes.map (·.1))) →
      ∀ s ∈ v.strings, ¬ Exposed s

/-- **Exactly the strings below the top of an extra get past the formatters.** The line never
holds userinfo. The JSON object holds none exactly when no list and no dictionary among the
extras does, of those `json` can encode, unless nothing is written at all. The pass itself
leaves nothing to a second one, and nothing goes but userinfo after a scheme. -/
theorem no_userinfo_iff (r : LogRecord) :
    (NoUserinfo repr r
        ↔ (Formats r → ∀ kv ∈ r.attributes, is_extra kv.1 = true → kv.2.refusal = none →
          ∀ s ∈ nested kv.2, ¬ Exposed s))
      ∧ ∀ text, redact_userinfo_in_text (redact_userinfo_in_text text) = redact_userinfo_in_text text
        ∧ Cut text (redact_userinfo_in_text text) := by
  refine ⟨⟨?_, ?_⟩, fun text => ⟨redact_redact text, redact_cut text⟩⟩
  · rintro ⟨-, hjson⟩ hformats ⟨k, value⟩ hkv hextra hrefusal s hs
    obtain ⟨payload, hrun⟩ := (@formats_iff repr r).mpr hformats
    obtain ⟨message, -, hout, -⟩ := json_format_iff.mp hrun
    obtain ⟨hemit, hstrings⟩ := payload_value_nested hrefusal hs
    have hin := (mem_add_extras r.attributes r.names_nodup hout k value).mpr
      (.inl ⟨value, hkv, hextra, hemit⟩)
    exact hjson payload hrun k value hin (.inr (.inr ⟨hextra, List.mem_map.mpr ⟨_, hkv, rfl⟩⟩))
      s hstrings
  · intro hnested
    refine ⟨?_, ?_⟩
    · intro line hline
      obtain ⟨rendered, -, rfl⟩ := Option.map_eq_some_iff.mp hline
      exact redact_not_exposed rendered
    · intro payload hrun k v hkv hname s hs
      obtain ⟨message, -, hout, -⟩ := json_format_iff.mp hrun
      rcases (mem_add_extras r.attributes r.names_nodup hout k v).mp hkv with
        ⟨value, hvalue, hextra, hemit⟩ | ⟨hbase, hfree⟩
      · rcases payload_value_strings hemit hs with hclean | ⟨hrefusal, hin⟩
        · exact hclean
        · exact hnested (formats_iff.mp ⟨payload, hrun⟩) (k, value) hvalue hextra hrefusal s hin
      · -- a field from before the loop, so it is the message or the traceback
        obtain ⟨t, rfl, hredacted⟩ := base_payload_cases hbase
        have hk : k = Text.ofString "message" ∨ k = Text.ofString "exc" := by
          rcases hname with hk | hk | hk
          · exact .inl hk
          · exact .inr hk
          · exact absurd hk hfree
        obtain ⟨u, rfl⟩ := hredacted hk
        rw [PyValue.strings, List.mem_singleton] at hs
        rw [hs]
        exact redact_not_exposed u

/-- `logger.warning("x", extra={"urls": ["http://u:p@h"]})`. -/
def nested_url : LogRecord where
  levelname := Text.ofString "WARNING"
  name := Text.ofString "oc"
  asctime := []
  ts := []
  getMessage := some (Text.ofString "x")
  exc_info := none
  exc_text := []
  stack_info := []
  attributes := [(Text.ofString "urls", .list [.str (Text.ofString "http://u:p@h")])]
  names_nodup := by decide

/-- A string in a list is written with its credential. -/
theorem nested_url_reaches_the_log : ¬ NoUserinfo (fun _ => []) nested_url := by
  rintro ⟨-, hjson⟩
  have hrun : JsonFormatter_format (fun _ => []) nested_url
      = some (base_payload nested_url (Text.ofString "x") ++ nested_url.attributes) := by
    rw [json_format_iff]
    exact ⟨Text.ofString "x", rfl, rfl, rfl⟩
  have hclean := hjson _ hrun (Text.ofString "urls") (.list [.str (Text.ofString "http://u:p@h")])
    (List.mem_append_right _ List.mem_cons_self) (.inr (.inr (by decide)))
    (Text.ofString "http://u:p@h") (by decide)
  refine hclean ⟨[], Text.ofString "http://", Text.ofString "u:p@", Text.ofString "h", ?_, ?_, rfl⟩
  · exact ⟨.scalar 'h', Text.ofString "ttp", by decide, by decide, rfl⟩
  · exact ⟨Text.ofString "u:p", by decide, rfl⟩

end OpenChronicle.Logging
