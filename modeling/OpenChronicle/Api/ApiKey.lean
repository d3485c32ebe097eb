/-
Which requests carry the configured key.

A key is read from the environment or the file and stripped, as a text. What a client sends is stripped
too, when it comes with `Authorization`, but as bytes read in Latin-1. The two agree on every key but
those whose last character has the last byte 0x85 or 0xA0 in UTF-8: such a key is refused as a bearer
token, and accepted in `X-API-Key`, which is not stripped.

The comparison itself is one of bytes, and is not at fault. A header value is text to the framework, one
character for each byte, and the source encodes it back before it compares; so `Carries` speaks of bytes
and says for each request what they are. `Bearer` wins over the other header whenever the scheme is
there, even with nothing behind it, and then `X-API-Key` is not looked at.

The last result speaks of what a client has to send, so that it can be read without the definitions of
the middleware.
-/
import OpenChronicle.Api.Access

set_option autoImplicit false

namespace OpenChronicle.Access

open PyStr
open Config (Environ Builtins HTTPConfig)

/-! ## What a request carries -/

/-- The value of `Authorization` is a bearer token. -/
def Bearer (value : List UInt8) : Prop := Text.ofString "bearer " <+: Text.lower_latin1 (Text.of_latin1 value)

/-- The bytes that count as the key of a request. -/
def Carries (request : Request) (bytes : List UInt8) : Prop :=
  (∃ value, request.headers.lookup "authorization" = some value ∧ Bearer value ∧ strip_bytes (value.drop 7) = bytes)
    ∨ ((∀ value, request.headers.lookup "authorization" = some value → ¬ Bearer value)
      ∧ request.headers.lookup "x-api-key" = some bytes ∧ bytes ≠ [])

/-- A missing header is read as an empty one, which is no bearer token. -/
theorem not_bearer_nil : ¬ Text.ofString "bearer " <+: Text.lower_latin1 [] := by decide

/-- One character for each byte. -/
theorem of_latin1_ne_nil {bytes : List UInt8} : Text.of_latin1 bytes ≠ [] ↔ bytes ≠ [] :=
  not_congr List.map_eq_nil_iff

/-- So the bytes can be read back. -/
theorem of_latin1_injective : Function.Injective Text.of_latin1 := by
  intro a b hab
  have h := congrArg Text.encode_latin1 hab
  rw [encode_of_latin1, encode_of_latin1] at h
  exact Option.some.inj h

/-- `_extract_key` answers the bytes the request carries. -/
theorem extract_key_iff {request : Request} {key : Text} :
    extract_key request = some key ↔ ∃ bytes, Carries request bytes ∧ key = Text.of_latin1 bytes := by
  have hheader : ∀ bytes, (request.header "x-api-key").filter (· ≠ []) = some (Text.of_latin1 bytes)
      ↔ request.headers.lookup "x-api-key" = some bytes ∧ bytes ≠ [] := by
    intro bytes
    rw [Option.filter_eq_some_iff, Request.header, Option.map_eq_some_iff, decide_eq_true_eq, of_latin1_ne_nil]
    refine and_congr_left fun _ => ⟨?_, fun h => ⟨bytes, h, rfl⟩⟩
    rintro ⟨value, hvalue, heq⟩
    rw [hvalue, of_latin1_injective heq]
  have hraw : ∀ key, (request.header "x-api-key").filter (· ≠ []) = some key → ∃ bytes, key = Text.of_latin1 bytes := by
    intro key h
    obtain ⟨value, -, hvalue⟩ := Option.map_eq_some_iff.mp (Option.filter_eq_some_iff.mp h).1
    exact ⟨value, hvalue.symm⟩
  unfold extract_key Carries
  dsimp only
  cases hauth : request.headers.lookup "authorization" with
  | none =>
      have hnil : (request.header "authorization").getD [] = [] := by rw [Request.header, hauth]; rfl
      -- without the header there is no bearer token, and `X-API-Key` decides
      rw [hnil, if_neg not_bearer_nil]
      constructor
      · intro h
        obtain ⟨bytes, rfl⟩ := hraw key h
        exact ⟨bytes, .inr ⟨fun value hvalue => (by cases hvalue), (hheader bytes).mp h⟩, rfl⟩
      · rintro ⟨bytes, ⟨value, hvalue, -⟩ | ⟨-, hsent⟩, rfl⟩
        · cases hvalue
        · exact (hheader bytes).mpr hsent
  | some value =>
      have hvalue : (request.header "authorization").getD [] = Text.of_latin1 value := by
        rw [Request.header, hauth]
        rfl
      rw [hvalue]
      -- a bearer header hides `X-API-Key`; one of another scheme does not
      by_cases hbearer : Bearer value
      · have hprefix : Text.ofString "bearer " <+: Text.lower_latin1 (Text.of_latin1 value) := hbearer
        rw [if_pos hprefix, Text.of_latin1, ← List.map_drop, ← Text.of_latin1, strip_of_latin1]
        constructor
        · intro h
          exact ⟨_, .inl ⟨value, rfl, hbearer, rfl⟩, (Option.some.inj h).symm⟩
        · rintro ⟨bytes, ⟨value', heq, -, rfl⟩ | ⟨hnot, -⟩, rfl⟩
          · rw [Option.some.inj heq]
          · exact absurd hbearer (hnot value rfl)
      · have hprefix : ¬ Text.ofString "bearer " <+: Text.lower_latin1 (Text.of_latin1 value) := hbearer
        rw [if_neg hprefix]
        constructor
        · intro h
          obtain ⟨bytes, rfl⟩ := hraw key h
          refine ⟨bytes, .inr ⟨fun value' heq => ?_, (hheader bytes).mp h⟩, rfl⟩
          rwa [← Option.some.inj heq]
        · rintro ⟨bytes, ⟨value', heq, hyes, -⟩ | ⟨-, hsent⟩, rfl⟩
          · rw [← Option.some.inj heq] at hyes
            exact absurd hyes hbearer
          · exact (hheader bytes).mpr hsent

/-- A request has at most one key. -/
theorem Carries.unique {request : Request} {a b : List UInt8} (ha : Carries request a) (hb : Carries request b) :
    a = b := by
  have hkey := (@extract_key_iff _ (Text.of_latin1 a)).mpr ⟨a, ha, rfl⟩
  rw [extract_key_iff.mpr ⟨b, hb, rfl⟩] at hkey
  exact (of_latin1_injective (Option.some.inj hkey)).symm

/-- **The check of a key** is one of bytes. -/
theorem request_has_key_of_carries {request : Request} {bytes : List UInt8} (h : Carries request bytes) {api_key : Text}
    {s : String} (hs : api_key.encode = some s) :
    request_has_key request api_key = .ok (decide (bytes = utf8 s)) := by
  have hextract := extract_key_iff.mpr ⟨bytes, h, rfl⟩
  unfold request_has_key key_matches
  rw [hextract]
  dsimp only
  rw [encode_of_latin1, hs]

/-- The same, for a key of which the encoding is known. -/
theorem request_has_key_iff {request : Request} {api_key : Text} {s : String} (hs : api_key.encode = some s) :
    request_has_key request api_key = .ok true ↔ Carries request (utf8 s) := by
  constructor
  · intro h
    cases hextract : extract_key request with
    | none =>
        rw [request_has_key, hextract] at h
        cases h
    | some key =>
        obtain ⟨bytes, hcarries, -⟩ := extract_key_iff.mp hextract
        rw [request_has_key_of_carries hcarries hs, Except.ok.injEq, decide_eq_true_eq] at h
        rwa [← h]
  · intro h
    rw [request_has_key_of_carries h hs, decide_eq_true rfl]

/-! ## The configured key -/

/-- A stripped text begins and ends with something else than whitespace. -/
theorem ends_of_strip {t : Text} (h : t.strip ≠ []) :
    (∀ c, t.strip.head? = some c → c.isspace = false) ∧ ∀ c, t.strip.getLast? = some c → c.isspace = false := by
  constructor
  · intro c hc
    obtain ⟨rest, hrest⟩ := List.rdropWhile_prefix CodePoint.isspace (t.dropWhile CodePoint.isspace)
    have hhead : (t.dropWhile CodePoint.isspace).head? = some c := by
      rw [← hrest, List.head?_append, show List.rdropWhile _ _ = t.strip from rfl, hc]
      rfl
    -- what is cut off at the end leaves the first character where it was
    have hnot := List.head?_dropWhile_not CodePoint.isspace t
    rw [hhead] at hnot
    exact hnot
  · intro c hc
    have hlast := List.rdropWhile_last_not CodePoint.isspace (t.dropWhile CodePoint.isspace) h
    rw [List.getLast?_eq_some_getLast (show t.strip ≠ [] from h)] at hc
    rw [← Option.some.inj hc]
    exact Bool.eq_false_iff.mpr hlast

/-- `from_env` strips the key whether it comes from the environment or from the file. -/
theorem api_key_stripped {B : Builtins} {environ : Environ} {fc : Json.Dict} {key : Text}
    (h : (HTTPConfig.from_env B environ fc).api_key = some key) : key ≠ [] ∧ ∃ t, key = Text.strip t := by
  obtain ⟨hsource, hne⟩ := Option.filter_eq_some_iff.mp h
  have hne' : key ≠ [] := of_decide_eq_true hne
  refine ⟨hne', ?_⟩
  -- both layers strip what they read
  rcases hset : Config.stripped (environ "OC_API_KEY") with _ | env_key
  · rw [hset, Option.none_or] at hsource
    have hfile := Option.some.inj hsource
    unfold Config.str_or_default at hfile
    split at hfile
    · split at hfile
      · exact absurd hfile.symm hne'
      · exact ⟨_, hfile.symm⟩
    · exact absurd hfile.symm hne'
  · rw [hset, Option.some_or] at hsource
    obtain ⟨t, -, ht⟩ := Option.map_eq_some_iff.mp hset
    exact ⟨t, (ht.trans (Option.some.inj hsource)).symm⟩

/-- The request sends these bytes as a bearer token, with the scheme in any case. -/
def SendsBearer (request : Request) (bytes : List UInt8) : Prop :=
  ∃ scheme : List UInt8, scheme.length = 7 ∧ Text.lower_latin1 (Text.of_latin1 scheme) = Text.ofString "bearer "
    ∧ request.headers.lookup "authorization" = some (scheme ++ bytes)

/-- The scheme has seven characters, in any case; what stands behind them is stripped. -/
theorem carries_of_bearer {request : Request} {bytes : List UInt8} (h : SendsBearer request bytes) :
    Carries request (strip_bytes bytes) := by
  obtain ⟨scheme, hlength, hscheme, hauth⟩ := h
  refine .inl ⟨_, hauth, ?_, by rw [List.drop_left' hlength]⟩
  unfold Bearer Text.of_latin1 Text.lower_latin1 at *
  rw [List.map_append, List.map_append, hscheme]
  exact List.prefix_append _ _

/-- The characters at the ends of a configured key are no whitespace. -/
theorem key_ends {B : Builtins} {environ : Environ} {fc : Json.Dict} {s : String}
    (h : (HTTPConfig.from_env B environ fc).api_key = some (Text.ofString s)) :
    ∃ first last, s.toList.head? = some first ∧ s.toList.getLast? = some last
      ∧ isspace first = false ∧ isspace last = false := by
  obtain ⟨hne, t, ht⟩ := api_key_stripped h
  obtain ⟨hhead, hlast⟩ := ends_of_strip (t := t) (by rw [← ht]; exact hne)
  rw [← ht] at hhead hlast
  have hchars : s.toList ≠ [] := fun hnil => hne (by rw [Text.ofString, hnil]; rfl)
  refine ⟨s.toList.head hchars, s.toList.getLast hchars, List.head?_eq_some_head hchars,
    List.getLast?_eq_some_getLast hchars, ?_, ?_⟩
  · refine hhead (.scalar (s.toList.head hchars)) ?_
    rw [Text.ofString, List.head?_map, List.head?_eq_some_head hchars]
    rfl
  · refine hlast (.scalar (s.toList.getLast hchars)) ?_
    rw [Text.ofString, List.getLast?_map, List.getLast?_eq_some_getLast hchars]
    rfl

/-- The health route names the paths only to a request with the key. -/
theorem paths_shown {api_key : Text} (hne : api_key ≠ []) {payload shown : List (String × Text)} {request : Request}
    (h : health (some api_key) payload request = .ok shown) {field : String × Text} (hshown : field ∈ shown)
    (hpath : field.1 ∈ PATH_FIELDS) : request_has_key request api_key = .ok true := by
  unfold health at h
  rw [Option.filter_some, if_pos (decide_eq_true hne)] at h
  dsimp only at h
  cases hhas : request_has_key request api_key with
  | error e =>
      rw [hhas] at h
      cases h
  | ok has_key =>
      rw [hhas] at h
      cases has_key with
      | true => rfl
      | false =>
          have heq : payload.filter (·.1 ∉ PATH_FIELDS) = shown := Except.ok.inj h
          rw [← heq] at hshown
          exact absurd hpath (of_decide_eq_true (List.mem_filter.mp hshown).2)

/-- **The configured key and the key that is sent.** A request has the key exactly when the bytes it carries are
the key's in UTF-8, and the health route names the paths only then. A client that sends them in `X-API-Key` is let
in; one that sends them as a bearer token is let in unless the last byte of the key is one that Latin-1 reads as
whitespace. -/
theorem configured_key_opens {B : Builtins} {environ : Environ} {fc : Json.Dict} {key : Text} {s : String}
    (hkey : (HTTPConfig.from_env B environ fc).api_key = some key) (hs : key.encode = some s) :
    (∀ request, request_has_key request key = .ok true ↔ Carries request (utf8 s))
    ∧ (∀ request, request.headers.lookup "authorization" = none →
        request.headers.lookup "x-api-key" = some (utf8 s) → request_has_key request key = .ok true)
    ∧ (∀ request, SendsBearer request (utf8 s) →
        (request_has_key request key = .ok true ↔ ∀ last, s.toList.getLast? = some last → ¬ EndsInSpace last))
    ∧ ∀ payload request shown, health (some key) payload request = .ok shown →
        ∀ field ∈ shown, field.1 ∈ PATH_FIELDS → Carries request (utf8 s) := by
  have hiff : ∀ request, request_has_key request key = .ok true ↔ Carries request (utf8 s) :=
    fun request => request_has_key_iff hs
  obtain rfl := Text.encode_eq_some.mp hs
  obtain ⟨first, last, hfirst, hlast, hopen, hclose⟩ := key_ends hkey
  refine ⟨hiff, ?_, ?_, fun payload request shown hshown field hfield hpath =>
    (hiff request).mp (paths_shown (api_key_stripped hkey).1 hshown hfield hpath)⟩
  · intro request hauth hsent
    refine (hiff request).mpr (.inr ⟨fun value hvalue => (by rw [hauth] at hvalue; cases hvalue), hsent, ?_⟩)
    obtain ⟨lead, rest, hlead, -⟩ := first_byte hopen
    obtain ⟨chars, hchars⟩ := List.head?_eq_some_iff.mp hfirst
    rw [utf8, hchars, List.flatMap_cons, hlead]
    exact List.cons_ne_nil _ _
  · intro request hsent
    have hcarries := carries_of_bearer hsent
    have hstrip := strip_utf8 hfirst hlast hopen hclose
    rw [hiff request, hlast]
    constructor
    · rintro hown last' heq
      rw [← Option.some.inj heq]
      exact hstrip.mp (hcarries.unique hown)
    · intro hall
      rw [hstrip.mpr (hall last rfl)] at hcarries
      exact hcarries

/-- The key `voilà`: its last byte is 0xA0. -/
def accented : Environ := fun name => if name = "OC_API_KEY" then some (Text.ofString "voilà") else none

/-- No number is read in this instance. -/
def no_builtins : Builtins where
  int_of_str := fun _ => none
  float_of_str := fun _ => none
  float_of_int := fun _ => none
  str := fun _ => []
  lower := id

def accented_request : Request where
  method := []
  path := []
  url_path := []
  headers := [("authorization", utf8 "Bearer voilà")]
  client := none
  now := 0

theorem configured_key_opens_accented :
    SendsBearer accented_request (utf8 "voilà")
      ∧ (request_has_key accented_request (Text.ofString "voilà") = .ok true
        ↔ ∀ last, "voilà".toList.getLast? = some last → ¬ EndsInSpace last) := by
  have hsent : SendsBearer accented_request (utf8 "voilà") :=
    ⟨utf8 "Bearer ", by decide +kernel, by decide +kernel, by decide +kernel⟩
  exact ⟨hsent, (@configured_key_opens no_builtins accented [] _ _ (by decide +kernel)
    (Text.encode_ofString "voilà")).2.2.1 accented_request hsent⟩

end OpenChronicle.Access
