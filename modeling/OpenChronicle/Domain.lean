/-
The domain models and exceptions (`core/domain/`).

Timestamps are instants, in microseconds: every datetime the store takes is
aware and converted to UTC before it is written, and the text it is written as
sorts as the instant does, so an `ORDER BY created_at` is an order of instants.
Ids, sources and project ids are the strings they are in the source, because
the store breaks ties by comparing them. A column that is bound as text holds
what UTF-8 can encode, so it is a `String`; tags and metadata go through `json.dumps`,
which escapes anything, so a tag is any Python string and metadata any dict.
-/
import Mathlib.Data.String.Basic
import OpenChronicle.Lib.Json
import OpenChronicle.Lib.PyStr

set_option autoImplicit false

namespace OpenChronicle

/-- A UTC instant, in microseconds. -/
abbrev Instant := ℤ

/-- `models/memory_item.py`. -/
structure MemoryItem where
  id : String
  content : String := ""
  tags : List PyStr.Text := []
  created_at : Instant
  pinned : Bool := false
  project_id : Option String := none
  source : String := "manual"
  updated_at : Option Instant := none
  deriving DecidableEq, Repr

/-- Upper bound on `MemoryItem.content`, in characters. -/
def MAX_CONTENT_CHARS : ℕ := 100000

/-- `models/project.py`. -/
structure Project where
  id : String
  name : String
  metadata : Json.Dict := []
  created_at : Instant
  deriving Repr

/-- `models/revision_snapshot.py`, less `verified_at`, which only health reads.
`known = false` means nothing has verified a revision yet; `known = true` with
no value is a provider that genuinely has none. -/
structure RevisionSnapshot where
  known : Bool
  value : Option String := none
  deriving DecidableEq, Repr

def UNKNOWN_REVISION : RevisionSnapshot := { known := false }

/-- The `error_code`s a `ProviderError` carries. -/
inductive ErrorCode where
  | CONTENT_TOO_LONG
  | PROVIDER_ERROR
  | CONNECTION_ERROR
  | TIMEOUT
  deriving DecidableEq, Repr

/-- The two arrays of an export envelope. -/
inductive Collection where
  | projects
  | memory_items
  deriving DecidableEq, Repr

/-- Why a text is no aware ISO-8601 datetime. -/
inductive DatetimeFault where
  /-- `ValueError: Invalid isoformat string`. -/
  | invalid
  /-- `field must include a UTC offset`. -/
  | naive
  /-- `field is outside the supported UTC range`. -/
  | out_of_range
  deriving DecidableEq, Repr

/-- What is wrong with a row of an envelope. -/
inductive RowFault where
  /-- `expected an object, got …`. -/
  | not_an_object (type_name : String)
  /-- `key must be a non-empty string, got …`. -/
  | not_a_string (key type_name : String)
  /-- `key must be an ISO-8601 string, got …`. -/
  | not_a_date (key type_name : String)
  /-- `key must be an aware ISO-8601 datetime: …`. -/
  | bad_date (key : String) (fault : DatetimeFault)
  /-- `'metadata' must be an object or null`. -/
  | bad_metadata
  /-- `'content' must be a string, got …`. -/
  | bad_content (type_name : String)
  /-- `'tags' must be an array of strings or null`. -/
  | bad_tags
  /-- `'source' must be a string or null`. -/
  | bad_source
  /-- `'project_id' must be a string or null`. -/
  | bad_project_id
  /-- `references project … not in this store or this envelope`. -/
  | unknown_project (project_id : PyStr.Text)
  /-- `duplicate project id within the envelope`, and the same for memories. -/
  | duplicate_id
  deriving DecidableEq, Repr

/-- What a use case refused before touching the store. -/
inductive Refusal where
  /-- At least one of content or tags must be provided. -/
  | nothing_to_update
  /-- `content must be non-empty`. -/
  | blank_content
  /-- `content exceeds maximum length`, with the length it had. -/
  | content_too_long (len : ℕ)
  /-- `project_id is required`. -/
  | project_required
  /-- `mode must be one of …, got mode`. -/
  | unknown_mode (mode : String)
  /-- `mode='semantic' requires an embedding provider`. -/
  | semantic_without_provider
  /-- A datetime `require_utc` refused. -/
  | bad_datetime (field : String) (fault : DatetimeFault)
  /-- `payload must be a JSON object, got …`. -/
  | payload_not_an_object (type_name : String)
  /-- `destination is non-empty; refuse to replace`. -/
  | destination_non_empty
  /-- `unsupported format_version`. -/
  | unsupported_version
  /-- `payload missing required … array`. -/
  | array_missing (key : Collection)
  /-- `… must be an array, got …`. -/
  | not_an_array (key : Collection) (type_name : String)
  /-- `invalid collection[index] (id=…): …`; the id is there when it is a string. -/
  | invalid_row (collection : Collection) (index : ℕ) (row_id : Option PyStr.Text) (fault : RowFault)
  deriving DecidableEq, Repr

/-- The exceptions the modelled code raises or lets through.
`RevisionUnknownError` and `RevisionChangedError` are `ProviderError`s of the
source; neither carries `CONTENT_TOO_LONG`. -/
inductive Exc where
  | ValidationError (why : Refusal)
  | MemoryNotFound (id : String)
  | ProjectNotFound (id : Option String)
  | ProviderError (error_code : ErrorCode)
  | RevisionUnknownError
  | RevisionChangedError
  /-- `sqlite3.IntegrityError`. -/
  | IntegrityError
  /-- `sqlite3.OperationalError` and the other errors of the connection. -/
  | OperationalError
  /-- A bound string holds a code point UTF-8 cannot encode. -/
  | UnicodeEncodeError
  /-- A bound integer has more than 63 bits. -/
  | OverflowError
  /-- Any other `Exception`. -/
  | Other
  deriving DecidableEq, Repr

/-- `EmbeddingService._is_content_too_long`. -/
def is_content_too_long : Exc → Bool
  | .ProviderError .CONTENT_TOO_LONG => true
  | _ => false

end OpenChronicle
