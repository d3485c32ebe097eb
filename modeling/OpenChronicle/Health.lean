/-
The failure bookkeeping of `EmbeddingService`.

Two counters on purpose: `search_failure_count` is search-only, `failure_count`
covers every provider operation. Any successful provider call clears the second.
-/
import OpenChronicle.Domain

set_option autoImplicit false

namespace OpenChronicle

structure Health where
  search_failure_count : ℕ := 0
  last_search_failure_at : Option Instant := none
  failure_count : ℕ := 0
  last_failure_at : Option Instant := none
  last_failure_op : Option String := none
  deriving DecidableEq, Repr

namespace Health

def record_failure (h : Health) (now : Instant) (op : String) : Health :=
  { h with
    failure_count := h.failure_count + 1
    last_failure_at := some now
    last_failure_op := some op }

def record_success (h : Health) : Health :=
  { h with failure_count := 0, last_failure_op := none }

/-- What a search whose semantic channel raised records. -/
def search_failed (h : Health) (now : Instant) : Health :=
  let h := { h with search_failure_count := h.search_failure_count + 1 }
  let h := h.record_failure now "search"
  { h with last_search_failure_at := h.last_failure_at }

/-- What a search whose semantic channel answered records. -/
def search_recovered (h : Health) : Health :=
  { h with search_failure_count := 0 }.record_success

end Health

end OpenChronicle
