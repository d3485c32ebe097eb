/-
A sliding window that never forgets.

A request is admitted when fewer than `limit` admitted ones are younger than `window`. The history holds
every admitted time. `history_bounded` is the bound over any window of that length, and `admits_after`
the promise to a request that was turned away: once the oldest of those in its window has left, there is
room.

Times are of any ordered group, and requests come in their order. The bound is one for all windows, and
is kept request by request (`Bounded.step`): a window that holds the new time ends no earlier, and what
else it holds is in the window that was looked at when the time was taken in.
-/
import Mathlib.Algebra.Order.Group.Defs
import Mathlib.Data.List.Induction

set_option autoImplicit false

namespace SlidingWindow

variable {T : Type} [AddCommGroup T] [LinearOrder T]

/-- The admitted times in the window that ends at `now`. -/
def recent (window now : T) (history : List T) : List T :=
  history.filter fun t => now - window < t

/-- Whether a request at `now` is admitted. -/
def admits (limit : ℕ) (window : T) (history : List T) (now : T) : Bool :=
  (recent window now history).length < limit

/-- One request. -/
def step (limit : ℕ) (window : T) (history : List T) (now : T) : List T :=
  if admits limit window history now then history ++ [now] else history

/-- All of them. -/
def history (limit : ℕ) (window : T) (times : List T) : List T :=
  times.foldl (step limit window) []

variable {limit : ℕ} {window now : T} {past times : List T}

/-- Nobody has asked. -/
@[simp] theorem history_nil : history limit window ([] : List T) = [] := rfl

/-- One request more. -/
theorem history_snoc (times : List T) (now : T) :
    history limit window (times ++ [now]) = step limit window (history limit window times) now := by
  rw [history, List.foldl_append]
  rfl

/-- Only times of requests are admitted. -/
theorem mem_history {u : T} (hu : u ∈ history limit window times) : u ∈ times := by
  induction times using List.reverseRecOn with
  | nil => cases hu
  | append_singleton times now ih =>
      rw [history_snoc, step] at hu
      by_cases hadmit : admits limit window (history limit window times) now = true
      · rw [if_pos hadmit] at hu
        rcases List.mem_append.mp hu with hu | hu
        · exact List.mem_append_left _ (ih hu)
        · exact List.mem_append_right _ hu
      · rw [if_neg hadmit] at hu
        exact List.mem_append_left _ (ih hu)

/-- What one request keeps: the history is in order, and no window holds more than `limit`. -/
structure Bounded (limit : ℕ) (window : T) (past : List T) : Prop where
  sorted : past.Pairwise (· ≤ ·)
  few : ∀ t, (past.filter fun u => t - window < u ∧ u ≤ t).length ≤ limit

/-- The empty history. -/
theorem Bounded.nil : Bounded limit window ([] : List T) := ⟨List.Pairwise.nil, fun _ => by simp⟩

variable [IsOrderedAddMonoid T]

/-- A time is taken in only where there is room in its window; the windows before it are as they were. -/
theorem Bounded.step (h : Bounded limit window past) (hnow : ∀ u ∈ past, u ≤ now) :
    Bounded limit window (step limit window past now) := by
  rw [SlidingWindow.step]
  by_cases hadmit : admits limit window past now = true
  · rw [if_pos hadmit]
    refine ⟨?_, fun t => ?_⟩
    · rw [List.pairwise_append]
      refine ⟨h.sorted, List.pairwise_singleton _ _, ?_⟩
      intro u hu v hv
      rw [List.mem_singleton.mp hv]
      exact hnow u hu
    · rw [List.filter_append, List.length_append]
      by_cases hin : t - window < now ∧ now ≤ t
      · -- a window that holds the new time reaches no further back than the one it was let into
        have hsub : (past.filter fun u => t - window < u ∧ u ≤ t).length
            ≤ (recent window now past).length := by
          rw [recent, ← List.countP_eq_length_filter, ← List.countP_eq_length_filter]
          refine List.countP_mono_left fun u _ hu => ?_
          have hu' := of_decide_eq_true hu
          exact decide_eq_true ((sub_le_sub_right hin.2 window).trans_lt hu'.1)
        have hroom : (recent window now past).length < limit := of_decide_eq_true hadmit
        have hone : ([now].filter fun u => t - window < u ∧ u ≤ t).length ≤ 1 :=
          List.length_filter_le _ _
        omega
      · have hnone : [now].filter (fun u => t - window < u ∧ u ≤ t) = [] := by
          rw [List.filter_eq_nil_iff]
          intro u hu
          rw [List.mem_singleton.mp hu]
          simpa using hin
        rw [hnone, List.length_nil, Nat.add_zero]
        exact h.few t
  · rw [if_neg hadmit]
    exact h

/-- **At most `limit` in any window.** -/
theorem history_bounded (hsorted : times.Pairwise (· ≤ ·)) :
    Bounded limit window (history limit window times) := by
  induction times using List.reverseRecOn with
  | nil => exact Bounded.nil
  | append_singleton times now ih =>
      rw [List.pairwise_append] at hsorted
      rw [history_snoc]
      refine (ih hsorted.1).step fun u hu => ?_
      exact hsorted.2.2 u (mem_history hu) now (List.mem_singleton.mpr rfl)

/-- Once the oldest of a full window has left it, the next request is admitted. -/
theorem admits_after {oldest later : T} {rest : List T} (h : Bounded limit window past)
    (hpast : ∀ u ∈ past, u ≤ now) (hfull : recent window now past = oldest :: rest)
    (hle : now ≤ later) (hleft : oldest ≤ later - window) :
    admits limit window past later = true := by
  have hlen : (oldest :: rest).length ≤ limit := by
    rw [← hfull, recent]
    refine le_of_eq_of_le ?_ (h.few now)
    congr 1
    refine List.filter_congr fun u hu => ?_
    simp [hpast u hu]
  -- what the later window holds was in the earlier one, and the oldest is not among it
  have hsub : recent window later past = recent window later (oldest :: rest) := by
    rw [← hfull, recent, recent, recent, List.filter_filter]
    refine List.filter_congr fun u _ => ?_
    by_cases hu : later - window < u
    · have hu' : now - window < u := (sub_le_sub_right hle window).trans_lt hu
      simp [hu, hu']
    · simp [hu]
  have hdrop : recent window later (oldest :: rest) = recent window later rest := by
    rw [recent, recent, List.filter_cons_of_neg]
    simpa using hleft
  have hshort : (recent window later rest).length ≤ rest.length := List.length_filter_le _ _
  rw [admits, hsub, hdrop]
  refine decide_eq_true ?_
  rw [List.length_cons] at hlen
  omega

end SlidingWindow
