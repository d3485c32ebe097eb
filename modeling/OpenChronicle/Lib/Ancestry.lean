/-
Histories with merges, and walking them in instalments.

A `History` is a graph of commits in which every parent is older than its child. A `Log` lists what one
commit shows and another does not, newest first, ties in any order; merges are walked through and not
listed. `walks` lists a growing history in instalments: each starts behind the first commit of the last
listing that had one. That one commit stands for everything listed so far exactly when the commits shown
have a single tip.

Both directions are here. If every head that is resumed from has a single tip, each instalment is what
is new (`walks_deliver`). If nothing is listed twice, every such head has one (`oneTip_of_nodup`): the
first commit of a listing excludes only what it reaches, and a second tip is not among that, so it would
come again.

The dates are only used for the order of a listing and to have no cycles. Two commits may have one date,
as long as neither is the other's parent.
-/
import Mathlib.Data.List.Perm.Subperm
import Mathlib.Logic.Relation
import Mathlib.Tactic.Common

set_option autoImplicit false

namespace Ancestry

/-- Commits, their parents and their dates. -/
structure History (C : Type) where
  parents : C → List C
  date : C → ℕ
  older : ∀ c, ∀ p ∈ parents c, date p < date c

namespace History

variable {C : Type} (H : History C)

/-- `b` is `a` or an ancestor of it. -/
def Reaches (a b : C) : Prop := Relation.ReflTransGen (fun c p => p ∈ H.parents c) a b

/-- Not a merge. -/
def Plain (c : C) : Prop := (H.parents c).length ≤ 1

/-- The commits a walk from `head` lists. -/
def Shows (head x : C) : Prop := H.Plain x ∧ H.Reaches head x

/-- What a start point excludes. -/
def Covers (since : Option C) (x : C) : Prop := ∃ s, since = some s ∧ H.Reaches s x

/-- One of the commits shown reaches them all. -/
def OneTip (head : C) : Prop := ∃ tip, H.Shows head tip ∧ ∀ x, H.Shows head x → H.Reaches tip x

variable {H} {a b c : C}

/-- Ancestors of ancestors. -/
theorem Reaches.trans (hab : H.Reaches a b) (hbc : H.Reaches b c) : H.Reaches a c :=
  Relation.ReflTransGen.trans hab hbc

/-- A head shows what the heads behind it show. -/
theorem Shows.of_reaches {head head' x : C} (h : H.Shows head x) (hr : H.Reaches head' head) :
    H.Shows head' x := ⟨h.1, hr.trans h.2⟩

/-- Ancestors are older. -/
theorem date_le_of_reaches (h : H.Reaches a b) : H.date b ≤ H.date a := by
  induction h with
  | refl => exact Nat.le_refl _
  | tail _ hp ih => exact Nat.le_trans (Nat.le_of_lt (H.older _ _ hp)) ih

/-- A commit reaches nothing else that is as new. -/
theorem eq_of_reaches (h : H.Reaches a b) (hdate : H.date a ≤ H.date b) : a = b := by
  rcases Relation.ReflTransGen.cases_head h with heq | ⟨p, hp, hrest⟩
  · exact heq
  · have hlt := H.older a p hp
    have hle : H.date b ≤ H.date p := date_le_of_reaches hrest
    omega

/-- Every walk has something to show: the oldest commits are no merges. -/
theorem exists_shown (H : History C) (head : C) : ∃ x, H.Shows head x := by
  induction hd : H.date head using Nat.strongRecOn generalizing head with
  | _ n ih =>
      rcases hp : H.parents head with _ | ⟨p, rest⟩
      · exact ⟨head, by simp [Plain, hp], Relation.ReflTransGen.refl⟩
      · have hin : p ∈ H.parents head := by simp [hp]
        obtain ⟨x, hx⟩ := ih (H.date p) (hd ▸ H.older head p hin) p rfl
        exact ⟨x, hx.of_reaches (Relation.ReflTransGen.single hin)⟩

end History

/-- `git log --no-merges since..head`, or without a range. -/
structure Log {C : Type} (H : History C) where
  list : Option C → C → List C
  nodup : ∀ since head, (list since head).Nodup
  mem_list : ∀ since head x, x ∈ list since head ↔ H.Shows head x ∧ ¬ H.Covers since x
  newest_first : ∀ since head, (list since head).Pairwise fun a b => H.date b ≤ H.date a

namespace Log

variable {C : Type} {H : History C} (L : Log H)

/-- Walk to each head in turn, at most `limit` commits a walk, each from behind the first
commit listed last. -/
def walks (limit : ℕ) : Option C → List C → List (List C)
  | _, [] => []
  | anchor, head :: rest =>
      (L.list anchor head).take limit
        :: walks limit (((L.list anchor head).take limit).head?.or anchor) rest

/-- No head adds more than `limit` commits to what the head before it shows. -/
def WithinLimit (limit : ℕ) : Option C → List C → Prop
  | _, [] => True
  | prev, head :: rest => (L.list prev head).length ≤ limit ∧ WithinLimit limit (some head) rest

/-- Each head reaches the one before it. -/
def Grows (H : History C) : Option C → List C → Prop
  | _, [] => True
  | prev, head :: rest => (∀ p, prev = some p → H.Reaches head p) ∧ Grows H (some head) rest

/-- Each instalment is what its head shows and the head before it does not. -/
def Delivers (H : History C) : Option C → List C → List (List C) → Prop
  | _, [], [] => True
  | prev, head :: rest, walk :: walks =>
      (walk.Nodup ∧ ∀ x, x ∈ walk ↔ H.Shows head x ∧ ¬ H.Covers prev x)
        ∧ Delivers H (some head) rest walks
  | _, _, _ => False

variable {L}

/-- Start points that exclude the same commits list the same number. -/
theorem length_list_congr {since since' : Option C} {head : C}
    (h : ∀ x, H.Plain x → (H.Covers since x ↔ H.Covers since' x)) :
    (L.list since head).length = (L.list since' head).length := by
  refine List.Perm.length_eq ((List.perm_ext_iff_of_nodup (L.nodup _ _) (L.nodup _ _)).mpr ?_)
  intro x
  rw [L.mem_list, L.mem_list]
  constructor
  · rintro ⟨hx, hn⟩
    exact ⟨hx, fun hc => hn ((h x hx.1).mpr hc)⟩
  · rintro ⟨hx, hn⟩
    exact ⟨hx, fun hc => hn ((h x hx.1).mp hc)⟩

/-- With a single tip, the first commit listed excludes what the head itself does. -/
theorem anchor_covers {anchor prev : Option C} {head : C}
    (hcov : ∀ x, H.Plain x → (H.Covers anchor x ↔ H.Covers prev x))
    (hgrows : ∀ p, prev = some p → H.Reaches head p) (htip : H.OneTip head) (x : C)
    (hx : H.Plain x) :
    H.Covers ((L.list anchor head).head?.or anchor) x ↔ H.Covers (some head) x := by
  obtain ⟨tip, htip, hall⟩ := htip
  have hbelow : ∀ y, H.Plain y → H.Covers anchor y → H.Reaches head y := by
    intro y hy hc
    obtain ⟨p, hp, hr⟩ := (hcov y hy).mp hc
    exact (hgrows p hp).trans hr
  rcases hl : L.list anchor head with _ | ⟨first, rest⟩
  · -- nothing new: the old start point already excludes all of it
    rw [List.head?_nil, Option.none_or]
    constructor
    · exact fun hc => ⟨head, rfl, hbelow x hx hc⟩
    · rintro ⟨_, ⟨⟩, hr⟩
      by_contra hc
      have := (L.mem_list anchor head x).mpr ⟨⟨hx, hr⟩, hc⟩
      rw [hl] at this
      cases this
  · rw [List.head?_cons, Option.some_or]
    have hfirst : first ∈ L.list anchor head := by rw [hl]; exact List.mem_cons_self
    obtain ⟨hshown, hnew⟩ := (L.mem_list anchor head first).mp hfirst
    -- the tip is new too, or it would exclude `first`
    have htipnew : tip ∈ L.list anchor head := by
      refine (L.mem_list anchor head tip).mpr ⟨htip, ?_⟩
      rintro ⟨s, rfl, hs⟩
      exact hnew ⟨s, rfl, hs.trans (hall first hshown)⟩
    -- the first is the newest listed, so it is the tip
    have hnewest : H.date tip ≤ H.date first := by
      have hdesc := L.newest_first anchor head
      rw [hl] at hdesc htipnew
      rcases List.mem_cons.mp htipnew with rfl | hin
      · exact Nat.le_refl _
      · exact (List.pairwise_cons.mp hdesc).1 tip hin
    have heq : tip = first := History.eq_of_reaches (hall first hshown) hnewest
    subst heq
    constructor
    · rintro ⟨_, ⟨⟩, hr⟩
      exact ⟨head, rfl, htip.2.trans hr⟩
    · rintro ⟨_, ⟨⟩, hr⟩
      exact ⟨tip, rfl, hall x ⟨hx, hr⟩⟩

/-- **Instalments of a history with single tips** are exactly what is new each time. -/
theorem walks_deliver {limit : ℕ} {heads : List C} {anchor prev : Option C}
    (hcov : ∀ x, H.Plain x → (H.Covers anchor x ↔ H.Covers prev x)) (hgrows : Grows H prev heads)
    (hlimit : L.WithinLimit limit prev heads) (htips : ∀ h ∈ heads.dropLast, H.OneTip h) :
    Delivers H prev heads (L.walks limit anchor heads) := by
  induction heads generalizing anchor prev with
  | nil => trivial
  | cons head rest ih =>
      have hlen : (L.list anchor head).length ≤ limit := by
        rw [length_list_congr hcov]
        exact hlimit.1
      rw [walks, List.take_of_length_le hlen]
      refine ⟨⟨L.nodup _ _, ?_⟩, ?_⟩
      · intro x
        rw [L.mem_list]
        constructor
        · rintro ⟨hx, hn⟩
          exact ⟨hx, fun hc => hn ((hcov x hx.1).mpr hc)⟩
        · rintro ⟨hx, hn⟩
          exact ⟨hx, fun hc => hn ((hcov x hx.1).mp hc)⟩
      · rcases rest with _ | ⟨next, rest⟩
        · trivial
        · refine ih ?_ hgrows.2 hlimit.2 ?_
          · exact anchor_covers hcov hgrows.1 (htips head (by simp))
          · intro h hin
            exact htips h (by simp only [List.dropLast_cons_cons, List.mem_cons]; exact .inr hin)

/-! ## Each commit once -/

/-- The last head reaches all before it. -/
theorem Grows.reaches_last {prev : Option C} {heads : List C} (h : Grows H prev heads) {last : C}
    (hlast : heads.getLast? = some last) : ∀ p ∈ prev, H.Reaches last p := by
  induction heads generalizing prev with
  | nil => cases hlast
  | cons head rest ih =>
      intro p hp
      rcases rest with _ | ⟨next, rest⟩
      · obtain rfl := Option.some.inj hlast
        exact h.1 p hp
      · rw [List.getLast?_cons_cons] at hlast
        exact (ih h.2 hlast head rfl).trans (h.1 p hp)

/-- Instalments of what is new add up to what the last head shows, each commit once. -/
theorem delivers_flatten {prev : Option C} {heads : List C} {walks : List (List C)}
    (hgrows : Grows H prev heads) (h : Delivers H prev heads walks) :
    walks.flatten.Nodup ∧ ∀ x, x ∈ walks.flatten
      ↔ (∃ last, heads.getLast? = some last ∧ H.Shows last x) ∧ ¬ H.Covers prev x := by
  induction heads generalizing prev walks with
  | nil =>
      rcases walks with _ | ⟨walk, walks⟩
      · simp
      · cases h
  | cons head rest ih =>
      rcases walks with _ | ⟨walk, walks⟩
      · cases h
      obtain ⟨⟨hnodup, hmem⟩, hrest⟩ := h
      obtain ⟨hnodup', hmem'⟩ := ih hgrows.2 hrest
      -- a later walk leaves out what this head covers
      have hdisjoint : ∀ x ∈ walk, x ∉ walks.flatten := by
        intro x hx hx'
        exact ((hmem' x).mp hx').2 ⟨head, rfl, ((hmem x).mp hx).1.2⟩
      refine ⟨?_, ?_⟩
      · rw [List.flatten_cons, List.nodup_append]
        exact ⟨hnodup, hnodup', fun x hx y hy hxy => hdisjoint x hx (hxy ▸ hy)⟩
      · intro x
        rw [List.flatten_cons, List.mem_append, hmem, hmem']
        -- the last head of the rest is the last of all, and it reaches this one
        rcases rest with _ | ⟨next, rest⟩
        · simp
        · rw [List.getLast?_cons_cons]
          obtain ⟨last, hlast⟩ : ∃ last, (next :: rest).getLast? = some last :=
            Option.isSome_iff_exists.mp (by simp)
          have hreach : H.Reaches last head := hgrows.2.reaches_last hlast head rfl
          constructor
          · rintro (⟨hx, hn⟩ | ⟨hx, hn⟩)
            · exact ⟨⟨last, hlast, hx.of_reaches hreach⟩, hn⟩
            · refine ⟨hx, ?_⟩
              rintro ⟨p, hp, hr⟩
              exact hn ⟨head, rfl, (hgrows.1 p hp).trans hr⟩
          · rintro ⟨⟨_, heq, hx⟩, hn⟩
            obtain rfl := Option.some.inj (hlast.symm.trans heq)
            -- what is new is behind this head or only behind a later one
            by_cases hh : H.Reaches head x
            · exact .inl ⟨⟨hx.1, hh⟩, hn⟩
            · refine .inr ⟨⟨last, hlast, hx⟩, ?_⟩
              rintro ⟨_, ⟨⟩, hr⟩
              exact hh hr

/-! ## Without a limit -/

/-- `walks` with no limit. -/
def full (L : Log H) : Option C → List C → List (List C)
  | _, [] => []
  | anchor, head :: rest =>
      L.list anchor head :: full L ((L.list anchor head).head?.or anchor) rest

/-- A limit that no walk reaches cuts nothing off. -/
theorem walks_eq_full {limit : ℕ} {anchor : Option C} {heads : List C}
    (h : ∀ walk ∈ L.full anchor heads, walk.length ≤ limit) :
    L.walks limit anchor heads = L.full anchor heads := by
  induction heads generalizing anchor with
  | nil => rfl
  | cons head rest ih =>
      rw [walks, full, List.take_of_length_le (h _ List.mem_cons_self)]
      rw [ih fun walk hw => h walk (List.mem_cons_of_mem _ hw)]

/-- There are finitely many commits to list, so some limit is large enough. -/
theorem exists_limit (L : Log H) (prev : Option C) (heads : List C) :
    ∃ n, ∀ limit, n ≤ limit → L.WithinLimit limit prev heads := by
  induction heads generalizing prev with
  | nil => exact ⟨0, fun _ _ => trivial⟩
  | cons head rest ih =>
      obtain ⟨n, hn⟩ := ih (some head)
      refine ⟨max (L.list prev head).length n, ?_⟩
      intro limit hle
      exact ⟨by omega, hn limit (by omega)⟩

/-- A limit that no walk reaches. -/
theorem exists_uncut (L : Log H) (anchor prev : Option C) (heads : List C) :
    ∃ limit, L.WithinLimit limit prev heads ∧ L.walks limit anchor heads = L.full anchor heads := by
  obtain ⟨n, hn⟩ := L.exists_limit prev heads
  refine ⟨max n (L.full anchor heads).flatten.length, hn _ (Nat.le_max_left _ _), ?_⟩
  refine walks_eq_full ?_
  intro walk hw
  have hle := (List.sublist_flatten_of_mem hw).length_le
  omega

/-- If no commit is listed twice, every head but the last has a single tip. `seen` is
what was listed before. -/
theorem oneTip_of_nodup {heads seen : List C} {anchor prev : Option C}
    (hseen : ∀ x, H.Plain x → H.Covers anchor x → x ∈ seen)
    (hanchor : ∀ a, anchor = some a → ∃ p, prev = some p ∧ H.Shows p a)
    (hgrows : Grows H prev heads) (hnodup : (seen ++ (L.full anchor heads).flatten).Nodup) :
    ∀ h ∈ heads.dropLast, H.OneTip h := by
  induction heads generalizing anchor prev seen with
  | nil => simp
  | cons head rest ih =>
      rcases rest with _ | ⟨next, rest⟩
      · simp
      -- everything `head` shows has been listed by now
      have hlisted : ∀ x, H.Shows head x → x ∈ seen ++ L.list anchor head := by
        intro x hx
        by_cases hc : H.Covers anchor x
        · exact List.mem_append_left _ (hseen x hx.1 hc)
        · exact List.mem_append_right _ ((L.mem_list anchor head x).mpr ⟨hx, hc⟩)
      -- and the next start point is among it
      have hnext : ∀ a, (L.list anchor head).head?.or anchor = some a → H.Shows head a := by
        intro a ha
        rcases hl : L.list anchor head with _ | ⟨first, others⟩
        · rw [hl, List.head?_nil, Option.none_or] at ha
          obtain ⟨p, hp, hshows⟩ := hanchor a ha
          exact hshows.of_reaches (hgrows.1 p hp)
        · rw [hl, List.head?_cons, Option.some_or] at ha
          obtain rfl := Option.some.inj ha
          exact ((L.mem_list anchor head first).mp (by rw [hl]; exact List.mem_cons_self)).1
      have hnodup' : (seen ++ L.list anchor head
          ++ (L.full ((L.list anchor head).head?.or anchor) (next :: rest)).flatten).Nodup := by
        rw [full, List.flatten_cons, ← List.append_assoc] at hnodup
        exact hnodup
      have htip : H.OneTip head := by
        -- what the next start point does not reach the next walk lists again
        obtain ⟨x₀, hx₀⟩ := H.exists_shown head
        have again : ∀ x, H.Shows head x →
            ¬ H.Covers ((L.list anchor head).head?.or anchor) x → False := by
          intro x hx hc
          have hin : x ∈ L.list ((L.list anchor head).head?.or anchor) next :=
            (L.mem_list _ next x).mpr ⟨hx.of_reaches (hgrows.2.1 head rfl), hc⟩
          refine (List.nodup_append.mp hnodup').2.2 x (hlisted x hx) x ?_ rfl
          rw [full, List.flatten_cons]
          exact List.mem_append_left _ hin
        obtain ⟨a, ha, -⟩ : H.Covers ((L.list anchor head).head?.or anchor) x₀ := by
          by_contra hc
          exact again x₀ hx₀ hc
        refine ⟨a, hnext a ha, ?_⟩
        intro x hx
        by_contra hr
        refine again x hx ?_
        rintro ⟨a', ha', hr'⟩
        obtain rfl := Option.some.inj (ha.symm.trans ha')
        exact hr hr'
      intro h hh
      rw [List.dropLast_cons_cons, List.mem_cons] at hh
      rcases hh with rfl | hh
      · exact htip
      · refine ih ?_ ?_ hgrows.2 hnodup' h hh
        · rintro x hx ⟨a, ha, hr⟩
          exact hlisted x ⟨hx, (hnext a ha).2.trans hr⟩
        · intro a ha
          exact ⟨head, rfl, hnext a ha⟩

end Log

end Ancestry
