/-
`redact_userinfo_in_text`: one pass of a regular expression over any text.

A match runs from a scheme to the last `@` before a `/` or whitespace, so what follows the `://` it
keeps has no such `@` left. That one pass is enough is not in that: the text that moves up could
complete a scheme or lengthen a userinfo. It does not, because a removal ends directly behind a `//`.
`Scan` goes over the text one character at a time, knowing only whether a scheme is being read, and the
pass is such a scan.

Two things are shown of the result. Nothing is exposed in it, in the sense of `Exposed`, which is said
without the pattern. And it is the text less pieces that were userinfo (`Cut`), so that no more is taken
than has to be. Applied again, the function changes nothing.

The classes of the pattern ignore case as `re` does, which for a letter of ASCII means a few letters
outside ASCII too.
-/
import OpenChronicle.Lib.Backtrack
import OpenChronicle.Lib.Delimited

set_option autoImplicit false

namespace OpenChronicle.Redaction

open PyStr

/-! ## The pattern -/

/-- `[a-z]` under `re.IGNORECASE`: `İ`, `ı`, `ſ` and the Kelvin sign are the other case of
an ASCII letter. -/
def letter : CodePoint → Bool
  | .scalar c => c.isAlpha || c.toNat ∈ [0x130, 0x131, 0x17F, 0x212A]
  | .surrogate _ => false

/-- `[a-z0-9+.-]` under `re.IGNORECASE`. -/
def scheme_char : CodePoint → Bool
  | .scalar c => letter (.scalar c) || c.isDigit || c ∈ ['+', '.', '-']
  | .surrogate _ => false

/-- `[^/\s]`. -/
def userinfo_char : CodePoint → Bool
  | .scalar c => c ≠ '/' && !isspace c
  | .surrogate _ => true

def colon : CodePoint := .scalar ':'

def slash : CodePoint := .scalar '/'

def at_sign : CodePoint := .scalar '@'

/-- `[a-z][a-z0-9+.-]*://`. -/
def SCHEME : Regex CodePoint :=
  .seq (.char letter) (.seq (.star (.char scheme_char)) (Regex.lit [colon, slash, slash]))

/-- `[^/\s]*@`. -/
def USERINFO : Regex CodePoint := .seq (.star (.char userinfo_char)) (.char (· = at_sign))

/-- `_TEXT_USERINFO.sub(r"\1", text)`. -/
def redact_userinfo_in_text (text : Text) : Text := Regex.sub_group SCHEME USERINFO text

example : redact_userinfo_in_text (Text.ofString "for 'HTTPS://ol:S3@C@host/api' a@b")
    = Text.ofString "for 'HTTPS://host/api' a@b" := by decide +kernel

/-! ## What it is to keep out -/

/-- A scheme and `://`. -/
def Scheme (w : Text) : Prop :=
  ∃ c sch, letter c = true ∧ (∀ d ∈ sch, scheme_char d = true)
    ∧ w = c :: sch ++ [colon, slash, slash]

/-- Userinfo: no `/` and no whitespace up to an `@`. -/
def Userinfo (w : Text) : Prop :=
  ∃ seg, (∀ d ∈ seg, userinfo_char d = true) ∧ w = seg ++ [at_sign]

/-- Somewhere in the text a scheme and `://` are followed by an `@` before the next `/` or
whitespace. -/
def Exposed (text : Text) : Prop :=
  ∃ before scheme userinfo after, Scheme scheme ∧ Userinfo userinfo
    ∧ text = before ++ scheme ++ userinfo ++ after

/-- `t` is `s` less some pieces, each of them userinfo directly after a scheme and `://`. -/
inductive Cut : Text → Text → Prop where
  | nil : Cut [] []
  | keep {c : CodePoint} {s t : Text} : Cut s t → Cut (c :: s) (c :: t)
  | remove {scheme userinfo s t : Text} : Scheme scheme → Userinfo userinfo → Cut s t →
      Cut (scheme ++ userinfo ++ s) (scheme ++ t)

/-! ## The characters -/

/-- A scheme ends at its colon. -/
theorem scheme_char_colon : scheme_char colon = false := by decide

/-- Nor does one begin with it. -/
theorem letter_colon : letter colon = false := by decide

/-- The colon behind a scheme is the first in it. -/
theorem ne_colon_of_scheme_char {c : CodePoint} (h : scheme_char c = true) : c ≠ colon := by
  rintro rfl
  rw [scheme_char_colon] at h
  cases h

/-- The languages of the two halves of the pattern: the scheme with its mark, -/
theorem mem_scheme {w : Text} : w ∈ SCHEME.lang ↔ Scheme w := by
  rw [SCHEME, Regex.mem_seq_char]
  constructor
  · rintro ⟨c, v, hc, hv, rfl⟩
    obtain ⟨sch, hsch, mark, hmark, rfl⟩ := Regex.mem_seq.mp hv
    rw [Regex.mem_lit] at hmark
    exact ⟨c, sch, hc, Regex.mem_star_char.mp hsch, by rw [hmark]; rfl⟩
  · rintro ⟨c, sch, hc, hsch, rfl⟩
    refine ⟨c, sch ++ [colon, slash, slash], hc, ?_, rfl⟩
    exact Regex.mem_seq.mpr ⟨sch, Regex.mem_star_char.mpr hsch, _, Regex.mem_lit.mpr rfl, rfl⟩

/-- and the userinfo. -/
theorem mem_userinfo {w : Text} : w ∈ USERINFO.lang ↔ Userinfo w := by
  rw [USERINFO, Regex.mem_seq]
  constructor
  · rintro ⟨seg, hseg, v, ⟨c, hc, rfl⟩, rfl⟩
    exact ⟨seg, Regex.mem_star_char.mp hseg, by rw [of_decide_eq_true hc]⟩
  · rintro ⟨seg, hseg, rfl⟩
    exact ⟨seg, Regex.mem_star_char.mpr hseg, _, ⟨at_sign, by simp, rfl⟩, rfl⟩

/-- Nothing in front of the text is userinfo. -/
def Plain (v : Text) : Prop := USERINFO.ends v = []

/-- The matcher finds no userinfo exactly when there is none. -/
theorem plain_iff {v : Text} : Plain v ↔ ∀ w, Userinfo w → ∀ rest, v ≠ w ++ rest := by
  rw [Plain, Regex.ends_eq_nil_iff]
  simp only [mem_userinfo]

/-- One character in front. -/
theorem plain_cons {c : CodePoint} {v : Text} :
    Plain (c :: v) ↔ (userinfo_char c = true → Plain v) ∧ c ≠ at_sign := by
  rw [Plain, USERINFO, Regex.ends_run_cons]
  by_cases hc : userinfo_char c = true
  · by_cases hat : c = at_sign
    · simp [hat]
    · simp [hc, hat, Plain, USERINFO]
  · by_cases hat : c = at_sign
    · simp [hat]
    · simp [hc, hat]

/-- No userinfo runs past a `://`. -/
theorem plain_mark (v : Text) : Plain (colon :: slash :: slash :: v) := by
  rw [plain_cons, plain_cons]
  refine ⟨fun _ => ⟨fun h => ?_, by decide⟩, by decide⟩
  exact absurd h (by decide)

/-! ## The match at one place -/

/-- Two schemes at the same place are the same one: neither holds a colon before its end. -/
theorem scheme_unique {w w' v v' : Text} (hw : Scheme w) (hw' : Scheme w')
    (h : w ++ v = w' ++ v') : v = v' := by
  obtain ⟨c, sch, -, hsch, rfl⟩ := hw
  obtain ⟨c', sch', -, hsch', rfl⟩ := hw'
  have htail : sch ++ colon :: (slash :: slash :: v) = sch' ++ colon :: (slash :: slash :: v') := by
    simpa using (List.cons.inj h).2
  obtain ⟨-, -, hrest⟩ := append_cons_unique hsch hsch' scheme_char_colon scheme_char_colon htail
  simpa using hrest

/-- The match taken: a scheme is kept, and userinfo goes up to its last `@`. -/
theorem match_some {s kept rest : Text} (h : Regex.match_group SCHEME USERINFO s = some (kept, rest)) :
    Scheme kept ∧ ∃ userinfo, Userinfo userinfo ∧ s = kept ++ userinfo ++ rest ∧ Plain rest := by
  rw [Regex.match_group] at h
  -- the scheme at a place leaves one text, so the first match is the first one after it
  have hmids : ∀ mid ∈ SCHEME.ends s, ∃ w, Scheme w ∧ s = w ++ mid := by
    intro mid hmid
    obtain ⟨w, hw, hs⟩ := (Regex.mem_ends SCHEME s mid).mp hmid
    exact ⟨w, mem_scheme.mp hw, hs⟩
  rcases hends : SCHEME.ends s with _ | ⟨mid, more⟩
  · rw [hends] at h
    cases h
  · obtain ⟨w, hw, rfl⟩ := hmids mid (by rw [hends]; exact List.mem_cons_self)
    have hsame : ∀ mid' ∈ mid :: more, mid' = mid := by
      intro mid' hmid'
      obtain ⟨w', hw', hs'⟩ := hmids mid' (by rw [hends]; exact hmid')
      exact (scheme_unique hw hw' hs').symm
    have hfirst : (USERINFO.ends mid).head? = some rest ∧ kept = w := by
      rw [hends] at h
      have htake : (w ++ mid).take ((w ++ mid).length - mid.length) = w := by
        simp
      by_cases hnone : USERINFO.ends mid = []
      · have hall : ((mid :: more).flatMap fun mid' => (USERINFO.ends mid').map fun rest =>
            ((w ++ mid).take ((w ++ mid).length - mid'.length), rest)) = [] := by
          rw [List.flatMap_eq_nil_iff]
          intro mid' hmid'
          rw [hsame mid' hmid', hnone]
          rfl
        rw [hall] at h
        cases h
      · rw [List.flatMap_cons, List.head?_append_of_ne_nil _ (by simpa using hnone), List.head?_map,
          htake] at h
        obtain ⟨r, hr, heq⟩ := Option.map_eq_some_iff.mp h
        obtain ⟨rfl, rfl⟩ := Prod.mk.inj heq
        exact ⟨hr, rfl⟩
    obtain ⟨hhead, rfl⟩ := hfirst
    obtain ⟨⟨seg, c, hseg, hc, rfl, hlast⟩, -⟩ := Regex.ends_run_head hhead
    obtain rfl : c = at_sign := of_decide_eq_true hc
    refine ⟨hw, seg ++ [at_sign], ⟨seg, hseg, rfl⟩, by simp, hlast (by decide)⟩

/-- No match is taken where no scheme is followed by userinfo. -/
theorem match_none {s : Text} (h : Regex.match_group SCHEME USERINFO s = none) {w v : Text}
    (hw : Scheme w) (hs : s = w ++ v) : Plain v := by
  rw [Regex.match_group, List.head?_eq_none_iff, List.flatMap_eq_nil_iff] at h
  have hmid := h v ((Regex.mem_ends SCHEME s v).mpr ⟨w, mem_scheme.mpr hw, hs⟩)
  simpa [Plain] using hmid

theorem match_reads (s kept rest : Text)
    (h : Regex.match_group SCHEME USERINFO s = some (kept, rest)) : rest.length < s.length := by
  obtain ⟨⟨c, sch, -, -, rfl⟩, userinfo, -, rfl, -⟩ := match_some h
  simp only [List.length_append, List.length_cons]
  omega

theorem redact_cons (c : CodePoint) (s : Text) :
    redact_userinfo_in_text (c :: s)
      = match Regex.match_group SCHEME USERINFO (c :: s) with
        | some (kept, rest) => kept ++ redact_userinfo_in_text rest
        | none => c :: redact_userinfo_in_text s :=
  (Regex.sub_group_cons match_reads c s).trans (by rcases Regex.match_group SCHEME USERINFO (c :: s) <;> rfl)

/-- The induction along the pass: a match is cut and the rest redacted, or a character is
kept. -/
theorem redact_induction {P : Text → Text → Prop} (nil : P [] [])
    (cut : ∀ scheme userinfo rest, Scheme scheme → Userinfo userinfo → Plain rest →
      P rest (redact_userinfo_in_text rest) →
      P (scheme ++ userinfo ++ rest) (scheme ++ redact_userinfo_in_text rest))
    (keep : ∀ c s, (∀ w v, Scheme w → c :: s = w ++ v → Plain v) →
      P s (redact_userinfo_in_text s) → P (c :: s) (c :: redact_userinfo_in_text s))
    (s : Text) : P s (redact_userinfo_in_text s) := by
  induction hn : s.length using Nat.strong_induction_on generalizing s with
  | _ n ih =>
      rcases s with _ | ⟨c, s⟩
      · exact nil
      · rw [redact_cons]
        rcases hmatch : Regex.match_group SCHEME USERINFO (c :: s) with _ | ⟨kept, rest⟩
        · refine keep c s (fun w v hw hs => match_none hmatch hw hs) (ih s.length ?_ s rfl)
          rw [← hn, List.length_cons]
          omega
        · have hlen := match_reads _ _ _ hmatch
          obtain ⟨hkept, userinfo, huser, hs, hplain⟩ := match_some hmatch
          rw [hs]
          refine cut kept userinfo rest hkept huser hplain (ih rest.length ?_ rest rfl)
          rw [← hn]
          exact hlen

/-! ## What goes and what stays -/

/-- Nothing goes but userinfo after a scheme. -/
theorem redact_cut (s : Text) : Cut s (redact_userinfo_in_text s) :=
  redact_induction .nil (fun _ _ _ hscheme huser _ ih => .remove hscheme huser ih)
    (fun _ _ _ ih => .keep ih) s

/-- A text with nothing to keep out stays as it is. -/
theorem redact_of_not_exposed {s : Text} (h : ¬ Exposed s) : redact_userinfo_in_text s = s := by
  refine redact_induction (P := fun s t => ¬ Exposed s → t = s) ?_ ?_ ?_ s h
  · exact fun _ => rfl
  · intro scheme userinfo rest hscheme huser _ _ hnot
    exact absurd ⟨[], scheme, userinfo, rest, hscheme, huser, by simp⟩ hnot
  · intro c s _ ih hnot
    rw [ih]
    rintro ⟨before, scheme, userinfo, after, hscheme, huser, rfl⟩
    exact hnot ⟨c :: before, scheme, userinfo, after, hscheme, huser, by simp⟩

/-! ## Reading a text one character at a time -/

/-- Whether a scheme is being read, after one more character. -/
def next (live : Bool) (c : CodePoint) : Bool := letter c || (live && scheme_char c)

/-- Behind the `://` of every scheme the text is plain; `live` says whether a scheme is
being read where the text starts. -/
def Quiet : Bool → Text → Prop
  | _, [] => True
  | live, c :: t =>
      (live = true → ∀ v, c :: t = colon :: slash :: slash :: v → Plain v) ∧ Quiet (next live c) t

/-- One pass: behind the `://` of a scheme userinfo goes, everything else stays. -/
inductive Scan : Bool → Text → Text → Prop where
  | nil {live : Bool} : Scan live [] []
  | keep {live : Bool} {c : CodePoint} {s t : Text}
      (hmark : live = true → ∀ v, c :: s ≠ colon :: slash :: slash :: v)
      (hrest : Scan (next live c) s t) : Scan live (c :: s) (c :: t)
  | mark {s v t : Text} (hcut : (∃ u, Userinfo u ∧ s = u ++ v) ∨ s = v) (hplain : Plain v)
      (hrest : Scan false v t) :
      Scan true (colon :: slash :: slash :: s) (colon :: slash :: slash :: t)

theorem not_mark_of_scheme_char {c : CodePoint} {s : Text} (hc : scheme_char c = true) :
    ∀ v, c :: s ≠ colon :: slash :: slash :: v :=
  fun _ h => ne_colon_of_scheme_char hc (List.cons.inj h).1

/-- Where no userinfo follows the scheme being read, it makes no difference whether one is. -/
theorem Scan.live {s t : Text} (h : Scan false s t)
    (hquiet : ∀ sch v, (∀ d ∈ sch, scheme_char d = true) →
      s = sch ++ colon :: slash :: slash :: v → Plain v) : Scan true s t := by
  generalize hlive : false = live at h
  induction h with
  | nil => exact .nil
  | @keep live c s t hmark hrest ih =>
      subst hlive
      by_cases hmark' : ∃ v, c :: s = colon :: slash :: slash :: v
      · obtain ⟨v, hv⟩ := hmark'
        obtain ⟨rfl, rfl⟩ := List.cons.inj hv
        have hplain := hquiet [] v (by simp) rfl
        -- outside of a scheme the two slashes are read as they come
        rcases hrest with _ | ⟨-, hrest⟩
        rcases hrest with _ | ⟨-, hrest⟩
        exact .mark (.inr rfl) hplain hrest
      · refine .keep (fun _ v hv => hmark' ⟨v, hv⟩) ?_
        by_cases hletter : letter c = true
        · rw [next, hletter, Bool.true_or]
          rw [next, hletter, Bool.true_or] at hrest
          exact hrest
        · rw [Bool.not_eq_true] at hletter
          by_cases hc : scheme_char c = true
          · rw [next, hletter, hc, Bool.false_or, Bool.and_true]
            have hnext : false = next false c := by rw [next, hletter]; rfl
            refine ih ?_ hnext
            intro sch v hsch hs
            refine hquiet (c :: sch) v ?_ (by rw [hs]; rfl)
            intro d hd
            rcases List.mem_cons.mp hd with rfl | hd
            · exact hc
            · exact hsch d hd
          · rw [Bool.not_eq_true] at hc
            rw [next, hletter, hc]
            rw [next, hletter, hc] at hrest
            exact hrest
  | mark => cases hlive

/-- The rest of a scheme, its mark and the userinfo behind it. -/
theorem Scan.scheme {sch userinfo v t : Text} (hsch : ∀ d ∈ sch, scheme_char d = true)
    (huser : Userinfo userinfo) (hplain : Plain v) (hrest : Scan false v t) :
    Scan true (sch ++ colon :: slash :: slash :: (userinfo ++ v))
      (sch ++ colon :: slash :: slash :: t) := by
  induction sch with
  | nil => exact .mark (.inl ⟨userinfo, huser, rfl⟩) hplain hrest
  | cons c sch ih =>
      have hc := hsch c List.mem_cons_self
      refine .keep (fun _ => not_mark_of_scheme_char hc) ?_
      rw [next, hc, Bool.and_true, Bool.or_true]
      exact ih fun d hd => hsch d (List.mem_cons_of_mem _ hd)

/-- The substitution is a scan. -/
theorem redact_scan (s : Text) : Scan false s (redact_userinfo_in_text s) := by
  refine redact_induction .nil ?_ ?_ s
  · rintro _ userinfo rest ⟨c, sch, hc, hsch, rfl⟩ huser hplain ih
    have hscan := Scan.scheme hsch huser hplain ih
    have hkeep : Scan false (c :: (sch ++ colon :: slash :: slash :: (userinfo ++ rest)))
        (c :: (sch ++ colon :: slash :: slash :: redact_userinfo_in_text rest)) := by
      refine .keep (by simp) ?_
      rw [next, hc, Bool.true_or]
      exact hscan
    simpa using hkeep
  · intro c s hnone ih
    refine .keep (by simp) ?_
    rw [next, Bool.false_and, Bool.or_false]
    by_cases hc : letter c = true
    · rw [hc]
      refine ih.live fun sch v hsch hs => ?_
      exact hnone (c :: sch ++ [colon, slash, slash]) v ⟨c, sch, hc, hsch, rfl⟩ (by rw [hs]; simp)
    · rw [Bool.not_eq_true] at hc
      rw [hc]
      exact ih

/-- What is plain stays plain: the text up to the first `/` is not touched. -/
theorem Scan.plain {live : Bool} {s t : Text} (h : Scan live s t) (hs : Plain s) : Plain t := by
  induction h with
  | nil => exact hs
  | keep _ _ ih =>
      rw [plain_cons] at hs ⊢
      exact ⟨fun hc => ih (hs.1 hc), hs.2⟩
  | mark => exact plain_mark _

/-- A scan does not complete a mark. -/
theorem Scan.slashes {s t v : Text} (h : Scan false s t) (ht : t = slash :: slash :: v) :
    ∃ v', s = slash :: slash :: v' := by
  subst ht
  rcases h with _ | ⟨-, h⟩
  rcases h with _ | ⟨-, h⟩
  exact ⟨_, rfl⟩

/-- What a scan leaves is quiet. -/
theorem Scan.quiet {live : Bool} {s t : Text} (h : Scan live s t) : Quiet live t := by
  induction h with
  | nil => trivial
  | @keep live c s t hmark hrest ih =>
      refine ⟨?_, ih⟩
      intro hlive v hv
      -- a mark behind a scheme was one before the pass, and the scan cuts at those
      obtain ⟨rfl, ht⟩ := List.cons.inj hv
      have hnext : next live colon = false := by
        rw [next, letter_colon, scheme_char_colon, Bool.and_false]
        rfl
      rw [hnext] at hrest
      obtain ⟨v', rfl⟩ := hrest.slashes ht
      exact absurd rfl (hmark hlive v')
  | @mark s v t hcut hplain hrest ih =>
      refine ⟨fun _ v' hv => ?_, ?_, ?_, ih⟩
      · simp only [List.cons.injEq, true_and] at hv
        rw [← hv]
        exact hrest.plain hplain
      · intro hlive
        exact absurd hlive (by decide)
      · intro hlive
        exact absurd hlive (by decide)

/-- Reading on from a later place. -/
theorem quiet_append {before t : Text} : ∀ {live : Bool}, Quiet live (before ++ t) →
    ∃ live', Quiet live' t := by
  induction before with
  | nil => exact fun h => ⟨_, h⟩
  | cons c before ih => exact fun h => ih h.2

/-- While the scheme lasts, it is being read. -/
theorem quiet_scheme {sch t : Text} (hsch : ∀ d ∈ sch, scheme_char d = true)
    (h : Quiet true (sch ++ t)) : Quiet true t := by
  induction sch with
  | nil => exact h
  | cons c sch ih =>
      have hnext := h.2
      rw [next, hsch c List.mem_cons_self, Bool.and_true, Bool.or_true] at hnext
      exact ih (fun d hd => hsch d (List.mem_cons_of_mem _ hd)) hnext

theorem Quiet.not_exposed {live : Bool} {t : Text} (h : Quiet live t) : ¬ Exposed t := by
  rintro ⟨before, _, userinfo, after, ⟨c, sch, hc, hsch, rfl⟩, huser, rfl⟩
  have hplace : Quiet live (before ++ c :: (sch ++ colon :: slash :: slash :: (userinfo ++ after))) := by
    simpa using h
  obtain ⟨live', hlive'⟩ := quiet_append hplace
  have hread := hlive'.2
  rw [next, hc, Bool.true_or] at hread
  have hmark := (quiet_scheme hsch hread).1 rfl _ rfl
  exact plain_iff.mp hmark userinfo huser after rfl

/-- **Nothing is left to keep out**, whatever the text. -/
theorem redact_not_exposed (s : Text) : ¬ Exposed (redact_userinfo_in_text s) :=
  (redact_scan s).quiet.not_exposed

theorem redact_redact (s : Text) :
    redact_userinfo_in_text (redact_userinfo_in_text s) = redact_userinfo_in_text s :=
  redact_of_not_exposed (redact_not_exposed s)

end OpenChronicle.Redaction
