/-
No file of the live family is lost.

A call works in the recovery directory of its own operation and on the family. What it finds in the
directory it leaves there, its record apart. A file of the family is moved or replaced only when an
archive has it, so that after any number of calls, finished or stopped, it is in place or in the archive
of some operation.

The two halves are proved apart, and both are read off what a call may have done (`Done`), so that no
program is looked into here. The first is about directories: an operation fills its own, and what has
been put there stays (`Effect`). It is a relation between the volume before and after a call that
composes, and a run keeps what every call keeps. The second is about the family: a call leaves a file in
place, or has put it into an archive (`Keeps`).

A digest enters in one place. A repeated attempt recognises by its digest what it finds in place of the
database, as the forward one or the old one; that these are the same bytes holds if no two files of the
volume share a digest. The condition is asked of the volumes on which the calls were started, and not of
every volume that there could be.

Beside an empty `-wal` the sidecars do not count. SQLite makes and removes them when it opens a
database, and the helper lets it do so in its probe.
-/
import OpenChronicle.OfflineRestore.Calls

set_option autoImplicit false

namespace OpenChronicle.OfflineRestore

open Program

/-! ## Recovery directories -/

/-- What a call for `op` does to recovery directories. -/
structure Effect (op : String) (w w' : Volume) : Prop where
  /-- The directories of other operations are not touched. -/
  others : ∀ (p : Path) op', p.owner = some op' → op' ≠ op → w' p = w p
  dir : (∀ p : Path, p.owner = some op → w' p = w p) ∨ found (w' (.recovery op)) = true
  forward_dir : (∀ m, w' (.forward op m) = w (.forward op m)
      ∧ w' (.forward_displaced op m) = w (.forward_displaced op m))
    ∨ found (w' (.forward_state op)) = true
  /-- Nothing in the directory is replaced or removed but the record and its temporary file. -/
  archive : ∀ p : Path, p.owner = some op → p ≠ .state op → p ≠ .state_temp op →
    ∀ n, w p = some n → w' p = some n
  /-- The record is rewritten, and what it says of the old state stays. -/
  assessed : ∀ s, w (.state op) = some (.json s) →
    ∃ s', w' (.state op) = some (.json s') ∧ s'.old_state = s.old_state

section Directories

variable {op : String} {w w' : Volume}

/-- A call that leaves all recovery directories alone. -/
theorem effect_of_same (h : ∀ p : Path, p.owner ≠ none → w' p = w p) : Effect op w w' where
  others p op' hp _ := h p (by simp [hp])
  dir := .inl fun p hp => h p (by simp [hp])
  forward_dir := .inl fun m => ⟨h _ (by simp [Path.owner]), h _ (by simp [Path.owner])⟩
  archive p hp _ _ n hn := (h p (by simp [hp])).trans hn
  assessed s hs := ⟨s, (h _ (by simp [Path.owner])).trans hs, rfl⟩

/-- A record stands in a directory. -/
theorem found_of_state (htree : Tree w) {s : State} (hstate : w (.state op) = some (.json s)) :
    found (w (.recovery op)) = true := by
  by_contra hmissing
  have hnone := htree.recovery op (by simpa using hmissing) (.state op) rfl (by simp)
  rw [hnone] at hstate
  cases hstate

/-- Only the record of the operation changes. -/
theorem effect_of_record {s s' : State} (hdir : found (w (.recovery op)) = true)
    (hagree : ∀ p : Path, p.owner ≠ none → p ≠ .state op → p ≠ .state_temp op → w' p = w p)
    (hstate : w (.state op) = some (.json s)) (hrecord : w' (.state op) = some (.json s'))
    (hassessed : s'.old_state = s.old_state) : Effect op w w' where
  others p op' hp hne := by
    refine hagree p (by simp [hp]) ?_ ?_
    · rintro rfl
      exact hne (Option.some.inj hp).symm
    · rintro rfl
      exact hne (Option.some.inj hp).symm
  dir := by
    right
    rw [hagree _ (by simp [Path.owner]) (by simp) (by simp)]
    exact hdir
  forward_dir := .inl fun m => ⟨hagree _ (by simp [Path.owner]) (by simp) (by simp),
    hagree _ (by simp [Path.owner]) (by simp) (by simp)⟩
  archive p hp hstate htemp n hn := (hagree p (by simp [hp]) hstate htemp).trans hn
  assessed t ht := by
    rw [hstate] at ht
    obtain rfl := Node.json.inj (Option.some.inj ht)
    exact ⟨s', hrecord, hassessed⟩

/-- The effect of two parts of a call is that of the whole. -/
theorem Effect.trans {w₁ w₂ w₃ : Volume} (h₁ : Effect op w₁ w₂) (h₂ : Effect op w₂ w₃) :
    Effect op w₁ w₃ where
  others p op' hp hne := (h₂.others p op' hp hne).trans (h₁.others p op' hp hne)
  dir := by
    rcases h₂.dir with hsame | hfound
    · rcases h₁.dir with hsame' | hfound
      · exact .inl fun p hp => (hsame p hp).trans (hsame' p hp)
      · right
        rw [hsame _ rfl]
        exact hfound
    · exact .inr hfound
  forward_dir := by
    rcases h₂.forward_dir with hsame | hfound
    · rcases h₁.forward_dir with hsame' | hfound
      · exact .inl fun m => ⟨(hsame m).1.trans (hsame' m).1, (hsame m).2.trans (hsame' m).2⟩
      · right
        rcases hnode : w₂ (.forward_state op) with _ | n
        · rw [hnode] at hfound
          cases hfound
        · rw [h₂.archive _ rfl (by simp) (by simp) n hnode, ← hnode]
          exact hfound
    · exact .inr hfound
  archive p hp hstate htemp n hn :=
    h₂.archive p hp hstate htemp n (h₁.archive p hp hstate htemp n hn)
  assessed s hs := by
    obtain ⟨s₂, hs₂, hsame₂⟩ := h₁.assessed s hs
    obtain ⟨s₃, hs₃, hsame₃⟩ := h₂.assessed s₂ hs₂
    exact ⟨s₃, hs₃, hsame₃.trans hsame₂⟩

/-- Files are made in directories that are there. -/
theorem Effect.tree (h : Effect op w w') (htree : Tree w) : Tree w' where
  recovery op' hmissing p hp hne := by
    by_cases heq : op' = op
    · subst heq
      rcases h.dir with hsame | hfound
      · rw [hsame _ rfl] at hmissing
        rw [hsame p hp]
        exact htree.recovery op' hmissing p hp hne
      · rw [hfound] at hmissing
        cases hmissing
    · rw [h.others _ op' rfl heq] at hmissing
      rw [h.others p op' hp heq]
      exact htree.recovery op' hmissing p hp hne
  forward op' hmissing m := by
    by_cases heq : op' = op
    · subst heq
      rcases h.forward_dir with hsame | hfound
      · have hmissing' : found (w (.forward_state op')) = false := by
          rcases hnode : w (.forward_state op') with _ | n
          · rfl
          · rw [h.archive _ rfl (by simp) (by simp) n hnode, ← hnode] at hmissing
            rw [← hnode]
            exact hmissing
        rw [(hsame m).1, (hsame m).2]
        exact htree.forward op' hmissing' m
      · rw [hfound] at hmissing
        cases hmissing
    · rw [h.others _ op' rfl heq] at hmissing
      rw [h.others _ op' rfl heq, h.others _ op' rfl heq]
      exact htree.forward op' hmissing m

/-- **What is in a recovery directory stays there**, the records apart. -/
theorem Effect.permanent (h : Effect op w w') {p : Path} {op' : String} (hp : p.owner = some op')
    (hstate : p ≠ .state op') (htemp : p ≠ .state_temp op') {n : Node} (hn : w p = some n) :
    w' p = some n := by
  by_cases heq : op' = op
  · subst heq
    exact h.archive p hp hstate htemp n hn
  · rw [h.others p op' hp heq, hn]

end Directories

/-! ## The effect of each call -/

section Effects

variable {sha256 : Bytes → Digest} {op : String} {w w' : Volume}

/-- A new operation finds its directory empty. -/
theorem effect_of_fresh (htree : Tree w) (hnew : w (.recovery op) = none)
    (hagree : Agree (work op ∪ Set.range .live) w w') (hdir : found (w' (.recovery op)) = true) :
    Effect op w w' := by
  have hempty : ∀ p : Path, p.owner = some op → w p = none := by
    intro p hp
    by_cases heq : p = .recovery op
    · rw [heq, hnew]
    · exact htree.recovery op (by rw [hnew]; rfl) p hp heq
  refine ⟨?_, .inr hdir, .inl fun m => ⟨?_, ?_⟩, ?_, ?_⟩
  · intro p op' hp hne
    refine hagree p ?_
    rintro ((⟨hown, -⟩ | rfl | rfl) | ⟨m, rfl⟩)
    · rw [hp] at hown
      exact hne (Option.some.inj hown)
    · cases hp
    · cases hp
    · cases hp
  · exact hagree _ (by simp [work, Path.owner, Path.is_forward])
  · exact hagree _ (by simp [work, Path.owner, Path.is_forward])
  · intro p hp _ _ n hn
    rw [hempty p hp] at hn
    cases hn
  · intro s hs
    rw [hempty _ rfl] at hs
    cases hs

/-- An activation refuses an operation that has a directory, so it finds its own empty. -/
theorem Activation.effect {candidate : String} {expected : Expected} (htree : Tree w)
    (h : Activation sha256 candidate expected op w w') : Effect op w w' := by
  cases h with
  | untouched hagree =>
      refine effect_of_same fun p hp => hagree p ?_
      rintro rfl
      exact hp rfl
  | archiving hnew h =>
      exact effect_of_fresh htree hnew (h.agree.mono Set.subset_union_left) h.dir
  | swapping hnew _ h => exact effect_of_fresh htree hnew h.agree h.dir

/-- Each part of a call touches what is its own: the archive is filled, -/
theorem Begun.effect {s s₁ : State} {wa : Volume} (htree : Tree w)
    (hstate : w (.state op) = some (.json s)) (h : Begun sha256 op s w s₁ wa) : Effect op w wa := by
  obtain ⟨files, rfl, -⟩ := h.recorded
  refine ⟨?_, ?_, .inr (by rw [h.dir]; rfl), ?_, ?_⟩
  · intro p op' hp hne
    refine h.agree p ?_
    rintro ((rfl | ⟨m, rfl⟩) | (rfl | rfl))
    all_goals exact hne (Option.some.inj hp).symm
  · right
    rw [h.agree _ (by simp [forwards])]
    exact found_of_state htree hstate
  · intro p _ hp htemp n hn
    have hmissing : found (w (.forward_state op)) = false := by rw [h.new]; rfl
    refine (h.agree p ?_).trans hn
    rintro ((rfl | ⟨m, rfl⟩) | (rfl | rfl))
    · rw [h.new] at hn
      cases hn
    · rw [(htree.forward op hmissing m).1] at hn
      cases hn
    · exact hp rfl
    · exact htemp rfl
  · intro t ht
    rw [hstate] at ht
    obtain rfl := Node.json.inj (Option.some.inj ht)
    exact ⟨_, h.state, rfl⟩

/-- The swap of a rollback fills what is free in `forward-state`, and touches no other archive. -/
theorem effect_of_swap {s s' : State} (hdir : found (w (.recovery op)) = true)
    (hforward : found (w (.forward_state op)) = true)
    (hagree : Agree (exchanged op ∪ {.state op, .incoming op}) w w')
    (hside : ∀ m, m ≠ .main → ∀ n, w (.forward_displaced op m) = some n →
      w' (.forward_displaced op m) = some n)
    (hstate : w (.state op) = some (.json s)) (hrecord : w' (.state op) = some (.json s'))
    (hassessed : s'.old_state = s.old_state) : Effect op w w' := by
  refine ⟨?_, .inr ?_, .inr ?_, ?_, ?_⟩
  · intro p op' hp hne
    refine hagree p ?_
    rintro ((rfl | rfl | ⟨m, rfl⟩ | ⟨m, -, rfl⟩) | (rfl | rfl))
    · cases hp
    · exact hne (Option.some.inj hp).symm
    · cases hp
    · exact hne (Option.some.inj hp).symm
    · exact hne (Option.some.inj hp).symm
    · cases hp
  · rw [hagree _ (by simp [exchanged])]
    exact hdir
  · rw [hagree _ (by simp [exchanged])]
    exact hforward
  · intro p hown hp htemp n hn
    by_cases hdisplaced : ∃ m, m ≠ .main ∧ p = .forward_displaced op m
    · obtain ⟨m, hm, rfl⟩ := hdisplaced
      exact hside m hm n hn
    · refine (hagree p ?_).trans hn
      rintro ((rfl | rfl | ⟨m, rfl⟩ | hm) | (rfl | rfl))
      · cases hown
      · exact htemp rfl
      · cases hown
      · exact hdisplaced hm
      · exact hp rfl
      · cases hown
  · intro t ht
    rw [hstate] at ht
    obtain rfl := Node.json.inj (Option.some.inj ht)
    exact ⟨s', hrecord, hassessed⟩

/-- What a rollback moves it moves to where nothing was. -/
theorem RollingBack.effect (htree : Tree w) (h : RollingBack sha256 op w w') : Effect op w w' := by
  cases h with
  | untouched h => exact h ▸ effect_of_same fun _ _ => rfl
  | @abandoning s hstate _ hagree hrecord =>
      have hsame : ∀ p : Path, p.owner ≠ none → p ≠ .state op → p ≠ .state_temp op → w' p = w p := by
        intro p hp hs ht
        refine hagree p ?_
        rintro (rfl | rfl | rfl)
        · exact hp rfl
        · exact hs rfl
        · exact ht rfl
      have hdir := found_of_state htree hstate
      rcases hrecord with hkept | hnew
      · exact effect_of_record hdir hsame hstate (hkept.trans hstate) rfl
      · exact effect_of_record hdir hsame hstate hnew rfl
  | @archiving s hstate _ hnew hagree hdir =>
      have hmissing : found (w (.forward_state op)) = false := by rw [hnew]; rfl
      refine ⟨?_, .inr ?_, .inr (by rw [hdir]; rfl), ?_, ?_⟩
      · intro p op' hp hne
        refine hagree p ?_
        rintro ((rfl | ⟨m, rfl⟩) | rfl)
        all_goals exact hne (Option.some.inj hp).symm
      · rw [hagree _ (by simp [forwards])]
        exact found_of_state htree hstate
      · intro p _ _ htemp n hn
        refine (hagree p ?_).trans hn
        rintro ((rfl | ⟨m, rfl⟩) | rfl)
        · rw [hnew] at hn
          cases hn
        · rw [(htree.forward op hmissing m).1] at hn
          cases hn
        · exact htemp rfl
      · intro t ht
        exact ⟨t, (hagree _ (by simp [forwards])).trans ht, rfl⟩
  | @installing s s₁ d old wa hstate _ _ _ _ _ _ hopens h =>
      -- up to the swap, then the swap
      have hbefore : Effect op w wa ∧ wa (.state op) = some (.json s₁)
          ∧ wa (.forward_state op) = some .dir := by
        cases hopens with
        | first _ hbegun => exact ⟨hbegun.effect htree hstate, hbegun.state, hbegun.dir⟩
        | again _ hchecked => exact ⟨effect_of_same fun _ _ => rfl, hstate, hchecked.dir⟩
      obtain ⟨heffect, hstate₁, hforward⟩ := hbefore
      have hdir : found (wa (.recovery op)) = true := found_of_state (heffect.tree htree) hstate₁
      have hforward' : found (wa (.forward_state op)) = true := by rw [hforward]; rfl
      refine heffect.trans ?_
      rcases h with h | h
      · refine effect_of_swap hdir hforward' (h.agree.mono Set.subset_union_left) ?_ hstate₁
          ((h.agree _ (by simp [exchanged])).trans hstate₁) rfl
        intro m hm n hn
        rcases h.side m hm with ⟨-, hsame⟩ | ⟨-, hfree, -⟩
        · rw [hsame, hn]
        · rw [hn] at hfree
          cases hfree
      · obtain ⟨probed, hrecord⟩ := h.state
        refine effect_of_swap hdir hforward' h.agree ?_ hstate₁ hrecord rfl
        intro m hm n hn
        rcases h.side m hm with ⟨-, hsame⟩ | ⟨hfree, -⟩
        · rw [hsame, hn]
        · rw [hn] at hfree
          cases hfree

/-- the probe writes and removes what it wrote, -/
theorem Probing.effect (htree : Tree w) (h : Probing sha256 op w w') : Effect op w w' := by
  cases h with
  | untouched h => exact h ▸ effect_of_same fun _ _ => rfl
  | @stale s hstate h =>
      have hsame : ∀ p : Path, p.owner ≠ none → p ≠ .state op → p ≠ .state_temp op → w' p = w p := by
        intro p _ hs ht
        refine h.1 p ?_
        rintro (rfl | rfl)
        · exact hs rfl
        · exact ht rfl
      have hdir := found_of_state htree hstate
      rcases h.2 with hkept | hnew
      · exact effect_of_record hdir hsame hstate (hkept.trans hstate) rfl
      · exact effect_of_record hdir hsame hstate hnew rfl
  | @probing s b hstate _ _ _ _ h =>
      have hsame : ∀ p : Path, p.owner ≠ none → p ≠ .state op → p ≠ .state_temp op → w' p = w p := by
        intro p hp hs ht
        refine h.agree p ?_
        rintro (rfl | rfl | rfl | rfl)
        · exact hs rfl
        · exact ht rfl
        · exact hp rfl
        · exact hp rfl
      have hdir := found_of_state htree hstate
      rcases h.record with hkept | ⟨text, hnew⟩
      · exact effect_of_record hdir hsame hstate (hkept.trans hstate) rfl
      · exact effect_of_record hdir hsame hstate hnew rfl

/-- the candidate is taken out of the stage, -/
theorem Retiring.effect (htree : Tree w) (h : Retiring op w w') : Effect op w w' := by
  cases h with
  | untouched h => exact h ▸ effect_of_same fun _ _ => rfl
  | @retiring s name hstate hagree hrecord =>
      obtain ⟨retirement, hnew⟩ := hrecord
      refine effect_of_record (found_of_state htree hstate) ?_ hstate hnew rfl
      intro p hp hs ht
      refine hagree p ?_
      rintro (rfl | rfl | rfl | rfl)
      · exact hs rfl
      · exact ht rfl
      · exact hp rfl
      · exact hp rfl

/-- and a whole call does one after the other. -/
theorem Done.effect {t : Task} (htree : Tree w) (h : Done sha256 w w' t) :
    Effect t.operation_id w w' := by
  cases t with
  | activate candidate operation_id expected apply => exact Activation.effect htree h
  | rollback operation_id apply => exact RollingBack.effect htree h
  | probe operation_id => exact Probing.effect htree h
  | retire_stage operation_id apply => exact Retiring.effect htree h

end Effects

/-! ## The family -/

/-- A file of the family is in an archive of the operation. -/
def InArchive (op : String) (m : Member) (c : Bytes) (w : Volume) : Prop :=
  w (.raw op m) = some (.file c) ∨ w (.forward op m) = some (.file c)
    ∨ w (.forward_displaced op m) = some (.file c)

/-- The file is in place. Beside an empty `-wal` the sidecars do not count: SQLite makes and
removes them as it opens and closes a database. -/
def InPlace (m : Member) (c : Bytes) (w : Volume) : Prop :=
  w (.live m) = some (.file c) ∧ (m = .main ∨ w (.live .wal) ≠ some (.file []))

/-- A call leaves each file of the family in place, or in an archive. -/
def Keeps (op : String) (w w' : Volume) : Prop :=
  ∀ m c, InPlace m c w → InPlace m c w' ∨ InArchive op m c w'

/-- No two files have the same digest and different bytes. -/
def Distinct (sha256 : Bytes → Digest) (w : Volume) : Prop :=
  ∀ p q b c, w p = some (.file b) → w q = some (.file c) → sha256 b = sha256 c → b = c

section Family

variable {sha256 : Bytes → Digest} {op : String} {w w' : Volume}

/-- A call that does not touch the family. -/
theorem keeps_of_live (h : ∀ m, w' (.live m) = w (.live m)) : Keeps op w w' := by
  intro m c hc
  rw [InPlace, h, h]
  exact .inl hc

/-- The swap of an activation comes after `raw-old` is whole. -/
theorem Activation.keeps {candidate : String} {expected : Expected}
    (h : Activation sha256 candidate expected op w w') : Keeps op w w' := by
  cases h with
  | untouched hagree => exact keeps_of_live fun m => hagree _ (by simp)
  | archiving _ h => exact keeps_of_live fun m => h.agree _ (live_notMem_work op m)
  | swapping _ _ h => exact fun m c hc => .inr (.inl (h.raw m c hc.1))

/-- The forward archive of a first attempt has the whole family. -/
theorem Begun.forward {s s₁ : State} {wa : Volume} (h : Begun sha256 op s w s₁ wa) {m : Member}
    {c : Bytes} (hc : w (.live m) = some (.file c)) : wa (.forward op m) = some (.file c) := by
  obtain ⟨files, -, -, hcopied⟩ := h.recorded
  obtain ⟨b, hb, hcopy, -⟩ := hcopied m (mem_members hc)
  rw [hc] at hb
  rw [hcopy, hb]

/-- What a repeated attempt finds in place is in the forward archive, or it is the old database. -/
theorem Checked.forward {s : State} {old_digest : Digest} {files : List (Member × Digest)}
    (h : Checked sha256 op s old_digest files w) (hdistinct : Distinct sha256 w) {m : Member}
    {c : Bytes} (hc : w (.live m) = some (.file c)) :
    w (.forward op m) = some (.file c) ∨ (m = .main ∧ sha256 c = old_digest) := by
  have harchived : ∀ {digest}, files.lookup m = some digest → sha256 c = digest →
      w (.forward op m) = some (.file c) := by
    intro digest hlookup hdigest
    have hin : (m, digest) ∈ files := by
      obtain ⟨l₁, l₂, rfl, -⟩ := List.lookup_eq_some_iff.mp hlookup
      simp
    obtain ⟨c', hforward, hsame⟩ := h.archived m digest hin
    obtain rfl := hdistinct _ _ _ _ hc hforward (hdigest.trans hsame.symm)
    exact hforward
  by_cases hm : m = .main
  · subst hm
    obtain ⟨c', hc', hor⟩ := h.main
    obtain rfl := file_unique hc hc'
    rcases hor with hlookup | hold
    · exact .inl (harchived hlookup rfl)
    · exact .inr ⟨rfl, hold⟩
  · have hside := h.side m hm
    unfold SideChecked at hside
    split at hside
    · rw [hside.1] at hc
      cases hc
    · next digest hlookup =>
        rcases hside with ⟨c', hc', hdigest, -⟩ | ⟨hnone, -⟩
        · obtain rfl := file_unique hc hc'
          exact .inl (harchived hlookup hdigest)
        · rw [hnone] at hc
          cases hc

/-- What the swap of a rollback has done to the database, recorded or not. -/
theorem swap_main {s₁ : State} {old : Bytes} {wa : Volume}
    (h : Swapping op old wa w' ∨ Swapped op old wa s₁ w') :
    w' (.live .main) = wa (.live .main) ∨ w' (.live .main) = some (.file old) := by
  rcases h with h | h
  · exact h.main
  · exact .inr h.main

/-- The swap moves the files of the database and nothing else. -/
theorem swap_agree {s₁ : State} {old : Bytes} {wa : Volume}
    (h : Swapping op old wa w' ∨ Swapped op old wa s₁ w') :
    Agree (exchanged op ∪ {.state op, .incoming op}) wa w' := by
  rcases h with h | h
  · exact h.agree.mono Set.subset_union_left
  · exact h.agree

/-- A first attempt has archived what it replaces; a repeated one knows by its digest what it finds. -/
theorem RollingBack.keeps (hdistinct : Distinct sha256 w) (h : RollingBack sha256 op w w') :
    Keeps op w w' := by
  cases h with
  | untouched h => exact keeps_of_live fun m => by rw [h]
  | abandoning _ _ hagree _ => exact keeps_of_live fun m => hagree _ (by simp)
  | archiving _ _ _ hagree _ => exact keeps_of_live fun m => hagree _ (by simp [forwards])
  | @installing s s₁ d old wa _ _ _ _ _ hold hdigest hopens h =>
      intro m c hc
      have hforward : wa (.forward op m) = some (.file c) → InArchive op m c w' := by
        intro hwa
        exact .inr (.inl ((swap_agree h _ (by simp [exchanged])).trans hwa))
      cases hopens with
      | first _ hbegun => exact .inr (hforward (hbegun.forward hc.1))
      | again _ hchecked =>
          rcases hchecked.forward hdistinct hc.1 with harchived | ⟨rfl, hsame⟩
          · exact .inr (hforward harchived)
          · -- the database is the old one already
            obtain rfl := hdistinct _ _ _ _ hc.1 hold (hsame.trans hdigest.symm)
            refine .inl ⟨?_, .inl rfl⟩
            rcases swap_main h with hmain | hmain
            · rw [hmain, hc.1]
            · exact hmain

/-- A probe changes sidecars, and only where they do not count. -/
theorem Probing.keeps (h : Probing sha256 op w w') : Keeps op w w' := by
  cases h with
  | untouched h => exact keeps_of_live fun m => by rw [h]
  | stale _ h => exact keeps_of_live fun m => h.1 _ (by simp)
  | probing _ _ _ _ hquiet h =>
      rintro m c ⟨hc, hwal⟩
      left
      by_cases hm : m = .main
      · subst hm
        exact ⟨(h.agree _ (by simp)).trans hc, .inl rfl⟩
      · -- without an empty `-wal` there was no sidecar at all
        rcases hquiet with ⟨hnowal, hnoshm⟩ | hempty
        · rcases m with _ | _ | _
          · exact absurd rfl hm
          · rw [hnowal] at hc
            cases hc
          · rw [hnoshm] at hc
            cases hc
        · rcases hwal with hmain | hne
          · exact absurd hmain hm
          · exact absurd hempty hne

/-- What the operation had archived is there after the call. -/
theorem Done.keeps {t : Task} (hdistinct : Distinct sha256 w) (h : Done sha256 w w' t) :
    Keeps t.operation_id w w' := by
  cases t with
  | activate candidate operation_id expected apply => exact Activation.keeps h
  | rollback operation_id apply => exact RollingBack.keeps hdistinct h
  | probe operation_id => exact Probing.keeps h
  | retire_stage operation_id apply =>
      cases h with
      | untouched h => exact keeps_of_live fun m => by rw [h]
      | retiring _ hagree _ => exact keeps_of_live fun m => hagree _ (by simp)

end Family

/-! ## The database -/

/-- Bytes that passed `_preflight`, or that are the consolidated old state of an operation with
the digest its record has. -/
def Installable (sha256 : Bytes → Digest) (b : Bytes) (w : Volume) : Prop :=
  (∃ candidate expected name info, Passed sha256 candidate expected name info b w)
    ∨ ∃ op s d, w (.old_consistent op) = some (.file b) ∧ w (.state op) = some (.json s)
      ∧ s.old_state = some d ∧ d.rollback_available = true ∧ d.sha256 = sha256 b

/-- Whatever a call did, the database is what it was or something that was checked. -/
theorem Done.main {sha256 : Bytes → Digest} {w w' : Volume} {t : Task}
    (h : Done sha256 w w' t) : w' (.live .main) = w (.live .main)
      ∨ ∃ b, w' (.live .main) = some (.file b) ∧ Installable sha256 b w := by
  cases t with
  | activate candidate operation_id expected apply =>
      cases h with
      | untouched hagree => exact .inl (hagree _ (by simp))
      | archiving _ h => exact .inl (h.agree _ (live_notMem_work _ _))
      | swapping _ hpassed h =>
          exact h.main.imp id fun hmain => ⟨_, hmain, .inl ⟨_, _, _, _, hpassed⟩⟩
  | rollback operation_id apply =>
      cases h with
      | untouched h => exact .inl (by rw [h])
      | abandoning _ _ hagree _ => exact .inl (hagree _ (by simp))
      | archiving _ _ _ hagree _ => exact .inl (hagree _ (by simp [forwards]))
      | @installing s s₁ d old wa hstate _ _ hassessed havailable hold hdigest hopens h =>
          have hsame : wa (.live .main) = w (.live .main) := by
            cases hopens with
            | first _ hbegun => exact hbegun.agree _ (by simp [forwards])
            | again _ _ => rfl
          rcases swap_main h with hmain | hmain
          · exact .inl (hmain.trans hsame)
          · exact .inr ⟨old, hmain, .inr ⟨operation_id, s, d, hold, hstate, hassessed, havailable,
              hdigest.symm⟩⟩
  | probe operation_id =>
      cases h with
      | untouched h => exact .inl (by rw [h])
      | stale _ h => exact .inl (h.1 _ (by simp))
      | probing _ _ _ _ _ h => exact .inl (h.agree _ (by simp))
  | retire_stage operation_id apply =>
      cases h with
      | untouched h => exact .inl (by rw [h])
      | retiring _ hagree _ => exact .inl (hagree _ (by simp))

/-! ## Runs -/

/-- A run in which each call was started on a volume whose files have digests of their own. -/
abbrev DistinctRun (sha256 : Bytes → Digest) : Volume → Volume → Prop :=
  ReachesWhile exec (helper sha256) (Distinct sha256)

section Runs

variable {sha256 : Bytes → Digest} {w₀ w w' : Volume}

/-- The run lemmas: the induction is on the calls. -/
theorem run_tree (htree : Tree w) (h : Run sha256 w w') : Tree w' := by
  refine h.keeps ?_ htree
  intro t cs w₁ _ h₁
  exact ((after_call_done h₁ t cs).effect h₁).tree h₁

/-- What a recovery directory has, it has for good. -/
theorem run_permanent (htree : Tree w) (h : Run sha256 w w') {p : Path} {op : String}
    (hp : p.owner = some op) (hstate : p ≠ .state op) (htemp : p ≠ .state_temp op) {n : Node}
    (hn : w p = some n) : w' p = some n := by
  refine h.keeps (I := fun w => w p = some n) ?_ hn
  intro t cs w₁ h₁ hn₁
  have htree₁ := run_tree htree h₁
  exact ((after_call_done htree₁ t cs).effect htree₁).permanent hp hstate htemp hn₁

/-- By induction over the calls. -/
theorem run_archived (htree : Tree w) (h : Run sha256 w w') {op : String} {m : Member}
    {c : Bytes} (hc : InArchive op m c w) : InArchive op m c w' := by
  rcases hc with hraw | hforward | hdisplaced
  · exact .inl (run_permanent htree h rfl (by simp) (by simp) hraw)
  · exact .inr (.inl (run_permanent htree h rfl (by simp) (by simp) hforward))
  · exact .inr (.inr (run_permanent htree h rfl (by simp) (by simp) hdisplaced))

/-- **A file of the family stays in place until some operation has archived it.** -/
theorem run_keeps (htree : Tree w) (h : DistinctRun sha256 w w') {m : Member} {c : Bytes} (hc : InPlace m c w) :
    InPlace m c w' ∨ ∃ op, InArchive op m c w' := by
  refine h.keeps (I := fun w => InPlace m c w ∨ ∃ op, InArchive op m c w) ?_ (.inl hc)
  intro t cs w₁ h₁ hdistinct hc₁
  have htree₁ := run_tree htree h₁
  rcases hc₁ with hplace | ⟨op, harchive⟩
  · exact ((after_call_done htree₁ t cs).keeps hdistinct m c hplace).imp id fun h => ⟨_, h⟩
  · exact .inr ⟨op, run_archived htree₁ (.call .refl t cs) harchive⟩

/-- What has been installed since `w₀`: the database of `w₀`, a candidate that passed
`_preflight`, or an old state with its recorded digest. -/
def Installed (sha256 : Bytes → Digest) (w₀ w : Volume) : Prop :=
  w (.live .main) = w₀ (.live .main) ∨ ∃ b w₁, w (.live .main) = some (.file b)
    ∧ Run sha256 w₀ w₁ ∧ Installable sha256 b w₁

/-- The same for what is installed. -/
theorem run_installed (htree : Tree w₀) (h : Run sha256 w₀ w) :
    Installed sha256 w₀ w := by
  refine h.keeps (I := Installed sha256 w₀) ?_ (.inl rfl)
  intro t cs w₁ h₁ hinstalled
  have hdone : Done sha256 w₁ _ t := after_call_done (run_tree htree h₁) t cs
  rcases hdone.main with hsame | ⟨b, hmain, hb⟩
  · rcases hinstalled with hfirst | ⟨b, w₂, hmain, h₂, hb⟩
    · exact .inl (hsame.trans hfirst)
    · exact .inr ⟨b, w₂, hsame.trans hmain, h₂, hb⟩
  · exact .inr ⟨b, w₁, hmain, h₁, hb⟩

/-- The family that an activation finds stays in its `raw-old`, or where it was. -/
theorem activation_keeps_family (htree : Tree w₀)
    {w₁ w₃ : Volume} {candidate : String} {op : String} {expected : Expected} {apply : Bool}
    {cs : List Choice} (h₁ : Run sha256 w₀ w₁) (hdistinct : Distinct sha256 w₁)
    (hunused : found (w₁ (.recovery op)) = false)
    (h₃ : DistinctRun sha256 (after sha256 (.activate candidate op expected apply) cs w₁) w₃) {m : Member}
    {c : Bytes} (hc : w₁ (.live m) = some (.file c)) :
    w₃ (.raw op m) = some (.file c)
      ∨ ((∀ s, after sha256 (.activate candidate op expected apply) cs w₁ (.state op) = some (.json s) →
          s.phase = .archiving)
        ∧ (m = .main ∨ w₁ (.live .wal) ≠ some (.file []) →
          w₃ (.live m) = some (.file c) ∨ ∃ op', InArchive op' m c w₃)) := by
  have htree₁ := run_tree htree h₁
  have hcall : DistinctRun sha256 w₁ (after sha256 (.activate candidate op expected apply) cs w₁) :=
    .call .refl hdistinct _ cs
  have hdone : Activation sha256 candidate expected op w₁ _ :=
    after_call_done htree₁ (.activate candidate op expected apply) cs
  have hnostate : w₁ (.state op) = none := htree₁.recovery op hunused _ rfl (by simp)
  -- until the swap may begin, the family is where it was
  have hlater : m = .main ∨ w₁ (.live .wal) ≠ some (.file []) →
      w₃ (.live m) = some (.file c) ∨ ∃ op', InArchive op' m c w₃ := by
    intro hwal
    have hkept := run_keeps htree₁ (hcall.trans h₃) ⟨hc, hwal⟩
    exact hkept.imp And.left id
  cases hdone with
  | untouched hagree =>
      refine .inr ⟨?_, hlater⟩
      intro s hs
      rw [hagree _ (by simp), hnostate] at hs
      cases hs
  | archiving _ h =>
      refine .inr ⟨?_, hlater⟩
      intro s hs
      rcases h.record with hkept | ⟨s', hs', hphase, -⟩
      · rw [hkept, hnostate] at hs
        cases hs
      · rw [hs'] at hs
        obtain rfl := Node.json.inj (Option.some.inj hs)
        exact hphase
  | swapping _ _ h =>
      exact .inl (run_permanent (run_tree htree₁ hcall.reaches) h₃.reaches rfl (by simp) (by simp) (h.raw m c hc))

/-- The family that a rollback finds stays in its `forward-state`, or it was the old database. -/
theorem rollback_keeps_family (htree : Tree w₀)
    {w₁ w₃ : Volume} {op : String} {apply : Bool} {cs : List Choice} {s t : State}
    (h₁ : Run sha256 w₀ w₁) (hdistinct : Distinct sha256 w₁) (hs : w₁ (.state op) = some (.json s))
    (ht : after sha256 (.rollback op apply) cs w₁ (.state op) = some (.json t))
    (h₃ : Run sha256 (after sha256 (.rollback op apply) cs w₁) w₃) {m : Member} {c : Bytes}
    (hc : w₁ (.live m) = some (.file c)) :
    (s.phase = .prepared ∨ s.phase = .activated →
        t.phase = .rolling_back ∨ t.phase = .rolled_back → w₃ (.forward op m) = some (.file c))
      ∧ (s.phase = .rolling_back → after sha256 (.rollback op apply) cs w₁ ≠ w₁ →
        w₃ (.forward op m) = some (.file c)
          ∨ (m = .main ∧ w₃ (.old_consistent op) = some (.file c))) := by
  have htree₁ := run_tree htree h₁
  have htree₂ : Tree (after sha256 (.rollback op apply) cs w₁) :=
    run_tree htree₁ (.call .refl _ cs)
  have hdone : RollingBack sha256 op w₁ _ := after_call_done htree₁ (.rollback op apply) cs
  have hsame : ∀ {s'}, w₁ (.state op) = some (.json s') → s' = s := by
    intro s' hs'
    rw [hs] at hs'
    exact (Node.json.inj (Option.some.inj hs')).symm
  -- a call that has not come to its swap has recorded no swap
  have hunrecorded : after sha256 (.rollback op apply) cs w₁ (.state op) = w₁ (.state op) →
      s.phase = .prepared ∨ s.phase = .activated →
      ¬(t.phase = .rolling_back ∨ t.phase = .rolled_back) := by
    intro hkept hfirst hrolled
    rw [ht, hs] at hkept
    obtain rfl := Node.json.inj (Option.some.inj hkept)
    rcases hfirst with h | h <;> rcases hrolled with h' | h' <;> rw [h] at h' <;> cases h'
  cases hdone with
  | untouched h =>
      exact ⟨fun hfirst hrolled => absurd hrolled (hunrecorded (by rw [h]) hfirst),
        fun _ hne => absurd h hne⟩
  | abandoning hstate hphase _ _ =>
      obtain rfl := hsame hstate
      refine ⟨fun hfirst => ?_, fun hrolling => ?_⟩
      · rcases hfirst with h | h <;> rw [hphase] at h <;> cases h
      · rw [hphase] at hrolling
        cases hrolling
  | archiving hstate hphase _ hagree _ =>
      obtain rfl := hsame hstate
      refine ⟨fun hfirst hrolled => absurd hrolled (hunrecorded (hagree _ (by simp [forwards])) hfirst),
        fun hrolling => ?_⟩
      rcases hphase with h | h <;> rw [hrolling] at h <;> cases h
  | @installing s' s₁ d old wa hstate _ _ _ _ hold hdigest hopens h =>
      obtain rfl := hsame hstate
      have hforward : wa (.forward op m) = some (.file c) → w₃ (.forward op m) = some (.file c) := by
        intro hwa
        refine run_permanent htree₂ h₃ rfl (by simp) (by simp) ?_
        rw [swap_agree h _ (by simp [exchanged]), hwa]
      cases hopens with
      | first hphase hbegun =>
          refine ⟨fun _ _ => hforward (hbegun.forward hc), fun hrolling => ?_⟩
          rcases hphase with h | h <;> rw [hrolling] at h <;> cases h
      | again hphase hchecked =>
          refine ⟨fun hfirst => ?_, fun _ _ => ?_⟩
          · rcases hfirst with h | h <;> rw [hphase] at h <;> cases h
          · rcases hchecked.forward hdistinct hc with harchived | ⟨rfl, hdigest'⟩
            · exact .inl (hforward harchived)
            · obtain rfl := hdistinct _ _ _ _ hc hold (hdigest'.trans hdigest.symm)
              refine .inr ⟨rfl, run_permanent htree₂ h₃ rfl (by simp) (by simp) ?_⟩
              rw [swap_agree h _ (by simp [exchanged]), hold]

/-- **Offline restore loses no file.** Calls are finished or stopped at any step, for any
operations, and SQLite and the operating system answer as they like.

The family that an activation finds is in its `raw-old` from the moment it may begin its swap;
until then it is in place, or in an archive of the operation that replaced it. The family that
a rollback finds is in its `forward-state` from the moment it may begin its swap; a repeated
attempt finds it there, or finds the old database installed. The database is always whole.

A digest stands for a file on the volumes that the calls in question were started on: on the one the
family was found on and, where archives of other operations matter, on the later ones of that run. -/
theorem no_file_is_lost (htree : Tree w₀) :
    (∀ w₁ candidate op expected apply cs w₂ w₃, Run sha256 w₀ w₁ → Distinct sha256 w₁ →
      found (w₁ (.recovery op)) = false →
      w₂ = after sha256 (.activate candidate op expected apply) cs w₁ → DistinctRun sha256 w₂ w₃ →
      ∀ m c, w₁ (.live m) = some (.file c) → w₃ (.raw op m) = some (.file c)
        ∨ ((∀ s, w₂ (.state op) = some (.json s) → s.phase = .archiving)
          ∧ (m = .main ∨ w₁ (.live .wal) ≠ some (.file []) →
            w₃ (.live m) = some (.file c) ∨ ∃ op', InArchive op' m c w₃)))
    ∧ (∀ w₁ op apply cs w₂ w₃ s t, Run sha256 w₀ w₁ → Distinct sha256 w₁ →
      w₁ (.state op) = some (.json s) →
      w₂ = after sha256 (.rollback op apply) cs w₁ → w₂ (.state op) = some (.json t) →
      Run sha256 w₂ w₃ →
      ∀ m c, w₁ (.live m) = some (.file c) →
        (s.phase = .prepared ∨ s.phase = .activated →
          t.phase = .rolling_back ∨ t.phase = .rolled_back → w₃ (.forward op m) = some (.file c))
        ∧ (s.phase = .rolling_back → w₂ ≠ w₁ → w₃ (.forward op m) = some (.file c)
          ∨ (m = .main ∧ w₃ (.old_consistent op) = some (.file c))))
    ∧ ∀ w, Run sha256 w₀ w → Installed sha256 w₀ w := by
  refine ⟨?_, ?_, fun w h => run_installed htree h⟩
  · rintro w₁ candidate op expected apply cs w₂ w₃ h₁ hdistinct hunused rfl h₃ m c hc
    exact activation_keeps_family htree h₁ hdistinct hunused h₃ hc
  · rintro w₁ op apply cs w₂ w₃ s t h₁ hdistinct hs rfl ht h₃ m c hc
    exact rollback_keeps_family htree h₁ hdistinct hs ht h₃ hc

end Runs

/-! ## An activation started again

An activation stops once it has made its recovery directory. The candidate is then activated
under a new operation. -/

namespace Restarted

open Sample

def name : String := "candidate-0123456789abcdef01234567.db"

def volume : Volume
  | .data => some .dir
  | .stage_dir => some .dir
  | .live .main => some (.file [1])
  | .live .wal => some (.file [2])
  | .staged staged => if staged = name then some (.file [9]) else none
  | _ => none

/-- The directories are directories. -/
theorem tree_volume : Tree volume := by
  refine ⟨?_, fun op _ m => ⟨rfl, rfl⟩⟩
  intro op _ p hp _
  cases p <;> first | rfl | cases hp

def activation (op : String) : Task :=
  .activate ("/data/.restore-stage/" ++ name) op ⟨sha256 [9], 5, ""⟩ true

/-- Every step goes well, and SQLite's copy of the old state is `[3]`. -/
def go : Choice := { copied := some [3] }

def stopped : Volume := after sha256 (activation "op-1") (List.replicate 26 go) volume

def activated : Volume := after sha256 (activation "op-2") (List.replicate 95 go) stopped

theorem run_stopped : Run sha256 volume stopped := .call .refl _ _

/-- The digests of the sample are the files themselves. -/
theorem distinct (w : Volume) : Distinct sha256 w := fun _ _ _ _ _ _ hsame => sha256_injective hsame

theorem run_activated : DistinctRun sha256 stopped activated := .call .refl (distinct stopped) _ _

/-- The database that the first activation found is in an archive. -/
theorem no_file_is_lost_restarted :
    (∃ op, InArchive op .main [1] activated) ∧ Installed sha256 volume activated := by
  have hall := @no_file_is_lost sha256 volume tree_volume
  have hkept := hall.1 volume _ "op-1" _ _ _ stopped activated .refl (distinct volume) rfl rfl run_activated .main
    [1] rfl
  refine ⟨?_, hall.2.2 _ (run_stopped.trans run_activated.reaches)⟩
  rcases hkept with hraw | ⟨-, hlater⟩
  · exact ⟨"op-1", .inl hraw⟩
  · exact (hlater (.inl rfl)).resolve_left (by decide +kernel)

/-- The family that the first activation found is neither in place nor in its own directory. -/
theorem archive_is_the_other_operations :
    volume (.live .main) = some (.file [1]) ∧ found (volume (.recovery "op-1")) = false
      ∧ Run sha256 (after sha256 (activation "op-1") (List.replicate 26 go) volume) activated
      ∧ activated (.live .main) ≠ some (.file [1]) ∧ activated (.raw "op-1" .main) ≠ some (.file [1])
      ∧ activated (.displaced "op-1" .main) ≠ some (.file [1]) := by
  refine ⟨rfl, rfl, run_activated.reaches, ?_, ?_, ?_⟩
  · decide +kernel
  · decide +kernel
  · decide +kernel

end Restarted

end OpenChronicle.OfflineRestore
