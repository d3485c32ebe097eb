/-
A revision stamp never leads the weights.

The snapshot a save is stamped with was read before the text was embedded, and a known snapshot was put
there by a probe that had read it from the server. So the digest on a row was listed by the server
before the row's vector was made. Digests never recur; if the digest is the server's still, no re-pull
lies between the two, and the vector is one of the weights the stamp names.

A stamp may trail the weights: a model that is re-pulled between the read and the embed gives a vector
of the new weights under the old digest. The next probe finds the new digest, and the row is then one of
an older revision. The other direction is the one that nothing would ever notice, and it is what is
excluded here.
-/
import OpenChronicle.Embedding.World

set_option autoImplicit false

namespace OpenChronicle

open Program Machine

variable {F : Type} {D : Deployment F}

/-- A revision is verified by a probe that listed it. -/
theorem mem_verified {log : List (EmbEvent D)} {digest : Option String} :
    digest ∈ verified log ↔ ∃ t r, .called t ⟨.probe_succeeded digest, r⟩ ∈ log := by
  unfold verified
  rw [List.mem_filterMap]
  constructor
  · rintro ⟨e, he, heq⟩
    split at heq
    · obtain rfl := Option.some.inj heq
      exact ⟨_, _, he⟩
    · cases heq
  · rintro ⟨t, r, h⟩
    exact ⟨_, h, rfl⟩

section Runs

variable {ok : EmbConf D → (embedding D).Action → Prop} {db : Db F} {c : EmbConf D}

/-- A verified revision was listed by the server before. -/
theorem listed_of_verified (h : Reach ok (Conf.initial (boot db)) c) {pre : List (EmbEvent D)}
    (hlog : pre <:+ c.log) {digest : Option String} (hv : digest ∈ verified pre) :
    ∃ u, .called u ⟨.http_get_tags, .ok (some digest)⟩ ∈ pre := by
  obtain ⟨u, r, hmem⟩ := mem_verified.mp hv
  obtain ⟨pre', hprobe⟩ := suffix_of_mem hmem
  obtain ⟨task, -, -, h', hown⟩ := (reach_ordered h).each _ _ (hprobe.trans hlog)
  refine ⟨u, hprobe.subset (List.mem_cons_of_mem _ ?_)⟩
  rw [← mem_own, hown]
  exact List.mem_cons_self

/-- What a thread reads as known had been verified by then. -/
theorem verified_of_read (h : Reach ok (Conf.initial (boot db)) c) {t : ℕ} {value : Option String}
    {pre : List (EmbEvent D)}
    (hlog : .called t ⟨.read_revision, .ok ⟨true, value⟩⟩ :: pre <:+ c.log) :
    value ∈ verified pre := by
  have hread := (reach_tracked h).answered _ pre hlog
  exact List.mem_of_mem_head? (snapshot_of_known hread.symm)

/-- **A stamp never leads the weights.** In every run, re-pulls and restarts included:
the digest on a stored vector was listed to a probe before the thread that embedded it
read it as verified, and so before its embed began; and a vector stamped with the
server's current digest was produced by the current weights. -/
theorem stamp_never_leads_weights (hinj : Function.Injective D.digest)
    (hdb : db.memory_embeddings = []) (h : Reach (fun _ _ => True) (Conf.initial (boot db)) c)
    {id : String} {row : EmbeddingRow F} (hrow : c.world.db.embedding_row id = some row)
    (hok : row.status = .ok) :
    (∃ t u text texts vecs, ∃ at_embed at_read : List (EmbEvent D),
      .called t ⟨.http_post_embed texts, .ok vecs⟩ :: at_embed <:+ c.log
      ∧ .called t ⟨.read_revision, .ok ⟨true, row.model_revision⟩⟩ :: at_read <:+ at_embed
      ∧ .called u ⟨.http_get_tags, .ok (some row.model_revision)⟩ ∈ at_read
      ∧ (text, row.embedding) ∈ texts.zip vecs ∧ row.content_hash = D.hash_content text)
    ∧ (D.digest c.world.pulls = row.model_revision →
      ∃ text, row.content_hash = D.hash_content text
        ∧ row.embedding = D.produce c.world.pulls text) := by
  obtain ⟨t, text, texts, vecs, at_embed, hembed, hknown, hzip, hhash⟩ := reach_embedded hdb h hrow hok
  obtain ⟨at_read, hread⟩ := suffix_of_mem (mem_own.mp hknown)
  have hread' := hread.trans ((List.suffix_cons _ _).trans hembed)
  have hlisted := listed_of_verified h ((List.suffix_cons _ _).trans hread')
    (verified_of_read h hread')
  obtain ⟨u, hu⟩ := hlisted
  refine ⟨⟨t, u, text, texts, vecs, at_embed, at_read, hembed, hread, hu, hzip, hhash⟩, ?_⟩
  intro hcurrent
  refine ⟨text, hhash, ?_⟩
  -- both requests name the count of re-pulls they saw
  have htracked := reach_tracked h
  have hvecs : vecs = texts.map (D.produce (repulls at_embed)) := htracked.answered _ _ hembed
  obtain ⟨at_probe, hprobe⟩ := suffix_of_mem hu
  have hprobe' : .called u ⟨.http_get_tags, .ok (some row.model_revision)⟩ :: at_probe <:+ at_embed :=
    hprobe.trans ((List.suffix_cons _ _).trans hread)
  have hdigest : row.model_revision = D.digest (repulls at_probe) :=
    htracked.answered _ _ (hprobe'.trans ((List.suffix_cons _ _).trans hembed))
  -- the current count is the one of the listing, so also the one in between
  have hsame : repulls at_probe = c.world.pulls := hinj (hdigest.symm.trans hcurrent.symm)
  have hle : repulls at_probe ≤ repulls at_embed :=
    repulls_mono ((List.suffix_cons _ _).trans hprobe')
  have hge : repulls at_embed ≤ c.world.pulls := by
    rw [htracked.pulls]
    exact repulls_mono ((List.suffix_cons _ _).trans hembed)
  have hpulls : repulls at_embed = c.world.pulls := by omega
  rw [hvecs, hpulls, List.zip_map_right, List.mem_map] at hzip
  obtain ⟨⟨s, s'⟩, hmem, heq⟩ := hzip
  obtain ⟨rfl, hvec⟩ := Prod.mk.inj heq
  have hsame' : s = s' := by
    obtain ⟨i, hi⟩ := List.mem_iff_getElem?.mp hmem
    obtain ⟨h₁, h₂⟩ := List.getElem?_zip_eq_some.mp hi
    exact Option.some.inj (h₁.symm.trans h₂)
  rw [hsame']
  exact hvec.symm

end Runs

/-- A re-pull, a probe, and the note embedded under the second digest: the vector is
one of the second weights. -/
theorem stamp_never_leads_weights_sample :
    ∃ c : EmbConf Scenario.server, Reach (fun _ _ => True) (Conf.initial (boot Scenario.store)) c
      ∧ ∃ row, c.world.db.embedding_row "note" = some row ∧ row.status = .ok
        ∧ Scenario.server.digest c.world.pulls = row.model_revision
        ∧ ∃ text, row.content_hash = Scenario.server.hash_content text
          ∧ row.embedding = Scenario.server.produce c.world.pulls text := by
  obtain ⟨c, hc, hp⟩ := @Scenario.reach_after (.env .repull :: Scenario.verify 0
      ++ .start (.generate_for_memory "note" "draft" false) :: Scenario.go 1 6)
    (fun c => (c.world.db.embedding_row "note").any fun row =>
      row.status = .ok ∧ Scenario.server.digest c.world.pulls = row.model_revision)
    (by decide +kernel)
  obtain ⟨row, hrow, hp⟩ := (Option.any_eq_true _ _).mp hp
  obtain ⟨hok, hcurrent⟩ := of_decide_eq_true hp
  refine ⟨c, hc, row, hrow, hok, hcurrent, ?_⟩
  exact (stamp_never_leads_weights Scenario.server_digest_injective rfl hc hrow hok).2 hcurrent

end OpenChronicle
