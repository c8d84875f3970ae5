import ChangeQuality.AgentRepository

/-!
The versions of the agents, under the row locks of the agents: what holds between two steps, what a
transaction has established before it commits, and what the other transactions leave to it.
-/

namespace ChangeQuality.AgentVersions

open ChangeQuality.Values
open ChangeQuality.Agents
open ChangeQuality.AgentRepository
open ChangeQuality.ReadCommitted
open ChangeQuality.SequencedLog
open ChangeQuality.Coroutine
open ChangeQuality.Interference
open ChangeQuality.Histories

/-- The version has the content of the draft. -/
def Copies (conversions : Conversions) (version : AgentVersion) (draftConfig : Option Json) : Prop :=
  ∃ draft config, draftConfig = some draft ∧ modelValidate conversions draft = some config ∧
    version.toVersionContent = config.content

/-- The versions are numbered from one on, and the agent points to the last of them. -/
structure Consistent (agent : Option Agent) (versions : List AgentVersion) : Prop where
  numbered : Numbered AgentVersion.versionNumber versions
  latest : agent.bind Agent.latestVersionId = versions.getLast?.map AgentVersion.id

/-- One transaction has locked the agent with a draft, and inserted the version with its content. -/
def Published (conversions : Conversions) (log : List (TaskId × Event)) (version : AgentVersion) :
    Prop :=
  ∃ t draft, eventsOf t log = [.locked version.agentId draft, .inserted version] ∧
    Copies conversions version draft

/-- The write publishes a version of the agent, or changes its draft. -/
def Revises (id : AgentId) : Write → Prop
  | .insertVersion version => version.agentId = id
  | .updateAgent id' patch =>
      id' = id ∧ (patch.draftConfig.isSome ∨ patch.latestVersionId.isSome)
  | .insertAgent _ => False

/-- The row of an agent that is not deleted. -/
structure Live (db : Db) (id : AgentId) (agent : Agent) : Prop where
  row : db.agent id = some agent
  deletedAt : agent.deletedAt = none

/-- Versions only come, and a deletion stays. -/
structure Grows (db db' : Db) : Prop where
  versions : db.versions <+: db'.versions
  deleted : ∀ id agent, db.agent id = some agent → agent.deletedAt.isSome →
    ∃ agent', db'.agent id = some agent' ∧ agent'.deletedAt.isSome

/-- What a transaction must have established before an operation. -/
def AgentPre (conversions : Conversions) (t : TaskId) (op : Op) (s : System) : Prop :=
  match op with
  | .selectAgent _ _ true => eventsOf t s.2 = []
  | .insertVersion values => ∃ draft, eventsOf t s.2 = [.locked values.agentId draft]
  | .commit =>
      (∀ id, s.1.store.owner id = some t →
        Consistent ((s.1.view t).agent id) ((s.1.view t).versionsOf id)) ∧
      ∀ wr ∈ s.1.store.pending t, ∀ id, Revises id wr → ∃ agent,
        Live s.1.store.committed id agent ∧ ∀ version, wr = .insertVersion version →
          eventsOf t s.2 = [.locked id agent.draftConfig, .inserted version] ∧
            Copies conversions version agent.draftConfig
  | _ => True

/-- What holds between two steps. -/
structure AgentInv (conversions : Conversions) (s : System) : Prop where
  guarded : s.1.store.Guarded schema
  consistent : ∀ id, Consistent (s.1.store.committed.agent id) (s.1.store.committed.versionsOf id)
  fresh : ∀ id, s.1.nextAgent ≤ id → s.1.store.committed.agent id = none ∧
    ∀ t, ∀ wr ∈ s.1.store.pending t, id ∉ schema.rowsOf wr
  published : ∀ version ∈ s.1.store.committed.versions, Published conversions s.2 version
  numbered : ∀ t version, .inserted version ∈ eventsOf t s.2 → version.id < s.1.nextVersion
  unique : ∀ t t' version version', .inserted version ∈ eventsOf t s.2 →
    .inserted version' ∈ eventsOf t' s.2 → version.id = version'.id → version = version'

/-- What the other transactions leave as it is. -/
structure AgentRely (t : TaskId) (s s' : System) : Prop where
  pending : s'.1.store.pending t = s.1.store.pending t
  owner : ∀ id, s'.1.store.owner id = some t ↔ s.1.store.owner id = some t
  record : ∀ id, s.1.store.owner id = some t →
    (agentAspect id).read s'.1.store.committed = (agentAspect id).read s.1.store.committed
  events : eventsOf t s'.2 = eventsOf t s.2

section Tables

variable {db : Db} {id : AgentId}

theorem Grows.refl (db : Db) : Grows db db :=
  ⟨List.prefix_rfl, fun _ agent h hdeleted => ⟨agent, h, hdeleted⟩⟩

theorem Grows.trans {db₁ db₂ db₃ : Db} (h₁ : Grows db₁ db₂) (h₂ : Grows db₂ db₃) :
    Grows db₁ db₃ := by
  refine ⟨h₁.versions.trans h₂.versions, fun id agent h hdeleted => ?_⟩
  obtain ⟨mid, hmid, hmid'⟩ := h₁.deleted id agent h hdeleted
  exact h₂.deleted id mid hmid hmid'

theorem grows_apply (wr : Write) (db : Db) : Grows db (schema.apply wr db) := by
  cases wr with
  | insertAgent row =>
      refine ⟨List.prefix_rfl, fun id agent h hdeleted => ⟨agent, ?_, hdeleted⟩⟩
      rw [agent_insertAgent, h]
      rfl
  | updateAgent id' patch =>
      refine ⟨List.prefix_rfl, fun id agent h hdeleted => ?_⟩
      rw [agent_updateAgent, h]
      split
      · refine ⟨patch.apply agent, rfl, ?_⟩
        simp [AgentPatch.apply, hdeleted]
      · exact ⟨agent, rfl, hdeleted⟩
  | insertVersion row =>
      exact ⟨List.prefix_append _ _, fun _ agent h hdeleted => ⟨agent, h, hdeleted⟩⟩

theorem grows_applyAll (writes : List Write) (db : Db) : Grows db (applyAll schema writes db) :=
  applyAll_keeps (φ := Grows db) (fun wr _ _ h => h.trans (grows_apply wr _)) (Grows.refl db)

theorem mem_versions_applyAll {writes : List Write} {version : AgentVersion}
    (h : version ∈ (applyAll schema writes db).versions) :
    version ∈ db.versions ∨ .insertVersion version ∈ writes := by
  induction writes generalizing db with
  | nil => exact .inl h
  | cons wr writes ih =>
      rcases ih h with hmem | hmem
      · cases wr with
        | insertAgent row => exact .inl hmem
        | updateAgent id patch => exact .inl hmem
        | insertVersion row =>
            rcases List.mem_append.mp hmem with hmem | hmem
            · exact .inl hmem
            · obtain rfl := List.mem_singleton.mp hmem
              exact .inr List.mem_cons_self
      · exact .inr (List.mem_cons_of_mem wr hmem)

/-- An agent that no write of the transaction is about is seen as it is committed. -/
theorem agent_view {w : World} {t : TaskId}
    (h : ∀ wr ∈ w.store.pending t, id ∉ schema.rowsOf wr) :
    (w.view t).agent id = w.store.committed.agent id :=
  congrArg Prod.fst (applyAll_frame (fun wr hwr db => (agentAspect id).frame wr db (h wr hwr))
    w.store.committed)

end Tables

section Log

variable {t t' : TaskId} {op : Op} {r : Except Exn (Reply op)} {w : World}

theorem eventsOf_append (log log' : List (TaskId × Event)) :
    eventsOf t (log ++ log') = eventsOf t log ++ eventsOf t log' := by
  simp [eventsOf]

theorem entries_eq : entries t op r w = [] ∨
    (∃ id includeDeleted agent, ∃ h : op = .selectAgent id includeDeleted true,
      h ▸ r = .ok (some agent) ∧
      entries t op r w = [(t, .locked id ((w.store.committed.agent id).bind Agent.draftConfig))]) ∨
    ∃ values version, ∃ h : op = .insertVersion values, h ▸ r = .ok version ∧
      entries t op r w = [(t, .inserted version)] := by
  cases op with
  | selectAgent id includeDeleted lock =>
      cases lock with
      | false => exact .inl rfl
      | true =>
          rcases r with e | (- | agent)
          · exact .inl rfl
          · exact .inl rfl
          · exact .inr (.inl ⟨id, includeDeleted, agent, rfl, rfl, rfl⟩)
  | insertVersion values =>
      rcases r with e | version
      · exact .inl rfl
      · exact .inr (.inr ⟨values, version, rfl, rfl, rfl⟩)
  | _ => exact .inl rfl

theorem eventsOf_entries_ne (hne : t' ≠ t) : eventsOf t' (entries t op r w) = [] := by
  rcases entries_eq (t := t) (r := r) (w := w) with h | ⟨_, _, _, _, -, h⟩ | ⟨_, _, _, -, h⟩ <;>
    simp [h, eventsOf, hne.symm]

end Log

section Steps

variable {conversions : Conversions} {t t' : TaskId} {op : Op} {choice : Choice} {s s' : System}
  {r : Except Exn (Reply op)}

theorem eventsOf_step_ne (hstep : recording exec entries t op choice s = some (r, s'))
    (hne : t' ≠ t) : eventsOf t' s'.2 = eventsOf t' s.2 := by
  rw [(recording_eq_some hstep).2, eventsOf_append, eventsOf_entries_ne hne, List.append_nil]

/-- What a step enters into the record of its transaction. -/
theorem eventsOf_step (hpre : AgentPre conversions t op s)
    (hstep : recording exec entries t op choice s = some (r, s')) :
    eventsOf t s'.2 = eventsOf t s.2 ∨
      (∃ id draft, eventsOf t s.2 = [] ∧ eventsOf t s'.2 = [.locked id draft]) ∨
      ∃ id draft version, eventsOf t s.2 = [.locked id draft] ∧
        eventsOf t s'.2 = [.locked id draft, .inserted version] ∧
        version.id = s.1.nextVersion ∧ s'.1.nextVersion = s.1.nextVersion + 1 := by
  obtain ⟨hexec, hlog⟩ := recording_eq_some hstep
  rw [hlog, eventsOf_append]
  rcases entries_eq (t := t) (r := r) (w := s.1) with
    h | ⟨id, _, _, rfl, -, h⟩ | ⟨values, version, rfl, hr, h⟩
  · exact .inl (by simp [h, eventsOf])
  · have hnone : eventsOf t s.2 = [] := hpre
    refine .inr (.inl ⟨id, (s.1.store.committed.agent id).bind Agent.draftConfig, hnone, ?_⟩)
    rw [h, hnone]
    simp [eventsOf]
  · obtain ⟨draft, hevents⟩ := hpre
    refine .inr (.inr ⟨values.agentId, draft, version, hevents, ?_, ?_⟩)
    · rw [h, hevents]
      simp [eventsOf]
    · obtain rfl : r = .ok version := hr
      have hsucceed := exec_ok hexec
      simp only [succeed] at hsucceed
      split at hsucceed
      · obtain ⟨mid, hmid, heq⟩ := Option.map_eq_some_iff.mp hsucceed
        obtain ⟨rfl, hworld⟩ := Prod.mk.inj heq
        obtain ⟨store, -, rfl⟩ := World.write_eq_some hmid
        exact ⟨rfl, by rw [← hworld]⟩
      · simp at hsucceed

theorem nextVersion_le {w w' : World} (h : Outcome t w op w') :
    w.nextVersion ≤ w'.nextVersion := by
  cases h with
  | insertVersion _ _ => exact Nat.le_succ _
  | _ => exact le_rfl

theorem nextAgent_le {w w' : World} (h : Outcome t w op w') : w.nextAgent ≤ w'.nextAgent := by
  cases h with
  | insertAgent _ => exact Nat.le_succ _
  | _ => exact le_rfl

/-- What is published stays published: a transaction that has inserted a version makes no further
entries. -/
theorem Published.step {version : AgentVersion} (h : Published conversions s.2 version)
    (hpre : AgentPre conversions t op s)
    (hstep : recording exec entries t op choice s = some (r, s')) :
    Published conversions s'.2 version := by
  obtain ⟨t₀, draft, hevents, hcopies⟩ := h
  refine ⟨t₀, draft, ?_, hcopies⟩
  by_cases ht : t₀ = t
  · subst ht
    rcases eventsOf_step hpre hstep with heq | ⟨_, _, hnone, -⟩ | ⟨_, _, _, hone, -⟩
    · rw [heq, hevents]
    · simp [hevents] at hnone
    · simp [hevents] at hone
  · rw [eventsOf_step_ne hstep ht, hevents]

theorem AgentInv.consistent_step (h : AgentInv conversions s) (hpre : AgentPre conversions t op s)
    (hout : Outcome t s.1 op s'.1) (id : AgentId) :
    Consistent (s'.1.store.committed.agent id) (s'.1.store.committed.versionsOf id) := by
  rcases hout.committed with heq | ⟨rfl, heq⟩
  · rw [heq]
    exact h.consistent id
  · rw [heq]
    by_cases howner : s.1.store.owner id = some t
    · exact hpre.1 id howner
    · have hview := (agentAspect id).view_eq_committed h.guarded howner
      obtain ⟨hagent, hversions⟩ := Prod.mk.inj hview
      change Consistent ((s.1.store.view schema t).agent id) ((s.1.store.view schema t).versionsOf id)
      rw [hagent, hversions]
      exact h.consistent id

theorem AgentInv.fresh_step (h : AgentInv conversions s) (hout : Outcome t s.1 op s'.1)
    (id : AgentId) (hid : s'.1.nextAgent ≤ id) :
    s'.1.store.committed.agent id = none ∧
      ∀ t', ∀ wr ∈ s'.1.store.pending t', id ∉ schema.rowsOf wr := by
  obtain ⟨hnone, hpending⟩ := h.fresh id ((nextAgent_le hout).trans hid)
  have hview : (s.1.view t).agent id = none := (agent_view (hpending t)).trans hnone
  constructor
  · rcases hout.committed with heq | ⟨-, heq⟩
    · rw [heq]
      exact hnone
    · rw [heq]
      exact hview
  · intro t' wr hwr
    by_cases ht : t' = t
    · subst ht
      -- a write of the step is about an agent that is there, or about the new one
      have hwritten : ∀ {store : Store Db Write AgentId TaskId} {new : Write},
          s.1.store.write schema t' new = some store → id ∉ schema.rowsOf new →
          wr ∈ store.pending t' → id ∉ schema.rowsOf wr := by
        intro store new hstore hnew hmem
        obtain ⟨mid, hlocks, rfl⟩ := Store.write_eq_some hstore
        rw [Store.record_pending, hlocks.pending, List.mem_append, List.mem_singleton] at hmem
        rcases hmem with hmem | rfl
        · exact hpending t' wr hmem
        · exact hnew
      obtain ⟨w', log'⟩ := s'
      dsimp only at hout hwr hid
      cases hout with
      | stay => exact hpending t' wr hwr
      | rollback =>
          simp [World.rollback, World.withStore, Store.rollback] at hwr
      | lock hlock =>
          have heq := (Store.lock_eq_some hlock).pending
          exact hpending t' wr (heq ▸ hwr)
      | insertAgent hstore =>
          refine hwritten hstore ?_ hwr
          have hne : id ≠ s.1.nextAgent := Nat.ne_of_gt hid
          simpa [schema, NewAgent.toRow] using hne
      | @insertVersion values _ hagent hstore =>
          refine hwritten hstore ?_ hwr
          have hne : id ≠ values.agentId := by
            rintro rfl
            simp [hview] at hagent
          simpa [schema, NewVersion.toRow] using hne
      | @updateAgent agent patch _ hagent hstore =>
          refine hwritten hstore ?_ hwr
          have hne : id ≠ agent.id := by
            rintro rfl
            simp [hview] at hagent
          simpa [schema] using hne
      | commit =>
          simp [World.withStore, Store.commit] at hwr
    · rw [hout.change.pending_ne ht] at hwr
      exact hpending t' wr hwr

theorem AgentInv.published_step (h : AgentInv conversions s) (hpre : AgentPre conversions t op s)
    (hstep : recording exec entries t op choice s = some (r, s')) :
    ∀ version ∈ s'.1.store.committed.versions, Published conversions s'.2 version := by
  intro version hversion
  refine Published.step ?_ hpre hstep
  rcases (exec_outcome (recording_eq_some hstep).1).committed with heq | ⟨rfl, heq⟩
  · exact h.published version (heq ▸ hversion)
  · rw [heq] at hversion
    rcases mem_versions_applyAll hversion with hversion | hversion
    · exact h.published version hversion
    · obtain ⟨agent, -, hpublish⟩ := hpre.2 _ hversion version.agentId rfl
      obtain ⟨hevents, hcopies⟩ := hpublish version rfl
      exact ⟨t, agent.draftConfig, hevents, hcopies⟩

/-- The insertions in the record after a step were there before it, but for one with the next
identity. -/
theorem inserted_step (hpre : AgentPre conversions t op s)
    (hstep : recording exec entries t op choice s = some (r, s')) :
    (∀ t' version, .inserted version ∈ eventsOf t' s'.2 → .inserted version ∈ eventsOf t' s.2) ∨
      ∃ new : AgentVersion, new.id = s.1.nextVersion ∧ s'.1.nextVersion = s.1.nextVersion + 1 ∧
        ∀ t' version, .inserted version ∈ eventsOf t' s'.2 →
          .inserted version ∈ eventsOf t' s.2 ∨ version = new := by
  have hother : ∀ {t' : TaskId} {version : AgentVersion}, t' ≠ t →
      .inserted version ∈ eventsOf t' s'.2 → .inserted version ∈ eventsOf t' s.2 :=
    fun hne hmem => eventsOf_step_ne hstep hne ▸ hmem
  rcases eventsOf_step hpre hstep with heq | ⟨id, draft, -, heq⟩ | ⟨id, draft, new, -, heq, hid, hnext⟩
  · refine .inl fun t' version hmem => ?_
    by_cases ht : t' = t
    · subst ht
      exact heq ▸ hmem
    · exact hother ht hmem
  · refine .inl fun t' version hmem => ?_
    by_cases ht : t' = t
    · subst ht
      simp [heq] at hmem
    · exact hother ht hmem
  · refine .inr ⟨new, hid, hnext, fun t' version hmem => ?_⟩
    by_cases ht : t' = t
    · subst ht
      exact .inr (by simpa [heq] using hmem)
    · exact .inl (hother ht hmem)

theorem AgentInv.numbered_step (h : AgentInv conversions s) (hpre : AgentPre conversions t op s)
    (hstep : recording exec entries t op choice s = some (r, s')) (t' : TaskId)
    (version : AgentVersion) (hmem : .inserted version ∈ eventsOf t' s'.2) :
    version.id < s'.1.nextVersion := by
  have hle := nextVersion_le (exec_outcome (recording_eq_some hstep).1)
  rcases inserted_step hpre hstep with hold | ⟨new, hid, hnext, hold⟩
  · exact Nat.lt_of_lt_of_le (h.numbered t' version (hold t' version hmem)) hle
  · rcases hold t' version hmem with hmem | rfl
    · exact Nat.lt_of_lt_of_le (h.numbered t' version hmem) hle
    · rw [hid, hnext]
      exact Nat.lt_succ_self _

theorem AgentInv.unique_step (h : AgentInv conversions s) (hpre : AgentPre conversions t op s)
    (hstep : recording exec entries t op choice s = some (r, s')) (t₁ t₂ : TaskId)
    (version version' : AgentVersion) (hmem : .inserted version ∈ eventsOf t₁ s'.2)
    (hmem' : .inserted version' ∈ eventsOf t₂ s'.2) (hid : version.id = version'.id) :
    version = version' := by
  rcases inserted_step hpre hstep with hold | ⟨new, hnew, -, hold⟩
  · exact h.unique t₁ t₂ _ _ (hold _ _ hmem) (hold _ _ hmem') hid
  · rcases hold _ _ hmem with hmem | rfl <;> rcases hold _ _ hmem' with hmem' | rfl
    · exact h.unique t₁ t₂ _ _ hmem hmem' hid
    · exact absurd (hid.trans hnew) (Nat.ne_of_lt (h.numbered t₁ _ hmem))
    · exact absurd (hid.symm.trans hnew) (Nat.ne_of_lt (h.numbered t₂ _ hmem'))
    · rfl

theorem agentRely_step (h : AgentInv conversions s)
    (hstep : recording exec entries t op choice s = some (r, s')) (hne : t' ≠ t) :
    AgentRely t' s s' := by
  have hchange := (exec_outcome (recording_eq_some hstep).1).change
  exact ⟨hchange.pending_ne hne, fun _ => hchange.owner_ne hne,
    fun id howner => (agentAspect id).committed_keeps h.guarded hchange howner hne,
    eventsOf_step_ne hstep hne⟩

end Steps

/-- The discipline of the transactions. -/
def agentProtocol (conversions : Conversions) : Protocol (recording exec entries) unrestricted where
  inv := AgentInv conversions
  rely := AgentRely
  pre := AgentPre conversions
  rely_refl _ _ := ⟨rfl, fun _ => Iff.rfl, fun _ _ => rfl, rfl⟩
  rely_trans h₁ h₂ := by
    refine ⟨h₂.pending.trans h₁.pending, fun id => (h₂.owner id).trans (h₁.owner id),
      fun id howner => ?_, h₂.events.trans h₁.events⟩
    exact (h₂.record id ((h₁.owner id).mpr howner)).trans (h₁.record id howner)
  sound hinv hpre _ hstep := by
    have hout := exec_outcome (recording_eq_some hstep).1
    refine ⟨?_, fun t' hne => agentRely_step hinv hstep hne⟩
    exact ⟨hout.change.guarded hinv.guarded, hinv.consistent_step hpre hout, hinv.fresh_step hout,
      hinv.published_step hpre hstep, hinv.numbered_step hpre hstep, hinv.unique_step hpre hstep⟩

end ChangeQuality.AgentVersions
