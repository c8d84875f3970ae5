import ChangeQuality.AgentVersions

/-!
Every request of the agent service keeps the discipline of the transactions, so the versions of the
agents are in order in every run of requests.
-/

namespace ChangeQuality.AgentPublishing

open ChangeQuality.Values
open ChangeQuality.Agents
open ChangeQuality.AgentRepository
open ChangeQuality.AgentVersions
open ChangeQuality.ReadCommitted
open ChangeQuality.SequencedLog
open ChangeQuality.Coroutine
open ChangeQuality.Interference
open ChangeQuality.Histories

variable {conversions : Conversions} {t : TaskId} {id : AgentId} {s s' : System} {α : Type}
  {agent : Option Agent} {versions : List AgentVersion} {writes : List Write} {events : List Event}

section Assertions

/-- The transaction has done nothing. -/
structure Idle (t : TaskId) (s : System) : Prop where
  pending : s.1.store.pending t = []
  owner : ∀ id, s.1.store.owner id ≠ some t
  events : eventsOf t s.2 = []

/-- The transaction has locked one agent, whose committed row and versions are these, and has made
these writes and these entries. -/
structure Own (t : TaskId) (id : AgentId) (agent : Option Agent) (versions : List AgentVersion)
    (writes : List Write) (events : List Event) (s : System) : Prop where
  pending : s.1.store.pending t = writes
  owner : ∀ k, s.1.store.owner k = some t ↔ k = id
  agent : s.1.store.committed.agent id = agent
  versions : s.1.store.committed.versionsOf id = versions
  events : eventsOf t s.2 = events

/-- The transaction may be committed. -/
abbrev Ready (conversions : Conversions) (t : TaskId) (s : System) : Prop :=
  AgentPre conversions t .commit s

theorem idle_stable : Stable (agentProtocol conversions) t (Idle t) := by
  intro s s' _ h hrely _
  exact ⟨hrely.pending.trans h.pending, fun id howner => h.owner id ((hrely.owner id).mp howner),
    hrely.events.trans h.events⟩

theorem own_stable : Stable (agentProtocol conversions) t
    (Own t id agent versions writes events) := by
  intro s s' _ h hrely _
  obtain ⟨hagent, hversions⟩ := Prod.mk.inj (hrely.record id ((h.owner id).mpr rfl))
  exact ⟨hrely.pending.trans h.pending, fun k => (hrely.owner k).trans (h.owner k),
    hagent.trans h.agent, hversions.trans h.versions, hrely.events.trans h.events⟩

/-- What a transaction sees of an agent that it has locked is not changed by the others. -/
theorem view_rely (hrely : AgentRely t s s') (howner : s.1.store.owner id = some t) :
    (s'.1.view t).agent id = (s.1.view t).agent id ∧
      (s'.1.view t).versionsOf id = (s.1.view t).versionsOf id := by
  have hview : (agentAspect id).read (s'.1.view t) = (agentAspect id).read (s.1.view t) := by
    unfold World.view Store.view
    rw [hrely.pending]
    exact (agentAspect id).applyAll_congr _ (hrely.record id howner)
  exact Prod.mk.inj hview

theorem ready_stable : Stable (agentProtocol conversions) t (Ready conversions t) := by
  intro s s' hinv h hrely _
  refine ⟨fun id howner => ?_, fun wr hwr id hrevises => ?_⟩
  · have howner' : s.1.store.owner id = some t := (hrely.owner id).mp howner
    obtain ⟨hagent, hversions⟩ := view_rely hrely howner'
    rw [hagent, hversions]
    exact h.1 id howner'
  · rw [hrely.pending] at hwr
    obtain ⟨row, hlive, hcopies⟩ := h.2 wr hwr id hrevises
    have hrow : id ∈ schema.rowsOf wr := by
      cases wr with
      | insertAgent _ => exact hrevises.elim
      | updateAgent id' patch => simp [schema, hrevises.1]
      | insertVersion version =>
          have heq : version.agentId = id := hrevises
          simp [schema, heq]
    obtain ⟨hagent, -⟩ := Prod.mk.inj (hrely.record id (hinv.guarded t wr id hwr hrow))
    refine ⟨row, ⟨hagent.trans hlive.row, hlive.deletedAt⟩, fun version heq => ?_⟩
    rw [hrely.events]
    exact hcopies version heq

end Assertions

section Statements

/-- A program of a transaction; one that raises is rolled back. -/
abbrev Ends (conversions : Conversions) (t : TaskId) (A : System → Prop) (p : Program α)
    (Q : α → System → Prop) : Prop :=
  Triple (agentProtocol conversions) t A p Q fun _ _ => True

theorem stable_true : Stable (agentProtocol conversions) t fun _ => True :=
  Stable.const True

/-- The rule of one statement. -/
theorem ends_await {A : System → Prop} {op : Op} {Q : Reply op → System → Prop}
    (hA : Stable (agentProtocol conversions) t A)
    (hQ : ∀ reply, Stable (agentProtocol conversions) t (Q reply))
    (hpre : ∀ s, A s → AgentPre conversions t op s)
    (hpost : ∀ s reply s', AgentInv conversions s → A s →
      succeed t s.1 op = some (reply, s'.1) →
      s'.2 = s.2 ++ entries t op (.ok reply) s.1 → Q reply s') :
    Ends conversions t A (await op) Q := by
  refine Triple.perform hA hQ (fun _ => stable_true) (fun s _ h => hpre s h) ?_
  rintro s choice (e | reply) s' hinv h - - hstep
  · trivial
  · obtain ⟨hexec, hlog⟩ := recording_eq_some hstep
    exact hpost s reply s' hinv h (exec_ok hexec) hlog

theorem ends_raise {A : System → Prop} {e : Exn} {Q : α → System → Prop} :
    Ends conversions t A (.raise e) Q :=
  Triple.raise stable_true fun _ _ _ => trivial

theorem ends_orDraftInvalid {A : System → Prop} (hA : Stable (agentProtocol conversions) t A)
    (id : Option AgentId) (value : Option α) :
    Ends conversions t A (orDraftInvalid id value) fun a s => value = some a ∧ A s := by
  cases value with
  | none => exact ends_raise
  | some a => exact Triple.done ((Stable.const _).and hA) fun _ _ h => ⟨rfl, h⟩

theorem owner_locks {store store' : Store Db Write AgentId TaskId}
    (hlocks : Store.Locks t [id] store store') (howner : ∀ k, store.owner k = some t → k = id)
    (k : AgentId) : store'.owner k = some t ↔ k = id := by
  constructor
  · intro h
    rcases hlocks.only k t h with h | ⟨-, h⟩
    · exact howner k h
    · exact List.mem_singleton.mp h
  · rintro rfl
    exact hlocks.taken k List.mem_cons_self

/-- The first lock of a transaction. -/
theorem Idle.lock {store : Store Db Write AgentId TaskId} (h : Idle t s)
    (hlocks : Store.Locks t [id] s.1.store store) (hs : s'.1.store = store)
    (hevents : eventsOf t s'.2 = events) :
    Own t id (s.1.store.committed.agent id) (s.1.store.committed.versionsOf id) [] events s' := by
  subst hs
  exact ⟨hlocks.pending ▸ h.pending, owner_locks hlocks fun k howner => absurd howner (h.owner k),
    by rw [hlocks.committed], by rw [hlocks.committed], hevents⟩

/-- The first write of a transaction. -/
theorem Idle.write {store : Store Db Write AgentId TaskId} {wr : Write} (h : Idle t s)
    (hstore : s.1.store.write schema t wr = some store) (hrow : schema.rowsOf wr = [id])
    (hs : s'.1.store = store) (hevents : eventsOf t s'.2 = events) :
    Own t id (s.1.store.committed.agent id) (s.1.store.committed.versionsOf id) [wr] events s' := by
  subst hs
  obtain ⟨mid, hlocks, hmid⟩ := Store.write_eq_some hstore
  rw [hrow] at hlocks
  refine ⟨?_, ?_, ?_, ?_, hevents⟩
  · rw [hmid, Store.record_pending, hlocks.pending, h.pending]
    rfl
  · rw [hmid, Store.record_owner]
    exact owner_locks hlocks fun k howner => absurd howner (h.owner k)
  · rw [hmid, Store.record_committed, hlocks.committed]
  · rw [hmid, Store.record_committed, hlocks.committed]

/-- A further write on the row that the transaction has locked. -/
theorem Own.write {store : Store Db Write AgentId TaskId} {wr : Write} {events' : List Event}
    (h : Own t id agent versions writes events s)
    (hstore : s.1.store.write schema t wr = some store) (hrow : schema.rowsOf wr = [id])
    (hs : s'.1.store = store) (hevents : eventsOf t s'.2 = events') :
    Own t id agent versions (writes ++ [wr]) events' s' := by
  subst hs
  obtain ⟨mid, hlocks, hmid⟩ := Store.write_eq_some hstore
  rw [hrow] at hlocks
  refine ⟨?_, ?_, ?_, ?_, hevents⟩
  · rw [hmid, Store.record_pending, hlocks.pending, h.pending]
  · rw [hmid, Store.record_owner]
    exact owner_locks hlocks fun k howner => (h.owner k).mp howner
  · rw [hmid, Store.record_committed, hlocks.committed, h.agent]
  · rw [hmid, Store.record_committed, hlocks.committed, h.versions]

theorem Own.frame (h : Own t id agent versions writes events s) (hs : s'.1.store = s.1.store)
    (hevents : eventsOf t s'.2 = eventsOf t s.2) :
    Own t id agent versions writes events s' :=
  ⟨hs ▸ h.pending, hs ▸ h.owner, hs ▸ h.agent, hs ▸ h.versions, hevents.trans h.events⟩

theorem eventsOf_none {op : Op} {r : Except Exn (Reply op)}
    (hlog : s'.2 = s.2 ++ entries t op r s.1) (hnone : entries t op r s.1 = []) :
    eventsOf t s'.2 = eventsOf t s.2 := by
  rw [hlog, hnone, List.append_nil]

/-- The agent is locked as it is committed, and it is not deleted. -/
def Locked (t : TaskId) (id : AgentId) (agent : Agent) (s : System) : Prop :=
  (agent.id = id ∧ agent.deletedAt = none) ∧
    ∃ versions, Own t id (some agent) versions [] [.locked id agent.draftConfig] s

theorem locked_stable {agent : Agent} :
    Stable (agentProtocol conversions) t (Locked t id agent) :=
  (Stable.const _).and (Stable.exists fun _ => own_stable)

theorem ends_lockAgent : Ends conversions t (Idle t) (requireAgent id false true) (Locked t id) := by
  refine Triple.bind (B := fun reply s => ∀ agent, reply = some agent → Locked t id agent s)
    (ends_await idle_stable (fun reply => ?_) (fun s h => h.events) ?_) fun reply => ?_
  · intro s s' hinv h hrely hinv' agent heq
    exact locked_stable s s' hinv (h agent heq) hrely hinv'
  · rintro s reply s' - h hsucceed hlog agent rfl
    simp only [succeed] at hsucceed
    split at hsucceed
    · cases (Prod.mk.inj (Option.some.inj hsucceed)).1
    · rename_i row hrow
      obtain ⟨store, hstore, heq⟩ := Option.map_eq_some_iff.mp hsucceed
      obtain ⟨hreply, hworld⟩ := Prod.mk.inj heq
      obtain rfl := Option.some.inj hreply
      obtain ⟨hview, hlive⟩ := Option.filter_eq_some_iff.mp hrow
      have hcommitted : s.1.store.committed.agent id = some row := by
        rw [← hview]
        exact (agent_view (by simp [h.pending])).symm
      have hstore' : s'.1.store = store := by
        rw [← hworld]
        rfl
      have hevents : eventsOf t s'.2 = [.locked id row.draftConfig] := by
        rw [hlog, eventsOf_append, h.events]
        simp [entries, eventsOf, hcommitted]
      have hown := h.lock (Store.lock_eq_some hstore) hstore' hevents
      rw [hcommitted] at hown
      exact ⟨⟨Db.agent_id hcommitted, by simpa using hlive⟩, _, hown⟩
  · cases reply with
    | none => exact ends_raise
    | some agent => exact Triple.done locked_stable fun _ _ h => h agent rfl

theorem ends_maxVersionNumber :
    Ends conversions t (Own t id agent versions [] events) (await (.maxVersionNumber id))
      fun number s => number = latest AgentVersion.versionNumber versions ∧
        Own t id agent versions [] events s := by
  refine ends_await own_stable (fun _ => (Stable.const _).and own_stable) (fun _ _ => trivial) ?_
  intro s reply s' _ h hsucceed hlog
  obtain ⟨rfl, hworld⟩ := Prod.mk.inj (Option.some.inj hsucceed)
  refine ⟨?_, h.frame (by rw [← hworld]) (eventsOf_none hlog rfl)⟩
  change latest _ ((applyAll schema (s.1.store.pending t) s.1.store.committed).versionsOf id) = _
  rw [h.pending, applyAll_nil, h.versions]

/-- A new version has an identity that the agent does not point to. -/
theorem ends_insertVersion {values : NewVersion} {draft : Option Json} (hid : values.agentId = id) :
    Ends conversions t (Own t id agent versions [] [.locked id draft])
      (await (.insertVersion values)) fun version s =>
        (version = values.toRow version.id ∧
          agent.bind Agent.latestVersionId ≠ some version.id) ∧
        Own t id agent versions [.insertVersion version] [.locked id draft, .inserted version] s := by
  subst hid
  refine ends_await own_stable (fun _ => (Stable.const _).and own_stable)
    (fun s h => ⟨draft, h.events⟩) ?_
  intro s version s' hinv h hsucceed hlog
  simp only [succeed] at hsucceed
  split at hsucceed
  · obtain ⟨mid, hmid, heq⟩ := Option.map_eq_some_iff.mp hsucceed
    obtain ⟨store, hstore, rfl⟩ := World.write_eq_some hmid
    obtain ⟨rfl, hworld⟩ := Prod.mk.inj heq
    refine ⟨⟨rfl, fun hlatest => ?_⟩, ?_⟩
    · have hconsistent := hinv.consistent values.agentId
      rw [h.agent, h.versions] at hconsistent
      obtain ⟨last, hlast, hid⟩ := Option.map_eq_some_iff.mp (hconsistent.latest.symm.trans hlatest)
      have hmem : last ∈ s.1.store.committed.versionsOf values.agentId := by
        rw [h.versions]
        exact List.mem_of_getLast? hlast
      obtain ⟨t₀, _, hevents, -⟩ := hinv.published last (List.mem_filter.mp hmem).1
      have hlt := hinv.numbered t₀ last (by simp [hevents])
      exact absurd hid (Nat.ne_of_lt hlt)
    · refine h.write hstore rfl (by rw [← hworld]; rfl) ?_
      rw [hlog, eventsOf_append, h.events]
      simp [entries, eventsOf]
  · simp at hsucceed

/-- The flush of changes to an agent that the transaction has locked. -/
theorem ends_updateLocked {agent : Option Agent} {row : Agent} {patch : AgentPatch}
    (hid : row.id = id) (hsent : (patch.net row).isEmpty = false) :
    Ends conversions t (Own t id agent versions writes events) (await (.updateAgent row patch))
      fun _ => Own t id agent versions (writes ++ [.updateAgent id (patch.net row)]) events := by
  subst hid
  refine ends_await own_stable (fun _ => own_stable) (fun _ _ => trivial) ?_
  intro s reply s' _ h hsucceed hlog
  simp only [succeed, hsent, Bool.false_eq_true, if_false] at hsucceed
  split at hsucceed
  · obtain ⟨mid, hmid, heq⟩ := Option.map_eq_some_iff.mp hsucceed
    obtain ⟨store, hstore, rfl⟩ := World.write_eq_some hmid
    obtain ⟨-, hworld⟩ := Prod.mk.inj heq
    exact h.write hstore rfl (by rw [← hworld]; rfl) ((eventsOf_none hlog rfl).trans h.events)
  · simp at hsucceed

/-- A loaded row was changed and the changes were flushed; where there is none, nothing was sent. -/
def Saved (t : TaskId) (id : AgentId) (patch : AgentPatch) (s : System) : Prop :=
  Idle t s ∨ ∃ agent versions, Own t id agent versions [.updateAgent id patch] [] s

theorem saved_stable {patch : AgentPatch} :
    Stable (agentProtocol conversions) t (Saved t id patch) :=
  idle_stable.or (Stable.exists fun _ => Stable.exists fun _ => own_stable)

theorem ends_updateLoaded {row : Agent} {patch : AgentPatch} (hid : row.id = id) :
    Ends conversions t (Idle t) (await (.updateAgent row patch))
      fun _ => Saved t id (patch.net row) := by
  subst hid
  refine ends_await idle_stable (fun _ => saved_stable) (fun _ _ => trivial) ?_
  intro s reply s' _ h hsucceed hlog
  have hevents : eventsOf t s'.2 = [] := (eventsOf_none hlog rfl).trans h.events
  simp only [succeed] at hsucceed
  split at hsucceed
  · obtain ⟨-, hworld⟩ := Prod.mk.inj (Option.some.inj hsucceed)
    exact .inl ⟨hworld ▸ h.pending, hworld ▸ h.owner, hevents⟩
  · split at hsucceed
    · obtain ⟨mid, hmid, heq⟩ := Option.map_eq_some_iff.mp hsucceed
      obtain ⟨store, hstore, rfl⟩ := World.write_eq_some hmid
      obtain ⟨-, hworld⟩ := Prod.mk.inj heq
      exact .inr ⟨_, _, h.write hstore rfl (by rw [← hworld]; rfl) hevents⟩
    · simp at hsucceed

/-- The first read of an agent takes no lock. -/
theorem ends_loadAgent :
    Ends conversions t (Idle t) (requireAgent id false false) fun agent s =>
      agent.id = id ∧ Idle t s := by
  refine Triple.bind (B := fun reply s => (∀ agent, reply = some agent → agent.id = id) ∧ Idle t s)
    (ends_await idle_stable (fun _ => (Stable.const _).and idle_stable) (fun _ _ => trivial) ?_)
    fun reply => ?_
  · intro s reply s' _ h hsucceed hlog
    have hevents : eventsOf t s'.2 = [] := (eventsOf_none hlog rfl).trans h.events
    simp only [succeed] at hsucceed
    split at hsucceed
    · obtain ⟨rfl, hworld⟩ := Prod.mk.inj (Option.some.inj hsucceed)
      exact ⟨by simp, hworld ▸ h.pending, hworld ▸ h.owner, hevents⟩
    · rename_i row hrow
      obtain ⟨rfl, hworld⟩ := Prod.mk.inj (Option.some.inj hsucceed)
      obtain ⟨hview, -⟩ := Option.filter_eq_some_iff.mp hrow
      refine ⟨?_, hworld ▸ h.pending, hworld ▸ h.owner, hevents⟩
      rintro agent ⟨rfl⟩
      exact Db.agent_id hview
  · cases reply with
    | none => exact ends_raise
    | some agent =>
        exact Triple.done ((Stable.const _).and idle_stable) fun _ _ h => ⟨h.1 agent rfl, h.2⟩

end Statements

section Commits

theorem ready_frame (h : Ready conversions t s) (hworld : s'.1 = s.1)
    (hevents : eventsOf t s'.2 = eventsOf t s.2) : Ready conversions t s' := by
  unfold Ready AgentPre
  rw [hworld, hevents]
  exact h

theorem ready_idle (h : Idle t s) : Ready conversions t s := by
  refine ⟨fun id howner => absurd howner (h.owner id), fun wr hwr => ?_⟩
  simp [h.pending] at hwr

/-- A transaction that has changed the row of an agent may be committed, unless it has changed the
draft of a deleted one. -/
theorem ready_update {patch : AgentPatch} (hinv : AgentInv conversions s)
    (h : Own t id agent versions [.updateAgent id patch] [] s)
    (hlatest : patch.latestVersionId = none)
    (hlive : patch.draftConfig.isSome → ∃ row, agent = some row ∧ row.deletedAt = none) :
    Ready conversions t s := by
  have hconsistent := hinv.consistent id
  rw [h.agent, h.versions] at hconsistent
  constructor
  · intro id' howner
    obtain rfl : id' = id := (h.owner id').mp howner
    have hview : s.1.view t = schema.apply (.updateAgent id' patch) s.1.store.committed := by
      simp [World.view, Store.view, h.pending, applyAll]
    have hversions : (s.1.view t).versionsOf id' = versions := by
      rw [hview]
      exact h.versions
    rw [hversions, hview, agent_updateAgent, if_pos rfl, h.agent]
    refine ⟨hconsistent.numbered, ?_⟩
    rw [← hconsistent.latest]
    cases agent <;> simp [AgentPatch.apply, hlatest]
  · intro wr hwr id' hrevises
    rw [h.pending] at hwr
    obtain rfl := List.mem_singleton.mp hwr
    obtain ⟨rfl, hdraft | hversion⟩ := hrevises
    · obtain ⟨row, hrow, hdeleted⟩ := hlive hdraft
      exact ⟨row, ⟨h.agent.trans hrow, hdeleted⟩, fun version heq => by cases heq⟩
    · simp [hlatest] at hversion

theorem ready_insert {row : Agent} (hinv : AgentInv conversions s)
    (h : Own t id none versions [.insertAgent row] [] s) (hid : row.id = id)
    (hlatest : row.latestVersionId = none) : Ready conversions t s := by
  have hconsistent := hinv.consistent id
  rw [h.agent, h.versions] at hconsistent
  constructor
  · intro id' howner
    obtain rfl : id' = id := (h.owner id').mp howner
    have hview : s.1.view t = schema.apply (.insertAgent row) s.1.store.committed := by
      simp [World.view, Store.view, h.pending, applyAll]
    have hversions : (s.1.view t).versionsOf id' = versions := by
      rw [hview]
      exact h.versions
    rw [hversions, hview, agent_insertAgent, if_pos hid, h.agent]
    exact ⟨hconsistent.numbered, hlatest.trans hconsistent.latest⟩
  · intro wr hwr id' hrevises
    rw [h.pending] at hwr
    obtain rfl := List.mem_singleton.mp hwr
    exact hrevises.elim

/-- A transaction that has locked an agent, copied its draft to the next version and let the agent
point to it may be committed. -/
theorem ready_publish {row : Agent} {version : AgentVersion} {patch : AgentPatch}
    (hinv : AgentInv conversions s)
    (h : Own t id (some row) versions [.insertVersion version, .updateAgent id patch]
      [.locked id row.draftConfig, .inserted version] s)
    (hlive : row.deletedAt = none) (hagent : version.agentId = id)
    (hnumber : version.versionNumber = latest AgentVersion.versionNumber versions + 1)
    (hcopies : Copies conversions version row.draftConfig)
    (hlatest : patch.latestVersionId = some version.id) : Ready conversions t s := by
  have hconsistent := hinv.consistent id
  rw [h.agent, h.versions] at hconsistent
  constructor
  · intro id' howner
    obtain rfl : id' = id := (h.owner id').mp howner
    have hview : s.1.view t = schema.apply (.updateAgent id' patch)
        (schema.apply (.insertVersion version) s.1.store.committed) := by
      simp [World.view, Store.view, h.pending, applyAll]
    have hrow : (s.1.view t).agent id' = some (patch.apply row) := by
      rw [hview, agent_updateAgent, if_pos rfl]
      change (s.1.store.committed.agent id').map patch.apply = _
      rw [h.agent]
      rfl
    have hversions : (s.1.view t).versionsOf id' = versions ++ [version] := by
      rw [hview]
      change (schema.apply (.insertVersion version) s.1.store.committed).versionsOf id' = _
      rw [versionsOf_insertVersion, if_pos hagent, h.versions]
    rw [hrow, hversions]
    refine ⟨hconsistent.numbered.push ?_, ?_⟩
    · rw [hnumber, hconsistent.numbered.latest_eq]
    · simp [AgentPatch.apply, hlatest]
  · intro wr hwr id' hrevises
    have hcommitted : Live s.1.store.committed id row := ⟨h.agent, hlive⟩
    rw [h.pending] at hwr
    rcases List.mem_pair.mp hwr with rfl | rfl
    · obtain rfl : id = id' := hagent.symm.trans hrevises
      refine ⟨row, hcommitted, fun version' heq => ?_⟩
      cases heq
      exact ⟨h.events, hcopies⟩
    · obtain ⟨rfl, -⟩ := hrevises
      exact ⟨row, hcommitted, fun version' heq => by cases heq⟩

/-- The read after a save: with the filter on deleted rows it finds no row that was deleted meanwhile,
since a row that was saved is locked. -/
theorem ends_reloadAgent {patch : AgentPatch} {includeDeleted : Bool}
    (hlatest : patch.latestVersionId = none)
    (hdraft : includeDeleted = true → patch.draftConfig = none)
    (hdeleted : includeDeleted = false → patch.deletedAt = none) :
    Ends conversions t (Saved t id patch) (requireAgent id includeDeleted false)
      fun _ => Ready conversions t := by
  refine Triple.bind (B := fun reply s => reply.isSome → Ready conversions t s)
    (ends_await saved_stable (fun reply => ?_) (fun _ _ => trivial) ?_) fun reply => ?_
  · intro s s' hinv h hrely hinv' hsome
    exact ready_stable s s' hinv (h hsome) hrely hinv'
  · intro s reply s' hinv h hsucceed hlog hsome
    have hevents : eventsOf t s'.2 = eventsOf t s.2 := eventsOf_none hlog rfl
    obtain ⟨row, hrow, hworld⟩ : ∃ row, ((s.1.view t).agent id).filter
        (fun row => includeDeleted || row.deletedAt.isNone) = some row ∧ s'.1 = s.1 := by
      simp only [succeed] at hsucceed
      split at hsucceed
      · obtain ⟨rfl, -⟩ := Prod.mk.inj (Option.some.inj hsucceed)
        simp at hsome
      · rename_i row hrow
        exact ⟨row, hrow, (Prod.mk.inj (Option.some.inj hsucceed)).2.symm⟩
    refine ready_frame ?_ hworld hevents
    rcases h with h | ⟨agent, versions, h⟩
    · exact ready_idle h
    · obtain ⟨hfound, hfilter⟩ := Option.filter_eq_some_iff.mp hrow
      have hview : (s.1.view t).agent id = agent.map patch.apply := by
        have happly : s.1.view t = schema.apply (.updateAgent id patch) s.1.store.committed := by
          simp [World.view, Store.view, h.pending, applyAll]
        rw [happly, agent_updateAgent, if_pos rfl, h.agent]
      obtain ⟨old, rfl, rfl⟩ := Option.map_eq_some_iff.mp (hview.symm.trans hfound)
      refine ready_update hinv h hlatest fun hsent => ⟨old, rfl, ?_⟩
      cases includeDeleted with
      | true => simp [hdraft rfl] at hsent
      | false => simpa [AgentPatch.apply, hdeleted rfl] using hfilter
  · cases reply with
    | none => exact ends_raise
    | some agent => exact Triple.done ready_stable fun _ _ h => h rfl

end Commits

section Requests

theorem ends_commit : Ends conversions t (Ready conversions t) (await .commit) fun _ _ => True :=
  ends_await ready_stable (fun _ => stable_true) (fun _ h => h) fun _ _ _ _ _ _ _ => trivial

theorem ends_insertAgent (values : NewAgent) :
    Ends conversions t (Idle t) (await (.insertAgent values)) fun row s =>
      row.latestVersionId = none ∧
        ∃ versions, Own t row.id none versions [.insertAgent row] [] s := by
  refine ends_await idle_stable
    (fun _ => (Stable.const _).and (Stable.exists fun _ => own_stable)) (fun _ _ => trivial) ?_
  intro s row s' hinv h hsucceed hlog
  obtain ⟨mid, hmid, heq⟩ := Option.map_eq_some_iff.mp hsucceed
  obtain ⟨store, hstore, rfl⟩ := World.write_eq_some hmid
  obtain ⟨rfl, hworld⟩ := Prod.mk.inj heq
  have hstore' : s'.1.store = store := by
    rw [← hworld]
    rfl
  have hown := h.write hstore rfl hstore' ((eventsOf_none hlog rfl).trans h.events)
  obtain ⟨hnone, -⟩ := hinv.fresh s.1.nextAgent le_rfl
  rw [show s.1.store.committed.agent (values.toRow s.1.nextAgent).id = none from hnone] at hown
  exact ⟨rfl, _, hown⟩

theorem ends_createAgent (displayName : String) (description : Option String) (draft : DraftInput)
    (createdBy : Option String) :
    Ends conversions t (Idle t) (createAgent conversions displayName description draft createdBy)
      fun row s => row.latestVersionId = none ∧
        ∃ versions, Own t row.id none versions [.insertAgent row] [] s := by
  refine Triple.bind (ends_orDraftInvalid idle_stable _ _) fun draftConfig => ?_
  exact Triple.weaken (ends_insertAgent _) (fun _ _ h => h.2) (fun _ _ _ h => h) fun _ _ _ h => h

theorem ends_updateDraft (id : AgentId) (changes : DraftChanges) :
    Ends conversions t (Idle t) (updateDraft conversions id changes)
      fun _ => Ready conversions t := by
  refine Triple.bind ends_loadAgent fun agent => ?_
  have hsave : ∀ patch : AgentPatch, patch.latestVersionId = none → patch.deletedAt = none →
      Ends conversions t (fun s => agent.id = id ∧ Idle t s)
        (do await (.updateAgent agent patch); requireAgent id false false)
        fun _ => Ready conversions t := by
    rintro patch hlatest hdeleted s hinv ⟨hid, h⟩
    refine Triple.bind (ends_updateLoaded hid) (fun _ => ends_reloadAgent ?_ ?_ fun _ => ?_) s hinv h
    · simp [AgentPatch.net, hlatest]
    · simp
    · simp [AgentPatch.net, hdeleted]
  have hstable : Stable (agentProtocol conversions) t fun s => agent.id = id ∧ Idle t s :=
    (Stable.const _).and idle_stable
  cases changes.draft with
  | none => exact hsave _ rfl rfl
  | some draft =>
      have hdump : Ends conversions t (fun s => agent.id = id ∧ Idle t s)
          (some <$> orDraftInvalid (some id) (dumpDraftConfig conversions draft))
          fun _ s => agent.id = id ∧ Idle t s :=
        Triple.bind (ends_orDraftInvalid hstable _ _) fun _ => Triple.done hstable fun _ _ h => h.2
      exact Triple.bind hdump fun _ => hsave _ rfl rfl

theorem ends_softDelete (id : AgentId) (now : Timestamp) (updatedBy : Option String) :
    Ends conversions t (Idle t) (softDelete id now updatedBy) fun _ => Ready conversions t := by
  refine Triple.bind ends_loadAgent fun agent => ?_
  rintro s hinv ⟨hid, h⟩
  refine Triple.bind (ends_updateLoaded hid) (fun _ => ends_reloadAgent ?_ (fun _ => ?_) ?_) s hinv h
  · rfl
  · rfl
  · simp

/-- A publish keeps the lock of the agent from the read of the draft to its commit. -/
theorem ends_publishAgent (id : AgentId) (publishedBy : Option String) :
    Ends conversions t (Idle t) (publishAgent conversions id publishedBy)
      fun _ => Ready conversions t := by
  refine Triple.bind ends_lockAgent fun agent => ?_
  refine Triple.bind (ends_orDraftInvalid locked_stable _ _) fun draft => ?_
  rintro s hinv ⟨hdraft, ⟨rfl, hlive⟩, versions, h⟩
  refine Triple.bind ends_maxVersionNumber (fun number => ?_) s hinv h
  rintro s hinv ⟨rfl, h⟩
  refine Triple.bind (ends_insertVersion rfl) (fun version => ?_) s hinv h
  rintro s hinv ⟨⟨hversion, hfresh⟩, h⟩
  let patch : AgentPatch := { latestVersionId := some version.id, updatedBy := publishedBy }
  have hlatest : (patch.net agent).latestVersionId = some version.id := by
    have hchanged : (some version.id).filter (some · ≠ agent.latestVersionId) = some version.id :=
      Option.filter_eq_some_iff.mpr ⟨rfl, decide_eq_true fun heq => hfresh heq.symm⟩
    exact hchanged
  have hcopies : Copies conversions version agent.draftConfig := by
    obtain ⟨raw, hraw, hvalid⟩ := Option.bind_eq_some_iff.mp hdraft
    refine ⟨raw, draft, hraw, hvalid, ?_⟩
    rw [hversion]
    rfl
  refine Triple.bind (B := fun _ => Ready conversions t) ?_ (fun _ => ?_) s hinv h
  · have hsave := @ends_updateLocked conversions t agent.id versions [.insertVersion version]
      [.locked agent.id agent.draftConfig, .inserted version] (some agent) agent patch rfl
    refine Triple.weaken (hsave ?_) (fun _ _ h => h) ?_ fun _ _ _ h => h
    · simp [AgentPatch.isEmpty, hlatest]
    · intro _ s hinv h
      exact ready_publish hinv h hlive (by rw [hversion]; rfl) (by rw [hversion]; rfl) hcopies hlatest
  · refine ends_await ready_stable (fun _ => ready_stable) (fun _ _ => trivial) ?_
    intro s row s' _ h hsucceed hlog
    obtain ⟨row, -, heq⟩ := Option.map_eq_some_iff.mp hsucceed
    exact ready_frame h (Prod.mk.inj heq).2.symm (eventsOf_none hlog rfl)

theorem ends_run (call : ServiceCall) :
    Ends conversions t (Idle t) (call.run conversions) fun _ _ => True := by
  cases call with
  | create request =>
      refine Triple.bind (ends_createAgent _ _ _ _) fun row => ?_
      refine Triple.weaken ends_commit ?_ (fun _ _ _ h => h) fun _ _ _ h => h
      rintro s hinv ⟨hlatest, versions, h⟩
      exact ready_insert hinv h rfl hlatest
  | updateDraft id request => exact Triple.bind (ends_updateDraft id _) fun _ => ends_commit
  | publish id => exact Triple.bind (ends_publishAgent id none) fun _ => ends_commit
  | delete id now => exact Triple.bind (ends_softDelete id now none) fun _ => ends_commit

theorem ends_request (call : ServiceCall) :
    Ends conversions t (Idle t) (request conversions call) fun _ _ => True := by
  have hclose : Ends conversions t (fun _ => True) (await .close) fun _ _ => True :=
    ends_await stable_true (fun _ => stable_true) (fun _ _ => trivial)
      fun _ _ _ _ _ _ _ => trivial
  exact Triple.ensuring (fun _ => stable_true) (fun _ => stable_true) (ends_run call)
    (fun _ => hclose) fun _ => hclose

end Requests

section Runs

theorem Initial.agentInv {w : World} (h : Initial w) : AgentInv conversions (w, []) where
  guarded t wr k hwr := by simp [h.pending] at hwr
  consistent id := by
    have hversions : w.store.committed.versionsOf id = [] := by simp [Db.versionsOf, h.versions]
    rw [hversions]
    refine ⟨Numbered.nil, ?_⟩
    cases hagent : w.store.committed.agent id with
    | none => rfl
    | some agent => exact h.latest agent (List.mem_of_find?_eq_some hagent)
  fresh id hid := by
    refine ⟨List.find?_eq_none.mpr fun agent hagent heq => ?_, by simp [h.pending]⟩
    obtain rfl : agent.id = id := by simpa using heq
    exact absurd (h.agents agent hagent) (Nat.not_lt.mpr hid)
  published version hversion := by simp [h.versions] at hversion
  numbered t version hmem := by simp [eventsOf] at hmem
  unique t t' version version' hmem := by simp [eventsOf] at hmem

theorem invariant_steps {w : World} (hinitial : Initial w) {c : Config}
    (hrun : Steps (recording exec entries) (Request conversions) unrestricted (.idle (w, [])) c) :
    Invariant (agentProtocol conversions) Idle (fun _ _ _ => True) c := by
  have hidle : ∀ t, Idle t (w, []) := fun t =>
    ⟨hinitial.pending t, by simp [hinitial.owner], rfl⟩
  refine (Invariant.idle (Initial.agentInv hinitial) hidle).steps (fun t => idle_stable) ?_ hrun
  rintro t p ⟨call, rfl⟩ s hinv h
  exact Safe.mono (fun _ _ _ _ => trivial) (ends_request call s hinv h)

/-- Versions only come and deletions stay, in every run. -/
theorem grows_steps {c c' : Config}
    (hrun : Steps (recording exec entries) (Request conversions) unrestricted c c') :
    Grows c.shared.1.store.committed c'.shared.1.store.committed := by
  induction hrun with
  | refl => exact Grows.refl _
  | tail _ hstep ih =>
      refine ih.trans ?_
      cases hstep with
      | spawn _ _ => exact Grows.refl _
      | resume _ _ hexec =>
          rcases (exec_outcome (recording_eq_some hexec).1).committed with heq | ⟨-, heq⟩
          · rw [heq]
            exact Grows.refl _
          · rw [heq]
            exact grows_applyAll _ _

/-- **Published versions.** In every interleaving of requests, whatever fails in it, the versions of an
agent are numbered from one on and the agent points to the last; each of them has the content of the
committed draft that its transaction read under the lock, and stays as it is; and no transaction is
about to commit a version or a change of the draft of an agent whose deletion is committed. -/
theorem versions_in_order (conversions : Conversions) {w : World} (hinitial : Initial w) {c : Config}
    (hrun : Steps (recording exec entries) (Request conversions) unrestricted (.idle (w, [])) c) :
    (∀ id, Consistent (c.shared.1.store.committed.agent id)
      (c.shared.1.store.committed.versionsOf id)) ∧
    (∀ version ∈ c.shared.1.store.committed.versions,
      Published conversions c.shared.2 version ∧
        ∀ other ∈ c.shared.1.store.committed.versions, other.id = version.id → other = version) ∧
    (∀ t k, c.task t = some (.await .commit k) →
      ∀ wr ∈ c.shared.1.store.pending t, ∀ id, Revises id wr → ∃ agent,
        Live c.shared.1.store.committed id agent ∧
          ∀ version, wr = .insertVersion version → Copies conversions version agent.draftConfig) ∧
    ∀ c', Steps (recording exec entries) (Request conversions) unrestricted c c' →
      Grows c.shared.1.store.committed c'.shared.1.store.committed := by
  have hinv := invariant_steps hinitial hrun
  refine ⟨hinv.shared.consistent, fun version hversion => ⟨hinv.shared.published version hversion,
    fun other hother hid => ?_⟩, fun t k htask wr hwr id hrevises => ?_, fun c' => grows_steps⟩
  · obtain ⟨t, _, hevents, -⟩ := hinv.shared.published version hversion
    obtain ⟨t', _, hevents', -⟩ := hinv.shared.published other hother
    exact hinv.shared.unique t' t other version (by simp [hevents']) (by simp [hevents]) hid
  · obtain ⟨hpre, -⟩ := hinv.safe t _ htask c.shared ((agentProtocol conversions).rely_refl t _)
      hinv.shared
    obtain ⟨agent, hlive, hpublish⟩ := hpre.2 wr hwr id hrevises
    exact ⟨agent, hlive, fun version heq => (hpublish version heq).2⟩

end Runs

/-- Conversions that take texts for UUIDs and every object for parameters. -/
def lenient : Conversions where
  uuid := Json.asStr?
  modelParameters := Json.asObj?

def draftAgent : Agent where
  id := 0
  displayName := "Reviewer"
  description := none
  enabled := true
  draftConfig := some (.obj [("system_prompt", .str "Review."), ("model", .str "small")])
  latestVersionId := none
  createdBy := none
  updatedBy := none
  deletedAt := none

def draftWorld : World where
  store :=
    { committed := { agents := [draftAgent], versions := [] }
      pending := fun _ => []
      owner := fun _ => none }
  nextAgent := 1
  nextVersion := 0

theorem draftWorld_initial : Initial draftWorld :=
  ⟨rfl, by decide, by decide, fun _ => rfl, fun _ => rfl⟩

/-- A publish, from the request to its end. -/
def publishSchedule : List (Move Reply Exn TaskId Choice) :=
  .spawn 0 (request lenient (.publish 0)) :: List.replicate 7 (.resume 0 .succeed)

theorem versions_in_order_published : ∃ c : Config,
    follow (recording exec entries) unrestricted (.idle (draftWorld, [])) publishSchedule = some c ∧
      (c.shared.1.store.committed.agent 0).bind Agent.latestVersionId = some 0 ∧
      Consistent (c.shared.1.store.committed.agent 0) (c.shared.1.store.committed.versionsOf 0) := by
  have hrun : ∃ c : Config,
      follow (recording exec entries) unrestricted (.idle (draftWorld, [])) publishSchedule = some c ∧
        (c.shared.1.store.committed.agent 0).bind Agent.latestVersionId = some 0 :=
    ⟨_, rfl, rfl⟩
  obtain ⟨c, hc, hlatest⟩ := hrun
  have hspawn : ∀ p ∈ started publishSchedule, Request lenient p := by
    simpa [publishSchedule, started] using ⟨_, rfl⟩
  obtain ⟨hconsistent, -⟩ := versions_in_order lenient draftWorld_initial (follow_steps hspawn hc)
  exact ⟨c, hc, hlatest, hconsistent 0⟩

end ChangeQuality.AgentPublishing
