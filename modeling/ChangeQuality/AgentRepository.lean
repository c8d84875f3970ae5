import ChangeQuality.Agents
import ChangeQuality.Histories
import ChangeQuality.McpService

/-!
`AgentRepository` and `AgentService`, translated await by await, over a database under READ COMMITTED.
A request has a database session of its own; failures are the environment's choice, at every await.
-/

namespace ChangeQuality.AgentRepository

open ChangeQuality.Values
open ChangeQuality.Agents
open ChangeQuality.ReadCommitted
open ChangeQuality.Coroutine.Program (ensuring)

abbrev TaskId := Nat

/-- The exceptions; those that the handlers of the API tell apart have a constructor of their own. -/
inductive Exn where
  | agentNotFound (id : AgentId)
  | draftInvalid (id : Option AgentId)
  | other (type message : String)
  deriving DecidableEq

/-- What the modelled code awaits. A write stands where the flush that sends it happens. -/
inductive Op where
  /-- The `SELECT` of `_require_agent`, which overwrites the loaded instance. -/
  | selectAgent (id : AgentId) (includeDeleted lock : Bool)
  | maxVersionNumber (id : AgentId)
  | insertAgent (values : NewAgent)
  | insertVersion (values : NewVersion)
  /-- The flush of changes to the loaded instance `agent`. -/
  | updateAgent (agent : Agent) (patch : AgentPatch)
  | refreshVersion (id : VersionId)
  | commit
  /-- The exit of `async with async_session()`. -/
  | close

abbrev Reply : Op → Type
  | .selectAgent _ _ _ => Option Agent
  | .maxVersionNumber _ => Nat
  | .insertAgent _ => Agent
  | .insertVersion _ | .refreshVersion _ => AgentVersion
  | _ => Unit

abbrev Program := Coroutine.Program Reply Exn

def await (op : Op) : Program (Reply op) :=
  Coroutine.Program.perform op

section Repository

variable (conversions : Conversions)

/-- `_require_agent`. -/
def requireAgent (id : AgentId) (includeDeleted lock : Bool) : Program Agent := do
  match ← await (.selectAgent id includeDeleted lock) with
  | some agent => pure agent
  | none => throw (.agentNotFound id)

/-- The value, or an `AgentDraftInvalidError`. -/
def orDraftInvalid {α : Type} (id : Option AgentId) : Option α → Program α
  | some a => pure a
  | none => throw (.draftInvalid id)

def createAgent (displayName : String) (description : Option String) (draft : DraftInput)
    (createdBy : Option String) : Program Agent := do
  let draftConfig ← orDraftInvalid none (dumpDraftConfig conversions draft)
  await (.insertAgent { displayName, description, draftConfig, createdBy })

/-- The arguments of `update_draft`; `none` is `UNSET`. -/
structure DraftChanges where
  displayName : Option String := none
  description : Option (Option String) := none
  enabled : Option Bool := none
  draft : Option DraftInput := none
  updatedBy : Option String := none

def updateDraft (id : AgentId) (changes : DraftChanges) : Program Agent := do
  let agent ← requireAgent id false false
  let draftConfig ←
    match changes.draft with
    | some draft => some <$> orDraftInvalid (some id) (dumpDraftConfig conversions draft)
    | none => pure none
  await (.updateAgent agent {
    displayName := changes.displayName
    description := changes.description
    enabled := changes.enabled
    draftConfig
    updatedBy := changes.updatedBy })
  requireAgent id false false

def publishAgent (id : AgentId) (publishedBy : Option String) : Program AgentVersion := do
  let agent ← requireAgent id false true
  let draft ← orDraftInvalid (some id)
    (agent.draftConfig.bind fun draft => validateDraftConfig conversions (.mapping draft))
  let latest ← await (.maxVersionNumber agent.id)
  let version ← await (.insertVersion {
    content := draft.content
    agentId := agent.id
    versionNumber := latest + 1
    publishedBy })
  await (.updateAgent agent { latestVersionId := some version.id, updatedBy := publishedBy })
  await (.refreshVersion version.id)

/-- `soft_delete`, at the time that `datetime.now` tells. -/
def softDelete (id : AgentId) (now : Timestamp) (updatedBy : Option String) : Program Agent := do
  let agent ← requireAgent id false false
  await (.updateAgent agent { deletedAt := some now, updatedBy })
  requireAgent id true false

end Repository

section Service

variable (conversions : Conversions)

structure AgentCreate where
  displayName : String
  description : Option String
  draft : AgentDraftConfig

structure AgentDraftUpdate where
  displayName : McpService.Field String := .unset
  description : McpService.Field String := .unset
  enabled : McpService.Field Bool := .unset
  draft : McpService.Field AgentDraftConfig := .unset

/-- The value of a field that is set and not null. -/
def given {α : Type} : McpService.Field α → Option α
  | .set value => some value
  | _ => none

/-- The value of a field that is set, where null is a value. -/
def givenNullable {α : Type} : McpService.Field α → Option (Option α)
  | .unset => none
  | .null => some none
  | .set value => some (some value)

def draftUpdateKwargs (request : AgentDraftUpdate) : DraftChanges where
  displayName := given request.displayName
  description := givenNullable request.description
  enabled := given request.enabled
  draft := (given request.draft).map .config

/-- A call of the service that writes. -/
inductive ServiceCall where
  | create (request : AgentCreate)
  | updateDraft (id : AgentId) (request : AgentDraftUpdate)
  | publish (id : AgentId)
  | delete (id : AgentId) (now : Timestamp)

/-- The call of the repository, and the commit. -/
def ServiceCall.run : ServiceCall → Program Unit
  | .create request => do
      let _ ← createAgent conversions request.displayName request.description
        (.config request.draft) none
      await .commit
  | .updateDraft id request => do
      let _ ← AgentRepository.updateDraft conversions id (draftUpdateKwargs request)
      await .commit
  | .publish id => do
      let _ ← publishAgent conversions id none
      await .commit
  | .delete id now => do
      let _ ← softDelete id now none
      await .commit

/-- The program of a request. -/
def request (call : ServiceCall) : Program Unit :=
  ensuring (call.run conversions) (await .close)

end Service

structure World where
  store : Store Db Write AgentId TaskId
  nextAgent : AgentId
  nextVersion : VersionId

namespace World

variable (w : World) (t : TaskId)

def view : Db :=
  w.store.view schema t

def withStore (store : Store Db Write AgentId TaskId) : World :=
  { w with store }

def write (wr : Write) : Option World :=
  (w.store.write schema t wr).map w.withStore

def rollback : World :=
  w.withStore (w.store.rollback t)

end World

/-- What the environment may do with an await. A statement that is `lost` was carried out, but its
reply does not arrive; `poisons` tells whether a failure ends the transaction. -/
inductive Choice where
  | succeed
  | lost (error : Exn)
  | fail (error : Exn) (poisons : Bool)

/-- The outcome of an operation that does not fail. A locking `SELECT` waits for the row and looks at
its filter again once it has the lock. -/
def succeed (t : TaskId) (w : World) : (op : Op) → Option (Reply op × World)
  | .selectAgent id includeDeleted lock =>
      match ((w.view t).agent id).filter fun row => includeDeleted || row.deletedAt.isNone with
      | none => some (none, w)
      | some row =>
          if lock then (w.store.lock t id).map fun store => (some row, w.withStore store)
          else some (some row, w)
  | .maxVersionNumber id => some ((w.view t).maxVersionNumber id, w)
  | .insertAgent values =>
      let row := values.toRow w.nextAgent
      (w.write t (.insertAgent row)).map fun w' => (row, { w' with nextAgent := w.nextAgent + 1 })
  | .insertVersion values =>
      let row := values.toRow w.nextVersion
      if ((w.view t).agent values.agentId).isSome ∧
          ((w.view t).versionsOf values.agentId).all fun other =>
            other.versionNumber ≠ values.versionNumber then
        (w.write t (.insertVersion row)).map fun w' =>
          (row, { w' with nextVersion := w.nextVersion + 1 })
      else none
  | .updateAgent agent patch =>
      let net := patch.net agent
      if net.isEmpty then some ((), w)
      else if ((w.view t).agent agent.id).isSome then
        (w.write t (.updateAgent agent.id net)).map fun w' => ((), w')
      else none
  | .refreshVersion id =>
      ((w.view t).versions.find? fun row => row.id = id).map fun row => (row, w)
  | .commit => some ((), w.withStore (w.store.commit schema t))
  | .close => some ((), w.rollback t)

/-- The operations that cannot fail. -/
def infallible : Op → Bool
  | .close => true
  | _ => false

def exec : Coroutine.Semantics Reply Exn TaskId Choice World
  | t, op, .succeed, w => (succeed t w op).map fun (reply, w') => (.ok reply, w')
  | t, op, .lost error, w =>
      if infallible op then none
      else (succeed t w op).map fun (_, w') => (.error error, w')
  | t, op, .fail error poisons, w =>
      if infallible op then none
      else some (.error error, if poisons then w.rollback t else w)

/-- What happened in a transaction: an agent was locked with this committed draft, a version was
inserted. -/
inductive Event where
  | locked (id : AgentId) (draft : Option Json)
  | inserted (version : AgentVersion)

def entries : Histories.Entries Reply Exn TaskId World (TaskId × Event)
  | t, .selectAgent id _ true, .ok (some _), w =>
      [(t, .locked id ((w.store.committed.agent id).bind Agent.draftConfig))]
  | t, .insertVersion _, .ok version, _ => [(t, .inserted version)]
  | _, _, _, _ => []

/-- The events of one transaction. -/
def eventsOf (t : TaskId) (log : List (TaskId × Event)) : List Event :=
  (log.filter fun entry => entry.1 = t).map (·.2)

abbrev System := World × List (TaskId × Event)

abbrev Config := Coroutine.Config Reply Exn TaskId System

/-- The programs of a run. -/
def Request (conversions : Conversions) (p : Program Unit) : Prop :=
  ∃ call : ServiceCall, p = request conversions call

/-- The state in which the service begins: no version is published and no transaction is open. -/
structure Initial (w : World) : Prop where
  versions : w.store.committed.versions = []
  latest : ∀ agent ∈ w.store.committed.agents, agent.latestVersionId = none
  agents : ∀ agent ∈ w.store.committed.agents, agent.id < w.nextAgent
  pending : ∀ t, w.store.pending t = []
  owner : ∀ id, w.store.owner id = none

section Steps

variable {t : TaskId} {op : Op} {choice : Choice} {w w' : World} {r : Except Exn (Reply op)}

/-- What a step of a transaction can do. -/
inductive Outcome (t : TaskId) (w : World) : Op → World → Prop
  | stay {op : Op} : Outcome t w op w
  | rollback {op : Op} : Outcome t w op (w.rollback t)
  | lock {id : AgentId} {includeDeleted : Bool} {store : Store Db Write AgentId TaskId} :
      w.store.lock t id = some store →
      Outcome t w (.selectAgent id includeDeleted true) (w.withStore store)
  | insertAgent {values : NewAgent} {store : Store Db Write AgentId TaskId} :
      w.store.write schema t (.insertAgent (values.toRow w.nextAgent)) = some store →
      Outcome t w (.insertAgent values) { w with store, nextAgent := w.nextAgent + 1 }
  | insertVersion {values : NewVersion} {store : Store Db Write AgentId TaskId} :
      ((w.view t).agent values.agentId).isSome →
      w.store.write schema t (.insertVersion (values.toRow w.nextVersion)) = some store →
      Outcome t w (.insertVersion values) { w with store, nextVersion := w.nextVersion + 1 }
  | updateAgent {agent : Agent} {patch : AgentPatch} {store : Store Db Write AgentId TaskId} :
      ((w.view t).agent agent.id).isSome →
      w.store.write schema t (.updateAgent agent.id (patch.net agent)) = some store →
      Outcome t w (.updateAgent agent patch) (w.withStore store)
  | commit : Outcome t w .commit (w.withStore (w.store.commit schema t))

theorem World.write_eq_some {wr : Write} (h : w.write t wr = some w') :
    ∃ store, w.store.write schema t wr = some store ∧ w' = w.withStore store := by
  obtain ⟨store, hstore, rfl⟩ := Option.map_eq_some_iff.mp h
  exact ⟨store, hstore, rfl⟩

theorem succeed_outcome {reply : Reply op} (h : succeed t w op = some (reply, w')) :
    Outcome t w op w' := by
  cases op with
  | selectAgent id includeDeleted lock =>
      simp only [succeed] at h
      split at h
      · obtain ⟨-, rfl⟩ := Prod.mk.inj (Option.some.inj h)
        exact .stay
      · split at h
        · rename_i hlock
          subst hlock
          obtain ⟨store, hstore, heq⟩ := Option.map_eq_some_iff.mp h
          obtain ⟨-, rfl⟩ := Prod.mk.inj heq
          exact .lock hstore
        · obtain ⟨-, rfl⟩ := Prod.mk.inj (Option.some.inj h)
          exact .stay
  | maxVersionNumber id =>
      obtain ⟨-, rfl⟩ := Prod.mk.inj (Option.some.inj h)
      exact .stay
  | insertAgent values =>
      obtain ⟨mid, hmid, heq⟩ := Option.map_eq_some_iff.mp h
      obtain ⟨store, hstore, rfl⟩ := World.write_eq_some hmid
      obtain ⟨-, rfl⟩ := Prod.mk.inj heq
      exact .insertAgent hstore
  | insertVersion values =>
      simp only [succeed] at h
      split at h
      · rename_i hvalid
        obtain ⟨mid, hmid, heq⟩ := Option.map_eq_some_iff.mp h
        obtain ⟨store, hstore, rfl⟩ := World.write_eq_some hmid
        obtain ⟨-, rfl⟩ := Prod.mk.inj heq
        exact .insertVersion hvalid.1 hstore
      · simp at h
  | updateAgent agent patch =>
      simp only [succeed] at h
      split at h
      · obtain ⟨-, rfl⟩ := Prod.mk.inj (Option.some.inj h)
        exact .stay
      · split at h
        · rename_i hagent
          obtain ⟨mid, hmid, heq⟩ := Option.map_eq_some_iff.mp h
          obtain ⟨store, hstore, rfl⟩ := World.write_eq_some hmid
          obtain ⟨-, rfl⟩ := Prod.mk.inj heq
          exact .updateAgent hagent hstore
        · simp at h
  | refreshVersion id =>
      obtain ⟨row, -, heq⟩ := Option.map_eq_some_iff.mp h
      obtain ⟨-, rfl⟩ := Prod.mk.inj heq
      exact .stay
  | commit =>
      obtain ⟨-, rfl⟩ := Prod.mk.inj (Option.some.inj h)
      exact .commit
  | close =>
      obtain ⟨-, rfl⟩ := Prod.mk.inj (Option.some.inj h)
      exact .rollback

theorem exec_outcome (h : exec t op choice w = some (r, w')) : Outcome t w op w' := by
  cases choice with
  | succeed =>
      obtain ⟨⟨reply, w''⟩, hsucceed, heq⟩ := Option.map_eq_some_iff.mp h
      obtain ⟨-, rfl⟩ := Prod.mk.inj heq
      exact succeed_outcome hsucceed
  | lost error =>
      simp only [exec] at h
      split at h
      · simp at h
      · obtain ⟨⟨reply, w''⟩, hsucceed, heq⟩ := Option.map_eq_some_iff.mp h
        obtain ⟨-, rfl⟩ := Prod.mk.inj heq
        exact succeed_outcome hsucceed
  | fail error poisons =>
      simp only [exec] at h
      split at h
      · simp at h
      · obtain ⟨-, rfl⟩ := Prod.mk.inj (Option.some.inj h)
        cases poisons
        · exact .stay
        · exact .rollback

/-- An operation that returns was carried out. -/
theorem exec_ok {reply : Reply op} (h : exec t op choice w = some (.ok reply, w')) :
    succeed t w op = some (reply, w') := by
  cases choice with
  | succeed =>
      obtain ⟨⟨reply', w''⟩, hsucceed, heq⟩ := Option.map_eq_some_iff.mp h
      obtain ⟨hreply, rfl⟩ := Prod.mk.inj heq
      exact Except.ok.inj hreply ▸ hsucceed
  | lost error =>
      simp only [exec] at h
      split at h
      · simp at h
      · obtain ⟨out, -, heq⟩ := Option.map_eq_some_iff.mp h
        cases (Prod.mk.inj heq).1
  | fail error poisons =>
      simp only [exec] at h
      split at h
      · simp at h
      · cases (Prod.mk.inj (Option.some.inj h)).1

theorem Outcome.change (h : Outcome t w op w') : Change schema t w.store w'.store := by
  cases h with
  | stay => exact .stay
  | rollback => exact .rollback
  | lock h => exact .lock h
  | insertAgent h => exact .write h
  | insertVersion _ h => exact .write h
  | updateAgent _ h => exact .write h
  | commit => exact .commit

/-- Only a commit changes what is committed. -/
theorem Outcome.committed (h : Outcome t w op w') :
    w'.store.committed = w.store.committed ∨ op = .commit ∧ w'.store.committed = w.view t := by
  cases h with
  | stay => exact .inl rfl
  | rollback => exact .inl rfl
  | lock h => exact .inl (Store.lock_eq_some h).committed
  | insertAgent h => exact .inl (Store.committed_write h)
  | insertVersion _ h => exact .inl (Store.committed_write h)
  | updateAgent _ h => exact .inl (Store.committed_write h)
  | commit => exact .inr ⟨rfl, rfl⟩

end Steps

end ChangeQuality.AgentRepository
