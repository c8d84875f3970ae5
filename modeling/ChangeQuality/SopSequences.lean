import ChangeQuality.SequencedLog
import ChangeQuality.SopOutcomes
import ChangeQuality.SopTransactions

/-!
The sequence numbers of events and messages. A writer draws `max + 1` under the row lock of the
check or of the session, so that what is committed is numbered without gaps in the order in which
it is committed, and a reader that pages by sequence loses nothing.
-/

namespace ChangeQuality.SopSequences

open ChangeQuality.Values
open ChangeQuality.SopTables
open ChangeQuality.SopRepository
open ChangeQuality.SopRunner
open ChangeQuality.SopSystem
open ChangeQuality.SopEffects
open ChangeQuality.SopInvariant
open ChangeQuality.SopDiscipline
open ChangeQuality.SopTransactions
open ChangeQuality.SopOutcomes
open ChangeQuality.SequencedLog
open ChangeQuality.ReadCommitted
open ChangeQuality.Coroutine
open ChangeQuality.Interference

/-- The events of every check and the messages of every session are numbered from one on. -/
structure Sequenced (db : Db) : Prop where
  events : ∀ id, Numbered (·.sequence) (db.eventsOf id)
  messages : ∀ sid, Numbered (·.sequence) (db.messagesOf sid)

/-- Events and messages have been added at the end. -/
structure Grown (db db' : Db) : Prop where
  events : ∀ id, db.eventsOf id <+: db'.eventsOf id
  messages : ∀ sid, db.messagesOf sid <+: db'.messagesOf sid

/-- What every transaction sees is numbered, and so is what is committed. -/
structure InSequence (w : World) : Prop where
  committed : Sequenced w.store.committed
  view : ∀ t, Sequenced (w.view t)

/-- What a task must have established before an operation, besides the discipline. -/
def Allocated (t : TaskId) (op : Op) (w : World) : Prop :=
  match op with
  | .insertEvent event => event.sequence = (w.view t).latestSequence event.checkId + 1
  | .insertMessage message => message.sequence = (w.view t).latestMessage message.sessionId + 1
  | _ => True

theorem Grown.refl (db : Db) : Grown db db :=
  ⟨fun _ => List.prefix_rfl, fun _ => List.prefix_rfl⟩

theorem Grown.trans {db₁ db₂ db₃ : Db} (h : Grown db₁ db₂) (h' : Grown db₂ db₃) : Grown db₁ db₃ :=
  ⟨fun id => (h.events id).trans (h'.events id), fun sid => (h.messages sid).trans (h'.messages sid)⟩

theorem grown_apply (wr : Write) (db : Db) : Grown db (schema.apply wr db) := by
  constructor
  · intro id
    cases wr with
    | insertEvent event =>
        rw [eventsOf_insertEvent]
        exact List.prefix_append _ _
    | _ => exact List.prefix_rfl
  · intro sid
    cases wr with
    | insertMessage message =>
        rw [messagesOf_insertMessage]
        exact List.prefix_append _ _
    | _ => exact List.prefix_rfl

theorem grown_applyAll (ws : List Write) (db : Db) : Grown db (applyAll schema ws db) :=
  applyAll_keeps (φ := Grown db) (fun wr _ db' h => h.trans (grown_apply wr db')) (.refl db)

section Steps

variable {t t' : TaskId} {op : Op} {w w' : World} {failed : Prop}

/-- A row with the next number keeps the tables numbered; the other writes add no such row. -/
theorem Sequenced.apply {wr : Write} (h : Sequenced (w.view t)) (hpre : Allocated t op w)
    (hwr : Writes t w w' op wr) : Sequenced (schema.apply wr (w.view t)) := by
  constructor
  · intro id
    cases hwr with
    | @insertEvent event =>
        rw [eventsOf_insertEvent]
        split
        · rename_i hid
          subst hid
          refine (h.events _).push (hpre.trans ?_)
          exact congrArg (· + 1) (h.events event.checkId).latest_eq
        · simpa using h.events id
    | _ => exact h.events id
  · intro sid
    cases hwr with
    | @insertMessage message =>
        rw [messagesOf_insertMessage]
        split
        · rename_i hsid
          subst hsid
          refine (h.messages _).push (hpre.trans ?_)
          exact congrArg (· + 1) (h.messages message.sessionId).latest_eq
        · simpa using h.messages sid
    | _ => exact h.messages sid

/-- What a task sees stays numbered while the others take steps: of a row that it has locked it
sees the same, of any other row what is committed. -/
theorem sequenced_rely (hrely : Rely t w w') (hguard' : w'.store.Guarded schema)
    (hview : Sequenced (w.view t)) (hcommitted : Sequenced w'.store.committed) :
    Sequenced (w'.view t) := by
  constructor
  · intro id
    by_cases howner : w'.store.owner (.check id) = some t
    · rw [(Prod.mk.inj (hrely.view_check ((hrely.owner _).mp howner))).2]
      exact hview.events id
    · have hsame : (w'.view t).eventsOf id = w'.store.committed.eventsOf id :=
        (Prod.mk.inj ((checkAspect id).view_eq_committed hguard' howner)).2
      rw [hsame]
      exact hcommitted.events id
  · intro sid
    by_cases howner : w'.store.owner (.session sid) = some t
    · rw [(Prod.mk.inj (hrely.view_session ((hrely.owner _).mp howner))).2]
      exact hview.messages sid
    · have hsame : (w'.view t).messagesOf sid = w'.store.committed.messagesOf sid :=
        (Prod.mk.inj ((sessionAspect sid).view_eq_committed hguard' howner)).2
      rw [hsame]
      exact hcommitted.messages sid

theorem InSequence.step (h : InSequence w) (hcoherent : Coherent w) (hcoherent' : Coherent w')
    (hpre : Allocated t op w) (houtcome : Outcome t w failed op w') : InSequence w' := by
  have hcommitted : Sequenced w'.store.committed := by
    rcases committed_of_effect houtcome.effect with heq | ⟨-, -, heq⟩
    · exact heq ▸ h.committed
    · exact heq ▸ h.view t
  refine ⟨hcommitted, fun t' => ?_⟩
  by_cases hne : t' = t
  · subst hne
    rcases view_of_effect houtcome.effect with heq | ⟨heq, -⟩ | ⟨wr, hwr, -, heq⟩
    · exact heq ▸ h.view t'
    · exact heq ▸ h.committed
    · exact heq ▸ (h.view t').apply hpre hwr
  · exact sequenced_rely (hcoherent.rely houtcome hne) hcoherent'.guarded (h.view t') hcommitted

end Steps

/-- The protocol of the writers: a row is inserted with the number after the greatest one. -/
def sequenceProtocol : Protocol exec fun t op choice w =>
    unrestricted t op choice w ∧ Discipline t op w :=
  (discipline unrestricted).extend InSequence (fun _ _ _ => True) Allocated
    (fun _ _ => trivial) (fun _ _ => trivial) fun hcoherent hsequence _ hpre _ hexec hcoherent' =>
      ⟨hsequence.step hcoherent hcoherent' hpre (exec_outcome hexec), fun _ _ _ => trivial⟩

section Numbers

variable {t : TaskId}

/-- The number that a writer has drawn for the next event of a check. -/
def NextEvent (t : TaskId) (id : CheckId) (n : Nat) (w : World) : Prop :=
  w.store.owner (.check id) = some t ∧ n = (w.view t).latestSequence id + 1

def NextMessage (t : TaskId) (sid : SessionId) (n : Nat) (w : World) : Prop :=
  w.store.owner (.session sid) = some t ∧ n = (w.view t).latestMessage sid + 1

/-- The number stays the next one, because the others wait for the lock. -/
theorem stable_nextEvent (id : CheckId) (n : Nat) :
    Stable (discipline unrestricted) t (NextEvent t id n) := by
  rintro w w' - ⟨howner, hn⟩ hrely -
  refine ⟨(hrely.owner _).mpr howner, hn.trans ?_⟩
  simp only [Db.latestSequence, (Prod.mk.inj (hrely.view_check howner)).2]

theorem stable_nextMessage (sid : SessionId) (n : Nat) :
    Stable (discipline unrestricted) t (NextMessage t sid n) := by
  rintro w w' - ⟨howner, hn⟩ hrely -
  refine ⟨(hrely.owner _).mpr howner, hn.trans ?_⟩
  simp only [Db.latestMessage, (Prod.mk.inj (hrely.view_session howner)).2]

theorem gives_lockCheck (id : CheckId) : Gives unrestricted t (lockCheck id) fun _ w =>
    w.store.owner (.check id) = some t := by
  refine Gives.bind (K := fun found w => found = true → w.store.owner (.check id) = some t)
    (triple_await trivial (Stable.const True) (fun found => ?_) ?_) fun found => ?_
  · exact fun w w' hinv h hrely hinv' hfound => stable_owner _ w w' hinv (h hfound) hrely hinv'
  · rintro w answer kept found w' - - - hsucceed rfl
    exact reply_lockCheck hsucceed
  · cases found with
    | true => exact Triple.done (stable_owner _) fun _ _ h => h rfl
    | false => exact Triple.raise (Stable.const True) fun _ _ _ => trivial

theorem gives_lockSession (sid : SessionId) : Gives unrestricted t (lockSession sid) fun _ w =>
    w.store.owner (.session sid) = some t := by
  refine Gives.bind (K := fun found w => found = true → w.store.owner (.session sid) = some t)
    (triple_await trivial (Stable.const True) (fun found => ?_) ?_) fun found => ?_
  · exact fun w w' hinv h hrely hinv' hfound => stable_owner _ w w' hinv (h hfound) hrely hinv'
  · rintro w answer kept found w' - - - hsucceed rfl
    exact reply_lockSession hsucceed
  · cases found with
    | true => exact Triple.done (stable_owner _) fun _ _ h => h rfl
    | false => exact Triple.raise (Stable.const True) fun _ _ _ => trivial

theorem gives_nextSequence (id : CheckId) :
    Gives unrestricted t (nextSequence id) (NextEvent t id) := by
  refine Gives.bind (gives_lockCheck id) fun _ => ?_
  refine Triple.bind (B := fun latest => NextEvent t id (latest + 1))
    (triple_await trivial (stable_owner _) (fun _ => stable_nextEvent id _) ?_) fun latest =>
      Triple.done (stable_nextEvent id _) fun _ _ h => h
  rintro w answer kept latest w' - howner - hsucceed
  obtain ⟨rfl, rfl⟩ := Prod.mk.inj (Option.some.inj hsucceed)
  exact ⟨howner, rfl⟩

theorem gives_nextMessageSequence (sid : SessionId) :
    Gives unrestricted t (nextMessageSequence sid) (NextMessage t sid) := by
  refine Gives.bind (gives_lockSession sid) fun _ => ?_
  refine Triple.bind (B := fun latest => NextMessage t sid (latest + 1))
    (triple_await trivial (stable_owner _) (fun _ => stable_nextMessage sid _) ?_) fun latest =>
      Triple.done (stable_nextMessage sid _) fun _ _ h => h
  rintro w answer kept latest w' - howner - hsucceed
  obtain ⟨rfl, rfl⟩ := Prod.mk.inj (Option.some.inj hsucceed)
  exact ⟨howner, rfl⟩

end Numbers

section Programs

variable {t : TaskId} (c : Collaborators)

/-- The program inserts every event and every message with the next number. -/
abbrev Keeps {α : Type} (t : TaskId) (p : Program α) : Prop :=
  Triple sequenceProtocol t (fun _ => True) p (fun _ _ => True) fun _ _ => True

/-- The operations that insert no event and no message. -/
def Unnumbered : Op → Prop
  | .insertEvent _ | .insertMessage _ => False
  | _ => True

theorem Unnumbered.allocated {op : Op} (hop : Unnumbered op) (w : World) : Allocated t op w := by
  cases op <;> first | exact hop.elim | trivial

theorem unnumbered_of_reads {op : Op} (h : Reads op) : Unnumbered op := by
  cases op <;> first | exact h.elim | trivial

theorem unnumbered_of_setsSession {op : Op} (h : SetsSession op) : Unnumbered op := by
  cases op <;> first | exact h.elim | trivial

/-- What a program gives by the discipline, it gives here as long as it inserts nothing. -/
theorem triple_unnumbered {α : Type} {p : Program α} {K : α → World → Prop}
    (hp : Uses Unnumbered p) (h : Gives unrestricted t p K) :
    Triple sequenceProtocol t (fun _ => True) p K fun _ _ => True :=
  Triple.extend (P := discipline unrestricted) (R := sequenceProtocol) (fun _ hinv => hinv.1)
    (fun _ _ hrely => hrely.1) (fun _ w hop => hop.allocated w) hp h

theorem Keeps.of_uses {α : Type} {p : Program α} (hp : Uses Unnumbered p) : Keeps t p :=
  Triple.of_uses (Stable.const True) (fun _ w hop _ _ => hop.allocated w)
    (fun _ _ _ _ _ _ _ _ _ _ => trivial) hp

theorem Keeps.bind {α β : Type} {p : Program α} {f : α → Program β} (hp : Keeps t p)
    (hf : ∀ a, Keeps t (f a)) : Keeps t (p >>= f) :=
  Triple.bind hp hf

theorem Keeps.pure {α : Type} (a : α) : Keeps t (Pure.pure a : Program α) :=
  Triple.done (Stable.const True) fun _ _ _ => trivial

theorem Keeps.raise {α : Type} (e : Exn) : Keeps t (throw e : Program α) :=
  Triple.raise (Stable.const True) fun _ _ _ => trivial

theorem Keeps.ensuring {α : Type} {p : Program α} {cleanup : Program Unit} (hp : Keeps t p)
    (hcleanup : Keeps t cleanup) : Keeps t (p.ensuring cleanup) :=
  Triple.ensuring (fun _ => Stable.const True) (fun _ => Stable.const True) hp
    (fun _ => hcleanup) fun _ => hcleanup

theorem keeps_appendEvent (id : CheckId) (type : EventType)
    (node checkpointId taskId message : Option String) :
    Keeps t (appendEvent id type node checkpointId taskId message) := by
  refine Triple.bind (triple_unnumbered ((straight_nextSequence id).uses.mono fun _ =>
    unnumbered_of_reads) (gives_nextSequence id)) fun n => ?_
  refine Triple.perform (fun w w' hinv h hrely hinv' => ?_) (fun _ => Stable.const True)
    (fun _ => Stable.const True) (fun w _ h => h.2) ?_
  · exact stable_nextEvent id n w w' hinv.1 h hrely.1 hinv'.1
  · rintro w choice (e | a) w' - - - - - <;> trivial

theorem uses_nextMessageSequence (sid : SessionId) :
    Uses Unnumbered (nextMessageSequence sid) := by
  refine Uses.bind (Uses.bind (Uses.perform trivial) fun found => ?_) fun _ => ?_
  · cases found <;> trivial
  · exact Uses.bind (Uses.perform trivial) fun _ => trivial

theorem keeps_appendMessage (sid : SessionId) (role content : String) (kwargs : Json) :
    Keeps t (appendMessage sid role content kwargs) := by
  refine Triple.bind (triple_unnumbered (uses_nextMessageSequence sid)
    (gives_nextMessageSequence sid)) fun n => ?_
  refine Triple.perform (fun w w' hinv h hrely hinv' => ?_) (fun _ => Stable.const True)
    (fun _ => Stable.const True) (fun w _ h => h.2) ?_
  · exact stable_nextMessage sid n w w' hinv.1 h hrely.1 hinv'.1
  · rintro w choice (e | a) w' - - - - - <;> trivial

theorem keeps_appendStepMessage (writer : Option SessionId) (step role content : String)
    (kwargs : Json) : Keeps t (appendStepMessage c writer step role content kwargs) := by
  cases writer with
  | none => exact Keeps.pure ()
  | some sid =>
      refine Keeps.bind (keeps_appendMessage _ _ _ _) fun _ => Keeps.of_uses ?_
      refine Uses.bind (Uses.perform trivial) fun _ => ?_
      split
      · exact Uses.perform trivial
      · trivial

theorem unnumbered_of_live {op : Op} (h : LiveOp op) : Unnumbered op := by
  cases op <;> first | exact h.elim | trivial

theorem keeps_runStep (sessionId writer : Option SessionId) (streams : Bool) (step : String)
    (payload : Json) : Keeps t (runStep c sessionId writer streams step payload) := by
  have hrest : ∀ finalText, Keeps t (do
      appendStepMessage c writer step "assistant" finalText
        (.obj [("kind", .str "final_message"), ("step", .str step)])
      pure finalText) :=
    fun _ => Keeps.bind (keeps_appendStepMessage c _ _ _ _ _) fun _ => Keeps.pure _
  cases streams with
  | true =>
      refine Keeps.bind (Keeps.of_uses (Uses.perform trivial)) fun chunks => Keeps.bind ?_ hrest
      exact Keeps.of_uses ((uses_publishChunks c _ _ _ _ _).mono fun _ => unnumbered_of_live)
  | false => exact Keeps.bind (Keeps.of_uses (Uses.perform trivial)) hrest

theorem keeps_loadSop (writer : Option SessionId) (state : Json) :
    Keeps t (loadSop c writer state) :=
  Keeps.bind (Keeps.of_uses (Uses.perform trivial)) fun _ =>
    Keeps.bind (keeps_appendStepMessage c _ _ _ _ _) fun _ => Keeps.pure _

theorem keeps_reviewSop (sessionId writer : Option SessionId) (state : Json) :
    Keeps t (reviewSop c sessionId writer state) :=
  Keeps.bind (Keeps.of_uses (Uses.perform trivial)) fun _ =>
    Keeps.bind (keeps_runStep c _ _ _ _ _) fun _ => Keeps.pure _

theorem keeps_summarizeResult (writer : Option SessionId) (state : Json) :
    Keeps t (summarizeResult c writer state) := by
  simp only [summarizeResult]
  split
  · exact Keeps.raise _
  · split
    · exact Keeps.bind (keeps_appendStepMessage c _ _ _ _ _) fun _ => Keeps.pure _
    · exact Keeps.pure _

theorem keeps_submitResult (writer : Option SessionId) (state : Json) :
    Keeps t (submitResult c writer state) := by
  simp only [submitResult]
  split
  · exact Keeps.raise _
  · exact Keeps.bind (keeps_appendStepMessage c _ _ _ _ _) fun _ => Keeps.pure _

theorem keeps_runNode {node : Json → Program Json} (hnode : ∀ state, Keeps t (node state))
    (state : Json) : Keeps t (runNode node state) :=
  Keeps.bind (hnode state) fun _ =>
    Keeps.bind (Keeps.of_uses (Uses.perform trivial)) fun _ => Keeps.pure _

theorem keeps_ainvoke (sessionId writer : Option SessionId) (initialState : Json) :
    Keeps t (ainvoke c sessionId writer initialState) :=
  Keeps.bind (Keeps.of_uses (Uses.perform trivial)) fun _ =>
    Keeps.bind (keeps_runNode (keeps_loadSop c writer) _) fun _ =>
      Keeps.bind (keeps_runNode (keeps_reviewSop c sessionId writer) _) fun _ =>
        Keeps.bind (keeps_runNode (keeps_summarizeResult c writer) _) fun _ =>
          keeps_runNode (keeps_submitResult c writer) _

theorem unnumbered_of_begins {op : Op} (h : Begins op) : Unnumbered op := by
  cases op <;> first | exact h.elim | trivial

theorem unnumbered_of_publishes {op : Op} (h : Publishes op) : Unnumbered op := by
  cases op <;> first | exact h.elim | trivial

theorem unnumbered_of_concludes {op : Op} (h : Concludes op) : Unnumbered op := by
  cases op <;> first | exact h.elim | trivial

theorem unnumbered_of_creates {op : Op} (h : Creates op) : Unnumbered op := by
  cases op <;> first | exact h.elim | trivial

/-- An outcome, the status of the session and the event that tells of it. -/
theorem keeps_ending (id : CheckId) (status : CheckStatus) (qualityResult : Option String)
    (result error : Option Json) (sessionId : Option SessionId) (sessionStatus : SessionStatus)
    (type : EventType) (message : Option String) (answer : Json) :
    Keeps t (do
      let _ ← markTerminal id status qualityResult result error
      setSessionStatus c sessionId sessionStatus
      let event ← appendEvent id type none none none message
      await .commit
      publishEvent c event
      pure answer : Program Json) := by
  refine Keeps.bind (Keeps.of_uses ((uses_markTerminal _ _ _ _ _).mono fun _ =>
    unnumbered_of_concludes)) fun _ => ?_
  refine Keeps.bind (Keeps.of_uses ((straight_setSessionStatus c _ _).uses.mono fun _ =>
    unnumbered_of_setsSession)) fun _ => ?_
  refine Keeps.bind (keeps_appendEvent _ _ _ _ _ _) fun event => ?_
  refine Keeps.bind (Keeps.of_uses (Uses.perform trivial)) fun _ => ?_
  refine Keeps.bind (Keeps.of_uses ?_) fun _ => Keeps.pure _
  exact (uses_publishEvent c event).mono fun _ => unnumbered_of_publishes

theorem keeps_markFailed (id : CheckId) (e : Exn) : Keeps t (markFailed c id e) :=
  Keeps.bind (Keeps.of_uses ((straight_getCheck id).uses.mono fun _ => unnumbered_of_reads))
    fun _ => keeps_ending c _ _ _ _ _ _ _ _ _ _

theorem keeps_recordCheckpoint (id : CheckId) : Keeps t (recordCheckpoint c id) := by
  have hlatest : Keeps t (latestCheckpointId c) := by
    unfold latestCheckpointId
    split
    · exact Keeps.bind (Keeps.of_uses (Uses.perform trivial)) fun _ => Keeps.pure _
    · exact Keeps.pure _
  refine Keeps.bind hlatest fun found => ?_
  cases found with
  | none => exact Keeps.pure ()
  | some checkpointId =>
      refine Keeps.bind (Keeps.of_uses (Uses.bind ((straight_requireCheck id).uses.mono fun _ =>
        unnumbered_of_reads) fun _ => Uses.perform trivial)) fun _ => ?_
      refine Keeps.bind (keeps_appendEvent _ _ _ _ _ _) fun event => ?_
      refine Keeps.bind (Keeps.of_uses (Uses.perform trivial)) fun _ => Keeps.of_uses ?_
      exact (uses_publishEvent c event).mono fun _ => unnumbered_of_publishes

theorem keeps_markRunning (id : CheckId) : Keeps t (markRunning id) :=
  Keeps.of_uses ((uses_markRunning id).mono fun _ => unnumbered_of_begins)

theorem keeps_tryRun (id : CheckId) : Keeps t (tryRun c id) := by
  refine Keeps.bind (keeps_markRunning id) fun found => ?_
  cases found with
  | none => exact Keeps.pure _
  | some check =>
      refine Keeps.bind (keeps_appendEvent _ _ _ _ _ _) fun event => ?_
      refine Keeps.bind (Keeps.of_uses (Uses.perform trivial)) fun _ => ?_
      refine Keeps.bind (Keeps.of_uses (Uses.perform trivial)) fun _ => ?_
      refine Keeps.bind (Keeps.of_uses ?_) fun _ => ?_
      · exact (uses_publishEvent c event).mono fun _ => unnumbered_of_publishes
      · refine Keeps.bind (keeps_ainvoke c _ _ _) fun _ => ?_
        exact Keeps.bind (keeps_recordCheckpoint c id) fun _ => keeps_ending c _ _ _ _ _ _ _ _ _ _

theorem keeps_run (id : CheckId) : Keeps t (runSopQualityCheckWithNewSession c id) := by
  refine Keeps.ensuring (Triple.tryCatch (B := fun _ _ => True) ?_ fun e => ?_)
    (Keeps.of_uses (Uses.perform trivial))
  · refine Keeps.bind (Keeps.of_uses (Uses.perform trivial)) fun _ => ?_
    refine Keeps.ensuring ?_ (Keeps.of_uses (Uses.perform trivial))
    exact Triple.tryCatch (keeps_tryRun _ id) fun e => keeps_markFailed _ id e
  · exact Keeps.bind (Keeps.of_uses (Uses.perform trivial)) fun _ => keeps_markFailed _ id e

theorem keeps_interruptEach (checks : List SopQualityCheck) : Keeps t (interruptEach checks) := by
  induction checks with
  | nil => exact Keeps.pure _
  | cons check checks ih =>
      refine Keeps.bind (Keeps.of_uses (Uses.perform trivial)) fun check => ?_
      refine Keeps.bind (keeps_appendEvent _ _ _ _ _ _) fun _ => ?_
      exact Keeps.bind ih fun _ => Keeps.pure _

theorem keeps_interruptActiveChecksOnStartup : Keeps t interruptActiveChecksOnStartup := by
  refine Keeps.bind (Keeps.of_uses (Uses.perform trivial)) fun checks => ?_
  refine Keeps.bind (keeps_interruptEach checks) fun _ => ?_
  exact Keeps.bind (Keeps.of_uses (Uses.perform trivial)) fun _ => Keeps.pure _

theorem keeps_startCheck (environments : List String) (sopId envKey : String)
    (createdBy : Option String) : Keeps t (startCheck environments sopId envKey createdBy) := by
  unfold startCheck
  split
  · refine Keeps.bind (Keeps.of_uses ((straight_getActiveCheck _ _).uses.mono fun _ =>
      unnumbered_of_reads)) fun active => ?_
    cases active with
    | some active => exact Keeps.pure _
    | none =>
        refine Keeps.bind (Keeps.of_uses (Uses.perform trivial)) fun session => ?_
        refine Keeps.bind (Keeps.of_uses (Uses.tryCatch (Uses.bind ((uses_createCheck _).mono
          fun _ => unnumbered_of_creates) fun _ => trivial) fun e => ?_)) fun created => ?_
        · cases e <;> trivial
        · cases created with
          | error active =>
              refine Keeps.bind (Keeps.of_uses ?_) fun _ => Keeps.pure _
              exact (straight_getCheck active).uses.mono fun _ => unnumbered_of_reads
          | ok check =>
              refine Keeps.bind (keeps_appendEvent _ _ _ _ _ _) fun _ => Keeps.of_uses ?_
              refine Uses.bind (Uses.perform trivial) fun _ => ?_
              exact Uses.bind (Uses.perform trivial) fun _ => trivial
  · exact Keeps.raise _

theorem keeps_task {p : Program Unit} (hp : Task c p) : Keeps t p := by
  have hclose : Keeps t (await .close) := Keeps.of_uses (Uses.perform trivial)
  cases hp with
  | run id =>
      refine Keeps.bind (Keeps.of_uses (Uses.perform trivial)) fun _ => ?_
      exact Keeps.bind (keeps_run c id) fun _ => Keeps.pure ()
  | startup =>
      refine Keeps.ensuring (Keeps.bind keeps_interruptActiveChecksOnStartup fun _ => ?_) hclose
      exact Keeps.of_uses (Uses.perform trivial)
  | start environments sopId envKey createdBy =>
      refine Keeps.bind (Keeps.ensuring (keeps_startCheck environments sopId envKey createdBy) hclose)
        fun _ => Keeps.pure ()

end Programs

/-- A call of a writer on the repositories of one database session. -/
inductive WriterCall where
  | appendEvent (id : CheckId) (type : EventType) (node checkpointId taskId message : Option String)
  | appendMessage (id : SessionId) (role content : String) (additionalKwargs : Json)
  | other (call : RepositoryCall)

def WriterCall.run : WriterCall → Program Unit
  | .appendEvent id type node checkpointId taskId message => do
      let _ ← SopRepository.appendEvent id type node checkpointId taskId message
  | .appendMessage id role content additionalKwargs => do
      let _ ← SopRepository.appendMessage id role content additionalKwargs
  | .other call => call.run

/-- Any calls in one database session, each with its exceptions caught; what was not committed by
then is rolled back in the end. -/
def writerCalls : List WriterCall → Program Unit
  | [] => pure ()
  | call :: rest => do
      Coroutine.Program.tryCatch call.run fun _ => pure ()
      writerCalls rest

def writer (script : List WriterCall) : Program Unit :=
  (writerCalls script).ensuring (await .close)

/-- The tasks of the backend, and writers that make any calls. -/
def Writer (c : Collaborators) (p : Program Unit) : Prop :=
  Task c p ∨ ∃ script, p = writer script

section Writers

variable {allowed : TaskId → Op → Choice → World → Prop} {t : TaskId}

theorem gives_writerCall (call : WriterCall) : Gives allowed t call.run fun _ _ => True := by
  cases call with
  | appendEvent id type node checkpointId taskId message =>
      refine Gives.of_uses (Uses.bind ?_ fun _ => trivial)
      exact (straight_appendEvent _ _ _ _ _ _).uses.mono fun _ h => h.harmless
  | appendMessage id role content additionalKwargs =>
      exact Gives.of_graph (Uses.bind (uses_appendMessage _ _ _ _) fun _ => trivial)
  | other call => exact gives_call call

theorem keeps_writerCall (call : WriterCall) : Keeps t call.run := by
  cases call with
  | appendEvent id type node checkpointId taskId message =>
      exact Keeps.bind (keeps_appendEvent _ _ _ _ _ _) fun _ => Keeps.pure ()
  | appendMessage id role content additionalKwargs =>
      exact Keeps.bind (keeps_appendMessage _ _ _ _) fun _ => Keeps.pure ()
  | other call =>
      cases call with
      | markRunning id => exact Keeps.bind (keeps_markRunning id) fun _ => Keeps.pure ()
      | markTerminal id status terminal qualityResult result error =>
          refine Keeps.bind (Keeps.of_uses ?_) fun _ => Keeps.pure ()
          exact (uses_markTerminal _ _ _ _ _).mono fun _ => unnumbered_of_concludes
      | interruptActiveChecksOnStartup =>
          exact Keeps.bind keeps_interruptActiveChecksOnStartup fun _ => Keeps.pure ()
      | commit => exact Keeps.of_uses (Uses.perform trivial)
      | rollback => exact Keeps.of_uses (Uses.perform trivial)

theorem disciplined_writer (c : Collaborators) : Disciplined (Writer c) := by
  rintro allowed t p (hp | ⟨script, rfl⟩)
  · exact gives_task hp
  have hdone : Gives allowed t (pure () : Program Unit) fun _ _ => True :=
    Triple.done (Stable.const True) fun _ _ _ => trivial
  have hclose : Gives allowed t (await .close) fun _ _ => True :=
    Gives.of_uses (Uses.perform trivial)
  refine Triple.ensuring (fun _ => Stable.const True) (fun _ => Stable.const True) ?_
    (fun _ => hclose) fun _ => hclose
  induction script with
  | nil => exact hdone
  | cons call rest ih =>
      exact Gives.bind (Triple.tryCatch (gives_writerCall call) fun _ => hdone) fun _ => ih

theorem keeps_writer {c : Collaborators} {p : Program Unit} (hp : Writer c p) : Keeps t p := by
  rcases hp with hp | ⟨script, rfl⟩
  · exact keeps_task c hp
  refine Keeps.ensuring ?_ (Keeps.of_uses (Uses.perform trivial))
  induction script with
  | nil => exact Keeps.pure ()
  | cons call rest ih =>
      exact Keeps.bind (Triple.tryCatch (keeps_writerCall call) fun _ => Keeps.pure ()) fun _ => ih

end Writers

section Runs

variable {c : Collaborators} {w : World}

/-- One step of the backend with its writers, on what is shared. -/
abbrev WriterStep (c : Collaborators) : Config → Config → Prop :=
  Step exec (Writer c) unrestricted

/-- The numbering as an invariant of runs. -/
abbrev Ordered (c : Config) : Prop :=
  Orderly unrestricted c ∧
    Invariant sequenceProtocol (fun _ _ => True) (fun _ _ _ => True) c

theorem ordered_idle (hidle : Idle w) (hw : WellFormed w)
    (hsequenced : Sequenced w.store.committed) : Ordered (.idle w) := by
  refine ⟨.idle hidle hw, .idle ⟨hw.coherent hidle, hsequenced, fun t => ?_⟩ fun _ => trivial⟩
  simpa [World.view, Store.view, hidle.pending t] using hsequenced

theorem Ordered.sequenced {c : Config} (h : Ordered c) : Sequenced c.shared.store.committed :=
  h.2.shared.2.committed

theorem safe_writer (t : TaskId) (p : Program Unit) (hp : Writer c p) (w : World)
    (hinv : sequenceProtocol.inv w) (_ : True) :
    Safe sequenceProtocol t (fun _ _ => True) p w :=
  Safe.mono (fun _ _ _ _ => trivial) (keeps_writer hp w hinv trivial)

theorem Ordered.steps {c₁ c₂ : Config} (h : Ordered c₁)
    (hsteps : Steps exec (Writer c) unrestricted c₁ c₂) :
    Ordered c₂ ∧ Grown c₁.shared.store.committed c₂.shared.store.committed := by
  have hdisciplined := (disciplined_writer c).steps h.1 hsteps
  refine ⟨⟨(disciplined_writer c).orderly h.1 hsteps,
    h.2.steps (fun _ => Stable.const True) safe_writer hdisciplined⟩, ?_⟩
  refine h.2.steps_relation (R := fun w w' => Grown w.store.committed w'.store.committed)
    (fun _ => Stable.const True) safe_writer (fun _ => .refl _) Grown.trans ?_ hdisciplined
  intro t op choice w r w' _ _ _ hexec
  rcases committed_of_effect (exec_outcome hexec).effect with heq | ⟨-, -, heq⟩
  · exact heq ▸ .refl _
  · exact heq ▸ grown_applyAll _ _

/-- A reader of one log misses nothing, at any time after its last page. -/
theorem seesAll_of_paging {α : Type} {seq : α → Nat} (log : Db → List α)
    (hnumbered : ∀ db, Sequenced db → Numbered seq (log db))
    (hgrown : ∀ db db', Grown db db' → log db <+: log db') {c₀ c₁ c₂ : Config} {reader : Reader α}
    (h : Ordered c₀)
    (hpaging : Paging seq (WriterStep c) (fun c => log c.shared.store.committed) c₀ c₁ reader)
    (hsteps : Steps exec (Writer c) unrestricted c₁ c₂) :
    SeesAll seq (log c₂.shared.store.committed) reader := by
  obtain ⟨hordered, hupTo⟩ := hpaging.upTo (I := Ordered) h
    (fun _ _ hs hstep => (hs.steps (.single hstep)).1)
    (fun _ hs => hnumbered _ hs.sequenced)
    (fun _ _ hs hstep => hgrown _ _ (hs.steps (.single hstep)).2)
  obtain ⟨hordered', hgrows⟩ := hordered.steps hsteps
  exact (hupTo.grow (hgrown _ _ hgrows)).seesAll (hnumbered _ hordered'.sequenced)

end Runs

/-- In every interleaving of writers, of which each call may fail and each transaction may be
rolled back: the committed events of a check and the committed messages of a session are numbered
from one on in the order in which they are committed, nothing is committed in front of another row,
and a reader that pages with the greatest sequence that it has seen gets every row once. -/
theorem sequences_without_gaps (c : Collaborators) {w : World} (hidle : Idle w) (hw : WellFormed w)
    (hsequenced : Sequenced w.store.committed) :
    (∀ c₁ c₂ : Config, Steps exec (Writer c) unrestricted (.idle w) c₁ →
      Steps exec (Writer c) unrestricted c₁ c₂ →
        Sequenced c₁.shared.store.committed ∧
          Grown c₁.shared.store.committed c₂.shared.store.committed) ∧
    (∀ (id : CheckId) (reader : Reader SopQualityEvent) (c₁ c₂ : Config),
      Paging (·.sequence) (WriterStep c) (fun c => c.shared.store.committed.eventsOf id)
        (.idle w) c₁ reader →
      Steps exec (Writer c) unrestricted c₁ c₂ →
        SeesAll (·.sequence) (c₂.shared.store.committed.eventsOf id) reader) ∧
    (∀ (sid : SessionId) (reader : Reader Message) (c₁ c₂ : Config),
      Paging (·.sequence) (WriterStep c) (fun c => c.shared.store.committed.messagesOf sid)
        (.idle w) c₁ reader →
      Steps exec (Writer c) unrestricted c₁ c₂ →
        SeesAll (·.sequence) (c₂.shared.store.committed.messagesOf sid) reader) := by
  have hordered := ordered_idle hidle hw hsequenced
  refine ⟨fun c₁ c₂ h₁ h₂ => ?_, fun id reader c₁ c₂ hpaging hsteps => ?_,
    fun sid reader c₁ c₂ hpaging hsteps => ?_⟩
  · obtain ⟨hordered₁, -⟩ := hordered.steps h₁
    exact ⟨hordered₁.sequenced, (hordered₁.steps h₂).2⟩
  · exact seesAll_of_paging (fun db => db.eventsOf id) (fun _ h => h.events id)
      (fun _ _ h => h.events id) hordered hpaging hsteps
  · exact seesAll_of_paging (fun db => db.messagesOf sid) (fun _ h => h.messages sid)
      (fun _ _ h => h.messages sid) hordered hpaging hsteps

/-- A writer that appends an event and then ends its transaction. -/
def appendThen (call : RepositoryCall) : Program Unit :=
  writer [.appendEvent 0 .checkpoint none none none none, .other call]

/-- One writer gives its number back, the other one draws it again. -/
def rollBackThenCommit : List (Move Reply Exn TaskId Choice) :=
  [.spawn 0 (appendThen .rollback), .spawn 1 (appendThen .commit)] ++
    List.replicate 4 (proceed 0) ++ List.replicate 4 (proceed 1)

theorem sequenced_oneCheck (status : CheckStatus) :
    Sequenced (oneCheck status).store.committed := by
  constructor
  · intro id
    by_cases hid : 0 = id
    · subst hid
      rfl
    · simp [oneCheck, Db.eventsOf, hid, Numbered]
  · intro sid
    rfl

theorem sequences_rollBackThenCommit : ∃ c' : Config,
    follow exec unrestricted (.idle (oneCheck .running)) rollBackThenCommit = some c' ∧
      (c'.shared.store.committed.eventsOf 0).map (·.sequence) = [1, 2] ∧
      Sequenced c'.shared.store.committed ∧
      SeesAll (·.sequence) (c'.shared.store.committed.eventsOf 0)
        (Reader.start.page (·.sequence) ((oneCheck .running).store.committed.eventsOf 0) 10) := by
  have hrun : ∃ c' : Config,
      follow exec unrestricted (.idle (oneCheck .running)) rollBackThenCommit = some c' ∧
        (c'.shared.store.committed.eventsOf 0).map (·.sequence) = [1, 2] := ⟨_, rfl, rfl⟩
  obtain ⟨c', hfollow, hevents⟩ := hrun
  have hspawn : ∀ p ∈ started rollBackThenCommit, Writer collaborators p := by
    simpa [rollBackThenCommit, started, proceed] using ⟨.inr ⟨_, rfl⟩, .inr ⟨_, rfl⟩⟩
  have hsteps : Steps exec (Writer collaborators) unrestricted (.idle (oneCheck .running)) c' :=
    follow_steps hspawn hfollow
  obtain ⟨hsequenced, hreader, -⟩ := sequences_without_gaps collaborators
    (idle_oneCheck .running) (wellFormed_oneCheck .running) (sequenced_oneCheck .running)
  exact ⟨c', hfollow, hevents, (hsequenced c' c' hsteps .refl).1,
    hreader 0 _ _ c' (.page 10 .start) hsteps⟩

end ChangeQuality.SopSequences
