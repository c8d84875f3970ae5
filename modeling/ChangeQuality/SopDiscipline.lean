import ChangeQuality.SopInvariant

/-!
Every task of the SOP quality backend keeps the discipline, so every run of the backend does. The
properties that follow may then take each step to be a disciplined one.
-/

namespace ChangeQuality.SopDiscipline

open ChangeQuality.Values
open ChangeQuality.SopTables
open ChangeQuality.SopRepository
open ChangeQuality.SopRunner
open ChangeQuality.SopSystem
open ChangeQuality.SopEffects
open ChangeQuality.SopInvariant
open ChangeQuality.Coroutine
open ChangeQuality.Interference

section Graph

/-- What the graph of a run awaits: the transcript of its session and external services. -/
def GraphOp : Op → Prop
  | .lockSession _ | .latestMessage _ | .insertMessage _ | .commit | .publishMessage _
  | .publishDelta _ _ | .saveCheckpoint | .graphState | .getSop _ _ | .createAgent
  | .agentStream _ | .agentStreamEnd | .agentInvoke _ => True
  | _ => False

/-- What the loop over a model's stream awaits. -/
def LiveOp : Op → Prop
  | .publishDelta _ _ | .agentStreamEnd => True
  | _ => False

theorem LiveOp.graph {op : Op} (h : LiveOp op) : GraphOp op := by
  cases op <;> first | exact h.elim | trivial

variable (c : Collaborators)

theorem uses_appendMessage (id : SessionId) (role content : String) (kwargs : Json) :
    Uses GraphOp (appendMessage id role content kwargs) := by
  refine Uses.bind ?_ fun _ => Uses.perform trivial
  refine Uses.bind (Uses.bind (Uses.perform trivial) fun found => ?_) fun _ => ?_
  · cases found <;> trivial
  · exact Uses.bind (Uses.perform trivial) fun _ => trivial

theorem uses_appendStepMessage (writer : Option SessionId) (step role content : String)
    (kwargs : Json) : Uses GraphOp (appendStepMessage c writer step role content kwargs) := by
  cases writer with
  | none => trivial
  | some id =>
      refine Uses.bind (uses_appendMessage _ _ _ _) fun _ => ?_
      refine Uses.bind (Uses.perform trivial) fun _ => ?_
      split
      · exact Uses.perform trivial
      · trivial

theorem uses_publishLive (sessionId : Option SessionId) (event : Json) :
    Uses LiveOp (publishLive c sessionId event) := by
  cases sessionId with
  | none => trivial
  | some id =>
      simp only [publishLive]
      split
      · exact Uses.perform trivial
      · trivial

theorem uses_publishChunks (sessionId : Option SessionId) (step : String) (chunks : List Chunk) :
    ∀ thinkingPublished text,
      Uses LiveOp (publishChunks c sessionId step thinkingPublished text chunks) := by
  induction chunks with
  | nil => exact fun _ _ => Uses.bind (Uses.perform trivial) fun _ => trivial
  | cons chunk chunks ih =>
      intro thinkingPublished text
      have hrest : ∀ thinking, Uses LiveOp
          (if chunk.content = "" then
            publishChunks c sessionId step thinking text chunks
          else do
            publishLive c sessionId (deltaEvent sessionId chunk.content
              (.obj [("step", .str step), ("channel", .str "content")]))
            publishChunks c sessionId step thinking (text ++ chunk.content) chunks) := by
        intro thinking
        split
        · exact ih _ _
        · exact Uses.bind (uses_publishLive c _ _) fun _ => ih _ _
      simp only [publishChunks]
      split
      · exact Uses.bind (uses_publishLive c _ _) fun _ => hrest _
      · exact hrest _

theorem uses_runStep (sessionId writer : Option SessionId) (streams : Bool) (step : String)
    (payload : Json) : Uses GraphOp (runStep c sessionId writer streams step payload) := by
  have hrest : ∀ finalText, Uses GraphOp (do
      appendStepMessage c writer step "assistant" finalText
        (.obj [("kind", .str "final_message"), ("step", .str step)])
      pure finalText) :=
    fun _ => Uses.bind (uses_appendStepMessage c _ _ _ _ _) fun _ => trivial
  cases streams with
  | true =>
      refine Uses.bind (Uses.perform trivial) fun _ => ?_
      exact Uses.bind ((uses_publishChunks c _ _ _ _ _).mono fun _ h => h.graph) hrest
  | false => exact Uses.bind (Uses.perform trivial) hrest

theorem uses_loadSop (writer : Option SessionId) (state : Json) :
    Uses GraphOp (loadSop c writer state) :=
  Uses.bind (Uses.perform trivial) fun _ =>
    Uses.bind (uses_appendStepMessage c _ _ _ _ _) fun _ => trivial

theorem uses_reviewSop (sessionId writer : Option SessionId) (state : Json) :
    Uses GraphOp (reviewSop c sessionId writer state) :=
  Uses.bind (Uses.perform trivial) fun _ =>
    Uses.bind (uses_runStep c _ _ _ _ _) fun _ => trivial

theorem uses_summarizeResult (writer : Option SessionId) (state : Json) :
    Uses GraphOp (summarizeResult c writer state) := by
  simp only [summarizeResult]
  split
  · trivial
  · split
    · exact Uses.bind (uses_appendStepMessage c _ _ _ _ _) fun _ => trivial
    · trivial

theorem uses_submitResult (writer : Option SessionId) (state : Json) :
    Uses GraphOp (submitResult c writer state) := by
  simp only [submitResult]
  split
  · trivial
  · exact Uses.bind (uses_appendStepMessage c _ _ _ _ _) fun _ => trivial

theorem uses_runNode {node : Json → Program Json} (hnode : ∀ state, Uses GraphOp (node state))
    (state : Json) : Uses GraphOp (runNode node state) :=
  Uses.bind (hnode state) fun _ => Uses.bind (Uses.perform trivial) fun _ => trivial

theorem uses_ainvoke (sessionId writer : Option SessionId) (initialState : Json) :
    Uses GraphOp (ainvoke c sessionId writer initialState) :=
  Uses.bind (Uses.perform trivial) fun _ =>
    Uses.bind (uses_runNode (uses_loadSop c writer) _) fun _ =>
      Uses.bind (uses_runNode (uses_reviewSop c sessionId writer) _) fun _ =>
        Uses.bind (uses_runNode (uses_summarizeResult c writer) _) fun _ =>
          uses_runNode (uses_submitResult c writer) _

theorem uses_latestCheckpointId : Uses GraphOp (latestCheckpointId c) := by
  unfold latestCheckpointId
  split
  · exact Uses.bind (Uses.perform trivial) fun _ => trivial
  · trivial

end Graph

section Checks

/-- The statements that read checks and lock them. -/
def Reads : Op → Prop
  | .getCheck _ | .latestSequence _ | .lockCheck _ | .refreshCheck _ | .activeCheck _ _ => True
  | _ => False

/-- What `_publish_event` awaits. -/
def Publishes : Op → Prop
  | .publishEvent _ => True
  | _ => False

/-- What `append_event` awaits. -/
def Appends (type : EventType) : Op → Prop
  | .insertEvent event => event.type = type
  | op => Reads op

/-- What `create_check` awaits. -/
def Creates : Op → Prop
  | .insertCheck _ | .rollback => True
  | op => Reads op

/-- What `start_check` awaits. -/
def Starts : Op → Prop
  | .insertSession _ | .insertCheck _ | .commit | .rollback | .schedule _ => True
  | op => Appends .created op

theorem Reads.appends {type : EventType} {op : Op} (h : Reads op) : Appends type op := by
  cases op <;> first | exact h | exact h.elim

theorem Appends.starts {op : Op} (h : Appends .created op) : Starts op := by
  cases op <;> first | exact h | trivial

theorem Creates.starts {op : Op} (h : Creates op) : Starts op := by
  cases op <;> first | exact h | trivial

theorem straight_lockCheck (id : CheckId) : Straight Reads (lockCheck id) := by
  refine Straight.bind (Straight.perform trivial) fun found => ?_
  cases found <;> trivial

theorem straight_getCheck (id : CheckId) : Straight Reads (getCheck id) := by
  refine Straight.bind (Straight.perform trivial) fun found => ?_
  cases found with
  | some check => exact Straight.bind (Straight.perform trivial) fun _ => trivial
  | none => trivial

theorem straight_getActiveCheck (sopId envKey : String) :
    Straight Reads (getActiveCheck sopId envKey) := by
  refine Straight.bind (Straight.perform trivial) fun found => ?_
  cases found with
  | some check => exact Straight.bind (Straight.perform trivial) fun _ => trivial
  | none => trivial

theorem straight_requireCheck (id : CheckId) : Straight Reads (requireCheck id) := by
  refine Straight.bind (straight_getCheck id) fun found => ?_
  cases found <;> trivial

theorem straight_nextSequence (id : CheckId) : Straight Reads (nextSequence id) :=
  Straight.bind (straight_lockCheck id) fun _ =>
    Straight.bind (Straight.perform trivial) fun _ => trivial

theorem straight_appendEvent (id : CheckId) (type : EventType)
    (node checkpointId taskId message : Option String) :
    Straight (Appends type) (appendEvent id type node checkpointId taskId message) :=
  Straight.bind ((straight_nextSequence id).mono fun _ h => h.appends) fun _ => Straight.perform rfl

theorem uses_publishEvent (c : Collaborators) (event : SopQualityEvent) :
    Uses Publishes (publishEvent c event) := by
  unfold publishEvent
  split
  · exact Uses.perform trivial
  · trivial

theorem uses_createCheck (values : NewCheck) : Uses Creates (createCheck values) := by
  have hreads : ∀ op, Reads op → Creates op := fun op h => by
    cases op <;> first | exact h | exact h.elim
  have hactive : Uses Creates (getActiveCheck values.sopId values.envKey) :=
    (straight_getActiveCheck _ _).uses.mono hreads
  refine Uses.bind hactive fun active => ?_
  cases active with
  | some active => trivial
  | none =>
      refine Uses.tryCatch (Uses.perform trivial) fun e => ?_
      cases e with
      | integrityError message =>
          refine Uses.bind (Uses.perform trivial) fun _ => ?_
          refine Uses.bind hactive fun active => ?_
          cases active <;> trivial
      | _ => trivial

theorem uses_startCheck (environments : List String) (sopId envKey : String)
    (createdBy : Option String) :
    Uses Starts (startCheck environments sopId envKey createdBy) := by
  unfold startCheck
  split
  · refine Uses.bind ((straight_getActiveCheck _ _).uses.mono fun _ h => h.appends.starts) fun active => ?_
    cases active with
    | some active => trivial
    | none =>
        refine Uses.bind (Uses.perform trivial) fun session => ?_
        refine Uses.bind (Uses.tryCatch (Uses.bind ((uses_createCheck _).mono fun _ h => h.starts)
          fun _ => trivial) fun e => ?_) fun created => ?_
        · cases e <;> trivial
        · cases created with
          | error active =>
              exact Uses.bind ((straight_getCheck _).uses.mono fun _ h => h.appends.starts)
                fun _ => trivial
          | ok check =>
              refine Uses.bind ((straight_appendEvent _ _ _ _ _ _).uses.mono fun _ h => h.starts)
                fun _ => ?_
              refine Uses.bind (Uses.perform trivial) fun _ => ?_
              exact Uses.bind (Uses.perform trivial) fun _ => trivial
  · trivial

end Checks

section Discipline

variable {allowed : TaskId → Op → Choice → World → Prop} {t : TaskId}

/-- The program keeps the discipline and gives a value with `K`, in whatever state it starts. -/
abbrev Gives {α : Type} (allowed : TaskId → Op → Choice → World → Prop) (t : TaskId)
    (p : Program α) (K : α → World → Prop) : Prop :=
  Triple (discipline allowed) t (fun _ => True) p K fun _ _ => True

/-- The operations that the discipline asks nothing of. -/
def Harmless : Op → Prop
  | .updateCheck _ _ | .updateSession _ _ => False
  | _ => True

theorem Harmless.discipline {op : Op} (hop : Harmless op) (t : TaskId) (w : World) :
    Discipline t op w := by
  cases op <;> trivial

theorem Reads.harmless {op : Op} (h : Reads op) : Harmless op := by
  cases op <;> first | exact h.elim | trivial

theorem Publishes.harmless {op : Op} (h : Publishes op) : Harmless op := by
  cases op <;> first | exact h.elim | trivial

theorem Appends.harmless {type : EventType} {op : Op} (h : Appends type op) : Harmless op := by
  cases op <;> first | exact h.elim | trivial

theorem Starts.harmless {op : Op} (h : Starts op) : Harmless op := by
  cases op <;> first | exact h.elim | trivial

theorem Gives.of_uses {α : Type} {p : Program α} (hp : Uses Harmless p) :
    Gives allowed t p fun _ _ => True :=
  Triple.of_uses (Stable.const True) (fun _ _ hop _ _ => hop.discipline t _)
    (fun _ _ _ _ _ _ _ _ _ _ => trivial) hp

theorem Gives.of_graph {α : Type} {p : Program α} (hp : Uses GraphOp p) :
    Gives allowed t p fun _ _ => True := by
  refine Triple.of_uses (S := GraphOp) (Stable.const True) (fun op w hop _ _ => ?_)
    (fun _ _ _ _ _ _ _ _ _ _ => trivial) hp
  cases op <;> trivial

theorem Gives.bind {α β : Type} {p : Program α} {f : α → Program β} {K : α → World → Prop}
    {L : β → World → Prop} (hp : Gives allowed t p K)
    (hf : ∀ a, Triple (discipline allowed) t (K a) (f a) L fun _ _ => True) :
    Gives allowed t (p >>= f) L :=
  Triple.bind hp hf

/-- A value with more than is asked for. -/
theorem Gives.forget {α : Type} {p : Program α} {K : α → World → Prop} (h : Gives allowed t p K) :
    Gives allowed t p fun _ _ => True :=
  h.weaken (fun _ _ h => h) (fun _ _ _ _ => trivial) fun _ _ _ h => h

theorem Gives.from {α : Type} {A : World → Prop} {p : Program α} {K : α → World → Prop}
    (h : Gives allowed t p K) : Triple (discipline allowed) t A p K fun _ _ => True :=
  h.weaken (fun _ _ _ => trivial) (fun _ _ _ h => h) fun _ _ _ h => h

theorem stable_known (check : SopQualityCheck) :
    Stable (discipline allowed) t fun w => Known (w.view t) check :=
  fun _ _ hinv h hrely _ => Known.extends h (Rely.extends_view hrely hinv.guarded)

theorem stable_present (k : Key) :
    Stable (discipline allowed) t fun w => Present (w.view t) k :=
  fun _ _ hinv h hrely _ => Present.extends h (Rely.extends_view hrely hinv.guarded)

theorem stable_owner (k : Key) :
    Stable (discipline allowed) t fun w => w.store.owner k = some t :=
  fun _ _ _ h hrely _ => (hrely.owner k).mpr h

/-- A row that is locked stays as the task sees it. -/
theorem stable_row (id : CheckId) (row : SopQualityCheck) :
    Stable (discipline allowed) t fun w =>
      w.store.owner (.check id) = some t ∧ (w.view t).check id = some row := by
  rintro w w' - ⟨howner, hrow⟩ hrely -
  exact ⟨(hrely.owner _).mpr howner, (Prod.mk.inj (hrely.view_check howner)).1.trans hrow⟩

/-- The rule of one harmless operation. -/
theorem triple_await {op : Op} {A : World → Prop} {K : Reply op → World → Prop}
    (hop : Harmless op) (hA : Stable (discipline allowed) t A)
    (hK : ∀ a, Stable (discipline allowed) t (K a))
    (hreply : ∀ w answer kept a w', Coherent w → A w → Coherent w' →
      succeed t answer kept w op = some (a, w') → K a w') :
    Triple (discipline allowed) t A (await op) K fun _ _ => True := by
  refine Triple.perform hA hK (fun _ => Stable.const True)
    (fun w _ _ => hop.discipline t w) ?_
  intro w choice r w' hinv h hinv' _ hexec
  cases choice with
  | fail e poisons =>
      obtain ⟨-, rfl, -⟩ := exec_fail hexec
      trivial
  | succeed answer kept =>
      obtain ⟨reply, rfl, hsucceed⟩ := exec_succeed hexec
      exact hreply w answer kept reply w' hinv h hinv' hsucceed

/-- Whatever holds of the state before holds after a query that loads nothing. -/
theorem triple_latestSequence (id : CheckId) {A : World → Prop}
    (hA : Stable (discipline allowed) t A) :
    Triple (discipline allowed) t A (await (.latestSequence id)) (fun _ => A) fun _ _ => True := by
  refine triple_await trivial hA (fun _ => hA) ?_
  intro w answer kept a w' _ h _ hsucceed
  obtain ⟨-, rfl⟩ := Prod.mk.inj (Option.some.inj hsucceed)
  exact h

/-- What holds of the answer of a query, if it has found anything. -/
def IfFound {α : Type} (K : α → World → Prop) : Option α → World → Prop
  | some a => K a
  | none => fun _ => True

theorem gives_requireCheck (id : CheckId) :
    Gives allowed t (requireCheck id) fun found w => Known (w.view t) found.1 := by
  have hget : Gives allowed t (await (.getCheck id))
      (IfFound fun check w => Known (w.view t) check) := by
    refine triple_await trivial (Stable.const True) (fun found => ?_) ?_
    · cases found with
      | some check => exact stable_known check
      | none => exact Stable.const True
    · intro w answer kept found w' _ _ hinv' hsucceed
      cases found with
      | some check => exact hinv'.checks t check (reply_getCheck hsucceed).1
      | none => trivial
  refine Gives.bind (K := IfFound fun found w => Known (w.view t) found.1)
    (Gives.bind hget fun found => ?_) fun found => ?_
  · cases found with
    | some check =>
        refine Triple.bind (triple_latestSequence id (stable_known check)) fun latest => ?_
        exact Triple.done (stable_known check) fun _ _ h => h
    | none => exact Triple.done (Stable.const True) fun _ _ h => h
  · cases found with
    | some found => exact Triple.done (stable_known found.1) fun _ _ h => h
    | none => exact Triple.raise (Stable.const True) fun _ _ _ => trivial

/-- A change of a known check that does not set it to pending or running. -/
theorem triple_updateCheck {check : SopQualityCheck} {patch : CheckPatch}
    (hpending : patch.status ≠ some .pending) (hrunning : patch.status ≠ some .running) :
    Triple (discipline allowed) t (fun w => Known (w.view t) check)
      (await (.updateCheck check patch)) (fun _ _ => True) fun _ _ => True := by
  refine Triple.perform (stable_known check) (fun _ => Stable.const True)
    (fun _ => Stable.const True) (fun w _ h => ⟨h, hpending, fun h => absurd h hrunning⟩) ?_
  rintro w choice (e | a) w' - - - - - <;> trivial

/-- `mark_running` reads the status again under the row lock. -/
theorem gives_markRunning (id : CheckId) :
    Gives allowed t (markRunning id) fun _ _ => True := by
  have hlock : Gives allowed t (lockCheck id) fun _ w =>
      w.store.owner (.check id) = some t := by
    refine Gives.bind (K := fun found w => found = true → w.store.owner (.check id) = some t)
      (triple_await trivial (Stable.const True) (fun found => ?_) ?_) fun found => ?_
    · exact fun w w' hinv h hrely hinv' hfound =>
        stable_owner _ w w' hinv (h hfound) hrely hinv'
    · rintro w answer kept found w' - - - hsucceed rfl
      exact reply_lockCheck hsucceed
    · cases found with
      | true => exact Triple.done (stable_owner _) fun _ _ h => h rfl
      | false => exact Triple.raise (Stable.const True) fun _ _ _ => trivial
  refine Gives.bind (gives_requireCheck id).forget fun _ => Gives.bind hlock fun _ => ?_
  refine Triple.bind (B := fun check w =>
      w.store.owner (.check id) = some t ∧ (w.view t).check id = some check)
    (triple_await trivial (stable_owner _) (stable_row id) ?_) fun check => ?_
  · rintro w answer kept check w' - howner - hsucceed
    obtain ⟨hrow, rfl⟩ := reply_refreshCheck hsucceed
    exact ⟨howner, hrow⟩
  · split
    · exact Triple.done (Stable.const True) fun _ _ _ => trivial
    · rename_i hstatus
      have hstatus : check.status = .pending := by simpa using hstatus
      refine Triple.bind (B := fun _ _ => True) ?_ fun _ =>
        Triple.done (Stable.const True) fun _ _ _ => trivial
      refine Triple.perform (stable_row id check) (fun _ => Stable.const True)
        (fun _ => Stable.const True) ?_ (by rintro w choice (e | a) w' - - - - - <;> trivial)
      rintro w - ⟨howner, hrow⟩
      have hid := Db.check_id hrow
      exact ⟨check_known hrow, by simp, fun _ => ⟨hid ▸ howner, check, hid ▸ hrow, hstatus⟩⟩

theorem gives_markTerminal (id : CheckId) {status : CheckStatus} (hstatus : status.active = false)
    (qualityResult : Option String) (result error : Option Json) :
    Gives allowed t (markTerminal id status qualityResult result error) fun _ _ => True := by
  refine Gives.bind (gives_requireCheck id).forget fun _ => ?_
  refine Triple.bind (B := fun check w => Known (w.view t) check)
    (triple_await trivial (Stable.const True) stable_known ?_) fun check => ?_
  · intro w answer kept check w' _ _ hinv' hsucceed
    obtain ⟨-, rfl⟩ := reply_refreshCheck hsucceed
    exact hinv'.checks t check (loadCheck_mem check)
  · split
    · refine triple_updateCheck ?_ ?_ <;> rintro ⟨⟩ <;> simp [CheckStatus.active] at hstatus
    · refine Gives.from (Gives.of_uses ?_)
      exact Uses.bind (Uses.perform trivial) fun _ => trivial

theorem gives_setCurrentCheckpoint (id : CheckId) (checkpointId : String) :
    Gives allowed t (setCurrentCheckpoint id checkpointId) fun _ _ => True :=
  Gives.bind (gives_requireCheck id) fun _ =>
    triple_updateCheck (by simp) (by simp)

theorem gives_setStatus (id : SessionId) (status : SessionStatus) :
    Gives allowed t (setStatus id status) fun _ _ => True := by
  have hget : Gives allowed t (await (.getSession id))
      (IfFound fun session w => Present (w.view t) (.session session.id)) := by
    refine triple_await trivial (Stable.const True) (fun found => ?_) ?_
    · cases found with
      | some session => exact stable_present (.session session.id)
      | none => exact Stable.const True
    · intro w answer kept found w' _ _ hinv' hsucceed
      cases found with
      | some session => exact hinv'.sessions t session (reply_getSession hsucceed).1
      | none => trivial
  refine Gives.bind hget fun found => ?_
  cases found with
  | none => exact Triple.raise (Stable.const True) fun _ _ _ => trivial
  | some session =>
      refine Triple.bind (B := fun _ _ => True) ?_ fun _ => ?_
      · refine Triple.perform (stable_present (.session session.id)) (fun _ => Stable.const True)
          (fun _ => Stable.const True) (fun w _ h => h) ?_
        rintro w choice (e | a) w' - - - - - <;> trivial
      · refine Gives.of_uses ?_
        exact Uses.bind (Uses.perform trivial) fun _ => trivial

theorem gives_setSessionStatus (c : Collaborators) (sessionId : Option SessionId)
    (status : SessionStatus) :
    Gives allowed t (setSessionStatus c sessionId status) fun _ _ => True := by
  unfold setSessionStatus
  split
  · exact Gives.bind (gives_setStatus _ _) fun _ =>
      Triple.done (Stable.const True) fun _ _ _ => trivial
  · exact Triple.done (Stable.const True) fun _ _ _ => trivial

/-- All of some copies are known to the task. -/
def AllKnown (t : TaskId) (checks : List SopQualityCheck) (w : World) : Prop :=
  ∀ check ∈ checks, Known (w.view t) check

theorem stable_allKnown (checks : List SopQualityCheck) :
    Stable (discipline allowed) t (AllKnown t checks) :=
  fun w w' hinv h hrely hinv' check hcheck =>
    stable_known check w w' hinv (h check hcheck) hrely hinv'

/-- Copies stay known over an operation of the task itself that is no rollback. -/
theorem triple_keepsKnown {checks : List SopQualityCheck} {op : Op} (hop : Harmless op)
    (hrollback : op ≠ .rollback) (hclose : op ≠ .close) :
    Triple (discipline allowed) t (AllKnown t checks) (await op) (fun _ => AllKnown t checks)
      fun _ _ => True :=
  triple_await hop (stable_allKnown _) (fun _ => stable_allKnown _)
    fun _ _ _ _ _ _ h _ hsucceed check hcheck =>
      Known.extends (h check hcheck) (succeed_grows hrollback hclose hsucceed)

theorem triple_appendEvent_known {checks : List SopQualityCheck} (id : CheckId) (type : EventType)
    (node checkpointId taskId message : Option String) :
    Triple (discipline allowed) t (AllKnown t checks)
      (appendEvent id type node checkpointId taskId message) (fun _ => AllKnown t checks)
      fun _ _ => True := by
  refine Triple.bind (B := fun _ => AllKnown t checks) ?_ fun sequence =>
    triple_keepsKnown trivial (by simp) (by simp)
  refine Triple.bind (B := fun _ => AllKnown t checks) ?_ fun _ => ?_
  · refine Triple.bind (triple_keepsKnown trivial (by simp) (by simp)) fun found => ?_
    cases found with
    | true => exact Triple.done (stable_allKnown _) fun _ _ h => h
    | false => exact Triple.raise (Stable.const True) fun _ _ _ => trivial
  · refine Triple.bind (triple_keepsKnown trivial (by simp) (by simp)) fun latest => ?_
    exact Triple.done (stable_allKnown _) fun _ _ h => h

/-- The copies that the startup query gave stay known while one after the other is interrupted. -/
theorem triple_interruptEach (checks : List SopQualityCheck) :
    Triple (discipline allowed) t (AllKnown t checks) (interruptEach checks) (fun _ _ => True)
      fun _ _ => True := by
  induction checks with
  | nil => exact Triple.done (Stable.const True) fun _ _ _ => trivial
  | cons check checks ih =>
      refine Triple.bind (B := fun _ => AllKnown t checks) ?_ fun _ => ?_
      · refine Triple.perform (stable_allKnown _) (fun _ => stable_allKnown _)
          (fun _ => Stable.const True) ?_ ?_
        · exact fun w _ h => ⟨h check List.mem_cons_self, by simp, by simp⟩
        · intro w choice r w' _ h _ _ hexec
          cases choice with
          | fail e poisons =>
              obtain ⟨-, rfl, -⟩ := exec_fail hexec
              trivial
          | succeed answer kept =>
              obtain ⟨reply, rfl, hsucceed⟩ := exec_succeed hexec
              exact fun other hother => Known.extends (h other (List.mem_cons_of_mem _ hother))
                (succeed_grows (by simp) (by simp) hsucceed)
      · refine Triple.bind (triple_appendEvent_known _ _ _ _ _ _) fun _ => ?_
        exact Triple.bind ih fun _ => Triple.done (Stable.const True) fun _ _ _ => trivial

theorem gives_interruptActiveChecksOnStartup :
    Gives allowed t interruptActiveChecksOnStartup fun _ _ => True := by
  refine Gives.bind (K := fun checks => AllKnown t checks)
    (triple_await trivial (Stable.const True) stable_allKnown ?_) fun checks => ?_
  · intro w answer kept checks w' hinv _ _ hsucceed check hcheck
    refine Known.extends ?_ (succeed_grows (by simp) (by simp) hsucceed)
    rcases (reply_selectActive hsucceed).1 check hcheck with hheld | hknown
    · exact hinv.checks t check hheld
    · exact hknown
  · refine Triple.bind (triple_interruptEach checks) fun _ => ?_
    refine Gives.of_uses ?_
    exact Uses.bind (Uses.perform trivial) fun _ => trivial

theorem gives_markFailed (c : Collaborators) (id : CheckId) (e : Exn) :
    Gives allowed t (markFailed c id e) fun _ _ => True := by
  refine Gives.bind (Gives.of_uses ((straight_getCheck id).uses.mono fun _ h => h.harmless)) fun _ => ?_
  refine Gives.bind (gives_markTerminal id rfl _ _ _) fun _ => ?_
  refine Gives.bind (gives_setSessionStatus c _ _) fun _ => ?_
  refine Gives.of_uses ?_
  refine Uses.bind ((straight_appendEvent _ _ _ _ _ _).uses.mono fun _ h => h.harmless) fun _ => ?_
  refine Uses.bind (Uses.perform trivial) fun _ => ?_
  exact Uses.bind ((uses_publishEvent c _).mono fun _ h => h.harmless) fun _ => trivial

theorem gives_recordCheckpoint (c : Collaborators) (id : CheckId) :
    Gives allowed t (recordCheckpoint c id) fun _ _ => True := by
  refine Gives.bind (Gives.of_graph (uses_latestCheckpointId c)) fun found => ?_
  cases found with
  | none => exact Triple.done (Stable.const True) fun _ _ _ => trivial
  | some checkpointId =>
      refine Gives.bind (gives_setCurrentCheckpoint id checkpointId) fun _ => ?_
      refine Gives.of_uses ?_
      refine Uses.bind ((straight_appendEvent _ _ _ _ _ _).uses.mono fun _ h => h.harmless) fun _ => ?_
      refine Uses.bind (Uses.perform trivial) fun _ => ?_
      exact (uses_publishEvent c _).mono fun _ h => h.harmless

theorem gives_markSucceeded (c : Collaborators) (id : CheckId) (sessionId : Option SessionId)
    (finalState : Json) :
    Gives allowed t (markSucceeded c id sessionId finalState) fun _ _ => True := by
  refine Gives.bind (gives_markTerminal id rfl _ _ _) fun _ => ?_
  refine Gives.bind (gives_setSessionStatus c _ _) fun _ => ?_
  refine Gives.of_uses ?_
  refine Uses.bind ((straight_appendEvent _ _ _ _ _ _).uses.mono fun _ h => h.harmless) fun _ => ?_
  refine Uses.bind (Uses.perform trivial) fun _ => ?_
  exact Uses.bind ((uses_publishEvent c _).mono fun _ h => h.harmless) fun _ => trivial

theorem gives_tryRun (c : Collaborators) (id : CheckId) :
    Gives allowed t (tryRun c id) fun _ _ => True := by
  refine Gives.bind (gives_markRunning id) fun started => ?_
  cases started with
  | none => exact Triple.done (Stable.const True) fun _ _ _ => trivial
  | some check =>
      refine Gives.bind
        (Gives.of_uses ((straight_appendEvent _ _ _ _ _ _).uses.mono fun _ h => h.harmless))
        fun _ => ?_
      refine Gives.bind (Gives.of_uses (Uses.perform trivial)) fun _ => ?_
      refine Gives.bind (Gives.of_uses (Uses.perform trivial)) fun _ => ?_
      refine Gives.bind (Gives.of_uses ((uses_publishEvent c _).mono fun _ h => h.harmless)) fun _ => ?_
      refine Gives.bind (Gives.of_graph (uses_ainvoke c _ _ _)) fun _ => ?_
      exact Gives.bind (gives_recordCheckpoint c id) fun _ => gives_markSucceeded c id _ _

theorem gives_run (c : Collaborators) (id : CheckId) :
    Gives allowed t (runSopQualityCheckWithNewSession c id) fun _ _ => True := by
  have hclose : Gives allowed t (await .close) fun _ _ => True :=
    Gives.of_uses (Uses.perform trivial)
  have hexit : Gives allowed t (await .closeCheckpointer) fun _ _ => True :=
    Gives.of_uses (Uses.perform trivial)
  refine Triple.ensuring (fun _ => Stable.const True) (fun _ => Stable.const True)
    (Triple.tryCatch (B := fun _ _ => True) ?_ fun e => ?_) (fun _ => hclose) fun _ => hclose
  · refine Gives.bind (Gives.of_uses (Uses.perform trivial)) fun _ => ?_
    refine Triple.ensuring (fun _ => Stable.const True) (fun _ => Stable.const True)
      ?_ (fun _ => hexit) fun _ => hexit
    exact Triple.tryCatch (gives_tryRun _ id) fun e => gives_markFailed _ id e
  · exact Gives.bind (Gives.of_uses (Uses.perform trivial)) fun _ => gives_markFailed _ id e

theorem gives_startup : Gives allowed t interruptLeftoverSopQualityChecks fun _ _ => True := by
  have hclose : Gives allowed t (await .close) fun _ _ => True :=
    Gives.of_uses (Uses.perform trivial)
  refine Triple.ensuring (fun _ => Stable.const True) (fun _ => Stable.const True) ?_
    (fun _ => hclose) fun _ => hclose
  exact Gives.bind gives_interruptActiveChecksOnStartup fun _ =>
    Gives.of_uses (Uses.perform trivial)

theorem gives_task {c : Collaborators} {p : Program Unit} (hp : Task c p) :
    Gives allowed t p fun _ _ => True := by
  cases hp with
  | run id =>
      refine Gives.bind (Gives.of_uses (Uses.perform trivial)) fun _ => ?_
      exact Gives.bind (gives_run c id) fun _ => Triple.done (Stable.const True) fun _ _ _ => trivial
  | startup => exact gives_startup
  | start environments sopId envKey createdBy =>
      refine Gives.of_uses (Uses.bind ?_ fun _ => trivial)
      exact Uses.ensuring ((uses_startCheck _ _ _ _).mono fun _ h => h.harmless) (Uses.perform trivial)

end Discipline

/-- Programs that keep the discipline. -/
def Disciplined (spawnable : Program Unit → Prop) : Prop :=
  ∀ allowed t p, spawnable p → Gives allowed t p fun _ _ => True

theorem disciplined_task (c : Collaborators) : Disciplined (Task c) :=
  fun _ _ _ hp => gives_task hp

/-- The discipline as an invariant of runs; it says nothing about how a task ends. -/
abbrev Orderly (allowed : TaskId → Op → Choice → World → Prop) (c : Config) : Prop :=
  Invariant (discipline allowed) (fun _ _ => True) (fun _ _ _ => True) c

theorem Orderly.idle {allowed : TaskId → Op → Choice → World → Prop} {w : World} (hidle : Idle w)
    (hw : WellFormed w) : Orderly allowed (.idle w) :=
  Invariant.idle (hw.coherent hidle) fun _ => trivial

section Runs

variable {spawnable : Program Unit → Prop} {allowed : TaskId → Op → Choice → World → Prop}
  {c c' : Config}

theorem Disciplined.safe (h : Disciplined spawnable) (t : TaskId) (p : Program Unit)
    (hp : spawnable p) (w : World) (hinv : (discipline allowed).inv w) (_ : True) :
    Safe (discipline allowed) t (fun _ _ => True) p w :=
  Safe.mono (fun _ _ _ _ => trivial) (h allowed t p hp w hinv trivial)

theorem Disciplined.orderly (h : Disciplined spawnable) (hc : Orderly allowed c)
    (hrun : Steps exec spawnable allowed c c') : Orderly allowed c' :=
  hc.steps (fun _ => Stable.const True) h.safe hrun

/-- Every step of a run of disciplined programs is a disciplined one. -/
theorem Disciplined.steps (h : Disciplined spawnable) (hc : Orderly allowed c)
    (hrun : Steps exec spawnable allowed c c') :
    Steps exec spawnable (fun t op choice w => allowed t op choice w ∧ Discipline t op w) c c' :=
  hc.steps_pre (fun _ => Stable.const True) h.safe hrun

end Runs

end ChangeQuality.SopDiscipline
