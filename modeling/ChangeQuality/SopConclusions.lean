import ChangeQuality.SopConversations

/-!
A run records the outcome of its check for the conversation that it has led. Every task of the SOP
quality backend keeps to that, so that the tables tell the same of a check and of its session, in
every interleaving and whatever fails.
-/

namespace ChangeQuality.SopConclusions

open ChangeQuality.Values
open ChangeQuality.JsonDecoding (Limits)
open ChangeQuality.SopTables
open ChangeQuality.SopRepository
open ChangeQuality.SopRunner
open ChangeQuality.SopVerdicts
open ChangeQuality.SopOutcomes (proceed)
open ChangeQuality.SopSystem
open ChangeQuality.SopEffects
open ChangeQuality.SopInvariant
open ChangeQuality.SopDiscipline
open ChangeQuality.SopTransactions
open ChangeQuality.SopLinks
open ChangeQuality.SopRunners
open ChangeQuality.SopScripts
open ChangeQuality.SopTranscripts
open ChangeQuality.SopConversations
open ChangeQuality.Histories
open ChangeQuality.ReadCommitted
open ChangeQuality.Coroutine
open ChangeQuality.Interference

section Ends

variable {limits : Limits} {t : TaskId} {id : CheckId} {c : Collaborators}

theorem modest_of_reads {op : Op} (h : Reads op) : Modest op := by
  cases op <;> first | exact h.elim | trivial

theorem modest_of_publishes {op : Op} (h : Publishes op) : Modest op := by
  cases op <;> first | exact h.elim | trivial

theorem modest_of_appends {type : EventType} {op : Op} (h : Appends type op) : Modest op := by
  cases op <;> first | exact h.elim | trivial

theorem modest_of_setsSession {op : Op} (h : SetsSession op) : Modest op := by
  cases op <;> first | exact h.elim | trivial

theorem modest_appendEvent (type : EventType) (node checkpointId taskId message : Option String) :
    Uses Modest (appendEvent id type node checkpointId taskId message) :=
  (straight_appendEvent _ _ _ _ _ _).uses.mono fun _ => modest_of_appends

theorem modest_publishEvent (event : SopQualityEvent) : Uses Modest (publishEvent c event) :=
  (uses_publishEvent _ _).mono fun _ => modest_of_publishes

theorem modest_requireCheck : Uses Modest (requireCheck id) :=
  (straight_requireCheck id).uses.mono fun _ => modest_of_reads

theorem modest_recordCheckpoint : Uses Modest (recordCheckpoint c id) := by
  refine Uses.bind ?_ fun found => ?_
  · unfold latestCheckpointId
    split
    · exact Uses.bind (Uses.perform trivial) fun _ => trivial
    · trivial
  cases found with
  | none => trivial
  | some checkpointId =>
      refine Uses.bind (Uses.bind modest_requireCheck fun _ =>
        Uses.perform ⟨rfl, rfl, by simp⟩) fun _ => ?_
      refine Uses.bind (modest_appendEvent _ _ _ _ _) fun _ => ?_
      exact Uses.bind (Uses.perform trivial) fun _ => modest_publishEvent _

/-- What follows the last change of a check by its run. -/
theorem modest_ending (sessionId : Option SessionId) (status : SessionStatus) (type : EventType)
    (message : Option String) (answer : Json) : Uses Modest (do
      setSessionStatus c sessionId status
      let event ← appendEvent id type none none none message
      await .commit
      publishEvent c event
      pure answer : Program Json) := by
  refine Uses.bind ((straight_setSessionStatus c _ _).uses.mono fun _ => modest_of_setsSession)
    fun _ => ?_
  refine Uses.bind (modest_appendEvent _ _ _ _ _) fun _ => ?_
  refine Uses.bind (Uses.perform trivial) fun _ => ?_
  exact Uses.bind (modest_publishEvent _) fun _ => trivial

/-- The row of the check, as the task has just read it. -/
structure Refreshed (t : TaskId) (id : CheckId) (check : SopQualityCheck) (s : Recorded) : Prop where
  free : InsertsNone t s.1
  found : check.id = id
  named : ∃ row, s.1.store.committed.check id = some row ∧ row.sessionId = check.sessionId
  active : check.status.active = true → ∀ sid, check.sessionId = some sid → Unrecorded check

theorem stable_refreshed {check : SopQualityCheck} :
    Stable (scriptProtocol limits) t (Refreshed t id check) := by
  intro s s' hinv h hrely hinv'
  obtain ⟨row, hrow, hsid⟩ := h.named
  obtain ⟨row', hrow', hsid', -⟩ := hrely.2.named id row hrow
  exact ⟨stable_insertsNone s s' hinv h.free hrely hinv', h.found, ⟨row', hrow', hsid'.trans hsid⟩,
    h.active⟩

theorem triple_refreshCheck :
    Triple (scriptProtocol limits) t (fun s => InsertsNone t s.1) (await (.refreshCheck id))
      (fun check => Refreshed t id check) fun _ s => InsertsNone t s.1 := by
  refine Triple.perform stable_insertsNone (fun _ => stable_refreshed) (fun _ => stable_insertsNone)
    (fun _ _ _ => trivial) ?_
  intro s choice r s' hinv h _ _ hexec
  obtain ⟨hstep, -⟩ := recording_eq_some hexec
  have hnone := InsertsNone.exec h (by simp) hstep
  cases r with
  | error e => exact hnone
  | ok check =>
      obtain ⟨answer, kept, -, hsucceed⟩ := exec_ok hstep
      obtain ⟨hrow, hw⟩ := reply_refreshCheck hsucceed
      have hcommitted : s'.1.store.committed = s.1.store.committed := by rw [hw]; rfl
      refine ⟨hnone, Db.check_id hrow, ?_, fun hactive sid hsid =>
        hinv.2.active t id check sid hrow hsid hactive⟩
      rcases hinv.2.inserted_or_committed hrow with ⟨row₀, hrow₀, hsid₀, -⟩ | ⟨-, hins⟩
      · exact ⟨row₀, hcommitted ▸ hrow₀, hsid₀.symm⟩
      · exact absurd hins (h check)

/-- A failure is recorded on a check without an outcome, which has no result to lose. -/
theorem Refreshed.speaks {check : SopQualityCheck} {s : Recorded} (h : Refreshed t id check s)
    (hactive : check.status.active = true) (error : Json) :
    Speaks limits t (.updateCheck check
      { status := some .failed
        qualityResult := some none
        result := some none
        error := some (some error) }) s := by
  refine ⟨h.free, ?_⟩
  cases hsid : check.sessionId with
  | none =>
      refine .inr fun row sid hrow hrowSid => ?_
      obtain ⟨row', hrow', hsid'⟩ := h.named
      rw [h.found] at hrow
      obtain rfl := Option.some.inj (hrow.symm.trans hrow')
      simp [hsid', hsid] at hrowSid
  | some sid =>
      have hblank := h.active hactive sid hsid
      refine .inl ⟨?_, ?_, fun hstatus => ?_⟩
      · simp [CheckPatch.net, hblank.result, Option.filter_some]
      · simp [CheckPatch.net, hblank.qualityResult, Option.filter_some]
      · cases net_status hstatus

theorem triple_markFailed (e : Exn) :
    Triple (scriptProtocol limits) t (fun s => InsertsNone t s.1) (markFailed c id e)
      (fun _ s => InsertsNone t s.1) fun _ s => InsertsNone t s.1 := by
  refine Triple.bind (triple_modest ((straight_getCheck id).uses.mono fun _ => modest_of_reads))
    fun found => ?_
  refine Triple.bind (B := fun _ s => InsertsNone t s.1) ?_ fun _ =>
    triple_modest (modest_ending _ _ _ _ _)
  refine Triple.bind (triple_modest modest_requireCheck) fun _ => ?_
  refine Triple.bind triple_refreshCheck fun check => ?_
  split
  · rename_i hactive
    refine Triple.perform stable_refreshed (fun _ => stable_insertsNone)
      (fun _ => stable_insertsNone) (fun _ _ h => h.speaks hactive _) ?_
    intro s choice r s' _ h _ _ hexec
    have hnone := InsertsNone.exec h.free (by simp) (recording_eq_some hexec).1
    cases r with
    | error e => exact hnone
    | ok reply => exact hnone
  · refine (triple_modest ?_).weaken (fun _ _ h => h.free) (fun _ _ _ h => h) fun _ _ _ h => h
    exact Uses.bind (Uses.perform trivial) fun _ => trivial

/-- Success records what the whole conversation comes to. -/
theorem Refreshed.concludes {check copy : SopQualityCheck} {final : Json} {answer : String}
    {review : Review} {s : Recorded} (hid : check.id = id) (h : Refreshed t id copy s)
    (hactive : copy.status.active = true) (hfinal : Final limits check final answer review)
    (hspeaking : Speaking t id check (fun sid => script limits sid check.sopId answer) s) :
    Speaks limits t (.updateCheck copy
      { status := some .succeeded
        qualityResult := some (final.get "quality_result").asStr?
        result := some (final.get "result").asObj?
        error := some none }) s := by
  refine ⟨h.free, .inr fun row sid hrow hsid => ⟨h.found ▸ hspeaking.invoked, ?_⟩⟩
  obtain ⟨row', hrow', hcopy⟩ := h.named
  obtain ⟨row'', hrow'', hcheck, hsop⟩ := hspeaking.heard.named
  rw [h.found] at hrow ⊢
  obtain rfl := Option.some.inj (hrow.symm.trans hrow')
  obtain rfl := Option.some.inj (hrow.symm.trans hrow'')
  have hblank := h.active hactive sid (hcopy.symm.trans hsid)
  have hne : copy.status ≠ .succeeded := fun hstatus => by
    rw [hstatus] at hactive
    cases hactive
  rw [hfinal.result, hfinal.qualityResult]
  refine ⟨answer, review, hfinal.reviewed, ?_, ?_, ?_, ?_⟩
  · rw [hspeaking.heard.said sid (hcheck.symm.trans hsid), hsop]
  · simp [CheckPatch.net, Option.filter_some, hne.symm]
  · rw [CheckPatch.net, hblank.result, ← hid]
    rfl
  · cases hquality : review.qualityResult with
    | none => exact .inr ⟨by simp [CheckPatch.net, hblank.qualityResult, Option.filter_some], rfl⟩
    | some verdict =>
        exact .inl (by simp [CheckPatch.net, hblank.qualityResult, Option.filter_some])

theorem triple_markSucceeded {check : SopQualityCheck} {final : Json} {answer : String}
    {review : Review} (hid : check.id = id) (hfinal : Final limits check final answer review) :
    Triple (scriptProtocol limits) t
      (Speaking t id check fun sid => script limits sid check.sopId answer)
      (markSucceeded c id check.sessionId final) (fun _ s => InsertsNone t s.1)
      fun _ s => InsertsNone t s.1 := by
  refine Triple.bind (B := fun _ s => InsertsNone t s.1) ?_ fun _ =>
    triple_modest (modest_ending _ _ _ _ _)
  refine Triple.bind (triple_speaking modest_requireCheck) fun _ => ?_
  have hrefresh : Uses Modest (await (.refreshCheck id)) := Uses.perform trivial
  refine Triple.bind ((Triple.and (triple_speaking hrefresh) triple_refreshCheck).weaken
    (fun _ _ h => ⟨h, h.heard.free⟩) (fun _ _ _ h => h) fun _ _ _ h => h.2) fun copy => ?_
  split
  · rename_i hactive
    refine Triple.perform (stable_speaking.and stable_refreshed) (fun _ => stable_insertsNone)
      (fun _ => stable_insertsNone) (fun _ _ h => h.2.concludes hid hactive hfinal h.1) ?_
    intro s choice r s' _ h _ _ hexec
    have hnone := InsertsNone.exec h.2.free (by simp) (recording_eq_some hexec).1
    cases r with
    | error e => exact hnone
    | ok reply => exact hnone
  · refine (triple_modest ?_).weaken (fun _ _ h => h.2.free) (fun _ _ _ h => h) fun _ _ _ h => h
    exact Uses.bind (Uses.perform trivial) fun _ => trivial

end Ends

section Starting

variable {limits : Limits} {t : TaskId} {id : CheckId} {check : SopQualityCheck} {c : Collaborators}

/-- The run has set its check to running, whose conversation is still empty. -/
structure Opening (t : TaskId) (id : CheckId) (check : SopQualityCheck) (s : Recorded) : Prop where
  heard : Heard t id check (fun _ => []) (fun _ => []) s
  set : HasSetRunning t id s.1

theorem stable_opening : Stable (scriptProtocol limits) t (Opening t id check) := by
  rintro s s' hinv ⟨hheard, wr, hwr, hset⟩ hrely -
  refine ⟨hheard.rely (.inl ⟨wr, hwr, hset⟩) hrely, wr, ?_, hset⟩
  exact Rely.pending hrely.1.1 ▸ hwr

/-- The row of the check, as the task sees it under the lock. -/
structure Locked (t : TaskId) (id : CheckId) (check : SopQualityCheck) (s : Recorded) : Prop where
  free : InsertsNone t s.1
  owner : s.1.store.owner (.check id) = some t
  row : (s.1.view t).check id = some check

theorem stable_owned :
    Stable (scriptProtocol limits) t fun s =>
      InsertsNone t s.1 ∧ s.1.store.owner (.check id) = some t :=
  fun s s' hinv h hrely hinv' => ⟨stable_insertsNone s s' hinv h.1 hrely hinv',
    (Rely.owner hrely.1.1 _).mpr h.2⟩

theorem stable_locked : Stable (scriptProtocol limits) t (Locked t id check) :=
  fun s s' hinv h hrely hinv' => ⟨stable_insertsNone s s' hinv h.free hrely hinv',
    (Rely.owner hrely.1.1 _).mpr h.owner,
    (Prod.mk.inj (Rely.view_check hrely.1.1 h.owner)).1.trans h.row⟩

theorem triple_lockCheck :
    Triple (scriptProtocol limits) t (fun s => InsertsNone t s.1) (lockCheck id)
      (fun _ s => InsertsNone t s.1 ∧ s.1.store.owner (.check id) = some t)
      fun _ s => InsertsNone t s.1 := by
  refine Triple.bind (B := fun found s => InsertsNone t s.1 ∧
    (found = true → s.1.store.owner (.check id) = some t)) ?_ fun found => ?_
  · refine Triple.perform stable_insertsNone (fun found => stable_insertsNone.and ?_)
      (fun _ => stable_insertsNone) (fun _ _ _ => trivial) ?_
    · exact fun _ _ _ h hrely _ hfound => (Rely.owner hrely.1.1 _).mpr (h hfound)
    · intro s choice r s' _ h _ _ hexec
      have hnone := InsertsNone.exec h (by simp) (recording_eq_some hexec).1
      cases r with
      | error e => exact hnone
      | ok found =>
          refine ⟨hnone, ?_⟩
          rintro rfl
          obtain ⟨answer, kept, -, hsucceed⟩ := exec_ok (recording_eq_some hexec).1
          exact reply_lockCheck hsucceed
  · cases found with
    | true => exact Triple.done stable_owned fun _ _ h => ⟨h.1, h.2 rfl⟩
    | false => exact Triple.raise stable_insertsNone fun _ _ h => h.1

/-- A pending check has an empty conversation. -/
theorem Locked.heard {s : Recorded} (h : Locked t id check s)
    (hinv : (scriptProtocol limits).inv s) (hpending : check.status = .pending) :
    Heard t id check (fun _ => []) (fun _ => []) s := by
  rcases hinv.2.inserted_or_committed h.row with ⟨row, hrow, hsid, hsop⟩ | ⟨-, hins⟩
  · have hrowPending := hinv.1.1.pending_committed hrow h.row hpending
    have hempty : ∀ sid, check.sessionId = some sid → s.1.store.committed.messagesOf sid = [] :=
      fun sid hcheck => (hinv.2.told id row sid hrow (hsid.symm.trans hcheck)).pending hrowPending
    have hnot : t ∉ invocations id s.2 := by
      intro hmem
      obtain ⟨row', hrow', hne⟩ := hinv.1.2.published id t (runner_of_invoked hinv.1.2 hmem)
      exact hne (Option.some.inj (hrow.symm.trans hrow') ▸ hrowPending)
    refine ⟨h.free, ⟨row, hrow, hsid.symm, hsop.symm⟩, hempty, fun sid hcheck => ?_⟩
    rw [hinv.2.silent hrow (hsid.symm.trans hcheck) hnot, hempty sid hcheck]
  · exact absurd hins (h.free check)

/-- What `mark_running` has found. -/
def Found (t : TaskId) (id : CheckId) : Option SopQualityCheck → Recorded → Prop
  | some check => fun s => check.id = id ∧ Opening t id check s
  | none => fun s => InsertsNone t s.1

theorem triple_markRunning :
    Triple (scriptProtocol limits) t (fun s => InsertsNone t s.1) (markRunning id) (Found t id)
      fun _ s => InsertsNone t s.1 := by
  refine Triple.bind (triple_modest modest_requireCheck) fun _ => ?_
  refine Triple.bind triple_lockCheck fun _ => ?_
  refine Triple.bind (B := fun check => Locked t id check) ?_ fun check => ?_
  · refine Triple.perform stable_owned (fun _ => stable_locked) (fun _ => stable_insertsNone)
      (fun _ _ _ => trivial) ?_
    intro s choice r s' _ h _ _ hexec
    have hnone := InsertsNone.exec h.1 (by simp) (recording_eq_some hexec).1
    cases r with
    | error e => exact hnone
    | ok check =>
        obtain ⟨answer, kept, -, hsucceed⟩ := exec_ok (recording_eq_some hexec).1
        obtain ⟨hrow, hw⟩ := reply_refreshCheck hsucceed
        exact ⟨hnone, by rw [hw]; exact h.2, by rw [hw]; exact hrow⟩
  · split
    · exact Triple.done stable_insertsNone fun _ _ h => h.free
    · rename_i hstatus
      have hpending : check.status = .pending := by simpa using hstatus
      refine Triple.bind (B := fun reply => Found t id (some reply)) ?_ fun reply =>
        Triple.done ((Stable.const _).and stable_opening) fun _ _ h => h
      refine Triple.perform stable_locked (fun _ => (Stable.const _).and stable_opening)
        (fun _ => stable_insertsNone) (fun _ _ h => ⟨h.free, .inl ?_⟩) ?_
      · exact Unspoken.net ⟨rfl, rfl, by simp⟩ check
      · intro s choice r s' hinv h _ _ hexec
        obtain ⟨hstep, -⟩ := recording_eq_some hexec
        have hmodest : Modest (.updateCheck check { status := some .running }) :=
          ⟨rfl, rfl, by simp⟩
        have hheard := (h.heard hinv hpending).exec hmodest hstep
        cases r with
        | error e => exact hheard.free
        | ok reply =>
            obtain ⟨answer, kept, -, hsucceed⟩ := exec_ok hstep
            obtain rfl := reply_updateCheck hsucceed
            have hid : check.id = id := Db.check_id h.row
            refine ⟨hid, ⟨hheard.free, hheard.named, hheard.said, hheard.seen⟩, ?_⟩
            exact hid ▸ hasSetRunning_updateCheck hpending hstep

/-- The event of a run that has begun is written in the same transaction. -/
theorem triple_startedEvent (message : Option String) :
    Triple (scriptProtocol limits) t (Opening t id check)
      (appendEvent id .started none none none message) (fun _ => Opening t id check)
      fun _ s => InsertsNone t s.1 := by
  refine Triple.of_straight stable_opening stable_insertsNone
    (fun _ _ hop _ h => (modest_of_appends hop).speaks h.heard.free) ?_ ?_
    (fun _ _ h => h.heard.free) (straight_appendEvent id .started none none none message)
  · rintro op choice a s s' hop - ⟨hheard, wr, hwr, hset⟩ - hexec
    obtain ⟨hstep, -⟩ := recording_eq_some hexec
    exact ⟨hheard.exec (modest_of_appends hop) hstep, wr, pending_lasts hop hstep hwr, hset⟩
  · rintro op choice e s s' hop - h - hexec
    exact (h.heard.exec (modest_of_appends hop) (recording_eq_some hexec).1).free

/-- The commit after `mark_running` publishes the status. -/
theorem triple_commit :
    Triple (scriptProtocol limits) t (Opening t id check) (await .commit)
      (fun _ s => Heard t id check (fun _ => []) (fun _ => []) s ∧ runner id s.2 = some t)
      fun _ s => InsertsNone t s.1 := by
  refine Triple.perform stable_opening (fun _ => stable_heard
    (fun _ _ _ h hrely _ => hrely.1.2.runner id t h) fun _ _ h => .inr h)
    (fun _ => stable_insertsNone) (fun _ _ _ => trivial) ?_
  intro s choice r s' hinv h _ _ hexec
  obtain ⟨hstep, hrecord⟩ := recording_eq_some hexec
  have hheard := h.heard.exec (show Modest .commit from trivial) hstep
  cases r with
  | error e => exact hheard.free
  | ok a =>
      refine ⟨hheard, ?_⟩
      rw [hrecord]
      exact runner_committed (hinv.1.2.unpublished h.set) (by simpa [HasSetRunning] using h.set)

/-- From here on the run speaks. -/
theorem triple_started :
    Triple (scriptProtocol limits) t
      (fun s => Heard t id check (fun _ => []) (fun _ => []) s ∧ runner id s.2 = some t)
      (await (.note (.started id))) (fun _ => Speaking t id check fun _ => [])
      fun _ s => InsertsNone t s.1 := by
  refine Triple.perform (stable_heard (fun _ _ _ h hrely _ => hrely.1.2.runner id t h)
    fun _ _ h => .inr h) (fun _ => stable_speaking) (fun _ => stable_insertsNone)
    (fun _ _ _ => trivial) ?_
  intro s choice r s' _ h _ _ hexec
  obtain ⟨hstep, hrecord⟩ := recording_eq_some hexec
  have hheard := h.1.exec (show Modest (.note (.started id)) from trivial) hstep
  cases r with
  | error e => exact hheard.free
  | ok a =>
      refine ⟨hheard, mem_invocations.mpr ?_⟩
      rw [hrecord]
      exact List.mem_append_right _ List.mem_cons_self

theorem triple_tryRun (hwriter : c.sessionRepository = true) :
    Triple (scriptProtocol limits) t (fun s => InsertsNone t s.1) (tryRun (summarizing limits c) id)
      (fun _ s => InsertsNone t s.1) fun _ s => InsertsNone t s.1 := by
  refine Triple.bind triple_markRunning fun found => ?_
  cases found with
  | none => exact Triple.done stable_insertsNone fun _ _ h => h
  | some check =>
      refine Triple.given fun hid => ?_
      refine Triple.bind (triple_startedEvent _) fun _ => Triple.bind triple_commit fun _ => ?_
      refine Triple.bind triple_started fun _ => ?_
      refine Triple.bind (triple_speaking (modest_publishEvent _)) fun _ => ?_
      have hsession : (if (summarizing limits c).sessionRepository then check.sessionId else none) =
          check.sessionId := if_pos hwriter
      rw [hsession]
      refine Triple.bind triple_ainvoke fun final => ?_
      refine Triple.exists fun answer => Triple.exists fun review => Triple.given fun hfinal => ?_
      exact Triple.bind (triple_speaking modest_recordCheckpoint) fun _ =>
        triple_markSucceeded hid hfinal

theorem triple_run (id : CheckId) :
    Triple (scriptProtocol limits) t (fun s => InsertsNone t s.1)
      (runSopQualityCheckWithNewSession (summarizing limits c) id) (fun _ s => InsertsNone t s.1)
      fun _ s => InsertsNone t s.1 := by
  have hoperation : ∀ {op : Op}, Modest op → Triple (scriptProtocol limits) t
      (fun s => InsertsNone t s.1) (await op) (fun _ s => InsertsNone t s.1)
      fun _ s => InsertsNone t s.1 :=
    fun hop => triple_modest (Uses.perform hop)
  have hrun : Triple (scriptProtocol limits) t (fun s => InsertsNone t s.1)
      (tryRun (summarizing limits { c with checkpointer := true, sessionRepository := true }) id)
      (fun _ s => InsertsNone t s.1) fun _ s => InsertsNone t s.1 :=
    triple_tryRun rfl
  refine Triple.ensuring (fun _ => stable_insertsNone) (fun _ => stable_insertsNone)
    (Triple.tryCatch (B := fun _ s => InsertsNone t s.1) ?_ fun e => ?_)
    (fun _ => hoperation trivial) fun _ => hoperation trivial
  · refine Triple.bind (hoperation trivial) fun _ => ?_
    refine Triple.ensuring (fun _ => stable_insertsNone) (fun _ => stable_insertsNone)
      (Triple.tryCatch hrun triple_markFailed) (fun _ => hoperation trivial)
      fun _ => hoperation trivial
  · exact Triple.bind (hoperation trivial) fun _ => triple_markFailed e

end Starting

section Tasks

variable {limits : Limits} {t : TaskId} {sid : SessionId}

theorem modest_startup : Uses Modest interruptLeftoverSopQualityChecks := by
  have heach : ∀ checks, Uses Modest (interruptEach checks) := by
    intro checks
    induction checks with
    | nil => trivial
    | cons check checks ih =>
        refine Uses.bind (Uses.perform ⟨rfl, rfl, by simp⟩) fun _ => ?_
        exact Uses.bind (modest_appendEvent _ _ _ _ _) fun _ => Uses.bind ih fun _ => trivial
  refine Uses.ensuring (Uses.bind (Uses.bind (Uses.perform trivial) fun checks => ?_) fun _ =>
    Uses.perform trivial) (Uses.perform trivial)
  exact Uses.bind (heach checks) fun _ => Uses.bind (Uses.perform trivial) fun _ => trivial

/-- The operations that add to no conversation and write no check. -/
def Bare : Op → Prop
  | .insertMessage _ | .insertCheck _ | .updateCheck _ _ => False
  | _ => True

theorem triple_bare {α : Type} {p : Program α} (hp : Uses Bare p) :
    Triple (scriptProtocol limits) t (fun _ => True) p (fun _ _ => True) fun _ _ => True := by
  refine Triple.of_uses (S := Bare) (Stable.const True) (fun op _ hop _ _ => ?_)
    (fun _ _ _ _ _ _ _ _ _ _ => trivial) hp
  cases op <;> first | exact hop.elim | trivial

theorem bare_of_reads {op : Op} (h : Reads op) : Bare op := by
  cases op <;> first | exact h.elim | trivial

/-- The transaction has written no check. -/
def Spared (t : TaskId) (s : Recorded) : Prop :=
  ∀ wr ∈ s.1.store.pending t, SparesChecks wr

/-- The task has made a session, which nobody else can see. -/
structure Made (t : TaskId) (sid : SessionId) (s : Recorded) : Prop where
  spared : Spared t s
  fresh : s.1.store.committed.session sid = none
  owner : s.1.store.owner (.session sid) = some t

theorem stable_spared : Stable (scriptProtocol limits) t (Spared t) :=
  fun _ _ _ h hrely _ wr hwr => h wr (Rely.pending hrely.1.1 ▸ hwr)

theorem stable_made : Stable (scriptProtocol limits) t (Made t sid) :=
  fun s s' hinv h hrely hinv' => ⟨stable_spared s s' hinv h.spared hrely hinv',
    (Prod.mk.inj (Rely.sessionLocked hrely.1.1 sid h.owner)).1.trans h.fresh,
    (Rely.owner hrely.1.1 _).mpr h.owner⟩

/-- What holds of the tables and the transaction of a task stays while the task reads. -/
theorem triple_reads {α : Type} {p : Program α} {A : Recorded → Prop}
    (hstable : Stable (scriptProtocol limits) t A)
    (hkeep : ∀ s s' : Recorded, s'.1.store.pending t = s.1.store.pending t →
      s'.1.store.committed = s.1.store.committed →
      (∀ k, s.1.store.owner k = some t → s'.1.store.owner k = some t) → A s → A s')
    (hp : Straight Reads p) :
    Triple (scriptProtocol limits) t A p (fun _ => A) fun _ _ => True := by
  refine Triple.of_straight hstable (Stable.const True) (fun op _ hop _ _ => ?_) ?_
    (fun _ _ _ _ _ _ _ _ _ _ => trivial) (fun _ _ _ => trivial) hp
  · cases op <;> first | exact hop.elim | trivial
  · intro op choice a s s' hop _ h _ hexec
    obtain ⟨answer, kept, -, hsucceed⟩ := exec_ok (recording_eq_some hexec).1
    obtain ⟨hpending, hcommitted, howner⟩ := Reads.writes_nothing hop hsucceed
    exact hkeep s s' hpending hcommitted howner h

theorem triple_createSession (title : Option String) :
    Triple (scriptProtocol limits) t (Spared t) (createSession title)
      (fun session => Made t session.id) fun _ _ => True := by
  refine Triple.perform stable_spared (fun _ => stable_made) (fun _ => Stable.const True)
    (fun _ _ _ => trivial) ?_
  intro s choice r s' hinv h _ _ hexec
  cases r with
  | error e => trivial
  | ok session =>
      obtain ⟨answer, kept, -, hsucceed⟩ := exec_ok (recording_eq_some hexec).1
      obtain ⟨hid, -, hwrite⟩ := succeed_insertSession hsucceed
      obtain ⟨mid, hlocks, hrecord⟩ := Store.write_eq_some hwrite
      refine ⟨fun wr hwr => ?_, ?_, ?_⟩
      · rw [hrecord, Store.record_pending, hlocks.pending, List.mem_append,
          List.mem_singleton] at hwr
        rcases hwr with hwr | rfl
        · exact h wr hwr
        · trivial
      · rw [hrecord, Store.record_committed, hlocks.committed]
        exact (Prod.mk.inj (hinv.1.1.sessionFresh _ hid.ge)).1
      · rw [hrecord, Store.record_owner]
        exact hlocks.taken _ (by simp [schema])

theorem triple_createCheck {values : NewCheck} (hvalues : values.sessionId = some sid) :
    Triple (scriptProtocol limits) t (Made t sid) (createCheck values) (fun _ _ => True)
      fun _ _ => True := by
  refine Triple.bind (triple_reads stable_made ?_ (straight_getActiveCheck _ _)) fun active => ?_
  · intro s s' hpending hcommitted howner h
    exact ⟨fun wr hwr => h.spared wr (hpending ▸ hwr), hcommitted ▸ h.fresh, howner _ h.owner⟩
  cases active with
  | some active => exact Triple.raise (Stable.const True) fun _ _ _ => trivial
  | none =>
      refine Triple.tryCatch (B := fun _ _ => True) ?_ fun e => triple_bare ?_
      · refine Triple.perform stable_made (fun _ => Stable.const True) (fun _ => Stable.const True)
          (fun s _ h => ⟨h.spared, fun sid' hsid' => ?_⟩)
          (by rintro s choice (e | a) s' - - - - - <;> trivial)
        obtain rfl := Option.some.inj (hvalues.symm.trans hsid')
        exact ⟨h.fresh, h.owner⟩
      · cases e with
        | integrityError message =>
            refine Uses.bind (Uses.perform trivial) fun _ => ?_
            refine Uses.bind ((straight_getActiveCheck _ _).uses.mono fun _ => bare_of_reads)
              fun active => ?_
            cases active <;> trivial
        | _ => trivial

theorem triple_startCheck (environments : List String) (sopId envKey : String)
    (createdBy : Option String) :
    Triple (scriptProtocol limits) t (Spared t) (startCheck environments sopId envKey createdBy)
      (fun _ _ => True) fun _ _ => True := by
  unfold startCheck
  split
  · refine Triple.bind (triple_reads stable_spared (fun s s' hpending _ _ h => ?_)
      (straight_getActiveCheck _ _)) fun active => ?_
    · exact fun wr hwr => h wr (hpending ▸ hwr)
    cases active with
    | some active => exact Triple.done (Stable.const True) fun _ _ _ => trivial
    | none =>
        refine Triple.bind (triple_createSession _) fun session => ?_
        refine Triple.bind (B := fun _ _ => True) (Triple.tryCatch (B := fun _ _ => True)
          (Triple.bind (triple_createCheck rfl) fun _ =>
            Triple.done (Stable.const True) fun _ _ h => h)
          fun e => triple_bare ?_) fun created => triple_bare ?_
        · cases e <;> trivial
        · cases created with
          | error active =>
              exact Uses.bind ((straight_getCheck _).uses.mono fun _ => bare_of_reads)
                fun _ => trivial
          | ok check =>
              refine Uses.bind ((straight_appendEvent _ _ _ _ _ _).uses.mono fun op h => ?_)
                fun _ => Uses.bind (Uses.perform trivial) fun _ => ?_
              · cases op <;> first | exact h.elim | trivial
              · exact Uses.bind (Uses.perform trivial) fun _ => trivial
  · exact Triple.raise (Stable.const True) fun _ _ _ => trivial

/-- The task has written nothing. -/
def Unwritten (t : TaskId) (s : Recorded) : Prop :=
  s.1.store.pending t = []

theorem triple_task {c : Collaborators} {p : Program Unit} (hp : Task (summarizing limits c) p) :
    Triple (scriptProtocol limits) t (Unwritten t) p (fun _ _ => True) fun _ _ => True := by
  have hmodest : ∀ {p : Program Unit},
      Triple (scriptProtocol limits) t (fun s => InsertsNone t s.1) p
        (fun _ s => InsertsNone t s.1) (fun _ s => InsertsNone t s.1) →
      Triple (scriptProtocol limits) t (Unwritten t) p (fun _ _ => True) fun _ _ => True :=
    fun h => h.weaken (fun _ _ hs row hrow => by rw [Unwritten] at hs; simp [hs] at hrow)
      (fun _ _ _ _ => trivial) fun _ _ _ _ => trivial
  cases hp with
  | run id =>
      refine hmodest (Triple.bind (triple_modest (Uses.perform trivial)) fun _ => ?_)
      exact Triple.bind (triple_run id) fun _ => Triple.done stable_insertsNone fun _ _ h => h
  | startup => exact hmodest (triple_modest modest_startup)
  | start environments sopId envKey createdBy =>
      refine Triple.weaken (A := Spared t) (Triple.bind (Triple.ensuring
        (fun _ => Stable.const True) (fun _ => Stable.const True)
        (triple_startCheck environments sopId envKey createdBy)
        (fun _ => triple_bare (Uses.perform trivial)) fun _ => triple_bare (Uses.perform trivial))
        fun _ => Triple.done (Stable.const True) fun _ _ _ => trivial) (fun s _ h wr hwr => ?_)
        (fun _ _ _ h => h) fun _ _ _ h => h
      rw [show s.1.store.pending t = [] from h] at hwr
      cases hwr

end Tasks

/-- The tables tell the same of every check and of its session, which it shares with no other. -/
structure Consistent (limits : Limits) (db : Db) : Prop where
  told : Transcribed limits db
  unshared : Unshared db
  foreign : MessagesLinked db

theorem stable_unwritten {limits : Limits} {t : TaskId} :
    Stable (scriptProtocol limits) t (Unwritten t) :=
  fun _ _ _ h hrely _ => (Rely.pending hrely.1.1).trans h

theorem Consistent.scripted {limits : Limits} {w : World} (h : Consistent limits w.store.committed)
    (hidle : Idle w) : Scripted limits (w, []) where
  told := h.told
  unshared := h.unshared
  foreign := h.foreign
  inserts t row hrow := by simp [hidle.pending t] at hrow
  messages t m hm := by simp [hidle.pending t] at hm
  spoken t id row sid hinvoked := by cases hinvoked
  patches t id patch hpatch := by simp [hidle.pending t] at hpatch
  active t id row sid hrow hsid := by
    have hview : w.view t = w.store.committed := (Idle.unbegun hidle t).view
    exact (h.told id row sid (hview ▸ hrow) hsid).active

/-- The conversations of the checks are scripted at the end of every run, for some record of what the
run has done. -/
theorem scripted_of_steps {limits : Limits} {c : Collaborators} {w : World} (hidle : Idle w)
    (hw : WellFormed w) (hconsistent : Consistent limits w.store.committed) {c' : Config}
    (hrun : Steps exec (Task (summarizing limits c)) unrestricted (.idle w) c') :
    ∃ history, Scripted limits (c'.shared, history) := by
  obtain ⟨history, hrecorded⟩ := Steps.recorded (ρ := Entry) hrun []
  have horderly : OrderlyRecorded (.idle (w, [])) := .idle (hw.coherent hidle) fun _ => trivial
  have helected : Invariant runnerProtocol (fun t s => Uninvoked t s) (fun _ _ _ => True)
      (Config.idle (w, []) : RecordedConfig) :=
    .idle ⟨hw.coherent hidle, elected_idle hidle⟩ fun t id hmem => by cases hmem
  have hscripted : Invariant (scriptProtocol limits) Unwritten (fun _ _ _ => True)
      (Config.idle (w, []) : RecordedConfig) :=
    .idle ⟨⟨hw.coherent hidle, elected_idle hidle⟩, hconsistent.scripted hidle⟩ fun t =>
      hidle.pending t
  have hdisciplined := horderly.steps_pre (fun _ => Stable.const True)
    (fun t p hp => safe_recorded t p (.inl hp)) hrecorded
  have hentitled := helected.steps_pre (fun _ => stable_uninvoked) (fun t p hp s hs hbegin =>
    Safe.mono (fun _ _ _ _ => trivial) (triple_spawnable (.inl hp) s hs hbegin)) hdisciplined
  exact ⟨history, (hscripted.steps (fun _ => stable_unwritten) (fun t p hp s hs hbegin =>
    Safe.mono (fun _ _ _ _ => trivial) (triple_task hp s hs hbegin)) hentitled).shared.2⟩

/-- In every interleaving of runs, starts and startups, with failures at any await, the committed
tables tell the same of every check and of its session: the rows of the session are a part of the
script of the graph, all of it where the check has succeeded, and what the check records is what the
script comes to. -/
theorem consistent_of_steps (limits : Limits) (c : Collaborators) {w : World} (hidle : Idle w)
    (hw : WellFormed w) (hconsistent : Consistent limits w.store.committed) {c' : Config}
    (hrun : Steps exec (Task (summarizing limits c)) unrestricted (.idle w) c') :
    Consistent limits c'.shared.store.committed := by
  obtain ⟨history, hkept⟩ := scripted_of_steps hidle hw hconsistent hrun
  exact ⟨hkept.told, hkept.unshared, hkept.foreign⟩

theorem consistent_oneCheck (limits : Limits) :
    Consistent limits (oneCheck .pending).store.committed where
  told id row sid hrow _ := by
    have hmem := List.mem_of_find?_eq_some hrow
    simp only [oneCheck, List.mem_singleton] at hmem
    subst hmem
    exact
      { pending := fun _ => rfl
        spoken := ⟨"", List.nil_prefix⟩
        active := fun _ => ⟨rfl, rfl⟩
        records := ⟨.inl ⟨rfl, rfl⟩, fun hstatus => by cases hstatus⟩ }
  unshared id id' row row' sid hrow hrow' _ _ := by
    have hmem := List.mem_of_find?_eq_some hrow
    have hmem' := List.mem_of_find?_eq_some hrow'
    simp only [oneCheck, List.mem_singleton] at hmem hmem'
    rw [← Db.check_id hrow, ← Db.check_id hrow', hmem, hmem']
  foreign _ _ := rfl

/-- An await that the environment answers. -/
def answering (t : TaskId) (answer : Answer) : Move Reply Exn TaskId Choice :=
  .resume t (.succeed answer true)

/-- A run of the check whose agent answers in plain text. -/
def plainConversation : List (Move Reply Exn TaskId Choice) :=
  .spawn 0 (backgroundRun (summarizing ⟨1000, 4300⟩ collaborators) 0) ::
    (List.replicate 13 (proceed 0) ++ answering 0 (.json (.obj [])) ::
      List.replicate 5 (proceed 0) ++ answering 0 (.flag false) :: answering 0 (.text "Ready.") ::
        List.replicate 15 (proceed 0) ++ answering 0 (.json (.obj [])) ::
          List.replicate 13 (proceed 0))

theorem consistent_plainConversation : ∃ (c' : Config) (row : SopQualityCheck),
    follow exec unrestricted (.idle (oneCheck .pending)) plainConversation = some c' ∧
      c'.shared.store.committed.check 0 = some row ∧ row.sessionId = some 0 ∧
      row.status = .succeeded ∧ row.qualityResult = some "warn" ∧
      (c'.shared.store.committed.messagesOf 0).map (·.content) =
        ["已读取 SOP sop-1。", "Ready.", "Ready.", "External submission: mock_submitted."] ∧
      Consistent ⟨1000, 4300⟩ c'.shared.store.committed := by
  have hrun : ∃ (c' : Config) (row : SopQualityCheck),
      follow exec unrestricted (.idle (oneCheck .pending)) plainConversation = some c' ∧
        c'.shared.store.committed.check 0 = some row ∧ row.sessionId = some 0 ∧
        row.status = .succeeded ∧ row.qualityResult = some "warn" ∧
        (c'.shared.store.committed.messagesOf 0).map (·.content) =
          ["已读取 SOP sop-1。", "Ready.", "Ready.", "External submission: mock_submitted."] :=
    ⟨_, _, rfl, rfl, rfl, rfl, rfl, rfl⟩
  obtain ⟨c', row, hfollow, hrow, hsid, hsucceeded, hquality, hlines⟩ := hrun
  have hspawn : ∀ p ∈ started plainConversation,
      Task (summarizing ⟨1000, 4300⟩ collaborators) p := by
    simpa [plainConversation, started, proceed, answering] using .run 0
  exact ⟨c', row, hfollow, hrow, hsid, hsucceeded, hquality, hlines,
    consistent_of_steps ⟨1000, 4300⟩ collaborators (idle_oneCheck .pending)
      (wellFormed_oneCheck .pending) (consistent_oneCheck _) (follow_steps hspawn hfollow)⟩

end ChangeQuality.SopConclusions
