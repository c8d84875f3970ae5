import ChangeQuality.SopDiscipline

/-!
What the parts of a run do within one transaction: which operations leave the checks and their
events alone, and which parts of the repositories are made of such operations.
-/

namespace ChangeQuality.SopTransactions

open ChangeQuality.Values
open ChangeQuality.SopTables
open ChangeQuality.SopRepository
open ChangeQuality.SopRunner
open ChangeQuality.SopSystem
open ChangeQuality.SopEffects
open ChangeQuality.SopInvariant
open ChangeQuality.SopDiscipline
open ChangeQuality.ReadCommitted
open ChangeQuality.Coroutine
open ChangeQuality.Interference

/-- The operations that write no check and no event and do not end the transaction. -/
def Quiet : Op → Prop
  | .updateCheck _ _ | .insertEvent _ | .insertCheck _ | .commit | .rollback | .close => False
  | _ => True

section Footprints

/-- What `set_status` awaits. -/
def SetsSession : Op → Prop
  | .getSession _ | .updateSession _ _ | .latestMessage _ => True
  | _ => False

/-- What `mark_running` awaits. -/
def Begins : Op → Prop
  | .updateCheck _ patch => patch.status = some .running
  | op => Reads op

/-- What `mark_terminal` awaits. -/
def Concludes : Op → Prop
  | .updateCheck _ _ | .note (.alreadyTerminal _ _) => True
  | op => Reads op

/-- What the run awaits to record the checkpoint of its graph. -/
def Checkpoints : Op → Prop
  | .updateCheck _ patch => patch.status = none
  | .insertEvent event => event.type = .checkpoint
  | op => Reads op ∨ Publishes op ∨ GraphOp op

theorem Reads.quiet {op : Op} (h : Reads op) : Quiet op := by
  cases op <;> first | exact h.elim | trivial

theorem SetsSession.quiet {op : Op} (h : SetsSession op) : Quiet op := by
  cases op <;> first | exact h.elim | trivial

theorem uses_markRunning (id : CheckId) : Uses Begins (markRunning id) := by
  have hreads : ∀ op, Reads op → Begins op := fun op h => by
    cases op <;> first | exact h | exact h.elim
  refine Uses.bind ((straight_requireCheck id).uses.mono hreads) fun _ => ?_
  refine Uses.bind ((straight_lockCheck id).uses.mono hreads) fun _ => ?_
  refine Uses.bind (Uses.perform trivial) fun check => ?_
  split
  · trivial
  · exact Uses.bind (Uses.perform rfl) fun _ => trivial

theorem uses_markTerminal (id : CheckId) (status : CheckStatus) (qualityResult : Option String)
    (result error : Option Json) :
    Uses Concludes (markTerminal id status qualityResult result error) := by
  have hreads : ∀ op, Reads op → Concludes op := fun op h => by
    cases op <;> first | exact h | exact h.elim
  refine Uses.bind ((straight_requireCheck id).uses.mono hreads) fun _ => ?_
  refine Uses.bind (Uses.perform trivial) fun check => ?_
  split
  · exact Uses.perform trivial
  · exact Uses.bind (Uses.perform trivial) fun _ => trivial

theorem straight_setSessionStatus (c : Collaborators) (sessionId : Option SessionId)
    (status : SessionStatus) : Straight SetsSession (setSessionStatus c sessionId status) := by
  unfold setSessionStatus
  split
  · refine Straight.bind (Straight.bind (Straight.perform trivial) fun found => ?_) fun _ => trivial
    cases found with
    | none => trivial
    | some session =>
        refine Straight.bind (Straight.perform trivial) fun _ => ?_
        exact Straight.bind (Straight.perform trivial) fun _ => trivial
  · trivial

theorem uses_recordCheckpoint (c : Collaborators) (id : CheckId) :
    Uses Checkpoints (recordCheckpoint c id) := by
  have hreads : ∀ op, Reads op → Checkpoints op := fun op h => by
    cases op <;> first | exact .inl h | exact h.elim
  have happends : ∀ op, Appends .checkpoint op → Checkpoints op := fun op h => by
    cases op <;> first | exact .inl h | exact h | exact h.elim
  have hpublishes : ∀ op, Publishes op → Checkpoints op := fun op h => by
    cases op <;> first | exact .inr (.inl h) | exact h.elim
  have hgraph : ∀ op, GraphOp op → Checkpoints op := fun op h => by
    cases op <;> first | exact .inr (.inr h) | exact h.elim
  refine Uses.bind ((uses_latestCheckpointId c).mono hgraph) fun found => ?_
  cases found with
  | none => trivial
  | some checkpointId =>
      refine Uses.bind (Uses.bind ((straight_requireCheck id).uses.mono hreads) fun _ =>
        Uses.perform rfl) fun _ => ?_
      refine Uses.bind ((straight_appendEvent _ _ _ _ _ _).uses.mono happends) fun _ => ?_
      refine Uses.bind (Uses.perform (.inr (.inr trivial))) fun _ => ?_
      exact (uses_publishEvent c _).mono hpublishes

/-- What the tasks that start no check await, apart from the notes on the phase of a run. -/
def Bystander : Op → Prop
  | .insertSession _ | .insertCheck _ => False
  | .note (.alreadyTerminal _ _) => True
  | .note _ => False
  | _ => True

/-- What the run of a check awaits. -/
def RunOp (id : CheckId) : Op → Prop
  | .note (.started id') | .note (.lastResort id') => id' = id
  | op => Bystander op

theorem bystander_of_reads {op : Op} (h : Reads op) : Bystander op := by
  cases op <;> first | exact h.elim | trivial

theorem bystander_of_begins {op : Op} (h : Begins op) : Bystander op := by
  cases op <;> first | exact h.elim | trivial

theorem bystander_of_graph {op : Op} (h : GraphOp op) : Bystander op := by
  cases op <;> first | exact h.elim | trivial

theorem bystander_of_publishes {op : Op} (h : Publishes op) : Bystander op := by
  cases op <;> first | exact h.elim | trivial

theorem bystander_of_appends {type : EventType} {op : Op} (h : Appends type op) :
    Bystander op := by
  cases op <;> first | exact h.elim | trivial

theorem bystander_of_setsSession {op : Op} (h : SetsSession op) : Bystander op := by
  cases op <;> first | exact h.elim | trivial

theorem bystander_of_checkpoints {op : Op} (h : Checkpoints op) : Bystander op := by
  cases op with
  | note n => simp [Checkpoints, Reads, Publishes, GraphOp] at h
  | insertSession | insertCheck => simp [Checkpoints, Reads, Publishes, GraphOp] at h
  | _ => trivial

theorem bystander_of_concludes {op : Op} (h : Concludes op) : Bystander op := by
  cases op with
  | note n => cases n <;> first | exact h.elim | trivial
  | _ => first | exact h.elim | trivial

theorem Bystander.runOp {id : CheckId} {op : Op} (h : Bystander op) : RunOp id op := by
  cases op with
  | note n => cases n <;> first | exact h.elim | trivial
  | _ => exact h

/-- What both ends of a run await, once they have looked at the check. -/
theorem uses_ending (c : Collaborators) (id : CheckId) (status : CheckStatus)
    (qualityResult : Option String) (result error : Option Json) (sessionId : Option SessionId)
    (sessionStatus : SessionStatus) (type : EventType) (message : Option String) (answer : Json) :
    Uses Bystander (do
      let _ ← markTerminal id status qualityResult result error
      setSessionStatus c sessionId sessionStatus
      let event ← appendEvent id type none none none message
      await .commit
      publishEvent c event
      pure answer : Program Json) := by
  refine Uses.bind ((uses_markTerminal _ _ _ _ _).mono fun _ => bystander_of_concludes) fun _ => ?_
  refine Uses.bind ((straight_setSessionStatus c _ _).uses.mono fun _ => bystander_of_setsSession)
    fun _ => ?_
  refine Uses.bind ((straight_appendEvent _ _ _ _ _ _).uses.mono fun _ => bystander_of_appends)
    fun _ => ?_
  refine Uses.bind (Uses.perform trivial) fun _ => ?_
  exact Uses.bind ((uses_publishEvent c _).mono fun _ => bystander_of_publishes) fun _ => trivial

theorem uses_markFailed (c : Collaborators) (id : CheckId) (e : Exn) :
    Uses Bystander (markFailed c id e) :=
  Uses.bind ((straight_getCheck id).uses.mono fun _ => bystander_of_reads) fun _ =>
    uses_ending c _ _ _ _ _ _ _ _ _ _

theorem uses_markSucceeded (c : Collaborators) (id : CheckId) (sessionId : Option SessionId)
    (finalState : Json) : Uses Bystander (markSucceeded c id sessionId finalState) :=
  uses_ending c _ _ _ _ _ _ _ _ _ _

theorem uses_run (c : Collaborators) (id : CheckId) :
    Uses (RunOp id) (runSopQualityCheckWithNewSession c id) := by
  have hrun : ∀ {α : Type} {p : Program α}, Uses Bystander p → Uses (RunOp id) p :=
    fun hp => hp.mono fun _ h => h.runOp
  refine Uses.ensuring (Uses.tryCatch ?_ fun e => ?_) (Uses.perform trivial)
  · refine Uses.bind (Uses.perform trivial) fun _ => ?_
    refine Uses.ensuring (Uses.tryCatch ?_ fun e => hrun (uses_markFailed _ id e))
      (Uses.perform trivial)
    refine Uses.bind (hrun ((uses_markRunning id).mono fun _ => bystander_of_begins))
      fun found => ?_
    cases found with
    | none => trivial
    | some check =>
        refine Uses.bind (hrun ((straight_appendEvent _ _ _ _ _ _).uses.mono fun _ =>
          bystander_of_appends)) fun _ => ?_
        refine Uses.bind (Uses.perform trivial) fun _ => Uses.bind (Uses.perform rfl) fun _ => ?_
        refine Uses.bind (hrun ((uses_publishEvent _ _).mono fun _ => bystander_of_publishes))
          fun _ => ?_
        refine Uses.bind (hrun ((uses_ainvoke _ _ _ _).mono fun _ => bystander_of_graph))
          fun _ => ?_
        exact Uses.bind (hrun ((uses_recordCheckpoint _ id).mono fun _ =>
          bystander_of_checkpoints)) fun _ => hrun (uses_markSucceeded _ id _ _)
  · exact Uses.bind (Uses.perform rfl) fun _ => hrun (uses_markFailed _ id e)

theorem uses_interruptEach (checks : List SopQualityCheck) :
    Uses Bystander (interruptEach checks) := by
  induction checks with
  | nil => trivial
  | cons check checks ih =>
      refine Uses.bind (Uses.perform trivial) fun _ => ?_
      refine Uses.bind ((straight_appendEvent _ _ _ _ _ _).uses.mono fun _ =>
        bystander_of_appends) fun _ => ?_
      exact Uses.bind ih fun _ => trivial

theorem uses_interruptActiveChecksOnStartup :
    Uses Bystander interruptActiveChecksOnStartup := by
  refine Uses.bind (Uses.perform trivial) fun checks => ?_
  refine Uses.bind (uses_interruptEach checks) fun _ => ?_
  exact Uses.bind (Uses.perform trivial) fun _ => trivial

theorem uses_startup : Uses Bystander interruptLeftoverSopQualityChecks :=
  Uses.ensuring (Uses.bind uses_interruptActiveChecksOnStartup fun _ => Uses.perform trivial)
    (Uses.perform trivial)

end Footprints

section Views

variable {t : TaskId} {op : Op} {choice : Choice} {w w' : World} {failed : Prop}

/-- The transaction goes on, and sees the same checks and events under the same locks. -/
structure Carries (t : TaskId) (w w' : World) : Prop where
  view : ∀ id, (checkAspect id).read (w'.view t) = (checkAspect id).read (w.view t)
  owner : ∀ k, w.store.owner k = some t → w'.store.owner k = some t
  committed : w'.store.committed = w.store.committed

theorem Carries.check (h : Carries t w w') (id : CheckId) :
    (w'.view t).check id = (w.view t).check id :=
  (Prod.mk.inj (h.view id)).1

theorem Carries.events (h : Carries t w w') (id : CheckId) :
    (w'.view t).eventsOf id = (w.view t).eventsOf id :=
  (Prod.mk.inj (h.view id)).2

theorem Quiet.writes {wr : Write} (hop : Quiet op) (hwr : Writes t w w' op wr) (id : CheckId) :
    .check id ∉ schema.rowsOf wr := by
  cases hwr <;> first | exact hop.elim | simp [schema]

theorem Quiet.carries {answer : Answer} {kept : Bool} {a : Reply op} (hop : Quiet op)
    (h : succeed t answer kept w op = some (a, w')) : Carries t w w' := by
  cases (succeed_outcome h).effect with
  | stay heq => exact ⟨fun id => by simp only [World.view, heq], fun k h => heq ▸ h, by rw [heq]⟩
  | lock _ _ heq =>
      have hlocks := Store.lock_eq_some heq
      refine ⟨fun id => ?_, fun k h => hlocks.keeps k t h, hlocks.committed⟩
      simp only [World.view, Store.view, hlocks.pending, hlocks.committed]
  | write _ hwr heq =>
      obtain ⟨mid, hlocks, hrecord⟩ := Store.write_eq_some heq
      refine ⟨fun id => ?_, fun k h => ?_, ?_⟩
      · rw [view_of_write heq]
        exact (checkAspect id).frame _ _ (hop.writes hwr id)
      · rw [hrecord, Store.record_owner]
        exact hlocks.keeps k t h
      · rw [hrecord, Store.record_committed, hlocks.committed]
  | commit _ _ => exact hop.elim
  | rollback hended _ _ _ =>
      rcases hended with h | rfl | rfl
      · exact h.elim
      · exact hop.elim
      · exact hop.elim

@[simp] theorem view_reset (invalid : Bool) : (w.reset t invalid).view t = w.store.committed := by
  simp [World.reset, World.view, Store.view, Store.rollback]

/-- A failed operation leaves the transaction as it was, or rolls it back. -/
theorem failed_view {e : Exn} (h : exec t op choice w = some (.error e, w')) :
    w' = w ∨ w' = w.reset t true := by
  cases choice with
  | fail error poisons =>
      obtain ⟨-, -, ⟨-, -, hw⟩ | ⟨-, hw⟩⟩ := exec_fail h
      · exact .inr hw
      · exact .inl hw
  | succeed answer kept =>
      obtain ⟨reply, hr, -⟩ := exec_succeed h
      cases hr

/-- No operation deletes a row. -/
theorem committed_grows {r : Except Exn (Reply op)}
    (hexec : exec t op choice w = some (r, w')) :
    Extends w.store.committed w'.store.committed := by
  rcases committed_of_effect (exec_outcome hexec).effect with heq | ⟨-, -, heq⟩
  · exact heq ▸ .refl _
  · exact heq ▸ extends_applyAll _ _

theorem exec_ok {a : Reply op} (h : exec t op choice w = some (.ok a, w')) :
    ∃ answer kept, choice = .succeed answer kept ∧ succeed t answer kept w op = some (a, w') := by
  cases choice with
  | fail error poisons =>
      obtain ⟨-, hr, -⟩ := exec_fail h
      cases hr
  | succeed answer kept =>
      obtain ⟨reply, hr, hsucceed⟩ := exec_succeed h
      cases hr
      exact ⟨answer, kept, rfl, hsucceed⟩

theorem Quiet.exec_carries {a : Reply op} (hop : Quiet op)
    (h : exec t op choice w = some (.ok a, w')) : Carries t w w' := by
  obtain ⟨answer, kept, -, hsucceed⟩ := exec_ok h
  exact hop.carries hsucceed

theorem loadChecks_keeps (rows : List SopQualityCheck) :
    (rows.foldl (fun w check => w.loadCheck t check) w).phase = w.phase ∧
      (rows.foldl (fun w check => w.loadCheck t check) w).invalid = w.invalid := by
  induction rows generalizing w with
  | nil => exact ⟨rfl, rfl⟩
  | cons row rows ih => exact ih

/-- Only notes change the phase of a run, and no success makes its session unusable. -/
theorem succeed_keeps {answer : Answer} {kept : Bool} {a : Reply op} (hop : ∀ n, op ≠ .note n)
    (h : succeed t answer kept w op = some (a, w')) :
    w'.phase = w.phase ∧ (w.invalid t = false → w'.invalid t = false) := by
  cases op with
  | note n => exact absurd rfl (hop n)
  | selectActive =>
      obtain ⟨-, rfl⟩ := Prod.mk.inj (Option.some.inj h)
      obtain ⟨hphase, hinvalid⟩ := loadChecks_keeps (t := t) (w := w)
        ((w.view t).activeChecks.map fun row => (w.heldCheck t kept row.id).getD row)
      exact ⟨hphase, fun h => by rw [hinvalid, h]⟩
  | rollback | close =>
      obtain ⟨-, rfl⟩ := Prod.mk.inj (Option.some.inj h)
      exact ⟨rfl, fun _ => by simp [World.reset]⟩
  | _ =>
      simp only [succeed] at h
      grind [Option.map_eq_some_iff, World.loadCheck, World.loadSession, World.withStore,
        World.write, World.lock]

/-- An update that sets the status is always sent. -/
theorem succeed_updateCheck {answer : Answer} {kept : Bool} {check reply : SopQualityCheck}
    {patch : CheckPatch} (hpatch : patch.status ≠ none)
    (h : succeed t answer kept w (.updateCheck check patch) = some (reply, w')) :
    w.store.write schema t (.updateCheck check.id (patch.net check)) = some w'.store := by
  simp only [succeed, hpatch, false_and, if_false] at h
  obtain ⟨w₁, hwrite, heq⟩ := Option.map_eq_some_iff.mp h
  obtain ⟨-, rfl⟩ := Prod.mk.inj heq
  obtain ⟨s, hs, rfl⟩ := write_eq_some hwrite
  exact hs

theorem reply_updateCheck {answer : Answer} {kept : Bool} {check reply : SopQualityCheck}
    {patch : CheckPatch} (h : succeed t answer kept w (.updateCheck check patch) = some (reply, w')) :
    reply = patch.apply check := by
  simp only [succeed] at h
  split at h
  · exact (Prod.mk.inj (Option.some.inj h)).1.symm
  · obtain ⟨w₁, -, heq⟩ := Option.map_eq_some_iff.mp h
    exact (Prod.mk.inj heq).1.symm

theorem updateCheck_mem {answer : Answer} {kept : Bool} {check reply : SopQualityCheck}
    {patch : CheckPatch} (h : succeed t answer kept w (.updateCheck check patch) = some (reply, w')) :
    reply ∈ w'.checks t := by
  simp only [succeed] at h
  split at h
  · obtain ⟨rfl, rfl⟩ := Prod.mk.inj (Option.some.inj h)
    exact loadCheck_mem _
  · obtain ⟨w₁, -, heq⟩ := Option.map_eq_some_iff.mp h
    obtain ⟨rfl, rfl⟩ := Prod.mk.inj heq
    exact loadCheck_mem _

theorem succeed_updateSession {answer : Answer} {kept : Bool} {session reply : Session}
    {status : SessionStatus}
    (h : succeed t answer kept w (.updateSession session status) = some (reply, w')) :
    w.store.write schema t (.updateSession session.id (SessionPatch.net (some status) session)) =
        some w'.store ∧
      ∀ copy ∈ w'.sessions t, copy = SessionPatch.apply (some status) session ∨
        copy ∈ w.sessions t ∧ copy.id ≠ session.id := by
  obtain ⟨w₁, hwrite, heq⟩ := Option.map_eq_some_iff.mp h
  obtain ⟨-, rfl⟩ := Prod.mk.inj heq
  obtain ⟨s, hs, rfl⟩ := write_eq_some hwrite
  refine ⟨hs, fun copy hcopy => ?_⟩
  simp only [World.loadSession, World.withStore, Function.update_self, List.mem_cons,
    List.mem_filter, decide_eq_true_eq] at hcopy
  exact hcopy

theorem succeed_insertSession {answer : Answer} {kept : Bool} {title : Option String}
    {reply : Session} (h : succeed t answer kept w (.insertSession title) = some (reply, w')) :
    reply.id = w.nextSession ∧ reply.status = .active ∧
      w.store.write schema t (.insertSession reply) = some w'.store := by
  simp only [succeed] at h
  split at h
  · split at h
    · obtain ⟨w₁, hwrite, heq⟩ := Option.map_eq_some_iff.mp h
      obtain ⟨rfl, rfl⟩ := Prod.mk.inj heq
      obtain ⟨s, hs, rfl⟩ := write_eq_some hwrite
      exact ⟨rfl, rfl, hs⟩
    · simp at h
  · simp at h

theorem succeed_insertCheck {answer : Answer} {kept : Bool} {values : NewCheck}
    {reply : SopQualityCheck}
    (h : succeed t answer kept w (.insertCheck values) = some (reply, w')) :
    w.store.write schema t (.insertCheck (values.toRow w.nextCheck)) = some w'.store := by
  simp only [succeed] at h
  split at h
  · obtain ⟨w₁, hwrite, heq⟩ := Option.map_eq_some_iff.mp h
    obtain ⟨-, rfl⟩ := Prod.mk.inj heq
    obtain ⟨s, hs, rfl⟩ := write_eq_some hwrite
    exact hs
  · simp at h

/-- Reads write nothing. -/
theorem Reads.writes_nothing {answer : Answer} {kept : Bool} {a : Reply op} (hop : Reads op)
    (h : succeed t answer kept w op = some (a, w')) :
    w'.store.pending t = w.store.pending t ∧ w'.store.committed = w.store.committed ∧
      ∀ k, w.store.owner k = some t → w'.store.owner k = some t := by
  cases (succeed_outcome h).effect with
  | stay heq => exact ⟨by rw [heq], by rw [heq], fun k h => heq ▸ h⟩
  | lock _ _ heq =>
      have hlocks := Store.lock_eq_some heq
      exact ⟨by rw [hlocks.pending], hlocks.committed, fun k h => hlocks.keeps k t h⟩
  | write _ hwr _ => cases hwr <;> exact hop.elim
  | commit _ _ => exact hop.elim
  | rollback hended _ _ _ =>
      rcases hended with h | rfl | rfl
      · exact h.elim
      · exact hop.elim
      · exact hop.elim

/-- The locks of a transaction last as long as its writes are open. -/
theorem keeps_own (h : Effect t w w' failed op) :
    w'.store.pending t = [] ∨
      ∀ k, w.store.owner k = some t → w'.store.owner k = some t := by
  cases h with
  | stay heq => exact .inr fun k h => heq ▸ h
  | lock _ _ heq => exact .inr fun k h => (Store.lock_eq_some heq).keeps k t h
  | write _ _ heq =>
      obtain ⟨mid, hlocks, hrecord⟩ := Store.write_eq_some heq
      refine .inr fun k h => ?_
      rw [hrecord, Store.record_owner]
      exact hlocks.keeps k t h
  | commit _ heq => exact .inl (by rw [heq]; simp [Store.commit])
  | rollback _ heq _ _ => exact .inl (by rw [heq]; simp [Store.rollback])

/-- The task sees the status that it has set. -/
theorem status_updateCheck {answer : Answer} {kept : Bool} {check reply : SopQualityCheck}
    {patch : CheckPatch} {s : CheckStatus} (hpatch : patch.status = some s) (hne : s ≠ check.status)
    (hknown : Known (w.view t) check)
    (h : succeed t answer kept w (.updateCheck check patch) = some (reply, w')) :
    ∃ row, (w'.view t).check check.id = some row ∧ row.status = s := by
  obtain ⟨row, hrow, -⟩ := hknown
  have hnet : (patch.net check).status = some s := by
    simp [CheckPatch.net, hpatch, Option.filter_some, hne]
  refine ⟨(patch.net check).apply row, ?_, by simp [CheckPatch.apply, hnet]⟩
  simp [view_of_write (succeed_updateCheck (by simp [hpatch]) h), check_updateCheck, hrow]

theorem succeed_insertEvent {answer : Answer} {kept : Bool} {event reply : SopQualityEvent}
    (h : succeed t answer kept w (.insertEvent event) = some (reply, w')) :
    w.store.write schema t (.insertEvent event) = some w'.store := by
  simp only [succeed] at h
  split at h
  · obtain ⟨w₁, hwrite, heq⟩ := Option.map_eq_some_iff.mp h
    obtain ⟨-, rfl⟩ := Prod.mk.inj heq
    obtain ⟨s, hs, rfl⟩ := write_eq_some hwrite
    exact hs
  · simp at h

end Views

section Known

variable {allowed : TaskId → Op → Choice → World → Prop} {P : Protocol exec allowed} {t : TaskId}
  {id : CheckId}

/-- The protocol is one on top of the discipline, and asks nothing of the reads of a run. -/
structure Above (P : Protocol exec allowed) (t : TaskId) : Prop where
  inv : ∀ {w}, P.inv w → Coherent w
  rely : ∀ {w w'}, P.rely t w w' → Rely t w w'
  pre : ∀ {op w}, Begins op → P.pre t op w

/-- Facts about the tables that stay while rows are added and changed. -/
def Growing (F : Db → Prop) : Prop :=
  ∀ db db', Extends db db' → F db → F db'

theorem Growing.stable {F : Db → Prop} (hF : Growing F) (hP : Above P t) :
    Stable P t fun w => F (w.view t) :=
  fun _ _ hinv h hrely _ => hF _ _ ((hP.rely hrely).extends_view (hP.inv hinv).guarded) h

theorem growing_known (check : SopQualityCheck) (id : CheckId) :
    Growing fun db => check.id = id ∧ Known db check :=
  fun _ _ hext h => ⟨h.1, Known.extends h.2 hext⟩

theorem Above.anything {α : Type} (hP : Above P t) {p : Program α} (hp : Uses Begins p) :
    Triple P t (fun _ => True) p (fun _ _ => True) fun _ _ => True :=
  Triple.of_uses (S := Begins) (Stable.const True) (fun _ _ hop _ _ => hP.pre hop)
    (fun _ _ _ _ _ _ _ _ _ _ => trivial) hp

/-- `mark_running` gives the check that it was called with. -/
theorem Above.markRunning (hP : Above P t) :
    Triple P t (fun _ => True) (markRunning id)
      (fun found w => ∀ check, found = some check → check.id = id ∧ Known (w.view t) check)
      fun _ _ => True := by
  have hreads : ∀ op, Reads op → Begins op := fun op h => by
    cases op <;> first | exact h | exact h.elim
  have hknown : ∀ found : Option SopQualityCheck, Stable P t fun w =>
      ∀ check, found = some check → check.id = id ∧ Known (w.view t) check := by
    refine fun found => Growing.stable (F := fun db =>
      ∀ check, found = some check → check.id = id ∧ Known db check) (fun _ _ hext h => ?_) hP
    exact fun check hcheck => growing_known check id _ _ hext (h check hcheck)
  refine Triple.bind (hP.anything ((straight_requireCheck id).uses.mono hreads)) fun _ => ?_
  refine Triple.bind (hP.anything ((straight_lockCheck id).uses.mono hreads)) fun _ => ?_
  refine Triple.bind (B := fun check _ => check.id = id) ?_ fun check => ?_
  · refine Triple.perform (Stable.const True) (fun _ => Stable.const _)
      (fun _ => Stable.const True) (fun _ _ _ => hP.pre trivial) ?_
    intro w choice r w' _ _ _ _ hexec
    cases r with
    | error e => trivial
    | ok check =>
        obtain ⟨answer, kept, rfl, hsucceed⟩ := exec_ok hexec
        exact Db.check_id (reply_refreshCheck hsucceed).1
  · split
    · exact Triple.done (hknown none) fun _ _ _ => by simp
    · refine Triple.bind (B := fun reply w => ∀ check, some reply = some check →
        check.id = id ∧ Known (w.view t) check) ?_
        fun reply => Triple.done (hknown (some reply)) fun _ _ h => h
      refine Triple.perform (Stable.const _) (fun reply => hknown (some reply))
        (fun _ => Stable.const True) (fun _ _ _ => hP.pre rfl) ?_
      intro w choice r w' hinv hid hinv' hallowed hexec
      cases r with
      | error e => trivial
      | ok reply =>
          obtain ⟨answer, kept, rfl, hsucceed⟩ := exec_ok hexec
          intro check' heq
          obtain rfl := Option.some.inj heq
          refine ⟨?_, (hP.inv hinv').checks t reply (updateCheck_mem hsucceed)⟩
          rw [reply_updateCheck hsucceed]
          exact hid

end Known

/-- The task has not awaited anything. -/
structure Unbegun (t : TaskId) (w : World) : Prop where
  pending : w.store.pending t = []
  owner : ∀ k, w.store.owner k ≠ some t
  checks : w.checks t = []
  sessions : w.sessions t = []
  invalid : w.invalid t = false
  phase : w.phase t = .fresh

theorem Idle.unbegun {w : World} (h : Idle w) (t : TaskId) : Unbegun t w :=
  ⟨h.pending t, fun k => by simp [h.owner k], h.checks t, h.sessions t, h.invalid t, h.phase t⟩

theorem Unbegun.rely {t : TaskId} {w w' : World} (h : Unbegun t w) (hrely : Rely t w w') :
    Unbegun t w' :=
  ⟨hrely.pending.trans h.pending, fun k howner => h.owner k ((hrely.owner k).mp howner),
    hrely.checks.trans h.checks, hrely.sessions.trans h.sessions, hrely.invalid.trans h.invalid,
    hrely.phase.trans h.phase⟩

/-- The startup query of a fresh session gives the rows as they are. -/
theorem replies_active {t : TaskId} {answer : Answer} {kept : Bool} {w w' : World}
    {checks : List SopQualityCheck} (hchecks : w.checks t = [])
    (h : succeed t answer kept w .selectActive = some (checks, w')) :
    checks = (w.view t).activeChecks := by
  rw [← (Prod.mk.inj (Option.some.inj h)).1]
  refine (List.map_congr_left fun row _ => ?_).trans (List.map_id _)
  simp [World.heldCheck, hchecks]

theorem Unbegun.view {t : TaskId} {w : World} (h : Unbegun t w) :
    w.view t = w.store.committed := by
  simp [World.view, Store.view, h.pending]

end ChangeQuality.SopTransactions
