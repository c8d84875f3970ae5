import ChangeQuality.SopTransactions

/-!
The columns of a check that hold JSON. Whatever the tasks do, the snapshot of a check is the empty
object, and its error is an object where it has one.
-/

namespace ChangeQuality.SopColumns

open ChangeQuality.Values
open ChangeQuality.SopTables
open ChangeQuality.SopRepository
open ChangeQuality.SopRunner
open ChangeQuality.SopSystem
open ChangeQuality.SopEffects
open ChangeQuality.SopInvariant
open ChangeQuality.SopDiscipline
open ChangeQuality.SopTransactions
open ChangeQuality.ReadCommitted
open ChangeQuality.Coroutine
open ChangeQuality.Interference

/-- The columns of a row that are objects: the snapshot is the empty one. -/
structure Typed (row : SopQualityCheck) : Prop where
  snapshot : row.sopSnapshot = .obj []
  error : ∀ error, row.error = some error → ∃ entries, error = .obj entries

/-- An update that writes an object where it writes an error. -/
def TypedPatch (patch : CheckPatch) : Prop :=
  ∀ error, patch.error = some (some error) → ∃ entries, error = .obj entries

def TypedWrite : Write → Prop
  | .insertCheck row => Typed row
  | .updateCheck _ patch => TypedPatch patch
  | _ => True

def TypedOp : Op → Prop
  | .insertCheck values => values.sopSnapshot = .obj []
  | .updateCheck _ patch => TypedPatch patch
  | _ => True

def TypedTables (db : Db) : Prop :=
  ∀ row ∈ db.checks, Typed row

theorem TypedPatch.apply {patch : CheckPatch} {row : SopQualityCheck} (hpatch : TypedPatch patch)
    (h : Typed row) : Typed (patch.apply row) := by
  refine ⟨h.snapshot, fun error herror => ?_⟩
  cases hset : patch.error with
  | none => exact h.error error (by simpa [CheckPatch.apply, hset] using herror)
  | some value =>
      obtain rfl : value = some error := by simpa [CheckPatch.apply, hset] using herror
      exact hpatch error hset

theorem TypedTables.apply {wr : Write} {db : Db} (hwr : TypedWrite wr) (h : TypedTables db) :
    TypedTables (schema.apply wr db) := by
  cases wr with
  | insertCheck row =>
      intro other hother
      rcases List.mem_append.mp hother with hother | hother
      · exact h other hother
      · exact List.mem_singleton.mp hother ▸ hwr
  | updateCheck id patch =>
      intro other hother
      obtain ⟨row, hrow, rfl⟩ := List.mem_map.mp hother
      split
      · exact TypedPatch.apply hwr (h row hrow)
      · exact h row hrow
  | _ => exact h

/-- The committed rows are typed, and so is what the transactions have written. -/
structure TypedWorld (w : World) : Prop where
  committed : TypedTables w.store.committed
  pending : ∀ t, ∀ wr ∈ w.store.pending t, TypedWrite wr

theorem TypedWorld.view {w : World} (h : TypedWorld w) (t : TaskId) : TypedTables (w.view t) :=
  applyAll_keeps (φ := TypedTables) (fun wr hwr _ hdb => hdb.apply (h.pending t wr hwr)) h.committed

theorem typed_of_writes {t : TaskId} {w w' : World} {op : Op} {wr : Write} (hop : TypedOp op)
    (hwr : Writes t w w' op wr) : TypedWrite wr := by
  cases hwr with
  | insertCheck => exact ⟨hop, fun error herror => by cases herror⟩
  | @updateCheck check patch =>
      intro error herror
      exact hop error (Option.filter_eq_some_iff.mp herror).1
  | _ => trivial

theorem TypedWorld.step {t : TaskId} {w w' : World} {op : Op} {failed : Prop} (h : TypedWorld w)
    (hop : TypedOp op) (heffect : Effect t w w' failed op) : TypedWorld w' := by
  constructor
  · rcases committed_of_effect heffect with hsame | ⟨-, -, hview⟩
    · exact hsame ▸ h.committed
    · exact hview ▸ h.view t
  · intro t' wr hwr
    by_cases ht : t' = t
    · subst ht
      rcases pending_of_effect heffect with ⟨hsame, -⟩ | hnone | ⟨wr', -, hwrites, -, hadded⟩
      · exact h.pending t' wr (hsame ▸ hwr)
      · rw [hnone] at hwr
        cases hwr
      · rw [hadded] at hwr
        rcases List.mem_append.mp hwr with hwr | hwr
        · exact h.pending t' wr hwr
        · exact List.mem_singleton.mp hwr ▸ typed_of_writes hop hwrites
    · exact h.pending t' wr (heffect.change.pending_ne ht ▸ hwr)

/-- Tasks that write typed rows keep the tables typed. -/
def typedProtocol : Protocol exec unrestricted where
  inv := TypedWorld
  rely _ _ _ := True
  pre _ op _ := TypedOp op
  rely_refl _ _ := trivial
  rely_trans _ _ := trivial
  sound hinv hpre _ hexec := ⟨hinv.step hpre (exec_outcome hexec).effect, fun _ _ => trivial⟩

section Programs

variable (c : Collaborators) (id : CheckId)

theorem typed_of_reads {op : Op} (h : Reads op) : TypedOp op := by
  cases op <;> first | exact h.elim | trivial

theorem typed_of_graph {op : Op} (h : GraphOp op) : TypedOp op := by
  cases op <;> first | exact h.elim | trivial

theorem typed_of_publishes {op : Op} (h : Publishes op) : TypedOp op := by
  cases op <;> first | exact h.elim | trivial

theorem typed_of_appends {type : EventType} {op : Op} (h : Appends type op) : TypedOp op := by
  cases op <;> first | exact h.elim | trivial

theorem typed_of_setsSession {op : Op} (h : SetsSession op) : TypedOp op := by
  cases op <;> first | exact h.elim | trivial

theorem typed_requireCheck : Uses TypedOp (requireCheck id) :=
  (straight_requireCheck id).uses.mono fun _ => typed_of_reads

theorem typed_appendEvent (type : EventType) (node checkpointId taskId message : Option String) :
    Uses TypedOp (appendEvent id type node checkpointId taskId message) :=
  (straight_appendEvent _ _ _ _ _ _).uses.mono fun _ => typed_of_appends

theorem typed_publishEvent (event : SopQualityEvent) : Uses TypedOp (publishEvent c event) :=
  (uses_publishEvent _ _).mono fun _ => typed_of_publishes

theorem typed_markRunning : Uses TypedOp (markRunning id) := by
  refine Uses.bind (typed_requireCheck id) fun _ => ?_
  refine Uses.bind ((straight_lockCheck id).uses.mono fun _ => typed_of_reads) fun _ => ?_
  refine Uses.bind (Uses.perform trivial) fun check => ?_
  split
  · trivial
  · exact Uses.bind (Uses.perform fun error herror => by cases herror) fun _ => trivial

theorem typed_markTerminal (status : CheckStatus) (qualityResult : Option String)
    (result error : Option Json) (herror : ∀ e, error = some e → ∃ entries, e = .obj entries) :
    Uses TypedOp (markTerminal id status qualityResult result error) := by
  refine Uses.bind (typed_requireCheck id) fun _ => ?_
  refine Uses.bind (Uses.perform trivial) fun check => ?_
  split
  · exact Uses.perform fun e he => herror e (Option.some.inj he)
  · exact Uses.bind (Uses.perform trivial) fun _ => trivial

theorem typed_ending (sessionId : Option SessionId) (status : SessionStatus) (type : EventType)
    (message : Option String) (answer : Json) : Uses TypedOp (do
      setSessionStatus c sessionId status
      let event ← appendEvent id type none none none message
      await .commit
      publishEvent c event
      pure answer : Program Json) := by
  refine Uses.bind ((straight_setSessionStatus c _ _).uses.mono fun _ => typed_of_setsSession)
    fun _ => ?_
  refine Uses.bind (typed_appendEvent _ _ _ _ _ _) fun _ => ?_
  exact Uses.bind (Uses.perform trivial) fun _ =>
    Uses.bind (typed_publishEvent c _) fun _ => trivial

theorem typed_markFailed (e : Exn) : Uses TypedOp (markFailed c id e) := by
  refine Uses.bind ((straight_getCheck id).uses.mono fun _ => typed_of_reads) fun check => ?_
  refine Uses.bind (typed_markTerminal _ _ _ _ _ fun error herror => ?_) fun _ =>
    typed_ending c id _ _ _ _ _
  exact ⟨_, (Option.some.inj herror).symm⟩

theorem typed_recordCheckpoint : Uses TypedOp (recordCheckpoint c id) := by
  refine Uses.bind ((uses_latestCheckpointId c).mono fun _ => typed_of_graph) fun found => ?_
  cases found with
  | none => trivial
  | some checkpointId =>
      refine Uses.bind (Uses.bind (typed_requireCheck id) fun _ =>
        Uses.perform fun error herror => by cases herror) fun _ => ?_
      refine Uses.bind (typed_appendEvent _ _ _ _ _ _) fun _ => ?_
      exact Uses.bind (Uses.perform trivial) fun _ => typed_publishEvent c _

theorem typed_tryRun : Uses TypedOp (tryRun c id) := by
  refine Uses.bind (typed_markRunning id) fun found => ?_
  cases found with
  | none => trivial
  | some check =>
      refine Uses.bind (typed_appendEvent _ _ _ _ _ _) fun _ => ?_
      refine Uses.bind (Uses.perform trivial) fun _ => ?_
      refine Uses.bind (Uses.perform trivial) fun _ => ?_
      refine Uses.bind (typed_publishEvent c _) fun _ => ?_
      refine Uses.bind ((uses_ainvoke c _ _ _).mono fun _ => typed_of_graph) fun final => ?_
      refine Uses.bind (typed_recordCheckpoint c id) fun _ => ?_
      exact Uses.bind (typed_markTerminal _ _ _ _ _ fun error herror => by cases herror) fun _ =>
        typed_ending c id _ _ _ _ _

theorem typed_run : Uses TypedOp (runSopQualityCheckWithNewSession c id) := by
  refine Uses.ensuring (Uses.tryCatch ?_ fun e => ?_) (Uses.perform trivial)
  · refine Uses.bind (Uses.perform trivial) fun _ => Uses.ensuring ?_ (Uses.perform trivial)
    exact Uses.tryCatch (typed_tryRun _ id) fun e => typed_markFailed _ id e
  · exact Uses.bind (Uses.perform trivial) fun _ => typed_markFailed _ id e

theorem typed_startup : Uses TypedOp interruptLeftoverSopQualityChecks := by
  have heach : ∀ checks, Uses TypedOp (interruptEach checks) := by
    intro checks
    induction checks with
    | nil => trivial
    | cons check checks ih =>
        refine Uses.bind (Uses.perform fun error herror => by cases herror) fun _ => ?_
        exact Uses.bind (typed_appendEvent _ _ _ _ _ _) fun _ => Uses.bind ih fun _ => trivial
  refine Uses.ensuring (Uses.bind (Uses.bind (Uses.perform trivial) fun checks => ?_) fun _ =>
    Uses.perform trivial) (Uses.perform trivial)
  exact Uses.bind (heach checks) fun _ => Uses.bind (Uses.perform trivial) fun _ => trivial

theorem typed_createCheck {values : NewCheck} (hvalues : values.sopSnapshot = .obj []) :
    Uses TypedOp (createCheck values) := by
  have hactive : Uses TypedOp (getActiveCheck values.sopId values.envKey) :=
    (straight_getActiveCheck _ _).uses.mono fun _ => typed_of_reads
  refine Uses.bind hactive fun active => ?_
  cases active with
  | some active => trivial
  | none =>
      refine Uses.tryCatch (Uses.perform hvalues) fun e => ?_
      cases e with
      | integrityError message =>
          refine Uses.bind (Uses.perform trivial) fun _ => Uses.bind hactive fun active => ?_
          cases active <;> trivial
      | _ => trivial

theorem typed_startCheck (environments : List String) (sopId envKey : String)
    (createdBy : Option String) :
    Uses TypedOp (startCheck environments sopId envKey createdBy) := by
  unfold startCheck
  split
  · refine Uses.bind ((straight_getActiveCheck _ _).uses.mono fun _ => typed_of_reads)
      fun active => ?_
    cases active with
    | some active => trivial
    | none =>
        refine Uses.bind (Uses.perform trivial) fun session => ?_
        refine Uses.bind (Uses.tryCatch (Uses.bind (typed_createCheck rfl) fun _ => trivial)
          fun e => ?_) fun created => ?_
        · cases e <;> trivial
        · cases created with
          | error active =>
              exact Uses.bind ((straight_getCheck _).uses.mono fun _ => typed_of_reads)
                fun _ => trivial
          | ok check =>
              refine Uses.bind (typed_appendEvent _ _ _ _ _ _) fun _ => ?_
              refine Uses.bind (Uses.perform trivial) fun _ => ?_
              exact Uses.bind (Uses.perform trivial) fun _ => trivial
  · trivial

theorem typed_task {p : Program Unit} (hp : Task c p) : Uses TypedOp p := by
  cases hp with
  | run id =>
      exact Uses.bind (Uses.perform trivial) fun _ => Uses.bind (typed_run c id) fun _ => trivial
  | startup => exact typed_startup
  | start environments sopId envKey createdBy =>
      exact Uses.bind (Uses.ensuring (typed_startCheck _ _ _ _) (Uses.perform trivial))
        fun _ => trivial

end Programs

section Runs

variable {c : Collaborators} {c' : Config}

theorem typed_steps {w : World} (hidle : Idle w) (htyped : TypedTables w.store.committed)
    (hrun : Steps exec (Task c) unrestricted (.idle w) c') : TypedWorld c'.shared := by
  have hbegin : Invariant typedProtocol (fun _ _ => True) (fun _ _ _ => True)
      (Config.idle w : Config) :=
    .idle ⟨htyped, fun t wr hwr => by simp [hidle.pending t] at hwr⟩ fun _ => trivial
  refine (hbegin.steps (fun _ => Stable.const True) (fun t p hp w hinv _ => ?_) hrun).shared
  refine Safe.mono (fun _ _ _ _ => trivial) (Triple.of_uses (A := fun _ => True)
    (Stable.const True) (fun op w hop _ _ => hop) (fun _ _ _ _ _ _ _ _ _ _ => trivial)
    (typed_task c hp) w hinv trivial)

end Runs

theorem typed_oneCheck : TypedTables (oneCheck .pending).store.committed := by
  intro row hrow
  obtain rfl := List.mem_singleton.mp hrow
  exact ⟨rfl, fun error herror => by cases herror⟩

end ChangeQuality.SopColumns
