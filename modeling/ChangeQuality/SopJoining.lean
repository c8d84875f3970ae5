import Mathlib.Data.Fintype.EquivFin
import ChangeQuality.SequencedLog
import ChangeQuality.SopCreation

/-!
Every call of `start_check` creates the active check of its subject or joins it, as long as a check
that was in the way is still active when the call looks for it.
-/

namespace ChangeQuality.SopJoining

open ChangeQuality.Values
open ChangeQuality.SopTables
open ChangeQuality.SopRepository
open ChangeQuality.SopRunner
open ChangeQuality.SopSystem
open ChangeQuality.SopEffects
open ChangeQuality.SopInvariant
open ChangeQuality.SopDiscipline
open ChangeQuality.SopTransactions
open ChangeQuality.SopOutcomes
open ChangeQuality.SopRunners (uses_call)
open ChangeQuality.SopCreation
open ChangeQuality.Histories
open ChangeQuality.ReadCommitted
open ChangeQuality.Coroutine
open ChangeQuality.Interference

section Enabled

variable {t : TaskId} {op : Op} {w : World}

theorem enabled_of_succeed (answer : Answer) (kept : Bool) (hvalid : w.invalid t = false)
    (h : (succeed t answer kept w op).isSome) : Enabled t op w := by
  obtain ⟨out, hout⟩ := Option.isSome_iff_exists.mp h
  exact ⟨.succeed answer kept, (.ok out.1, out.2), rfl, by simp [exec, hvalid, hout]⟩

/-- The reads that wait for no lock. -/
def Looks : Op → Prop
  | .getCheck _ | .latestSequence _ | .activeCheck _ _ => True
  | _ => False

theorem Looks.reads (hop : Looks op) : Reads op := by
  cases op <;> first | exact hop.elim | trivial

theorem enabled_looks (hop : Looks op) (hvalid : w.invalid t = false) : Enabled t op w := by
  refine enabled_of_succeed .nothing true hvalid ?_
  cases op <;> first | exact hop.elim | (simp only [succeed]; grind)

theorem write_enabled {wr : Write}
    (hfree : ∀ k ∈ schema.rowsOf wr, w.store.owner k = none ∨ w.store.owner k = some t) :
    ∃ w', w.write t wr = some w' := by
  obtain ⟨store, hstore⟩ := Option.isSome_iff_exists.mp (Store.write_isSome _ hfree)
  exact ⟨w.withStore store, by rw [World.write, hstore, Option.map_some]⟩

/-- Some thread has no session yet. -/
theorem exists_thread (sessions : List Session) :
    ∃ threadId, sessions.all fun other => other.threadId ≠ threadId := by
  have hinjective : Function.Injective fun n : Nat => String.ofList (List.replicate n 'a') := by
    intro m n h
    simpa using congrArg String.length h
  have := Infinite.of_injective _ hinjective
  obtain ⟨threadId, hthread⟩ := Infinite.exists_notMem_finset (sessions.map (·.threadId)).toFinset
  refine ⟨threadId, List.all_eq_true.mpr fun other hother => ?_⟩
  have hne : other.threadId ≠ threadId := fun heq =>
    hthread (List.mem_toFinset.mpr (List.mem_map.mpr ⟨other, hother, heq⟩))
  simpa using hne

/-- The number of a new row is not locked. -/
theorem session_unlocked (hcoherent : Coherent w) :
    w.store.owner (.session w.nextSession) = none :=
  Option.eq_none_iff_forall_ne_some.mpr fun t howner =>
    Nat.lt_irrefl _ (hcoherent.sessionLocks _ t howner)

theorem check_unlocked (hcoherent : Coherent w) : w.store.owner (.check w.nextCheck) = none :=
  Option.eq_none_iff_forall_ne_some.mpr fun t howner =>
    Nat.lt_irrefl _ (hcoherent.checkLocks _ t howner)

theorem enabled_insertSession (hcoherent : Coherent w) (hvalid : w.invalid t = false)
    (title : Option String) : Enabled t (.insertSession title) w := by
  obtain ⟨threadId, hthread⟩ := exists_thread (w.view t).sessions
  obtain ⟨w', hw'⟩ : ∃ w', w.write t (.insertSession
      { id := w.nextSession, threadId, status := .active, title }) = some w' :=
    write_enabled <| by simpa [schema] using .inl (session_unlocked hcoherent)
  refine enabled_of_succeed (.text threadId) true hvalid ?_
  simp only [succeed, hthread, if_true, hw', Option.map_some, Option.isSome_some]

/-- A check that conflicts with none can be inserted, or waits for another one to be. -/
theorem enabled_insertCheck {values : NewCheck} (hcoherent : Coherent w)
    (hvalid : w.invalid t = false)
    (hchecks : (w.view t).activeCheck values.sopId values.envKey =
      w.store.committed.activeCheck values.sopId values.envKey)
    (hsession : ∀ id, values.sessionId = some id → Present (w.view t) (.session id)) :
    Enabled t (.insertCheck values) w ∨ Waits t (.insertCheck values) w := by
  by_cases hactive : (w.store.committed.activeCheck values.sopId values.envKey).isSome
  · exact .inl ⟨.fail (.integrityError "") true, (.error (.integrityError ""), w.reset t true),
      by simp [healthy, conflicts, hactive], rfl⟩
  by_cases howner : ∃ t', t' ≠ t ∧
      w.store.owner (.subject values.sopId values.envKey) = some t'
  · obtain ⟨t', hne, howner⟩ := howner
    exact .inr ⟨values, t', rfl, hne, howner⟩
  have hfree : w.store.owner (.subject values.sopId values.envKey) = none ∨
      w.store.owner (.subject values.sopId values.envKey) = some t := by
    cases hsubject : w.store.owner (.subject values.sopId values.envKey) with
    | none => exact .inl rfl
    | some t' => exact .inr (congrArg some (not_not.mp fun hne => howner ⟨t', hne, hsubject⟩))
  obtain ⟨w', hw'⟩ : ∃ w', w.write t (.insertCheck (values.toRow w.nextCheck)) = some w' :=
    write_enabled <| by
      simpa [schema, NewCheck.toRow] using ⟨.inl (check_unlocked hcoherent), hfree⟩
  have hvalues : ((w.view t).activeCheck values.sopId values.envKey).isNone ∧
      values.sessionId.all fun sessionId => ((w.view t).session sessionId).isSome := by
    refine ⟨by simpa [hchecks] using hactive, ?_⟩
    cases hid : values.sessionId with
    | none => rfl
    | some id => exact hsession id hid
  refine .inl (enabled_of_succeed .nothing true hvalid ?_)
  simp only [succeed, if_pos hvalues, hw', Option.map_some, Option.isSome_some]

theorem enabled_lockCheck {id : CheckId} (hvalid : w.invalid t = false)
    (howner : w.store.owner (.check id) = some t) : Enabled t (.lockCheck id) w := by
  have hlock : (w.lock t (.check id)).isSome := by
    simp [World.lock, Store.lock, howner]
  refine enabled_of_succeed .nothing true hvalid ?_
  simp only [succeed]
  split
  · rwa [Option.isSome_map]
  · rfl

/-- The next event of a check that the task has locked can be inserted. -/
theorem enabled_insertEvent {event : SopQualityEvent} (hvalid : w.invalid t = false)
    (howner : w.store.owner (.check event.checkId) = some t)
    (hcheck : Present (w.view t) (.check event.checkId))
    (hsequence : (w.view t).latestSequence event.checkId < event.sequence) :
    Enabled t (.insertEvent event) w := by
  obtain ⟨w', hw'⟩ : ∃ w', w.write t (.insertEvent event) = some w' :=
    write_enabled <| by simpa [schema] using .inr howner
  have hvalues : ((w.view t).check event.checkId).isSome ∧
      ((w.view t).eventsOf event.checkId).all fun other => other.sequence ≠ event.sequence := by
    refine ⟨hcheck, List.all_eq_true.mpr fun other hother => ?_⟩
    have hlt := (SequencedLog.foldl_max_lt.mp hsequence).2 _
      (List.mem_map.mpr ⟨other, hother, rfl⟩)
    simpa using hlt.ne
  refine enabled_of_succeed .nothing true hvalid ?_
  simp only [succeed, if_pos hvalues, hw', Option.map_some, Option.isSome_some]

end Enabled

/-- What the history tells of a call that goes on: the checks that it has inserted, and that it has
not answered. -/
structure Caller (t : TaskId) (sopId envKey : String) (ids : List CheckId) (s : Recorded) :
    Prop where
  called : .called t sopId envKey ∈ s.2
  unanswered : ∀ id created, .answered t id created ∉ s.2
  inserted : ∀ id, .inserted t id ∈ s.2 ↔ id ∈ ids

/-- A call whose transaction has made these writes. -/
structure Stage (t : TaskId) (sopId envKey : String) (ids : List CheckId) (writes : List Write)
    (s : Recorded) : Prop extends Caller t sopId envKey ids s where
  valid : s.1.invalid t = false
  pending : s.1.store.pending t = writes

/-- A call that knows its answer. -/
structure Decided (t : TaskId) (sopId envKey : String) (id : CheckId) (created : Bool)
    (writes : List Write) (s : Recorded) : Prop
    extends Stage t sopId envKey (if created then [id] else []) writes s where
  joined : Joined t sopId envKey id s.2
  present : created = true → Present s.1.store.committed (.check id)

/-- A call that has inserted its check and not yet committed it. -/
structure Creating (t : TaskId) (sopId envKey : String) (session : Session)
    (row : SopQualityCheck) (later : List Write) (s : Recorded) : Prop
    extends Stage t sopId envKey [row.id] ([.insertSession session, .insertCheck row] ++ later) s
    where
  seen : (s.1.view t).check row.id = some row

/-- A task that has not begun. -/
structure Fresh (t : TaskId) (s : Recorded) : Prop where
  silent : ∀ entry ∈ s.2, Entry.task entry ≠ t
  pending : s.1.store.pending t = []
  valid : s.1.invalid t = false

/-- A task that is no call. -/
structure Aside (t : TaskId) (s : Recorded) : Prop where
  uncalled : ∀ sopId envKey, .called t sopId envKey ∉ s.2
  uninserted : ∀ id, .inserted t id ∉ s.2
  sessions : ∀ session, .insertSession session ∉ s.1.store.pending t
  checks : ∀ row, .insertCheck row ∉ s.1.store.pending t

/-- How a task has ended: a call has returned, and reported what it has inserted. -/
structure Finished (t : TaskId) (r : Except Exn Unit) (s : Recorded) : Prop where
  normal : ∀ sopId envKey, .called t sopId envKey ∈ s.2 →
    r = .ok () ∧ ∃ id created, .answered t id created ∈ s.2
  reported : ∀ id, .inserted t id ∈ s.2 → .answered t id true ∈ s.2
  checks : ∀ row, .insertCheck row ∉ s.1.store.pending t

section Stability

variable {w₀ : World} {t : TaskId} {sopId envKey : String} {ids : List CheckId}
  {writes : List Write} {id : CheckId} {created : Bool} {s s' : Recorded}

theorem rely_contention (h : (contention w₀).rely t s s') : Rely t s.1 s'.1 ∧ Heard t s s' :=
  h

theorem stable_caller : Stable (contention w₀) t (Caller t sopId envKey ids) := by
  rintro s s' - h ⟨-, hheard⟩ -
  exact ⟨(hheard.own _ rfl).mpr h.called,
    fun id created => (hheard.own _ rfl).not.mpr (h.unanswered id created),
    fun id => (hheard.own _ rfl).trans (h.inserted id)⟩

theorem stable_stage : Stable (contention w₀) t (Stage t sopId envKey ids writes) := by
  rintro s s' hinv h hrely hinv'
  have hcaller := stable_caller s s' hinv h.toCaller hrely hinv'
  exact ⟨hcaller, (rely_contention hrely).1.invalid.trans h.valid,
    (rely_contention hrely).1.pending.trans h.pending⟩

theorem stable_joined :
    Stable (contention w₀) t fun s => Joined t sopId envKey id s.2 :=
  fun _ _ _ h hrely _ => h.mono (rely_contention hrely).2.kept

theorem stable_decided : Stable (contention w₀) t (Decided t sopId envKey id created writes) := by
  rintro s s' hinv h hrely hinv'
  exact ⟨stable_stage s s' hinv h.toStage hrely hinv', stable_joined s s' hinv h.joined hrely hinv',
    fun hc => Present.extends (h.present hc) (rely_contention hrely).1.grown⟩

theorem stable_finished {r : Except Exn Unit} : Stable (contention w₀) t (Finished t r) := by
  rintro s s' - h ⟨hrely, hheard⟩ -
  refine ⟨fun sopId envKey hcalled => ?_, fun id hid => ?_, fun row hrow => ?_⟩
  · obtain ⟨hr, id, created, hanswered⟩ := h.normal sopId envKey ((hheard.own _ rfl).mp hcalled)
    exact ⟨hr, id, created, hheard.kept hanswered⟩
  · exact hheard.kept (h.reported id ((hheard.own _ rfl).mp hid))
  · exact h.checks row (hrely.pending ▸ hrow)

theorem stable_fresh : Stable (contention w₀) t (Fresh t) := by
  rintro s s' - h ⟨hrely, hheard⟩ -
  refine ⟨fun entry hentry ht => ?_, hrely.pending.trans h.pending, hrely.invalid.trans h.valid⟩
  exact h.silent entry ((hheard.own entry ht).mp hentry) ht

theorem stable_aside : Stable (contention w₀) t (Aside t) := by
  rintro s s' - h ⟨hrely, hheard⟩ -
  exact ⟨fun sopId envKey hcalled => h.uncalled sopId envKey ((hheard.own _ rfl).mp hcalled),
    fun id hid => h.uninserted id ((hheard.own _ rfl).mp hid),
    fun session hsession => h.sessions session (hrely.pending ▸ hsession),
    fun row hrow => h.checks row (hrely.pending ▸ hrow)⟩

/-- A check that the transaction has inserted is locked by it. -/
theorem Stage.owner {row : SopQualityCheck} (h : Stage t sopId envKey ids writes s)
    (hcoherent : Coherent s.1) (hrow : .insertCheck row ∈ writes) :
    s.1.store.owner (.check row.id) = some t :=
  hcoherent.guarded t _ _ (h.pending ▸ hrow) (by simp [schema])

theorem Creating.owner {session : Session} {row : SopQualityCheck} {later : List Write}
    (h : Creating t sopId envKey session row later s) (hcoherent : Coherent s.1) :
    s.1.store.owner (.check row.id) = some t :=
  h.toStage.owner hcoherent (by simp)

theorem stable_creating {session : Session} {row : SopQualityCheck} {later : List Write} :
    Stable (contention w₀) t (Creating t sopId envKey session row later) := by
  rintro s s' hinv h hrely hinv'
  have hsame := (rely_contention hrely).1.view_check (h.owner hinv.1)
  exact ⟨stable_stage s s' hinv h.toStage hrely hinv', (Prod.mk.inj hsame).1.trans h.seen⟩

end Stability

section Moves

variable {w₀ : World} {t : TaskId} {op : Op} {sopId envKey : String} {ids : List CheckId}
  {writes writes' : List Write} {r : Except Exn (Reply op)} {s s' : Recorded}

/-- What a call has inserted and answered changes only where it inserts and answers. -/
theorem Caller.advance (h : Caller t sopId envKey ids s)
    (hrecord : s'.2 = s.2 ++ entries t op r s.1) (hinsert : ∀ values, op ≠ .insertCheck values)
    (hanswer : ∀ id created, op ≠ .note (.answered id created)) :
    Caller t sopId envKey ids s' := by
  have hkept : s.2 ⊆ s'.2 := hrecord ▸ List.subset_append_left _ _
  refine ⟨hkept h.called, fun id created hid => ?_, fun id => ?_⟩
  · rw [hrecord] at hid
    rcases List.mem_append.mp hid with hid | hid
    · exact h.unanswered id created hid
    · exact hanswer id created (mem_entries_answered hid).1
  · rw [← h.inserted id]
    refine ⟨fun hid => ?_, fun hid => hkept hid⟩
    rcases Contended.inserted_step hrecord hid with hid | ⟨⟨values, hop⟩, -⟩
    · exact hid
    · exact absurd hop (hinsert values)

theorem Stage.reads (op : Op) {answer : Answer} {kept : Bool} {a : Reply op} (hop : Reads op)
    (h : Stage t sopId envKey ids writes s) (hsucceed : succeed t answer kept s.1 op = some (a, s'.1))
    (hrecord : s'.2 = s.2 ++ entries t op (.ok a) s.1) : Stage t sopId envKey ids writes s' := by
  obtain ⟨hpending, -, -⟩ := Reads.writes_nothing hop hsucceed
  have hcaller : Caller t sopId envKey ids s' :=
    h.toCaller.advance hrecord (fun _ heq => by subst heq; exact hop)
      fun _ _ heq => by subst heq; exact hop
  refine ⟨hcaller, ?_, hpending.trans h.pending⟩
  exact (succeed_keeps (fun _ heq => by subst heq; exact hop) hsucceed).2 h.valid

/-- The operations that a healthy database carries out. -/
def Reliable (op : Op) : Prop :=
  external op = false ∧ ∀ values, op ≠ .insertCheck values

/-- The rule of an operation that a healthy database carries out. -/
theorem triple_reliable (op : Op) {A : Recorded → Prop} {K : Reply op → Recorded → Prop}
    (hop : Reliable op) (hA : Stable (contention w₀) t A)
    (hK : ∀ a, Stable (contention w₀) t (K a))
    (hready : ∀ s, Coherent s.1 → A s → Ready t op s)
    (hreply : ∀ s answer kept a s', Coherent s.1 → A s → rereadFinds t op s = true →
      succeed t answer kept s.1 op = some (a, s'.1) →
      s'.2 = s.2 ++ entries t op (.ok a) s.1 → K a s') :
    Triple (contention w₀) t A (await op) K fun _ _ => False := by
  refine Triple.perform hA hK (fun _ => Stable.const False) (fun s hinv h => hready s hinv.1 h) ?_
  intro s choice r s' hinv h hinv' hallowed hexec
  obtain ⟨⟨hhealthy, hreread⟩, -⟩ := hallowed
  obtain ⟨hstep, hrecord⟩ := recording_eq_some hexec
  cases choice with
  | fail e poisons =>
      have hfails : external op = true ∨ conflicts op e s.1 = true := by
        simpa [Healthy, healthy] using hhealthy
      rcases hfails with hexternal | hconflicts
      · simp [hop.1] at hexternal
      · unfold conflicts at hconflicts
        split at hconflicts
        · exact absurd rfl (hop.2 _)
        · cases hconflicts
  | succeed answer kept =>
      obtain ⟨reply, rfl, hsucceed⟩ := exec_succeed hstep
      exact hreply s answer kept reply s' hinv.1 h hreread hsucceed hrecord

theorem ready_of_enabled (hfounded : Founded t op s) (henabled : Enabled t op s.1) :
    Ready t op s :=
  ⟨hfounded, fun _ _ _ => .inl henabled⟩

theorem Looks.founded (hop : Looks op) : Founded t op s := by
  cases op <;> first | exact hop.elim | trivial

theorem Looks.reliable (hop : Looks op) : Reliable op := by
  cases op <;> first | exact hop.elim | exact ⟨rfl, fun _ => by simp⟩

/-- Whatever a call knows, it knows after a read that waits for no lock. -/
theorem triple_looks (op : Op) (hop : Looks op) {A : Recorded → Prop} (hA : Stable (contention w₀) t A)
    (hvalid : ∀ s, A s → s.1.invalid t = false)
    (hkeep : ∀ s answer kept a s', A s → succeed t answer kept s.1 op = some (a, s'.1) →
      s'.2 = s.2 ++ entries t op (.ok a) s.1 → A s') :
    Triple (contention w₀) t A (await op) (fun _ => A) fun _ _ => False :=
  triple_reliable op hop.reliable hA (fun _ => hA)
    (fun s _ h => ready_of_enabled hop.founded (enabled_looks hop (hvalid s h)))
    fun s answer kept a s' _ h _ hsucceed hrecord => hkeep s answer kept a s' h hsucceed hrecord

end Moves

section Queries

variable {w₀ : World} {t : TaskId} {sopId envKey : String} {ids : List CheckId}
  {writes : List Write} {s s' : Recorded}

/-- The writes touch no check. -/
def SparesChecks (writes : List Write) : Prop :=
  ∀ db, (applyAll schema writes db).checks = db.checks

theorem sparesChecks_session (session : Session) : SparesChecks [.insertSession session] :=
  fun _ => rfl

theorem Stage.activeCheck (h : Stage t sopId envKey ids writes s) (hwrites : SparesChecks writes) :
    (s.1.view t).activeCheck sopId envKey = s.1.store.committed.activeCheck sopId envKey := by
  have hchecks : (s.1.view t).checks = s.1.store.committed.checks := by
    rw [World.view, Store.view, h.pending, hwrites]
  have hcheck : (s.1.view t).check = s.1.store.committed.check := by
    funext id
    rw [Db.check, Db.check, hchecks]
  rw [Db.activeCheck, Db.activeCheck, Db.activeChecks, Db.activeChecks, hchecks, hcheck]

theorem activeIn_of_activeCheck {db : Db} {row : SopQualityCheck}
    (h : db.activeCheck sopId envKey = some row) : ActiveIn db sopId envKey row.id := by
  obtain ⟨hrow, hactive⟩ := Db.mem_activeChecks (Db.mem_of_activeCheck h)
  obtain ⟨hsop, henv⟩ : row.sopId = sopId ∧ row.envKey = envKey := by
    simpa using List.find?_some h
  exact ⟨row, hrow, hactive, hsop, henv⟩

/-- The query for the active check tells the number of the row that the task sees. -/
theorem reply_activeCheck {answer : Answer} {kept : Bool} {found : Option SopQualityCheck}
    {w w' : World}
    (h : succeed t answer kept w (.activeCheck sopId envKey) = some (found, w')) :
    found.map (·.id) = ((w.view t).activeCheck sopId envKey).map (·.id) := by
  simp only [succeed] at h
  split at h
  · rename_i hnone
    obtain ⟨rfl, -⟩ := Prod.mk.inj (Option.some.inj h)
    rw [hnone]
  · rename_i row hrow
    obtain ⟨rfl, -⟩ := Prod.mk.inj (Option.some.inj h)
    rw [hrow, Option.map_some, Option.map_some]
    cases hheld : w.heldCheck t kept row.id with
    | none => rfl
    | some held =>
        unfold World.heldCheck at hheld
        split at hheld
        · simpa using List.find?_some hheld
        · simp at hheld

/-- A call that is about to look for the active check, again or for the first time. -/
structure Asking (t : TaskId) (sopId envKey : String) (writes : List Write) (again : Prop)
    (s : Recorded) : Prop extends Stage t sopId envKey [] writes s where
  rolledBack : again → .rolledBack t ∈ s.2

/-- What a call knows when it has looked for the active check. -/
structure Told (t : TaskId) (sopId envKey : String) (writes : List Write) (again : Prop)
    (found : Option CheckId) (s : Recorded) : Prop extends Stage t sopId envKey [] writes s where
  joined : ∀ id, found = some id → Joined t sopId envKey id s.2
  finds : again → found.isSome

theorem stable_asking {again : Prop} :
    Stable (contention w₀) t (Asking t sopId envKey writes again) := by
  rintro s s' hinv h hrely hinv'
  exact ⟨stable_stage s s' hinv h.toStage hrely hinv',
    fun hagain => (rely_contention hrely).2.kept (h.rolledBack hagain)⟩

theorem stable_told {again : Prop} {found : Option CheckId} :
    Stable (contention w₀) t (Told t sopId envKey writes again found) := by
  rintro s s' hinv h hrely hinv'
  exact ⟨stable_stage s s' hinv h.toStage hrely hinv',
    fun id hid => stable_joined s s' hinv (h.joined id hid) hrely hinv', h.finds⟩

theorem Told.decided {again : Prop} {id : CheckId}
    (h : Told t sopId envKey writes again (some id) s) :
    Decided t sopId envKey id false writes s :=
  ⟨h.toStage, h.joined id rfl, by simp⟩

/-- What is committed while the query runs goes into the history. -/
theorem Asking.told {again : Prop} {answer : Answer} {kept : Bool}
    {found : Option SopQualityCheck} (h : Asking t sopId envKey writes again s)
    (hwrites : SparesChecks writes)
    (hreread : rereadFinds t (.activeCheck sopId envKey) s = true)
    (hsucceed : succeed t answer kept s.1 (.activeCheck sopId envKey) = some (found, s'.1))
    (hrecord : s'.2 = s.2 ++ entries t (.activeCheck sopId envKey) (.ok found) s.1) :
    Told t sopId envKey writes again (found.map (·.id)) s' := by
  have hreply := reply_activeCheck hsucceed
  rw [h.toStage.activeCheck hwrites] at hreply
  have hstage : Stage t sopId envKey [] writes s' :=
    Stage.reads (.activeCheck sopId envKey) trivial h.toStage hsucceed hrecord
  refine ⟨hstage, fun id hid => ?_, fun hagain => ?_⟩
  · rw [hreply] at hid
    obtain ⟨row, hrow, rfl⟩ := Option.map_eq_some_iff.mp hid
    exact ⟨s.1.store.committed, hrecord ▸ by simp [entries], activeIn_of_activeCheck hrow⟩
  · have hany : s.2.any (Entry.isRollback t) = true :=
      List.any_eq_true.mpr ⟨_, h.rolledBack hagain, by simp [Entry.isRollback]⟩
    rw [hreply, Option.isSome_map]
    simpa [rereadFinds, hany] using hreread

/-- `get_active_check` as a call uses it. -/
theorem triple_getActiveCheck (again : Prop) (hwrites : SparesChecks writes) :
    Triple (contention w₀) t (Asking t sopId envKey writes again) (getActiveCheck sopId envKey)
      (fun found => Told t sopId envKey writes again (found.map (·.1.id))) fun _ _ => False := by
  refine Triple.bind (B := fun found => Told t sopId envKey writes again (found.map (·.id)))
    (triple_reliable (.activeCheck sopId envKey) ⟨rfl, fun _ => by simp⟩ stable_asking
      (fun _ => stable_told)
      (fun s _ h => ready_of_enabled trivial (enabled_looks trivial h.valid))
      fun s answer kept found s' _ h hreread hsucceed hrecord =>
        h.told hwrites hreread hsucceed hrecord) fun found => ?_
  cases found with
  | none => exact Triple.done stable_told fun _ _ h => h
  | some active =>
      refine Triple.bind (triple_looks (.latestSequence active.id) trivial stable_told
        (fun s h => h.valid) ?_) fun latest => Triple.done stable_told fun _ _ h => h
      intro s answer kept a s' h hsucceed hrecord
      have hkept : s.2 ⊆ s'.2 := hrecord ▸ List.subset_append_left _ _
      exact ⟨Stage.reads (.latestSequence active.id) trivial h.toStage hsucceed hrecord,
        fun id hid => (h.joined id hid).mono hkept, h.finds⟩

end Queries

section Creation

variable {w₀ : World} {t : TaskId} {sopId envKey : String} {session : Session}
  {row : SopQualityCheck} {s s' : Recorded}

theorem triple_createSession (title : Option String) :
    Triple (contention w₀) t (Stage t sopId envKey [] []) (createSession title)
      (fun session => Stage t sopId envKey [] [.insertSession session]) fun _ _ => False := by
  refine triple_reliable (.insertSession title) ⟨rfl, fun _ => by simp⟩ stable_stage
    (fun _ => stable_stage) (fun s hcoherent h =>
      ready_of_enabled trivial (enabled_insertSession hcoherent h.valid title)) ?_
  intro s answer kept session s' _ h _ hsucceed hrecord
  obtain ⟨mid, hlocks, hwritten⟩ := Store.write_eq_some (succeed_insertSession hsucceed).2.2
  refine ⟨h.toCaller.advance hrecord (by simp) (by simp),
    (succeed_keeps (by simp) hsucceed).2 h.valid, ?_⟩
  rw [hwritten, Store.record_pending, hlocks.pending, h.pending]
  rfl

/-- The insert of `create_check` is carried out, or refused for a check that is active. -/
theorem triple_insertCheck {values : NewCheck} (hsop : values.sopId = sopId)
    (henv : values.envKey = envKey) (hsession : values.sessionId = some session.id) :
    Triple (contention w₀) t (Stage t sopId envKey [] [.insertSession session])
      (await (.insertCheck values))
      (fun row s => row = values.toRow row.id ∧ Creating t sopId envKey session row [] s)
      fun e s => (∃ message, e = .integrityError message) ∧ Caller t sopId envKey [] s := by
  subst hsop henv
  refine Triple.perform stable_stage (fun _ => (Stable.const _).and stable_creating)
    (fun _ => (Stable.const _).and stable_caller) (fun s hinv h => ⟨⟨h.called, ?_⟩, ?_⟩) ?_
  · simp [h.pending]
  · refine fun _ _ _ => enabled_insertCheck hinv.1 h.valid
      (h.activeCheck (sparesChecks_session session)) fun id hid => ?_
    obtain rfl : session.id = id := Option.some.inj (hsession.symm.trans hid)
    simp [Present, World.view, Store.view, h.pending, applyAll, session_insertSession]
  · intro s choice r s' hinv h _ hallowed hexec
    obtain ⟨hstep, hrecord⟩ := recording_eq_some hexec
    cases r with
    | error e =>
        refine ⟨?_, ?_⟩
        · cases choice with
          | fail error poisons =>
              obtain ⟨-, herror, -⟩ := exec_fail hstep
              obtain rfl := Except.error.inj herror
              have hconflicts : conflicts (.insertCheck values) e s.1 = true := by
                simpa [Healthy, healthy, external] using hallowed.1.1
              unfold conflicts at hconflicts
              split at hconflicts
              · exact ⟨_, rfl⟩
              · cases hconflicts
          | succeed answer kept =>
              obtain ⟨reply, hr, -⟩ := exec_succeed hstep
              cases hr
        · have hsame : s'.2 = s.2 := hrecord.trans (List.append_nil _)
          exact ⟨hsame ▸ h.called, hsame ▸ h.unanswered, hsame ▸ h.inserted⟩
    | ok row =>
        obtain ⟨hrow, -, hinvalid, hwrite⟩ := exec_insertCheck hstep
        have hid : row.id = s.1.nextCheck := by rw [hrow]; rfl
        obtain ⟨mid, hlocks, hwritten⟩ := Store.write_eq_some hwrite
        have hadded : s'.2 = s.2 ++ [.inserted t row.id] := by rw [hrecord, hid]; rfl
        refine ⟨by rw [hid]; exact hrow, ⟨⟨⟨?_, ?_, ?_⟩, ?_, ?_⟩, ?_⟩⟩
        · exact hadded ▸ List.mem_append_left _ h.called
        · intro id created
          simpa [hadded] using h.unanswered id created
        · intro id
          have hnone : .inserted t id ∉ s.2 := by simp [h.inserted]
          simp [hadded, hnone]
        · rw [hinvalid, h.valid]
        · rw [hwritten, Store.record_pending, hlocks.pending, h.pending, ← hrow]
          rfl
        · have hfresh : (s.1.view t).check row.id = none :=
            hid ▸ (Prod.mk.inj (hinv.1.view_fresh (Nat.le_refl _))).1
          rw [← hrow] at hwrite
          rw [view_of_write hwrite, check_insertCheck, hfresh]
          simp

theorem triple_rollback :
    Triple (contention w₀) t (Caller t sopId envKey []) (await .rollback)
      (fun _ => Asking t sopId envKey [] True) fun _ _ => False := by
  refine triple_reliable .rollback ⟨rfl, fun _ => by simp⟩ stable_caller
    (fun _ => stable_asking)
    (fun s _ _ => ready_of_enabled trivial ⟨.succeed .nothing true, _, rfl, rfl⟩) ?_
  intro s answer kept a s' _ h _ hsucceed hrecord
  obtain ⟨-, hreset⟩ := Prod.mk.inj (Option.some.inj hsucceed)
  refine ⟨⟨h.advance hrecord (by simp) (by simp), ?_, ?_⟩, fun _ => ?_⟩
  · simp [← hreset, World.reset]
  · simp [← hreset, World.reset, Store.rollback]
  · simp [hrecord, entries]

/-- `create_check` gives the check that it has inserted, or the active one that it has found. -/
theorem triple_createCheck {values : NewCheck} (hsop : values.sopId = sopId)
    (henv : values.envKey = envKey) (hsession : values.sessionId = some session.id) :
    Triple (contention w₀) t (Stage t sopId envKey [] [.insertSession session])
      (createCheck values)
      (fun row s => row = values.toRow row.id ∧ Creating t sopId envKey session row [] s)
      fun e s => ∃ id writes, e = .activeCheckExists id ∧
        Decided t sopId envKey id false writes s := by
  have hexists : ∀ (active : SopQualityCheck) (writes : List Write) (again : Prop),
      Triple (contention w₀) t (Told t sopId envKey writes again (some active.id))
        (throw (.activeCheckExists active.id) : Program SopQualityCheck)
        (fun row s => row = values.toRow row.id ∧ Creating t sopId envKey session row [] s)
        fun e s => ∃ id writes, e = .activeCheckExists id ∧
          Decided t sopId envKey id false writes s :=
    fun active writes again => Triple.raise
      (Stable.exists fun _ => Stable.exists fun _ => (Stable.const _).and stable_decided)
      fun s _ h => ⟨active.id, writes, rfl, h.decided⟩
  have hlook : ∀ (writes : List Write) (again : Prop), SparesChecks writes →
      Triple (contention w₀) t (Asking t sopId envKey writes again)
        (getActiveCheck values.sopId values.envKey)
        (fun found => Told t sopId envKey writes again (found.map (·.1.id)))
        fun e s => ∃ id writes, e = .activeCheckExists id ∧
          Decided t sopId envKey id false writes s := by
    intro writes again hwrites
    subst hsop henv
    exact (triple_getActiveCheck again hwrites).weaken (fun _ _ h => h) (fun _ _ _ h => h)
      fun _ _ _ h => h.elim
  refine Triple.bind ((hlook _ False (sparesChecks_session session)).weaken
    (fun s _ h => ⟨h, False.elim⟩) (fun _ _ _ h => h) fun _ _ _ h => h) fun found => ?_
  cases found with
  | some active => exact hexists active.1 _ _
  | none =>
      refine Triple.tryCatch ((triple_insertCheck hsop henv hsession).weaken
        (fun s _ h => h.toStage) (fun _ _ _ h => h) fun _ _ _ h => h) fun e => ?_
      cases e with
      | integrityError message =>
          refine Triple.bind (triple_rollback.weaken (fun s _ h => h.2) (fun _ _ _ h => h)
            fun _ _ _ h => h.elim) fun _ => ?_
          refine Triple.bind (hlook _ True fun _ => rfl) fun found => ?_
          cases found with
          | some active => exact hexists active.1 _ _
          | none => exact Triple.of_false fun s _ h => by simpa using h.finds trivial
      | _ => exact Triple.of_false fun s _ h => by simp at h

end Creation

section Commit

variable {w₀ : World} {t : TaskId} {sopId envKey : String} {session : Session}
  {row : SopQualityCheck} {later : List Write} {id : CheckId} {created : Bool}
  {writes writes' : List Write} {s s' : Recorded}

/-- The task holds the row lock of its check, and has drawn the next number of its events. -/
theorem triple_nextSequence :
    Triple (contention w₀) t (Creating t sopId envKey session row later) (nextSequence row.id)
      (fun sequence s => Creating t sopId envKey session row later s ∧
        sequence = (s.1.view t).latestSequence row.id + 1) fun _ _ => False := by
  have hkeep : ∀ (op : Op) {answer : Answer} {kept : Bool} {a : Reply op} {s s' : Recorded},
      Reads op → Creating t sopId envKey session row later s →
      succeed t answer kept s.1 op = some (a, s'.1) →
      s'.2 = s.2 ++ entries t op (.ok a) s.1 → Creating t sopId envKey session row later s' := by
    intro op answer kept a s s' hop h hsucceed hrecord
    refine ⟨h.toStage.reads op hop hsucceed hrecord, ?_⟩
    obtain ⟨hpending, hcommitted, -⟩ := Reads.writes_nothing hop hsucceed
    rw [World.view, Store.view, hpending, hcommitted]
    exact h.seen
  have hlatest : ∀ latest, Stable (contention w₀) t fun s =>
      Creating t sopId envKey session row later s ∧
        latest = (s.1.view t).latestSequence row.id := by
    rintro latest s s' hinv ⟨h, rfl⟩ hrely hinv'
    have hsame := (rely_contention hrely).1.view_check (h.owner hinv.1)
    exact ⟨stable_creating s s' hinv h hrely hinv',
      by simp only [Db.latestSequence, (Prod.mk.inj hsame).2]⟩
  refine Triple.bind (B := fun _ => Creating t sopId envKey session row later)
    (Triple.bind (B := fun found s => found = true ∧
      Creating t sopId envKey session row later s) ?_ fun found => ?_) fun _ => ?_
  · refine triple_reliable (.lockCheck row.id) ⟨rfl, fun _ => by simp⟩ stable_creating
      (fun _ => (Stable.const _).and stable_creating) (fun s hcoherent h =>
        ready_of_enabled trivial (enabled_lockCheck h.valid (h.owner hcoherent))) ?_
    intro s answer kept found s' _ h _ hsucceed hrecord
    refine ⟨?_, hkeep (.lockCheck row.id) trivial h hsucceed hrecord⟩
    cases found with
    | true => rfl
    | false => exact absurd (h.seen.symm.trans (reply_lockCheck_false hsucceed)) (by simp)
  · cases found with
    | true => exact Triple.done stable_creating fun _ _ h => h.2
    | false => exact Triple.of_false fun _ _ h => by simp at h
  · refine Triple.bind (triple_reliable (.latestSequence row.id) ⟨rfl, fun _ => by simp⟩
      stable_creating hlatest
      (fun s _ h => ready_of_enabled trivial (enabled_looks trivial h.valid)) ?_) fun latest =>
        Triple.done ?_ fun s _ h => ⟨h.1, congrArg (· + 1) h.2⟩
    · intro s answer kept latest s' _ h _ hsucceed hrecord
      obtain ⟨hreply, hsame⟩ := Prod.mk.inj (Option.some.inj hsucceed)
      exact ⟨hkeep (.latestSequence row.id) trivial h hsucceed hrecord,
        by rw [← hsame]; exact hreply.symm⟩
    · intro s s' hinv h hrely hinv'
      obtain ⟨hcreating, heq⟩ := hlatest latest s s' hinv
        ⟨h.1, Nat.succ.inj h.2⟩ hrely hinv'
      exact ⟨hcreating, congrArg (· + 1) heq⟩

theorem triple_insertEvent {event : SopQualityEvent} (hcheck : event.checkId = row.id) :
    Triple (contention w₀) t (fun s => Creating t sopId envKey session row [] s ∧
        event.sequence = (s.1.view t).latestSequence row.id + 1) (await (.insertEvent event))
      (fun _ => Creating t sopId envKey session row [.insertEvent event]) fun _ _ => False := by
  refine triple_reliable (.insertEvent event) ⟨rfl, fun _ => by simp⟩ ?_
    (fun _ => stable_creating) (fun s hcoherent h => ready_of_enabled trivial
      (enabled_insertEvent h.1.valid (hcheck ▸ h.1.owner hcoherent)
        (by simp [Present, hcheck, h.1.seen]) (hcheck ▸ h.2 ▸ Nat.lt_succ_self _))) ?_
  · rintro s s' hinv ⟨h, hsequence⟩ hrely hinv'
    have hsame := (rely_contention hrely).1.view_check (h.owner hinv.1)
    exact ⟨stable_creating s s' hinv h hrely hinv',
      by simpa only [Db.latestSequence, (Prod.mk.inj hsame).2] using hsequence⟩
  · rintro s answer kept reply s' - ⟨h, -⟩ - hsucceed hrecord
    have hwrite := succeed_insertEvent hsucceed
    obtain ⟨mid, hlocks, hwritten⟩ := Store.write_eq_some hwrite
    refine ⟨⟨h.toCaller.advance hrecord (by simp) (by simp),
      (succeed_keeps (by simp) hsucceed).2 h.valid, ?_⟩, ?_⟩
    · rw [hwritten, Store.record_pending, hlocks.pending, h.pending]
      rfl
    · rw [view_of_write hwrite]
      exact h.seen

theorem triple_appendEvent (type : EventType) (node checkpointId taskId message : Option String) :
    Triple (contention w₀) t (Creating t sopId envKey session row [])
      (appendEvent row.id type node checkpointId taskId message)
      (fun _ s => ∃ event, Creating t sopId envKey session row [.insertEvent event] s)
      fun _ _ => False := by
  refine Triple.bind triple_nextSequence fun sequence => ?_
  exact (triple_insertEvent rfl).weaken (fun _ _ h => h) (fun _ _ _ h => ⟨_, h⟩)
    fun _ _ _ h => h

/-- The commit publishes the check as an active one, together with its session. -/
theorem triple_commit {event : SopQualityEvent} (hsession : row.sessionId = some session.id)
    (hsop : row.sopId = sopId) (henv : row.envKey = envKey) (hactive : row.status.active = true) :
    Triple (contention w₀) t (Creating t sopId envKey session row [.insertEvent event])
      (await .commit) (fun _ => Decided t sopId envKey row.id true []) fun _ _ => False := by
  refine triple_reliable .commit ⟨rfl, fun _ => by simp⟩ stable_creating (fun _ => stable_decided)
    (fun s _ h => ready_of_enabled (fun session' hsession' => ⟨row, ?_, ?_⟩)
      (enabled_of_succeed .nothing true h.valid rfl)) ?_
  · simp [h.pending]
  · obtain rfl : session' = session := by simpa [h.pending] using hsession'
    exact hsession
  · intro s answer kept a s' _ h _ hsucceed hrecord
    obtain ⟨-, hcommit⟩ := Prod.mk.inj (Option.some.inj hsucceed)
    refine ⟨⟨h.toCaller.advance hrecord (by simp) (by simp),
      (succeed_keeps (by simp) hsucceed).2 h.valid, ?_⟩, ?_, fun _ => ?_⟩
    · simp [← hcommit, World.withStore, Store.commit]
    · exact ⟨s.1.view t, hrecord ▸ by simp [entries], row, h.seen, hactive, hsop, henv⟩
    · rw [← hcommit]
      exact Option.isSome_iff_exists.mpr ⟨row, h.seen⟩

/-- What a call has decided stays decided. -/
theorem Decided.advance (h : Decided t sopId envKey id created writes s)
    (hstage : Stage t sopId envKey (if created then [id] else []) writes' s')
    (hkept : s.2 ⊆ s'.2) (hgrown : Extends s.1.store.committed s'.1.store.committed) :
    Decided t sopId envKey id created writes' s' :=
  ⟨hstage, h.joined.mono hkept, fun hc => Present.extends (h.present hc) hgrown⟩

theorem triple_getCheck :
    Triple (contention w₀) t (Decided t sopId envKey id created writes) (getCheck id)
      (fun _ => Decided t sopId envKey id created writes) fun _ _ => False := by
  have hlooks : ∀ op, Looks op →
      Triple (contention w₀) t (Decided t sopId envKey id created writes) (await op)
        (fun _ => Decided t sopId envKey id created writes) fun _ _ => False := by
    intro op hop
    refine triple_looks op hop stable_decided (fun s h => h.valid) ?_
    intro s answer kept a s' h hsucceed hrecord
    obtain ⟨-, hcommitted, -⟩ := Reads.writes_nothing hop.reads hsucceed
    exact h.advance (h.toStage.reads op hop.reads hsucceed hrecord)
      (hrecord ▸ List.subset_append_left _ _) (hcommitted ▸ .refl _)
  refine Triple.bind (hlooks (.getCheck id) trivial) fun found => ?_
  cases found with
  | none => exact Triple.done stable_decided fun _ _ h => h
  | some check =>
      exact Triple.bind (hlooks (.latestSequence id) trivial) fun _ =>
        Triple.done stable_decided fun _ _ h => h

theorem triple_schedule (check : CheckId) :
    Triple (contention w₀) t (Decided t sopId envKey id created writes) (await (.schedule check))
      (fun _ => Decided t sopId envKey id created writes) fun _ _ => False := by
  refine triple_reliable (.schedule check) ⟨rfl, fun _ => by simp⟩ stable_decided
    (fun _ => stable_decided) (fun s _ h => ready_of_enabled trivial
      (enabled_of_succeed .nothing true h.valid rfl)) ?_
  intro s answer kept a s' _ h _ hsucceed hrecord
  obtain ⟨-, hsame⟩ := Prod.mk.inj (Option.some.inj hsucceed)
  refine h.advance ⟨h.toCaller.advance hrecord (by simp) (by simp), ?_, ?_⟩
    (hrecord ▸ List.subset_append_left _ _) (hsame ▸ .refl _)
  · rw [← hsame, h.valid]
  · rw [← hsame, h.pending]

/-- The request closes its database session, which rolls back what was not committed. -/
theorem triple_close :
    Triple (contention w₀) t (fun s => ∃ writes, Decided t sopId envKey id created writes s)
      (await .close) (fun _ => Decided t sopId envKey id created []) fun _ _ => False := by
  refine Triple.exists fun writes => ?_
  refine triple_reliable .close ⟨rfl, fun _ => by simp⟩ stable_decided (fun _ => stable_decided)
    (fun s _ h => ready_of_enabled trivial (enabled_of_succeed .nothing true h.valid rfl)) ?_
  intro s answer kept a s' _ h _ hsucceed hrecord
  obtain ⟨-, hreset⟩ := Prod.mk.inj (Option.some.inj hsucceed)
  refine h.advance ⟨h.toCaller.advance hrecord (by simp) (by simp), ?_, ?_⟩
    (hrecord ▸ List.subset_append_left _ _) (hreset ▸ .refl _)
  · simp [← hreset, World.reset]
  · simp [← hreset, World.reset, Store.rollback]

theorem triple_answer :
    Triple (contention w₀) t (Decided t sopId envKey id created [])
      (await (.note (.answered id created))) (fun _ => Finished t (.ok ())) fun _ _ => False := by
  refine triple_reliable (.note (.answered id created)) ⟨rfl, fun _ => by simp⟩ stable_decided
    (fun _ => stable_finished) (fun s _ h => ready_of_enabled ⟨h.unanswered,
      ⟨sopId, envKey, h.called, h.joined⟩, fun hc => ⟨?_, h.present hc⟩⟩
      (enabled_of_succeed .nothing true h.valid rfl)) ?_
  · exact (h.inserted id).mpr (by simp [hc])
  · intro s answer kept a s' _ h _ hsucceed hrecord
    obtain ⟨-, hsame⟩ := Prod.mk.inj (Option.some.inj hsucceed)
    have hanswered : .answered t id created ∈ s'.2 := by simp [hrecord, entries]
    refine ⟨fun _ _ _ => ⟨rfl, id, created, hanswered⟩, fun id' hid' => ?_, fun row => ?_⟩
    · rcases Contended.inserted_step hrecord hid' with hid' | ⟨⟨_, hop⟩, -⟩
      · have hmem := (h.inserted id').mp hid'
        cases created with
        | true => exact List.mem_singleton.mp hmem ▸ hanswered
        | false => simp at hmem
      · simp at hop
    · have hpending : s'.1.store.pending t = [] := by
        rw [← hsame]
        exact h.pending
      simp [hpending]

theorem triple_begin :
    Triple (contention w₀) t (Fresh t) (await (.note (.called sopId envKey)))
      (fun _ => Stage t sopId envKey [] []) fun _ _ => False := by
  refine triple_reliable (.note (.called sopId envKey)) ⟨rfl, fun _ => by simp⟩ stable_fresh
    (fun _ => stable_stage) (fun s _ h => ready_of_enabled
      (fun _ _ hcalled => h.silent _ hcalled rfl)
      (enabled_of_succeed .nothing true h.valid rfl)) ?_
  intro s answer kept a s' _ h _ hsucceed hrecord
  obtain ⟨-, hsame⟩ := Prod.mk.inj (Option.some.inj hsucceed)
  have hadded : s'.2 = s.2 ++ [.called t sopId envKey] := hrecord
  refine ⟨⟨by simp [hadded], fun id created hid => ?_, fun id => ?_⟩, ?_, ?_⟩
  · exact h.silent _ (by simpa [hadded] using hid) rfl
  · have hnone : .inserted t id ∉ s.2 := fun hid => h.silent _ hid rfl
    simp [hadded, hnone]
  · rw [← hsame]
    exact h.valid
  · rw [← hsame]
    exact h.pending

end Commit

section Calls

variable {w₀ : World} {t : TaskId} {sopId envKey : String} {s s' : Recorded}

/-- What `create_check` leaves the call with, once the conflict with an active check is caught. -/
def CreatedOrFound (t : TaskId) (sopId envKey : String) (session : Session) (values : NewCheck) :
    Except CheckId SopQualityCheck → Recorded → Prop
  | .error id, s => ∃ writes, Decided t sopId envKey id false writes s
  | .ok row, s => row = values.toRow row.id ∧ Creating t sopId envKey session row [] s

theorem stable_createdOrFound {session : Session} {values : NewCheck}
    (created : Except CheckId SopQualityCheck) :
    Stable (contention w₀) t (CreatedOrFound t sopId envKey session values created) := by
  cases created with
  | error id => exact Stable.exists fun _ => stable_decided
  | ok row => exact (Stable.const _).and stable_creating

theorem triple_startCheck {environments : List String} (hknown : envKey ∈ environments)
    (createdBy : Option String) :
    Triple (contention w₀) t (Stage t sopId envKey [] [])
      (startCheck environments sopId envKey createdBy)
      (fun result s => ∃ writes, Decided t sopId envKey result.checkId result.created writes s)
      fun _ _ => False := by
  have hanswer : ∀ id status created writes,
      Triple (contention w₀) t (Decided t sopId envKey id created writes)
        (pure (checkStartResult id status created) : Program CheckStartResult)
        (fun result s => ∃ writes, Decided t sopId envKey result.checkId result.created writes s)
        fun _ _ => False :=
    fun id status created writes =>
      Triple.done (Stable.exists fun _ => stable_decided) fun s _ h => ⟨writes, h⟩
  unfold startCheck
  rw [if_pos hknown]
  refine Triple.bind ((triple_getActiveCheck False fun _ => rfl).weaken
    (fun s _ h => ⟨h, False.elim⟩) (fun _ _ _ h => h) fun _ _ _ h => h) fun found => ?_
  cases found with
  | some active =>
      exact (hanswer active.1.id _ false _).weaken (fun s _ h => h.decided) (fun _ _ _ h => h)
        fun _ _ _ h => h
  | none =>
      refine Triple.bind ((triple_createSession _).weaken (fun s _ h => h.toStage)
        (fun _ _ _ h => h) fun _ _ _ h => h) fun session => ?_
      refine Triple.bind (B := CreatedOrFound t sopId envKey session _)
        (Triple.tryCatch (Triple.bind (triple_createCheck rfl rfl rfl) fun row =>
          Triple.done (stable_createdOrFound (.ok row)) fun _ _ h => h) fun e => ?_)
        fun created => ?_
      · cases e with
        | activeCheckExists id =>
            refine Triple.done (stable_createdOrFound (.error id)) ?_
            rintro s - ⟨id', writes, heq, hdecided⟩
            obtain rfl := Exn.activeCheckExists.inj heq
            exact ⟨writes, hdecided⟩
        | _ => exact Triple.of_false fun s _ h => by simp at h
      · cases created with
        | error id =>
            refine Triple.exists fun writes => ?_
            exact Triple.bind triple_getCheck fun _ => hanswer id _ false writes
        | ok row =>
            rintro s hinv ⟨hrow, hcreating⟩
            refine Triple.bind (triple_appendEvent .created none none none none) (fun _ => ?_)
              s hinv hcreating
            refine Triple.exists fun event => ?_
            refine Triple.bind (triple_commit ?_ ?_ ?_ ?_) fun _ => ?_
            · rw [hrow]; rfl
            · rw [hrow]; rfl
            · rw [hrow]; rfl
            · rw [hrow]; rfl
            · exact Triple.bind (triple_schedule row.id) fun _ => hanswer row.id .pending true []

/-- A call returns, when it has answered. -/
theorem triple_call {environments : List String} (hknown : envKey ∈ environments)
    (createdBy : Option String) :
    Triple (contention w₀) t (Fresh t) (call environments sopId envKey createdBy)
      (fun _ => Finished t (.ok ())) fun _ _ => False := by
  refine Triple.bind triple_begin fun _ => ?_
  refine Triple.bind (B := fun result => Decided t sopId envKey result.checkId result.created [])
    ?_ fun result => triple_answer
  exact Triple.ensuring (fun _ => stable_decided) (fun _ => Stable.const False)
    (triple_startCheck hknown createdBy) (fun _ => triple_close)
    fun _ => Triple.of_false fun _ _ h => h

theorem within_getActiveCheck (sopId envKey : String) :
    Within (getActiveCheck sopId envKey) 2 := by
  refine Within.bind (m := 1) (n := 1) Within.perform fun found => ?_
  cases found with
  | none => trivial
  | some active => exact Within.bind (n := 0) Within.perform fun _ => trivial

theorem within_getCheck (id : CheckId) : Within (getCheck id) 2 := by
  refine Within.bind (m := 1) (n := 1) Within.perform fun found => ?_
  cases found with
  | none => trivial
  | some check => exact Within.bind (n := 0) Within.perform fun _ => trivial

theorem within_createCheck (values : NewCheck) : Within (createCheck values) 6 := by
  refine Within.bind (m := 2) (n := 4) (within_getActiveCheck _ _) fun found => ?_
  cases found with
  | some active => trivial
  | none =>
      refine Within.tryCatch (m := 1) (n := 3) Within.perform fun e => ?_
      cases e with
      | integrityError message =>
          refine Within.bind (m := 1) (n := 2) Within.perform fun _ => ?_
          refine Within.bind (n := 0) (within_getActiveCheck _ _) fun found => ?_
          cases found <;> trivial
      | _ => trivial

theorem within_appendEvent (id : CheckId) (type : EventType)
    (node checkpointId taskId message : Option String) :
    Within (appendEvent id type node checkpointId taskId message) 3 := by
  refine Within.bind (m := 2) (n := 1) ?_ fun _ => Within.perform
  refine Within.bind (m := 1) (n := 1) ?_ fun _ =>
    Within.bind (n := 0) Within.perform fun _ => trivial
  refine Within.bind (n := 0) Within.perform fun found => ?_
  cases found <;> trivial

theorem within_startCheck (environments : List String) (createdBy : Option String) :
    Within (startCheck environments sopId envKey createdBy) 14 := by
  unfold startCheck
  split
  · refine Within.bind (m := 2) (n := 12) (within_getActiveCheck _ _) fun found => ?_
    cases found with
    | some active => trivial
    | none =>
        refine Within.bind (m := 1) (n := 11) Within.perform fun session => ?_
        refine Within.bind (m := 6) (n := 5) (Within.tryCatch (n := 0)
          (Within.bind (n := 0) (within_createCheck _) fun _ => trivial) fun e => ?_)
          fun created => ?_
        · cases e <;> trivial
        · cases created with
          | error id =>
              have hget : Within (getCheck id >>= fun check =>
                  pure (checkStartResult id (statusFromCheck check) false)) 2 :=
                Within.bind (n := 0) (within_getCheck id) fun _ => trivial
              exact hget.mono (by omega)
          | ok row =>
              refine Within.bind (m := 3) (n := 2) (within_appendEvent _ _ _ _ _ _) fun _ => ?_
              refine Within.bind (m := 1) (n := 1) Within.perform fun _ => ?_
              exact Within.bind (n := 0) Within.perform fun _ => trivial
  · trivial

/-- A call awaits a bounded number of operations. -/
theorem within_call (environments : List String) (createdBy : Option String) :
    Within (call environments sopId envKey createdBy) 17 := by
  refine Within.bind (m := 1) (n := 16) Within.perform fun _ => ?_
  exact Within.bind (m := 15) (n := 1) (Within.ensuring (m := 14) (n := 1)
    (within_startCheck environments createdBy) Within.perform) fun _ => Within.perform

/-- A task that is no call takes no part in the creation of checks. -/
theorem triple_aside {α : Type} {p : Program α} {id : CheckId} (hp : Uses (RunOp id) p) :
    Triple (contention w₀) t (Aside t) p (fun _ => Aside t) fun _ => Aside t := by
  have hnote : ∀ {n}, RunOp id (.note n) → (∀ sopId envKey, n ≠ .called sopId envKey) ∧
      ∀ id created, n ≠ .answered id created := by
    intro n hn
    cases n <;> first | exact hn.elim | simp
  refine Triple.of_uses stable_aside (fun op s hop _ h => ⟨?_, fun sopId envKey hcalled =>
    absurd hcalled (h.uncalled sopId envKey)⟩) ?_ hp
  · cases op with
    | insertCheck => exact hop.elim
    | commit => exact fun session hsession => absurd hsession (h.sessions session)
    | note n => cases n <;> first | exact hop.elim | trivial
    | _ => trivial
  · intro op choice r s s' hop _ h _ hexec
    obtain ⟨hstep, hrecord⟩ := recording_eq_some hexec
    have hwrites : ∀ wr ∈ s'.1.store.pending t, wr ∈ s.1.store.pending t ∨
        ∃ w', Writes t s.1 w' op wr := by
      intro wr hwr
      rcases pending_of_effect (exec_outcome hstep).effect with ⟨heq, -⟩ | heq |
        ⟨wr', -, hwrites, -, heq⟩
      · exact .inl (heq ▸ hwr)
      · simp [heq] at hwr
      · rw [heq, List.mem_append, List.mem_singleton] at hwr
        rcases hwr with hwr | rfl
        · exact .inl hwr
        · exact .inr ⟨_, hwrites⟩
    refine ⟨fun sopId envKey hcalled => ?_, fun id hid => ?_, fun session hsession => ?_,
      fun row hrow => ?_⟩
    · rw [hrecord, List.mem_append] at hcalled
      rcases hcalled with hcalled | hcalled
      · exact h.uncalled sopId envKey hcalled
      · obtain ⟨rfl, -⟩ := mem_entries_called hcalled
        exact hop
    · rcases Contended.inserted_step hrecord hid with hid | ⟨⟨values, rfl⟩, -⟩
      · exact h.uninserted id hid
      · exact hop
    · rcases hwrites _ hsession with hold | ⟨w', hwr⟩
      · exact h.sessions session hold
      · cases hwr
        exact hop
    · rcases hwrites _ hrow with hold | ⟨w', hwr⟩
      · exact h.checks row hold
      · cases hwr
        exact hop

theorem Fresh.aside (h : Fresh t s) : Aside t s :=
  ⟨fun _ _ hcalled => h.silent _ hcalled rfl, fun _ hid => h.silent _ hid rfl,
    fun _ => by simp [h.pending], fun _ => by simp [h.pending]⟩

theorem Aside.finished (h : Aside t s) (r : Except Exn Unit) : Finished t r s :=
  ⟨fun _ _ hcalled => absurd hcalled (h.uncalled _ _), fun _ hid => absurd hid (h.uninserted _),
    h.checks⟩

theorem triple_contender {c : Collaborators} {p : Program Unit} (hp : Contender c p) :
    Triple (contention w₀) t (Fresh t) p (fun _ => Finished t (.ok ()))
      fun e => Finished t (.error e) := by
  have haside : ∀ (id : CheckId) {p : Program Unit}, Uses (RunOp id) p →
      Triple (contention w₀) t (Fresh t) p (fun _ => Finished t (.ok ()))
        fun e => Finished t (.error e) :=
    fun _ _ hp => (triple_aside hp).weaken (fun _ _ h => h.aside) (fun _ _ _ h => h.finished _)
      fun _ _ _ h => h.finished _
  cases hp with
  | call environments sopId envKey createdBy hknown =>
      exact (triple_call hknown createdBy).weaken (fun _ _ h => h) (fun _ _ _ h => h)
        fun _ _ _ h => h.elim
  | run id =>
      refine haside id (Uses.bind (Uses.perform trivial) fun _ => ?_)
      exact Uses.bind (uses_run c id) fun _ => trivial
  | startup => exact haside 0 (uses_startup.mono fun _ h => h.runOp)
  | transactions script =>
      exact haside 0 ((SopRunners.uses_transactions script).mono fun _ h => h.runOp)

end Calls

section Runs

variable {c : Collaborators} {w : World}

theorem gives_contender {t : TaskId} {p : Program Unit} (hp : Contender c p) :
    Gives unrestricted t p fun _ _ => True := by
  cases hp with
  | call environments sopId envKey createdBy hknown =>
      refine Gives.of_uses (Uses.bind (Uses.perform trivial) fun _ => Uses.bind ?_ fun _ =>
        Uses.perform trivial)
      exact Uses.ensuring ((uses_startCheck _ _ _ _).mono fun _ h => h.harmless)
        (Uses.perform trivial)
  | run id => exact disciplined_transactions c unrestricted t _ (.inl (.run id))
  | startup => exact disciplined_transactions c unrestricted t _ (.inl .startup)
  | transactions script => exact disciplined_transactions c unrestricted t _ (.inr ⟨script, rfl⟩)

abbrev ContenderSteps (c : Collaborators)
    (allowed : TaskId → Op → Choice → Recorded → Prop) : RecordedConfig → RecordedConfig → Prop :=
  Steps (recording exec entries) (Contender c) allowed

theorem contended_of_steps (hidle : Idle w) (hw : WellFormed w) {c' : RecordedConfig}
    (hsteps : ContenderSteps c RereadsFind (.idle (w, [])) c') :
    Invariant (contention w) (fun t => Fresh t) (fun t => Finished t) c' := by
  have hbase : Invariant recordedDiscipline (fun _ _ => True) (fun _ _ _ => True)
      (Config.idle (w, []) : RecordedConfig) := .idle (hw.coherent hidle) fun _ => trivial
  have hdisciplined := hbase.steps_pre (fun _ => Stable.const True)
    (fun t p hp s hinv _ => Safe.restrict (Safe.mono (fun _ _ _ _ => trivial)
      (Safe.recorded (gives_contender hp s.1 hinv trivial)))) hsteps
  have hcontended : Contended w (w, []) := by
    refine
      { drawn := Nat.le_refl _
        subject := fun _ _ _ _ _ h => by cases h
        numbered := fun _ _ h => by cases h
        unique := fun _ _ _ h => by cases h
        inserting := fun t row hrow => by simp [hidle.pending t] at hrow
        subjects := fun t _ _ howner => by simp [hidle.owner] at howner
        checks := fun _ h => .inl h
        sessions := fun _ h => .inl h
        once := fun _ => Nat.zero_le 1
        joined := fun _ _ _ h => by cases h
        created := fun _ _ h => by cases h }
  have hidleInv : Invariant (contention w) (fun t => Fresh t) (fun t => Finished t)
      (Config.idle (w, []) : RecordedConfig) :=
    .idle ⟨hw.coherent hidle, hcontended⟩ fun t =>
      ⟨fun entry hentry => by simp at hentry, hidle.pending t, hidle.invalid t⟩
  refine hidleInv.steps (fun _ => stable_fresh) (fun t p hp s hinv hfresh => ?_) hdisciplined
  refine Safe.mono ?_ (triple_contender hp s hinv hfresh)
  rintro (e | u) s' - hr
  · exact hr
  · exact hr

/-- A call that waits for a subject waits for another call of that subject, which goes on. -/
theorem progress_of_waits {c' : RecordedConfig}
    (hinv : Invariant (contention w) (fun t => Fresh t) (fun t => Finished t) c')
    {t : TaskId} {op : Op} {sopId envKey : String} (hcalled : .called t sopId envKey ∈ c'.shared.2)
    (hfounded : Founded t op c'.shared) (hwaits : Waits t op c'.shared.1) :
    ∃ t' op' k', .called t' sopId envKey ∈ c'.shared.2 ∧ c'.task t' = some (.await op' k') ∧
      Enabled t' op' c'.shared.1 := by
  obtain ⟨values, t', rfl, -, howner⟩ := hwaits
  have hcontended : Contended w c'.shared := hinv.shared.2
  obtain ⟨row, hrow, hsop, henv⟩ := hcontended.subjects t' _ _ howner
  obtain ⟨-, hcalled', -⟩ := hcontended.inserting t' row hrow
  obtain ⟨rfl, rfl⟩ := hcontended.subject t _ _ _ _ hcalled hfounded.1
  rw [hsop, henv] at hcalled'
  cases htask : c'.task t' with
  | none => simp [(hinv.fresh t' htask).pending] at hrow
  | some p =>
      cases p with
      | done u => exact absurd hrow ((hinv.ended (r := .ok u) htask).checks row)
      | raise e => exact absurd hrow ((hinv.ended (r := .error e) htask).checks row)
      | await op' k' =>
          obtain ⟨⟨hfounded', hready⟩, -⟩ :=
            hinv.safe t' _ htask c'.shared ((contention w).rely_refl t' _) hinv.shared
          refine ⟨t', op', k', hcalled', htask, (hready _ _ hcalled').resolve_right ?_⟩
          rintro ⟨values', t'', rfl, -, -⟩
          exact hfounded'.2 row hrow

theorem createOrJoin_of_invariant (hw : WellFormed w) {c' : RecordedConfig}
    (hinv : Invariant (contention w) (fun t => Fresh t) (fun t => Finished t) c') :
    CreateOrJoin w c' := by
  have hcontended : Contended w c'.shared := hinv.shared.2
  refine ⟨fun t sopId envKey hcalled r htask => ?_, hcontended.once,
    fun t sopId envKey hcalled op k htask => ?_, fun t id created hid => ?_,
    fun id hid hnew => ?_, fun t id hid => ?_, fun sid hsid hnew => ?_⟩
  · exact (hinv.ended htask).normal sopId envKey hcalled
  · obtain ⟨⟨hfounded, hready⟩, -⟩ :=
      hinv.safe t _ htask c'.shared ((contention w).rely_refl t _) hinv.shared
    exact (hready sopId envKey hcalled).imp_right (progress_of_waits hinv hcalled hfounded)
  · obtain ⟨sopId, envKey, hcalled, db, hdb, hactive⟩ := hcontended.joined t id created hid
    exact ⟨sopId, envKey, db, hcalled, hdb, hactive⟩
  · rcases hcontended.checks id hid with hold | ⟨t, ht⟩
    · simp [Present, hnew] at hold
    · exact ⟨t, fun r htask => (hinv.ended htask).reported id ht,
        fun t' ht' => hcontended.unique t t' id ht (hcontended.created t' id ht').1⟩
  · obtain ⟨hinserted, hpresent⟩ := hcontended.created t id hid
    have hfresh := hw.checkFresh id (hcontended.numbered t id hinserted).1
    exact ⟨hpresent, (Prod.mk.inj hfresh).1⟩
  · rcases hcontended.sessions sid hsid with hold | hlinked
    · simp [Present, hnew] at hold
    · exact hlinked

end Runs

/-- In every run over a healthy database in which a check that is in the way of another one is still
active when the call looks for it: each call returns with a check of its subject that was active
during the call, one call reports to have created a check, and no session is committed without its
check. A call awaits at most 17 operations, so it does return. -/
theorem create_or_join (c : Collaborators) {w : World} (hidle : Idle w) (hw : WellFormed w) :
    (∀ c' : RecordedConfig, ContenderSteps c RereadsFind (.idle (w, [])) c' →
      CreateOrJoin w c') ∧
    ∀ environments sopId envKey createdBy,
      Within (call environments sopId envKey createdBy) 17 :=
  ⟨fun _ hsteps => createOrJoin_of_invariant hw (contended_of_steps hidle hw hsteps),
    fun environments _ _ createdBy => within_call environments createdBy⟩

def start : Program Unit :=
  call ["prod"] "sop-1" "prod" none

theorem contender_start : Contender collaborators start :=
  .call _ _ _ _ List.mem_cons_self

def drew (t : TaskId) (threadId : String) : Move Reply Exn TaskId Choice :=
  .resume t (.succeed (.text threadId) true)

/-- Two calls find no active check, and the insert of the first one is refused for the check of the
second one. -/
def conflict : List (Move Reply Exn TaskId Choice) :=
  [.spawn 0 start, .spawn 1 start, .spawn 2 interruptLeftoverSopQualityChecks] ++
    List.replicate 2 (proceed 0) ++ [drew 0 "thread-2", proceed 0] ++
    List.replicate 2 (proceed 1) ++ [drew 1 "thread-3"] ++ List.replicate 6 (proceed 1) ++
    [.resume 0 (.fail (.integrityError "uq_sop_quality_checks_active") true)]

/-- What an entry tells of an answer. -/
def answerOf : Entry → Option (TaskId × CheckId × Bool)
  | .answered t id created => some (t, id, created)
  | _ => none

/-- The first call joins the check of the second one. -/
def joinsLater : List (Move Reply Exn TaskId Choice) :=
  conflict ++ List.replicate 7 (proceed 0) ++ List.replicate 3 (proceed 1)

theorem spawns_conflict {moves : List (Move Reply Exn TaskId Choice)}
    (h : started moves = [start, start, interruptLeftoverSopQualityChecks]) :
    ∀ p ∈ started moves, Contender collaborators p := by
  simpa [h] using ⟨contender_start, Contender.startup⟩

theorem create_or_join_joinsLater : ∃ c' : RecordedConfig,
    follow (recording exec entries) RereadsFind (.idle (oneCheck .succeeded, [])) joinsLater =
        some c' ∧
      c'.shared.2.filterMap answerOf = [(0, 1, false), (1, 1, true)] ∧
      CreateOrJoin (oneCheck .succeeded) c' := by
  have hrun : ∃ c' : RecordedConfig,
      follow (recording exec entries) RereadsFind (.idle (oneCheck .succeeded, [])) joinsLater =
          some c' ∧
        c'.shared.2.filterMap answerOf = [(0, 1, false), (1, 1, true)] := ⟨_, rfl, rfl⟩
  obtain ⟨c', hfollow, hanswers⟩ := hrun
  exact ⟨c', hfollow, hanswers, (create_or_join collaborators (idle_oneCheck .succeeded)
    (wellFormed_oneCheck .succeeded)).1 c' (follow_steps (spawns_conflict rfl) hfollow)⟩

/-- The check of the second call is interrupted before the first call looks for it. -/
def vanishes : List (Move Reply Exn TaskId Choice) :=
  conflict ++ List.replicate 8 (proceed 2) ++ List.replicate 3 (proceed 0)

/-- A call raises when the check that was in its way has ended before the call looks again. -/
theorem create_or_join_vanishes : ¬ ∀ c' : RecordedConfig,
    ContenderSteps collaborators Healthy (.idle (oneCheck .succeeded, [])) c' →
      CreateOrJoin (oneCheck .succeeded) c' := by
  have hrun : ∃ c' : RecordedConfig,
      follow (recording exec entries) Healthy (.idle (oneCheck .succeeded, [])) vanishes =
          some c' ∧
        c'.task 0 = some (.leave (.error (.integrityError "uq_sop_quality_checks_active"))) ∧
        c'.shared.2.head? = some (.called 0 "sop-1" "prod") := ⟨_, rfl, rfl, rfl⟩
  obtain ⟨c', hfollow, htask, hhead⟩ := hrun
  intro h
  have hjoin := h c' (follow_steps (spawns_conflict rfl) hfollow)
  have hcalled : .called 0 "sop-1" "prod" ∈ c'.shared.2 := List.mem_of_mem_head? hhead
  cases (hjoin.returns 0 _ _ hcalled _ htask).1

end ChangeQuality.SopJoining
