import ChangeQuality.Interference
import ChangeQuality.SopEffects

/-!
The discipline that all tasks of the SOP quality backend share: rows are never deleted and keep
their session, every write happens under its lock, and a check is set to running only while its
committed status is active. The properties of the backend are proved on top of this.
-/

namespace ChangeQuality.SopInvariant

open ChangeQuality.SopTables
open ChangeQuality.SopRepository
open ChangeQuality.SopSystem
open ChangeQuality.SopEffects
open ChangeQuality.ReadCommitted
open ChangeQuality.Coroutine
open ChangeQuality.Interference

/-- Later tables: rows may have been added and changed, but not deleted, and a check keeps its
session. -/
structure Extends (db db' : Db) : Prop where
  check : ∀ id row, db.check id = some row →
    ∃ row', db'.check id = some row' ∧ row'.sessionId = row.sessionId
  session : ∀ id, Present db (.session id) → Present db' (.session id)

theorem Extends.refl (db : Db) : Extends db db :=
  ⟨fun _ row h => ⟨row, h, rfl⟩, fun _ h => h⟩

theorem Extends.trans {db₁ db₂ db₃ : Db} (h : Extends db₁ db₂) (h' : Extends db₂ db₃) :
    Extends db₁ db₃ := by
  refine ⟨fun id row hrow => ?_, fun id hid => h'.session id (h.session id hid)⟩
  obtain ⟨row₂, hrow₂, hsession₂⟩ := h.check id row hrow
  obtain ⟨row₃, hrow₃, hsession₃⟩ := h'.check id row₂ hrow₂
  exact ⟨row₃, hrow₃, hsession₃.trans hsession₂⟩

theorem extends_apply (wr : Write) (db : Db) : Extends db (schema.apply wr db) := by
  refine ⟨fun id row hrow => ?_, fun id hid => ?_⟩
  · cases wr with
    | insertCheck other => exact ⟨row, by simp [check_insertCheck, hrow], rfl⟩
    | updateCheck id' patch =>
        rw [check_updateCheck]
        split
        · exact ⟨patch.apply row, by simp [hrow], rfl⟩
        · exact ⟨row, hrow, rfl⟩
    | _ => exact ⟨row, hrow, rfl⟩
  · obtain ⟨row, hrow⟩ := Option.isSome_iff_exists.mp hid
    cases wr with
    | insertSession other => simp [Present, session_insertSession, hrow]
    | updateSession id' patch =>
        simp only [Present, session_updateSession, hrow]
        split <;> simp
    | _ => exact hid

theorem extends_applyAll (ws : List Write) (db : Db) : Extends db (applyAll schema ws db) :=
  applyAll_keeps (φ := Extends db) (fun wr _ db' h => h.trans (extends_apply wr db')) (.refl db)

theorem Known.extends {db db' : Db} {copy : SopQualityCheck} (h : Known db copy)
    (hext : Extends db db') : Known db' copy := by
  obtain ⟨row, hrow, hsession⟩ := h
  obtain ⟨row', hrow', hsession'⟩ := hext.check copy.id row hrow
  exact ⟨row', hrow', hsession'.trans hsession⟩

theorem Present.extends {db db' : Db} {k : Key} (h : Present db k) (hext : Extends db db') :
    Present db' k := by
  cases k with
  | check id =>
      obtain ⟨row, hrow⟩ := Option.isSome_iff_exists.mp h
      obtain ⟨row', hrow', -⟩ := hext.check id row hrow
      simp [Present, hrow']
  | session id => exact hext.session id h
  | subject sopId envKey => trivial

theorem Known.present {db : Db} {copy : SopQualityCheck} (h : Known db copy) :
    Present db (.check copy.id) := by
  obtain ⟨row, hrow, -⟩ := h
  simp [Present, hrow]

/-- Every session that a check names exists. -/
def Linked (db : Db) : Prop :=
  ∀ id row sid, db.check id = some row → row.sessionId = some sid → Present db (.session sid)

/-- What holds between any two steps of the backend. -/
structure Coherent (w : World) : Prop where
  guarded : w.store.Guarded schema
  checkLocks : ∀ id t, w.store.owner (.check id) = some t → id < w.nextCheck
  sessionLocks : ∀ id t, w.store.owner (.session id) = some t → id < w.nextSession
  checkFresh : ∀ id, w.nextCheck ≤ id → (checkAspect id).read w.store.committed = (none, [])
  sessionFresh : ∀ id, w.nextSession ≤ id → (sessionAspect id).read w.store.committed = (none, [])
  linked : Linked w.store.committed
  viewLinked : ∀ t, Linked (w.view t)
  checks : ∀ t, ∀ copy ∈ w.checks t, Known (w.view t) copy
  sessions : ∀ t, ∀ copy ∈ w.sessions t, Present (w.view t) (.session copy.id)
  status : ∀ t id patch, .updateCheck id patch ∈ w.store.pending t →
    patch.status ≠ some .pending ∧ (patch.status = some .running →
      ∀ row, w.store.committed.check id = some row → row.status.active = true)

/-- What a task may rely on while the others take steps. -/
structure Rely (t : TaskId) (w w' : World) : Prop where
  pending : w'.store.pending t = w.store.pending t
  checks : w'.checks t = w.checks t
  sessions : w'.sessions t = w.sessions t
  invalid : w'.invalid t = w.invalid t
  phase : w'.phase t = w.phase t
  owner : ∀ k, w'.store.owner k = some t ↔ w.store.owner k = some t
  checkLocked : ∀ id, w.store.owner (.check id) = some t →
    (checkAspect id).read w'.store.committed = (checkAspect id).read w.store.committed
  sessionLocked : ∀ id, w.store.owner (.session id) = some t →
    (sessionAspect id).read w'.store.committed = (sessionAspect id).read w.store.committed
  grown : Extends w.store.committed w'.store.committed
  terminal : ∀ id row, w.store.committed.check id = some row → row.status.active = false →
    ∃ row', w'.store.committed.check id = some row' ∧ row'.status.active = false

/-- What a task must have established before an operation. -/
def Discipline (t : TaskId) (op : Op) (w : World) : Prop :=
  match op with
  | .updateCheck check patch =>
      Known (w.view t) check ∧ patch.status ≠ some .pending ∧
        (patch.status = some .running → w.store.owner (.check check.id) = some t ∧
          ∃ row, (w.view t).check check.id = some row ∧ row.status = .pending)
  | .updateSession session _ => Present (w.view t) (.session session.id)
  | _ => True

theorem Rely.refl (t : TaskId) (w : World) : Rely t w w where
  pending := rfl
  checks := rfl
  sessions := rfl
  invalid := rfl
  phase := rfl
  owner _ := Iff.rfl
  checkLocked _ _ := rfl
  sessionLocked _ _ := rfl
  grown := .refl _
  terminal _ row h hterminal := ⟨row, h, hterminal⟩

theorem Rely.trans {t : TaskId} {w₁ w₂ w₃ : World} (h : Rely t w₁ w₂) (h' : Rely t w₂ w₃) :
    Rely t w₁ w₃ where
  pending := h'.pending.trans h.pending
  checks := h'.checks.trans h.checks
  sessions := h'.sessions.trans h.sessions
  invalid := h'.invalid.trans h.invalid
  phase := h'.phase.trans h.phase
  owner k := (h'.owner k).trans (h.owner k)
  checkLocked id howner :=
    (h'.checkLocked id ((h.owner _).mpr howner)).trans (h.checkLocked id howner)
  sessionLocked id howner :=
    (h'.sessionLocked id ((h.owner _).mpr howner)).trans (h.sessionLocked id howner)
  grown := h.grown.trans h'.grown
  terminal id row hrow hterminal := by
    obtain ⟨row₂, hrow₂, hterminal₂⟩ := h.terminal id row hrow hterminal
    exact h'.terminal id row₂ hrow₂ hterminal₂

section Views

variable {t : TaskId} {w w' : World}

/-- What the tables show of a check that the task has locked is not changed by the others. -/
theorem Rely.view_check (h : Rely t w w') {id : CheckId}
    (howner : w.store.owner (.check id) = some t) :
    (checkAspect id).read (w'.view t) = (checkAspect id).read (w.view t) := by
  simp only [World.view, Store.view, h.pending]
  exact (checkAspect id).applyAll_congr _ (h.checkLocked id howner)

theorem Rely.view_session (h : Rely t w w') {id : SessionId}
    (howner : w.store.owner (.session id) = some t) :
    (sessionAspect id).read (w'.view t) = (sessionAspect id).read (w.view t) := by
  simp only [World.view, Store.view, h.pending]
  exact (sessionAspect id).applyAll_congr _ (h.sessionLocked id howner)

/-- A check that the task has not locked looks to it as it is committed. -/
theorem view_check_committed (hguard : w.store.Guarded schema) {id : CheckId}
    (howner : w.store.owner (.check id) ≠ some t) :
    (w.view t).check id = w.store.committed.check id :=
  (Prod.mk.inj ((checkAspect id).view_eq_committed hguard howner)).1

theorem view_session_committed (hguard : w.store.Guarded schema) {id : SessionId}
    (howner : w.store.owner (.session id) ≠ some t) :
    (w.view t).session id = w.store.committed.session id :=
  (Prod.mk.inj ((sessionAspect id).view_eq_committed hguard howner)).1

/-- The views of a task only grow while the others take steps. -/
theorem Rely.extends_view (h : Rely t w w') (hguard : w.store.Guarded schema) :
    Extends (w.view t) (w'.view t) := by
  have hlater : Extends w'.store.committed (w'.view t) := extends_applyAll _ _
  refine ⟨fun id row hrow => ?_, fun id hid => ?_⟩
  · by_cases howner : w.store.owner (.check id) = some t
    · exact ⟨row, (Prod.mk.inj (h.view_check howner)).1.trans hrow, rfl⟩
    · rw [view_check_committed hguard howner] at hrow
      exact (h.grown.trans hlater).check id row hrow
  · by_cases howner : w.store.owner (.session id) = some t
    · simpa only [Present, (Prod.mk.inj (h.view_session howner)).1] using hid
    · simp only [Present, view_session_committed hguard howner] at hid
      exact (h.grown.trans hlater).session id hid

theorem Rely.linked_view (h : Rely t w w') (hguard : w.store.Guarded schema)
    (hguard' : w'.store.Guarded schema) (hlinked' : Linked w'.store.committed)
    (hview : Linked (w.view t)) : Linked (w'.view t) := by
  intro id row sid hrow hsession
  by_cases howner : w.store.owner (.check id) = some t
  · have hold := (Prod.mk.inj (h.view_check howner)).1.symm.trans hrow
    exact (h.extends_view hguard).session sid (hview id row sid hold hsession)
  · have howner' : w'.store.owner (.check id) ≠ some t := fun h' => howner ((h.owner _).mp h')
    rw [view_check_committed hguard' howner'] at hrow
    exact (extends_applyAll _ _).session sid (hlinked' id row sid hrow hsession)

end Views

section Steps

variable {t t' : TaskId} {op : Op} {choice : Choice} {w w' : World} {r : Except Exn (Reply op)}
  {failed : Prop}

/-- What the transaction itself sees after one of its operations. -/
theorem view_of_effect (h : Effect t w w' failed op) :
    w'.view t = w.view t ∨
      w'.view t = w.store.committed ∧ (failed ∨ op = .rollback ∨ op = .close) ∧
        w'.checks t = [] ∧ w'.sessions t = [] ∨
      ∃ wr, Writes t w w' op wr ∧ w.store.write schema t wr = some w'.store ∧
        w'.view t = schema.apply wr (w.view t) := by
  cases h with
  | stay h => exact .inl (by simp only [World.view, h])
  | lock _ _ h =>
      have hlocks := Store.lock_eq_some h
      exact .inl (by simp only [World.view, Store.view, hlocks.pending, hlocks.committed])
  | write hok hwr h =>
      obtain ⟨mid, hlocks, hrecord⟩ := Store.write_eq_some h
      refine .inr (.inr ⟨_, hwr, h, ?_⟩)
      simp only [World.view, Store.view, hrecord, Store.record_pending, Store.record_committed,
        applyAll_append, hlocks.pending, hlocks.committed]
  | commit hok h =>
      refine .inl ?_
      simp only [World.view, Store.view, h, Store.commit, Function.update_self, applyAll_nil]
  | rollback hended h hchecks hsessions =>
      refine .inr (.inl ⟨?_, hended, hchecks, hsessions⟩)
      simp only [World.view, Store.view, h, Store.rollback, Function.update_self, applyAll_nil]

/-- The committed tables change only by a commit, which publishes the view of its transaction. -/
theorem committed_of_effect (h : Effect t w w' failed op) :
    w'.store.committed = w.store.committed ∨
      op = .commit ∧ ¬ failed ∧ w'.store.committed = w.view t := by
  cases h with
  | stay h => exact .inl (by rw [h])
  | lock _ _ h => exact .inl (Store.lock_eq_some h).committed
  | write _ _ h =>
      obtain ⟨mid, hlocks, hrecord⟩ := Store.write_eq_some h
      exact .inl (by rw [hrecord, Store.record_committed, hlocks.committed])
  | commit hok h => exact .inr ⟨rfl, hok, by rw [h]; rfl⟩
  | rollback _ h => exact .inl (by rw [h]; rfl)

/-- The writes of the transaction after one of its operations. -/
theorem pending_of_effect (h : Effect t w w' failed op) :
    w'.store.pending t = w.store.pending t ∧ w'.store.committed = w.store.committed ∨
      w'.store.pending t = [] ∨
      ∃ wr, ¬ failed ∧ Writes t w w' op wr ∧ w'.store.committed = w.store.committed ∧
        w'.store.pending t = w.store.pending t ++ [wr] := by
  cases h with
  | stay h => exact .inl ⟨by rw [h], by rw [h]⟩
  | lock _ _ h =>
      have hlocks := Store.lock_eq_some h
      exact .inl ⟨by rw [hlocks.pending], hlocks.committed⟩
  | write hok hwr h =>
      obtain ⟨mid, hlocks, hrecord⟩ := Store.write_eq_some h
      refine .inr (.inr ⟨_, hok, hwr, ?_, ?_⟩)
      · rw [hrecord, Store.record_committed, hlocks.committed]
      · rw [hrecord, Store.record_pending, hlocks.pending]
  | commit hok h => exact .inr (.inl (by rw [h]; simp [Store.commit]))
  | rollback _ h => exact .inr (.inl (by rw [h]; simp [Store.rollback]))

/-- A check with an outcome keeps one, whatever the transaction has written. -/
theorem Coherent.terminal_view (h : Coherent w) {id : CheckId} {row : SopQualityCheck}
    (hrow : w.store.committed.check id = some row) (hterminal : row.status.active = false) :
    ∃ row', (w.view t).check id = some row' ∧ row'.status.active = false := by
  refine applyAll_keeps
    (φ := fun db : Db => ∃ row', db.check id = some row' ∧ row'.status.active = false) ?_
    ⟨row, hrow, hterminal⟩
  rintro wr hwr db ⟨row', hrow', hterminal'⟩
  cases wr with
  | insertCheck other => exact ⟨row', by simp [check_insertCheck, hrow'], hterminal'⟩
  | updateCheck id' patch =>
      rw [check_updateCheck]
      split
      · rename_i hid
        subst hid
        refine ⟨patch.apply row', by simp [hrow'], ?_⟩
        obtain ⟨hpending, hrunning⟩ := h.status t id patch hwr
        cases hstatus : patch.status with
        | none => simpa [CheckPatch.apply, hstatus] using hterminal'
        | some status =>
            cases status with
            | pending => exact absurd hstatus hpending
            | running => simp [hrunning hstatus row hrow] at hterminal
            | _ => simp [CheckPatch.apply, hstatus, CheckStatus.active]
      · exact ⟨row', hrow', hterminal'⟩
  | _ => exact ⟨row', hrow', hterminal'⟩

/-- Every operation looks to the other tasks like something that they rely on. -/
theorem Coherent.rely (h : Coherent w) (houtcome : Outcome t w failed op w') (hne : t' ≠ t) :
    Rely t' w w' := by
  have hchange := houtcome.effect.change
  refine
    { pending := hchange.pending_ne hne
      checks := houtcome.frame.checks t' hne
      sessions := houtcome.frame.sessions t' hne
      invalid := houtcome.frame.invalid t' hne
      phase := houtcome.frame.phase t' hne
      owner := fun k => hchange.owner_ne hne
      checkLocked := fun id howner =>
        (checkAspect id).committed_keeps h.guarded hchange howner hne
      sessionLocked := fun id howner =>
        (sessionAspect id).committed_keeps h.guarded hchange howner hne
      grown := ?_
      terminal := ?_ }
  · rcases committed_of_effect houtcome.effect with heq | ⟨-, -, heq⟩
    · exact heq ▸ .refl _
    · exact heq ▸ extends_applyAll _ _
  · intro id row hrow hterminal
    rcases committed_of_effect houtcome.effect with heq | ⟨-, -, heq⟩
    · exact ⟨row, heq ▸ hrow, hterminal⟩
    · exact heq ▸ h.terminal_view hrow hterminal

/-- A check that a task sees has a number that was drawn. -/
theorem Coherent.check_lt (h : Coherent w) {id : CheckId}
    (hid : Present (w.view t) (.check id)) : id < w.nextCheck := by
  by_contra hle
  have hfresh := h.checkFresh id (Nat.le_of_not_lt hle)
  have howner : w.store.owner (.check id) ≠ some t := fun howner =>
    hle (h.checkLocks id t howner)
  rw [← (checkAspect id).view_eq_committed h.guarded howner] at hfresh
  have hnone : (w.view t).check id = none := (Prod.mk.inj hfresh).1
  simp [Present, hnone] at hid

theorem Coherent.session_lt (h : Coherent w) {id : SessionId}
    (hid : Present (w.view t) (.session id)) : id < w.nextSession := by
  by_contra hle
  have hfresh := h.sessionFresh id (Nat.le_of_not_lt hle)
  have howner : w.store.owner (.session id) ≠ some t := fun howner =>
    hle (h.sessionLocks id t howner)
  rw [← (sessionAspect id).view_eq_committed h.guarded howner] at hfresh
  have hnone : (w.view t).session id = none := (Prod.mk.inj hfresh).1
  simp [Present, hnone] at hid

/-- The rows that a write locks have numbers that were drawn. -/
theorem Coherent.written_lt (h : Coherent w) (hpre : Discipline t op w)
    (hframe : Local t w w') {wr : Write} (hwr : Writes t w w' op wr) :
    (∀ id, .check id ∈ schema.rowsOf wr → id < w'.nextCheck) ∧
      ∀ id, .session id ∈ schema.rowsOf wr → id < w'.nextSession := by
  cases hwr with
  | updateCheck =>
      refine ⟨fun id hid => ?_, fun id hid => ?_⟩ <;> simp [schema] at hid
      exact hid ▸ (h.check_lt (Known.present hpre.1)).trans_le hframe.nextCheck
  | insertEvent hpresent =>
      refine ⟨fun id hid => ?_, fun id hid => ?_⟩ <;> simp [schema] at hid
      exact hid ▸ (h.check_lt hpresent).trans_le hframe.nextCheck
  | insertCheck _ hnext =>
      refine ⟨fun id hid => ?_, fun id hid => ?_⟩ <;> simp [schema, NewCheck.toRow] at hid
      exact hid ▸ hnext ▸ Nat.lt_succ_self _
  | insertSession hrow _ hnext =>
      refine ⟨fun id hid => ?_, fun id hid => ?_⟩ <;> simp [schema] at hid
      exact hid ▸ hrow ▸ hnext ▸ Nat.lt_succ_self _
  | updateSession =>
      refine ⟨fun id hid => ?_, fun id hid => ?_⟩ <;> simp [schema] at hid
      exact hid ▸ (h.session_lt hpre).trans_le hframe.nextSession
  | insertMessage hpresent =>
      refine ⟨fun id hid => ?_, fun id hid => ?_⟩ <;> simp [schema] at hid
      exact hid ▸ (h.session_lt hpresent).trans_le hframe.nextSession

/-- A lock of the task after its operation is an old one, or on a row that the operation names. -/
theorem owner_of_effect {k : Key} (heffect : Effect t w w' failed op)
    (howner : w'.store.owner k = some t) :
    w.store.owner k = some t ∨ (lockOf op = some k ∧ Present (w.view t) k) ∨
      ∃ wr, Writes t w w' op wr ∧ k ∈ schema.rowsOf wr := by
  cases heffect with
  | stay h => exact .inl (h ▸ howner)
  | lock hop hpresent h =>
      rcases (Store.lock_eq_some h).only k t howner with hold | ⟨-, hk⟩
      · exact .inl hold
      · exact .inr (.inl (List.mem_singleton.mp hk ▸ ⟨hop, hpresent⟩))
  | write hok hwr h =>
      obtain ⟨mid, hlocks, hrecord⟩ := Store.write_eq_some h
      rw [hrecord, Store.record_owner] at howner
      rcases hlocks.only k t howner with hold | ⟨-, hk⟩
      · exact .inl hold
      · exact .inr (.inr ⟨_, hwr, hk⟩)
  | commit hok h => simp [h, Store.commit, Store.release] at howner
  | rollback _ h => simp [h, Store.rollback, Store.release] at howner

/-- The locks of a task after its operation are old ones, or on rows with drawn numbers. -/
theorem Coherent.locked_lt (h : Coherent w) (hpre : Discipline t op w)
    (houtcome : Outcome t w failed op w') :
    (∀ id, w'.store.owner (.check id) = some t → id < w'.nextCheck) ∧
      ∀ id, w'.store.owner (.session id) = some t → id < w'.nextSession := by
  refine ⟨fun id howner => ?_, fun id howner => ?_⟩
  · rcases owner_of_effect houtcome.effect howner with hold | ⟨-, hpresent⟩ | ⟨wr, hwr, hrow⟩
    · exact (h.checkLocks id t hold).trans_le houtcome.frame.nextCheck
    · exact (h.check_lt hpresent).trans_le houtcome.frame.nextCheck
    · exact (h.written_lt hpre houtcome.frame hwr).1 id hrow
  · rcases owner_of_effect houtcome.effect howner with hold | ⟨-, hpresent⟩ | ⟨wr, hwr, hrow⟩
    · exact (h.sessionLocks id t hold).trans_le houtcome.frame.nextSession
    · exact (h.session_lt hpresent).trans_le houtcome.frame.nextSession
    · exact (h.written_lt hpre houtcome.frame hwr).2 id hrow

/-- A number that was not drawn belongs to nothing that a task sees. -/
theorem Coherent.view_fresh (h : Coherent w) {id : CheckId} (hid : w.nextCheck ≤ id) :
    (checkAspect id).read (w.view t) = (none, []) := by
  rw [← h.checkFresh id hid]
  refine (checkAspect id).view_eq_committed h.guarded fun howner => ?_
  exact Nat.not_lt_of_le hid (h.checkLocks id t howner)

theorem Coherent.view_session_fresh (h : Coherent w) {id : SessionId} (hid : w.nextSession ≤ id) :
    (sessionAspect id).read (w.view t) = (none, []) := by
  rw [← h.sessionFresh id hid]
  refine (sessionAspect id).view_eq_committed h.guarded fun howner => ?_
  exact Nat.not_lt_of_le hid (h.sessionLocks id t howner)

/-- What the database checks before a write keeps every check linked to its session. -/
theorem Linked.apply {wr : Write} (hlinked : Linked (w.view t)) (hwr : Writes t w w' op wr) :
    Linked (schema.apply wr (w.view t)) := by
  intro id row sid hrow hsession
  refine (extends_apply wr (w.view t)).session sid ?_
  cases hwr with
  | @updateCheck check patch =>
      rw [check_updateCheck] at hrow
      split at hrow
      · obtain ⟨old, hold, rfl⟩ := Option.map_eq_some_iff.mp hrow
        exact hlinked id old sid hold hsession
      · exact hlinked id row sid hrow hsession
  | insertCheck hpresent _ =>
      rw [check_insertCheck] at hrow
      rcases Option.or_eq_some_iff.mp hrow with hrow | ⟨-, hrow⟩
      · exact hlinked id row sid hrow hsession
      · split at hrow
        · obtain rfl := Option.some.inj hrow
          exact hpresent sid hsession
        · simp at hrow
  | _ => exact hlinked id row sid hrow hsession

/-- A transaction that sees a check as pending has not changed its status. -/
theorem Coherent.pending_committed (h : Coherent w) {id : CheckId} {row row₀ : SopQualityCheck}
    (hrow₀ : w.store.committed.check id = some row₀) (hrow : (w.view t).check id = some row)
    (hpending : row.status = .pending) : row₀.status = .pending := by
  have hkeep : ∃ row', (w.view t).check id = some row' ∧
      (row'.status = .pending → row₀.status = .pending) := by
    refine applyAll_keeps
      (φ := fun db : Db => ∃ row', db.check id = some row' ∧
        (row'.status = .pending → row₀.status = .pending)) ?_ ⟨row₀, hrow₀, fun h => h⟩
    rintro wr hwr db ⟨row', hrow', hpend⟩
    cases wr with
    | insertCheck other => exact ⟨row', by simp [check_insertCheck, hrow'], hpend⟩
    | updateCheck id' patch =>
        rw [check_updateCheck]
        split
        · rename_i hid
          subst hid
          refine ⟨patch.apply row', by simp [hrow'], fun hstatus => ?_⟩
          have hne := (h.status t id patch hwr).1
          cases hpatch : patch.status with
          | none => exact hpend (by simpa [CheckPatch.apply, hpatch] using hstatus)
          | some status =>
              have : status = .pending := by simpa [CheckPatch.apply, hpatch] using hstatus
              exact absurd (this ▸ hpatch) hne
        · exact ⟨row', hrow', hpend⟩
    | _ => exact ⟨row', hrow', hpend⟩
  obtain ⟨row', hrow', himp⟩ := hkeep
  exact himp (Option.some.inj (hrow'.symm.trans hrow) ▸ hpending)

/-- A transaction's own view grows until it is rolled back, which expires its copies. -/
theorem view_grows (heffect : Effect t w w' failed op) :
    (w'.checks t = [] ∧ w'.sessions t = []) ∨ Extends (w.view t) (w'.view t) := by
  rcases view_of_effect heffect with heq | ⟨-, -, hexpired⟩ | ⟨wr, -, -, heq⟩
  · exact .inr (heq ▸ .refl _)
  · exact .inl hexpired
  · exact .inr (heq ▸ extends_apply wr _)

/-- A successful operation rolls nothing back, unless it is there to do so. -/
theorem succeed_grows {answer : Answer} {kept : Bool} {reply : Reply op} (hrollback : op ≠ .rollback)
    (hclose : op ≠ .close) (h : succeed t answer kept w op = some (reply, w')) :
    Extends (w.view t) (w'.view t) := by
  have heffect := (succeed_outcome h).effect
  rcases view_of_effect heffect with heq | ⟨-, hended, -⟩ | ⟨wr, -, -, heq⟩
  · exact heq ▸ .refl _
  · exact absurd hended (by simp [hrollback, hclose])
  · exact heq ▸ extends_apply wr _

theorem view_of_write {wr : Write} (h : w.store.write schema t wr = some w'.store) :
    w'.view t = schema.apply wr (w.view t) := by
  obtain ⟨mid, hlocks, hrecord⟩ := Store.write_eq_some h
  simp only [World.view, Store.view, hrecord, Store.record_pending, Store.record_committed,
    applyAll_append, hlocks.pending, hlocks.committed]

/-- The copies that a session has loaded are known to its task. -/
theorem Coherent.copies (h : Coherent w) (hpre : Discipline t op w)
    (houtcome : Outcome t w failed op w') :
    (∀ copy ∈ w'.checks t, Known (w'.view t) copy) ∧
      ∀ copy ∈ w'.sessions t, Present (w'.view t) (.session copy.id) := by
  rcases view_grows houtcome.effect with ⟨hchecks, hsessions⟩ | hgrows
  · simp [hchecks, hsessions]
  refine ⟨fun copy hcopy => ?_, fun copy hcopy => ?_⟩
  · rcases houtcome.loads.checks copy hcopy with hold | hknown | ⟨check, patch, rfl, rfl⟩ |
      ⟨hid, hwrite⟩
    · exact Known.extends (h.checks t copy hold) hgrows
    · exact Known.extends hknown hgrows
    · exact Known.extends hpre.1 hgrows
    · have hnone : (w.view t).check copy.id = none :=
        (Prod.mk.inj (h.view_fresh (t := t) hid.ge)).1
      refine ⟨copy, ?_, rfl⟩
      rw [view_of_write hwrite, check_insertCheck, hnone]
      simp
  · rcases houtcome.loads.sessions copy hcopy with hold | hrow | ⟨session, status, rfl, rfl⟩ |
      ⟨-, hwrite⟩
    · exact hgrows.session _ (h.sessions t copy hold)
    · exact hgrows.session _ (by simp [Present, hrow])
    · exact hgrows.session session.id hpre
    · simp only [Present, view_of_write hwrite, session_insertSession]
      simp

theorem net_status {check : SopQualityCheck} {patch : CheckPatch} {status : CheckStatus}
    (h : (patch.net check).status = some status) : patch.status = some status :=
  (Option.filter_eq_some_iff.mp h).1

/-- The status that a transaction has written to a check is allowed there. -/
theorem Coherent.written_status (h : Coherent w) (hpre : Discipline t op w)
    (houtcome : Outcome t w failed op w') {id : CheckId} {patch : CheckPatch}
    (hpatch : .updateCheck id patch ∈ w'.store.pending t) :
    patch.status ≠ some .pending ∧ (patch.status = some .running →
      ∀ row, w'.store.committed.check id = some row → row.status.active = true) := by
  rcases pending_of_effect houtcome.effect with ⟨heq, hcommitted⟩ | heq |
    ⟨wr, -, hwr, hcommitted, heq⟩
  · rw [hcommitted]
    exact h.status t id patch (heq ▸ hpatch)
  · simp [heq] at hpatch
  · rw [heq, List.mem_append, List.mem_singleton] at hpatch
    rw [hcommitted]
    rcases hpatch with hold | rfl
    · exact h.status t id patch hold
    · cases hwr with
      | @updateCheck check patch =>
          obtain ⟨-, hpending, hrunning⟩ := hpre
          refine ⟨fun hstatus => hpending (net_status hstatus), fun hstatus row₀ hrow₀ => ?_⟩
          obtain ⟨-, row, hrow, hrowPending⟩ := hrunning (net_status hstatus)
          simp [h.pending_committed hrow₀ hrow hrowPending, CheckStatus.active]

theorem Coherent.step (h : Coherent w) (hpre : Discipline t op w)
    (houtcome : Outcome t w failed op w') : Coherent w' := by
  have hchange := houtcome.effect.change
  have hguard' : w'.store.Guarded schema := hchange.guarded h.guarded
  have hlinked' : Linked w'.store.committed := by
    rcases committed_of_effect houtcome.effect with heq | ⟨-, -, heq⟩
    · exact heq ▸ h.linked
    · exact heq ▸ h.viewLinked t
  refine
    { guarded := hguard'
      checkLocks := fun id t' howner => ?_
      sessionLocks := fun id t' howner => ?_
      checkFresh := fun id hid => ?_
      sessionFresh := fun id hid => ?_
      linked := hlinked'
      viewLinked := fun t' => ?_
      checks := fun t' copy hcopy => ?_
      sessions := fun t' copy hcopy => ?_
      status := fun t' id patch hpatch => ?_ }
  · by_cases hne : t' = t
    · exact (h.locked_lt hpre houtcome).1 id (hne ▸ howner)
    · exact (h.checkLocks id t' ((hchange.owner_ne hne).mp howner)).trans_le
        houtcome.frame.nextCheck
  · by_cases hne : t' = t
    · exact (h.locked_lt hpre houtcome).2 id (hne ▸ howner)
    · exact (h.sessionLocks id t' ((hchange.owner_ne hne).mp howner)).trans_le
        houtcome.frame.nextSession
  · have hid' := houtcome.frame.nextCheck.trans hid
    rcases committed_of_effect houtcome.effect with heq | ⟨-, -, heq⟩
    · exact heq ▸ h.checkFresh id hid'
    · exact heq ▸ h.view_fresh hid'
  · have hid' := houtcome.frame.nextSession.trans hid
    rcases committed_of_effect houtcome.effect with heq | ⟨-, -, heq⟩
    · exact heq ▸ h.sessionFresh id hid'
    · exact heq ▸ h.view_session_fresh hid'
  · by_cases hne : t' = t
    · subst hne
      rcases view_of_effect houtcome.effect with heq | ⟨heq, -⟩ | ⟨wr, hwr, -, heq⟩
      · exact heq ▸ h.viewLinked t'
      · exact heq ▸ h.linked
      · exact heq ▸ (h.viewLinked t').apply hwr
    · exact (h.rely houtcome hne).linked_view h.guarded hguard' hlinked' (h.viewLinked t')
  · by_cases hne : t' = t
    · subst hne
      exact (h.copies hpre houtcome).1 copy hcopy
    · have hrely := h.rely houtcome hne
      exact Known.extends (h.checks t' copy (hrely.checks ▸ hcopy)) (hrely.extends_view h.guarded)
  · by_cases hne : t' = t
    · subst hne
      exact (h.copies hpre houtcome).2 copy hcopy
    · have hrely := h.rely houtcome hne
      exact (hrely.extends_view h.guarded).session _ (h.sessions t' copy (hrely.sessions ▸ hcopy))
  · by_cases hne : t' = t
    · subst hne
      exact h.written_status hpre houtcome hpatch
    · have hrely := h.rely houtcome hne
      rw [hrely.pending] at hpatch
      have howner : w.store.owner (.check id) = some t' :=
        h.guarded t' _ _ hpatch (by simp [schema])
      rw [(Prod.mk.inj (hrely.checkLocked id howner)).1]
      exact h.status t' id patch hpatch

end Steps

/-- The discipline as a protocol between tasks, under any condition on the runs. -/
def discipline (allowed : TaskId → Op → Choice → World → Prop) : Protocol exec allowed where
  inv := Coherent
  rely := Rely
  pre := Discipline
  rely_refl := Rely.refl
  rely_trans := Rely.trans
  sound hinv hpre _ hexec :=
    ⟨hinv.step hpre (exec_outcome hexec), fun _ hne => hinv.rely (exec_outcome hexec) hne⟩

/-- A database in which every session that a check names exists, and the numbers drawn so far. -/
structure WellFormed (w : World) : Prop where
  linked : Linked w.store.committed
  checkFresh : ∀ id, w.nextCheck ≤ id → (checkAspect id).read w.store.committed = (none, [])
  sessionFresh : ∀ id, w.nextSession ≤ id → (sessionAspect id).read w.store.committed = (none, [])

theorem WellFormed.coherent {w : World} (h : WellFormed w) (hidle : Idle w) : Coherent w where
  guarded t wr k hwr := by simp [hidle.pending t] at hwr
  checkLocks id t howner := by simp [hidle.owner] at howner
  sessionLocks id t howner := by simp [hidle.owner] at howner
  checkFresh := h.checkFresh
  sessionFresh := h.sessionFresh
  linked := h.linked
  viewLinked t := by simpa [World.view, Store.view, hidle.pending t] using h.linked
  checks t copy hcopy := by simp [hidle.checks t] at hcopy
  sessions t copy hcopy := by simp [hidle.sessions t] at hcopy
  status t id patch hpatch := by simp [hidle.pending t] at hpatch

/-- A backend at rest with one check and its session, on which concrete runs start. -/
def oneCheck (status : CheckStatus) : World where
  store :=
    { committed :=
        { checks := [{
            id := 0
            sessionId := some 0
            sopId := "sop-1"
            envKey := "prod"
            graphName := "sop_quality"
            graphVersion := "sop-quality@1"
            threadId := "thread-1"
            checkpointNs := ""
            currentCheckpointId := none
            status
            qualityResult := none
            sopSnapshot := .obj []
            result := none
            error := none
            createdBy := none }]
          events := [{
            checkId := 0
            sequence := 1
            type := .created
            node := none
            checkpointId := none
            taskId := none
            message := none }]
          sessions := [{ id := 0, threadId := "thread-1", status := .active, title := none }]
          messages := [] }
      pending := fun _ => []
      owner := fun _ => none }
  checks := fun _ => []
  sessions := fun _ => []
  invalid := fun _ => false
  nextCheck := 1
  nextSession := 1
  phase := fun _ => .fresh

theorem idle_oneCheck (status : CheckStatus) : Idle (oneCheck status) :=
  ⟨fun _ => rfl, fun _ => rfl, fun _ => rfl, fun _ => rfl, fun _ => rfl, fun _ => rfl⟩

theorem wellFormed_oneCheck (status : CheckStatus) : WellFormed (oneCheck status) where
  linked id row sid hrow hsession := by
    have hmem := List.mem_of_find?_eq_some hrow
    simp only [oneCheck, List.mem_singleton] at hmem
    subst hmem
    obtain rfl : 0 = sid := Option.some.inj hsession
    rfl
  checkFresh id hid := by
    have hne : (0 : Nat) ≠ id := (Nat.lt_of_lt_of_le Nat.one_pos hid).ne
    simp [checkAspect, oneCheck, Db.check, Db.eventsOf, hne]
  sessionFresh id hid := by
    have hne : (0 : Nat) ≠ id := (Nat.lt_of_lt_of_le Nat.one_pos hid).ne
    simp [sessionAspect, oneCheck, Db.session, Db.messagesOf, hne]

end ChangeQuality.SopInvariant
