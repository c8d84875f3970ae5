import ChangeQuality.SopOutcomes
import ChangeQuality.SopTransactions

/-!
A check and its session are rows of two tables that the code keeps in step by hand. The invariant
that lets one transaction rely on the others: sessions are not shared, and whoever writes the status
of a session has locked its check.
-/

namespace ChangeQuality.SopLinks

open ChangeQuality.Values
open ChangeQuality.SopTables
open ChangeQuality.SopRepository
open ChangeQuality.SopRunner
open ChangeQuality.SopSystem
open ChangeQuality.SopEffects
open ChangeQuality.SopInvariant
open ChangeQuality.SopDiscipline
open ChangeQuality.SopTransactions
open ChangeQuality.SopOutcomes
open ChangeQuality.ReadCommitted
open ChangeQuality.Coroutine
open ChangeQuality.Interference

/-- The session status that belongs to a check status; the backend cancels no check. -/
def sessionStatusOf : CheckStatus → Option SessionStatus
  | .pending | .running => some .active
  | .succeeded => some .completed
  | .failed => some .failed
  | .cancelled => none
  | .interrupted => some .interrupted

/-- A session status that agrees with the status of its check. -/
structure StatusesAgree (check : CheckStatus) (session : SessionStatus) : Prop where
  active : session = .active ↔ check.active = true
  completed : session = .completed ↔ check = .succeeded
  failed : session = .failed ↔ check = .failed
  interrupted : session = .interrupted ↔ check = .interrupted

def SessionsAgree (db : Db) : Prop :=
  ∀ id row sid, db.check id = some row → row.sessionId = some sid →
    ∃ session, db.session sid = some session ∧ StatusesAgree row.status session.status

/-- No two checks share a session. -/
def Unshared (db : Db) : Prop :=
  ∀ id id' row row' sid, db.check id = some row → db.check id' = some row' →
    row.sessionId = some sid → row'.sessionId = some sid → id = id'

theorem statusesAgree_iff {check : CheckStatus} {session : SessionStatus} :
    StatusesAgree check session ↔ sessionStatusOf check = some session := by
  constructor
  · rintro ⟨hactive, hcompleted, hfailed, hinterrupted⟩
    cases session with
    | active =>
        have hcheck := hactive.mp rfl
        cases check <;> simp [CheckStatus.active] at hcheck <;> rfl
    | completed => rw [hcompleted.mp rfl, sessionStatusOf]
    | failed => rw [hfailed.mp rfl, sessionStatusOf]
    | interrupted => rw [hinterrupted.mp rfl, sessionStatusOf]
  · intro h
    cases check <;> simp only [sessionStatusOf, Option.some.injEq, reduceCtorEq] at h <;>
      subst h <;> constructor <;> simp [CheckStatus.active]

theorem sessionStatusOf_active {check : CheckStatus} :
    sessionStatusOf check = some .active ↔ check.active = true := by
  cases check <;> simp [sessionStatusOf, CheckStatus.active]

/-- The session of a check agrees with it. -/
def PairAgrees (db : Db) (id : CheckId) : Prop :=
  ∀ row sid, db.check id = some row → row.sessionId = some sid →
    ∃ session, db.session sid = some session ∧ sessionStatusOf row.status = some session.status

theorem sessionsAgree_iff {db : Db} : SessionsAgree db ↔ ∀ id, PairAgrees db id := by
  simp only [SessionsAgree, PairAgrees, statusesAgree_iff]

/-- The status of a session is the same in later tables. -/
def SameSession (sid : SessionId) (db db' : Db) : Prop :=
  ∀ session, db.session sid = some session →
    ∃ session', db'.session sid = some session' ∧ session'.status = session.status

theorem SameSession.refl (sid : SessionId) (db : Db) : SameSession sid db db :=
  fun session h => ⟨session, h, rfl⟩

theorem SameSession.trans {sid : SessionId} {db₁ db₂ db₃ : Db} (h : SameSession sid db₁ db₂)
    (h' : SameSession sid db₂ db₃) : SameSession sid db₁ db₃ := by
  intro session hsession
  obtain ⟨session₂, hsession₂, hstatus₂⟩ := h session hsession
  obtain ⟨session₃, hsession₃, hstatus₃⟩ := h' session₂ hsession₂
  exact ⟨session₃, hsession₃, hstatus₃.trans hstatus₂⟩

/-- Writes that set a session to the status that it has, or do not write it. -/
theorem sameSession_applyAll {sid : SessionId} {session : Session} {ws : List Write} {db : Db}
    (hws : ∀ patch s, .updateSession sid patch ∈ ws → patch = some s → s = session.status)
    (hsession : db.session sid = some session) :
    ∃ session', (applyAll schema ws db).session sid = some session' ∧
      session'.status = session.status := by
  refine applyAll_keeps (φ := fun db : Db => ∃ session', db.session sid = some session' ∧
    session'.status = session.status) ?_ ⟨session, hsession, rfl⟩
  rintro wr hwr db ⟨session', hsession', hstatus⟩
  cases wr with
  | insertSession other => exact ⟨session', by simp [session_insertSession, hsession'], hstatus⟩
  | updateSession sid' patch =>
      rw [session_updateSession]
      split
      · rename_i hsid
        subst hsid
        refine ⟨patch.apply session', by simp [hsession'], ?_⟩
        cases hpatch : patch with
        | none => exact hstatus
        | some s => exact hws patch s hwr hpatch
      · exact ⟨session', hsession', hstatus⟩
  | _ => exact ⟨session', hsession', hstatus⟩

/-- A check that a transaction sees and that is not committed was inserted by it. -/
theorem inserted_of_view {ws : List Write} {db : Db} {id : CheckId} {row : SopQualityCheck}
    (hnone : db.check id = none) (hrow : (applyAll schema ws db).check id = some row) :
    ∃ ins, .insertCheck ins ∈ ws ∧ ins.id = id ∧ ins.sessionId = row.sessionId := by
  have hkeeps : ∀ row, (applyAll schema ws db).check id = some row →
      ∃ ins, .insertCheck ins ∈ ws ∧ ins.id = id ∧ ins.sessionId = row.sessionId := by
    refine applyAll_keeps (φ := fun db : Db => ∀ row, db.check id = some row →
      ∃ ins, .insertCheck ins ∈ ws ∧ ins.id = id ∧ ins.sessionId = row.sessionId) ?_ ?_
    · intro wr hwr db h row hrow
      cases wr with
      | insertCheck other =>
          rw [check_insertCheck] at hrow
          rcases Option.or_eq_some_iff.mp hrow with hrow | ⟨-, hrow⟩
          · exact h row hrow
          · split at hrow
            · rename_i hid
              obtain rfl := Option.some.inj hrow
              exact ⟨other, hwr, hid, rfl⟩
            · simp at hrow
      | updateCheck id' patch =>
          rw [check_updateCheck] at hrow
          split at hrow
          · obtain ⟨old, hold, rfl⟩ := Option.map_eq_some_iff.mp hrow
            exact h old hold
          · exact h row hrow
      | _ => exact h row hrow
    · simp [hnone]
  exact hkeeps row hrow

/-- Writes that insert at most one check, with a session that is new, share no session. -/
theorem unshared_applyAll {ws : List Write} {db : Db} (hunshared : Unshared db)
    (hlinked : Linked db)
    (hinserts : ∀ row, .insertCheck row ∈ ws → (∀ row', .insertCheck row' ∈ ws → row' = row) ∧
      ∀ sid, row.sessionId = some sid → db.session sid = none) :
    Unshared (applyAll schema ws db) := by
  have hcommitted : ∀ id row, (applyAll schema ws db).check id = some row →
      (∃ row₀, db.check id = some row₀ ∧ row₀.sessionId = row.sessionId) ∨
        ∃ ins, .insertCheck ins ∈ ws ∧ ins.id = id ∧ ins.sessionId = row.sessionId := by
    intro id row hrow
    cases hrow₀ : db.check id with
    | none => exact .inr (inserted_of_view hrow₀ hrow)
    | some row₀ =>
        obtain ⟨row', hrow', hsession⟩ := (extends_applyAll _ _).check id row₀ hrow₀
        obtain rfl := Option.some.inj (hrow.symm.trans hrow')
        exact .inl ⟨row₀, rfl, hsession.symm⟩
  have hmixed : ∀ {id row ins sid}, db.check id = some row → row.sessionId = some sid →
      .insertCheck ins ∈ ws → ins.sessionId = some sid → False := by
    intro id row ins sid hrow hsid hins hsid'
    have hnone := (hinserts ins hins).2 sid hsid'
    have hpresent := hlinked id row sid hrow hsid
    simp [Present, hnone] at hpresent
  intro id id' row row' sid hrow hrow' hsid hsid'
  rcases hcommitted id row hrow with ⟨row₀, hrow₀, heq⟩ | ⟨ins, hins, hid, heq⟩ <;>
    rcases hcommitted id' row' hrow' with ⟨row₀', hrow₀', heq'⟩ | ⟨ins', hins', hid', heq'⟩
  · exact hunshared id id' row₀ row₀' sid hrow₀ hrow₀' (heq.trans hsid) (heq'.trans hsid')
  · exact (hmixed hrow₀ (heq.trans hsid) hins' (heq'.trans hsid')).elim
  · exact (hmixed hrow₀' (heq'.trans hsid') hins (heq.trans hsid)).elim
  · rw [← hid, ← hid', (hinserts ins hins).1 ins' hins']

/-- A loaded session shows no outcome other than the one that the task sees. -/
def Accurate (t : TaskId) (w : World) (copy : Session) : Prop :=
  copy.status = .active ∨
    ∃ row, (w.view t).session copy.id = some row ∧ row.status = copy.status

/-- What holds between any two steps of the links between checks and sessions. -/
structure Paired (w : World) : Prop where
  agree : ∀ id, PairAgrees w.store.committed id
  unshared : Unshared w.store.committed
  outcomes : OutcomesOpen w
  updates : ∀ t sid patch, .updateSession sid patch ∈ w.store.pending t →
    ∃ id row, w.store.committed.check id = some row ∧ row.sessionId = some sid ∧
      (w.store.owner (.check id) = some t ∨
        ∀ s, patch = some s → row.status.active = false ∧ sessionStatusOf row.status = some s)
  inserts : ∀ t row, .insertCheck row ∈ w.store.pending t →
    (∀ row', .insertCheck row' ∈ w.store.pending t → row' = row) ∧
      ∀ sid, row.sessionId = some sid →
        w.store.committed.session sid = none ∧ w.store.owner (.session sid) = some t
  copies : ∀ t, ∀ copy ∈ w.sessions t, Accurate t w copy

section Views

variable {t : TaskId} {w w' : World} {id : CheckId} {sid : SessionId}

/-- A transaction that has not locked a check sees its session with the committed status. -/
theorem Paired.unowned_session (h : Paired w) {row : SopQualityCheck}
    (howner : w.store.owner (.check id) ≠ some t) (hrow : w.store.committed.check id = some row)
    (hsid : row.sessionId = some sid) : SameSession sid w.store.committed (w.view t) := by
  intro session hsession
  refine sameSession_applyAll (fun patch s hpatch hs => ?_) hsession
  obtain ⟨id', row', hrow', hsid', hwhy⟩ := h.updates t sid patch hpatch
  obtain rfl := h.unshared id id' row row' sid hrow hrow' hsid hsid'
  obtain rfl := Option.some.inj (hrow.symm.trans hrow')
  obtain ⟨-, hs⟩ := hwhy.resolve_left howner s hs
  obtain ⟨session', hsession', hagree⟩ := h.agree id row sid hrow hsid
  obtain rfl := Option.some.inj (hsession.symm.trans hsession')
  exact Option.some.inj (hs.symm.trans hagree)

/-- A pair of which the transaction has not locked the check agrees, as the transaction sees it. -/
theorem Paired.unowned_agrees (h : Paired w) (hguard : w.store.Guarded schema)
    (howner : w.store.owner (.check id) ≠ some t) : PairAgrees (w.view t) id := by
  intro row sid hrow hsid
  rw [view_check_committed hguard howner] at hrow
  obtain ⟨session, hsession, hagree⟩ := h.agree id row sid hrow hsid
  obtain ⟨session', hsession', hstatus⟩ := h.unowned_session howner hrow hsid session hsession
  exact ⟨session', hsession', hstatus ▸ hagree⟩

/-- No transaction sees a shared session: what it inserts has a session that it has just made. -/
theorem Paired.unshared_view (h : Paired w) (hlinked : Linked w.store.committed) :
    Unshared (w.view t) :=
  unshared_applyAll h.unshared hlinked fun row hrow =>
    ⟨(h.inserts t row hrow).1, fun sid hsid => ((h.inserts t row hrow).2 sid hsid).1⟩

end Views

/-- What a task may rely on about outcomes and sessions. -/
structure Follows (t : TaskId) (w w' : World) : Prop where
  final : Final w w'
  kept : ∀ id sid, w.store.owner (.check id) = some t →
    (w.store.committed.check id).bind (·.sessionId) = some sid →
      w'.store.owner (.check id) = some t ∧
        (w'.store.committed.check id).bind (·.sessionId) = some sid ∧
        SameSession sid w.store.committed w'.store.committed
  closed : ∀ sid session, w.store.committed.session sid = some session →
    session.status ≠ .active → ∃ session', w'.store.committed.session sid = some session' ∧
      session'.status = session.status

theorem Follows.refl (t : TaskId) (w : World) : Follows t w w where
  final _ row hrow _ := ⟨row, hrow, .refl row⟩
  kept _ _ howner hsid := ⟨howner, hsid, .refl _ _⟩
  closed _ session hsession _ := ⟨session, hsession, rfl⟩

theorem Follows.trans {t : TaskId} {w₁ w₂ w₃ : World} (h : Follows t w₁ w₂)
    (h' : Follows t w₂ w₃) : Follows t w₁ w₃ where
  final := h.final.trans h'.final
  kept id sid howner hsid := by
    obtain ⟨howner₂, hsid₂, hsame₂⟩ := h.kept id sid howner hsid
    obtain ⟨howner₃, hsid₃, hsame₃⟩ := h'.kept id sid howner₂ hsid₂
    exact ⟨howner₃, hsid₃, hsame₂.trans hsame₃⟩
  closed sid session hsession hclosed := by
    obtain ⟨session₂, hsession₂, hstatus₂⟩ := h.closed sid session hsession hclosed
    obtain ⟨session₃, hsession₃, hstatus₃⟩ := h'.closed sid session₂ hsession₂ (hstatus₂ ▸ hclosed)
    exact ⟨session₃, hsession₃, hstatus₃.trans hstatus₂⟩

/-- The transaction has set the check to interrupted. -/
def Interrupting (t : TaskId) (id : CheckId) (w : World) : Prop :=
  ∃ patch, .updateCheck id patch ∈ w.store.pending t ∧ patch.status = some .interrupted

/-- All pairs agree, as the task sees them. -/
def InStep (t : TaskId) (w : World) : Prop :=
  ∀ id, PairAgrees (w.view t) id

/-- All pairs agree but for those of checks that the task has interrupted. -/
def Committable (t : TaskId) (w : World) : Prop :=
  ∀ id, PairAgrees (w.view t) id ∨ Interrupting t id w

/-- No commit publishes the interruption of a check that has a session. -/
def CommitsNoInterrupted (t : TaskId) (w : World) : Prop :=
  ∀ wr ∈ w.store.pending t, match wr with
    | .updateCheck id patch => patch.status = some .interrupted →
        ∀ row ∈ (w.view t).check id, row.sessionId = none
    | _ => True

instance (t : TaskId) (w : World) : Decidable (CommitsNoInterrupted t w) := by
  unfold CommitsNoInterrupted
  refine @List.decidableBAll _ _ (fun wr => ?_) _
  cases wr <;> infer_instance

/-- The condition on a run: no outcome is written over another one, `mark_terminal` returns early
only on the outcome that it was to write, and no commit publishes the interruption of a check that
has a session. -/
def SessionsFollow (t : TaskId) (op : Op) (choice : Choice) (w : World) : Prop :=
  OutcomesMeetActive t op choice w ∧
    match op with
    | .note (.alreadyTerminal id outcome) =>
        ((w.view t).check id).map (·.status) = some outcome
    | .commit => CommitsNoInterrupted t w
    | _ => True

/-- Whether an operation meets its own part of the condition. -/
def opFollows (t : TaskId) (w : World) : Op → Bool
  | .note (.alreadyTerminal id outcome) =>
      decide (((w.view t).check id).map (·.status) = some outcome)
  | .commit => decide (CommitsNoInterrupted t w)
  | _ => true

theorem sessionsFollow_iff {t : TaskId} {op : Op} {choice : Choice} {w : World} :
    OutcomesMeetActive t op choice w ∧ opFollows t w op = true ↔ SessionsFollow t op choice w := by
  unfold SessionsFollow opFollows
  split <;> simp

instance (t : TaskId) (op : Op) (choice : Choice) (w : World) :
    Decidable (SessionsFollow t op choice w) :=
  decidable_of_iff _ sessionsFollow_iff

/-- What a task must have established before an operation, besides the discipline. -/
def Prepared (t : TaskId) (op : Op) (w : World) : Prop :=
  match op with
  | .commit => Committable t w
  | .insertCheck values =>
      (∀ row, .insertCheck row ∉ w.store.pending t) ∧
        ∀ sid, values.sessionId = some sid →
          w.store.committed.session sid = none ∧ w.store.owner (.session sid) = some t
  | .updateSession session status =>
      Accurate t w session ∧ status ≠ .active ∧ ∃ id row, w.store.committed.check id = some row ∧
        row.sessionId = some session.id ∧ (w.store.owner (.check id) = some t ∨
          row.status.active = false ∧ sessionStatusOf row.status = some status)
  | _ => True

section Steps

variable {t t' : TaskId} {op : Op} {choice : Choice} {w w' : World} {r : Except Exn (Reply op)}
  {failed : Prop}

theorem Committable.inStep (h : Committable t w) (hnone : CommitsNoInterrupted t w) :
    InStep t w := by
  intro id
  rcases h id with hagree | ⟨patch, hpatch, hinterrupted⟩
  · exact hagree
  · intro row sid hrow hsid
    have hnone : row.sessionId = none := hnone _ hpatch hinterrupted row hrow
    simp [hnone] at hsid

/-- The outcomes of sessions are final as well: a transaction that publishes a session in step with
its check publishes no other outcome. -/
theorem Paired.closed (h : Paired w) (hstep : InStep t w)
    {sid : SessionId} {session : Session} (hsession : w.store.committed.session sid = some session)
    (hclosed : session.status ≠ .active) :
    ∃ session', (w.view t).session sid = some session' ∧ session'.status = session.status := by
  by_cases hwritten : ∃ patch, .updateSession sid patch ∈ w.store.pending t
  · obtain ⟨patch, hpatch⟩ := hwritten
    obtain ⟨id, row, hrow, hsid, -⟩ := h.updates t sid patch hpatch
    obtain ⟨session₀, hsession₀, hagree⟩ := h.agree id row sid hrow hsid
    obtain rfl := Option.some.inj (hsession.symm.trans hsession₀)
    have hterminal : row.status.active = false := by
      by_contra hactive
      have hactive := sessionStatusOf_active.mpr (by simpa using hactive)
      exact hclosed (Option.some.inj (hagree.symm.trans hactive))
    have hcommit : Effect t w { w with store := w.store.commit schema t } False .commit :=
      .commit not_false rfl
    obtain ⟨row', hrow', hsame⟩ := h.outcomes.final hcommit id row hrow hterminal
    have hrow' : (w.view t).check id = some row' := hrow'
    obtain ⟨row'', hrow'', hsession''⟩ := (extends_applyAll (w.store.pending t) _).check id row hrow
    obtain rfl : row'' = row' := Option.some.inj (Eq.trans (Eq.symm hrow'') hrow')
    obtain ⟨session', hsession', hagree'⟩ := hstep id row'' sid hrow' (hsession''.trans hsid)
    refine ⟨session', hsession', ?_⟩
    rw [hsame.status, hagree] at hagree'
    exact (Option.some.inj hagree').symm
  · exact sameSession_applyAll (fun patch s hpatch _ => absurd ⟨patch, hpatch⟩ hwritten) hsession

/-- Every step looks to the other tasks like something that they rely on. -/
theorem Paired.follows (h : Paired w) (hcoherent : Coherent w) (hpre : Prepared t op w)
    (hallowed : SessionsFollow t op choice w) (heffect : Effect t w w' failed op) (hne : t' ≠ t) :
    Follows t' w w' := by
  have hchange := heffect.change
  refine ⟨h.outcomes.final heffect, fun id sid howner hsid => ?_, fun sid session hsession
    hclosed => ?_⟩
  · have hcheck := (checkAspect id).committed_keeps hcoherent.guarded hchange howner hne
    refine ⟨hchange.keeps_owner hne howner, (Prod.mk.inj hcheck).1 ▸ hsid, ?_⟩
    obtain ⟨row, hrow, hsid⟩ := Option.bind_eq_some_iff.mp hsid
    rcases committed_of_effect heffect with heq | ⟨-, -, heq⟩
    · exact heq ▸ .refl sid _
    · rw [heq]
      refine h.unowned_session (fun howner' => hne ?_) hrow hsid
      exact Option.some.inj (howner.symm.trans howner')
  · rcases committed_of_effect heffect with heq | ⟨rfl, -, heq⟩
    · exact ⟨session, heq ▸ hsession, rfl⟩
    · rw [heq]
      exact h.closed (Committable.inStep hpre hallowed.2) hsession hclosed

theorem Paired.committed (h : Paired w) (hcoherent : Coherent w) (hpre : Prepared t op w)
    (hallowed : SessionsFollow t op choice w) (heffect : Effect t w w' failed op) :
    (∀ id, PairAgrees w'.store.committed id) ∧ Unshared w'.store.committed := by
  rcases committed_of_effect heffect with heq | ⟨rfl, -, heq⟩
  · exact heq ▸ ⟨h.agree, h.unshared⟩
  · exact heq ▸ ⟨Committable.inStep hpre hallowed.2, h.unshared_view hcoherent.linked⟩

/-- The session updates of the task itself after its operation. -/
theorem Paired.updates_own (h : Paired w) (hpre : Prepared t op w)
    (heffect : Effect t w w' failed op) {sid : SessionId} {patch : SessionPatch}
    (hpatch : .updateSession sid patch ∈ w'.store.pending t) :
    ∃ id row, w'.store.committed.check id = some row ∧ row.sessionId = some sid ∧
      (w'.store.owner (.check id) = some t ∨
        ∀ s, patch = some s → row.status.active = false ∧ sessionStatusOf row.status = some s) := by
  have hold : .updateSession sid patch ∈ w.store.pending t → w'.store.pending t ≠ [] →
      w'.store.committed = w.store.committed →
      ∃ id row, w'.store.committed.check id = some row ∧ row.sessionId = some sid ∧
        (w'.store.owner (.check id) = some t ∨ ∀ s, patch = some s →
          row.status.active = false ∧ sessionStatusOf row.status = some s) := by
    intro hpatch hne hcommitted
    obtain ⟨id, row, hrow, hsid, hwhy⟩ := h.updates t sid patch hpatch
    refine ⟨id, row, hcommitted ▸ hrow, hsid, hwhy.imp_left fun howner => ?_⟩
    exact ((keeps_own heffect).resolve_left hne) _ howner
  have hne : w'.store.pending t ≠ [] := List.ne_nil_of_mem hpatch
  rcases pending_of_effect heffect with ⟨heq, hcommitted⟩ | heq | ⟨wr, -, hwr, hcommitted, heq⟩
  · exact hold (heq ▸ hpatch) hne hcommitted
  · simp [heq] at hpatch
  · rw [heq, List.mem_append, List.mem_singleton] at hpatch
    rcases hpatch with hpatch | rfl
    · exact hold hpatch hne hcommitted
    · cases hwr with
      | @updateSession session status =>
          obtain ⟨-, -, id, row, hrow, hsid, hwhy⟩ := hpre
          refine ⟨id, row, hcommitted ▸ hrow, hsid, ?_⟩
          rcases hwhy with howner | ⟨hterminal, hstatus⟩
          · exact .inl (((keeps_own heffect).resolve_left hne) _ howner)
          · refine .inr fun s hs => ⟨hterminal, ?_⟩
            obtain rfl : status = s := Option.some.inj (Option.filter_eq_some_iff.mp hs).1
            exact hstatus

theorem Paired.inserts_own (h : Paired w) (hpre : Prepared t op w)
    (heffect : Effect t w w' failed op) {row : SopQualityCheck}
    (hrow : .insertCheck row ∈ w'.store.pending t) :
    (∀ row', .insertCheck row' ∈ w'.store.pending t → row' = row) ∧
      ∀ sid, row.sessionId = some sid →
        w'.store.committed.session sid = none ∧ w'.store.owner (.session sid) = some t := by
  have hne : w'.store.pending t ≠ [] := List.ne_nil_of_mem hrow
  have hkeeps := (keeps_own heffect).resolve_left hne
  rcases pending_of_effect heffect with ⟨heq, hcommitted⟩ | heq | ⟨wr, -, hwr, hcommitted, heq⟩
  · obtain ⟨hone, hsession⟩ := h.inserts t row (heq ▸ hrow)
    refine ⟨fun row' hrow' => hone row' (heq ▸ hrow'), fun sid hsid => ?_⟩
    exact ⟨hcommitted ▸ (hsession sid hsid).1, hkeeps _ (hsession sid hsid).2⟩
  · simp [heq] at hrow
  · rw [heq, List.mem_append, List.mem_singleton] at hrow
    rcases hrow with hrow | rfl
    · obtain ⟨hone, hsession⟩ := h.inserts t row hrow
      refine ⟨fun row' hrow' => ?_, fun sid hsid =>
        ⟨hcommitted ▸ (hsession sid hsid).1, hkeeps _ (hsession sid hsid).2⟩⟩
      rw [heq, List.mem_append, List.mem_singleton] at hrow'
      rcases hrow' with hrow' | rfl
      · exact hone row' hrow'
      · cases hwr with
        | insertCheck _ _ => exact absurd hrow (hpre.1 row)
    · cases hwr with
      | insertCheck _ _ =>
          refine ⟨fun row' hrow' => ?_, fun sid hsid =>
            ⟨hcommitted ▸ (hpre.2 sid hsid).1, hkeeps _ (hpre.2 sid hsid).2⟩⟩
          rw [heq, List.mem_append, List.mem_singleton] at hrow'
          rcases hrow' with hrow' | hrow'
          · exact absurd hrow' (hpre.1 row')
          · exact Write.insertCheck.inj hrow'

/-- A loaded session that is accurate stays so while no write changes its row. -/
theorem Accurate.of_session {copy : Session} (h : Accurate t w copy)
    (hsession : SameSession copy.id (w.view t) (w'.view t)) : Accurate t w' copy := by
  rcases h with hactive | ⟨row, hrow, hstatus⟩
  · exact .inl hactive
  · obtain ⟨row', hrow', hstatus'⟩ := hsession row hrow
    exact .inr ⟨row', hrow', hstatus'.trans hstatus⟩

/-- Only its update changes the status of a session that a task sees. -/
theorem sameSession_apply {sid : SessionId} {wr : Write} {db : Db}
    (hwr : ∀ patch, wr ≠ .updateSession sid patch) : SameSession sid db (schema.apply wr db) := by
  intro session hsession
  change ∃ session', (applyAll schema [wr] db).session sid = some session' ∧ _
  refine sameSession_applyAll (fun patch s hpatch _ => ?_) hsession
  exact absurd (List.mem_singleton.mp hpatch).symm (hwr patch)

/-- What an accurate copy is set to is what the task sees then. -/
theorem Accurate.updated {session : Session} {status : SessionStatus} (h : Accurate t w session)
    (hclosed : status ≠ .active) (hpresent : Present (w.view t) (.session session.id)) :
    ∃ row, (schema.apply (.updateSession session.id (SessionPatch.net (some status) session))
      (w.view t)).session session.id = some row ∧ row.status = status := by
  obtain ⟨row, hrow⟩ := Option.isSome_iff_exists.mp hpresent
  refine ⟨(SessionPatch.net (some status) session).apply row, ?_, ?_⟩
  · simp [session_updateSession, hrow]
  · by_cases hsame : status = session.status
    · have hnet : SessionPatch.net (some status) session = none := by
        simp [SessionPatch.net, hsame]
      rw [hnet]
      obtain ⟨row', hrow', hstatus⟩ := h.resolve_left fun hactive => hclosed (hsame.trans hactive)
      obtain rfl := Option.some.inj (hrow.symm.trans hrow')
      exact hstatus.trans hsame.symm
    · have hnet : SessionPatch.net (some status) session = some status := by
        simp [SessionPatch.net, Option.filter_some, hsame]
      rw [hnet]
      rfl

/-- The copies of the task itself stay accurate over its operation. -/
theorem Paired.copies_own (h : Paired w) (hdiscipline : Discipline t op w)
    (hpre : Prepared t op w) (hexec : exec t op choice w = some (r, w')) :
    ∀ copy ∈ w'.sessions t, Accurate t w' copy := by
  intro copy hcopy
  cases r with
  | error e =>
      rcases failed_view hexec with rfl | rfl
      · exact h.copies t copy hcopy
      · simp [World.reset] at hcopy
  | ok a =>
      obtain ⟨answer, kept, rfl, hsucceed⟩ := exec_ok hexec
      have houtcome := succeed_outcome hsucceed
      by_cases hop : ∃ session status, op = .updateSession session status
      · obtain ⟨session, status, rfl⟩ := hop
        obtain ⟨haccurate, hclosed, -⟩ := hpre
        obtain ⟨hwrite, hcopies⟩ := succeed_updateSession hsucceed
        have hview := view_of_write hwrite
        rcases hcopies copy hcopy with rfl | ⟨hold, hne⟩
        · obtain ⟨row, hrow, hstatus⟩ := haccurate.updated hclosed hdiscipline
          exact .inr ⟨row, hview ▸ hrow, hstatus⟩
        · refine Accurate.of_session (h.copies t copy hold) (hview ▸ sameSession_apply ?_)
          rintro patch heq
          exact hne (Write.updateSession.inj heq).1.symm
      · have hsame : (w'.sessions t = []) ∨
            ∀ sid, SameSession sid (w.view t) (w'.view t) := by
          rcases view_of_effect houtcome.effect with heq | ⟨-, -, -, hsessions⟩ | ⟨wr, hwr, -, heq⟩
          · exact .inr fun sid => heq ▸ .refl sid _
          · exact .inl hsessions
          · refine .inr fun sid => heq ▸ sameSession_apply ?_
            rintro patch rfl
            cases hwr
            exact hop ⟨_, _, rfl⟩
        rcases hsame with hnone | hsame
        · simp [hnone] at hcopy
        · rcases houtcome.loads.sessions copy hcopy with hold | hrow | ⟨session, status, heq, -⟩ |
            ⟨hactive, -⟩
          · exact Accurate.of_session (h.copies t copy hold) (hsame copy.id)
          · exact Accurate.of_session (w := w) (.inr ⟨copy, hrow, rfl⟩) (hsame copy.id)
          · exact absurd ⟨session, status, heq⟩ hop
          · exact .inl hactive

/-- What another task sees of a session with an outcome stays. -/
theorem Accurate.rely {copy : Session} (h : Accurate t w copy) (hcoherent : Coherent w)
    (hcoherent' : Coherent w') (hrely : Rely t w w') (hfollows : Follows t w w') :
    Accurate t w' copy := by
  rcases h with hactive | ⟨row, hrow, hstatus⟩
  · exact .inl hactive
  by_cases hclosed : copy.status = .active
  · exact .inl hclosed
  by_cases howner : w.store.owner (.session copy.id) = some t
  · exact .inr ⟨row, (Prod.mk.inj (hrely.view_session howner)).1.trans hrow, hstatus⟩
  · have howner' : w'.store.owner (.session copy.id) ≠ some t := fun h =>
      howner ((hrely.owner _).mp h)
    rw [view_session_committed hcoherent.guarded howner] at hrow
    obtain ⟨row', hrow', hstatus'⟩ := hfollows.closed copy.id row hrow (hstatus ▸ hclosed)
    exact .inr ⟨row', (view_session_committed hcoherent'.guarded howner').trans hrow',
      hstatus'.trans hstatus⟩

theorem Paired.step (h : Paired w) (hcoherent : Coherent w) (hdiscipline : Discipline t op w)
    (hpre : Prepared t op w) (hallowed : SessionsFollow t op choice w)
    (hexec : exec t op choice w = some (r, w')) (hcoherent' : Coherent w') : Paired w' := by
  have houtcome := exec_outcome hexec
  obtain ⟨hagree, hunshared⟩ := h.committed hcoherent hpre hallowed houtcome.effect
  have hrely : ∀ t', t' ≠ t → Rely t' w w' := fun t' hne => hcoherent.rely houtcome hne
  have hfollows : ∀ t', t' ≠ t → Follows t' w w' := fun t' hne =>
    h.follows hcoherent hpre hallowed houtcome.effect hne
  refine
    { agree := hagree
      unshared := hunshared
      outcomes := h.outcomes.step hcoherent hdiscipline hallowed.1 hexec
      updates := fun t' sid patch hpatch => ?_
      inserts := fun t' row hrow => ?_
      copies := fun t' copy hcopy => ?_ }
  · by_cases hne : t' = t
    · subst hne
      exact h.updates_own hpre houtcome.effect hpatch
    · rw [(hrely t' hne).pending] at hpatch
      obtain ⟨id, row, hrow, hsid, hwhy⟩ := h.updates t' sid patch hpatch
      obtain ⟨row', hrow', hsession⟩ := (hrely t' hne).grown.check id row hrow
      refine ⟨id, row', hrow', hsession.trans hsid, ?_⟩
      rcases hwhy with howner | hsame
      · exact .inl (((hrely t' hne).owner _).mpr howner)
      · refine .inr fun s hs => ?_
        obtain ⟨hterminal, hstatus⟩ := hsame s hs
        obtain ⟨row'', hrow'', hfinal⟩ := (hfollows t' hne).final id row hrow hterminal
        obtain rfl := Option.some.inj (hrow'.symm.trans hrow'')
        rw [hfinal.status]
        exact ⟨hterminal, hstatus⟩
  · by_cases hne : t' = t
    · subst hne
      exact h.inserts_own hpre houtcome.effect hrow
    · rw [(hrely t' hne).pending] at hrow ⊢
      obtain ⟨hone, hsession⟩ := h.inserts t' row hrow
      refine ⟨hone, fun sid hsid => ?_⟩
      obtain ⟨hnone, howner⟩ := hsession sid hsid
      refine ⟨?_, ((hrely t' hne).owner _).mpr howner⟩
      rw [(Prod.mk.inj ((hrely t' hne).sessionLocked sid howner)).1, hnone]
  · by_cases hne : t' = t
    · subst hne
      exact h.copies_own hdiscipline hpre hexec copy hcopy
    · rw [(hrely t' hne).sessions] at hcopy
      exact Accurate.rely (h.copies t' copy hcopy) hcoherent hcoherent' (hrely t' hne)
        (hfollows t' hne)

end Steps

/-- The protocol of the links. -/
def linkProtocol : Protocol exec fun t op choice w =>
    SessionsFollow t op choice w ∧ Discipline t op w :=
  (discipline SessionsFollow).extend Paired Follows Prepared Follows.refl Follows.trans
    fun hcoherent hpaired hdiscipline hpre hallowed hexec hcoherent' =>
      ⟨hpaired.step hcoherent hdiscipline hpre hallowed hexec hcoherent', fun _ hne _ =>
        hpaired.follows hcoherent hpre hallowed (exec_outcome hexec).effect hne⟩

section Stability

variable {t : TaskId} {id : CheckId} {w w' : World}

/-- A pair stays in step, as a task sees it: what it has not locked is committed in step, and of a
check that it has locked nobody else writes the session. -/
theorem agrees_rely (hinv : linkProtocol.inv w) (hinv' : linkProtocol.inv w')
    (hrely : linkProtocol.rely t w w') (h : PairAgrees (w.view t) id) :
    PairAgrees (w'.view t) id := by
  by_cases howner : w.store.owner (.check id) = some t
  · intro row sid hrow hsid
    rw [(Prod.mk.inj (hrely.1.view_check howner)).1] at hrow
    obtain ⟨session, hsession, hagree⟩ := h row sid hrow hsid
    by_cases hlocked : w.store.owner (.session sid) = some t
    · exact ⟨session, (Prod.mk.inj (hrely.1.view_session hlocked)).1.trans hsession, hagree⟩
    · have hlocked' : w'.store.owner (.session sid) ≠ some t := fun h =>
        hlocked ((hrely.1.owner _).mp h)
      cases hrow₀ : w.store.committed.check id with
      | none =>
          obtain ⟨ins, hins, -, heq⟩ := inserted_of_view hrow₀ hrow
          exact absurd ((hinv.2.inserts t ins hins).2 sid (heq.trans hsid)).2 hlocked
      | some row₀ =>
          obtain ⟨row', hrow', heq⟩ := (extends_applyAll (w.store.pending t) _).check id row₀ hrow₀
          obtain rfl : row = row' := Option.some.inj (Eq.trans (Eq.symm hrow) hrow')
          rw [view_session_committed hinv.1.guarded hlocked] at hsession
          obtain ⟨-, -, hsame⟩ := hrely.2.kept id sid howner (by simp [hrow₀, ← heq, hsid])
          obtain ⟨session', hsession', hstatus⟩ := hsame session hsession
          refine ⟨session', ?_, hstatus ▸ hagree⟩
          exact (view_session_committed hinv'.1.guarded hlocked').trans hsession'
  · exact hinv'.2.unowned_agrees hinv'.1.guarded fun h => howner ((hrely.1.owner _).mp h)

theorem stable_inStep : Stable linkProtocol t (InStep t) :=
  fun _ _ hinv h hrely hinv' id => agrees_rely hinv hinv' hrely (h id)

end Stability

end ChangeQuality.SopLinks
