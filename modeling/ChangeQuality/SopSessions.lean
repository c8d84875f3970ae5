import ChangeQuality.SopLinks
import ChangeQuality.SopEvents

/-!
Whether the sessions of the backend keep step with their checks, over all runs: start, success,
failure and the interruption at startup.
-/

namespace ChangeQuality.SopSessions

open ChangeQuality.Values
open ChangeQuality.SopTables
open ChangeQuality.SopRepository
open ChangeQuality.SopRunner
open ChangeQuality.SopSystem
open ChangeQuality.SopEffects
open ChangeQuality.SopInvariant
open ChangeQuality.SopDiscipline
open ChangeQuality.SopTransactions
open ChangeQuality.SopOutcomes
open ChangeQuality.SopEvents
open ChangeQuality.SopLinks
open ChangeQuality.ReadCommitted
open ChangeQuality.Coroutine
open ChangeQuality.Interference

theorem above {t : TaskId} : Above linkProtocol t where
  inv h := h.1
  rely h := h.1
  pre {op w} h := by cases op <;> first | exact h.elim | trivial

/-- The operations that change no pair. -/
def KeepsPairs : Op → Prop
  | .updateSession _ _ | .insertCheck _ => False
  | .updateCheck _ patch => patch.status = none ∨ patch.status = some .running
  | _ => True

section Pairs

variable {t : TaskId} {id : CheckId} {s : CheckStatus} {op : Op} {choice : Choice} {w w' : World}
  {r : Except Exn (Reply op)}

/-- A write that leaves a check alone, and no session status, leaves its pair alone. -/
theorem PairAgrees.frame {wr : Write} {db : Db} (h : PairAgrees db id)
    (hcheck : .check id ∉ schema.rowsOf wr) (hsession : ∀ sid patch, wr ≠ .updateSession sid patch) :
    PairAgrees (schema.apply wr db) id := by
  intro row sid hrow hsid
  have hsame := (Prod.mk.inj ((checkAspect id).frame wr db hcheck)).1
  obtain ⟨session, hfound, hagree⟩ := h row sid (hsame ▸ hrow) hsid
  obtain ⟨session', hfound', hstatus⟩ := sameSession_apply (hsession sid) session hfound
  exact ⟨session', hfound', hstatus ▸ hagree⟩

theorem KeepsPairs.write {wr : Write} (hop : KeepsPairs op) (hpre : Discipline t op w)
    (hwr : Writes t w w' op wr) (h : PairAgrees (w.view t) id) :
    PairAgrees (schema.apply wr (w.view t)) id := by
  cases hwr with
  | @updateCheck check patch =>
      intro row sid hrow hsid
      rw [check_updateCheck] at hrow
      split at hrow
      · rename_i hid
        subst hid
        obtain ⟨old, hfound, rfl⟩ := Option.map_eq_some_iff.mp hrow
        obtain ⟨session, hsession, hagree⟩ := h old sid hfound hsid
        refine ⟨session, hsession, ?_⟩
        rcases hop with hnone | hrunning
        · simpa [CheckPatch.apply, net_status_none hnone] using hagree
        · obtain ⟨-, row, hrow, hpending⟩ := hpre.2.2 hrunning
          obtain rfl := Option.some.inj (hfound.symm.trans hrow)
          rw [hpending] at hagree
          cases hnet : (patch.net check).status with
          | none => simpa [CheckPatch.apply, hnet, hpending] using hagree
          | some status =>
              obtain rfl : CheckStatus.running = status :=
                Option.some.inj (hrunning.symm.trans (net_status hnet))
              have hstatus : ((patch.net check).apply old).status = .running := by
                simp [CheckPatch.apply, hnet]
              exact hstatus ▸ hagree
      · exact h row sid hrow hsid
  | @insertEvent event hpresent => exact fun row sid hrow hsid => h row sid hrow hsid
  | insertSession _ _ _ => exact PairAgrees.frame h (by simp [schema]) (by simp)
  | insertMessage _ => exact PairAgrees.frame h (by simp [schema]) (by simp)
  | insertCheck _ _ => exact hop.elim
  | updateSession => exact hop.elim

theorem KeepsPairs.agrees (hop : KeepsPairs op) (hpaired : Paired w) (hpre : Discipline t op w)
    (h : PairAgrees (w.view t) id) (hexec : exec t op choice w = some (r, w')) :
    PairAgrees (w'.view t) id := by
  rcases view_of_effect (exec_outcome hexec).effect with heq | ⟨heq, -⟩ | ⟨wr, hwr, -, heq⟩
  · exact heq ▸ h
  · exact heq ▸ hpaired.agree id
  · exact heq ▸ hop.write hpre hwr h

/-- The pairs of the other checks agree, as the task sees them, and its own check is committed. -/
structure Others (t : TaskId) (id : CheckId) (w : World) : Prop where
  agree : ∀ id', id' ≠ id → PairAgrees (w.view t) id'
  present : Present w.store.committed (.check id)

/-- The task sees an outcome of its check, and owes the status of the session. -/
structure Owed (t : TaskId) (id : CheckId) (s : CheckStatus) (w : World) : Prop where
  others : Others t id w
  terminal : s.active = false
  status : ∃ row, (w.view t).check id = some row ∧ row.status = s

/-- All pairs agree, and the task's own check is committed. -/
structure Ready (t : TaskId) (id : CheckId) (w : World) : Prop where
  inStep : InStep t w
  present : Present w.store.committed (.check id)

theorem Ready.others (h : Ready t id w) : Others t id w :=
  ⟨fun id' _ => h.inStep id', h.present⟩

theorem stable_others : Stable linkProtocol t (Others t id) :=
  fun _ _ hinv h hrely hinv' =>
    ⟨fun id' hne => agrees_rely hinv hinv' hrely (h.agree id' hne),
      Present.extends h.present hrely.1.grown⟩

theorem stable_ready : Stable linkProtocol t (Ready t id) :=
  fun w w' hinv h hrely hinv' =>
    ⟨stable_inStep w w' hinv h.inStep hrely hinv', Present.extends h.present hrely.1.grown⟩

theorem stable_owed : Stable linkProtocol t (Owed t id s) := by
  intro w w' hinv h hrely hinv'
  refine ⟨stable_others w w' hinv h.others hrely hinv', h.terminal, ?_⟩
  obtain ⟨row, hrow, hstatus⟩ := h.status
  by_cases howner : w.store.owner (.check id) = some t
  · exact ⟨row, (Prod.mk.inj (hrely.1.view_check howner)).1.trans hrow, hstatus⟩
  · have howner' : w'.store.owner (.check id) ≠ some t := fun h => howner ((hrely.1.owner _).mp h)
    rw [view_check_committed hinv.1.guarded howner] at hrow
    obtain ⟨row', hrow', hsame⟩ := hrely.2.final id row hrow (hstatus ▸ h.terminal)
    exact ⟨row', (view_check_committed hinv'.1.guarded howner').trans hrow',
      hsame.status.trans hstatus⟩

/-- A rollback leaves nothing out of step. -/
theorem Ready.reset (hpaired : Paired w) (hpresent : Present w.store.committed (.check id))
    (invalid : Bool) : Ready t id (w.reset t invalid) :=
  ⟨fun id' => (view_reset (t := t) invalid).symm ▸ hpaired.agree id', hpresent⟩

theorem others_failed {e : Exn} (hinv : linkProtocol.inv w) (h : Others t id w)
    (hexec : exec t op choice w = some (.error e, w')) : Others t id w' :=
  failed_keeps h (Ready.reset hinv.2 h.present true).others hexec

theorem present_exec (h : Present w.store.committed (.check id))
    (hexec : exec t op choice w = some (r, w')) : Present w'.store.committed (.check id) :=
  Present.extends h (committed_grows hexec)

end Pairs

section Parts

variable {t : TaskId} {id : CheckId} {s : CheckStatus}

theorem prepared_of_keepsPairs {op : Op} {w : World} (hop : KeepsPairs op)
    (h : op = .commit → Committable t w) : linkProtocol.pre t op w := by
  cases op <;> first | exact h rfl | exact hop.elim | trivial

/-- A part of a run that changes no pair, commits included. -/
theorem triple_inStep {α : Type} {p : Program α} (hp : Uses KeepsPairs p) :
    Triple linkProtocol t (InStep t) p (fun _ => InStep t) fun _ => InStep t :=
  Triple.of_uses (S := KeepsPairs) stable_inStep
    (fun _ _ hop _ h => prepared_of_keepsPairs hop fun _ id => .inl (h id))
    (fun _ _ _ _ _ hop hinv h hallowed hexec id => hop.agrees hinv.2 hallowed.2 (h id) hexec) hp

/-- What is known of the committed tables stays known meanwhile. -/
theorem triple_knowing {α : Type} {p : Program α} {F : Db → Prop} (hF : Growing F)
    (hp : Uses KeepsPairs p) :
    Triple linkProtocol t (fun w => Ready t id w ∧ F w.store.committed) p
      (fun _ w => Ready t id w ∧ F w.store.committed) fun _ => Others t id := by
  have hknown : Stable linkProtocol t fun w => F w.store.committed :=
    fun _ _ _ h hrely _ => hF _ _ hrely.1.grown h
  have hkept := Triple.of_uses (S := KeepsPairs) (A := fun w => Ready t id w ∧ F w.store.committed)
    (stable_ready.and hknown)
    (fun _ _ hop _ h => prepared_of_keepsPairs hop fun _ id => .inl (h.1.inStep id))
    (fun _ _ _ _ _ hop hinv h hallowed hexec =>
      ⟨⟨fun id => hop.agrees hinv.2 hallowed.2 (h.1.inStep id) hexec,
        present_exec h.1.present hexec⟩, hF _ _ (committed_grows hexec) h.2⟩) hp
  exact hkept.weaken (fun _ _ h => h) (fun _ _ _ h => h) fun _ _ _ h => h.1.others

theorem triple_ready {α : Type} {p : Program α} (hp : Uses KeepsPairs p) :
    Triple linkProtocol t (Ready t id) p (fun _ => Ready t id) fun _ => Others t id :=
  (triple_knowing (F := fun _ => True) (fun _ _ _ h => h) hp).weaken (fun _ _ h => ⟨h, trivial⟩)
    (fun _ _ _ h => h.1) fun _ _ _ h => h

/-- A part of a run that changes no pair and does not commit. -/
theorem triple_others {α : Type} {p : Program α}
    (hp : Uses (fun op => KeepsPairs op ∧ op ≠ .commit) p) :
    Triple linkProtocol t (Others t id) p (fun _ => Others t id) fun _ => Others t id :=
  Triple.of_uses (S := fun op => KeepsPairs op ∧ op ≠ .commit) stable_others
    (fun _ _ hop _ _ => prepared_of_keepsPairs hop.1 fun h => absurd h hop.2)
    (fun _ _ _ _ _ hop hinv h hallowed hexec =>
      ⟨fun id' hne => hop.1.agrees hinv.2 hallowed.2 (h.agree id' hne) hexec,
        present_exec h.present hexec⟩) hp

theorem keepsPairs_of_reads {op : Op} (h : Reads op) : KeepsPairs op := by
  cases op <;> first | exact h.elim | trivial

/-- Reads keep what the task sees of its check. -/
theorem triple_reads {α : Type} {p : Program α} {F : Db → Prop} (hF : Growing F)
    (hp : Straight Reads p) :
    Triple linkProtocol t (fun w => Others t id w ∧ F (w.view t)) p
      (fun _ w => Others t id w ∧ F (w.view t)) fun _ => Others t id := by
  refine Triple.of_straight (S := Reads) (stable_others.and (hF.stable above)) stable_others
    (fun op w hop _ _ => prepared_of_keepsPairs (keepsPairs_of_reads hop) ?_)
    ?_ (fun op choice e w w' hop hinv h hallowed hexec => others_failed hinv h.1 hexec)
    (fun _ _ h => h.1) hp
  · rintro rfl
    exact hop.elim
  · intro op choice a w w' hop hinv h hallowed hexec
    refine ⟨⟨fun id' hne => (keepsPairs_of_reads hop).agrees hinv.2 hallowed.2
      (h.1.agree id' hne) hexec, present_exec h.1.present hexec⟩, ?_⟩
    obtain ⟨answer, kept, -, hsucceed⟩ := exec_ok hexec
    refine hF _ _ (succeed_grows ?_ ?_ hsucceed) h.2 <;> rintro rfl <;> exact hop.elim

/-- `mark_terminal` leaves the status of the session owed, also where it returns early. -/
theorem triple_markTerminal {F : Db → Prop} (hF : Growing F) (hterminal : s.active = false)
    (qualityResult : Option String) (result error : Option Json) :
    Triple linkProtocol t (fun w => Others t id w ∧ F (w.view t))
      (markTerminal id s qualityResult result error)
      (fun _ w => Owed t id s w ∧ F (w.view t)) fun _ => Others t id := by
  have hstable : Stable linkProtocol t fun w => Others t id w ∧ F (w.view t) :=
    stable_others.and (hF.stable above)
  have howed : Stable linkProtocol t fun w => Owed t id s w ∧ F (w.view t) :=
    stable_owed.and (hF.stable above)
  refine Triple.bind (triple_reads hF (straight_requireCheck id)) fun _ => ?_
  refine Triple.bind (B := fun check w => check.id = id ∧ Others t id w ∧ F (w.view t)) ?_
    fun check => ?_
  · refine Triple.perform hstable (fun _ => (Stable.const _).and hstable)
      (fun _ => stable_others) (fun _ _ _ => trivial) ?_
    intro w choice r w' hinv h hinv' hallowed hexec
    cases r with
    | error e => exact others_failed hinv h.1 hexec
    | ok check =>
        obtain ⟨answer, kept, rfl, hsucceed⟩ := exec_ok hexec
        obtain ⟨hrow, rfl⟩ := reply_refreshCheck hsucceed
        exact ⟨Db.check_id hrow, ⟨h.1.agree, h.1.present⟩, h.2⟩
  · split
    · rename_i hactive
      refine Triple.perform ((Stable.const _).and hstable) (fun _ => howed)
        (fun _ => stable_others) (fun _ _ _ => trivial) ?_
      intro w choice r w' hinv h hinv' hallowed hexec
      cases r with
      | error e => exact others_failed hinv h.2.1 hexec
      | ok a =>
          have hpresent := present_exec h.2.1.present hexec
          obtain ⟨answer, kept, rfl, hsucceed⟩ := exec_ok hexec
          have hgrows := succeed_grows (by simp) (by simp) hsucceed
          have hne : s ≠ check.status := fun heq => by simp [heq, hactive] at hterminal
          refine ⟨⟨⟨fun id' hid => ?_, hpresent⟩, hterminal, ?_⟩, hF _ _ hgrows h.2.2⟩
          · rw [view_of_write (succeed_updateCheck (by simp) hsucceed)]
            refine PairAgrees.frame (h.2.1.agree id' hid) ?_ (by simp)
            simpa [schema, h.1] using hid
          · obtain ⟨row, hrow, hstatus⟩ := status_updateCheck rfl hne hallowed.2.1 hsucceed
            exact ⟨row, h.1 ▸ hrow, hstatus⟩
    · refine Triple.bind (B := fun _ w => Owed t id s w ∧ F (w.view t)) ?_ fun _ =>
        Triple.done howed fun _ _ h => h
      refine Triple.perform ((Stable.const _).and hstable) (fun _ => howed)
        (fun _ => stable_others) (fun _ _ _ => trivial) ?_
      intro w choice r w' hinv h hinv' hallowed hexec
      cases r with
      | error e => exact others_failed hinv h.2.1 hexec
      | ok _ =>
          obtain ⟨answer, kept, rfl, hsucceed⟩ := exec_ok hexec
          obtain ⟨-, rfl⟩ := Prod.mk.inj (Option.some.inj hsucceed)
          obtain ⟨row, hrow, hstatus⟩ := Option.map_eq_some_iff.mp hallowed.1.2
          exact ⟨⟨h.2.1, hterminal, row, hrow, hstatus⟩, h.2.2⟩

/-- The session of a check, as the tables have it. -/
def SessionOf (id : CheckId) (sessionId : Option SessionId) (db : Db) : Prop :=
  ∃ row, db.check id = some row ∧ row.sessionId = sessionId

theorem growing_sessionOf (id : CheckId) (sessionId : Option SessionId) :
    Growing (SessionOf id sessionId) := by
  rintro db db' hext ⟨row, hrow, hsid⟩
  obtain ⟨row', hrow', hsid'⟩ := hext.check id row hrow
  exact ⟨row', hrow', hsid'.trans hsid⟩

/-- The update of the session settles what is owed. -/
theorem triple_updateSession {session : Session} {sid : SessionId} {status : SessionStatus}
    (hstatus : sessionStatusOf s = some status) :
    Triple linkProtocol t
      (fun w => (Owed t id s w ∧ SessionOf id (some sid) (w.view t)) ∧ session.id = sid ∧
        Accurate t w session)
      (await (.updateSession session status)) (fun _ => Ready t id) fun _ => Others t id := by
  have hstable : Stable linkProtocol t fun w => (Owed t id s w ∧
      SessionOf id (some sid) (w.view t)) ∧ session.id = sid ∧ Accurate t w session := by
    refine (stable_owed.and ((growing_sessionOf id _).stable above)).and
      ((Stable.const _).and fun w w' hinv h hrely hinv' => ?_)
    exact Accurate.rely h hinv.1 hinv'.1 hrely.1 hrely.2
  refine Triple.perform hstable (fun _ => stable_ready) (fun _ => stable_others) ?_ ?_
  · rintro w hinv ⟨⟨howed, row, hrow, hsid⟩, rfl, haccurate⟩
    obtain ⟨row₁, hrow₁, hrowStatus⟩ := howed.status
    obtain rfl := Option.some.inj (hrow.symm.trans hrow₁)
    refine ⟨haccurate, ?_, ?_⟩
    · rintro rfl
      exact absurd howed.terminal (by simp [sessionStatusOf_active.mp hstatus])
    obtain ⟨row₀, hrow₀⟩ := Option.isSome_iff_exists.mp howed.others.present
    obtain ⟨row', hrow', hsame⟩ := (extends_applyAll (w.store.pending t) _).check id row₀ hrow₀
    obtain rfl : row = row' := Option.some.inj (Eq.trans (Eq.symm hrow) hrow')
    refine ⟨id, row₀, hrow₀, hsame.symm.trans hsid, ?_⟩
    by_cases howner : w.store.owner (.check id) = some t
    · exact .inl howner
    · rw [view_check_committed hinv.1.guarded howner] at hrow
      obtain rfl := Option.some.inj (hrow.symm.trans hrow₀)
      exact .inr ⟨hrowStatus ▸ howed.terminal, hrowStatus ▸ hstatus⟩
  · rintro w choice r w' hinv ⟨⟨howed, row, hrow, hsid⟩, rfl, haccurate⟩ hinv' hallowed hexec
    cases r with
    | error e => exact others_failed hinv howed.others hexec
    | ok a =>
        have hpresent := present_exec howed.others.present hexec
        obtain ⟨answer, kept, rfl, hsucceed⟩ := exec_ok hexec
        have hview := view_of_write (succeed_updateSession hsucceed).1
        have hclosed : status ≠ .active := by
          rintro rfl
          exact absurd howed.terminal (by simp [sessionStatusOf_active.mp hstatus])
        refine ⟨fun id' row' sid' hrow' hsid' => ?_, hpresent⟩
        rw [hview] at hrow' ⊢
        have hrow' : (w.view t).check id' = some row' := hrow'
        by_cases hid : id' = id
        · subst hid
          obtain rfl := Option.some.inj (hrow.symm.trans hrow')
          obtain rfl := Option.some.inj (hsid.symm.trans hsid')
          obtain ⟨session', hsession', hupdated⟩ := haccurate.updated hclosed hallowed.2
          obtain ⟨row₁, hrow₁, hrowStatus⟩ := howed.status
          obtain rfl := Option.some.inj (hrow.symm.trans hrow₁)
          exact ⟨session', hsession', by rw [hrowStatus, hstatus, hupdated]⟩
        · have hne : sid' ≠ session.id := by
            rintro rfl
            exact hid (hinv.2.unshared_view hinv.1.linked id' id row' row _ hrow' hrow hsid' hsid)
          rw [session_updateSession, if_neg hne]
          exact howed.others.agree id' hid row' sid' hrow' hsid'

/-- `set_status` on the session of the check, with the outcome of the check. -/
theorem triple_setSessionStatus (c : Collaborators) (hc : c.sessionRepository = true)
    {sessionId : Option SessionId} {status : SessionStatus}
    (hstatus : sessionStatusOf s = some status) :
    Triple linkProtocol t (fun w => Owed t id s w ∧ SessionOf id sessionId (w.view t))
      (setSessionStatus c sessionId status) (fun _ => Ready t id) fun _ => Others t id := by
  have hlinked : ∀ sessionId, Stable linkProtocol t fun w =>
      Owed t id s w ∧ SessionOf id sessionId (w.view t) :=
    fun _ => stable_owed.and ((growing_sessionOf id _).stable above)
  simp only [setSessionStatus, hc]
  cases sessionId with
  | none =>
      refine Triple.done stable_ready fun w hinv h => ⟨fun id' => ?_, h.1.others.present⟩
      by_cases hid : id' = id
      · subst hid
        intro row sid hrow hsid
        obtain ⟨row', hrow', hnone⟩ := h.2
        obtain rfl := Option.some.inj (hrow.symm.trans hrow')
        simp [hnone] at hsid
      · exact h.1.others.agree id' hid
  | some sid =>
      refine Triple.bind (B := fun _ => Ready t id) (Triple.bind (B := fun found w =>
        (Owed t id s w ∧ SessionOf id (some sid) (w.view t)) ∧
          ∀ session, found = some session → session.id = sid ∧ Accurate t w session) ?_
        fun found => ?_) fun _ => Triple.done stable_ready fun _ _ h => h
      · refine Triple.perform (hlinked _) (fun found => (hlinked _).and ?_)
          (fun _ => stable_others) (fun _ _ _ => trivial) ?_
        · intro w w' hinv h hrely hinv' session hsession
          obtain ⟨hid, haccurate⟩ := h session hsession
          exact ⟨hid, Accurate.rely haccurate hinv.1 hinv'.1 hrely.1 hrely.2⟩
        · intro w choice r w' hinv h hinv' hallowed hexec
          cases r with
          | error e => exact others_failed hinv h.1.others hexec
          | ok found =>
              have hcarries := (show Quiet (.getSession sid) from trivial).exec_carries hexec
              have hothers : Others t id w' :=
                ⟨fun id' hne => (show KeepsPairs (.getSession sid) from trivial).agrees hinv.2
                  hallowed.2 (h.1.others.agree id' hne) hexec, present_exec h.1.others.present hexec⟩
              refine ⟨⟨⟨hothers, h.1.terminal, hcarries.check id ▸ h.1.status⟩, ?_⟩, ?_⟩
              · obtain ⟨row, hrow, hsid⟩ := h.2
                exact ⟨row, (hcarries.check id).trans hrow, hsid⟩
              · rintro session rfl
                obtain ⟨answer, kept, rfl, hsucceed⟩ := exec_ok hexec
                obtain ⟨hmem, hid, -⟩ := reply_getSession hsucceed
                exact ⟨hid, hinv'.2.copies t session hmem⟩
      · cases found with
        | none => exact Triple.raise stable_others fun _ _ h => h.1.1.others
        | some session =>
            refine Triple.weaken (Triple.bind (triple_updateSession hstatus) fun _ =>
              triple_ready ?_) (fun w _ h => ⟨h.1, h.2 session rfl⟩) (fun _ _ _ h => h)
              fun _ _ _ h => h
            exact Uses.bind (Uses.perform trivial) fun _ => trivial

theorem keepsPairs_of_appends {type : EventType} {op : Op} (h : Appends type op) :
    KeepsPairs op := by
  cases op <;> first | exact h.elim | trivial

theorem keepsPairs_of_publishes {op : Op} (h : Publishes op) : KeepsPairs op := by
  cases op <;> first | exact h.elim | trivial

theorem keepsPairs_of_graph {op : Op} (h : GraphOp op) : KeepsPairs op := by
  cases op <;> first | exact h.elim | trivial

theorem keepsPairs_of_begins {op : Op} (h : Begins op) : KeepsPairs op := by
  cases op with
  | updateCheck check patch => exact .inr h
  | updateSession _ _ | insertCheck _ => exact h.elim
  | _ => trivial

theorem keepsPairs_of_checkpoints {op : Op} (h : Checkpoints op) : KeepsPairs op := by
  cases op with
  | updateCheck check patch => exact .inl h
  | updateSession _ _ | insertCheck _ => simp [Checkpoints, Reads, Publishes, GraphOp] at h
  | _ => trivial

/-- What follows `mark_terminal` in both endings of a run. -/
theorem triple_ending {α : Type} (c : Collaborators) (hc : c.sessionRepository = true)
    {sessionId : Option SessionId} {status : SessionStatus}
    (hstatus : sessionStatusOf s = some status) (type : EventType)
    (node checkpointId taskId message : Option String) (value : α) :
    Triple linkProtocol t (fun w => Owed t id s w ∧ SessionOf id sessionId (w.view t))
      (do
        setSessionStatus c sessionId status
        let event ← appendEvent id type node checkpointId taskId message
        await .commit
        publishEvent c event
        pure value)
      (fun _ => Ready t id) fun _ => Others t id := by
  refine Triple.bind (triple_setSessionStatus c hc hstatus) fun _ => triple_ready ?_
  refine Uses.bind ((straight_appendEvent _ _ _ _ _ _).uses.mono fun _ => keepsPairs_of_appends)
    fun event => Uses.bind (Uses.perform trivial) fun _ => ?_
  exact Uses.bind ((uses_publishEvent c event).mono fun _ => keepsPairs_of_publishes)
    fun _ => trivial

end Parts

section Tasks

variable {t : TaskId} {id : CheckId}

/-- `get_check` finds the check of the run, with its session. -/
theorem triple_getCheck :
    Triple linkProtocol t (Others t id) (SopRepository.getCheck id)
      (fun found w => Others t id w ∧
        SessionOf id (found.bind fun (check, _) => check.sessionId) (w.view t))
      fun _ => Others t id := by
  have hstable : ∀ sessionId, Stable linkProtocol t fun w =>
      Others t id w ∧ SessionOf id sessionId (w.view t) :=
    fun _ => stable_others.and ((growing_sessionOf id _).stable above)
  refine Triple.bind (B := fun found w => Others t id w ∧
    SessionOf id (found.bind (·.sessionId)) (w.view t)) ?_ fun found => ?_
  · refine Triple.perform stable_others (fun found => hstable _) (fun _ => stable_others)
      (fun _ _ _ => trivial) ?_
    intro w choice r w' hinv h hinv' hallowed hexec
    cases r with
    | error e => exact others_failed hinv h hexec
    | ok found =>
        refine ⟨⟨fun id' hne => (show KeepsPairs (.getCheck id) from trivial).agrees hinv.2 hallowed.2
          (h.agree id' hne) hexec, present_exec h.present hexec⟩, ?_⟩
        obtain ⟨answer, kept, rfl, hsucceed⟩ := exec_ok hexec
        cases found with
        | none =>
            have hpresent : Present (w.view t) (.check id) :=
              Present.extends h.present (extends_applyAll _ _)
            simp [Present, reply_getCheck_none hsucceed] at hpresent
        | some check =>
            obtain ⟨hmem, hid, -⟩ := reply_getCheck hsucceed
            obtain ⟨row, hrow, hsid⟩ := hinv'.1.checks t check hmem
            exact ⟨row, hid ▸ hrow, hsid⟩
  · cases found with
    | none => exact Triple.done (hstable none) fun _ _ h => h
    | some check =>
        refine triple_reads (growing_sessionOf id check.sessionId) ?_ |>.bind fun latest =>
          Triple.done (hstable check.sessionId) fun _ _ h => h
        exact Straight.perform trivial

theorem triple_markFailed (c : Collaborators) (hc : c.sessionRepository = true) (e : Exn) :
    Triple linkProtocol t (Others t id) (markFailed c id e) (fun _ => Ready t id)
      fun _ => Others t id :=
  Triple.bind triple_getCheck fun _ =>
    Triple.bind (triple_markTerminal (growing_sessionOf id _) rfl _ _ _) fun _ =>
      triple_ending c hc rfl _ _ _ _ _ _

theorem triple_tryRun (c : Collaborators) (hc : c.sessionRepository = true) :
    Triple linkProtocol t (Ready t id) (tryRun c id) (fun _ => Ready t id)
      fun _ => Others t id := by
  refine Triple.bind (((triple_ready ((uses_markRunning id).mono fun _ =>
    keepsPairs_of_begins)).and above.markRunning).weaken (fun _ _ h => ⟨h, trivial⟩)
    (fun _ _ _ h => h) fun _ _ _ h => h.1) fun found => ?_
  cases found with
  | none => exact Triple.done stable_ready fun _ _ h => h.1
  | some check =>
      have hkeeps : ∀ {α β : Type} {p : Program α} {f : α → Program β}, Uses KeepsPairs p →
          (∀ a, Triple linkProtocol t
            (fun w => Ready t id w ∧ SessionOf id check.sessionId w.store.committed) (f a)
            (fun _ => Ready t id) fun _ => Others t id) →
          Triple linkProtocol t
            (fun w => Ready t id w ∧ SessionOf id check.sessionId w.store.committed) (p >>= f)
            (fun _ => Ready t id) fun _ => Others t id :=
        fun hp hf => Triple.bind (triple_knowing (growing_sessionOf id check.sessionId) hp) hf
      refine Triple.weaken (A := fun w => Ready t id w ∧
        SessionOf id check.sessionId w.store.committed) ?_ (fun w _ h => ⟨h.1, ?_⟩)
        (fun _ _ _ h => h) fun _ _ _ h => h
      · refine hkeeps ((straight_appendEvent _ _ _ _ _ _).uses.mono fun _ =>
          keepsPairs_of_appends) fun _ => ?_
        refine hkeeps (Uses.perform trivial) fun _ => hkeeps (Uses.perform trivial) fun _ => ?_
        refine hkeeps ((uses_publishEvent c _).mono fun _ => keepsPairs_of_publishes) fun _ => ?_
        refine hkeeps ((uses_ainvoke c _ _ _).mono fun _ => keepsPairs_of_graph) fun _ => ?_
        refine hkeeps ((uses_recordCheckpoint c id).mono fun _ => keepsPairs_of_checkpoints)
          fun _ => ?_
        refine Triple.bind ((triple_markTerminal (growing_sessionOf id check.sessionId) rfl
          _ _ _).weaken (fun w _ h => ⟨h.1.others, ?_⟩) (fun _ _ _ h => h) fun _ _ _ h => h)
          fun _ => triple_ending c hc rfl _ _ _ _ _ _
        exact growing_sessionOf id _ _ _ (extends_applyAll _ _) h.2
      · obtain ⟨hid, row, hrow, hsid⟩ := h.2 check rfl
        obtain ⟨row₀, hrow₀⟩ := Option.isSome_iff_exists.mp h.1.present
        obtain ⟨row', hrow', hsame⟩ :=
          (extends_applyAll (w.store.pending t) w.store.committed).check id row₀ hrow₀
        rw [hid] at hrow
        obtain rfl : row = row' := Option.some.inj (Eq.trans (Eq.symm hrow) hrow')
        exact ⟨row₀, hrow₀, hsame.symm.trans hsid⟩

theorem triple_close {A : World → Prop} (hA : Stable linkProtocol t A) :
    Triple linkProtocol t A (await .close) (fun _ _ => True) fun _ _ => True :=
  Triple.perform hA (fun _ => Stable.const True) (fun _ => Stable.const True)
    (fun _ _ _ => trivial) (by rintro w choice (e | a) w' - - - - - <;> trivial)

theorem triple_run (c : Collaborators) :
    Triple linkProtocol t (Ready t id) (runSopQualityCheckWithNewSession c id)
      (fun _ _ => True) fun _ _ => True := by
  refine Triple.ensuring (fun _ => Stable.const True) (fun _ => Stable.const True)
    (Triple.tryCatch (B := fun _ => Others t id) (Q := fun _ => Ready t id)
      (E := fun _ => Others t id) ?_ fun e => ?_)
    (fun _ => triple_close stable_ready) fun _ => triple_close stable_others
  · refine Triple.bind (B := fun _ => Ready t id) (triple_ready ?_) fun _ => ?_
    · exact Uses.perform trivial
    · refine Triple.ensuring (fun _ => stable_ready) (fun _ => stable_others)
        (Triple.tryCatch (triple_tryRun _ rfl) fun e => triple_markFailed _ rfl e)
        (fun _ => triple_ready ?_) fun _ => triple_others ?_
      · exact Uses.perform trivial
      · exact Uses.perform ⟨trivial, by simp⟩
  · refine Triple.bind (triple_others ?_) fun _ => triple_markFailed _ rfl e
    exact Uses.perform ⟨trivial, by simp⟩

theorem stable_committable : Stable linkProtocol t (Committable t) := by
  intro w w' hinv h hrely hinv' id
  refine (h id).imp (agrees_rely hinv hinv' hrely) ?_
  rintro ⟨patch, hpatch, hinterrupted⟩
  exact ⟨patch, hrely.1.pending.symm ▸ hpatch, hinterrupted⟩

/-- The writes of a transaction that goes on. -/
theorem pending_kept {type : EventType} {op : Op} {answer : Answer} {kept : Bool} {a : Reply op}
    {w w' : World} (hop : Appends type op) (h : succeed t answer kept w op = some (a, w'))
    {wr : Write} (hwr : wr ∈ w.store.pending t) : wr ∈ w'.store.pending t := by
  cases (succeed_outcome h).effect with
  | stay heq => exact heq ▸ hwr
  | lock _ _ heq => exact (Store.lock_eq_some heq).pending.symm ▸ hwr
  | write _ _ heq =>
      obtain ⟨mid, hlocks, hrecord⟩ := Store.write_eq_some heq
      rw [hrecord, Store.record_pending, hlocks.pending]
      exact List.mem_append_left _ hwr
  | commit _ _ => exact hop.elim
  | rollback hended _ _ _ =>
      rcases hended with h | rfl | rfl
      · exact h.elim
      · exact hop.elim
      · exact hop.elim

theorem triple_appendEvent {type : EventType} (node checkpointId taskId message : Option String) :
    Triple linkProtocol t (Committable t) (appendEvent id type node checkpointId taskId message)
      (fun _ => Committable t) fun _ _ => True := by
  refine Triple.of_straight (S := Appends type) stable_committable (Stable.const True)
    (fun op w hop _ h => prepared_of_keepsPairs (keepsPairs_of_appends hop) fun _ => h)
    ?_ (fun _ _ _ _ _ _ _ _ _ _ => trivial) (fun _ _ _ => trivial)
    (straight_appendEvent _ _ _ _ _ _)
  intro op choice a w w' hop hinv h hallowed hexec id
  refine (h id).imp (fun h => (keepsPairs_of_appends hop).agrees hinv.2 hallowed.2 h hexec) ?_
  rintro ⟨patch, hpatch, hinterrupted⟩
  obtain ⟨answer, kept, -, hsucceed⟩ := exec_ok hexec
  exact ⟨patch, pending_kept hop hsucceed hpatch, hinterrupted⟩

/-- While the startup goes on, the checks that it has interrupted are out of step. -/
theorem triple_interruptEach (checks : List SopQualityCheck)
    (hactive : ∀ check ∈ checks, check.status.active = true) :
    Triple linkProtocol t (Committable t) (interruptEach checks) (fun _ => Committable t)
      fun _ _ => True := by
  induction checks with
  | nil => exact Triple.done stable_committable fun _ _ h => h
  | cons check checks ih =>
      refine Triple.bind (B := fun _ => Committable t) ?_ fun _ => ?_
      · refine Triple.perform stable_committable (fun _ => stable_committable)
          (fun _ => Stable.const True) (fun _ _ _ => trivial) ?_
        intro w choice r w' hinv h hinv' hallowed hexec
        cases r with
        | error e => trivial
        | ok reply =>
            obtain ⟨answer, kept, rfl, hsucceed⟩ := exec_ok hexec
            have hwrite := succeed_updateCheck (by simp) hsucceed
            obtain ⟨mid, hlocks, hrecord⟩ := Store.write_eq_some hwrite
            have hnet : CheckPatch.status (CheckPatch.net { status := some .interrupted } check) =
                some .interrupted := by
              have hne : CheckStatus.interrupted ≠ check.status := fun heq => by
                simp [← heq, CheckStatus.active] at hactive
              simp [CheckPatch.net, Option.filter_some, hne]
            intro id
            by_cases hid : id = check.id
            · subst hid
              refine .inr ⟨_, ?_, hnet⟩
              rw [hrecord, Store.record_pending]
              exact List.mem_append_right _ (List.mem_singleton.mpr rfl)
            · refine (h id).imp (fun hagree => ?_) ?_
              · rw [view_of_write hwrite]
                exact PairAgrees.frame hagree (by simpa [schema] using hid) (by simp)
              · rintro ⟨patch, hpatch, hinterrupted⟩
                refine ⟨patch, ?_, hinterrupted⟩
                rw [hrecord, Store.record_pending, hlocks.pending]
                exact List.mem_append_left _ hpatch
      · refine Triple.bind (triple_appendEvent _ _ _ _) fun _ => ?_
        exact Triple.bind (ih fun other hother => hactive other (List.mem_cons_of_mem _ hother))
          fun _ => Triple.done stable_committable fun _ _ h => h

theorem inStep_unbegun {w : World} (hinv : linkProtocol.inv w) (h : Unbegun t w) : InStep t w :=
  fun id => h.view.symm ▸ hinv.2.agree id

theorem triple_startup :
    Triple linkProtocol t (Unbegun t) interruptLeftoverSopQualityChecks (fun _ _ => True)
      fun _ _ => True := by
  refine Triple.ensuring (fun _ => Stable.const True) (fun _ => Stable.const True)
    (B := fun _ _ => True) (C := fun _ _ => True) ?_
    (fun _ => triple_close (Stable.const True)) fun _ => triple_close (Stable.const True)
  refine Triple.bind (B := fun _ => Committable t) (Triple.bind (B := fun checks w =>
    Committable t w ∧ ∀ check ∈ checks, check.status.active = true) ?_ fun checks => ?_)
    fun _ => ?_
  · refine Triple.perform (fun _ _ _ h hrely _ => h.rely hrely.1)
      (fun _ => stable_committable.and (Stable.const _)) (fun _ => Stable.const True)
      (fun _ _ _ => trivial) ?_
    intro w choice r w' hinv h hinv' hallowed hexec
    cases r with
    | error e => trivial
    | ok checks =>
        refine ⟨fun id => .inl ?_, fun check hcheck => ?_⟩
        · exact (show KeepsPairs .selectActive from trivial).agrees hinv.2 hallowed.2
            (inStep_unbegun hinv h id) hexec
        · obtain ⟨answer, kept, rfl, hsucceed⟩ := exec_ok hexec
          exact (Db.mem_activeChecks (replies_active h.checks hsucceed ▸ hcheck)).2
  · intro w hinv h
    refine Triple.bind (triple_interruptEach checks h.2) (fun _ => ?_) w hinv h.1
    refine Triple.bind (B := fun _ => Committable t) ?_ fun _ =>
      Triple.done stable_committable fun _ _ h => h
    refine Triple.perform stable_committable (fun _ => stable_committable)
      (fun _ => Stable.const True) (fun _ _ _ => trivial) ?_
    intro w choice r w' hinv h hinv' hallowed hexec
    cases r with
    | error e => trivial
    | ok a =>
        obtain ⟨answer, kept, rfl, hsucceed⟩ := exec_ok hexec
        obtain ⟨-, rfl⟩ := Prod.mk.inj (Option.some.inj hsucceed)
        exact h
  · exact Triple.perform stable_committable (fun _ => Stable.const True)
      (fun _ => Stable.const True) (fun _ _ h => h)
      (by rintro w choice (e | a) w' - - - - - <;> trivial)

/-- The task has not inserted a check. -/
structure Alone (t : TaskId) (w : World) : Prop where
  inStep : InStep t w
  inserts : ∀ row, .insertCheck row ∉ w.store.pending t

/-- The task has made a session, which nobody else can see. -/
structure Made (t : TaskId) (sid : SessionId) (w : World) : Prop where
  alone : Alone t w
  fresh : w.store.committed.session sid = none
  owner : w.store.owner (.session sid) = some t
  session : ∃ session, (w.view t).session sid = some session ∧ session.status = .active

theorem stable_alone : Stable linkProtocol t (Alone t) :=
  fun w w' hinv h hrely hinv' =>
    ⟨stable_inStep w w' hinv h.inStep hrely hinv', fun row => hrely.1.pending.symm ▸ h.inserts row⟩

theorem stable_made {sid : SessionId} : Stable linkProtocol t (Made t sid) :=
  fun w w' hinv h hrely hinv' =>
    ⟨stable_alone w w' hinv h.alone hrely hinv',
      (Prod.mk.inj (hrely.1.sessionLocked sid h.owner)).1.trans h.fresh,
      (hrely.1.owner _).mpr h.owner, (Prod.mk.inj (hrely.1.view_session h.owner)).1 ▸ h.session⟩

theorem inStep_failed {op : Op} {choice : Choice} {e : Exn} {w w' : World}
    (hinv : linkProtocol.inv w) (h : InStep t w)
    (hexec : exec t op choice w = some (.error e, w')) : InStep t w' :=
  failed_keeps h (fun id => (view_reset (t := t) true).symm ▸ hinv.2.agree id) hexec

theorem Alone.reads {op : Op} {answer : Answer} {kept : Bool} {a : Reply op} {w w' : World}
    (h : Alone t w) (hop : Reads op) (hsucceed : succeed t answer kept w op = some (a, w')) :
    Alone t w' := by
  obtain ⟨hpending, hcommitted, -⟩ := Reads.writes_nothing hop hsucceed
  refine ⟨?_, hpending.symm ▸ h.inserts⟩
  simpa only [InStep, World.view, Store.view, hpending, hcommitted] using h.inStep

theorem Made.reads {op : Op} {answer : Answer} {kept : Bool} {a : Reply op} {w w' : World}
    {sid : SessionId} (h : Made t sid w) (hop : Reads op)
    (hsucceed : succeed t answer kept w op = some (a, w')) : Made t sid w' := by
  obtain ⟨hpending, hcommitted, howner⟩ := Reads.writes_nothing hop hsucceed
  refine ⟨h.alone.reads hop hsucceed, hcommitted ▸ h.fresh, howner _ h.owner, ?_⟩
  simpa only [World.view, Store.view, hpending, hcommitted] using h.session

theorem pre_of_reads {op : Op} (h : Reads op) (w : World) : linkProtocol.pre t op w := by
  cases op <;> first | exact h.elim | trivial

theorem triple_alone_reads {α : Type} {p : Program α} (hp : Straight Reads p) :
    Triple linkProtocol t (Alone t) p (fun _ => Alone t) fun _ => InStep t := by
  refine Triple.of_straight (S := Reads) stable_alone stable_inStep
    (fun _ w hop _ _ => pre_of_reads hop w) ?_
    (fun _ _ _ _ _ _ hinv h _ hexec => inStep_failed hinv h.inStep hexec)
    (fun _ _ h => h.inStep) hp
  intro op choice a w w' hop _ h _ hexec
  obtain ⟨answer, kept, -, hsucceed⟩ := exec_ok hexec
  exact h.reads hop hsucceed

theorem triple_made_reads {α : Type} {p : Program α} {sid : SessionId} (hp : Straight Reads p) :
    Triple linkProtocol t (Made t sid) p (fun _ => Made t sid) fun _ => InStep t := by
  refine Triple.of_straight (S := Reads) stable_made stable_inStep
    (fun _ w hop _ _ => pre_of_reads hop w) ?_
    (fun _ _ _ _ _ _ hinv h _ hexec => inStep_failed hinv h.alone.inStep hexec)
    (fun _ _ h => h.alone.inStep) hp
  intro op choice a w w' hop _ h _ hexec
  obtain ⟨answer, kept, -, hsucceed⟩ := exec_ok hexec
  exact h.reads hop hsucceed

theorem triple_createSession (title : Option String) :
    Triple linkProtocol t (Alone t) (createSession title) (fun session => Made t session.id)
      fun _ => InStep t := by
  refine Triple.perform stable_alone (fun _ => stable_made) (fun _ => stable_inStep)
    (fun _ _ _ => trivial) ?_
  intro w choice r w' hinv h hinv' hallowed hexec
  cases r with
  | error e => exact inStep_failed hinv h.inStep hexec
  | ok session =>
      have hinStep : InStep t w' := fun id =>
        (show KeepsPairs (.insertSession title) from trivial).agrees hinv.2 hallowed.2 (h.inStep id) hexec
      obtain ⟨answer, kept, rfl, hsucceed⟩ := exec_ok hexec
      obtain ⟨hid, hactive, hwrite⟩ := succeed_insertSession hsucceed
      obtain ⟨mid, hlocks, hrecord⟩ := Store.write_eq_some hwrite
      refine ⟨⟨hinStep, fun row hrow => ?_⟩, ?_, ?_, session, ?_, hactive⟩
      · rw [hrecord, Store.record_pending, hlocks.pending, List.mem_append,
          List.mem_singleton] at hrow
        exact hrow.elim (h.inserts row) (by simp)
      · rw [hrecord, Store.record_committed, hlocks.committed]
        exact (Prod.mk.inj (hinv.1.sessionFresh _ hid.ge)).1
      · rw [hrecord, Store.record_owner]
        exact hlocks.taken _ (by simp [schema])
      · have hnone : (w.view t).session session.id = none :=
          (Prod.mk.inj (hinv.1.view_session_fresh (t := t) hid.ge)).1
        simp [view_of_write hwrite, session_insertSession, hnone]

theorem triple_createCheck {values : NewCheck} {sid : SessionId}
    (hvalues : values.sessionId = some sid) :
    Triple linkProtocol t (Made t sid) (createCheck values) (fun _ => InStep t)
      fun _ => InStep t := by
  refine Triple.bind (triple_made_reads (straight_getActiveCheck _ _)) fun active => ?_
  cases active with
  | some active => exact Triple.raise stable_inStep fun _ _ h => h.alone.inStep
  | none =>
      refine Triple.tryCatch (B := fun _ => InStep t) ?_ fun e => triple_inStep ?_
      · refine Triple.perform stable_made (fun _ => stable_inStep) (fun _ => stable_inStep) ?_ ?_
        · refine fun w hinv h => ⟨h.alone.inserts, fun sid' hsid' => ?_⟩
          obtain rfl := Option.some.inj (hvalues.symm.trans hsid')
          exact ⟨h.fresh, h.owner⟩
        · intro w choice r w' hinv h hinv' hallowed hexec
          cases r with
          | error e => exact inStep_failed hinv h.alone.inStep hexec
          | ok check =>
              obtain ⟨answer, kept, rfl, hsucceed⟩ := exec_ok hexec
              intro id row sid' hrow hsid'
              rw [view_of_write (succeed_insertCheck hsucceed)] at hrow ⊢
              rw [check_insertCheck] at hrow
              rcases Option.or_eq_some_iff.mp hrow with hrow | ⟨-, hrow⟩
              · exact h.alone.inStep id row sid' hrow hsid'
              · split at hrow
                · obtain rfl := Option.some.inj hrow
                  obtain rfl := Option.some.inj (hvalues.symm.trans hsid')
                  obtain ⟨session, hsession, hactive⟩ := h.session
                  exact ⟨session, hsession, hactive ▸ rfl⟩
                · simp at hrow
      · cases e with
        | integrityError message =>
            refine Uses.bind (Uses.perform trivial) fun _ => ?_
            refine Uses.bind ((straight_getActiveCheck _ _).uses.mono fun _ => keepsPairs_of_reads)
              fun active => ?_
            cases active <;> trivial
        | _ => trivial

theorem triple_startCheck (environments : List String) (sopId envKey : String)
    (createdBy : Option String) :
    Triple linkProtocol t (Alone t) (startCheck environments sopId envKey createdBy)
      (fun _ => InStep t) fun _ => InStep t := by
  unfold startCheck
  split
  · refine Triple.bind (triple_alone_reads (straight_getActiveCheck _ _)) fun active => ?_
    cases active with
    | some active => exact Triple.done stable_inStep fun _ _ h => h.inStep
    | none =>
        refine Triple.bind (triple_createSession _) fun session => ?_
        refine Triple.bind (B := fun _ => InStep t) (Triple.tryCatch (B := fun _ => InStep t)
          (Triple.bind (triple_createCheck rfl) fun _ => Triple.done stable_inStep fun _ _ h => h)
          fun e => triple_inStep ?_) fun created => triple_inStep ?_
        · cases e <;> trivial
        · cases created with
          | error active =>
              exact Uses.bind ((straight_getCheck _).uses.mono fun _ => keepsPairs_of_reads)
                fun _ => trivial
          | ok check =>
              refine Uses.bind ((straight_appendEvent _ _ _ _ _ _).uses.mono fun _ =>
                keepsPairs_of_appends) fun _ => Uses.bind (Uses.perform trivial) fun _ => ?_
              exact Uses.bind (Uses.perform trivial) fun _ => trivial
  · exact Triple.raise stable_inStep fun _ _ h => h.inStep

theorem triple_task {c : Collaborators} {p : Program Unit} (hp : Task c p) :
    Triple linkProtocol t (Unbegun t) p (fun _ _ => True) fun _ _ => True := by
  cases hp with
  | run id =>
      refine Triple.bind (B := fun _ => Ready t id) ?_ fun _ => Triple.bind (triple_run c) fun _ =>
        Triple.done (Stable.const True) fun _ _ _ => trivial
      refine Triple.perform (fun _ _ _ h hrely _ => h.rely hrely.1) (fun _ => stable_ready)
        (fun _ => Stable.const True) (fun _ _ _ => trivial) ?_
      intro w choice r w' hinv h hinv' hallowed hexec
      cases r with
      | error e => trivial
      | ok a =>
          obtain ⟨answer, kept, rfl, hsucceed⟩ := exec_ok hexec
          simp only [succeed] at hsucceed
          split at hsucceed
          · rename_i hpresent
            obtain ⟨-, rfl⟩ := Prod.mk.inj (Option.some.inj hsucceed)
            exact ⟨inStep_unbegun hinv h, hpresent⟩
          · simp at hsucceed
  | startup => exact triple_startup
  | start environments sopId envKey createdBy =>
      refine Triple.weaken (A := Alone t) (Triple.bind (Triple.ensuring
        (fun _ => Stable.const True) (fun _ => Stable.const True)
        (triple_startCheck environments sopId envKey createdBy)
        (fun _ => triple_close stable_inStep) fun _ => triple_close stable_inStep) fun _ =>
          Triple.done (Stable.const True) fun _ _ _ => trivial)
        (fun w hinv h => ⟨inStep_unbegun hinv h, by simp [h.pending]⟩) (fun _ _ _ h => h)
        fun _ _ _ h => h

end Tasks

theorem Idle.paired {w : World} (hidle : Idle w) (hagree : SessionsAgree w.store.committed)
    (hunshared : Unshared w.store.committed) : Paired w where
  agree := sessionsAgree_iff.mp hagree
  unshared := hunshared
  outcomes t id patch hpatch := by simp [hidle.pending t] at hpatch
  updates t sid patch hpatch := by simp [hidle.pending t] at hpatch
  inserts t row hrow := by simp [hidle.pending t] at hrow
  copies t copy hcopy := by simp [hidle.sessions t] at hcopy

/-- As long as outcomes are final and no interruption of a check with a session is committed, every
session keeps step with its check. -/
theorem sessionsAgree_of_sessionsFollow (c : Collaborators) {w : World} (hidle : Idle w)
    (hw : WellFormed w) (hagree : SessionsAgree w.store.committed)
    (hunshared : Unshared w.store.committed) {c' : Config}
    (hrun : Steps exec (Task c) SessionsFollow (.idle w) c') :
    SessionsAgree c'.shared.store.committed := by
  have horderly : Orderly SessionsFollow (.idle w) := .idle hidle hw
  have hinv : Invariant linkProtocol (fun t w => Unbegun t w) (fun _ _ _ => True)
      (Config.idle w : Config) :=
    .idle ⟨hw.coherent hidle, Idle.paired hidle hagree hunshared⟩ fun t => Idle.unbegun hidle t
  refine sessionsAgree_iff.mpr (hinv.steps
    (fun t _ _ _ h hrely _ => h.rely hrely.1) ?_
    ((disciplined_task c).steps horderly hrun)).shared.2.agree
  intro t p hp w hinv hbegin
  exact Safe.mono (fun _ _ _ _ => trivial) (triple_task hp w hinv hbegin)

theorem sessionsAgree_oneCheck {status : CheckStatus} (hactive : status.active = true) :
    SessionsAgree (oneCheck status).store.committed := by
  intro id row sid hrow hsid
  have hmem := List.mem_of_find?_eq_some hrow
  simp only [oneCheck, List.mem_singleton] at hmem
  subst hmem
  obtain rfl : 0 = sid := Option.some.inj hsid
  exact ⟨_, rfl, statusesAgree_iff.mpr (sessionStatusOf_active.mpr hactive)⟩

theorem unshared_oneCheck (status : CheckStatus) :
    Unshared (oneCheck status).store.committed := by
  intro id id' row row' sid hrow hrow' _ _
  have hmem := List.mem_of_find?_eq_some hrow
  have hmem' := List.mem_of_find?_eq_some hrow'
  simp only [oneCheck, List.mem_singleton] at hmem hmem'
  rw [← Db.check_id hrow, ← Db.check_id hrow', hmem, hmem']

/-- The startup finds a running check and interrupts it. -/
def interruptsRunning : List (Move Reply Exn TaskId Choice) :=
  .spawn 0 interruptLeftoverSopQualityChecks :: List.replicate 7 (proceed 0)

/-- The interruption at startup leaves the session of the check active. -/
theorem not_forall_sessionsAgree :
    ¬ ∀ (c : Collaborators) (w : World), Idle w → WellFormed w →
      SessionsAgree w.store.committed → Unshared w.store.committed → ∀ c' : Config,
        Steps exec (Task c) unrestricted (.idle w) c' →
          SessionsAgree c'.shared.store.committed := by
  intro h
  have hrun : ∃ (c' : Config) (row : SopQualityCheck) (session : Session),
      follow exec unrestricted (.idle (oneCheck .running)) interruptsRunning = some c' ∧
        c'.shared.store.committed.check 0 = some row ∧ row.sessionId = some 0 ∧
        c'.shared.store.committed.session 0 = some session ∧ row.status = .interrupted ∧
        session.status = .active :=
    ⟨_, _, _, rfl, rfl, rfl, rfl, rfl, rfl⟩
  obtain ⟨c', row, session, hfollow, hrow, hsid, hsession, hinterrupted, hactive⟩ := hrun
  have hspawn : ∀ p ∈ started interruptsRunning, Task collaborators p := by
    simpa [interruptsRunning, started, proceed] using .startup
  obtain ⟨session', hsession', hagree⟩ := h collaborators _ (idle_oneCheck .running)
    (wellFormed_oneCheck .running) (sessionsAgree_oneCheck rfl) (unshared_oneCheck .running) c'
    (follow_steps hspawn hfollow) 0 row 0 hrow hsid
  obtain rfl := Option.some.inj (hsession.symm.trans hsession')
  have hnone := hagree.active.mp hactive
  simp [hinterrupted, CheckStatus.active] at hnone

theorem sessionsAgree_graphFails : ∃ c' : Config,
    follow exec SessionsFollow (.idle (oneCheck .pending)) graphFails = some c' ∧
      (c'.shared.store.committed.session 0).map (·.status) = some .failed ∧
      SessionsAgree c'.shared.store.committed := by
  have hrun : ∃ c' : Config,
      follow exec SessionsFollow (.idle (oneCheck .pending)) graphFails = some c' ∧
        (c'.shared.store.committed.session 0).map (·.status) = some .failed :=
    ⟨_, rfl, rfl⟩
  obtain ⟨c', h, hfailed⟩ := hrun
  exact ⟨c', h, hfailed, sessionsAgree_of_sessionsFollow collaborators (idle_oneCheck .pending)
    (wellFormed_oneCheck .pending) (sessionsAgree_oneCheck rfl) (unshared_oneCheck .pending)
    (follow_steps started_graphFails h)⟩

end ChangeQuality.SopSessions
