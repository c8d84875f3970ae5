import ChangeQuality.SopEvents

/-!
Whether a run that has started leaves its check with an outcome. The handlers of a run record the
failure in the database session in which it happened, so this depends on the state in which the
failure leaves the session.
-/

namespace ChangeQuality.SopCompletion

open ChangeQuality.Values
open ChangeQuality.SopTables
open ChangeQuality.SopRepository
open ChangeQuality.SopRunner
open ChangeQuality.SopSystem
open ChangeQuality.SopEffects
open ChangeQuality.SopInvariant
open ChangeQuality.SopDiscipline
open ChangeQuality.SopTransactions
open ChangeQuality.SopOutcomes
open ChangeQuality.SopEvents
open ChangeQuality.ReadCommitted
open ChangeQuality.Coroutine
open ChangeQuality.Interference

/-- The check is committed with an outcome. -/
def Settled (id : CheckId) (w : World) : Prop :=
  ∃ row ∈ w.store.committed.check id, row.status.active = false

instance (id : CheckId) (w : World) : Decidable (Settled id w) :=
  inferInstanceAs (Decidable (∃ row ∈ w.store.committed.check id, row.status.active = false))

/-- The condition on a run: while the check of a started run has no outcome, no failure makes the
database session unusable, and nothing raises in the outer handler. -/
def FailuresRecordable (t : TaskId) (op : Op) (choice : Choice) (w : World) : Prop :=
  match choice, w.phase t with
  | .succeed _ _, _ => True
  | .fail _ _, .fresh => True
  | .fail _ poisons, .started id =>
      Settled id w ∨ ¬ (usesSession op ∧ (poisons ∨ flushes op))
  | .fail _ _, .lastResort id => Settled id w

instance (t : TaskId) (op : Op) (choice : Choice) (w : World) :
    Decidable (FailuresRecordable t op choice w) :=
  match choice with
  | .succeed _ _ => isTrue trivial
  | .fail e poisons =>
      match hphase : w.phase t with
      | .fresh => isTrue (by simp only [FailuresRecordable, hphase])
      | .started id =>
          decidable_of_iff (Settled id w ∨ ¬ (usesSession op ∧ (poisons ∨ flushes op)))
            (by simp only [FailuresRecordable, hphase])
      | .lastResort id =>
          decidable_of_iff (Settled id w) (by simp only [FailuresRecordable, hphase])

/-- The protocol of the discipline, for runs under the condition. -/
def completionProtocol : Protocol exec fun t op choice w =>
    FailuresRecordable t op choice w ∧ Discipline t op w :=
  (discipline FailuresRecordable).extend (fun _ => True) (fun _ _ _ => True) (fun _ _ _ => True)
    (fun _ _ => trivial) (fun _ _ => trivial) fun _ _ _ _ _ _ _ => ⟨trivial, fun _ _ _ => trivial⟩

theorem above {t : TaskId} : Above completionProtocol t where
  inv h := h.1
  rely h := h.1
  pre _ := trivial

/-- The operations that tell nothing about the phase of a run. -/
def Plain : Op → Prop
  | .note (.started _) | .note (.lastResort _) => False
  | _ => True

section Assertions

variable {t : TaskId} {id : CheckId} {op : Op} {choice : Choice} {w w' : World}
  {r : Except Exn (Reply op)}

/-- The run has been started, and its session can be used. -/
structure Usable (t : TaskId) (id : CheckId) (w : World) : Prop where
  phase : w.phase t = .started id
  valid : w.invalid t = false
  present : Present w.store.committed (.check id)

/-- The outer handler has been entered, and the session can be used. -/
structure Last (t : TaskId) (id : CheckId) (w : World) : Prop where
  phase : w.phase t = .lastResort id
  valid : w.invalid t = false
  present : Present w.store.committed (.check id)

def Fresh (t : TaskId) (w : World) : Prop :=
  w.phase t = .fresh

/-- The outcome is there, or can still be recorded. -/
def Hopeful (t : TaskId) (id : CheckId) (w : World) : Prop :=
  Settled id w ∨ Usable t id w

theorem stable_settled : Stable completionProtocol t (Settled id) := by
  rintro w w' hinv ⟨row, hrow, hterminal⟩ hrely hinv'
  exact hrely.1.terminal id row hrow hterminal

theorem stable_fresh : Stable completionProtocol t (Fresh t) :=
  fun _ _ _ h hrely _ => hrely.1.phase.trans h

theorem stable_usable : Stable completionProtocol t (Usable t id) :=
  fun _ _ _ h hrely _ => ⟨hrely.1.phase.trans h.phase, hrely.1.invalid.trans h.valid,
    Present.extends h.present hrely.1.grown⟩

theorem stable_last : Stable completionProtocol t (Last t id) :=
  fun _ _ _ h hrely _ => ⟨hrely.1.phase.trans h.phase, hrely.1.invalid.trans h.valid,
    Present.extends h.present hrely.1.grown⟩

theorem stable_hopeful : Stable completionProtocol t (Hopeful t id) :=
  stable_settled.or stable_usable

/-- No operation takes an outcome back. -/
theorem Settled.exec (h : Settled id w) (hinv : completionProtocol.inv w)
    (hexec : exec t op choice w = some (r, w')) : Settled id w' := by
  obtain ⟨row, hrow, hterminal⟩ := h
  rcases committed_of_effect (exec_outcome hexec).effect with heq | ⟨-, -, heq⟩
  · exact ⟨row, heq ▸ hrow, hterminal⟩
  · obtain ⟨row', hrow', hterminal'⟩ := hinv.1.terminal_view (t := t) hrow hterminal
    exact ⟨row', by rw [heq]; exact hrow', hterminal'⟩

/-- A plain operation that succeeds changes neither the phase nor the validity of a session. -/
theorem Plain.keeps {a : Reply op} (hop : Plain op) (hexec : exec t op choice w = some (.ok a, w')) :
    w'.phase = w.phase ∧ (w.invalid t = false → w'.invalid t = false) := by
  obtain ⟨answer, kept, -, hsucceed⟩ := exec_ok hexec
  by_cases hnote : ∃ n, op = .note n
  · obtain ⟨n, rfl⟩ := hnote
    obtain ⟨-, rfl⟩ := Prod.mk.inj (Option.some.inj hsucceed)
    cases n with
    | alreadyTerminal | called | answered => exact ⟨rfl, fun h => h⟩
    | started id => exact hop.elim
    | lastResort id => exact hop.elim
  · exact succeed_keeps (fun n hn => hnote ⟨n, hn⟩) hsucceed

theorem failed_phase {e : Exn} (hexec : exec t op choice w = some (.error e, w')) :
    w'.phase = w.phase := by
  rcases failed_view hexec with rfl | rfl <;> rfl

theorem Fresh.exec (h : Fresh t w) (hop : Plain op) (hexec : exec t op choice w = some (r, w')) :
    Fresh t w' := by
  cases r with
  | ok a => exact (congrFun (hop.keeps hexec).1 t).trans h
  | error e => exact (congrFun (failed_phase hexec) t).trans h

/-- Under the condition, a failure of a started run leaves its session usable. -/
theorem Usable.failed {e : Exn} (h : Usable t id w) (hinv : completionProtocol.inv w)
    (hallowed : FailuresRecordable t op choice w)
    (hexec : exec t op choice w = some (.error e, w')) : Hopeful t id w' := by
  cases choice with
  | succeed answer kept =>
      obtain ⟨a, hr, -⟩ := exec_succeed hexec
      cases hr
  | fail error poisons =>
      simp only [FailuresRecordable, h.phase] at hallowed
      rcases hallowed with hsettled | husable
      · exact .inl (hsettled.exec hinv hexec)
      · obtain ⟨-, -, ⟨huses, hpoisons, -⟩ | ⟨-, rfl⟩⟩ := exec_fail hexec
        · exact absurd ⟨huses, hpoisons⟩ husable
        · exact .inr h

theorem Last.failed {e : Exn} (h : Last t id w) (hinv : completionProtocol.inv w)
    (hallowed : FailuresRecordable t op choice w)
    (hexec : exec t op choice w = some (.error e, w')) : Settled id w' := by
  cases choice with
  | succeed answer kept =>
      obtain ⟨a, hr, -⟩ := exec_succeed hexec
      cases hr
  | fail error poisons =>
      simp only [FailuresRecordable, h.phase] at hallowed
      exact hallowed.exec hinv hexec

end Assertions

/-- A way in which a run goes on to record an outcome: `M` holds meanwhile, and `E` is left when
something raises. -/
structure Mode (t : TaskId) (id : CheckId) (M E : World → Prop) : Prop where
  stable : Stable completionProtocol t M
  stableError : Stable completionProtocol t E
  present : ∀ w, M w → Present w.store.committed (.check id)
  settled : ∀ w, Settled id w → E w
  succeeds : ∀ {op : Op} {choice : Choice} {a : Reply op} {w w' : World}, Plain op → M w →
    exec t op choice w = some (.ok a, w') → M w'
  fails : ∀ {op : Op} {choice : Choice} {e : Exn} {w w' : World}, completionProtocol.inv w →
    M w → FailuresRecordable t op choice w → exec t op choice w = some (.error e, w') → E w'

section Modes

variable {t : TaskId} {id : CheckId} {M E : World → Prop}

theorem mode_usable : Mode t id (Usable t id) (Hopeful t id) where
  stable := stable_usable
  stableError := stable_hopeful
  present _ h := h.present
  settled _ h := .inl h
  succeeds hop h hexec := by
    obtain ⟨hphase, hvalid⟩ := hop.keeps hexec
    exact ⟨(congrFun hphase t).trans h.phase, hvalid h.valid,
      Present.extends h.present (committed_grows hexec)⟩
  fails hinv h hallowed hexec := h.failed hinv hallowed hexec

theorem mode_last : Mode t id (Last t id) (Settled id) where
  stable := stable_last
  stableError := stable_settled
  present _ h := h.present
  settled _ h := h
  succeeds hop h hexec := by
    obtain ⟨hphase, hvalid⟩ := hop.keeps hexec
    exact ⟨(congrFun hphase t).trans h.phase, hvalid h.valid,
      Present.extends h.present (committed_grows hexec)⟩
  fails hinv h hallowed hexec := h.failed hinv hallowed hexec

/-- The outcome is there, or the run goes on in its mode with more established. -/
def Going (id : CheckId) (M A : World → Prop) (w : World) : Prop :=
  Settled id w ∨ (M w ∧ A w)

theorem Mode.stable_going (h : Mode t id M E) {A : World → Prop}
    (hA : Stable completionProtocol t A) : Stable completionProtocol t (Going id M A) :=
  stable_settled.or (h.stable.and hA)

/-- The rule of one operation in a mode. -/
theorem Mode.operation (h : Mode t id M E) {op : Op} {A : World → Prop} {K : Reply op → World → Prop}
    (hop : Plain op) (hA : Stable completionProtocol t A)
    (hK : ∀ a, Stable completionProtocol t (K a))
    (hreply : ∀ w answer kept a w', Coherent w → M w → A w → Coherent w' → Discipline t op w →
      succeed t answer kept w op = some (a, w') → K a w') :
    Triple completionProtocol t (Going id M A) (await op) (fun a => Going id M (K a))
      fun _ => E := by
  refine Triple.perform (h.stable_going hA) (fun a => h.stable_going (hK a))
    (fun _ => h.stableError) (fun _ _ _ => trivial) ?_
  intro w choice r w' hinv hgoing hinv' hallowed hexec
  rcases hgoing with hsettled | ⟨hM, hAw⟩
  · have hsettled' := hsettled.exec hinv hexec
    cases r with
    | error e => exact h.settled w' hsettled'
    | ok a => exact .inl hsettled'
  · cases r with
    | error e => exact h.fails hinv hM hallowed.1 hexec
    | ok a =>
        obtain ⟨answer, kept, rfl, hsucceed⟩ := exec_ok hexec
        exact .inr ⟨h.succeeds hop hM hexec,
          hreply w answer kept a w' hinv.1 hM hAw hinv'.1 hallowed.2 hsucceed⟩

/-- A part of the run that cannot be reached. -/
theorem Mode.unreachable {α : Type} (h : Mode t id M E) {A : World → Prop} (hA : ∀ w, ¬ A w)
    (e : Exn) {Q : α → World → Prop} :
    Triple completionProtocol t (Going id M A) (throw e : Program α) Q fun _ => E := by
  refine Triple.raise h.stableError fun w _ hgoing => ?_
  rcases hgoing with hsettled | ⟨-, hAw⟩
  · exact h.settled w hsettled
  · exact absurd hAw (hA w)

/-- The task sees an outcome of the check. -/
def Ended (t : TaskId) (id : CheckId) (w : World) : Prop :=
  ∃ row, (w.view t).check id = some row ∧ row.status.active = false

theorem stable_ended : Stable completionProtocol t (Ended t id) := by
  rintro w w' hinv ⟨row, hrow, hterminal⟩ hrely hinv'
  by_cases howner : w.store.owner (.check id) = some t
  · exact ⟨row, (Prod.mk.inj (hrely.1.view_check howner)).1.trans hrow, hterminal⟩
  · have howner' : w'.store.owner (.check id) ≠ some t := fun h => howner ((hrely.1.owner _).mp h)
    rw [view_check_committed hinv.1.guarded howner] at hrow
    obtain ⟨row', hrow', hterminal'⟩ := hrely.1.terminal id row hrow hterminal
    exact ⟨row', (view_check_committed hinv'.1.guarded howner').trans hrow', hterminal'⟩

/-- The operations that change no status and do not roll back. -/
def KeepsStatus : Op → Prop
  | .updateCheck _ _ | .rollback | .close => False
  | _ => True

theorem Ended.succeed {op : Op} {answer : Answer} {kept : Bool} {a : Reply op} {w w' : World}
    (h : Ended t id w) (hsucceed : SopSystem.succeed t answer kept w op = some (a, w'))
    (hop : KeepsStatus op) : Ended t id w' := by
  obtain ⟨row, hrow, hterminal⟩ := h
  refine ⟨row, ?_, hterminal⟩
  rcases view_of_effect (succeed_outcome hsucceed).effect with heq | ⟨-, hended, -⟩ |
    ⟨wr, hwr, -, heq⟩
  · rw [heq, hrow]
  · rcases hended with h | rfl | rfl
    · exact h.elim
    · exact hop.elim
    · exact hop.elim
  · rw [heq]
    cases hwr with
    | updateCheck => exact hop.elim
    | insertCheck _ _ => simp [check_insertCheck, hrow]
    | _ => exact hrow

/-- The lookup has found the check. -/
def FoundKnown (t : TaskId) (id : CheckId) : Option SopQualityCheck → World → Prop
  | some check => fun w => check.id = id ∧ Known (w.view t) check
  | none => fun _ => False

theorem Mode.getCheck (h : Mode t id M E) {F : Db → Prop} (hF : Growing F) :
    Triple completionProtocol t (Going id M fun w => F (w.view t)) (SopRepository.getCheck id)
      (fun found => Going id M fun w => F (w.view t) ∧
        FoundKnown t id (found.map (·.1)) w)
      fun _ => E := by
  have hknown : ∀ check, Growing fun db => F db ∧ check.id = id ∧ Known db check :=
    fun check _ _ hext h => ⟨hF _ _ hext h.1, h.2.1, Known.extends h.2.2 hext⟩
  refine Triple.bind (B := fun found => Going id M fun w => F (w.view t) ∧ FoundKnown t id found w)
    (h.operation trivial (hF.stable above) (fun found => ?_) ?_) fun found => ?_
  · cases found with
    | some check => exact (hknown check).stable above
    | none => exact (hF.stable above).and (Stable.const False)
  · intro w answer kept found w' hinv hM hFw hinv' _ hsucceed
    refine ⟨hF _ _ (succeed_grows (by simp) (by simp) hsucceed) hFw, ?_⟩
    cases found with
    | some check =>
        obtain ⟨hmem, hid, -⟩ := reply_getCheck hsucceed
        exact ⟨hid, hinv'.checks t check hmem⟩
    | none =>
        have hnone := reply_getCheck_none hsucceed
        have hpresent : Present (w.view t) (.check id) :=
          Present.extends (h.present w hM) (extends_applyAll _ _)
        simp [Present, hnone] at hpresent
  · cases found with
    | some check =>
        refine Triple.bind (h.operation (K := fun _ w => F (w.view t) ∧ check.id = id ∧
          Known (w.view t) check) trivial ((hknown check).stable above)
          (fun _ => (hknown check).stable above) ?_) fun latest =>
            Triple.done (h.stable_going ((hknown check).stable above)) fun _ _ h => h
        intro w answer kept a w' _ _ hA _ _ hsucceed
        exact hknown check _ _ (succeed_grows (by simp) (by simp) hsucceed) hA
    | none =>
        exact Triple.done (h.stable_going ((hF.stable above).and (Stable.const False)))
          fun _ _ h => h

theorem Mode.requireCheck (h : Mode t id M E) {F : Db → Prop} (hF : Growing F) :
    Triple completionProtocol t (Going id M fun w => F (w.view t)) (SopRepository.requireCheck id)
      (fun _ => Going id M fun w => F (w.view t)) fun _ => E := by
  refine Triple.bind (h.getCheck hF) fun found => ?_
  cases found with
  | some check =>
      refine Triple.done (h.stable_going (hF.stable above)) fun w _ hgoing => ?_
      exact hgoing.imp_right fun hgoing => ⟨hgoing.1, hgoing.2.1⟩
  | none => exact h.unreachable (fun w h => h.2) _

/-- More is established when the task sees an outcome, and it stays established over an operation
that keeps the status. -/
theorem Mode.keeps (h : Mode t id M E) {F : Db → Prop} (hF : Growing F) {op : Op}
    (hplain : Plain op) (hop : KeepsStatus op) :
    Triple completionProtocol t (Going id M fun w => F (w.view t) ∧ Ended t id w) (await op)
      (fun _ => Going id M fun w => F (w.view t) ∧ Ended t id w) fun _ => E := by
  refine h.operation hplain ((hF.stable above).and stable_ended)
    (fun _ => (hF.stable above).and stable_ended) ?_
  intro w answer kept a w' _ _ hA _ _ hsucceed
  refine ⟨hF _ _ (succeed_grows ?_ ?_ hsucceed) hA.1, hA.2.succeed hsucceed hop⟩ <;>
    rintro rfl <;> exact hop.elim

theorem Mode.markTerminal (h : Mode t id M E) {F : Db → Prop} (hF : Growing F)
    {s : CheckStatus} (hterminal : s.active = false) (qualityResult : Option String)
    (result error : Option Json) :
    Triple completionProtocol t (Going id M fun w => F (w.view t))
      (SopRepository.markTerminal id s qualityResult result error)
      (fun _ => Going id M fun w => F (w.view t) ∧ Ended t id w) fun _ => E := by
  have hstable := hF.stable (t := t) above
  have hended : Stable completionProtocol t fun w => F (w.view t) ∧ Ended t id w :=
    hstable.and stable_ended
  refine Triple.bind (h.requireCheck hF) fun _ => ?_
  refine Triple.bind (B := fun check => Going id M fun w => F (w.view t) ∧ check.id = id ∧
    (check.status.active = false → Ended t id w)) (h.operation trivial hstable (fun check => ?_) ?_)
    fun check => ?_
  · refine hstable.and ((Stable.const _).and ?_)
    exact fun w w' hinv hA hrely hinv' hactive => stable_ended w w' hinv (hA hactive) hrely hinv'
  · intro w answer kept check w' _ _ hA _ _ hsucceed
    have hgrows := succeed_grows (by simp) (by simp) hsucceed
    obtain ⟨hrow, rfl⟩ := reply_refreshCheck hsucceed
    exact ⟨hF _ _ hgrows hA, Db.check_id hrow, fun hactive => ⟨check, hrow, hactive⟩⟩
  · split
    · rename_i hactive
      refine Triple.weaken (A := Going id M fun w => F (w.view t) ∧ check.id = id) ?_
        (fun w _ hgoing => hgoing.imp_right fun hA => ⟨hA.1, hA.2.1, hA.2.2.1⟩)
        (fun _ _ _ h => h) fun _ _ _ h => h
      refine h.operation trivial (hstable.and (Stable.const _)) (fun _ => hended) ?_
      intro w answer kept a w' _ _ hA _ hpre hsucceed
      refine ⟨hF _ _ (succeed_grows (by simp) (by simp) hsucceed) hA.1, ?_⟩
      have hne : s ≠ check.status := fun heq => by simp [heq, hactive] at hterminal
      obtain ⟨row, hrow, hstatus⟩ := status_updateCheck rfl hne hpre.1 hsucceed
      exact ⟨row, hA.2 ▸ hrow, hstatus ▸ hterminal⟩
    · rename_i hactive
      have hactive : check.status.active = false := by simpa using hactive
      refine Triple.bind (B := fun _ => Going id M fun w => F (w.view t) ∧ Ended t id w) ?_
        fun _ => Triple.done (h.stable_going hended) fun _ _ h => h
      refine Triple.weaken (h.keeps hF trivial trivial) (fun w _ hgoing => ?_) (fun _ _ _ h => h)
        fun _ _ _ h => h
      exact hgoing.imp_right fun hA => ⟨hA.1, hA.2.1, hA.2.2.2 hactive⟩

theorem Mode.setSessionStatus (h : Mode t id M E) (c : Collaborators)
    (sessionId : Option SessionId) (status : SessionStatus) :
    Triple completionProtocol t
      (Going id M fun w => (∀ sid, sessionId = some sid → Present (w.view t) (.session sid)) ∧
        Ended t id w)
      (SopRunner.setSessionStatus c sessionId status)
      (fun _ => Going id M fun w => True ∧ Ended t id w) fun _ => E := by
  have hended : Stable completionProtocol t (Going id M fun w => True ∧ Ended t id w) :=
    h.stable_going ((Stable.const True).and stable_ended)
  have hkeeps : ∀ {op : Op}, Plain op → KeepsStatus op →
      Triple completionProtocol t (Going id M fun w => True ∧ Ended t id w) (await op)
        (fun _ => Going id M fun w => True ∧ Ended t id w) fun _ => E :=
    fun hplain hop => h.keeps (F := fun _ => True) (fun _ _ _ h => h) hplain hop
  unfold SopRunner.setSessionStatus
  split
  · rename_i sid _
    refine Triple.bind (B := fun _ => Going id M fun w => True ∧ Ended t id w)
      (Triple.bind (B := fun found => Going id M fun w => found ≠ none ∧ Ended t id w) ?_
        fun found => ?_) fun _ => Triple.done hended fun _ _ h => h
    · have hsession : Growing fun db => ∀ id, some sid = some id → Present db (.session id) :=
        fun _ _ hext h id hid => hext.session id (h id hid)
      refine h.operation trivial ((hsession.stable above).and stable_ended)
        (fun found => (Stable.const _).and stable_ended) ?_
      · intro w answer kept found w' _ _ hA _ _ hsucceed
        refine ⟨?_, hA.2.succeed hsucceed trivial⟩
        rintro rfl
        have hpresent := hA.1 sid rfl
        simp [Present, reply_getSession_none hsucceed] at hpresent
    · cases found with
      | none => exact h.unreachable (fun w h => h.1 rfl) _
      | some session =>
          refine Triple.weaken (A := Going id M fun w => True ∧ Ended t id w) ?_
            (fun _ _ hgoing => hgoing.imp_right fun hA => ⟨hA.1, trivial, hA.2.2⟩)
            (fun _ _ _ h => h) fun _ _ _ h => h
          refine Triple.bind (hkeeps trivial trivial) fun _ => ?_
          exact Triple.bind (hkeeps trivial trivial) fun _ => Triple.done hended fun _ _ h => h
  · refine Triple.done hended fun _ _ hgoing => ?_
    exact hgoing.imp_right fun hA => ⟨hA.1, trivial, hA.2.2⟩

/-- Once the outcome is committed, whatever follows keeps it. -/
theorem triple_settled {α : Type} (p : Program α) :
    Triple completionProtocol t (Settled id) p (fun _ => Settled id) fun _ => Settled id := by
  refine Triple.of_uses (S := fun _ => True) stable_settled (fun _ _ _ _ _ => trivial) ?_
    (uses_true p)
  intro op choice r w w' _ hinv h _ hexec
  exact h.exec hinv hexec

/-- What follows `mark_terminal` in both endings of a run commits the outcome. -/
theorem Mode.ending {α : Type} (h : Mode t id M E) (c : Collaborators) (type : EventType)
    (sessionId : Option SessionId) (status : SessionStatus)
    (node checkpointId taskId message : Option String) (value : α) :
    Triple completionProtocol t
      (Going id M fun w => (∀ sid, sessionId = some sid → Present (w.view t) (.session sid)) ∧
        Ended t id w)
      (do
        SopRunner.setSessionStatus c sessionId status
        let event ← appendEvent id type node checkpointId taskId message
        await .commit
        publishEvent c event
        pure value)
      (fun _ => Settled id) fun _ => E := by
  have hended : Stable completionProtocol t (Going id M fun w => True ∧ Ended t id w) :=
    h.stable_going ((Stable.const True).and stable_ended)
  have hkeeps : ∀ {op : Op}, Plain op → KeepsStatus op →
      Triple completionProtocol t (Going id M fun w => True ∧ Ended t id w) (await op)
        (fun _ => Going id M fun w => True ∧ Ended t id w) fun _ => E :=
    fun hplain hop => h.keeps (F := fun _ => True) (fun _ _ _ h => h) hplain hop
  refine Triple.bind (h.setSessionStatus c sessionId status) fun _ => ?_
  refine Triple.bind (B := fun _ => Going id M fun w => True ∧ Ended t id w)
    (Triple.bind (B := fun _ => Going id M fun w => True ∧ Ended t id w) (Triple.bind
      (B := fun _ => Going id M fun w => True ∧ Ended t id w) (Triple.bind
        (B := fun found => Going id M fun w => found ≠ false ∧ Ended t id w) ?_ fun found => ?_)
      fun _ => Triple.bind (hkeeps trivial trivial) fun _ => Triple.done hended fun _ _ h => h)
      fun _ => hkeeps trivial trivial) fun event => ?_
  · refine h.operation trivial ((Stable.const _).and stable_ended)
      (fun found => (Stable.const _).and stable_ended) ?_
    intro w answer kept found w' _ _ hA _ _ hsucceed
    refine ⟨?_, hA.2.succeed hsucceed trivial⟩
    rintro rfl
    obtain ⟨row, hrow, -⟩ := hA.2
    simp [reply_lockCheck_false hsucceed] at hrow
  · cases found with
    | false => exact h.unreachable (fun w h => h.1 rfl) _
    | true =>
        refine Triple.done hended fun _ _ hgoing => ?_
        exact hgoing.imp_right fun hA => ⟨hA.1, trivial, hA.2.2⟩
  · refine Triple.bind (B := fun _ => Settled id) ?_ fun _ =>
      (triple_settled _).weaken (fun _ _ h => h) (fun _ _ _ h => h) fun _ w _ => h.settled w
    refine Triple.perform hended (fun _ => stable_settled) (fun _ => h.stableError)
      (fun _ _ _ => trivial) ?_
    intro w choice r w' hinv hgoing hinv' hallowed hexec
    rcases hgoing with hsettled | ⟨hM, -, row, hrow, hactive⟩
    · have hsettled' := hsettled.exec hinv hexec
      cases r with
      | error e => exact h.settled w' hsettled'
      | ok a => exact hsettled'
    · cases r with
      | error e => exact h.fails hinv hM hallowed.1 hexec
      | ok a =>
          obtain ⟨answer, kept, rfl, hsucceed⟩ := exec_ok hexec
          obtain ⟨-, rfl⟩ := Prod.mk.inj (Option.some.inj hsucceed)
          exact ⟨row, hrow, hactive⟩

end Modes

section Tasks

variable {t : TaskId} {id : CheckId}

theorem plain_of_reads {op : Op} (h : Reads op) : Plain op := by
  cases op <;> first | exact h.elim | trivial

theorem plain_of_begins {op : Op} (h : Begins op) : Plain op := by
  cases op <;> first | exact h.elim | trivial

theorem plain_of_graph {op : Op} (h : GraphOp op) : Plain op := by
  cases op <;> first | exact h.elim | trivial

theorem plain_of_publishes {op : Op} (h : Publishes op) : Plain op := by
  cases op <;> first | exact h.elim | trivial

theorem plain_of_appends {type : EventType} {op : Op} (h : Appends type op) : Plain op := by
  cases op <;> first | exact h.elim | trivial

theorem plain_of_starts {op : Op} (h : Starts op) : Plain op := by
  cases op <;> first | exact h.elim | trivial

theorem plain_of_checkpoints {op : Op} (h : Checkpoints op) : Plain op := by
  cases op with
  | note n => simp [Checkpoints, Reads, Publishes, GraphOp] at h
  | _ => trivial

theorem triple_fresh {α : Type} {p : Program α} (hp : Uses Plain p) :
    Triple completionProtocol t (Fresh t) p (fun _ => Fresh t) fun _ => Fresh t :=
  Triple.of_uses (S := Plain) stable_fresh (fun _ _ _ _ _ => trivial)
    (fun _ _ _ _ _ hop _ h _ hexec => h.exec hop hexec) hp

theorem plain_of_bystander {op : Op} (h : Bystander op) : Plain op := by
  cases op with
  | note n => cases n <;> first | exact h.elim | trivial
  | _ => trivial

/-- The session that a known check names exists. -/
theorem present_session {w : World} (hinv : Coherent w) {check : SopQualityCheck}
    (h : Known (w.view t) check) (sid : SessionId) (hsid : check.sessionId = some sid) :
    Present (w.view t) (.session sid) := by
  obtain ⟨row, hrow, hsession⟩ := h
  exact hinv.viewLinked t _ row sid hrow (hsession.trans hsid)

/-- In either mode, `_mark_failed` commits an outcome. -/
theorem Mode.markFailed {M E : World → Prop} (h : Mode t id M E) (c : Collaborators) (e : Exn) :
    Triple completionProtocol t (fun w => Settled id w ∨ M w) (SopRunner.markFailed c id e)
      (fun _ => Settled id) fun _ => E := by
  refine Triple.weaken (A := Going id M fun w => True) ?_
    (fun _ _ hgoing => hgoing.imp_right fun hM => ⟨hM, trivial⟩) (fun _ _ _ h => h)
    fun _ _ _ h => h
  refine Triple.bind (h.getCheck (F := fun _ => True) fun _ _ _ h => h) fun found => ?_
  cases found with
  | none =>
      refine (triple_settled _).weaken (fun w _ hgoing => ?_) (fun _ _ _ h => h)
        fun _ w _ => h.settled w
      exact hgoing.resolve_right fun hA => hA.2.2
  | some found =>
      have hsession : Growing fun db =>
          ∀ sid, found.1.sessionId = some sid → Present db (.session sid) :=
        fun _ _ hext h sid hsid => hext.session sid (h sid hsid)
      refine Triple.bind ((h.markTerminal hsession rfl _ _ _).weaken (fun w hinv hgoing => ?_)
        (fun _ _ _ h => h) fun _ _ _ h => h) fun _ => h.ending c _ _ _ _ _ _ _ _
      exact hgoing.imp_right fun hA => ⟨hA.1, present_session hinv.1 hA.2.2.2⟩

theorem triple_markRunning :
    Triple completionProtocol t (Fresh t) (markRunning id)
      (fun found w => Fresh t w ∧
        ∀ check, found = some check → check.id = id ∧ Known (w.view t) check)
      fun _ => Fresh t :=
  ((triple_fresh ((uses_markRunning id).mono fun _ => plain_of_begins)).and above.markRunning).weaken
    (fun _ _ h => ⟨h, trivial⟩) (fun _ _ _ h => h) fun _ _ _ h => h.1

/-- Between `mark_running` and its commit nothing is lost, unless something raises. -/
theorem triple_fresh_known {α : Type} {p : Program α} {check : SopQualityCheck} {type : EventType}
    (hp : Straight (Appends type) p) :
    Triple completionProtocol t (fun w => Fresh t w ∧ Known (w.view t) check) p
      (fun _ w => Fresh t w ∧ Known (w.view t) check) fun _ => Fresh t := by
  have hknown : Growing fun db => Known db check := fun _ _ hext h => Known.extends h hext
  refine Triple.of_straight (S := Appends type) (stable_fresh.and (hknown.stable above)) stable_fresh
    (fun _ _ _ _ _ => trivial) ?_ ?_ (fun _ _ h => h.1) hp
  · intro op choice a w w' hop _ h _ hexec
    refine ⟨h.1.exec (plain_of_appends hop) hexec, ?_⟩
    obtain ⟨answer, kept, -, hsucceed⟩ := exec_ok hexec
    refine hknown _ _ (succeed_grows ?_ ?_ hsucceed) h.2 <;> rintro rfl <;> exact hop.elim
  · intro op choice e w w' hop _ h _ hexec
    exact h.1.exec (plain_of_appends hop) hexec

/-- The check of a run, with what the committed tables tell of it. -/
def Running (t : TaskId) (id : CheckId) (check : SopQualityCheck) (w : World) : Prop :=
  Hopeful t id w ∧ Known w.store.committed check

theorem stable_running {check : SopQualityCheck} :
    Stable completionProtocol t (Running t id check) :=
  stable_hopeful.and fun _ _ _ h hrely _ => Known.extends h hrely.1.grown

/-- A part of a started run, in which any await may raise. -/
theorem triple_hopeful {α : Type} {p : Program α} (hp : Uses Plain p) :
    Triple completionProtocol t (Hopeful t id) p (fun _ => Hopeful t id)
      fun _ => Hopeful t id := by
  refine Triple.of_uses (S := Plain) stable_hopeful (fun _ _ _ _ _ => trivial) ?_ hp
  intro op choice r w w' hop hinv h hallowed hexec
  rcases h with hsettled | husable
  · exact .inl (hsettled.exec hinv hexec)
  · cases r with
    | ok a => exact .inr (mode_usable.succeeds hop husable hexec)
    | error e => exact husable.failed hinv hallowed.1 hexec

theorem triple_running {α : Type} {p : Program α} {check : SopQualityCheck} (hp : Uses Plain p) :
    Triple completionProtocol t (Running t id check) p (fun _ => Running t id check)
      fun _ => Hopeful t id := by
  have hstable : Stable completionProtocol t fun w => Known w.store.committed check :=
    fun _ _ _ h hrely _ => Known.extends h hrely.1.grown
  have hknown : Triple completionProtocol t (fun w => Known w.store.committed check) p
      (fun _ w => Known w.store.committed check) fun _ w => Known w.store.committed check :=
    Triple.of_uses (S := Plain) hstable (fun _ _ _ _ _ => trivial)
      (fun _ _ _ _ _ _ _ h _ hexec => Known.extends h (committed_grows hexec)) hp
  exact ((triple_hopeful hp).and hknown).weaken (fun _ _ h => h) (fun _ _ _ h => h)
    fun _ _ _ h => h.1

/-- The transaction of `mark_running` has been committed. -/
structure Begun (t : TaskId) (check : SopQualityCheck) (w : World) : Prop where
  fresh : Fresh t w
  valid : w.invalid t = false
  known : Known w.store.committed check

theorem stable_begun {check : SopQualityCheck} : Stable completionProtocol t (Begun t check) :=
  fun _ _ _ h hrely _ => ⟨hrely.1.phase.trans h.fresh, hrely.1.invalid.trans h.valid,
    Known.extends h.known hrely.1.grown⟩

theorem triple_begun {check : SopQualityCheck} :
    Triple completionProtocol t (fun w => Fresh t w ∧ Known (w.view t) check) (await .commit)
      (fun _ => Begun t check) fun _ => Fresh t := by
  have hknown : Growing fun db => Known db check := fun _ _ hext h => Known.extends h hext
  refine Triple.perform (stable_fresh.and (hknown.stable above)) (fun _ => stable_begun)
    (fun _ => stable_fresh) (fun _ _ _ => trivial) ?_
  intro w choice r w' hinv h hinv' hallowed hexec
  have hfresh := h.1.exec (show Plain .commit from trivial) hexec
  cases r with
  | error e => exact hfresh
  | ok a =>
      obtain ⟨answer, kept, rfl, hsucceed⟩ := exec_ok hexec
      have hvalid : w.invalid t = false := by
        by_contra hinvalid
        have hinvalid : w.invalid t = true := by simpa using hinvalid
        simp [exec_invalid hinvalid (show usesSession .commit = true from rfl)] at hexec
      obtain ⟨-, rfl⟩ := Prod.mk.inj (Option.some.inj hsucceed)
      exact ⟨hfresh, hvalid, h.2⟩

theorem triple_noteStarted {check : SopQualityCheck} (hid : check.id = id) :
    Triple completionProtocol t (Begun t check) (await (.note (.started id)))
      (fun _ => Running t id check) fun _ => Fresh t := by
  refine Triple.perform stable_begun (fun _ => stable_running) (fun _ => stable_fresh)
    (fun _ _ _ => trivial) ?_
  intro w choice r w' hinv h hinv' hallowed hexec
  cases choice with
  | fail error poisons =>
      obtain ⟨hinfallible, -⟩ := exec_fail hexec
      simp [infallible] at hinfallible
  | succeed answer kept =>
      obtain ⟨a, rfl, hsucceed⟩ := exec_succeed hexec
      obtain ⟨-, rfl⟩ := Prod.mk.inj (Option.some.inj hsucceed)
      refine ⟨.inr ⟨by simp [World.noted], h.valid, ?_⟩, h.known⟩
      exact hid ▸ Known.present h.known

/-- The handler notes that it was entered, which nothing can prevent. -/
theorem triple_noteLastResort :
    Triple completionProtocol t (fun w => Fresh t w ∨ Hopeful t id w)
      (await (.note (.lastResort id)))
      (fun _ w => Fresh t w ∨ Settled id w ∨ Last t id w) fun _ _ => False := by
  refine Triple.perform (stable_fresh.or stable_hopeful)
    (fun _ => stable_fresh.or (stable_settled.or stable_last)) (fun _ => Stable.const False)
    (fun _ _ _ => trivial) ?_
  intro w choice r w' hinv h hinv' hallowed hexec
  cases choice with
  | fail error poisons =>
      obtain ⟨hinfallible, -⟩ := exec_fail hexec
      simp [infallible] at hinfallible
  | succeed answer kept =>
      obtain ⟨a, rfl, hsucceed⟩ := exec_succeed hexec
      rcases h with hfresh | hsettled | husable
      · obtain ⟨-, rfl⟩ := Prod.mk.inj (Option.some.inj hsucceed)
        have hphase : w.phase t = .fresh := hfresh
        exact .inl (by simp only [Fresh, World.noted, hphase])
      · exact .inr (.inl (hsettled.exec hinv hexec))
      · obtain ⟨-, rfl⟩ := Prod.mk.inj (Option.some.inj hsucceed)
        have hnoted : w.noted t (.lastResort id) =
            { w with phase := Function.update w.phase t (.lastResort id) } := by
          simp only [World.noted, husable.phase]
        rw [hnoted]
        exact .inr (.inr ⟨by simp, husable.valid, husable.present⟩)

theorem triple_tryRun (c : Collaborators) :
    Triple completionProtocol t (Fresh t) (tryRun c id) (fun _ w => Fresh t w ∨ Settled id w)
      fun _ w => Fresh t w ∨ Hopeful t id w := by
  refine Triple.bind (triple_markRunning.weaken (fun _ _ h => h) (fun _ _ _ h => h)
    fun _ _ _ h => .inl h) fun found => ?_
  cases found with
  | none => exact Triple.done (stable_fresh.or stable_settled) fun _ _ h => .inl h.1
  | some check =>
      intro w hinv h
      have hid : check.id = id := (h.2 check rfl).1
      refine Triple.bind ((triple_fresh_known (straight_appendEvent _ _ _ _ _ _)).weaken
        (fun _ _ h => h) (fun _ _ _ h => h) fun _ _ _ h => .inl h) (fun startedEvent => ?_)
        w hinv ⟨h.1, (h.2 check rfl).2⟩
      refine Triple.bind (triple_begun.weaken (fun _ _ h => h) (fun _ _ _ h => h)
        fun _ _ _ h => .inl h) fun _ => ?_
      refine Triple.bind ((triple_noteStarted hid).weaken (fun _ _ h => h) (fun _ _ _ h => h)
        fun _ _ _ h => .inl h) fun _ => ?_
      refine Triple.weaken (A := Running t id check) (Q := fun _ => Settled id)
        (E := fun _ => Hopeful t id) ?_ (fun _ _ h => h) (fun _ _ _ h => .inr h)
        fun _ _ _ h => .inr h
      refine Triple.bind (triple_running ((uses_publishEvent c _).mono fun _ =>
        plain_of_publishes)) fun _ => ?_
      refine Triple.bind (triple_running ((uses_ainvoke c _ _ _).mono fun _ => plain_of_graph))
        fun finalState => ?_
      refine Triple.bind (triple_running ((uses_recordCheckpoint c id).mono fun _ =>
        plain_of_checkpoints)) fun _ => ?_
      have hsession : Growing fun db =>
          ∀ sid, check.sessionId = some sid → Present db (.session sid) :=
        fun _ _ hext h sid hsid => hext.session sid (h sid hsid)
      refine Triple.bind ((mode_usable.markTerminal hsession rfl _ _ _).weaken
        (fun w hinv h => ?_) (fun _ _ _ h => h) fun _ _ _ h => h) fun _ =>
        mode_usable.ending c _ _ _ _ _ _ _ _
      refine h.1.imp_right fun husable => ⟨husable, present_session hinv.1 ?_⟩
      exact Known.extends h.2 (extends_applyAll _ _)

theorem triple_markFailed (c : Collaborators) (e : Exn) :
    Triple completionProtocol t (fun w => Fresh t w ∨ Hopeful t id w) (markFailed c id e)
      (fun _ w => Fresh t w ∨ Settled id w) fun _ w => Fresh t w ∨ Hopeful t id w :=
  Triple.or
    ((triple_fresh ((uses_markFailed c id e).mono fun _ => plain_of_bystander)).weaken
      (fun _ _ h => h) (fun _ _ _ h => .inl h) fun _ _ _ h => .inl h)
    ((mode_usable.markFailed c e).weaken (fun _ _ h => h) (fun _ _ _ h => .inr h)
      fun _ _ _ h => .inr h)

/-- What holds when a task has ended: if its run had started, the check has an outcome. -/
def Completed (t : TaskId) (w : World) : Prop :=
  ∀ id, w.phase t = .started id ∨ w.phase t = .lastResort id → Settled id w

/-- The operations that tell nothing about the runs of other checks. -/
def OwnNotes (id : CheckId) : Op → Prop
  | .note (.started id') | .note (.lastResort id') => id' = id
  | _ => True

/-- The phase of a run is about its own check. -/
def OwnPhase (t : TaskId) (id : CheckId) (w : World) : Prop :=
  w.phase t = .fresh ∨ w.phase t = .started id ∨ w.phase t = .lastResort id

theorem ownNotes_of_runOp {op : Op} (h : RunOp id op) : OwnNotes id op := by
  cases op with
  | note n => cases n <;> first | exact h | trivial
  | _ => trivial

theorem triple_ownPhase {α : Type} {p : Program α} (hp : Uses (OwnNotes id) p) :
    Triple completionProtocol t (OwnPhase t id) p (fun _ => OwnPhase t id)
      fun _ => OwnPhase t id := by
  have hstable : Stable completionProtocol t (OwnPhase t id) := by
    intro w w' _ h hrely _
    simpa only [OwnPhase, hrely.1.phase] using h
  refine Triple.of_uses (S := OwnNotes id) hstable (fun _ _ _ _ _ => trivial) ?_ hp
  intro op choice r w w' hop hinv h hallowed hexec
  cases r with
  | error e => simpa only [OwnPhase, failed_phase hexec] using h
  | ok a =>
      by_cases hplain : Plain op
      · simpa only [OwnPhase, (hplain.keeps hexec).1] using h
      · obtain ⟨answer, kept, -, hsucceed⟩ := exec_ok hexec
        cases op with
        | note n =>
            obtain ⟨-, rfl⟩ := Prod.mk.inj (Option.some.inj hsucceed)
            cases n with
            | alreadyTerminal | called | answered => exact absurd trivial hplain
            | started id' =>
                obtain rfl : id' = id := hop
                exact .inr (.inl (by simp [World.noted]))
            | lastResort id' =>
                obtain rfl : id' = id := hop
                rcases h with h | h | h
                · exact .inl (by simp only [World.noted, h])
                · exact .inr (.inr (by simp [World.noted, h]))
                · exact .inr (.inr (by simp only [World.noted, h]))
        | _ => exact absurd trivial hplain

/-- A run that has started ends with an outcome, however it ends. -/
theorem triple_run (c : Collaborators) (id : CheckId) :
    Triple completionProtocol t (Fresh t) (runSopQualityCheckWithNewSession c id)
      (fun _ => Completed t) fun _ => Completed t := by
  have hdone : Stable completionProtocol t fun w => Fresh t w ∨ Settled id w :=
    stable_fresh.or stable_settled
  have hopen : Stable completionProtocol t fun w => Fresh t w ∨ Hopeful t id w :=
    stable_fresh.or stable_hopeful
  have hends : ∀ {α : Type} {p : Program α}, Uses Plain p →
      Triple completionProtocol t (fun w => Fresh t w ∨ Settled id w) p
        (fun _ w => Fresh t w ∨ Settled id w) fun _ w => Fresh t w ∨ Settled id w :=
    fun hp => Triple.or
      ((triple_fresh hp).weaken (fun _ _ h => h) (fun _ _ _ h => .inl h) fun _ _ _ h => .inl h)
      ((triple_settled _).weaken (fun _ _ h => h) (fun _ _ _ h => .inr h) fun _ _ _ h => .inr h)
  have hgoes : ∀ {α : Type} {p : Program α}, Uses Plain p →
      Triple completionProtocol t (fun w => Fresh t w ∨ Hopeful t id w) p
        (fun _ w => Fresh t w ∨ Hopeful t id w) fun _ w => Fresh t w ∨ Hopeful t id w :=
    fun hp => Triple.or
      ((triple_fresh hp).weaken (fun _ _ h => h) (fun _ _ _ h => .inl h) fun _ _ _ h => .inl h)
      ((triple_hopeful hp).weaken (fun _ _ h => h) (fun _ _ _ h => .inr h) fun _ _ _ h => .inr h)
  have hrun : Triple completionProtocol t (Fresh t) (runSopQualityCheckWithNewSession c id)
      (fun _ w => Fresh t w ∨ Settled id w) fun _ w => Fresh t w ∨ Settled id w := by
    refine Triple.ensuring (fun _ => hdone) (fun _ => hdone)
      (Triple.tryCatch (B := fun _ w => Fresh t w ∨ Hopeful t id w) ?_ fun e => ?_)
      (fun _ => hends ?_) fun _ => hends ?_
    · refine Triple.bind ((triple_fresh ?_).weaken (fun _ _ h => h) (fun _ _ _ h => h)
        fun _ _ _ h => .inl h) fun _ => ?_
      · exact Uses.perform trivial
      refine Triple.ensuring (fun _ => hdone) (fun _ => hopen)
        (Triple.tryCatch (triple_tryRun _) fun e => triple_markFailed _ e)
        (fun _ => (hends ?_).weaken (fun _ _ h => h) (fun _ _ _ h => h)
          fun _ _ _ h => h.imp_right .inl) fun _ => hgoes ?_
      · exact Uses.perform trivial
      · exact Uses.perform trivial
    · refine Triple.bind (triple_noteLastResort.weaken (fun _ _ h => h) (fun _ _ _ h => h)
        fun _ _ _ h => h.elim) fun _ => ?_
      exact Triple.or
        ((triple_fresh ((uses_markFailed _ id e).mono fun _ => plain_of_bystander)).weaken
          (fun _ _ h => h) (fun _ _ _ h => .inl h) fun _ _ _ h => .inl h)
        ((mode_last.markFailed _ e).weaken (fun _ _ h => h) (fun _ _ _ h => .inr h)
          fun _ _ _ h => .inr h)
    · exact Uses.perform trivial
    · exact Uses.perform trivial
  have hcompleted : ∀ w, (Fresh t w ∨ Settled id w) ∧ OwnPhase t id w → Completed t w := by
    rintro w ⟨hfresh | hsettled, hown⟩ id' hphase
    · have hfresh : w.phase t = .fresh := hfresh
      simp [hfresh] at hphase
    · rcases hown with hown | hown | hown <;> simp only [hown] at hphase <;> simp at hphase
      · exact hphase ▸ hsettled
      · exact hphase ▸ hsettled
  exact (hrun.and (triple_ownPhase ((uses_run c id).mono fun _ => ownNotes_of_runOp))).weaken
    (fun _ _ h => ⟨h, .inl h⟩) (fun _ _ _ h => hcompleted _ h) fun _ _ _ h => hcompleted _ h

theorem triple_task {c : Collaborators} {p : Program Unit} (hp : Task c p) :
    Triple completionProtocol t (Unbegun t) p (fun _ => Completed t) fun _ => Completed t := by
  have hfresh : ∀ w, Fresh t w → Completed t w := by
    intro w hfresh id hphase
    have hfresh : w.phase t = .fresh := hfresh
    simp [hfresh] at hphase
  have hplain : ∀ {p : Program Unit}, Uses Plain p →
      Triple completionProtocol t (Unbegun t) p (fun _ => Completed t) fun _ => Completed t :=
    fun hp => (triple_fresh hp).weaken (fun _ _ h => h.phase) (fun _ w _ => hfresh w)
      fun _ w _ => hfresh w
  have hcompleted : Stable completionProtocol t (Completed t) := by
    intro w w' hinv h hrely hinv' id hphase
    rw [hrely.1.phase] at hphase
    exact stable_settled w w' hinv (h id hphase) hrely hinv'
  cases hp with
  | run id =>
      refine Triple.bind ((triple_fresh ?_).weaken (fun _ _ h => h.phase) (fun _ _ _ h => h)
        fun _ w _ => hfresh w) fun _ => Triple.bind (triple_run c id) fun _ =>
          Triple.done hcompleted fun _ _ h => h
      exact Uses.perform trivial
  | startup =>
      exact hplain (uses_startup.mono fun _ => plain_of_bystander)
  | start environments sopId envKey createdBy =>
      refine hplain (Uses.bind (Uses.ensuring ?_ (Uses.perform trivial)) fun _ => trivial)
      exact (uses_startCheck _ _ _ _).mono fun _ => plain_of_starts

end Tasks

/-- As long as failures leave the session usable until an outcome is committed, and nothing raises
in the outer handler before that, a started run leaves its check with an outcome. -/
theorem settled_of_failuresRecordable (c : Collaborators) {w : World} (hidle : Idle w)
    (hw : WellFormed w) {c' : Config}
    (hrun : Steps exec (Task c) FailuresRecordable (.idle w) c') {t : TaskId}
    {r : Except Exn Unit} (hended : c'.task t = some (.leave r)) {id : CheckId}
    (hstarted : c'.shared.phase t = .started id ∨ c'.shared.phase t = .lastResort id) :
    Settled id c'.shared := by
  have horderly : Orderly FailuresRecordable (.idle w) := .idle hidle hw
  have hinv : Invariant completionProtocol (fun t w => Unbegun t w) (fun t _ w => Completed t w)
      (Config.idle w : Config) := .idle ⟨hw.coherent hidle, trivial⟩ fun t => Idle.unbegun hidle t
  have hfinal := hinv.steps (fun t _ _ _ h hrely _ => h.rely hrely.1)
    (fun t p hp w hinv hbegin => Safe.mono (fun r w _ h => by cases r <;> exact h)
      (triple_task hp w hinv hbegin))
    ((disciplined_task c).steps horderly hrun)
  exact hfinal.ended hended id hstarted

/-- An await that raises and leaves the database session unusable. -/
def reject (t : TaskId) : Move Reply Exn TaskId Choice :=
  .resume t (.fail (.other "PendingRollbackError" "the transaction has been rolled back") true)

def respond (t : TaskId) (answer : Answer) : Move Reply Exn TaskId Choice :=
  .resume t (.succeed answer true)

/-- The agent answers with a text that the database does not take, so that the flush of its message
fails, and both handlers find the session unusable. -/
def flushFails : List (Move Reply Exn TaskId Choice) :=
  .spawn 0 (backgroundRun collaborators 0) ::
    (List.replicate 14 (proceed 0) ++ respond 0 (.json (.obj [])) :: List.replicate 6 (proceed 0) ++
      [respond 0 (.flag false), respond 0 (.text "\x00"), proceed 0, proceed 0, reject 0, reject 0,
        proceed 0, proceed 0, reject 0, proceed 0])

/-- A failed flush leaves the check running for ever. -/
theorem not_forall_settled :
    ¬ ∀ (c : Collaborators) (w : World), Idle w → WellFormed w → ∀ c' : Config,
      Steps exec (Task c) unrestricted (.idle w) c' → ∀ (t : TaskId) (r : Except Exn Unit),
        c'.task t = some (.leave r) → ∀ id : CheckId,
          c'.shared.phase t = .started id ∨ c'.shared.phase t = .lastResort id →
            Settled id c'.shared := by
  intro h
  have hrun : ∃ (c' : Config) (r : Except Exn Unit),
      follow exec unrestricted (.idle (oneCheck .pending)) flushFails = some c' ∧
        c'.task 0 = some (.leave r) ∧ c'.shared.phase 0 = .lastResort 0 ∧
        (c'.shared.store.committed.check 0).map (·.status) = some .running :=
    ⟨_, .error _, rfl, rfl, rfl, rfl⟩
  obtain ⟨c', r, hfollow, hended, hphase, hrunning⟩ := hrun
  have hspawn : ∀ p ∈ started flushFails, Task collaborators p := by
    simpa [flushFails, started, proceed, respond, reject] using .run 0
  obtain ⟨row, hrow, hterminal⟩ := h collaborators _ (idle_oneCheck .pending)
    (wellFormed_oneCheck .pending) c' (follow_steps hspawn hfollow) 0 r hended 0 (.inr hphase)
  have hrow : c'.shared.store.committed.check 0 = some row := hrow
  have hstatus : row.status = .running := by simpa [hrow] using hrunning
  simp [hstatus, CheckStatus.active] at hterminal

/-- The graph raises without harm to the session, and the run goes on to its end. -/
def failsToTheEnd : List (Move Reply Exn TaskId Choice) :=
  graphFails ++ List.replicate 2 (proceed 0)

theorem settled_failsToTheEnd : ∃ c' : Config,
    follow exec FailuresRecordable (.idle (oneCheck .pending)) failsToTheEnd = some c' ∧
      c'.task 0 = some (.leave (.ok ())) ∧ c'.shared.phase 0 = .started 0 ∧
      Settled 0 c'.shared := by
  have hrun : ∃ c' : Config,
      follow exec FailuresRecordable (.idle (oneCheck .pending)) failsToTheEnd = some c' ∧
        c'.task 0 = some (.leave (.ok ())) ∧ c'.shared.phase 0 = .started 0 :=
    ⟨_, rfl, rfl, rfl⟩
  obtain ⟨c', hfollow, hended, hphase⟩ := hrun
  have hspawn : ∀ p ∈ started failsToTheEnd, Task collaborators p := by
    simpa [failsToTheEnd, graphFails, started, proceed, refuse] using .run 0
  exact ⟨c', hfollow, hended, hphase, settled_of_failuresRecordable collaborators
    (idle_oneCheck .pending) (wellFormed_oneCheck .pending) (follow_steps hspawn hfollow) hended
    (.inl hphase)⟩

end ChangeQuality.SopCompletion
