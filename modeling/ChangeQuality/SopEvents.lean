import ChangeQuality.SopOutcomes
import ChangeQuality.SopTransactions

/-!
Whether the event log of a check agrees with its status: one terminal event when the check has an
outcome, of the type of the outcome, and none before.
-/

namespace ChangeQuality.SopEvents

open ChangeQuality.Values
open ChangeQuality.SopTables
open ChangeQuality.SopRepository
open ChangeQuality.SopRunner
open ChangeQuality.SopSystem
open ChangeQuality.SopEffects
open ChangeQuality.SopInvariant
open ChangeQuality.SopDiscipline
open ChangeQuality.SopTransactions
open ChangeQuality.SopOutcomes
open ChangeQuality.ReadCommitted
open ChangeQuality.Coroutine
open ChangeQuality.Interference

/-- The type of the event that announces an outcome. -/
def outcomeEvent : CheckStatus → Option EventType
  | .pending | .running => none
  | .succeeded => some .completed
  | .failed => some .failed
  | .cancelled => some .cancelled
  | .interrupted => some .interrupted

/-- The types of the terminal events in a log. -/
def terminalTypes (events : List SopQualityEvent) : List EventType :=
  (events.map (·.type)).filter (·.terminal)

/-- A log that agrees with the status of its check. -/
structure EventsAgree (events : List SopQualityEvent) (status : CheckStatus) : Prop where
  atMostOne : (terminalTypes events).length ≤ 1
  iffTerminal : terminalTypes events ≠ [] ↔ status.active = false
  sameType : ∀ type ∈ terminalTypes events, outcomeEvent status = some type

def LogsAgree (db : Db) : Prop :=
  ∀ id row, db.check id = some row → EventsAgree (db.eventsOf id) row.status

/-- The condition on a run: an UPDATE of an outcome finds the committed status active, and where
`mark_terminal` returns early, the same outcome was written earlier in the same transaction and its
event is still to come. -/
def OutcomesRecorded (t : TaskId) (op : Op) (choice : Choice) (w : World) : Prop :=
  OutcomesMeetActive t op choice w ∧
    match op with
    | .note (.alreadyTerminal id outcome) =>
        ((w.view t).check id).map (·.status) = some outcome ∧
          terminalTypes ((w.view t).eventsOf id) = []
    | _ => True

instance (t : TaskId) (op : Op) (choice : Choice) (w : World) :
    Decidable (OutcomesRecorded t op choice w) := by
  unfold OutcomesRecorded
  refine @instDecidableAnd _ _ inferInstance ?_
  split <;> infer_instance

theorem outcomeEvent_eq_none {status : CheckStatus} :
    outcomeEvent status = none ↔ status.active = true := by
  cases status <;> simp [outcomeEvent, CheckStatus.active]

theorem eventsAgree_iff {events : List SopQualityEvent} {status : CheckStatus} :
    EventsAgree events status ↔ terminalTypes events = (outcomeEvent status).toList := by
  constructor
  · rintro ⟨hone, hiff, htype⟩
    cases hevent : outcomeEvent status with
    | none =>
        have hactive := outcomeEvent_eq_none.mp hevent
        simpa [hactive] using hiff
    | some type =>
        have hterminal : status.active = false := by
          by_contra hactive
          simp [outcomeEvent_eq_none.mpr (by simpa using hactive)] at hevent
        obtain ⟨type', hlist⟩ := List.length_eq_one_iff.mp
          (le_antisymm hone (List.length_pos_iff.mpr (hiff.mpr hterminal)))
        have hsame := htype type' (by simp [hlist])
        obtain rfl : type = type' := Option.some.inj (hevent.symm.trans hsame)
        exact hlist
  · intro h
    refine ⟨?_, ?_, ?_⟩ <;> rw [h] <;> cases status <;>
      simp [outcomeEvent, CheckStatus.active]

/-- What a task sees of a check agrees with what it sees of the log. -/
def Matches (seen : Option SopQualityCheck × List SopQualityEvent) : Prop :=
  ∀ row, seen.1 = some row → terminalTypes seen.2 = (outcomeEvent row.status).toList

theorem logsAgree_iff {db : Db} :
    LogsAgree db ↔ ∀ id, Matches ((checkAspect id).read db) :=
  forall_congr' fun _ => forall_congr' fun _ => imp_congr_right fun _ => eventsAgree_iff

theorem terminalTypes_append (events : List SopQualityEvent) (event : SopQualityEvent) :
    terminalTypes (events ++ [event]) =
      terminalTypes events ++ if event.type.terminal then [event.type] else [] := by
  cases h : event.type.terminal <;> simp [terminalTypes, h]

section Transaction

variable {t : TaskId} {id : CheckId} {s : CheckStatus} {w w' : World}

/-- All logs agree, as the task sees them. -/
def Balanced (t : TaskId) (w : World) : Prop :=
  ∀ id, Matches ((checkAspect id).read (w.view t))

/-- The task has written an outcome and owes the event. -/
structure Half (t : TaskId) (id : CheckId) (s : CheckStatus) (w : World) : Prop where
  terminal : s.active = false
  owner : w.store.owner (.check id) = some t
  status : ∃ row, (w.view t).check id = some row ∧ row.status = s
  events : terminalTypes ((w.view t).eventsOf id) = []
  others : ∀ id', id' ≠ id → Matches ((checkAspect id').read (w.view t))

/-- What is left when a part of the run raises. -/
def Loose (t : TaskId) (id : CheckId) (w : World) : Prop :=
  Balanced t w ∨ ∃ s, Half t id s w

theorem Balanced.of_committed (h : LogsAgree w.store.committed)
    (hview : w.view t = w.store.committed) : Balanced t w := by
  unfold Balanced
  rw [hview]
  exact logsAgree_iff.mp h

theorem Balanced.reset (h : LogsAgree w.store.committed) (invalid : Bool) :
    Balanced t (w.reset t invalid) :=
  .of_committed h (view_reset invalid)

/-- What a failed operation leaves of an assertion that a rollback re-establishes. -/
theorem failed_keeps {φ : World → Prop} {op : Op} {choice : Choice} {e : Exn} (h : φ w)
    (hreset : φ (w.reset t true)) (hexec : exec t op choice w = some (.error e, w')) : φ w' := by
  rcases failed_view hexec with rfl | rfl
  · exact h
  · exact hreset

theorem Balanced.carries (h : Balanced t w) (hcarries : Carries t w w') : Balanced t w' :=
  fun id => (hcarries.view id).symm ▸ h id

theorem Half.carries (h : Half t id s w) (hcarries : Carries t w w') : Half t id s w' where
  terminal := h.terminal
  owner := hcarries.owner _ h.owner
  status := hcarries.check id ▸ h.status
  events := hcarries.events id ▸ h.events
  others id' hne := (hcarries.view id').symm ▸ h.others id' hne

theorem Loose.carries (h : Loose t id w) (hcarries : Carries t w w') : Loose t id w' := by
  rcases h with h | ⟨s, h⟩
  · exact .inl (h.carries hcarries)
  · exact .inr ⟨s, h.carries hcarries⟩

/-- The operations that keep every log balanced. -/
def Calm : Op → Prop
  | .updateCheck _ patch => patch.status = none ∨ patch.status = some .running
  | .insertEvent event => event.type.terminal = false
  | _ => True

theorem net_status_none {check : SopQualityCheck} {patch : CheckPatch}
    (h : patch.status = none) : (patch.net check).status = none := by
  simp [CheckPatch.net, h]

/-- An agreeing log still agrees after a write of a calm operation. -/
theorem Balanced.write {op : Op} {wr : Write} (h : Balanced t w) (hcoherent : Coherent w)
    (hpre : Discipline t op w) (hop : Calm op) (hwr : Writes t w w' op wr) (id : CheckId) :
    Matches ((checkAspect id).read (schema.apply wr (w.view t))) := by
  intro row hrow
  have hold : ∀ row, (w.view t).check id = some row →
      terminalTypes ((w.view t).eventsOf id) = (outcomeEvent row.status).toList := h id
  change (schema.apply wr (w.view t)).check id = some row at hrow
  change terminalTypes ((schema.apply wr (w.view t)).eventsOf id) = _
  cases hwr with
  | @updateCheck check patch =>
      rw [check_updateCheck] at hrow
      change terminalTypes ((w.view t).eventsOf id) = _
      split at hrow
      · rename_i hid
        subst hid
        obtain ⟨old, hfound, rfl⟩ := Option.map_eq_some_iff.mp hrow
        rw [hold old hfound]
        rcases hop with hnone | hrunning
        · simp [CheckPatch.apply, net_status_none hnone]
        · obtain ⟨-, row, hrow, hpending⟩ := hpre.2.2 hrunning
          obtain rfl := Option.some.inj (hfound.symm.trans hrow)
          cases hnet : (patch.net check).status with
          | none => simp [CheckPatch.apply, hnet]
          | some status =>
              obtain rfl : CheckStatus.running = status :=
                Option.some.inj (hrunning.symm.trans (net_status hnet))
              simp [CheckPatch.apply, hnet, hpending, outcomeEvent]
      · exact hold row hrow
  | @insertEvent event hpresent =>
      rw [eventsOf_insertEvent]
      split
      · have hterminal : event.type.terminal = false := hop
        rw [terminalTypes_append, hterminal]
        simpa using hold row hrow
      · simpa using hold row hrow
  | insertCheck hpresent hnext =>
      rw [check_insertCheck] at hrow
      change terminalTypes ((w.view t).eventsOf id) = _
      rcases Option.or_eq_some_iff.mp hrow with hrow | ⟨hnone, hrow⟩
      · exact hold row hrow
      · split at hrow
        · rename_i hid
          obtain rfl := Option.some.inj hrow
          have hfresh := hcoherent.view_fresh (t := t) hid.le
          rw [show (w.view t).eventsOf id = [] from (Prod.mk.inj hfresh).2]
          rfl
        · simp at hrow
  | _ => exact hold row hrow

end Transaction

/-- The protocol of the event logs: a transaction is committed only when its logs agree. -/
def eventProtocol : Protocol exec fun t op choice w =>
    OutcomesRecorded t op choice w ∧ Discipline t op w :=
  (discipline OutcomesRecorded).extend (fun w => LogsAgree w.store.committed)
    (fun _ _ _ => True)
    (fun t op w => match op with | .commit => Balanced t w | _ => True)
    (fun _ _ => trivial) (fun _ _ => trivial) fun {t op choice w r w'} _ hlogs _ hpre _ hexec _ => by
      refine ⟨?_, fun _ _ _ => trivial⟩
      rcases committed_of_effect (exec_outcome hexec).effect with heq | ⟨rfl, -, heq⟩
      · exact heq ▸ hlogs
      · exact heq ▸ logsAgree_iff.mpr hpre

section Stability

variable {t : TaskId} {id : CheckId} {s : CheckStatus} {w w' : World}

/-- A balanced view stays balanced: what is not locked is committed, and committed logs agree. -/
theorem matches_rely (hinv' : eventProtocol.inv w') (hrely : eventProtocol.rely t w w')
    (h : Matches ((checkAspect id).read (w.view t))) :
    Matches ((checkAspect id).read (w'.view t)) := by
  by_cases howner : w.store.owner (.check id) = some t
  · exact (hrely.1.view_check howner).symm ▸ h
  · have howner' : w'.store.owner (.check id) ≠ some t := fun h' => howner ((hrely.1.owner _).mp h')
    rw [show (checkAspect id).read (w'.view t) = _ from
      (checkAspect id).view_eq_committed hinv'.1.guarded howner']
    exact logsAgree_iff.mp hinv'.2 id

theorem stable_balanced : Stable eventProtocol t (Balanced t) :=
  fun _ _ _ h hrely hinv' id => matches_rely hinv' hrely (h id)

theorem stable_half : Stable eventProtocol t (Half t id s) := by
  intro w w' hinv h hrely hinv'
  obtain ⟨hcheck, hevents⟩ := Prod.mk.inj (hrely.1.view_check h.owner)
  exact
    { terminal := h.terminal
      owner := (hrely.1.owner _).mpr h.owner
      status := hcheck ▸ h.status
      events := hevents ▸ h.events
      others := fun id' hne => matches_rely hinv' hrely (h.others id' hne) }

theorem stable_loose : Stable eventProtocol t (Loose t id) :=
  stable_balanced.or (Stable.exists fun _ => stable_half)

end Stability

section Parts

variable {t : TaskId} {id : CheckId} {s : CheckStatus}

theorem pre_of_quiet {op : Op} (hop : Quiet op) (w : World) : eventProtocol.pre t op w := by
  cases op <;> first | exact hop.elim | trivial

theorem loose_failed {op : Op} {choice : Choice} {e : Exn} {w w' : World}
    (hinv : eventProtocol.inv w) (h : Loose t id w)
    (hexec : exec t op choice w = some (.error e, w')) : Loose t id w' :=
  failed_keeps h (.inl (.reset hinv.2 true)) hexec

/-- A quiet part of a run keeps what is owed. -/
theorem triple_quiet_half {α : Type} {p : Program α} (hp : Straight Quiet p) :
    Triple eventProtocol t (Half t id s) p (fun _ => Half t id s) fun _ => Loose t id :=
  Triple.of_straight stable_half stable_loose (fun _ w hop _ _ => pre_of_quiet hop w)
    (fun _ _ _ _ _ hop _ h _ hexec => h.carries (hop.exec_carries hexec))
    (fun _ _ _ _ _ _ hinv h _ hexec => loose_failed hinv (.inr ⟨s, h⟩) hexec)
    (fun _ _ h => .inr ⟨s, h⟩) hp

theorem triple_quiet_loose {α : Type} {p : Program α} (hp : Straight Quiet p) :
    Triple eventProtocol t (Loose t id) p (fun _ => Loose t id) fun _ => Loose t id :=
  Triple.of_straight stable_loose stable_loose (fun _ w hop _ _ => pre_of_quiet hop w)
    (fun _ _ _ _ _ hop _ h _ hexec => h.carries (hop.exec_carries hexec))
    (fun _ _ _ _ _ _ hinv h _ hexec => loose_failed hinv h hexec) (fun _ _ h => h) hp

/-- A calm part of a run keeps every log balanced, commits included. -/
theorem triple_calm {α : Type} {p : Program α} (hp : Uses Calm p) :
    Triple eventProtocol t (Balanced t) p (fun _ => Balanced t) fun _ => Balanced t := by
  refine Triple.of_uses (S := Calm) stable_balanced (fun op w _ _ h => ?_) ?_ hp
  · cases op <;> first | exact h | trivial
  · intro op choice r w w' hop hinv h hallowed hexec
    rcases view_of_effect (exec_outcome hexec).effect with heq | ⟨heq, -⟩ | ⟨wr, hwr, -, heq⟩
    · simpa only [Balanced, heq] using h
    · simpa only [Balanced, heq] using logsAgree_iff.mp hinv.2
    · simp only [Balanced, heq]
      exact h.write hinv.1 hallowed.2 hop hwr

theorem triple_calm_loose {α : Type} {p : Program α} (hp : Uses Calm p) :
    Triple eventProtocol t (Balanced t) p (fun _ => Balanced t) fun _ => Loose t id :=
  (triple_calm hp).weaken (fun _ _ h => h) (fun _ _ _ h => h) fun _ _ _ h => .inl h

/-- The UPDATE of an outcome, which makes the event owed. -/
theorem triple_outcome {check : SopQualityCheck} {patch : CheckPatch} (hterminal : s.active = false)
    (hid : check.id = id) (hpatch : patch.status = some s) (hactive : check.status.active = true) :
    Triple eventProtocol t
      (fun w => Balanced t w ∧ ∀ row, w.store.owner (.check id) = some t →
        (w.view t).check id = some row → row.status.active = true)
      (await (.updateCheck check patch)) (fun _ => Half t id s) fun _ => Loose t id := by
  subst hid
  refine Triple.perform (stable_balanced.and ?_) (fun _ => stable_half) (fun _ => stable_loose)
    (fun _ _ _ => trivial) ?_
  · intro w w' hinv h hrely hinv' row howner hrow
    have howner := (hrely.1.owner _).mp howner
    exact h row howner ((Prod.mk.inj (hrely.1.view_check howner)).1.symm.trans hrow)
  intro w choice r w' hinv h hinv' hallowed hexec
  cases r with
  | error e => exact loose_failed hinv (.inl h.1) hexec
  | ok a =>
      obtain ⟨answer, kept, rfl, hsucceed⟩ := exec_ok hexec
      obtain ⟨⟨hmeets, -⟩, hknown, -⟩ := hallowed
      have hwrite := succeed_updateCheck (by simp [hpatch]) hsucceed
      have hne : s ≠ check.status := fun heq => by simp [heq, hactive] at hterminal
      obtain ⟨mid, hlocks, hrecord⟩ := Store.write_eq_some hwrite
      obtain ⟨row, hrow, -⟩ := id hknown
      have hrowActive : row.status.active = true := by
        by_cases howner : w.store.owner (.check check.id) = some t
        · exact h.2 row howner hrow
        · refine hmeets ?_ (.inl (by simp [hpatch])) row ?_
          · rintro heq
            obtain rfl := Option.some.inj (hpatch.symm.trans heq)
            simp [CheckStatus.active] at hterminal
          · exact (view_check_committed hinv.1.guarded howner).symm.trans hrow
      refine ⟨hterminal, ?_, status_updateCheck hpatch hne hknown hsucceed, ?_, fun id' hid => ?_⟩
      · rw [hrecord, Store.record_owner]
        exact hlocks.taken _ (by simp [schema])
      · rw [view_of_write hwrite]
        exact (h.1 check.id row hrow).trans (by simp [outcomeEvent_eq_none.mpr hrowActive])
      · rw [view_of_write hwrite, (checkAspect id').frame _ _ (by simpa [schema] using hid)]
        exact h.1 id'

/-- `mark_terminal` leaves the event owed, also where it returns early. -/
theorem triple_markTerminal (hterminal : s.active = false) (qualityResult : Option String)
    (result error : Option Json) :
    Triple eventProtocol t (Loose t id) (markTerminal id s qualityResult result error)
      (fun _ => Half t id s) fun _ => Loose t id := by
  refine Triple.bind (triple_quiet_loose ((straight_requireCheck id).mono fun _ => Reads.quiet))
    fun _ => ?_
  refine Triple.bind (B := fun check w => check.id = id ∧ Loose t id w ∧
      (check.status.active = true → Balanced t w ∧ ∀ row, w.store.owner (.check id) = some t →
        (w.view t).check id = some row → row.status.active = true)) ?_ fun check => ?_
  · refine Triple.perform stable_loose (fun check => ?_) (fun _ => stable_loose)
      (fun _ _ _ => trivial) ?_
    · refine (Stable.const _).and (stable_loose.and ?_)
      intro w w' hinv h hrely hinv' hactive
      refine ⟨stable_balanced w w' hinv (h hactive).1 hrely hinv', fun row howner hrow => ?_⟩
      have howner := (hrely.1.owner _).mp howner
      exact (h hactive).2 row howner ((Prod.mk.inj (hrely.1.view_check howner)).1.symm.trans hrow)
    · intro w choice r w' hinv h hinv' hallowed hexec
      cases r with
      | error e => exact loose_failed hinv h hexec
      | ok check =>
          have hcarries := (show Quiet (.refreshCheck id) from trivial).exec_carries hexec
          obtain ⟨answer, kept, rfl, hsucceed⟩ := exec_ok hexec
          obtain ⟨hrow, rfl⟩ := reply_refreshCheck hsucceed
          refine ⟨Db.check_id hrow, h.carries hcarries, fun hactive => ?_⟩
          rcases h with h | ⟨s', h⟩
          · refine ⟨h.carries hcarries, fun row _ hrow' => ?_⟩
            obtain rfl := Option.some.inj (hrow.symm.trans hrow')
            exact hactive
          · obtain ⟨row, hrow', hstatus⟩ := h.status
            obtain rfl := Option.some.inj (hrow.symm.trans hrow')
            simp [hstatus, h.terminal] at hactive
  · split
    · rename_i hactive
      intro w hinv h
      exact triple_outcome hterminal h.1 rfl hactive w hinv (h.2.2 hactive)
    · refine Triple.bind (B := fun _ => Half t id s) ?_ fun _ =>
        Triple.done stable_half fun _ _ h => h
      refine Triple.weaken (A := Loose t id) ?_ (fun _ _ h => h.2.1) (fun _ _ _ h => h)
        fun _ _ _ h => h
      refine Triple.perform stable_loose (fun _ => stable_half) (fun _ => stable_loose)
        (fun _ _ _ => trivial) ?_
      intro w choice r w' hinv h hinv' hallowed hexec
      cases r with
      | error e => exact loose_failed hinv h hexec
      | ok _ =>
          obtain ⟨answer, kept, rfl, hsucceed⟩ := exec_ok hexec
          have hcarries := (show Quiet (.note _) from trivial).exec_carries hexec
          obtain ⟨⟨-, hsame, hnone⟩, -⟩ := hallowed
          obtain ⟨row, hrow, hstatus⟩ := Option.map_eq_some_iff.mp hsame
          rcases h with h | ⟨s', h⟩
          · have hagree : terminalTypes ((w.view t).eventsOf id) = _ := h id row hrow
            rw [hnone, hstatus, eq_comm, Option.toList_eq_nil_iff, outcomeEvent_eq_none] at hagree
            simp [hagree] at hterminal
          · obtain ⟨row', hrow', hstatus'⟩ := h.status
            obtain rfl := Option.some.inj (hrow.symm.trans hrow')
            obtain rfl : s' = s := hstatus'.symm.trans hstatus
            exact h.carries hcarries

/-- The event of the outcome settles what is owed. -/
theorem triple_announce {type : EventType} (htype : outcomeEvent s = some type)
    (node checkpointId taskId message : Option String) :
    Triple eventProtocol t (Half t id s) (appendEvent id type node checkpointId taskId message)
      (fun _ => Balanced t) fun _ => Loose t id := by
  refine Triple.bind (triple_quiet_half ((straight_nextSequence id).mono fun _ => Reads.quiet))
    fun sequence => ?_
  refine Triple.perform stable_half (fun _ => stable_balanced) (fun _ => stable_loose)
    (fun _ _ _ => trivial) ?_
  intro w choice r w' hinv h hinv' hallowed hexec
  cases r with
  | error e => exact loose_failed hinv (.inr ⟨s, h⟩) hexec
  | ok event =>
      obtain ⟨answer, kept, rfl, hsucceed⟩ := exec_ok hexec
      have hview := view_of_write (succeed_insertEvent hsucceed)
      have hterminal : type.terminal = true := by
        revert htype
        cases s <;> rintro ⟨⟩ <;> rfl
      intro id'
      rw [hview]
      by_cases hid : id' = id
      · subst hid
        intro row hrow
        obtain ⟨row', hrow', hstatus⟩ := h.status
        obtain rfl : row = row' := Option.some.inj (Eq.trans (Eq.symm hrow) hrow')
        simp [checkAspect, eventsOf_insertEvent, terminalTypes_append, h.events, hterminal, hstatus,
          htype]
      · rw [(checkAspect id').frame _ _ (by simpa [schema] using hid)]
        exact h.others id' hid

/-- What follows `mark_terminal` in both endings of a run. -/
theorem triple_ending {α : Type} (c : Collaborators) {type : EventType}
    (htype : outcomeEvent s = some type) (sessionId : Option SessionId) (status : SessionStatus)
    (node checkpointId taskId message : Option String) (value : α) :
    Triple eventProtocol t (Half t id s)
      (do
        setSessionStatus c sessionId status
        let event ← appendEvent id type node checkpointId taskId message
        await .commit
        publishEvent c event
        pure value)
      (fun _ => Balanced t) fun _ => Loose t id := by
  refine Triple.bind
    (triple_quiet_half ((straight_setSessionStatus c _ _).mono fun _ => SetsSession.quiet))
    fun _ => ?_
  refine Triple.bind (triple_announce htype _ _ _ _) fun event => ?_
  refine triple_calm_loose ?_
  refine Uses.bind (Uses.perform trivial) fun _ => Uses.bind ?_ fun _ => trivial
  exact (uses_publishEvent c event).mono fun op h => by
    cases op <;> first | exact h.elim | trivial

end Parts

section Tasks

variable {t : TaskId} {id : CheckId}

theorem Reads.calm {op : Op} (h : Reads op) : Calm op := by
  cases op <;> first | exact h.elim | trivial

theorem Appends.calm {type : EventType} (htype : type.terminal = false) {op : Op}
    (h : Appends type op) : Calm op := by
  cases op <;> first | exact Reads.calm h | exact (congrArg EventType.terminal h).trans htype

theorem calm_of_graph {op : Op} (h : GraphOp op) : Calm op := by
  cases op <;> first | exact h.elim | trivial

theorem calm_of_publishes {op : Op} (h : Publishes op) : Calm op := by
  cases op <;> first | exact h.elim | trivial

theorem calm_of_starts {op : Op} (h : Starts op) : Calm op := by
  cases op <;> first | exact Appends.calm rfl h | trivial

theorem calm_of_checkpoints {op : Op} (h : Checkpoints op) : Calm op := by
  cases op with
  | updateCheck check patch => exact .inl h
  | insertEvent event => exact congrArg EventType.terminal h
  | _ => trivial

theorem calm_of_begins {op : Op} (h : Begins op) : Calm op := by
  cases op with
  | updateCheck check patch => exact .inr h
  | insertEvent event => exact h.elim
  | _ => trivial

theorem triple_markFailed (c : Collaborators) (id : CheckId) (e : Exn) :
    Triple eventProtocol t (Loose t id) (markFailed c id e) (fun _ => Balanced t)
      fun _ => Loose t id :=
  Triple.bind (triple_quiet_loose ((straight_getCheck id).mono fun _ => Reads.quiet)) fun _ =>
    Triple.bind (triple_markTerminal rfl _ _ _) fun _ => triple_ending c rfl _ _ _ _ _ _ _

theorem triple_tryRun (c : Collaborators) (id : CheckId) :
    Triple eventProtocol t (Balanced t) (tryRun c id) (fun _ => Balanced t)
      fun _ => Loose t id := by
  have hcalm : ∀ {α β : Type} {p : Program α} {f : α → Program β}, Uses Calm p →
      (∀ a, Triple eventProtocol t (Balanced t) (f a) (fun _ => Balanced t) fun _ => Loose t id) →
      Triple eventProtocol t (Balanced t) (p >>= f) (fun _ => Balanced t) fun _ => Loose t id :=
    fun hp hf => Triple.bind (triple_calm_loose hp) hf
  refine hcalm ((uses_markRunning id).mono fun _ => calm_of_begins) fun started => ?_
  cases started with
  | none => exact Triple.done stable_balanced fun _ _ h => h
  | some check =>
      refine hcalm ((straight_appendEvent _ _ _ _ _ _).uses.mono fun _ => Appends.calm rfl) fun _ => ?_
      refine hcalm (Uses.perform trivial) fun _ => hcalm (Uses.perform trivial) fun _ => ?_
      refine hcalm ((uses_publishEvent c _).mono fun _ => calm_of_publishes) fun _ => ?_
      refine hcalm ((uses_ainvoke c _ _ _).mono fun _ => calm_of_graph) fun _ => ?_
      refine hcalm ((uses_recordCheckpoint c id).mono fun _ => calm_of_checkpoints) fun _ => ?_
      refine Triple.weaken (A := Loose t id) ?_ (fun _ _ h => .inl h) (fun _ _ _ h => h)
        fun _ _ _ h => h
      exact Triple.bind (triple_markTerminal rfl _ _ _) fun _ => triple_ending c rfl _ _ _ _ _ _ _

/-- A run owes nothing when it returns; when it raises, its session is closed anyway. -/
theorem triple_run (c : Collaborators) (id : CheckId) :
    Triple eventProtocol t (Balanced t) (runSopQualityCheckWithNewSession c id)
      (fun _ _ => True) fun _ _ => True := by
  have hclose : ∀ A, Stable eventProtocol t A →
      Triple eventProtocol t A (await .close) (fun _ _ => True) fun _ _ => True :=
    fun A hA => Triple.perform hA (fun _ => Stable.const True) (fun _ => Stable.const True)
      (fun _ _ _ => trivial) (by rintro w choice (e | a) w' - - - - - <;> trivial)
  refine Triple.ensuring (fun _ => Stable.const True) (fun _ => Stable.const True)
    (Triple.tryCatch (B := fun _ => Loose t id) (Q := fun _ => Balanced t)
      (E := fun _ => Loose t id) ?_ fun e => ?_)
    (fun _ => hclose _ stable_balanced) fun _ => hclose _ stable_loose
  · refine Triple.bind (B := fun _ => Balanced t) ?_ fun _ => ?_
    · refine triple_calm_loose ?_
      exact Uses.perform trivial
    · refine Triple.ensuring (fun _ => stable_balanced) (fun _ => stable_loose)
        (Triple.tryCatch (triple_tryRun _ id) fun e => triple_markFailed _ id e)
        (fun _ => ?_) fun _ => ?_
      · refine triple_calm_loose ?_
        exact Uses.perform trivial
      · exact triple_quiet_loose (Straight.perform trivial)
  · refine Triple.bind (triple_quiet_loose (Straight.perform trivial)) fun _ => ?_
    exact triple_markFailed _ id e

/-- The task has not locked any of some checks. -/
def Untouched (t : TaskId) (checks : List SopQualityCheck) (w : World) : Prop :=
  ∀ check ∈ checks, w.store.owner (.check check.id) ≠ some t

/-- What lies before the startup while it interrupts one check after the other. -/
structure Remaining (t : TaskId) (checks : List SopQualityCheck) (w : World) : Prop where
  balanced : Balanced t w
  nodup : (checks.map (·.id)).Nodup
  active : ∀ check ∈ checks, check.status.active = true
  untouched : Untouched t checks w

theorem stable_untouched (checks : List SopQualityCheck) :
    Stable eventProtocol t (Untouched t checks) :=
  fun _ _ _ h hrely _ check hcheck howner => h check hcheck ((hrely.1.owner _).mp howner)

theorem stable_remaining (checks : List SopQualityCheck) :
    Stable eventProtocol t (Remaining t checks) :=
  fun w w' hinv h hrely hinv' =>
    ⟨stable_balanced w w' hinv h.balanced hrely hinv', h.nodup, h.active,
      stable_untouched checks w w' hinv h.untouched hrely hinv'⟩

/-- The operations that lock nothing but one check. -/
def OnlyLocks (id : CheckId) : Op → Prop
  | .lockCheck id' => id' = id
  | .updateCheck check _ => check.id = id
  | .insertEvent event => event.checkId = id
  | .latestSequence _ => True
  | _ => False

theorem triple_untouched {α : Type} {p : Program α} {checks : List SopQualityCheck}
    (hid : id ∉ checks.map (·.id)) (hp : Uses (OnlyLocks id) p) :
    Triple eventProtocol t (Untouched t checks) p (fun _ => Untouched t checks)
      fun _ => Untouched t checks := by
  refine Triple.of_uses (S := OnlyLocks id) (stable_untouched checks) (fun op w hop _ _ => ?_) ?_ hp
  · cases op <;> first | exact hop.elim | trivial
  · intro op choice r w w' hop hinv h hallowed hexec check hcheck howner
    have hne : check.id ≠ id := fun heq => hid (List.mem_map.mpr ⟨check, hcheck, heq⟩)
    rcases owner_of_effect (exec_outcome hexec).effect howner with hold | ⟨hlock, -⟩ |
      ⟨wr, hwr, hrow⟩
    · exact h check hcheck hold
    · cases op <;> simp only [OnlyLocks] at hop <;> simp only [lockOf, reduceCtorEq] at hlock
      simp only [Option.some.injEq, Key.check.injEq] at hlock
      exact hne (hlock.symm.trans hop)
    · cases hwr <;> simp only [OnlyLocks] at hop <;>
        simp only [schema, List.mem_singleton, Key.check.injEq] at hrow
      · exact hne (hrow.trans hop)
      · exact hne (hrow.trans hop)

theorem triple_reply (check : SopQualityCheck) (patch : CheckPatch) :
    Triple eventProtocol t (fun _ => True) (await (.updateCheck check patch))
      (fun reply _ => reply.id = check.id) fun _ _ => True := by
  refine Triple.perform (Stable.const True) (fun _ => Stable.const _) (fun _ => Stable.const True)
    (fun _ _ _ => trivial) ?_
  intro w choice r w' _ _ _ _ hexec
  cases r with
  | error e => trivial
  | ok reply =>
      obtain ⟨answer, kept, rfl, hsucceed⟩ := exec_ok hexec
      exact congrArg (·.id) (reply_updateCheck hsucceed)

theorem triple_interruptEach (checks : List SopQualityCheck) :
    Triple eventProtocol t (Remaining t checks) (interruptEach checks) (fun _ => Balanced t)
      fun _ _ => True := by
  induction checks with
  | nil => exact Triple.done stable_balanced fun _ _ h => h.balanced
  | cons check checks ih =>
      intro w hinv h
      obtain ⟨hid, hnodup⟩ := List.nodup_cons.mp h.nodup
      have hactive := h.active check List.mem_cons_self
      have hupdate : Triple eventProtocol t
          (fun w => Balanced t w ∧ Untouched t (check :: checks) w)
          (await (.updateCheck check { status := some .interrupted }))
          (fun reply w => reply.id = check.id ∧ Half t check.id .interrupted w ∧
            Untouched t checks w) fun _ _ => True := by
        refine ((triple_reply _ _).and ((triple_outcome rfl rfl rfl hactive).and
          (triple_untouched hid (Uses.perform rfl)))).weaken ?_ (fun _ _ _ h => h)
          fun _ _ _ _ => trivial
        refine fun w _ h => ⟨trivial, ⟨h.1, fun row howner => ?_⟩, ?_⟩
        · exact absurd howner (h.2 check List.mem_cons_self)
        · exact fun other hother => h.2 other (List.mem_cons_of_mem check hother)
      refine Triple.bind hupdate (fun reply => ?_) w hinv ⟨h.balanced, h.untouched⟩
      rintro w₁ hinv₁ ⟨hreply, h₁⟩
      rw [hreply]
      refine Triple.bind (((triple_announce rfl _ _ _ _).and (triple_untouched hid ?_)).weaken
        (fun _ _ h => h) (fun _ _ _ h => h) fun _ _ _ _ => trivial) (fun _ => ?_) w₁ hinv₁ h₁
      · refine Uses.bind (Uses.bind ?_ fun _ => Uses.bind (Uses.perform trivial) fun _ => trivial)
          fun _ => Uses.perform rfl
        refine Uses.bind (Uses.perform rfl) fun found => ?_
        cases found <;> trivial
      · refine Triple.bind (ih.weaken (fun w _ h₂ => ?_) (fun _ _ _ h => h) fun _ _ _ h => h)
          fun _ => Triple.done stable_balanced fun _ _ h => h
        exact ⟨h₂.1, hnodup, fun other hother => h.active other (List.mem_cons_of_mem _ hother),
          h₂.2⟩

/-- The startup query of a fresh session finds rows that are active and not locked by it. -/
theorem triple_selectActive :
    Triple eventProtocol t (Unbegun t) (await .selectActive) (Remaining t) fun _ _ => True := by
  refine Triple.perform (fun _ _ _ h hrely _ => h.rely hrely.1) stable_remaining
    (fun _ => Stable.const True) (fun _ _ _ => trivial) ?_
  intro w choice r w' hinv h hinv' hallowed hexec
  cases r with
  | error e => trivial
  | ok checks =>
      have hcarries := (show Quiet .selectActive from trivial).exec_carries hexec
      obtain ⟨answer, kept, rfl, hsucceed⟩ := exec_ok hexec
      obtain ⟨-, hw⟩ := Prod.mk.inj (Option.some.inj hsucceed)
      have hrows := replies_active h.checks hsucceed
      have hbalanced : Balanced t w := .of_committed hinv.2 h.view
      refine ⟨hbalanced.carries hcarries, ?_, fun check hcheck => ?_, fun check _ howner => ?_⟩
      · exact hrows ▸ Db.nodup_activeChecks _
      · exact (Db.mem_activeChecks (hrows ▸ hcheck)).2
      · rw [← hw, (loadChecks_eq _).1] at howner
        exact h.owner _ howner

theorem triple_startup :
    Triple eventProtocol t (Unbegun t) interruptLeftoverSopQualityChecks (fun _ _ => True)
      fun _ _ => True := by
  have hclose : Triple eventProtocol t (fun _ => True) (await .close) (fun _ _ => True)
      fun _ _ => True :=
    Triple.perform (Stable.const True) (fun _ => Stable.const True) (fun _ => Stable.const True)
      (fun _ _ _ => trivial) (by rintro w choice (e | a) w' - - - - - <;> trivial)
  refine Triple.ensuring (fun _ => Stable.const True) (fun _ => Stable.const True)
    (B := fun _ _ => True) (C := fun _ _ => True) ?_ (fun _ => hclose) fun _ => hclose
  refine Triple.bind (B := fun _ => Balanced t) ?_ fun _ => ?_
  · refine Triple.bind triple_selectActive fun checks => ?_
    refine Triple.bind (triple_interruptEach checks) fun _ => ?_
    refine (triple_calm ?_).weaken (fun _ _ h => h) (fun _ _ _ h => h) fun _ _ _ _ => trivial
    exact Uses.bind (Uses.perform trivial) fun _ => trivial
  · refine (triple_calm ?_).weaken (fun _ _ h => h) (fun _ _ _ _ => trivial) fun _ _ _ _ => trivial
    exact Uses.perform trivial

theorem triple_task {c : Collaborators} {p : Program Unit} (hp : Task c p) :
    Triple eventProtocol t (Unbegun t) p (fun _ _ => True) fun _ _ => True := by
  have hbalanced : ∀ w, eventProtocol.inv w → Unbegun t w → Balanced t w :=
    fun w hinv h => .of_committed hinv.2 h.view
  cases hp with
  | run id =>
      refine Triple.weaken (A := Balanced t) ?_ hbalanced (fun _ _ _ h => h) fun _ _ _ h => h
      refine Triple.bind ((triple_calm ?_).weaken (fun _ _ h => h) (fun _ _ _ h => h)
        fun _ _ _ _ => trivial) fun _ => Triple.bind (triple_run c id) fun _ =>
          Triple.done (Stable.const True) fun _ _ _ => trivial
      exact Uses.perform trivial
  | startup => exact triple_startup
  | start environments sopId envKey createdBy =>
      refine (triple_calm ?_).weaken hbalanced (fun _ _ _ _ => trivial) fun _ _ _ _ => trivial
      refine Uses.bind (Uses.ensuring ?_ (Uses.perform trivial)) fun _ => trivial
      exact (uses_startCheck _ _ _ _).mono fun _ => calm_of_starts

end Tasks

/-- As long as no outcome is written over another one, and a second call of `mark_terminal` only
finds what its own transaction has just written, every committed log agrees with its status. -/
theorem logsAgree_of_outcomesRecorded (c : Collaborators) {w : World} (hidle : Idle w)
    (hw : WellFormed w) (hlogs : LogsAgree w.store.committed) {c' : Config}
    (hrun : Steps exec (Task c) OutcomesRecorded (.idle w) c') :
    LogsAgree c'.shared.store.committed := by
  have horderly : Orderly OutcomesRecorded (.idle w) := .idle hidle hw
  have hinv : Invariant eventProtocol (fun t w => Unbegun t w) (fun _ _ _ => True)
      (Config.idle w : Config) := .idle ⟨hw.coherent hidle, hlogs⟩ fun t => Idle.unbegun hidle t
  refine (hinv.steps (fun t _ _ _ h hrely _ => h.rely hrely.1) ?_
    ((disciplined_task c).steps horderly hrun)).shared.2
  intro t p hp w hinv hbegin
  exact Safe.mono (fun _ _ _ _ => trivial) (triple_task hp w hinv hbegin)

/-- An await that raises and leaves the database session usable. -/
def refuse (t : TaskId) : Move Reply Exn TaskId Choice :=
  .resume t (.fail (.other "RuntimeError" "unreachable") false)

/-- The graph of a run raises, and the failure is recorded. -/
def graphFails : List (Move Reply Exn TaskId Choice) :=
  .spawn 0 (backgroundRun collaborators 0) ::
    List.replicate 13 (proceed 0) ++ refuse 0 :: List.replicate 14 (proceed 0)

/-- The exit of the checkpointer raises as well, which enters the outer handler. -/
def exitFails : List (Move Reply Exn TaskId Choice) :=
  refuse 0 :: List.replicate 14 (proceed 0)

theorem logsAgree_oneCheck : LogsAgree (oneCheck .pending).store.committed := by
  intro id row hrow
  have hmem := List.mem_of_find?_eq_some hrow
  simp only [oneCheck, List.mem_singleton] at hmem
  obtain rfl : row.id = id := Db.check_id hrow
  subst hmem
  exact eventsAgree_iff.mpr rfl

theorem started_graphFails : ∀ p ∈ started graphFails, Task collaborators p := by
  simpa [graphFails, started, proceed, refuse] using .run 0

/-- The outer handler appends a second terminal event to a check that has failed already. -/
theorem not_forall_logsAgree :
    ¬ ∀ (c : Collaborators) (w : World), Idle w → WellFormed w → LogsAgree w.store.committed →
      ∀ c' : Config, Steps exec (Task c) unrestricted (.idle w) c' →
        LogsAgree c'.shared.store.committed := by
  intro h
  have hrun : ∃ c₁ c₂ : Config,
      follow exec unrestricted (.idle (oneCheck .pending)) graphFails = some c₁ ∧
        follow exec unrestricted c₁ exitFails = some c₂ ∧
        (c₂.shared.store.committed.check 0).isSome ∧
        terminalTypes (c₂.shared.store.committed.eventsOf 0) = [.failed, .failed] :=
    ⟨_, _, rfl, rfl, rfl, rfl⟩
  obtain ⟨c₁, c₂, h₁, h₂, hcheck, htwice⟩ := hrun
  have hspawn : ∀ p ∈ started exitFails, Task collaborators p := by
    simp [exitFails, started, proceed, refuse]
  have hlogs := h collaborators _ (idle_oneCheck .pending) (wellFormed_oneCheck .pending)
    logsAgree_oneCheck c₂
    ((follow_steps started_graphFails h₁).trans (follow_steps hspawn h₂))
  obtain ⟨row, hrow⟩ := Option.isSome_iff_exists.mp hcheck
  have hone := (hlogs 0 row hrow).atMostOne
  simp [htwice] at hone

theorem logsAgree_graphFails : ∃ c' : Config,
    follow exec OutcomesRecorded (.idle (oneCheck .pending)) graphFails = some c' ∧
      terminalTypes (c'.shared.store.committed.eventsOf 0) = [.failed] ∧
      LogsAgree c'.shared.store.committed := by
  have hrun : ∃ c' : Config,
      follow exec OutcomesRecorded (.idle (oneCheck .pending)) graphFails = some c' ∧
        terminalTypes (c'.shared.store.committed.eventsOf 0) = [.failed] :=
    ⟨_, rfl, rfl⟩
  obtain ⟨c', h, hevents⟩ := hrun
  exact ⟨c', h, hevents, logsAgree_of_outcomesRecorded collaborators (idle_oneCheck .pending)
    (wellFormed_oneCheck .pending) logsAgree_oneCheck (follow_steps started_graphFails h)⟩

end ChangeQuality.SopEvents
