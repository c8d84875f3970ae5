import ChangeQuality.CheckOrder

/-!
Delivery of a check's events. The loop may yield an event twice, but it passes none over: whatever is
committed behind `after` was yielded or is ahead of the cursor, and a loop that is left to itself comes
to yield it.
-/

namespace ChangeQuality.CheckDelivery

open ChangeQuality.SopTables
open ChangeQuality.SequencedLog
open ChangeQuality.Runs
open ChangeQuality.SessionStream (Reads)
open ChangeQuality.CheckStream
open ChangeQuality.CheckOrder

/-- What is yielded was committed, and nothing up to the cursor is missing from it. -/
structure Delivered (w : World) : Prop where
  sound : ∀ e ∈ w.loop.sent, e ∈ w.committed
  passed : ∀ e ∈ w.committed, w.loop.after < e.sequence → e.sequence ≤ w.loop.cursor →
    e ∈ w.loop.sent

/-- Every event behind `after` was yielded. -/
def Complete (w : World) : Prop :=
  ∀ e ∈ w.committed, w.loop.after < e.sequence → e ∈ w.loop.sent

/-- A terminal event was yielded. -/
def SentTerminal (w : World) : Prop :=
  ∃ e ∈ w.loop.sent, e.type.terminal = true

/-- The event was yielded or waits in the queue. -/
def Held (e : SopQualityEvent) (w : World) : Prop :=
  e ∈ w.queue ∨ e ∈ w.loop.sent

/-- The loop is between its subscription and its end. -/
def Following (w : World) : Prop :=
  w.loop.control.subscribed = true ∧ w.loop.control ≠ .closing

/-- The status check of the loop finds the check active. -/
def FindsActive (reads : Reads) (w : World) : Prop :=
  ∃ status, getCheck reads w.loop.check w.check = some status ∧ terminal status = false

/-- By itself, with time passing, the loop comes to a state with a property. -/
def Reaches (reads : Reads) (w : World) (Q : World → Prop) : Prop :=
  ∃ moves w', (∀ mv ∈ moves, mv = .resume ∨ mv = .timeout) ∧
    run (step reads) moves w = some w' ∧ w'.committed = w.committed ∧
      w'.loop.after = w.loop.after ∧ Q w'

/-- What a consumer can rely on. -/
structure Delivers (reads : Reads) (w : World) : Prop where
  delivered : Delivered w
  /-- A loop that goes to its queue has yielded what was committed when it last asked. -/
  caughtUp : w.loop.control = .checking ∨ w.loop.control = .waiting → ∀ e ∈ w.committed,
    w.loop.after < e.sequence → e.sequence ≤ w.loop.horizon → e ∈ w.loop.sent
  /-- An event that is published to a subscribed loop is not lost. -/
  held : ∀ e ms w', w.writer = .committed e → w.loop.control.subscribed = true →
    run (step reads) (.publish :: ms) w = some w' → w'.loop.control.subscribed = true → Held e w'
  /-- A loop that goes on yields everything, or ends with a terminal event. -/
  reaches : Following w → FindsActive reads w →
    Reaches reads w fun w => Complete w ∨ SentTerminal w

variable {reads : Reads} {mv : Move} {ms : List Move} {w w' : World} {e : SopQualityEvent}

section Safety

theorem Delivered.congr (h : Delivered w) (hcommitted : w'.committed = w.committed)
    (hafter : w'.loop.after = w.loop.after) (hcursor : w'.loop.cursor = w.loop.cursor)
    (hsent : w'.loop.sent = w.loop.sent) : Delivered w' := by
  refine ⟨?_, ?_⟩
  · rw [hsent, hcommitted]
    exact h.sound
  · rw [hsent, hcommitted, hafter, hcursor]
    exact h.passed

/-- The next event of a page. -/
theorem Delivered.replay (h : Delivered w) (hwriting : Writing w) (loop : Loop)
    {page : List SopQualityEvent} (hafter : loop.after = w.loop.after)
    (hcursor : loop.cursor = w.loop.cursor) (hsent : loop.sent = w.loop.sent)
    (hpage : page <+: w.committed.drop w.loop.cursor) :
    Delivered { w with loop := loop.replay page } := by
  cases page with
  | nil => exact h.congr rfl hafter hcursor hsent
  | cons e rest =>
      obtain ⟨hmem, hseq, -, -⟩ := hwriting.numbered.next hpage
      refine ⟨fun e' he' => ?_, fun e' he' hlt hle => ?_⟩
      · simp only [Loop.replay, hsent] at he'
        rcases List.mem_append.mp he' with he' | he'
        · exact h.sound e' he'
        · exact List.mem_singleton.mp he' ▸ hmem
      · simp only [Loop.replay, hcursor, hafter] at hlt hle
        simp only [Loop.replay, hsent]
        by_cases hnext : e'.sequence ≤ w.loop.cursor
        · exact List.mem_append_left _ (h.passed e' he' hlt hnext)
        · have hsame : e'.sequence = e.sequence := by omega
          obtain ⟨-, hat⟩ := hwriting.numbered.mem_iff.mp hmem
          obtain ⟨-, hat'⟩ := hwriting.numbered.mem_iff.mp he'
          rw [hsame, hat] at hat'
          exact List.mem_append_right _ (List.mem_singleton.mpr (Option.some.inj hat').symm)

theorem Delivered.resume (h : Delivered w) (hcoherent : Coherent w) (hresume : Resumes reads w w') :
    Delivered w' := by
  cases hresume with
  | poll hcontrol =>
      have hpage := page_prefix (w := w) hcoherent.writing.numbered
      cases hevents : getEventsAfter w.committed w.loop.cursor with
      | nil => exact h.congr rfl rfl rfl rfl
      | cons e rest =>
          rw [hevents] at hpage
          exact h.replay hcoherent.writing { w.loop with horizon := w.committed.length } rfl rfl rfl
            hpage
  | replay hcontrol =>
      exact h.replay hcoherent.writing w.loop rfl rfl rfl (hcoherent.reading.page _ hcontrol)
  | check hcontrol =>
      cases getCheck reads w.loop.check w.check <;> exact h.congr rfl rfl rfl rfl
  | @take e rest hcontrol hqueue =>
      refine ⟨fun e' he' => ?_, fun e' he' hlt hle => List.mem_append_left _ (h.passed e' he' hlt hle)⟩
      rcases List.mem_append.mp he' with he' | he'
      · exact h.sound e' he'
      · obtain rfl := List.mem_singleton.mp he'
        exact hcoherent.writing.queue e' (hqueue ▸ List.mem_cons_self)
  | _ => exact h.congr rfl rfl rfl rfl

theorem Delivered.step (h : Delivered w) (hcoherent : Coherent w) (hstep : Happens reads w mv w') :
    Delivered w' := by
  cases hstep with
  | @commit e hwriter =>
      have hnew := hcoherent.writing.appended e hwriter
      have hcursor := hcoherent.reading.cursor_le
      refine ⟨fun e' he' => List.mem_append_left _ (h.sound e' he'), fun e' he' hlt hle => ?_⟩
      rcases List.mem_append.mp he' with he' | he'
      · exact h.passed e' he' hlt hle
      · -- the new event is ahead of every cursor
        obtain rfl := List.mem_singleton.mp he'
        simp only at hlt hle
        omega
  | publish =>
      obtain ⟨hcommitted, -, hloop, -⟩ := publish_frame w _
      exact h.congr hcommitted (congrArg Loop.after hloop) (congrArg Loop.cursor hloop)
        (congrArg Loop.sent hloop)
  | resume hresume => exact h.resume hcoherent hresume
  | _ => exact h.congr rfl rfl rfl rfl

/-- An event that a subscribed loop holds stays with it while it is subscribed. -/
theorem held_resume (hopened : w.loop.control ≠ .opening)
    (h : w.loop.control.subscribed = true → Held e w) (hresume : Resumes reads w w') :
    w'.loop.control ≠ .opening ∧ (w'.loop.control.subscribed = true → Held e w') := by
  cases hresume with
  | refuse hcontrol | subscribe hcontrol => exact absurd hcontrol hopened
  | leave => exact ⟨by simp, by simp [Control.subscribed]⟩
  | round hcontrol =>
      exact ⟨by simp, fun _ => h (by simp [hcontrol, Control.subscribed])⟩
  | poll hcontrol =>
      have hheld := h (by simp [hcontrol, Control.subscribed])
      cases getEventsAfter w.committed w.loop.cursor with
      | nil => exact ⟨by simp [Loop.onEvents], fun _ => hheld⟩
      | cons e' rest =>
          refine ⟨?_, fun _ => hheld.imp_right (List.mem_append_left _)⟩
          simp only [Loop.onEvents, Loop.replay]
          split <;> simp
  | @replay rest hcontrol =>
      have hheld := h (by simp [hcontrol, Control.subscribed])
      cases rest with
      | nil => exact ⟨by simp [Loop.replay], fun _ => hheld⟩
      | cons e' rest =>
          refine ⟨?_, fun _ => hheld.imp_right (List.mem_append_left _)⟩
          simp only [Loop.replay]
          split <;> simp
  | check hcontrol =>
      have hheld := h (by simp [hcontrol, Control.subscribed])
      cases getCheck reads w.loop.check w.check with
      | none => exact ⟨by simp [Loop.onCheck], fun _ => hheld⟩
      | some status =>
          refine ⟨?_, fun _ => hheld⟩
          simp only [Loop.onCheck]
          split <;> simp
  | take hcontrol hqueue =>
      have hheld := h (by simp [hcontrol, Control.subscribed])
      refine ⟨?_, fun _ => ?_⟩
      · simp only [Loop.onLive]
        split <;> simp
      · -- the head of the queue is what the loop yields
        rcases hheld with hqueued | hsent
        · rw [hqueue] at hqueued
          rcases List.mem_cons.mp hqueued with rfl | hrest
          · exact .inr (List.mem_append_right _ (List.mem_singleton.mpr rfl))
          · exact .inl hrest
        · exact .inr (List.mem_append_left _ hsent)

theorem held_step (hopened : w.loop.control ≠ .opening)
    (h : w.loop.control.subscribed = true → Held e w) (hstep : Happens reads w mv w') :
    w'.loop.control ≠ .opening ∧ (w'.loop.control.subscribed = true → Held e w') := by
  cases hstep with
  | resume hresume => exact held_resume hopened h hresume
  | publish =>
      obtain ⟨-, -, hloop, -⟩ := publish_frame w _
      refine ⟨by rw [hloop]; exact hopened, fun hsubscribed => ?_⟩
      rw [hloop] at hsubscribed
      rcases h hsubscribed with hqueued | hsent
      · refine .inl ?_
        simp only [World.publish, hsubscribed, if_true]
        exact List.mem_append_left _ hqueued
      · exact .inr (hloop ▸ hsent)
  | timeout hcontrol =>
      exact ⟨by simp, fun _ => h (by simp [hcontrol, Control.subscribed])⟩
  | disconnect => exact ⟨by simp, by simp [Control.subscribed]⟩
  | _ => exact ⟨hopened, h⟩

/-- A published event is in the queue or yielded for as long as the loop stays subscribed. -/
theorem held_of_published (hwriter : w.writer = .committed e)
    (hsubscribed : w.loop.control.subscribed = true)
    (hrun : run (step reads) (.publish :: ms) w = some w')
    (hstays : w'.loop.control.subscribed = true) : Held e w' := by
  obtain ⟨mid, hmid, hrest⟩ := run_cons hrun
  simp only [step, hwriter, Option.some.injEq] at hmid
  subst hmid
  have hopened : w.loop.control ≠ .opening := by
    rintro heq
    simp [heq, Control.subscribed] at hsubscribed
  refine (run_invariant (I := fun w => w.loop.control ≠ .opening ∧
    (w.loop.control.subscribed = true → Held e w))
    (fun _ _ _ h hstep => held_step h.1 h.2 (happens hstep)) ?_ hrest).2 hstays
  simp [World.publish, hsubscribed, hopened, Held]

end Safety

section Progress

variable {Q : World → Prop}

theorem Reaches.here (h : Q w) : Reaches reads w Q :=
  ⟨[], w, by simp, rfl, rfl, rfl, h⟩

theorem Reaches.move (hmv : mv = .resume ∨ mv = .timeout) (hstep : step reads mv w = some w')
    (hcommitted : w'.committed = w.committed) (hafter : w'.loop.after = w.loop.after)
    (h : Reaches reads w' Q) : Reaches reads w Q := by
  obtain ⟨moves, w'', hmoves, hrun, hcommitted', hafter', hQ⟩ := h
  refine ⟨mv :: moves, w'', ?_, ?_, hcommitted'.trans hcommitted, hafter'.trans hafter, hQ⟩
  · exact List.forall_mem_cons.mpr ⟨hmv, hmoves⟩
  · rw [run, hstep]
    exact hrun

/-- A loop that has read to the end of the log has yielded everything. -/
theorem complete_of_end (hwriting : Writing w) (h : Delivered w)
    (hend : w.committed.length ≤ w.loop.cursor) : Complete w := by
  intro e he hlt
  have hbound := hwriting.numbered.mem_bounds he
  exact h.passed e he hlt (by omega)

/-- How far a loop that reads pages is from the end of the log. -/
def ahead (w : World) : Nat :=
  2 * (w.committed.length - w.loop.cursor) + match w.loop.control with
    | .replaying _ => 1
    | _ => 0

/-- The loop is at a page or on its way through one. -/
def ReadsPages (w : World) : Prop :=
  w.loop.control = .polling ∨ ∃ rest, w.loop.control = .replaying rest

theorem ahead_replay (hwriting : Writing w) {loop : Loop} {e : SopQualityEvent}
    {rest : List SopQualityEvent} (hcursor : loop.cursor = w.loop.cursor)
    (hpage : e :: rest <+: w.committed.drop w.loop.cursor) :
    SentTerminal { w with loop := loop.replay (e :: rest) } ∨
      ReadsPages { w with loop := loop.replay (e :: rest) } ∧
        ahead { w with loop := loop.replay (e :: rest) } < ahead w := by
  obtain ⟨-, hseq, hle, -⟩ := hwriting.numbered.next hpage
  cases hterminal : e.type.terminal with
  | true => exact .inl ⟨e, by simp [Loop.replay], hterminal⟩
  | false =>
      refine .inr ⟨.inr ⟨rest, by simp [Loop.replay, hterminal]⟩, ?_⟩
      simp only [ahead, Loop.replay, hterminal, hcursor, hseq, Bool.false_eq_true, if_false]
      omega

/-- A loop that reads pages is at the end of the log or comes nearer to it. -/
theorem readsPages_resume (reads : Reads) (hcoherent : Coherent w) (h : Delivered w)
    (hreads : ReadsPages w) :
    Complete w ∨ ∃ w', step reads .resume w = some w' ∧ w'.committed = w.committed ∧
      w'.loop.after = w.loop.after ∧ (SentTerminal w' ∨ ReadsPages w' ∧ ahead w' < ahead w) := by
  have hwriting := hcoherent.writing
  rcases hreads with hcontrol | ⟨rest, hcontrol⟩
  · cases hevents : getEventsAfter w.committed w.loop.cursor with
    | nil =>
        refine .inl (complete_of_end hwriting h ?_)
        rw [getEventsAfter, hwriting.numbered.pageAfter_eq, List.take_eq_nil_iff] at hevents
        exact List.drop_eq_nil_iff.mp (hevents.resolve_left (by omega))
    | cons e rest =>
        have hpage := page_prefix (w := w) hwriting.numbered
        rw [hevents] at hpage
        refine .inr ⟨{ w with
          loop := { w.loop with horizon := w.committed.length }.replay (e :: rest) }, ?_, rfl, rfl,
          ahead_replay hwriting rfl hpage⟩
        simp only [step, World.resume, hcontrol, hevents, Loop.onEvents]
  · refine .inr ⟨{ w with loop := w.loop.replay rest }, by simp only [step, World.resume, hcontrol],
      rfl, (replay_frame _ _).1, ?_⟩
    cases rest with
    | nil =>
        refine .inr ⟨.inl rfl, ?_⟩
        simp only [ahead, Loop.replay, hcontrol]
        omega
    | cons e rest => exact ahead_replay hwriting rfl (hcoherent.reading.page _ hcontrol)

theorem reaches_of_readsPages (hcoherent : Coherent w) (h : Delivered w) (hreads : ReadsPages w) :
    Reaches reads w fun w => Complete w ∨ SentTerminal w := by
  generalize hahead : ahead w = n
  induction n using Nat.strong_induction_on generalizing w with
  | h n ih =>
      rcases readsPages_resume reads hcoherent h hreads with
        hcomplete | ⟨w', hstep, hcommitted, hafter, hterminal | ⟨hreads', hlt⟩⟩
      · exact .here (.inl hcomplete)
      · exact .move (.inl rfl) hstep hcommitted hafter (.here (.inr hterminal))
      · exact .move (.inl rfl) hstep hcommitted hafter
          (ih _ (hahead ▸ hlt) (hcoherent.step (happens hstep))
            (h.step hcoherent (happens hstep)) hreads' rfl)

/-- From wherever it is between its subscription and its end, the loop comes to read a page. -/
theorem reaches_of_following (hcoherent : Coherent w) (h : Delivered w) (hfollowing : Following w)
    (hactive : FindsActive reads w) :
    Reaches reads w fun w => Complete w ∨ SentTerminal w := by
  have hmove : ∀ {mv} w', mv = .resume ∨ mv = .timeout → step reads mv w = some w' →
      w'.committed = w.committed → w'.loop.after = w.loop.after →
      (Coherent w' → Delivered w' → Reaches reads w' fun w => Complete w ∨ SentTerminal w) →
      Reaches reads w fun w => Complete w ∨ SentTerminal w := by
    intro mv w' hmv hstep hcommitted hafter hlater
    exact .move hmv hstep hcommitted hafter
      (hlater (hcoherent.step (happens hstep)) (h.step hcoherent (happens hstep)))
  obtain ⟨hsubscribed, hclosing⟩ := hfollowing
  cases hcontrol : w.loop.control with
  | opening | ended => simp [hcontrol, Control.subscribed] at hsubscribed
  | closing => exact absurd hcontrol hclosing
  | polling => exact reaches_of_readsPages hcoherent h (.inl hcontrol)
  | replaying rest => exact reaches_of_readsPages hcoherent h (.inr ⟨rest, hcontrol⟩)
  | delivering =>
      exact hmove { w with loop := { w.loop with control := .polling } } (.inl rfl)
        (by simp only [step, World.resume, hcontrol]) rfl rfl
        fun hcoherent h => reaches_of_readsPages hcoherent h (.inl rfl)
  | waiting =>
      exact hmove { w with loop := { w.loop with control := .polling } } (.inr rfl)
        (by simp only [step, hcontrol]) rfl rfl
        fun hcoherent h => reaches_of_readsPages hcoherent h (.inl rfl)
  | checking =>
      obtain ⟨status, hstatus, hterminal⟩ := hactive
      refine hmove { w with loop := { w.loop with control := .waiting } } (.inl rfl)
        (by simp [step, World.resume, hcontrol, hstatus, Loop.onCheck, hterminal]) rfl rfl
        fun hcoherent h => ?_
      have hstep : step reads .timeout { w with loop := { w.loop with control := .waiting } } =
        some { w with loop := { w.loop with control := .polling } } := rfl
      exact .move (.inr rfl) hstep rfl rfl (reaches_of_readsPages (hcoherent.step (happens hstep))
        (h.step hcoherent (happens hstep)) (.inl rfl))

end Progress

section Runs

theorem delivered_start (checkId : CheckId) (broadcast : Bool) (history : History)
    (check : Option CheckStatus) (after : Nat) :
    Delivered (start checkId broadcast history check after) := by
  refine ⟨by simp [start], fun e _ hlt hle => ?_⟩
  simp only [start] at hlt hle
  omega

/-- In every run of the writer and the loop, the loop yields committed events only and passes none
over, and it is always on its way to the end of the log. -/
theorem delivers_of_run (checkId : CheckId) (broadcast : Bool) (history : History)
    (check : Option CheckStatus) (after : Nat)
    (hrun : run (step reads) ms (start checkId broadcast history check after) = some w) :
    w.loop.after = after ∧ Delivers reads w := by
  have hafter : w.loop.after = after := run_invariant (I := fun w => w.loop.after = after)
    (fun _ _ _ h hstep => (after_step (happens hstep)).trans h) rfl hrun
  obtain ⟨hcoherent, hdelivered⟩ := run_invariant (I := fun w => Coherent w ∧ Delivered w)
    (fun _ _ _ h hstep => ⟨h.1.step (happens hstep), h.2.step h.1 (happens hstep)⟩)
    ⟨coherent_start checkId broadcast history check after,
      delivered_start checkId broadcast history check after⟩ hrun
  refine ⟨hafter, hdelivered, fun hcontrol e he hlt hle => ?_, fun e later w' hwriter hsubscribed
    hlater hstays => ?_, reaches_of_following hcoherent hdelivered⟩
  · have hcaught := hcoherent.reading.caughtUp hcontrol
    exact hdelivered.passed e he hlt (by omega)
  · exact held_of_published hwriter hsubscribed hlater hstays

/-- An event is committed, and not yet published, while the loop waits. -/
def unpublished : List Move :=
  [.resume, .resume, .resume, .append .started none none none none, .commit]

theorem delivers_unpublished : ∃ w,
    run (step .committed) unpublished (start 1 true ⟨[], rfl⟩ (some .running) 0) = some w ∧
      sequences w.loop.sent = [] ∧ sequences w.committed = [1] ∧
        Reaches .committed w fun w => Complete w ∨ SentTerminal w := by
  have hrun : ∃ w, run (step .committed) unpublished
      (start 1 true ⟨[], rfl⟩ (some .running) 0) = some w ∧ sequences w.loop.sent = [] ∧
        sequences w.committed = [1] ∧ w.loop.control = .waiting ∧ FindsActive .committed w :=
    ⟨_, rfl, rfl, rfl, rfl, .running, rfl, rfl⟩
  obtain ⟨w, hrun, hsent, hcommitted, hcontrol, hactive⟩ := hrun
  have hfollowing : Following w := by simp [Following, hcontrol, Control.subscribed]
  exact ⟨w, hrun, hsent, hcommitted,
    (delivers_of_run 1 true ⟨[], rfl⟩ (some .running) 0 hrun).2.reaches hfollowing hactive⟩

end Runs

end ChangeQuality.CheckDelivery
