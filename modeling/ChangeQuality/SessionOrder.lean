import ChangeQuality.SessionDelivery

/-!
The order of the messages that `SessionService.stream_events` yields: they come once each and in
order exactly when the loop takes no message from its queue that a page has already given it.
-/

namespace ChangeQuality.SessionOrder

open ChangeQuality.SopTables
open ChangeQuality.SequencedLog
open ChangeQuality.Runs
open ChangeQuality.SessionStream
open ChangeQuality.SessionDelivery

/-- The sequences are strictly increasing and all greater than `after`. -/
def Ordered (after : Nat) (sent : List Event) : Prop :=
  Ascending after (sequences sent)

/-- The condition on a run: a message taken from the queue was committed after the last query for a
page, and its sequence is greater than `after`. -/
def TakesFresh (mv : Move) (w : World) : Prop :=
  ∀ live ∈ taken mv w, ∀ s ∈ messageEventSequence live.event, w.loop.horizon < s ∧ w.loop.after < s

instance (mv : Move) (w : World) : Decidable (TakesFresh mv w) :=
  inferInstanceAs (Decidable (∀ live ∈ taken mv w, ∀ s ∈ messageEventSequence live.event, _))

variable {reads : Reads} {mv : Move} {ms : List Move} {w w' : World} {after : Nat}
  {sent : List Event} {m : Message}

theorem ordered_message : Ordered after (sent ++ [.message m]) ↔
    Ordered after sent ∧ (sequences sent).foldl max after < m.sequence := by
  rw [Ordered, sequences_message]
  exact ascending_concat

theorem ordered_other {e : Event} (he : messageEventSequence e = none) :
    Ordered after (sent ++ [e]) ↔ Ordered after sent := by
  simp only [Ordered, sequences_other he]

/-- The next message of a page is the one after the cursor. -/
theorem ordered_replay {committed page : List Message} {loop : Loop}
    (h : Delivered committed loop.after loop.cursor loop.sent)
    (hnumbered : Numbered (·.sequence) committed) (hpage : page <+: committed.drop loop.cursor) :
    Ordered loop.after (loop.replay page).sent ↔ Ordered loop.after loop.sent := by
  cases page with
  | nil => exact Iff.rfl
  | cons m rest =>
      have hmem : m ∈ committed.drop loop.cursor := hpage.subset (by simp)
      have hlt := (hnumbered.mem_drop.mp hmem).2
      refine ordered_message.trans (and_iff_left ?_)
      exact h.cursor_eq ▸ hlt

/-- A step keeps the order exactly when it takes no stale message. -/
theorem ordered_resume (h : Coherent w) (hresume : Resumes reads w w') :
    Ordered w'.loop.after w'.loop.sent ↔
      Ordered w.loop.after w.loop.sent ∧ TakesFresh .resume w := by
  have hread := h.reading
  have hfresh : w.loop.control ≠ .waiting → TakesFresh .resume w := by
    intro hcontrol live hlive
    exact absurd (taken_eq_some.mp hlive).2.1 hcontrol
  cases hresume with
  | refuse hcontrol | subscribe hcontrol | round hcontrol | leave hcontrol =>
      exact (and_iff_left (hfresh (by simp [hcontrol]))).symm
  | poll hcontrol =>
      refine Iff.trans ?_ (and_iff_left (hfresh (by simp [hcontrol]))).symm
      have hpage : getMessagesAfter w.committed w.loop.cursor <+:
          w.committed.drop w.loop.cursor := by
        rw [getMessagesAfter, h.writing.numbered.pageAfter_eq]
        exact List.take_prefix _ _
      cases hempty : getMessagesAfter w.committed w.loop.cursor with
      | nil => exact Iff.rfl
      | cons m rest =>
          rw [hempty] at hpage
          exact ordered_replay hread.delivered h.writing.numbered hpage
  | replay hcontrol =>
      refine Iff.trans ?_ (and_iff_left (hfresh (by simp [hcontrol]))).symm
      rw [(replay_horizon w.loop _).2.1]
      exact ordered_replay hread.delivered h.writing.numbered (hread.page _ hcontrol).2
  | check hcontrol =>
      refine Iff.trans ?_ (and_iff_left (hfresh (by simp [hcontrol]))).symm
      rw [(onSession_frame w.loop _).2.1]
      cases getSession reads w.loop.currentSession w.session with
      | none => exact Iff.rfl
      | some status =>
          simp only [Loop.onSession]
          split
          · exact ordered_other rfl
          · exact Iff.rfl
  | @take live rest hcontrol hqueue =>
      have htaken : taken .resume w = some live := by simp [taken, hcontrol, hqueue]
      have hcaught := hread.caughtUp (.inr hcontrol)
      cases hlive : live.event with
      | message m =>
          have hcursor := hread.delivered.cursor_eq
          have hfresh : TakesFresh .resume w ↔
              w.loop.horizon < m.sequence ∧ w.loop.after < m.sequence := by
            simp [TakesFresh, htaken, hlive, messageEventSequence]
          rw [hfresh]
          refine ordered_message.trans (and_congr_right fun _ => ?_)
          change (sequences w.loop.sent).foldl max w.loop.after < m.sequence ↔ _
          rw [← hcursor, hcaught]
          omega
      | _ =>
          have hfresh : TakesFresh .resume w := by
            simp [TakesFresh, htaken, hlive, messageEventSequence]
          exact (ordered_other rfl).trans (and_iff_left hfresh).symm

theorem ordered_step (h : Coherent w) (hstep : Happens reads w mv w') :
    Ordered w'.loop.after w'.loop.sent ↔ Ordered w.loop.after w.loop.sent ∧ TakesFresh mv w := by
  have hfresh : taken mv w = none → TakesFresh mv w := fun hnone live hlive => by
    rw [hnone] at hlive
    cases hlive
  cases hstep with
  | resume hresume => exact ordered_resume h hresume
  | publish | publishDelta =>
      rw [show (World.publish w _).loop = w.loop from (publish_frame w _).2.2]
      exact (and_iff_left (hfresh rfl)).symm
  | _ => exact (and_iff_left (hfresh rfl)).symm

theorem after_step (hstep : Happens reads w mv w') : w'.loop.after = w.loop.after := by
  cases hstep with
  | resume hresume =>
      cases hresume with
      | poll => exact (onMessages_horizon _ _).2.1
      | replay => exact (replay_horizon _ _).2.1
      | check => exact (onSession_frame _ _).2.1
      | _ => rfl
  | publish | publishDelta => exact congrArg Loop.after (publish_frame w _).2.2
  | _ => rfl

/-- The messages come in order and once each exactly in the runs in which the loop takes no message
from the queue that was committed before its last query for a page. -/
theorem ordered_iff_takesFresh (sessionId : SessionId) (history : History)
    (session : Option SessionStatus) (after : Nat)
    (hrun : run (step reads) ms (start sessionId history session after) = some w) :
    Ordered after w.loop.sent ↔
      Along (step reads) TakesFresh ms (start sessionId history session after) := by
  have hafter : w.loop.after = after := run_invariant (I := fun w => w.loop.after = after)
    (fun _ _ _ h hstep => (after_step (happens hstep)).trans h) rfl hrun
  have hiff := run_iff_along (P := fun w => Ordered w.loop.after w.loop.sent)
    (fun _ _ _ h hstep => Coherent.step h (happens hstep))
    (fun _ _ _ h hstep => ordered_step h (happens hstep))
    (coherent_start sessionId history session after) hrun
  have hstart : Ordered after [] := ⟨.nil, by simp [sequences]⟩
  rw [hafter] at hiff
  exact hiff.trans (and_iff_right hstart)

/-- The message is committed before a query for a page and published after it. -/
def overtaken : List Move :=
  [.resume, .append "load_sop" "assistant" "loaded" [], .commit, .resume, .publish, .resume,
    .resume, .resume, .resume]

theorem not_forall_ordered : ¬ ∀ (reads : Reads) (sessionId : SessionId) (history : History)
    (session : Option SessionStatus) (after : Nat) (ms : List Move) (w : World),
    run (step reads) ms (start sessionId history session after) = some w →
      Ordered after w.loop.sent := by
  intro hforall
  have hrun : ∃ w, run (step .committed) overtaken (start 1 ⟨[], rfl⟩ (some .active) 0) = some w ∧
      sequences w.loop.sent = [1, 1] := ⟨_, rfl, rfl⟩
  obtain ⟨w, hrun, hsent⟩ := hrun
  have hordered := (hforall _ _ _ _ _ _ w hrun).1
  simp [hsent] at hordered

/-- The message is committed and published while the loop waits. -/
def live : List Move :=
  [.resume, .resume, .resume, .append "load_sop" "assistant" "loaded" [], .commit, .publish,
    .resume, .resume, .resume]

theorem ordered_live : ∃ w,
    run (step .identityMap) live (start 1 ⟨[], rfl⟩ (some .active) 0) = some w ∧
      sequences w.loop.sent = [1] ∧ Ordered 0 w.loop.sent := by
  have hrun : ∃ w, run (step .identityMap) live (start 1 ⟨[], rfl⟩ (some .active) 0) = some w ∧
      sequences w.loop.sent = [1] := ⟨_, rfl, rfl⟩
  obtain ⟨w, hrun, hsent⟩ := hrun
  have halong : Along (step .identityMap) TakesFresh live
      (start 1 ⟨[], rfl⟩ (some .active) 0) := by decide
  exact ⟨w, hrun, hsent, (ordered_iff_takesFresh 1 ⟨[], rfl⟩ (some .active) 0 hrun).mpr halong⟩

end ChangeQuality.SessionOrder
