import ChangeQuality.SessionDelivery

/-!
How `SessionService.stream_events` ends: which messages it has yielded when it yields the terminal
event, and whether its status check sees that the session has ended.
-/

namespace ChangeQuality.SessionEnding

open ChangeQuality.SopTables
open ChangeQuality.SequencedLog
open ChangeQuality.Runs
open ChangeQuality.SessionStream
open ChangeQuality.SessionDelivery

/-- The loop reads the status of the session with a move, and this is what it reads. -/
def statusRead (reads : Reads) : Move → World → Option SessionStatus
  | .resume, w =>
      match w.loop.control with
      | .checking => getSession reads w.loop.currentSession w.session
      | _ => none
  | _, _ => none

def isCommit : Move → Bool
  | .commit => true
  | _ => false

/-- Every message of the session is committed no later than its terminal status. -/
def InTime (mv : Move) (w : World) : Prop :=
  isCommit mv = true → ∀ status ∈ w.session, terminal status = false

instance (mv : Move) (w : World) : Decidable (InTime mv w) :=
  inferInstanceAs (Decidable (_ → ∀ status ∈ w.session, _))

/-- Where the move yields a terminal event, all committed messages were yielded before it. -/
def EndsComplete (reads : Reads) (mv : Move) (w : World) : Prop :=
  ∀ status ∈ statusRead reads mv w, terminal status = true →
    ∀ m ∈ w.committed, w.loop.after < m.sequence → .message m ∈ w.loop.sent

/-- The condition on a run: when the status read says that the session has ended, no message was
committed after the last query for a page. -/
def NoneSinceQuery (reads : Reads) (mv : Move) (w : World) : Prop :=
  ∀ status ∈ statusRead reads mv w, terminal status = true →
    ∀ m ∈ w.committed, w.loop.after < m.sequence → m.sequence ≤ w.loop.horizon

instance (reads : Reads) (mv : Move) (w : World) : Decidable (NoneSinceQuery reads mv w) :=
  inferInstanceAs (Decidable (∀ status ∈ statusRead reads mv w, _ → ∀ m ∈ w.committed, _ → _))

/-- The loop passes its status check only while the committed status is not terminal. -/
def PassesActive (reads : Reads) (mv : Move) (w : World) : Prop :=
  ∀ found ∈ statusRead reads mv w, terminal found = false →
    ∀ status ∈ w.session, terminal status = false

/-- The loop has come to a status check that is not its first one. -/
def rechecks : Move → World → Bool
  | .resume, w =>
      match w.loop.control with
      | .checking => w.loop.currentSession.isSome
      | _ => false
  | _, _ => false

/-- The condition on a run: the loop checks the status again only while the committed status is not
terminal. -/
def RechecksActive (mv : Move) (w : World) : Prop :=
  rechecks mv w = true → ∀ status ∈ w.session, terminal status = false

instance (mv : Move) (w : World) : Decidable (RechecksActive mv w) :=
  inferInstanceAs (Decidable (_ → ∀ status ∈ w.session, _))

/-- The instance that the loop keeps alive was loaded before the session ended. -/
def HoldsActive (w : World) : Prop :=
  w.loop.control ≠ .closing → w.loop.control ≠ .ended →
    ∀ status ∈ w.loop.currentSession, terminal status = false

section Steps

variable {reads : Reads} {mv : Move} {ms : List Move} {w w' : World}

theorem statusRead_eq_some {found : SessionStatus} : statusRead reads mv w = some found ↔
    mv = .resume ∧ w.loop.control = .checking ∧
      getSession reads w.loop.currentSession w.session = some found := by
  unfold statusRead
  split
  · split <;> simp_all
  · simp_all

theorem endsComplete_iff (h : Coherent w) :
    EndsComplete reads mv w ↔ NoneSinceQuery reads mv w := by
  refine forall_congr' fun status => forall_congr' fun hread => forall_congr' fun _ =>
    forall_congr' fun m => forall_congr' fun hm => forall_congr' fun hafter => ?_
  have hcaught := h.reading.caughtUp (.inl (statusRead_eq_some.mp hread).2.1)
  constructor
  · intro hsent
    have hle : m.sequence ≤ w.loop.cursor := by
      by_contra hlt
      rw [h.reading.delivered.cursor_eq, not_le, foldl_max_lt] at hlt
      exact (hlt.2 _ (mem_sequences.mpr ⟨m, hsent, rfl⟩)).ne rfl
    omega
  · intro hle
    exact h.reading.delivered.passed m hm hafter (by omega)

/-- All committed messages come before the terminal event exactly in the runs in which none is
committed between the last query for a page and the status read. -/
theorem endsComplete_iff_noneSinceQuery (sessionId : SessionId) (history : History)
    (session : Option SessionStatus) (after : Nat) :
    Along (step reads) (EndsComplete reads) ms (start sessionId history session after) ↔
      Along (step reads) (NoneSinceQuery reads) ms (start sessionId history session after) :=
  along_congr (fun _ _ _ h hstep => Coherent.step h (happens hstep))
    (fun _ _ h => endsComplete_iff h) (coherent_start sessionId history session after)

/-- The message and the terminal status are committed between the query and the status read. -/
def lost : List Move :=
  [.resume, .resume, .append "review_sop" "assistant" "done" [], .commit, .publish,
    .setStatus .completed, .resume]

theorem not_forall_endsComplete : ¬ ∀ (sessionId : SessionId) (history : History)
    (session : Option SessionStatus) (after : Nat) (ms : List Move),
    Along (step .committed) InTime ms (start sessionId history session after) →
      Along (step .committed) (EndsComplete .committed) ms
        (start sessionId history session after) := by
  intro hforall
  have hinTime : Along (step .committed) InTime lost (start 1 ⟨[], rfl⟩ (some .active) 0) := by
    decide
  have hcomplete := hforall 1 ⟨[], rfl⟩ (some .active) 0 lost hinTime
  have hlate : ¬ Along (step .committed) (NoneSinceQuery .committed) lost
      (start 1 ⟨[], rfl⟩ (some .active) 0) := by decide
  exact hlate ((along_congr (fun _ _ _ h hstep => Coherent.step h (happens hstep))
    (fun _ _ h => endsComplete_iff h) (coherent_start 1 ⟨[], rfl⟩ (some .active) 0)).mp hcomplete)

theorem HoldsActive.of_eq (h : HoldsActive w)
    (hsession : w'.loop.currentSession = w.loop.currentSession)
    (hclosing : w.loop.control ≠ .closing) (hended : w.loop.control ≠ .ended) :
    HoldsActive w' := fun _ _ => hsession ▸ h hclosing hended

theorem HoldsActive.step (h : HoldsActive w) (hstep : Happens reads w mv w') : HoldsActive w' := by
  cases hstep with
  | publish =>
      simp only [HoldsActive, publish_frame]
      exact h
  | publishDelta =>
      simp only [HoldsActive, publish_frame]
      exact h
  | disconnect => exact fun _ hended => absurd rfl hended
  | timeout hcontrol => exact h.of_eq rfl (by simp [hcontrol]) (by simp [hcontrol])
  | resume hresume =>
      cases hresume with
      | refuse | leave => exact fun _ hended => absurd rfl hended
      | subscribe hcontrol | take hcontrol | round hcontrol =>
          exact h.of_eq rfl (by simp [hcontrol]) (by simp [hcontrol])
      | poll hcontrol =>
          refine h.of_eq ?_ (by simp [hcontrol]) (by simp [hcontrol])
          cases getMessagesAfter w.committed w.loop.cursor <;> rfl
      | @replay rest hcontrol =>
          refine h.of_eq ?_ (by simp [hcontrol]) (by simp [hcontrol])
          cases rest <;> rfl
      | check hcontrol =>
          cases getSession reads w.loop.currentSession w.session with
          | none => exact fun _ hended => absurd rfl hended
          | some status =>
              simp only [Loop.onSession]
              split
              · exact fun hclosing => absurd rfl hclosing
              · intro _ _ found hfound
                obtain rfl := Option.some.inj hfound
                simpa using ‹¬ terminal status = true›
  | _ => exact h

theorem passesActive_iff (h : HoldsActive w) :
    PassesActive .identityMap mv w ↔ RechecksActive mv w := by
  cases hrechecks : rechecks mv w with
  | true =>
      have hcheck : mv = .resume ∧ w.loop.control = .checking ∧
          ∃ held, w.loop.currentSession = some held := by
        unfold rechecks at hrechecks
        split at hrechecks
        · split at hrechecks
          · exact ⟨rfl, ‹_›, Option.isSome_iff_exists.mp hrechecks⟩
          · cases hrechecks
        · cases hrechecks
      obtain ⟨rfl, hcontrol, held, hheld⟩ := hcheck
      have hread : statusRead .identityMap .resume w = some held := by
        rw [statusRead_eq_some]
        exact ⟨rfl, hcontrol, by rw [hheld]; rfl⟩
      have hactive : terminal held = false :=
        h (by simp [hcontrol]) (by simp [hcontrol]) held hheld
      simp [PassesActive, RechecksActive, hrechecks, hread, hactive]
  | false =>
      refine iff_of_true (fun found hread hactive status hstatus => ?_)
        (by simp [RechecksActive, hrechecks])
      obtain ⟨rfl, hcontrol, hget⟩ := statusRead_eq_some.mp hread
      have hheld : w.loop.currentSession = none := by
        simpa [rechecks, hcontrol] using hrechecks
      rw [hheld] at hget
      obtain rfl := Option.some.inj (hstatus.symm.trans hget)
      exact hactive

/-- The loop never waits on behind a terminal status exactly in the runs in which every status check
but the first is made while the committed status is not terminal. -/
theorem passesActive_iff_rechecksActive (sessionId : SessionId) (history : History)
    (session : Option SessionStatus) (after : Nat) :
    Along (step .identityMap) (PassesActive .identityMap) ms
        (start sessionId history session after) ↔
      Along (step .identityMap) RechecksActive ms (start sessionId history session after) :=
  along_congr (fun _ _ _ h hstep => HoldsActive.step h (happens hstep))
    (fun _ _ h => passesActive_iff h) (fun _ _ _ h => by cases h)

/-- The session ends while the loop waits for the first time. -/
def unnoticed : List Move :=
  [.resume, .resume, .resume, .setStatus .completed, .timeout, .resume, .resume]

theorem not_forall_passesActive : ¬ ∀ (sessionId : SessionId) (history : History)
    (session : Option SessionStatus) (after : Nat) (ms : List Move),
    Along (step .identityMap) (PassesActive .identityMap) ms
      (start sessionId history session after) := by
  intro hforall
  have hpasses := hforall 1 ⟨[], rfl⟩ (some .active) 0 unnoticed
  have hlate : ¬ Along (step .identityMap) RechecksActive unnoticed
      (start 1 ⟨[], rfl⟩ (some .active) 0) := by decide
  exact hlate ((along_congr (fun _ _ _ h hstep => HoldsActive.step h (happens hstep))
    (fun _ _ h => passesActive_iff h) (fun _ _ _ h => by cases h)).mp hpasses)

end Steps

end ChangeQuality.SessionEnding
