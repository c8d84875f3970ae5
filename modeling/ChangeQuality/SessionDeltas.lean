import ChangeQuality.SessionDelivery

/-!
The deltas of a step that `SessionService.stream_events` yields: none comes after the message of its
step as long as no page of messages overtakes the deltas that wait in the queue.
-/

namespace ChangeQuality.SessionDeltas

open ChangeQuality.SopTables
open ChangeQuality.SequencedLog
open ChangeQuality.Runs
open ChangeQuality.SessionStream
open ChangeQuality.SessionDelivery

/-- The event is a delta of the message's step that was published before the message was
committed. -/
def Precedes (live : Live) (m : Message) : Prop :=
  match live.event with
  | .messageDelta delta =>
      (stepOf delta.additionalKwargs).isSome ∧
        stepOf delta.additionalKwargs = stepOf m.additionalKwargs ∧ live.publishedAt < m.sequence
  | _ => False

instance (live : Live) (m : Message) : Decidable (Precedes live m) := by
  unfold Precedes
  split <;> infer_instance

/-- The move yields no delta that was published before a message of its step was committed, when
that message was yielded already. -/
def YieldsNoStale (mv : Move) (w : World) : Prop :=
  ∀ live ∈ taken mv w, ∀ m ∈ w.loop.sent.filterMap messageOf, ¬ Precedes live m

/-- The messages of the page that the move reads. -/
def queried : Move → World → List Message
  | .resume, w =>
      match w.loop.control with
      | .polling => getMessagesAfter w.committed w.loop.cursor
      | _ => []
  | _, _ => []

/-- The condition on a run: when a page gives the loop a message, no earlier delta of its step waits
in the queue. -/
def PagesBehindDeltas (mv : Move) (w : World) : Prop :=
  ∀ m ∈ queried mv w, ∀ live ∈ w.queue, ¬ Precedes live m

instance (mv : Move) (w : World) : Decidable (YieldsNoStale mv w) :=
  inferInstanceAs (Decidable (∀ live ∈ taken mv w, ∀ m ∈ w.loop.sent.filterMap messageOf, _))

instance (mv : Move) (w : World) : Decidable (PagesBehindDeltas mv w) :=
  inferInstanceAs (Decidable (∀ m ∈ queried mv w, ∀ live ∈ w.queue, _))

/-- What the loop has or is about to yield is not preceded by a delta that waits in the queue. -/
structure Settled (w : World) : Prop where
  sent : ∀ m, .message m ∈ w.loop.sent → ∀ live ∈ w.queue, ¬ Precedes live m
  rest : ∀ rest, w.loop.control = .replaying rest → ∀ m ∈ rest, ∀ live ∈ w.queue, ¬ Precedes live m
  queue : w.queue.Pairwise fun a b => ∀ m, a.event = .message m → ¬ Precedes b m

variable {reads : Reads} {mv : Move} {ms : List Move} {w w' : World}

/-- What is published now follows the commit of every message that is there. -/
theorem not_precedes_published (hnumbered : Numbered (·.sequence) w.committed) {m : Message}
    (hm : m ∈ w.committed) (e : Event) : ¬ Precedes ⟨e, w.committed.length⟩ m := by
  have hle := (hnumbered.mem_bounds hm).2
  cases e with
  | messageDelta delta =>
      rintro ⟨-, -, hlt⟩
      dsimp only at hlt
      omega
  | _ => exact id

theorem mem_queue_committed (h : Coherent w) (hsub : w.loop.control.subscribed = true) {live : Live}
    (hlive : live ∈ w.queue) {m : Message} (hm : live.event = .message m) : m ∈ w.committed := by
  obtain ⟨base, -, hqueued, -⟩ := h.queueing hsub
  have hmem : m ∈ queued w.queue := List.mem_filterMap.mpr ⟨live, hlive, by simp [hm, messageOf]⟩
  rw [hqueued] at hmem
  exact List.mem_of_mem_take (List.mem_of_mem_drop hmem)

theorem Settled.publish (h : Settled w) (hcoherent : Coherent w) (e : Event) :
    Settled (w.publish e) := by
  unfold World.publish
  split
  · rename_i hsub
    have hlast : ∀ m ∈ w.committed, ¬ Precedes ⟨e, w.committed.length⟩ m :=
      fun m hm => not_precedes_published hcoherent.writing.numbered hm e
    refine ⟨fun m hm live hlive => ?_, fun rest hrest m hm live hlive => ?_, ?_⟩
    · rcases List.mem_append.mp hlive with hlive | hlive
      · exact h.sent m hm live hlive
      · obtain rfl := List.mem_singleton.mp hlive
        exact hlast m (hcoherent.reading.delivered.mem m hm)
    · rcases List.mem_append.mp hlive with hlive | hlive
      · exact h.rest rest hrest m hm live hlive
      · obtain rfl := List.mem_singleton.mp hlive
        have hbehind := (hcoherent.reading.page rest hrest).2
        exact hlast m (List.mem_of_mem_drop (hbehind.subset hm))
    · refine List.pairwise_append.mpr ⟨h.queue, List.pairwise_singleton _ _, ?_⟩
      intro a ha b hb m hm
      obtain rfl := List.mem_singleton.mp hb
      exact hlast m (mem_queue_committed hcoherent hsub ha hm)
  · exact h

/-- The loop yields the first message of a list that no waiting delta precedes. -/
theorem Settled.replay (h : Settled w) (loop : Loop) {page : List Message}
    (hsent : loop.sent = w.loop.sent)
    (hpage : ∀ m ∈ page, ∀ live ∈ w.queue, ¬ Precedes live m) :
    Settled { w with loop := loop.replay page } := by
  cases page with
  | nil => exact ⟨fun m hm => h.sent m (hsent ▸ hm), by simp [Loop.replay], h.queue⟩
  | cons m rest =>
      refine ⟨fun m' hm' => ?_, fun rest' hrest' m' hm' => ?_, h.queue⟩
      · rcases List.mem_append.mp (hsent ▸ hm' : Event.message m' ∈ w.loop.sent ++ [.message m]) with
          hm' | hm'
        · exact h.sent m' hm'
        · obtain rfl : m' = m := by simpa using hm'
          exact hpage m' (by simp)
      · obtain rfl := Control.replaying.inj hrest'
        exact hpage m' (by simp [hm'])

theorem Settled.resume (h : Settled w) (hallowed : PagesBehindDeltas .resume w)
    (hresume : Resumes reads w w') : Settled w' := by
  cases hresume with
  | refuse | round | leave => exact ⟨h.sent, by simp, h.queue⟩
  | subscribe => exact ⟨by simp, by simp, .nil⟩
  | poll hcontrol =>
      have hpage : ∀ m ∈ getMessagesAfter w.committed w.loop.cursor, ∀ live ∈ w.queue,
          ¬ Precedes live m := by
        simpa [PagesBehindDeltas, queried, hcontrol] using hallowed
      cases hempty : getMessagesAfter w.committed w.loop.cursor with
      | nil => exact ⟨h.sent, by simp [Loop.onMessages], h.queue⟩
      | cons m rest => exact h.replay { w.loop with horizon := w.committed.length } rfl (hempty ▸ hpage)
  | replay hcontrol => exact h.replay w.loop rfl (h.rest _ hcontrol)
  | check =>
      cases getSession reads w.loop.currentSession w.session with
      | none => exact ⟨h.sent, by simp [Loop.onSession], h.queue⟩
      | some status =>
          simp only [Loop.onSession]
          split
          · refine ⟨fun m hm => ?_, by simp, h.queue⟩
            exact h.sent m (by simpa using hm)
          · exact ⟨h.sent, by simp, h.queue⟩
  | @take live rest hcontrol hqueue =>
      obtain ⟨hhead, htail⟩ := List.pairwise_cons.mp (hqueue ▸ h.queue)
      refine ⟨fun m hm other hother => ?_, by simp [Loop.onLive], htail⟩
      rcases List.mem_append.mp hm with hm | hm
      · exact h.sent m hm other (hqueue ▸ List.mem_cons_of_mem _ hother)
      · exact hhead other hother m (List.mem_singleton.mp hm).symm

theorem Settled.step (h : Settled w) (hcoherent : Coherent w) (hallowed : PagesBehindDeltas mv w)
    (hstep : Happens reads w mv w') : Settled w' := by
  cases hstep with
  | publish => exact ⟨(h.publish hcoherent _).sent, (h.publish hcoherent _).rest,
      (h.publish hcoherent _).queue⟩
  | publishDelta => exact h.publish hcoherent _
  | resume hresume => exact h.resume hallowed hresume
  | timeout | disconnect => exact ⟨h.sent, by simp, h.queue⟩
  | _ => exact ⟨h.sent, h.rest, h.queue⟩

theorem Settled.yields (h : Settled w) : YieldsNoStale mv w := by
  intro live hlive m hm
  obtain ⟨-, -, hhead⟩ := taken_eq_some.mp hlive
  obtain ⟨e, hmem, he⟩ := List.mem_filterMap.mp hm
  obtain rfl : e = .message m := by cases e <;> simp_all [messageOf]
  exact h.sent m hmem live (List.mem_of_mem_head? hhead)

/-- No delta comes after a message of its step that was committed later, in every run in which no
page gives the loop a message while an earlier delta of its step waits in the queue. -/
theorem yieldsNoStale_of_pagesBehindDeltas (sessionId : SessionId) (history : History)
    (session : Option SessionStatus) (after : Nat)
    (halong : Along (step reads) PagesBehindDeltas ms (start sessionId history session after)) :
    Along (step reads) YieldsNoStale ms (start sessionId history session after) := by
  refine along_of_invariant (I := fun w => Coherent w ∧ Settled w) ?_ (fun _ _ h _ => h.2.yields)
    ⟨coherent_start sessionId history session after, ?_⟩ halong
  · intro mv w w' h hallowed hstep
    exact ⟨h.1.step (happens hstep), h.2.step h.1 hallowed (happens hstep)⟩
  · exact ⟨by simp [start], by simp [start], .nil⟩

def thinking : Delta where
  role := "assistant"
  content := "The"
  additionalKwargs := .obj [("step", .str "review_sop"), ("channel", .str "content")]

/-- A delta waits in the queue when the poll reads the message of its step. -/
def leftBehind : List Move :=
  [.resume, .resume, .resume, .publishDelta thinking, .timeout,
    .append "review_sop" "assistant" "The SOP" [], .commit, .resume, .publish, .resume, .resume,
    .resume, .resume]

theorem not_forall_yieldsNoStale : ¬ ∀ (reads : Reads) (sessionId : SessionId) (history : History)
    (session : Option SessionStatus) (after : Nat) (ms : List Move),
    Along (step reads) YieldsNoStale ms (start sessionId history session after) := by
  intro hforall
  have hstale : ¬ Along (step .committed) YieldsNoStale leftBehind
      (start 1 ⟨[], rfl⟩ (some .active) 0) := by decide
  exact hstale (hforall .committed 1 ⟨[], rfl⟩ (some .active) 0 leftBehind)

/-- The delta is taken from the queue before the message of its step is committed. -/
def inTurn : List Move :=
  [.resume, .resume, .resume, .publishDelta thinking, .resume,
    .append "review_sop" "assistant" "The SOP" [], .commit, .resume, .resume, .publish, .resume]

theorem yieldsNoStale_inTurn : Along (step .identityMap) YieldsNoStale inTurn
    (start 1 ⟨[], rfl⟩ (some .active) 0) :=
  yieldsNoStale_of_pagesBehindDeltas 1 ⟨[], rfl⟩ (some .active) 0 (by decide)

end ChangeQuality.SessionDeltas
