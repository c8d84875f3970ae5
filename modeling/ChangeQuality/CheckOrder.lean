import ChangeQuality.CheckStream

/-!
The order of the events that `SopQualityService.stream_events` yields. The loop does not advance its
cursor on a live event, so the next page gives the event a second time: the order is kept exactly by
the runs in which no page is queried after a live event.
-/

namespace ChangeQuality.CheckOrder

open ChangeQuality.SopTables
open ChangeQuality.SequencedLog
open ChangeQuality.Runs
open ChangeQuality.SessionStream (Reads)
open ChangeQuality.CheckStream

def sequences (sent : List SopQualityEvent) : List Nat :=
  sent.map (·.sequence)

/-- The sequences are strictly increasing and greater than `after`, and nothing comes after the first
terminal event. -/
structure Ordered (after : Nat) (sent : List SopQualityEvent) : Prop where
  ascending : Ascending after (sequences sent)
  endsTerminal : ∀ event ∈ sent.dropLast, event.type.terminal = false

/-- The condition on a run: an event taken from the queue was committed after the last query for a
page and is behind `after`, and no page is queried once an event was taken. -/
def ReadsOnce (mv : Move) (w : World) : Prop :=
  (∀ event ∈ taken mv w, w.loop.horizon < event.sequence ∧ w.loop.after < event.sequence) ∧
    (queries mv w = true → w.loop.tookLive = false)

instance (mv : Move) (w : World) : Decidable (ReadsOnce mv w) :=
  inferInstanceAs (Decidable ((∀ event ∈ taken mv w, _) ∧ (_ → _)))

/-- The writer is where its log says, and what is queued was committed. -/
structure Writing (w : World) : Prop where
  numbered : Numbered (·.sequence) w.committed
  appended : ∀ e, w.writer = .appended e → e.sequence = w.committed.length + 1
  committed : ∀ e, w.writer = .committed e → e ∈ w.committed
  queue : ∀ e ∈ w.queue, e ∈ w.committed

/-- The cursor follows the pages. Once a live event was yielded in order, its sequence is ahead of
the cursor until the loop queries for a page. -/
structure Reading (w : World) : Prop where
  after_le : w.loop.after ≤ w.loop.cursor
  cursor_le : w.loop.cursor ≤ max w.loop.after w.committed.length
  horizon : w.loop.horizon ≤ w.committed.length
  page : ∀ rest, w.loop.control = .replaying rest → rest <+: w.committed.drop w.loop.cursor
  caughtUp : w.loop.control = .checking ∨ w.loop.control = .waiting →
    w.loop.cursor = max w.loop.after w.loop.horizon
  replayed : w.loop.tookLive = false →
    w.loop.cursor = (sequences w.loop.sent).foldl max w.loop.after
  ahead : w.loop.tookLive = true → Ascending w.loop.after (sequences w.loop.sent) →
    (w.loop.control = .delivering ∨ w.loop.control = .polling ∨ w.loop.control = .closing ∨
      w.loop.control = .ended) ∧ ∃ e ∈ w.loop.sent, e ∈ w.committed ∧ w.loop.cursor < e.sequence

/-- A terminal event is the last one that the loop yields. -/
structure Ending (loop : Loop) : Prop where
  last : ∀ e ∈ loop.sent.dropLast, e.type.terminal = false
  going : loop.control ≠ .closing → loop.control ≠ .ended →
    ∀ e ∈ loop.sent, e.type.terminal = false

variable {reads : Reads} {mv : Move} {ms : List Move} {w w' : World}

@[simp] theorem sequences_concat (sent : List SopQualityEvent) (e : SopQualityEvent) :
    sequences (sent ++ [e]) = sequences sent ++ [e.sequence] := by
  simp [sequences]

theorem publish_frame (w : World) (e : SopQualityEvent) :
    (w.publish e).committed = w.committed ∧ (w.publish e).writer = w.writer ∧
      (w.publish e).loop = w.loop ∧ ∀ e' ∈ (w.publish e).queue, e' = e ∨ e' ∈ w.queue := by
  unfold World.publish
  split
  · refine ⟨rfl, rfl, rfl, fun e' he' => ?_⟩
    exact (List.mem_append.mp he').symm.imp_left List.mem_singleton.mp
  · exact ⟨rfl, rfl, rfl, fun _ h => .inr h⟩

theorem replay_frame (loop : Loop) (page : List SopQualityEvent) :
    (loop.replay page).after = loop.after ∧ (loop.replay page).horizon = loop.horizon ∧
      (loop.replay page).tookLive = loop.tookLive := by
  cases page <;> exact ⟨rfl, rfl, rfl⟩

theorem onEvents_frame (loop : Loop) (page : List SopQualityEvent) :
    (loop.onEvents page).after = loop.after ∧ (loop.onEvents page).horizon = loop.horizon ∧
      (loop.onEvents page).tookLive = loop.tookLive := by
  cases page <;> exact ⟨rfl, rfl, rfl⟩

section Writer

theorem Writing.resume (h : Writing w) (hresume : Resumes reads w w') : Writing w' := by
  cases hresume with
  | subscribe => exact ⟨h.numbered, h.appended, h.committed, by simp⟩
  | take _ hqueue =>
      refine ⟨h.numbered, h.appended, h.committed, fun e he => ?_⟩
      exact h.queue e (hqueue ▸ List.mem_cons_of_mem _ he)
  | _ => exact ⟨h.numbered, h.appended, h.committed, h.queue⟩

theorem Writing.step (h : Writing w) (hstep : Happens reads w mv w') : Writing w' := by
  cases hstep with
  | append =>
      refine ⟨h.numbered, fun e he => ?_, by simp [World.append], h.queue⟩
      obtain rfl := Writer.appended.inj he
      exact congrArg (· + 1) h.numbered.latest_eq
  | commit hwriter =>
      refine ⟨h.numbered.push (h.appended _ hwriter), by simp, fun e he => ?_, fun e he => ?_⟩
      · obtain rfl := Writer.committed.inj he
        simp
      · exact List.mem_append_left _ (h.queue e he)
  | publish hwriter =>
      obtain ⟨hcommitted, -, -, hqueue⟩ := publish_frame w _
      refine ⟨hcommitted ▸ h.numbered, by simp, by simp, fun e he => ?_⟩
      rw [show (World.publish w _).committed = w.committed from hcommitted]
      rcases hqueue e he with rfl | he
      · exact h.committed _ hwriter
      · exact h.queue e he
  | rollback | skipPublish => exact ⟨h.numbered, by simp, by simp, h.queue⟩
  | resume hresume => exact h.resume hresume
  | setStatus | timeout | disconnect => exact ⟨h.numbered, h.appended, h.committed, h.queue⟩

end Writer

section Ending

theorem Ending.moved {loop loop' : Loop} (h : Ending loop) (hsent : loop'.sent = loop.sent)
    (hclosing : loop.control = .closing → loop'.control = .ended)
    (hended : loop.control = .ended → loop'.control = .ended) : Ending loop' := by
  refine ⟨hsent ▸ h.last, fun hne hne' => hsent ▸ h.going (fun heq => ?_) fun heq => ?_⟩
  · exact hne' (hclosing heq)
  · exact hne' (hended heq)

/-- One more event is yielded while none of those before it was terminal. -/
theorem Ending.yield {loop loop' : Loop} (h : Ending loop) {e : SopQualityEvent} {next : Control}
    (hsent : loop'.sent = loop.sent ++ [e])
    (hcontrol : loop'.control = if e.type.terminal then .closing else next)
    (hclosing : loop.control ≠ .closing) (hended : loop.control ≠ .ended) : Ending loop' := by
  have hgoing := h.going hclosing hended
  refine ⟨by rw [hsent, List.dropLast_concat]; exact hgoing, fun hne _ e' he' => ?_⟩
  rw [hsent] at he'
  rcases List.mem_append.mp he' with he' | he'
  · exact hgoing e' he'
  · obtain rfl := List.mem_singleton.mp he'
    by_contra hterminal
    rw [Bool.not_eq_false] at hterminal
    simp [hterminal] at hcontrol
    exact hne hcontrol

theorem Ending.replay {loop : Loop} (h : Ending loop) (page : List SopQualityEvent)
    (hclosing : loop.control ≠ .closing) (hended : loop.control ≠ .ended) :
    Ending (loop.replay page) := by
  cases page with
  | nil => exact h.moved rfl (fun heq => absurd heq hclosing) (fun heq => absurd heq hended)
  | cons e rest => exact h.yield rfl rfl hclosing hended

theorem Ending.resume (h : Ending w.loop) (hresume : Resumes reads w w') : Ending w'.loop := by
  cases hresume with
  | refuse | leave => exact h.moved rfl (fun _ => rfl) (fun _ => rfl)
  | subscribe hcontrol | round hcontrol =>
      exact h.moved rfl (fun heq => by simp [hcontrol] at heq) (fun heq => by simp [hcontrol] at heq)
  | poll hcontrol =>
      have hpolled : Ending { w.loop with horizon := w.committed.length } :=
        h.moved rfl (fun heq => by simp [hcontrol] at heq) (fun heq => by simp [hcontrol] at heq)
      cases getEventsAfter w.committed w.loop.cursor with
      | nil =>
          exact hpolled.moved rfl (fun heq => by simp [hcontrol] at heq)
            (fun heq => by simp [hcontrol] at heq)
      | cons e rest => exact hpolled.replay (e :: rest) (by simp [hcontrol]) (by simp [hcontrol])
  | replay hcontrol => exact h.replay _ (by simp [hcontrol]) (by simp [hcontrol])
  | check hcontrol =>
      cases getCheck reads w.loop.check w.check <;>
        exact h.moved rfl (fun heq => by simp [hcontrol] at heq)
          (fun heq => by simp [hcontrol] at heq)
  | take hcontrol => exact h.yield rfl rfl (by simp [hcontrol]) (by simp [hcontrol])

theorem Ending.step (h : Ending w.loop) (hstep : Happens reads w mv w') : Ending w'.loop := by
  cases hstep with
  | publish => exact (publish_frame w _).2.2.1 ▸ h
  | resume hresume => exact h.resume hresume
  | timeout hcontrol =>
      exact h.moved rfl (fun heq => by simp [hcontrol] at heq) (fun heq => by simp [hcontrol] at heq)
  | disconnect => exact h.moved rfl (fun _ => rfl) (fun _ => rfl)
  | _ => exact h

end Ending

section Reader

theorem taken_eq_some {e : SopQualityEvent} (h : taken mv w = some e) :
    mv = .resume ∧ w.loop.control = .waiting := by
  unfold taken at h
  split at h
  · split at h
    · exact ⟨rfl, ‹_›⟩
    · cases h
  · cases h

theorem queries_eq_true (h : queries mv w = true) : mv = .resume ∧ w.loop.control = .polling := by
  unfold queries at h
  split at h
  · split at h
    · exact ⟨rfl, ‹_›⟩
    · cases h
  · cases h

theorem readsOnce_of_ne (h : mv = .resume → w.loop.control ≠ .waiting ∧ w.loop.control ≠ .polling) :
    ReadsOnce mv w := by
  refine ⟨fun e he => ?_, fun hqueries => ?_⟩
  · obtain ⟨hmv, hcontrol⟩ := taken_eq_some he
    exact absurd hcontrol (h hmv).1
  · obtain ⟨hmv, hcontrol⟩ := queries_eq_true hqueries
    exact absurd hcontrol (h hmv).2

theorem page_prefix (hnumbered : Numbered (·.sequence) w.committed) :
    getEventsAfter w.committed w.loop.cursor <+: w.committed.drop w.loop.cursor := by
  rw [getEventsAfter, hnumbered.pageAfter_eq]
  exact List.take_prefix _ _

/-- A page keeps the order of what was yielded when no live event is ahead of the cursor. -/
theorem ascending_replay (hnumbered : Numbered (·.sequence) w.committed) {loop : Loop}
    {page : List SopQualityEvent} (hpage : page <+: w.committed.drop loop.cursor)
    (hcursor : loop.cursor = (sequences loop.sent).foldl max loop.after) :
    Ascending loop.after (sequences (loop.replay page).sent) ↔
      Ascending loop.after (sequences loop.sent) := by
  cases page with
  | nil => exact Iff.rfl
  | cons m rest =>
      obtain ⟨-, hseq, -, -⟩ := hnumbered.next hpage
      change Ascending loop.after (sequences (loop.sent ++ [m])) ↔ _
      rw [sequences_concat, ascending_concat, ← hcursor]
      exact and_iff_left (by omega)

theorem ascending_of_concat {after : Nat} {sent : List SopQualityEvent} {e : SopQualityEvent}
    (h : Ascending after (sequences (sent ++ [e]))) : Ascending after (sequences sent) := by
  rw [sequences_concat] at h
  exact (ascending_concat.mp h).1

/-- Once a live event is ahead of the cursor, the next page breaks the order. -/
theorem not_ascending_page (h : Reading w) (hwriting : Writing w)
    (htook : w.loop.tookLive = true) :
    ¬ Ascending w.loop.after (sequences ({ w.loop with horizon := w.committed.length }.onEvents
      (getEventsAfter w.committed w.loop.cursor)).sent) := by
  intro hascending
  have hpage := page_prefix hwriting.numbered
  cases hempty : getEventsAfter w.committed w.loop.cursor with
  | nil =>
      rw [hempty] at hascending
      obtain ⟨-, e, -, hcommitted, hlt⟩ := h.ahead htook hascending
      have hdrop := hwriting.numbered.pageAfter_eq w.loop.cursor 100
      have hmem : e ∈ w.committed.drop w.loop.cursor :=
        hwriting.numbered.mem_drop.mpr ⟨hcommitted, hlt⟩
      rw [show pageAfter _ w.committed w.loop.cursor 100 = [] from hempty] at hdrop
      rw [(List.take_eq_nil_iff.mp hdrop.symm).resolve_left (by omega)] at hmem
      cases hmem
  | cons m rest =>
      rw [hempty] at hascending hpage
      obtain ⟨-, hseq, -, -⟩ := hwriting.numbered.next hpage
      change Ascending w.loop.after (sequences (w.loop.sent ++ [m])) at hascending
      obtain ⟨-, e, hsent, -, hlt⟩ := h.ahead htook (ascending_of_concat hascending)
      rw [sequences_concat, ascending_concat, foldl_max_lt] at hascending
      have hgt := hascending.2.2 e.sequence (List.mem_map_of_mem hsent)
      omega

/-- A step keeps the order exactly when it takes a fresh event, or queries before any was taken. -/
theorem ascending_resume (h : Reading w) (hwriting : Writing w) (hresume : Resumes reads w w') :
    Ascending w'.loop.after (sequences w'.loop.sent) ↔
      Ascending w.loop.after (sequences w.loop.sent) ∧ ReadsOnce .resume w := by
  cases hresume with
  | refuse hcontrol | subscribe hcontrol | round hcontrol | leave hcontrol =>
      exact (and_iff_left (readsOnce_of_ne (by simp [hcontrol]))).symm
  | check hcontrol =>
      refine Iff.trans ?_ (and_iff_left (readsOnce_of_ne (by simp [hcontrol]))).symm
      cases getCheck reads w.loop.check w.check <;> exact Iff.rfl
  | poll hcontrol =>
      have honce : ReadsOnce .resume w ↔ w.loop.tookLive = false := by
        simp [ReadsOnce, taken, queries, hcontrol]
      rw [honce, (onEvents_frame _ _).1]
      cases htook : w.loop.tookLive with
      | true =>
          exact iff_of_false (not_ascending_page h hwriting htook) (by simp)
      | false =>
          refine Iff.trans ?_ (and_iff_left rfl).symm
          have hpage := page_prefix hwriting.numbered
          cases hempty : getEventsAfter w.committed w.loop.cursor with
          | nil => exact Iff.rfl
          | cons m rest => exact ascending_replay hwriting.numbered (hempty ▸ hpage) (h.replayed htook)
  | @replay rest hcontrol =>
      refine Iff.trans ?_ (and_iff_left (readsOnce_of_ne (by simp [hcontrol]))).symm
      rw [(replay_frame w.loop _).1]
      cases htook : w.loop.tookLive with
      | false => exact ascending_replay hwriting.numbered (h.page _ hcontrol) (h.replayed htook)
      | true =>
          have hbroken : ¬ Ascending w.loop.after (sequences w.loop.sent) := fun hascending => by
            simpa [hcontrol] using (h.ahead htook hascending).1
          refine iff_of_false (fun hascending => hbroken ?_) hbroken
          cases rest with
          | nil => exact hascending
          | cons m rest => exact ascending_of_concat hascending
  | @take e rest hcontrol hqueue =>
      have honce : ReadsOnce .resume w ↔
          w.loop.horizon < e.sequence ∧ w.loop.after < e.sequence := by
        simp [ReadsOnce, taken, queries, hcontrol, hqueue]
      have hcaught := h.caughtUp (.inr hcontrol)
      rw [honce]
      change Ascending w.loop.after (sequences (w.loop.sent ++ [e])) ↔ _
      rw [sequences_concat, ascending_concat]
      refine and_congr_right fun hascending => ?_
      cases htook : w.loop.tookLive with
      | true => simpa [hcontrol] using (h.ahead htook hascending).1
      | false =>
          rw [← h.replayed htook, hcaught]
          omega

/-- The loop has gone to a place where only the cursor matters. -/
theorem Reading.moved (h : Reading w) (hcommitted : w'.committed = w.committed)
    (hafter : w'.loop.after = w.loop.after) (hcursor : w'.loop.cursor = w.loop.cursor)
    (hsent : w'.loop.sent = w.loop.sent) (htook : w'.loop.tookLive = w.loop.tookLive)
    (hhorizon : w'.loop.horizon ≤ w.committed.length)
    (hpage : ∀ rest, w'.loop.control ≠ .replaying rest)
    (hcaught : w'.loop.control = .checking ∨ w'.loop.control = .waiting →
      w'.loop.cursor = max w'.loop.after w'.loop.horizon)
    (hahead : w.loop.tookLive = true → Ascending w.loop.after (sequences w.loop.sent) →
      w'.loop.control = .delivering ∨ w'.loop.control = .polling ∨ w'.loop.control = .closing ∨
        w'.loop.control = .ended) : Reading w' := by
  refine ⟨by rw [hafter, hcursor]; exact h.after_le,
    by rw [hafter, hcursor, hcommitted]; exact h.cursor_le, hcommitted ▸ hhorizon,
    fun rest hrest => absurd hrest (hpage rest), hcaught, ?_, ?_⟩
  · rw [hafter, hcursor, hsent, htook]
    exact h.replayed
  · rw [hafter, hsent, htook, hcursor, hcommitted]
    exact fun htook hascending => ⟨hahead htook hascending, (h.ahead htook hascending).2⟩

theorem Reading.replay (h : Reading w) (hwriting : Writing w) (loop : Loop)
    {page : List SopQualityEvent} (hafter : loop.after = w.loop.after)
    (hcursor : loop.cursor = w.loop.cursor) (hsent : loop.sent = w.loop.sent)
    (htook : loop.tookLive = w.loop.tookLive) (hhorizon : loop.horizon ≤ w.committed.length)
    (hpage : page <+: w.committed.drop w.loop.cursor)
    (hbroken : w.loop.tookLive = true →
      ¬ Ascending w.loop.after (sequences (loop.replay page).sent)) :
    Reading { w with loop := loop.replay page } := by
  cases page with
  | nil =>
      refine h.moved rfl hafter hcursor hsent htook hhorizon (by simp [Loop.replay])
        (by simp [Loop.replay]) fun htook hascending => absurd hascending ?_
      exact hsent ▸ hbroken htook
  | cons m rest =>
      obtain ⟨-, hseq, hle, hrest⟩ := hwriting.numbered.next hpage
      have hmax : max loop.cursor m.sequence = w.loop.cursor + 1 := by omega
      have hafter_le := h.after_le
      refine ⟨?_, ?_, hhorizon, fun rest' hcontrol => ?_, fun hcontrol => ?_, fun hnone => ?_,
        fun hlive hascending => ?_⟩
      · simp only [Loop.replay]
        omega
      · simp only [Loop.replay]
        omega
      · simp only [Loop.replay] at hcontrol
        split at hcontrol
        · cases hcontrol
        · obtain rfl := Control.replaying.inj hcontrol
          simp only [Loop.replay, hmax]
          exact hrest
      · simp only [Loop.replay] at hcontrol
        split at hcontrol <;> simp at hcontrol
      · have hfold := h.replayed (htook ▸ hnone)
        simp only [Loop.replay, sequences_concat, List.foldl_append, hsent, hafter, hcursor, ← hfold]
        rfl
      · have hlive : w.loop.tookLive = true := htook ▸ hlive
        exact absurd (hafter ▸ hascending) (hbroken hlive)

theorem Reading.resume (h : Reading w) (hwriting : Writing w) (hresume : Resumes reads w w') :
    Reading w' := by
  have hiff := ascending_resume h hwriting hresume
  cases hresume with
  | refuse hcontrol =>
      exact h.moved rfl rfl rfl rfl rfl h.horizon (by simp) (by simp) fun _ _ => by simp
  | leave hcontrol =>
      exact h.moved rfl rfl rfl rfl rfl h.horizon (by simp) (by simp) fun _ _ => by simp
  | round hcontrol =>
      exact h.moved rfl rfl rfl rfl rfl h.horizon (by simp) (by simp) fun _ _ => by simp
  | subscribe hcontrol =>
      exact h.moved rfl rfl rfl rfl rfl le_rfl (by simp) (by simp) fun _ _ => by simp
  | poll hcontrol =>
      have hpage := page_prefix hwriting.numbered
      have hbroken := not_ascending_page h hwriting
      cases hempty : getEventsAfter w.committed w.loop.cursor with
      | nil =>
          have hlength : w.committed.length ≤ w.loop.cursor := by
            have hdrop := hwriting.numbered.pageAfter_eq w.loop.cursor 100
            rw [show pageAfter _ w.committed w.loop.cursor 100 = [] from hempty] at hdrop
            simpa using hdrop.symm
          rw [hempty] at hbroken
          have hle := h.cursor_le
          have hge := h.after_le
          refine h.moved rfl rfl rfl rfl rfl le_rfl (by simp [Loop.onEvents]) (fun _ => ?_)
            fun htook hascending => absurd hascending (hbroken htook)
          simp only [Loop.onEvents]
          omega
      | cons m rest =>
          rw [hempty] at hbroken hpage
          exact h.replay hwriting { w.loop with horizon := w.committed.length } rfl rfl rfl rfl
            le_rfl hpage hbroken
  | @replay rest hcontrol =>
      refine h.replay hwriting w.loop rfl rfl rfl rfl h.horizon (h.page _ hcontrol) ?_
      intro htook hascending
      rw [(replay_frame w.loop rest).1] at hiff
      simpa [hcontrol] using (h.ahead htook (hiff.mp hascending).1).1
  | check hcontrol =>
      have hahead : w.loop.tookLive = true → ¬ Ascending w.loop.after (sequences w.loop.sent) :=
        fun htook hascending => by simpa [hcontrol] using (h.ahead htook hascending).1
      have hcaught := h.caughtUp (.inl hcontrol)
      cases getCheck reads w.loop.check w.check with
      | none =>
          exact h.moved rfl rfl rfl rfl rfl h.horizon (by simp [Loop.onCheck]) (by simp [Loop.onCheck])
            fun htook hascending => absurd hascending (hahead htook)
      | some status =>
          refine h.moved rfl rfl rfl rfl rfl h.horizon (fun rest => ?_) (fun _ => hcaught)
            fun htook hascending => absurd hascending (hahead htook)
          simp only [Loop.onCheck]
          split <;> simp
  | @take e rest hcontrol hqueue =>
      refine ⟨h.after_le, h.cursor_le, h.horizon, fun rest' hrest' => ?_, fun hmoved => ?_,
        fun hnone => (by cases hnone), fun _ hascending => ?_⟩
      · simp only [Loop.onLive] at hrest'
        split at hrest' <;> cases hrest'
      · simp only [Loop.onLive] at hmoved
        split at hmoved <;> simp at hmoved
      · obtain ⟨-, honce⟩ := hiff.mp hascending
        have hfresh := honce.1 e (by simp [taken, hcontrol, hqueue])
        have hcaught := h.caughtUp (.inr hcontrol)
        refine ⟨?_, e, by simp [Loop.onLive], hwriting.queue e (by simp [hqueue]), ?_⟩
        · simp only [Loop.onLive]
          split <;> simp
        · change w.loop.cursor < e.sequence
          omega

end Reader

section Runs

/-- What holds in every state of a run. -/
structure Coherent (w : World) : Prop where
  writing : Writing w
  reading : Reading w
  ending : Ending w.loop

theorem Reading.congr (h : Reading w) (hcommitted : w'.committed = w.committed)
    (hloop : w'.loop = w.loop) : Reading w' := by
  refine ⟨?_, ?_, ?_, ?_, ?_, ?_, ?_⟩ <;> simp only [hcommitted, hloop]
  · exact h.after_le
  · exact h.cursor_le
  · exact h.horizon
  · exact h.page
  · exact h.caughtUp
  · exact h.replayed
  · exact h.ahead

theorem Reading.commit (h : Reading w) (e : SopQualityEvent) (writer : Writer) :
    Reading { w with committed := w.committed ++ [e], writer } := by
  have hgrow : w.committed.length ≤ (w.committed ++ [e]).length := by simp
  have hle := h.cursor_le
  refine ⟨h.after_le, by simp only; omega, h.horizon.trans hgrow, fun rest hrest => ?_,
    h.caughtUp, h.replayed, fun htook hascending => ?_⟩
  · simp only [List.drop_append]
    exact (h.page rest hrest).trans (List.prefix_append _ _)
  · obtain ⟨hcontrol, e', hsent, hcommitted, hlt⟩ := h.ahead htook hascending
    exact ⟨hcontrol, e', hsent, List.mem_append_left _ hcommitted, hlt⟩

theorem Reading.step (h : Reading w) (hwriting : Writing w) (hstep : Happens reads w mv w') :
    Reading w' := by
  cases hstep with
  | commit => exact h.commit _ _
  | publish => exact h.congr (publish_frame w _).1 (publish_frame w _).2.2.1
  | resume hresume => exact h.resume hwriting hresume
  | timeout | disconnect =>
      exact h.moved rfl rfl rfl rfl rfl h.horizon (by simp) (by simp) fun _ _ => by simp
  | _ => exact h.congr rfl rfl

theorem Coherent.step (h : Coherent w) (hstep : Happens reads w mv w') : Coherent w' :=
  ⟨h.writing.step hstep, h.reading.step h.writing hstep, h.ending.step hstep⟩

theorem coherent_start (checkId : CheckId) (broadcast : Bool) (history : History)
    (check : Option CheckStatus) (after : Nat) :
    Coherent (start checkId broadcast history check after) where
  writing := ⟨history.numbered, by simp [start], by simp [start], by simp [start]⟩
  reading := ⟨le_rfl, le_max_left _ _, le_rfl, by simp [start], by simp [start], fun _ => rfl,
    by simp [start]⟩
  ending := ⟨by simp [start], by simp [start]⟩

theorem ascending_step (h : Coherent w) (hstep : Happens reads w mv w') :
    Ascending w'.loop.after (sequences w'.loop.sent) ↔
      Ascending w.loop.after (sequences w.loop.sent) ∧ ReadsOnce mv w := by
  have honce : mv ≠ .resume → ReadsOnce mv w := fun hne =>
    readsOnce_of_ne fun heq => absurd heq hne
  cases hstep with
  | resume hresume => exact ascending_resume h.reading h.writing hresume
  | publish =>
      rw [show (World.publish w _).loop = w.loop from (publish_frame w _).2.2.1]
      exact (and_iff_left (honce (by simp))).symm
  | _ => exact (and_iff_left (honce (by simp))).symm

theorem after_step (hstep : Happens reads w mv w') : w'.loop.after = w.loop.after := by
  cases hstep with
  | resume hresume =>
      cases hresume with
      | poll => exact (onEvents_frame _ _).1
      | replay => exact (replay_frame _ _).1
      | check => cases getCheck reads w.loop.check w.check <;> rfl
      | _ => rfl
  | publish => exact congrArg Loop.after (publish_frame w _).2.2.1
  | _ => rfl

/-- The events come in order, once each and none after a terminal one, exactly in the runs in which
the loop takes only events that its pages have not given it, and queries for no page after that. -/
theorem ordered_iff_readsOnce (checkId : CheckId) (broadcast : Bool) (history : History)
    (check : Option CheckStatus) (after : Nat)
    (hrun : run (step reads) ms (start checkId broadcast history check after) = some w) :
    Ordered after w.loop.sent ↔
      Along (step reads) ReadsOnce ms (start checkId broadcast history check after) := by
  have hstart := coherent_start checkId broadcast history check after
  have hafter : w.loop.after = after := run_invariant (I := fun w => w.loop.after = after)
    (fun _ _ _ h hstep => (after_step (happens hstep)).trans h) rfl hrun
  have hcoherent : Coherent w :=
    run_invariant (fun _ _ _ h hstep => Coherent.step h (happens hstep)) hstart hrun
  have hiff := run_iff_along (P := fun w => Ascending w.loop.after (sequences w.loop.sent))
    (fun _ _ _ h hstep => Coherent.step h (happens hstep))
    (fun _ _ _ h hstep => ascending_step h (happens hstep)) hstart hrun
  have hnone : Ascending after (sequences []) := ⟨.nil, by simp [sequences]⟩
  rw [hafter] at hiff
  constructor
  · exact fun h => (hiff.mp h.ascending).2
  · exact fun h => ⟨hiff.mpr ⟨hnone, h⟩, hcoherent.ending.last⟩

/-- An event is committed and published while the loop waits, and the loop goes on. -/
def repeated : List Move :=
  [.resume, .resume, .resume, .append .started none none none none, .commit, .publish, .resume,
    .resume, .resume]

theorem not_forall_ordered_check : ¬ ∀ (reads : Reads) (checkId : CheckId) (broadcast : Bool)
    (history : History) (check : Option CheckStatus) (after : Nat) (ms : List Move) (w : World),
    run (step reads) ms (start checkId broadcast history check after) = some w →
      Ordered after w.loop.sent := by
  intro hforall
  have hrun : ∃ w, run (step .committed) repeated (start 1 true ⟨[], rfl⟩ (some .pending) 0) =
      some w ∧ sequences w.loop.sent = [1, 1] := ⟨_, rfl, rfl⟩
  obtain ⟨w, hrun, hsent⟩ := hrun
  have hascending := (hforall _ _ _ _ _ _ _ w hrun).ascending.1
  simp [hsent] at hascending

/-- A terminal event is taken from the queue and ends the stream. -/
def endsLive : List Move :=
  [.append .started none none none none, .commit, .publish, .resume, .resume, .resume, .resume,
    .resume, .append .completed none none none none, .commit, .setStatus .succeeded, .publish,
    .resume, .resume]

theorem ordered_endsLive : ∃ w,
    run (step .identityMap) endsLive (start 1 true ⟨[], rfl⟩ (some .running) 0) = some w ∧
      sequences w.loop.sent = [1, 2] ∧ Ordered 0 w.loop.sent := by
  have hrun : ∃ w, run (step .identityMap) endsLive (start 1 true ⟨[], rfl⟩ (some .running) 0) =
      some w ∧ sequences w.loop.sent = [1, 2] := ⟨_, rfl, rfl⟩
  obtain ⟨w, hrun, hsent⟩ := hrun
  have halong : Along (step .identityMap) ReadsOnce endsLive
      (start 1 true ⟨[], rfl⟩ (some .running) 0) := by decide
  exact ⟨w, hrun, hsent,
    (ordered_iff_readsOnce 1 true ⟨[], rfl⟩ (some .running) 0 hrun).mpr halong⟩

end Runs

end ChangeQuality.CheckOrder
