import ChangeQuality.SessionStream

/-!
Delivery of a session's messages: what holds of the log, the queue and the cursor in every run of
`SessionService.stream_events`, and when no message is delivered twice.
-/

namespace ChangeQuality.SessionDelivery

open ChangeQuality.SopTables
open ChangeQuality.SequencedLog
open ChangeQuality.Runs
open ChangeQuality.SessionStream

def messageOf : Event → Option Message
  | .message message => some message
  | _ => none

/-- The messages among the events that wait in the queue. -/
def queued (queue : List Live) : List Message :=
  queue.filterMap fun live => messageOf live.event

/-- The sequences of the `message` events among those yielded. -/
def sequences (sent : List Event) : List Nat :=
  sent.filterMap messageEventSequence

/-- How many messages the writer has published. -/
def published (w : World) : Nat :=
  match w.writer with
  | .committed _ => w.committed.length - 1
  | _ => w.committed.length

/-- The writer is where its log says. -/
structure Writing (w : World) : Prop where
  numbered : Numbered (·.sequence) w.committed
  appended : ∀ m, w.writer = .appended m → m.sequence = w.committed.length + 1
  committed : ∀ m, w.writer = .committed m → m ∈ w.committed ∧ m.sequence = w.committed.length

/-- The queue holds the published messages behind some place, and what is before that place is
behind the cursor or was committed before the last query. -/
def Queueing (w : World) : Prop :=
  w.loop.control.subscribed = true → ∃ base ≤ published w,
    queued w.queue = (w.committed.take (published w)).drop base ∧
      base ≤ max w.loop.cursor w.loop.horizon

/-- The cursor is the greatest sequence that was yielded, and no message before it was left out. -/
structure Delivered (committed : List Message) (after cursor : Nat) (sent : List Event) : Prop where
  cursor_eq : cursor = (sequences sent).foldl max after
  mem : ∀ m, .message m ∈ sent → m ∈ committed
  passed : ∀ m ∈ committed, after < m.sequence → m.sequence ≤ cursor → .message m ∈ sent

structure Reading (w : World) : Prop where
  delivered : Delivered w.committed w.loop.after w.loop.cursor w.loop.sent
  horizon : w.loop.horizon ≤ w.committed.length
  page : ∀ rest, w.loop.control = .replaying rest →
    w.loop.cursor ≤ w.committed.length ∧ rest <+: w.committed.drop w.loop.cursor
  caughtUp : w.loop.control = .checking ∨ w.loop.control = .waiting →
    w.loop.cursor = max w.loop.after w.loop.horizon

structure Coherent (w : World) : Prop where
  writing : Writing w
  queueing : Queueing w
  reading : Reading w

section Values

variable {committed : List Message} {after cursor : Nat} {sent : List Event} {m : Message}
  {e : Event}

@[simp] theorem sequences_message :
    sequences (sent ++ [.message m]) = sequences sent ++ [m.sequence] := by
  simp [sequences, messageEventSequence]

theorem sequences_other (he : messageEventSequence e = none) :
    sequences (sent ++ [e]) = sequences sent := by
  simp [sequences, he]

theorem mem_sequences {s : Nat} : s ∈ sequences sent ↔ ∃ m, .message m ∈ sent ∧ m.sequence = s := by
  simp only [sequences, List.mem_filterMap]
  constructor
  · rintro ⟨e, he, hs⟩
    cases e with
    | message m => exact ⟨m, he, Option.some.inj hs⟩
    | _ => simp [messageEventSequence] at hs
  · rintro ⟨m, hm, rfl⟩
    exact ⟨.message m, hm, rfl⟩

namespace Delivered

theorem after_le (h : Delivered committed after cursor sent) : after ≤ cursor :=
  h.cursor_eq ▸ le_foldl_max _ _

theorem cursor_le (h : Delivered committed after cursor sent)
    (hnumbered : Numbered (·.sequence) committed) : cursor ≤ max after committed.length := by
  rw [h.cursor_eq, ← Nat.lt_succ_iff, foldl_max_lt]
  refine ⟨by omega, fun s hs => ?_⟩
  obtain ⟨m, hm, rfl⟩ := mem_sequences.mp hs
  have := (hnumbered.mem_bounds (h.mem m hm)).2
  omega

theorem start : Delivered committed after after [] :=
  ⟨rfl, by simp, fun _ _ h h' => absurd h h'.not_gt⟩

theorem other (h : Delivered committed after cursor sent) (he : messageOf e = none) :
    Delivered committed after cursor (sent ++ [e]) := by
  have hseq : messageEventSequence e = none := by cases e <;> simp_all [messageOf, messageEventSequence]
  refine ⟨?_, fun m hm => ?_, fun m hm h₁ h₂ => ?_⟩
  · rw [sequences_other hseq]
    exact h.cursor_eq
  · rcases List.mem_append.mp hm with hm | hm
    · exact h.mem m hm
    · simp [← List.mem_singleton.mp hm, messageOf] at he
  · exact List.mem_append_left _ (h.passed m hm h₁ h₂)

/-- The next message, or one that was passed already. -/
theorem message (h : Delivered committed after cursor sent)
    (hnumbered : Numbered (·.sequence) committed) (hm : m ∈ committed)
    (hnext : m.sequence ≤ cursor + 1) :
    Delivered committed after (max cursor m.sequence) (sent ++ [.message m]) := by
  refine ⟨?_, fun m' hm' => ?_, fun m' hm' h₁ h₂ => ?_⟩
  · rw [sequences_message, List.foldl_append, ← h.cursor_eq]
    rfl
  · rcases List.mem_append.mp hm' with hm' | hm'
    · exact h.mem m' hm'
    · obtain rfl : m' = m := by simpa using hm'
      exact hm
  · by_cases hcursor : m'.sequence ≤ cursor
    · exact List.mem_append_left _ (h.passed m' hm' h₁ hcursor)
    · have hsame : m'.sequence = m.sequence := by omega
      have hplace := (hnumbered.mem_iff.mp hm').2
      rw [hsame, (hnumbered.mem_iff.mp hm).2] at hplace
      obtain rfl := Option.some.inj hplace
      simp

/-- The log grows at its end. -/
theorem grow (h : Delivered committed after cursor sent)
    (hnumbered : Numbered (·.sequence) committed) (hm : m.sequence = committed.length + 1) :
    Delivered (committed ++ [m]) after cursor sent := by
  refine ⟨h.cursor_eq, fun m' hm' => List.mem_append_left _ (h.mem m' hm'), fun m' hm' h₁ h₂ => ?_⟩
  rcases List.mem_append.mp hm' with hm' | hm'
  · exact h.passed m' hm' h₁ h₂
  · obtain rfl := List.mem_singleton.mp hm'
    have := h.cursor_le hnumbered
    omega

end Delivered

end Values

section Steps

variable {reads : Reads} {mv : Move} {w w' : World}

/-- A published message is in the log. -/
theorem Queueing.head (h : Queueing w) (hsubscribed : w.loop.control.subscribed = true)
    (hwriting : Writing w) {live : Live} {rest : List Live} {m : Message}
    (hqueue : w.queue = live :: rest) (hm : live.event = .message m) :
    m ∈ w.committed ∧ m.sequence ≤ max w.loop.cursor w.loop.horizon + 1 := by
  obtain ⟨base, -, hqueued, hle⟩ := h hsubscribed
  have hcons : m :: queued rest = (w.committed.take (published w)).drop base := by
    rw [← hqueued, hqueue]
    simp [queued, hm, messageOf]
  have hget : (w.committed.take (published w))[base]? = some m := by
    have := congrArg List.head? hcons
    simpa [List.head?_drop] using this.symm
  have hlt : base < (w.committed.take (published w)).length := by
    by_contra hge
    rw [List.getElem?_eq_none (not_lt.mp hge)] at hget
    cases hget
  have hlog : w.committed[base]? = some m := by
    rw [List.getElem?_take] at hget
    split at hget
    · exact hget
    · cases hget
  have hmem : m ∈ w.committed := List.mem_of_getElem? hlog
  have hbase : base < w.committed.length := (List.length_take_le' _ _).trans_lt' hlt
  have hseq : m.sequence = base + 1 := by
    obtain ⟨_, rfl⟩ := List.getElem?_eq_some_iff.mp hlog
    exact hwriting.numbered.getElem hbase
  exact ⟨hmem, by omega⟩

/-- The loop leaves the writer and its log alone. -/
theorem resumes_frame (h : Resumes reads w w') :
    w'.committed = w.committed ∧ w'.writer = w.writer := by
  cases h <;> exact ⟨rfl, rfl⟩

theorem publish_frame (w : World) (e : Event) :
    (w.publish e).committed = w.committed ∧ (w.publish e).writer = w.writer ∧
      (w.publish e).loop = w.loop := by
  unfold World.publish
  split <;> exact ⟨rfl, rfl, rfl⟩

theorem queued_publish (e : Event) (h : w.loop.control.subscribed = true) :
    queued (w.publish e).queue = queued w.queue ++ (messageOf e).toList := by
  cases he : messageOf e <;> simp [World.publish, h, queued, he]

theorem Writing.congr (h : Writing w) (hcommitted : w'.committed = w.committed)
    (hwriter : w'.writer = w.writer) : Writing w' :=
  ⟨hcommitted ▸ h.numbered, by rw [hcommitted, hwriter]; exact h.appended,
    by rw [hcommitted, hwriter]; exact h.committed⟩

theorem Writing.idle (hnumbered : Numbered (·.sequence) w'.committed) (h : w'.writer = .idle) :
    Writing w' :=
  ⟨hnumbered, by simp [h], by simp [h]⟩

theorem Writing.step (h : Writing w) (hstep : Happens reads w mv w') : Writing w' := by
  cases hstep with
  | append =>
      refine ⟨h.numbered, fun m hm => ?_, fun m hm => (nomatch hm)⟩
      obtain rfl := Writer.appended.inj hm
      exact congrArg (· + 1) h.numbered.latest_eq
  | commit hwriter =>
      have hseq := h.appended _ hwriter
      refine ⟨h.numbered.push hseq, fun m hm => (nomatch hm), fun m hm => ?_⟩
      obtain rfl := Writer.committed.inj hm
      exact ⟨by simp, by simpa using hseq⟩
  | rollback => exact .idle h.numbered rfl
  | publish => exact .idle ((publish_frame w _).1 ▸ h.numbered) rfl
  | publishDelta => exact h.congr (publish_frame w _).1 (publish_frame w _).2.1
  | resume hresume => exact h.congr (resumes_frame hresume).1 (resumes_frame hresume).2
  | setStatus | timeout | disconnect => exact h.congr rfl rfl

theorem Queueing.congr (h : Queueing w)
    (hsubscribed : w'.loop.control.subscribed = true → w.loop.control.subscribed = true)
    (hqueue : queued w'.queue = queued w.queue) (hpublished : published w' = published w)
    (hlog : w'.committed.take (published w) = w.committed.take (published w))
    (hle : max w.loop.cursor w.loop.horizon ≤ max w'.loop.cursor w'.loop.horizon) :
    Queueing w' := by
  intro hsub
  obtain ⟨base, hbase, hqueued, hcursor⟩ := h (hsubscribed hsub)
  exact ⟨base, hpublished ▸ hbase, by rw [hqueue, hpublished, hlog, hqueued], hcursor.trans hle⟩

theorem published_le (w : World) : published w ≤ w.committed.length := by
  unfold published
  split <;> omega

theorem onMessages_horizon (loop : Loop) (page : List Message) :
    (loop.onMessages page).horizon = loop.horizon ∧ (loop.onMessages page).after = loop.after ∧
      loop.cursor ≤ (loop.onMessages page).cursor := by
  cases page <;> simp [Loop.onMessages, Loop.replay]

theorem replay_horizon (loop : Loop) (page : List Message) :
    (loop.replay page).horizon = loop.horizon ∧ (loop.replay page).after = loop.after ∧
      loop.cursor ≤ (loop.replay page).cursor := by
  cases page <;> simp [Loop.replay]

theorem onSession_frame (loop : Loop) (found : Option SessionStatus) :
    (loop.onSession found).horizon = loop.horizon ∧ (loop.onSession found).after = loop.after ∧
      (loop.onSession found).cursor = loop.cursor := by
  cases found with
  | none => exact ⟨rfl, rfl, rfl⟩
  | some status =>
      unfold Loop.onSession
      dsimp only
      split <;> exact ⟨rfl, rfl, rfl⟩

theorem Queueing.publish (h : Queueing w) (hwriting : Writing w) {m : Message}
    (hwriter : w.writer = .committed m) :
    Queueing { w.publish (.message m) with writer := .idle } := by
  obtain ⟨hcommitted, -, hloop⟩ := publish_frame w (.message m)
  intro hsub
  have hsub : w.loop.control.subscribed = true := by simpa [hloop] using hsub
  obtain ⟨base, hbase, hqueued, hcursor⟩ := h hsub
  obtain ⟨hmem, hseq⟩ := hwriting.committed m hwriter
  have hbefore : published w = w.committed.length - 1 := by simp [published, hwriter]
  have hlast : w.committed[w.committed.length - 1]? = some m := by
    rw [← hseq]
    exact (hwriting.numbered.mem_iff.mp hmem).2
  have hpos : 0 < w.committed.length := List.length_pos_of_mem hmem
  have htake : w.committed.take (w.committed.length - 1) ++ [m] = w.committed := by
    rw [← Option.toList_some, ← hlast, ← List.take_add_one, Nat.sub_add_cancel hpos]
    exact List.take_length
  refine ⟨base, ?_, ?_, by simpa [hloop] using hcursor⟩
  · simp only [published, hcommitted]
    omega
  · simp only [published, hcommitted, queued_publish _ hsub, List.take_length, messageOf]
    rw [hqueued, hbefore, Option.toList_some, ← List.drop_append_of_le_length, htake]
    simp only [List.length_take]
    omega

theorem Queueing.take (h : Queueing w) (hwriting : Writing w) {live : Live} {rest : List Live}
    (hcontrol : w.loop.control = .waiting) (hqueue : w.queue = live :: rest) :
    Queueing { w with queue := rest, loop := w.loop.onLive live.event } := by
  intro _
  have hsub : w.loop.control.subscribed = true := by rw [hcontrol]; rfl
  obtain ⟨base, hbase, hqueued, hcursor⟩ := h hsub
  cases hlive : messageOf live.event with
  | none =>
      have hseq : messageEventSequence live.event = none := by
        cases he : live.event <;> simp_all [messageOf, messageEventSequence]
      refine ⟨base, hbase, ?_, by simpa [Loop.onLive, hseq] using hcursor⟩
      change queued rest = _
      rw [← show queued w.queue = queued rest by simp [queued, hqueue, hlive]]
      exact hqueued
  | some m =>
      have hevent : live.event = .message m := by cases he : live.event <;> simp_all [messageOf]
      have hcons : m :: queued rest = (w.committed.take (published w)).drop base := by
        rw [← hqueued]
        simp [queued, hqueue, hevent, messageOf]
      have hlt : base < (w.committed.take (published w)).length := by
        by_contra hge
        simp [List.drop_eq_nil_of_le (not_lt.mp hge)] at hcons
      rw [List.drop_eq_getElem_cons hlt] at hcons
      obtain ⟨hm, hrest⟩ := List.cons.inj hcons
      have hlog : base < w.committed.length := by
        have := published_le w
        simp only [List.length_take] at hlt
        omega
      have hseq : m.sequence = base + 1 := by
        rw [hm, List.getElem_take]
        exact hwriting.numbered.getElem hlog
      refine ⟨base + 1, ?_, hrest, ?_⟩
      · change base + 1 ≤ published w
        simp only [List.length_take] at hlt
        omega
      · simp only [Loop.onLive, hevent, messageEventSequence, Option.elim]
        omega

theorem Queueing.resume (h : Queueing w) (hwriting : Writing w) (hresume : Resumes reads w w') :
    Queueing w' := by
  cases hresume with
  | refuse | leave => exact fun hsub => by cases hsub
  | subscribe =>
      have := published_le w
      refine fun _ => ⟨published w, le_rfl, ?_, by simp only; omega⟩
      exact (List.drop_eq_nil_of_le (List.length_take_le _ _)).symm
  | poll hcontrol =>
      obtain ⟨hhorizon, -, -⟩ := onMessages_horizon { w.loop with horizon := w.committed.length }
        (getMessagesAfter w.committed w.loop.cursor)
      intro _
      obtain ⟨base, hbase, hqueued, -⟩ := h (by rw [hcontrol]; rfl)
      have := published_le w
      refine ⟨base, hbase, hqueued, ?_⟩
      simp only [hhorizon]
      omega
  | @replay rest hcontrol =>
      obtain ⟨hhorizon, -, hcursor⟩ := replay_horizon w.loop rest
      refine h.congr (fun _ => by rw [hcontrol]; rfl) rfl rfl rfl ?_
      simp only [hhorizon]
      omega
  | check hcontrol =>
      obtain ⟨hhorizon, -, hcursor⟩ := onSession_frame w.loop _
      refine h.congr (fun _ => by rw [hcontrol]; rfl) rfl rfl rfl ?_
      rw [hhorizon, hcursor]
  | take hcontrol hqueue => exact h.take hwriting hcontrol hqueue
  | round hcontrol => exact h.congr (fun _ => by rw [hcontrol]; rfl) rfl rfl rfl le_rfl

theorem Queueing.step (h : Queueing w) (hwriting : Writing w) (hstep : Happens reads w mv w') :
    Queueing w' := by
  cases hstep with
  | append hwriter =>
      exact h.congr id rfl (by simp [published, World.append, hwriter]) rfl le_rfl
  | commit hwriter =>
      refine h.congr id rfl (by simp [published, hwriter]) ?_ le_rfl
      simp [published, hwriter]
  | rollback hwriter => exact h.congr id rfl (by simp [published, hwriter]) rfl le_rfl
  | publish hwriter => exact h.publish hwriting hwriter
  | publishDelta hwriter =>
      obtain ⟨hcommitted, hwriter', hloop⟩ := publish_frame w (.messageDelta ‹_›)
      intro hsub
      have hsub : w.loop.control.subscribed = true := by simpa [hloop] using hsub
      obtain ⟨base, hbase, hqueued, hcursor⟩ := h hsub
      have hpublished : published (w.publish (.messageDelta ‹_›)) = published w := by
        simp only [published, hcommitted, hwriter']
      refine ⟨base, hpublished ▸ hbase, ?_, by simpa [hloop] using hcursor⟩
      rw [queued_publish _ hsub, hqueued, hpublished, hcommitted]
      simp [messageOf]
  | setStatus => exact h.congr id rfl rfl rfl le_rfl
  | resume hresume => exact h.resume hwriting hresume
  | timeout hcontrol => exact h.congr (fun _ => by rw [hcontrol]; rfl) rfl rfl rfl le_rfl
  | disconnect => exact fun hsub => by cases hsub

/-- The rest of a page is behind the cursor, so its next message is the one after the cursor. -/
theorem Delivered.replay {committed : List Message} {loop : Loop}
    (h : Delivered committed loop.after loop.cursor loop.sent)
    (hnumbered : Numbered (·.sequence) committed) {m : Message} {rest : List Message}
    (hpage : m :: rest <+: committed.drop loop.cursor) :
    Delivered committed loop.after (max loop.cursor m.sequence) (loop.sent ++ [.message m]) ∧
      max loop.cursor m.sequence ≤ committed.length ∧
      rest <+: committed.drop (max loop.cursor m.sequence) := by
  obtain ⟨hmem, hseq, hle, hrest⟩ := hnumbered.next hpage
  have hmax : max loop.cursor m.sequence = loop.cursor + 1 := by omega
  exact ⟨h.message hnumbered hmem hseq.le, hmax ▸ hle, hmax ▸ hrest⟩

theorem Reading.congr (h : Reading w) (hcommitted : w'.committed = w.committed)
    (hloop : w'.loop = w.loop) : Reading w' :=
  ⟨by rw [hcommitted, hloop]; exact h.delivered, by rw [hcommitted, hloop]; exact h.horizon,
    by rw [hcommitted, hloop]; exact h.page, by rw [hloop]; exact h.caughtUp⟩

theorem Reading.commit (h : Reading w) (hwriting : Writing w) {m : Message}
    (hwriter : w.writer = .appended m) :
    Reading { w with committed := w.committed ++ [m], writer := .committed m } := by
  refine ⟨h.delivered.grow hwriting.numbered (hwriting.appended m hwriter), ?_, ?_, h.caughtUp⟩
  · have := h.horizon
    simp only [List.length_append]
    omega
  · intro rest hrest
    obtain ⟨hle, hbehind⟩ := h.page rest hrest
    refine ⟨by simp only [List.length_append]; omega, ?_⟩
    simp only [List.drop_append_of_le_length hle]
    exact hbehind.trans (List.prefix_append _ _)

/-- The loop has gone to a place where nothing more is known of it. -/
theorem Reading.moved (h : Delivered w.committed w.loop.after w.loop.cursor w.loop.sent)
    (hhorizon : w.loop.horizon ≤ w.committed.length)
    (hcontrol : (∃ rest, w.loop.control = .replaying rest) ∨ w.loop.control = .checking ∨
      w.loop.control = .waiting → False) : Reading w :=
  ⟨h, hhorizon, fun rest hrest => (hcontrol (.inl ⟨rest, hrest⟩)).elim,
    fun h => (hcontrol (.inr h)).elim⟩

theorem Reading.replay (h : Reading w) (hwriting : Writing w) (loop : Loop) {page : List Message}
    (hafter : loop.after = w.loop.after) (hcursor : loop.cursor = w.loop.cursor)
    (hsent : loop.sent = w.loop.sent) (hhorizon : loop.horizon ≤ w.committed.length)
    (hpage : page <+: w.committed.drop w.loop.cursor) :
    Reading { w with loop := loop.replay page } := by
  have hdelivered : Delivered w.committed loop.after loop.cursor loop.sent := by
    rw [hafter, hcursor, hsent]
    exact h.delivered
  cases page with
  | nil => exact .moved hdelivered hhorizon (by simp [Loop.replay])
  | cons m rest =>
      obtain ⟨hnext, hle, hrest⟩ := hdelivered.replay hwriting.numbered (hcursor ▸ hpage)
      refine ⟨hnext, hhorizon, fun rest' hrest' => ?_, by simp [Loop.replay]⟩
      obtain rfl := Control.replaying.inj hrest'
      exact ⟨hle, hrest⟩

theorem Reading.poll (h : Reading w) (hwriting : Writing w) :
    Reading { w with
      loop := { w.loop with horizon := w.committed.length }.onMessages
        (getMessagesAfter w.committed w.loop.cursor) } := by
  have hpage : getMessagesAfter w.committed w.loop.cursor =
      (w.committed.drop w.loop.cursor).take 100 := hwriting.numbered.pageAfter_eq _ _
  cases hempty : getMessagesAfter w.committed w.loop.cursor with
  | nil =>
      have hlength : w.committed.length ≤ w.loop.cursor := by
        rw [hempty] at hpage
        simpa using hpage.symm
      have hle := h.delivered.cursor_le hwriting.numbered
      have hge := h.delivered.after_le
      refine ⟨h.delivered, le_rfl, fun rest hrest => by simp [Loop.onMessages] at hrest, fun _ => ?_⟩
      simp only [Loop.onMessages]
      omega
  | cons m rest =>
      have hbehind : m :: rest <+: w.committed.drop w.loop.cursor := by
        rw [← hempty, hpage]
        exact List.take_prefix _ _
      exact h.replay hwriting { w.loop with horizon := w.committed.length } rfl rfl rfl le_rfl
        hbehind

theorem Reading.check (h : Reading w) (hcontrol : w.loop.control = .checking)
    (found : Option SessionStatus) : Reading { w with loop := w.loop.onSession found } := by
  cases found with
  | none => exact .moved h.delivered h.horizon (by simp [Loop.onSession])
  | some status =>
      simp only [Loop.onSession]
      split
      · exact .moved (h.delivered.other rfl) h.horizon (by simp)
      · exact ⟨h.delivered, h.horizon, by simp, fun _ => h.caughtUp (.inl hcontrol)⟩

theorem Reading.take (h : Reading w) (hwriting : Writing w) (hqueueing : Queueing w) {live : Live}
    {rest : List Live} (hcontrol : w.loop.control = .waiting) (hqueue : w.queue = live :: rest) :
    Reading { w with queue := rest, loop := w.loop.onLive live.event } := by
  refine .moved ?_ h.horizon (by simp [Loop.onLive])
  cases hlive : live.event with
  | message m =>
      obtain ⟨hm, hnext⟩ := hqueueing.head (by rw [hcontrol]; rfl) hwriting hqueue hlive
      have hcaught := h.caughtUp (.inr hcontrol)
      exact h.delivered.message hwriting.numbered hm (by omega)
  | _ => exact h.delivered.other rfl

theorem Reading.resume (h : Reading w) (hwriting : Writing w) (hqueueing : Queueing w)
    (hresume : Resumes reads w w') : Reading w' := by
  cases hresume with
  | refuse | round | leave => exact .moved h.delivered h.horizon (by simp)
  | subscribe => exact .moved h.delivered le_rfl (by simp)
  | poll => exact h.poll hwriting
  | replay hcontrol => exact h.replay hwriting w.loop rfl rfl rfl h.horizon (h.page _ hcontrol).2
  | check hcontrol => exact h.check hcontrol _
  | take hcontrol hqueue => exact h.take hwriting hqueueing hcontrol hqueue

theorem Coherent.step (h : Coherent w) (hstep : Happens reads w mv w') : Coherent w' := by
  refine ⟨h.writing.step hstep, h.queueing.step h.writing hstep, ?_⟩
  cases hstep with
  | append | rollback | setStatus => exact h.reading.congr rfl rfl
  | commit hwriter => exact h.reading.commit h.writing hwriter
  | publish => exact h.reading.congr (publish_frame w _).1 (publish_frame w _).2.2
  | publishDelta => exact h.reading.congr (publish_frame w _).1 (publish_frame w _).2.2
  | resume hresume => exact h.reading.resume h.writing h.queueing hresume
  | timeout | disconnect =>
      exact .moved h.reading.delivered h.reading.horizon (by simp)

end Steps

theorem coherent_start (sessionId : SessionId) (history : History)
    (session : Option SessionStatus) (after : Nat) :
    Coherent (start sessionId history session after) where
  writing := .idle history.numbered rfl
  queueing := fun h => by cases h
  reading := .moved .start le_rfl (by simp [start])

end ChangeQuality.SessionDelivery
