import ChangeQuality.SessionView

/-!
The view of a session mirrors its persisted messages. The stream may yield a message again, but it
never runs ahead of its cursor, and the view drops what it has.
-/

namespace ChangeQuality.SessionMirror

open ChangeQuality.SopTables
open ChangeQuality.SequencedLog
open ChangeQuality.Runs
open ChangeQuality.SessionStream
open ChangeQuality.SessionDelivery
open ChangeQuality.SessionView

/-- The cursor after an event. -/
def advance (cursor : Nat) (e : Event) : Nat :=
  (messageEventSequence e).elim cursor (max cursor)

/-- No event leaves a message out. -/
def Gapless : Nat → List Event → Prop
  | _, [] => True
  | cursor, e :: rest =>
      (∀ s ∈ messageEventSequence e, s ≤ cursor + 1) ∧ Gapless (advance cursor e) rest

/-- The events that are on the way to the view, which has received what was before them. -/
structure Following (s : System) : Prop where
  gapless : Gapless s.client.cursorRef s.connection
  cursor : s.connection.foldl advance s.client.cursorRef = s.server.loop.cursor
  mem : ∀ m, .message m ∈ s.connection → m ∈ s.server.committed

/-- The view shows the first messages of the log, as many as its cursor tells. -/
structure Shows (committed : List Message) (client : Client) : Prop where
  within : client.cursorRef ≤ committed.length
  messages : client.state.messages.map (·.persisted) = committed.take client.cursorRef
  latest : client.state.latestSequence = client.cursorRef

/-- What holds between any two turns. -/
structure Synced (s : System) : Prop where
  coherent : Coherent s.server
  shows : Shows s.server.committed s.client
  following : s.client.phase.isConnected = true → Following s
  page : ∀ page, s.client.phase = .answered page → page <+: s.server.committed
  terminal : s.client.terminalRef = true →
    s.client.phase = .closed ∨ s.client.phase = .unmounted

section Events

variable {cursor : Nat} {events : List Event} {e : Event}

theorem gapless_concat : Gapless cursor (events ++ [e]) ↔ Gapless cursor events ∧
    ∀ s ∈ messageEventSequence e, s ≤ events.foldl advance cursor + 1 := by
  induction events generalizing cursor with
  | nil => simp [Gapless]
  | cons e' events ih => simp [Gapless, ih, and_assoc]

end Events

section Server

variable {reads : Reads} {mv : Move} {w w' : World}

/-- What a move of the server yields: nothing, or an event that does not run ahead. -/
inductive Yields (w w' : World) : Prop
  | nothing : w'.loop.sent = w.loop.sent → w'.loop.cursor = w.loop.cursor → Yields w w'
  | event (e : Event) : w'.loop.sent = w.loop.sent ++ [e] →
      w'.loop.cursor = advance w.loop.cursor e →
      (∀ m, e = .message m → m ∈ w'.committed ∧ m.sequence ≤ w.loop.cursor + 1) → Yields w w'

theorem yields_replay {committed page : List Message} (loop : Loop) {w w' : World}
    (hnumbered : Numbered (·.sequence) committed) (hpage : page <+: committed.drop loop.cursor)
    (hloop : w.loop.sent = loop.sent ∧ w.loop.cursor = loop.cursor)
    (hloop' : w'.loop = loop.replay page) (hcommitted : w'.committed = committed) :
    Yields w w' := by
  cases page with
  | nil => exact .nothing (by rw [hloop', hloop.1]; rfl) (by rw [hloop', hloop.2]; rfl)
  | cons m rest =>
      obtain ⟨hmem, hseq, -, -⟩ := hnumbered.next hpage
      refine .event (.message m) (by rw [hloop', hloop.1]; rfl) (by rw [hloop', hloop.2]; rfl) ?_
      rintro m' heq
      obtain rfl := Event.message.inj heq
      exact ⟨hcommitted ▸ hmem, hloop.2 ▸ hseq.le⟩

theorem yields_resume (h : Coherent w) (hresume : Resumes reads w w') : Yields w w' := by
  have hnumbered := h.writing.numbered
  cases hresume with
  | refuse | subscribe | round | leave => exact .nothing rfl rfl
  | poll =>
      have hpage : getMessagesAfter w.committed w.loop.cursor <+:
          w.committed.drop w.loop.cursor := by
        rw [getMessagesAfter, hnumbered.pageAfter_eq]
        exact List.take_prefix _ _
      cases hempty : getMessagesAfter w.committed w.loop.cursor with
      | nil => exact .nothing rfl rfl
      | cons m rest =>
          rw [hempty] at hpage
          exact yields_replay { w.loop with horizon := w.committed.length } hnumbered hpage
            ⟨rfl, rfl⟩ rfl rfl
  | replay hcontrol =>
      exact yields_replay w.loop hnumbered (h.reading.page _ hcontrol).2 ⟨rfl, rfl⟩ rfl rfl
  | check =>
      cases hfound : getSession reads w.loop.currentSession w.session with
      | none => exact .nothing rfl rfl
      | some status =>
          by_cases hterminal : terminal status = true
          · refine .event (.ended status) ?_ ?_ (by simp)
            · simp [Loop.onSession, hterminal]
            · simp [Loop.onSession, hterminal, advance, messageEventSequence]
          · refine .nothing ?_ ?_ <;> simp [Loop.onSession, hterminal]
  | @take live rest hcontrol hqueue =>
      refine .event live.event rfl rfl fun m hm => ?_
      obtain ⟨hmem, hnext⟩ :=
        h.queueing.head (by rw [hcontrol]; rfl) h.writing hqueue hm
      have hcaught := h.reading.caughtUp (.inr hcontrol)
      have hafter := h.reading.delivered.after_le
      exact ⟨hmem, by omega⟩

theorem yields_step (h : Coherent w) (hstep : Happens reads w mv w') : Yields w w' := by
  cases hstep with
  | resume hresume => exact yields_resume h hresume
  | publish => exact .nothing (by rw [(publish_frame w _).2.2]) (by rw [(publish_frame w _).2.2])
  | publishDelta =>
      exact .nothing (by rw [(publish_frame w _).2.2]) (by rw [(publish_frame w _).2.2])
  | _ => exact .nothing rfl rfl

theorem committed_step (hstep : Happens reads w mv w') : w.committed <+: w'.committed := by
  cases hstep with
  | commit => exact List.prefix_append _ _
  | publish => exact (publish_frame w _).1 ▸ List.prefix_rfl
  | publishDelta => exact (publish_frame w _).1 ▸ List.prefix_rfl
  | resume hresume => exact (resumes_frame hresume).1 ▸ List.prefix_rfl
  | _ => exact List.prefix_rfl

end Server

section Browser

variable {columns : Columns} {committed : List Message} {client : Client} {m : Message}

@[simp] theorem persisted_readMessage (m : Message) : (readMessage columns m).persisted = m := rfl

@[simp] theorem persisted_received (m : Message) (id : String) :
    SessionMessage.persisted { readMessage columns m with id } = m := rfl

/-- The view has a message exactly when its cursor has passed the message. -/
theorem Shows.any_eq (h : Shows committed client) (hnumbered : Numbered (·.sequence) committed)
    (hm : m ∈ committed) : (client.state.messages.any fun existing =>
      existing.sequence = m.sequence) = decide (m.sequence ≤ client.cursorRef) := by
  have hmem : ∀ m', (∃ existing ∈ client.state.messages, existing.persisted = m') ↔
      m' ∈ committed ∧ m'.sequence ≤ client.cursorRef := by
    intro m'
    rw [← List.mem_map, h.messages, hnumbered.mem_take]
  rw [Bool.eq_iff_iff, List.any_eq_true, decide_eq_true_eq]
  constructor
  · rintro ⟨existing, hexisting, hsame⟩
    have hle := ((hmem _).mp ⟨existing, hexisting, rfl⟩).2
    have hsame : existing.sequence = m.sequence := by simpa using hsame
    exact hsame ▸ hle
  · intro hle
    obtain ⟨existing, hexisting, rfl⟩ := (hmem m).mpr ⟨hm, hle⟩
    exact ⟨existing, hexisting, by simp [SessionMessage.persisted]⟩

/-- The reducer keeps up with the cursor. -/
theorem Shows.receive (h : Shows committed client) (hnumbered : Numbered (·.sequence) committed)
    (hm : m ∈ committed) (hnext : m.sequence ≤ client.cursorRef + 1) :
    Shows committed { client with
      cursorRef := max client.cursorRef m.sequence
      state := reduceSessionStreamEvent columns client.state (.message m) } := by
  have hbound := (hnumbered.mem_bounds hm).2
  have hwithin := h.within
  by_cases hle : m.sequence ≤ client.cursorRef
  · have hmax : max client.cursorRef m.sequence = client.cursorRef := by omega
    have hany := h.any_eq hnumbered hm
    rw [decide_eq_true hle] at hany
    simp only [reduceSessionStreamEvent, hany, if_true, hmax]
    exact ⟨hwithin, h.messages, h.latest⟩
  · have hmax : max client.cursorRef m.sequence = client.cursorRef + 1 := by omega
    have hany := h.any_eq hnumbered hm
    rw [decide_eq_false hle] at hany
    have hplace : committed[client.cursorRef]? = some m := by
      have hget := (hnumbered.mem_iff.mp hm).2
      rwa [show m.sequence - 1 = client.cursorRef by omega] at hget
    simp only [reduceSessionStreamEvent, hany, Bool.false_eq_true, if_false]
    refine ⟨hmax.trans_le (by omega), ?_, ?_⟩
    · rw [hmax, List.take_add_one, hplace]
      simp [h.messages]
    · simp [h.latest]

theorem Shows.congr {client' : Client} (h : Shows committed client)
    (hcursor : client'.cursorRef = client.cursorRef)
    (hmessages : client'.state.messages = client.state.messages)
    (hlatest : client'.state.latestSequence = client.state.latestSequence) :
    Shows committed client' :=
  ⟨hcursor ▸ h.within, by rw [hmessages, hcursor]; exact h.messages,
    by rw [hlatest, hcursor]; exact h.latest⟩

theorem Shows.grow {committed' : List Message} (h : Shows committed client)
    (hgrown : committed <+: committed') : Shows committed' client := by
  obtain ⟨later, rfl⟩ := hgrown
  have hwithin := h.within
  refine ⟨by simp only [List.length_append]; omega, ?_, h.latest⟩
  rw [List.take_append_of_le_length hwithin]
  exact h.messages

theorem reduce_other (columns : Columns) (state : SessionViewState) {e : Event} (he : messageOf e = none) :
    (reduceSessionStreamEvent columns state e).messages = state.messages ∧
      (reduceSessionStreamEvent columns state e).latestSequence = state.latestSequence := by
  cases e with
  | message m => simp [messageOf] at he
  | ended status => exact ⟨rfl, rfl⟩
  | messageDelta delta =>
      simp only [reduceSessionStreamEvent]
      split
      · exact ⟨rfl, rfl⟩
      · split <;> exact ⟨rfl, rfl⟩

/-- What `handle` does with an event of the current source. -/
theorem Shows.handle (h : Shows committed client) (columns : Columns)
    (hnumbered : Numbered (·.sequence) committed)
    (hconnected : client.phase.isConnected = true) (hopen : client.terminalRef = false)
    {e : Event} (he : ∀ m, e = .message m → m ∈ committed ∧ m.sequence ≤ client.cursorRef + 1) :
    Shows committed (client.handle columns e) ∧
      (client.handle columns e).cursorRef = advance client.cursorRef e := by
  have hguard : ¬ (!client.phase.isConnected || client.terminalRef) = true := by
    simp [hconnected, hopen]
  cases e with
  | message m =>
      obtain ⟨hm, hnext⟩ := he m rfl
      simp only [Client.handle, if_neg hguard]
      exact ⟨h.receive hnumbered hm hnext, rfl⟩
  | messageDelta delta =>
      obtain ⟨hmessages, hlatest⟩ :=
        reduce_other columns client.state (e := .messageDelta delta) rfl
      simp only [Client.handle, if_neg hguard]
      exact ⟨h.congr rfl hmessages hlatest, rfl⟩
  | ended status =>
      simp only [Client.handle, if_neg hguard]
      exact ⟨h.congr rfl rfl rfl, rfl⟩

theorem handle_phase (columns : Columns) (client : Client) (e : Event) :
    (client.handle columns e).phase = client.phase ∧
        (client.handle columns e).terminalRef = client.terminalRef ∨
      (client.handle columns e).phase = .closed := by
  unfold Client.handle
  split
  · exact .inl ⟨rfl, rfl⟩
  · split
    · exact .inr rfl
    · exact .inl ⟨rfl, rfl⟩

end Browser

section Turns

variable {reads : Reads} {columns : Columns} {s s' : System} {turn : Turn}

/-- The events that a move of the server adds to the connection. -/
theorem Following.serve (h : Following s) {server : World} {mv : Move}
    (hcoherent : Coherent s.server) (hstep : Happens reads s.server mv server) :
    Following { s with
      server
      connection := s.connection ++ server.loop.sent.drop s.server.loop.sent.length } := by
  have hcommitted := (committed_step hstep).subset
  cases yields_step hcoherent hstep with
  | nothing hsent hcursor =>
      have hnone : s.connection ++ server.loop.sent.drop s.server.loop.sent.length =
          s.connection := by simp [hsent]
      rw [hnone]
      exact ⟨h.gapless, h.cursor.trans hcursor.symm, fun m hm => hcommitted (h.mem m hm)⟩
  | event e hsent hcursor he =>
      have hadded : s.connection ++ server.loop.sent.drop s.server.loop.sent.length =
          s.connection ++ [e] := by simp [hsent]
      rw [hadded]
      refine ⟨gapless_concat.mpr ⟨h.gapless, fun n hn => ?_⟩, ?_, fun m hm => ?_⟩
      · rw [h.cursor]
        cases e with
        | message m =>
            obtain rfl : m.sequence = n := Option.some.inj hn
            exact (he m rfl).2
        | _ => cases hn
      · rw [List.foldl_append, h.cursor]
        exact hcursor.symm
      · rcases List.mem_append.mp hm with hm | hm
        · exact hcommitted (h.mem m hm)
        · exact (he m (List.mem_singleton.mp hm).symm).1

theorem coherent_listen {server : World} (h : Coherent server) (after : Nat) :
    Coherent (listen server after) where
  writing := h.writing.congr rfl rfl
  queueing := fun hsubscribed => by cases hsubscribed
  reading := .moved .start le_rfl (by simp [SessionView.listen])

/-- A new connection starts behind what the view has. -/
theorem following_connect (client : Client) : Following (s.connect client) :=
  ⟨trivial, rfl, fun _ hm => by cases hm⟩

theorem Synced.serve (h : Synced s) {server : World} {mv : Move}
    (hstep : Happens reads s.server mv server) : Synced (s.serve server) := by
  have hcommitted := committed_step hstep
  refine ⟨h.coherent.step hstep, h.shows.grow hcommitted, fun hconnected => ?_,
    fun page hpage => (h.page page hpage).trans hcommitted, h.terminal⟩
  have hconnected : s.client.phase.isConnected = true := hconnected
  rw [System.serve, if_pos hconnected]
  exact (h.following hconnected).serve h.coherent hstep

/-- The browser takes the next event from the connection. -/
theorem Synced.deliver (h : Synced s) (hconnected : s.client.phase = .connected) {e : Event}
    {rest : List Event} (hconnection : s.connection = e :: rest) :
    Synced { s with connection := rest, client := s.client.dispatch columns e } := by
  have hnumbered := h.coherent.writing.numbered
  have hphase : s.client.phase.isConnected = true := by rw [hconnected]; rfl
  have hopen : s.client.terminalRef = false := by
    by_contra hclosed
    simpa [hconnected] using h.terminal (by simpa using hclosed)
  obtain ⟨hgapless, hcursor, hmem⟩ := h.following hphase
  rw [hconnection] at hgapless hcursor hmem
  have he : ∀ m, e = .message m → m ∈ s.server.committed ∧ m.sequence ≤ s.client.cursorRef + 1 := by
    rintro m rfl
    exact ⟨hmem m List.mem_cons_self, hgapless.1 _ rfl⟩
  -- `handle` runs for every event, and for a message once more
  have hdispatch : Shows s.server.committed (s.client.dispatch columns e) ∧
      (s.client.dispatch columns e).cursorRef = advance s.client.cursorRef e ∧
      ((s.client.dispatch columns e).phase = .connected ∧
          (s.client.dispatch columns e).terminalRef = false ∨
        (s.client.dispatch columns e).phase = .closed) := by
    obtain ⟨hshows, hadvance⟩ := h.shows.handle columns hnumbered hphase hopen he
    have hkept := handle_phase columns s.client e
    rw [hconnected, hopen] at hkept
    cases e with
    | message m =>
        have hfirst : (s.client.handle columns (.message m)).phase = .connected ∧
            (s.client.handle columns (.message m)).terminalRef = false := by
          simp [Client.handle, hopen, hconnected, Phase.isConnected]
        have hagain : ∀ m', Event.message m = .message m' → m' ∈ s.server.committed ∧
            m'.sequence ≤ (s.client.handle columns (.message m)).cursorRef + 1 := by
          rintro m' heq
          obtain rfl := Event.message.inj heq
          refine ⟨(he m rfl).1, ?_⟩
          rw [hadvance]
          exact (Nat.le_max_right _ _).trans (Nat.le_succ _)
        obtain ⟨hshows', hadvance'⟩ := hshows.handle columns hnumbered
          (by rw [hfirst.1]; rfl) hfirst.2 hagain
        refine ⟨hshows', ?_, ?_⟩
        · rw [Client.dispatch, hadvance', hadvance]
          simp [advance, messageEventSequence]
        · have hkept' := handle_phase columns (s.client.handle columns (.message m))
            (.message m)
          rwa [hfirst.1, hfirst.2] at hkept'
    | messageDelta delta => exact ⟨hshows, hadvance, hkept⟩
    | ended status => exact ⟨hshows, hadvance, hkept⟩
  obtain ⟨hshows, hadvance, hphase'⟩ := hdispatch
  refine ⟨h.coherent, hshows, fun _ => ⟨?_, ?_, fun m hm => hmem m (List.mem_cons_of_mem _ hm)⟩,
    fun page hpage => ?_, fun hterminal => ?_⟩
  · rw [hadvance]
    exact hgapless.2
  · rw [hadvance]
    exact hcursor
  · rcases hphase' with ⟨hphase', -⟩ | hphase' <;> simp [hphase'] at hpage
  · rcases hphase' with ⟨-, hfalse⟩ | hphase'
    · simp [hfalse] at hterminal
    · exact .inl hphase'

/-- The first page is a part of the log from its start. -/
theorem shows_hydrate {committed page : List Message} (client : Client)
    (hnumbered : Numbered (·.sequence) committed) (hpage : page <+: committed) :
    Shows committed (client.hydrate columns page) := by
  have htake : page = committed.take page.length := (List.prefix_iff_eq_take.mp hpage)
  have hle := hpage.length_le
  have hlatest : (client.hydrate columns page).state.latestSequence = page.length := by
    have hsequences : Numbered (·.sequence) page := htake ▸ hnumbered.take page.length
    change (page.map (readMessage columns)).foldl (fun max message => Nat.max max message.sequence) 0 =
      page.length
    rw [List.foldl_map]
    have hfold : page.foldl (fun a m => Nat.max a m.sequence) 0 =
        (page.map (·.sequence)).foldl max 0 := by rw [List.foldl_map]
    refine hfold.trans ?_
    rw [show page.map (·.sequence) = _ from hsequences, foldl_max_range' 1 _ 0 (by omega)]
    split <;> omega
  have hcursor : (client.hydrate columns page).cursorRef = page.length := hlatest
  refine ⟨hcursor ▸ hle, ?_, hlatest.trans hcursor.symm⟩
  rw [hcursor, ← htake]
  change (page.map (readMessage columns)).map (·.persisted) = page
  rw [List.map_map]
  exact List.map_id _

theorem Synced.drop (h : Synced s) {client : Client} (hshows : Shows s.server.committed client)
    (hphase : client.phase.isConnected = false)
    (hpage : ∀ page, client.phase ≠ .answered page)
    (hterminal : client.terminalRef = true → client.phase = .closed ∨ client.phase = .unmounted) :
    Synced (s.drop client) :=
  ⟨h.coherent, hshows, fun hconnected => by simp [System.drop, hphase] at hconnected,
    fun page heq => absurd heq (hpage page), hterminal⟩

theorem shows_mount (committed : List Message) : Shows committed .mount :=
  ⟨Nat.zero_le _, rfl, rfl⟩

theorem Synced.step (h : Synced s) (hstep : SessionView.step reads columns turn s = some s') :
    Synced s' := by
  cases turn with
  | server mv =>
      obtain ⟨server, hserver, rfl⟩ := Option.map_eq_some_iff.mp hstep
      exact h.serve (happens hserver)
  | mount =>
      obtain rfl := Option.some.inj hstep
      exact h.drop (shows_mount _) rfl (fun _ hpage => by cases hpage) fun hterminal => by
        cases hterminal
  | unmount =>
      obtain rfl := Option.some.inj hstep
      exact h.drop (h.shows.congr rfl rfl rfl) rfl (fun _ hpage => by cases hpage) fun _ => .inr rfl
  | answer =>
      simp only [SessionView.step] at hstep
      split at hstep
      · rename_i hphase _
        obtain rfl := Option.some.inj hstep
        refine ⟨h.coherent, h.shows.congr rfl rfl rfl, fun hconnected => (by cases hconnected),
          fun page hpage => ?_, fun hterminal => ?_⟩
        · obtain rfl := Phase.answered.inj hpage
          rw [getMessagesAfter, h.coherent.writing.numbered.pageAfter_eq]
          exact List.take_prefix _ _
        · simpa [hphase] using h.terminal hterminal
      · cases hstep
  | refuse error =>
      have hopen : s.client.phase = .loading ∨ (∃ page, s.client.phase = .answered page) →
          s.client.terminalRef ≠ true := by
        rintro (hphase | ⟨page, hphase⟩) hterminal
        · simpa [hphase] using h.terminal hterminal
        · simpa [hphase] using h.terminal hterminal
      simp only [SessionView.step] at hstep
      split at hstep
      · obtain rfl := Option.some.inj hstep
        exact ⟨h.coherent, h.shows.congr rfl rfl rfl, fun hconnected => (by cases hconnected),
          fun page hpage => (by cases hpage),
          fun hterminal => absurd hterminal (hopen (.inl ‹_›))⟩
      · obtain rfl := Option.some.inj hstep
        exact ⟨h.coherent, h.shows.congr rfl rfl rfl, fun hconnected => (by cases hconnected),
          fun page hpage => (by cases hpage),
          fun hterminal => absurd hterminal (hopen (.inr ⟨_, ‹_›⟩))⟩
      · cases hstep
  | hydrate =>
      simp only [SessionView.step] at hstep
      split at hstep
      · rename_i page hphase
        obtain rfl := Option.some.inj hstep
        refine ⟨h.coherent, shows_hydrate _ h.coherent.writing.numbered (h.page page hphase),
          fun hconnected => (by cases hconnected), fun page hpage => (by cases hpage),
          fun hterminal => ?_⟩
        simpa [hphase] using h.terminal hterminal
      · cases hstep
  | connect =>
      simp only [SessionView.step] at hstep
      split at hstep
      · rename_i hphase
        obtain rfl := Option.some.inj hstep
        refine ⟨coherent_listen h.coherent _, h.shows.congr rfl rfl rfl,
          fun _ => following_connect _, fun page hpage => (by cases hpage), fun hterminal => ?_⟩
        simpa [hphase] using h.terminal hterminal
      · rename_i hphase
        obtain rfl := Option.some.inj hstep
        refine ⟨coherent_listen h.coherent _, h.shows.congr rfl rfl rfl,
          fun _ => following_connect _, fun page hpage => (by cases hpage), fun hterminal => ?_⟩
        simpa [hphase] using h.terminal hterminal
      · cases hstep
  | opened =>
      simp only [SessionView.step] at hstep
      split at hstep
      · obtain rfl := Option.some.inj hstep
        refine ⟨h.coherent, h.shows.congr rfl rfl rfl, fun hconnected => ?_, h.page, h.terminal⟩
        obtain ⟨hgapless, hcursor, hmem⟩ := h.following hconnected
        exact ⟨hgapless, hcursor, hmem⟩
      · cases hstep
  | deliver =>
      simp only [SessionView.step] at hstep
      split at hstep
      · obtain rfl := Option.some.inj hstep
        exact h.deliver ‹_› ‹_›
      · cases hstep
  | error =>
      simp only [SessionView.step] at hstep
      split at hstep
      · rename_i hphase
        obtain rfl := Option.some.inj hstep
        refine h.drop (h.shows.congr rfl rfl rfl) rfl (fun _ hpage => by cases hpage) ?_
        intro hterminal
        simpa [hphase] using h.terminal hterminal
      · cases hstep

theorem Synced.mirrors (h : Synced s) : Mirrors s := by
  have hnumbered := h.coherent.writing.numbered
  have hwithin := h.shows.within
  refine ⟨?_, ?_, h.shows.latest.symm⟩
  · rw [h.shows.messages, h.shows.latest]
    exact (hnumbered.filter_eq_take _).symm
  · have hsequences : s.client.state.messages.map (·.sequence) =
        (s.server.committed.take s.client.cursorRef).map (·.sequence) := by
      rw [← h.shows.messages, List.map_map]
      rfl
    rw [hsequences, show List.map _ _ = _ from hnumbered.take s.client.cursorRef, h.shows.latest,
      List.length_take, Nat.min_eq_left hwithin]

theorem synced_start (sessionId : SessionId) (history : History) (session : Option SessionStatus) :
    Synced (start sessionId history session) :=
  ⟨coherent_start sessionId history session 0, shows_mount _,
    fun hconnected => (by cases hconnected), fun _ hpage => (by cases hpage),
    fun hterminal => (by cases hterminal)⟩

end Turns

/-- In every run of the server and the browser, with any connection errors and reconnects, the view
shows exactly the persisted messages up to its latest sequence, and its cursor is that sequence. -/
theorem view_mirrors_session (reads : Reads) (columns : Columns) (sessionId : SessionId)
    (history : History) (session : Option SessionStatus) (turns : List Turn) {s : System}
    (h : run (SessionView.step reads columns) turns (start sessionId history session) = some s) :
    Mirrors s :=
  (run_invariant (I := Synced) (fun _ _ _ hs hstep => hs.step hstep)
    (synced_start sessionId history session) h).mirrors

def columns : Columns where
  id _ := "row"
  createdAt _ := ""

/-- A message comes with the first page. The next one is published while the loop waits and is also
in the page after it, the connection breaks, and a third one follows on the second connection. -/
def reconnects : List Turn :=
  let loop : Turn := .server .resume
  let write : List Turn :=
    [.server (.append "review_sop" "assistant" "ok" []), .server .commit, .server .publish]
  write ++ [.answer, .hydrate, .connect, .opened, loop, loop, loop] ++
    [.server (.append "review_sop" "assistant" "ok" []), .server .commit, .server .timeout,
      .server .publish, loop, loop, loop, loop, loop, .deliver, .deliver, .error] ++
    write ++ [.connect, loop, loop, .deliver]

theorem view_mirrors_reconnects : ∃ s,
    run (SessionView.step .identityMap columns) reconnects
        (start 1 ⟨[], .nil⟩ (some .active)) = some s ∧
      s.client.state.messages.map (·.sequence) = [1, 2, 3] ∧ s.client.cursorRef = 3 ∧
      Mirrors s := by
  have hrun : ∃ s, run (SessionView.step .identityMap columns) reconnects
        (start 1 ⟨[], .nil⟩ (some .active)) = some s ∧
      s.client.state.messages.map (·.sequence) = [1, 2, 3] ∧ s.client.cursorRef = 3 :=
    ⟨_, rfl, by decide, by decide⟩
  obtain ⟨s, hs, hsequences, hcursor⟩ := hrun
  exact ⟨s, hs, hsequences, hcursor, view_mirrors_session _ _ _ _ _ _ hs⟩

end ChangeQuality.SessionMirror
