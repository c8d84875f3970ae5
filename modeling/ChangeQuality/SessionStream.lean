import ChangeQuality.Runs
import ChangeQuality.SequencedLog
import ChangeQuality.SopTables

/-!
The event stream of a session: the loop of `SessionService.stream_events` as a state machine, which
merges pages of persisted messages with a live queue, and the one writer that appends, commits and
publishes the messages of the session.
-/

namespace ChangeQuality.SessionStream

open ChangeQuality.Values
open ChangeQuality.SopTables
open ChangeQuality.SequencedLog
open ChangeQuality.Runs

/-- Membership in `TERMINAL_SESSION_STATUSES`. -/
def terminal : SessionStatus → Bool
  | .completed | .failed | .interrupted => true
  | .active => false

/-- A `message_delta` event, which has no sequence. -/
structure Delta where
  role : String
  content : String
  additionalKwargs : Json

/-- What is published for a session and what its stream yields. -/
inductive Event where
  | message (message : Message)
  | messageDelta (delta : Delta)
  | ended (status : SessionStatus)

def messageEventSequence : Event → Option Nat
  | .message message => some message.sequence
  | _ => none

/-- The step that an event belongs to, `additional_kwargs["step"]`. -/
def stepOf (additionalKwargs : Json) : Option String :=
  (additionalKwargs.get "step").asStr?

/-- An event in a subscriber's queue, with the number of messages that were committed when it was
published. -/
structure Live where
  event : Event
  publishedAt : Nat

/-- Where the writer is inside `append_step_message`. -/
inductive Writer where
  | idle
  | appended (message : Message)
  | committed (message : Message)

/-- What the loop is suspended at. A loop at `replaying`, `delivering` or `closing` has yielded and
waits for its consumer; the others wait for what they are named after. -/
inductive Control where
  | opening
  | polling
  | replaying (rest : List Message)
  | checking
  | waiting
  | delivering
  | closing
  | ended

/-- The local state of `stream_events`: `current_session` is the instance that the variable keeps
alive, with the status that it was loaded with. Two fields are no variables of the code: what was
yielded, and how many messages were committed when the loop last queried for a page, or subscribed. -/
structure Loop where
  after : Nat
  cursor : Nat
  control : Control
  currentSession : Option SessionStatus
  sent : List Event
  horizon : Nat

structure World where
  sessionId : SessionId
  committed : List Message
  session : Option SessionStatus
  writer : Writer
  queue : List Live
  loop : Loop

/-- What `AsyncSession.get` does with an instance that is still referenced. -/
inductive Reads where
  | committed
  | identityMap
  deriving DecidableEq

/-- `SessionRepository.get_session`. -/
def getSession (reads : Reads) (held row : Option SessionStatus) : Option SessionStatus :=
  match reads, held with
  | .identityMap, some status => some status
  | _, _ => row

/-- `SessionRepository.get_messages_after` with its default limit. -/
def getMessagesAfter (committed : List Message) (after : Nat) : List Message :=
  pageAfter (·.sequence) committed after 100

namespace Loop

/-- `for message in messages`, and the next round once the page is through. -/
def replay (loop : Loop) : List Message → Loop
  | [] => { loop with control := .polling }
  | message :: rest =>
      { loop with
        cursor := max loop.cursor message.sequence
        sent := loop.sent ++ [.message message]
        control := .replaying rest }

/-- What follows `await self._repository.get_messages_after(session_id, after=cursor)`. -/
def onMessages (loop : Loop) : List Message → Loop
  | [] => { loop with control := .checking }
  | message :: rest => loop.replay (message :: rest)

/-- What follows `current_session = await self._repository.get_session(session_id)`. -/
def onSession (loop : Loop) : Option SessionStatus → Loop
  | none => { loop with currentSession := none, control := .ended }
  | some status =>
      if terminal status then
        { loop with
          currentSession := some status
          sent := loop.sent ++ [.ended status]
          control := .closing }
      else { loop with currentSession := some status, control := .waiting }

/-- What follows `live_event = await asyncio.wait_for(queue.get(), ...)`. -/
def onLive (loop : Loop) (event : Event) : Loop :=
  { loop with
    cursor := (messageEventSequence event).elim loop.cursor (max loop.cursor)
    sent := loop.sent ++ [event]
    control := .delivering }

end Loop

/-- Whether `async with self._broadcast.subscribe(session_id)` has been entered and not left. -/
def Control.subscribed : Control → Bool
  | .opening | .ended => false
  | _ => true

namespace World

/-- `SessionBroadcast.publish`. -/
def publish (w : World) (event : Event) : World :=
  if w.loop.control.subscribed then
    { w with queue := w.queue ++ [⟨event, w.committed.length⟩] }
  else w

/-- The loop goes on: what it awaited has come, or its consumer asks for the next event. -/
def resume (reads : Reads) (w : World) : Option World :=
  match w.loop.control with
  | .opening =>
      match w.session with
      | none => some { w with loop := { w.loop with control := .ended } }
      | some _ => some { w with
          queue := []
          loop := { w.loop with control := .polling, horizon := w.committed.length } }
  | .polling => some { w with
      loop := { w.loop with horizon := w.committed.length }.onMessages
        (getMessagesAfter w.committed w.loop.cursor) }
  | .replaying rest => some { w with loop := w.loop.replay rest }
  | .checking => some { w with
      loop := w.loop.onSession (getSession reads w.loop.currentSession w.session) }
  | .waiting =>
      match w.queue with
      | [] => none
      | live :: rest => some { w with queue := rest, loop := w.loop.onLive live.event }
  | .delivering => some { w with loop := { w.loop with control := .polling } }
  | .closing => some { w with loop := { w.loop with control := .ended } }
  | .ended => none

/-- `RepositorySessionMessageWriter.append_step_message` up to its flush. -/
def append (w : World) (step role content : String) (additionalKwargs : List (String × Json)) :
    World :=
  { w with
    writer := .appended {
      sessionId := w.sessionId
      sequence := latest (·.sequence) w.committed + 1
      role, content
      additionalKwargs := .obj (Json.setEntry "step" (.str step) additionalKwargs) } }

end World

/-- The moves of a run: those of the writer's task, which appends, commits and publishes messages
one after the other and publishes deltas in between, and those of the loop. -/
inductive Move where
  | append (step role content : String) (additionalKwargs : List (String × Json))
  | commit
  | rollback
  | publish
  | publishDelta (delta : Delta)
  | setStatus (status : SessionStatus)
  | resume
  /-- `asyncio.wait_for` gives up after `poll_interval_seconds`. -/
  | timeout
  /-- The consumer goes away and the generator is closed. -/
  | disconnect

def step (reads : Reads) : Move → World → Option World
  | .append step role content additionalKwargs, w =>
      match w.writer, w.session with
      | .idle, some _ => some (w.append step role content additionalKwargs)
      | _, _ => none
  | .commit, w =>
      match w.writer with
      | .appended message =>
          some { w with committed := w.committed ++ [message], writer := .committed message }
      | _ => none
  | .rollback, w =>
      match w.writer with
      | .appended _ => some { w with writer := .idle }
      | _ => none
  | .publish, w =>
      match w.writer with
      | .committed message => some { w.publish (.message message) with writer := .idle }
      | _ => none
  | .publishDelta delta, w =>
      match w.writer with
      | .idle => some (w.publish (.messageDelta delta))
      | _ => none
  | .setStatus status, w =>
      match w.writer, w.session with
      | .idle, some _ => some { w with session := some status }
      | _, _ => none
  | .resume, w => w.resume reads
  | .timeout, w =>
      match w.loop.control with
      | .waiting => some { w with loop := { w.loop with control := .polling } }
      | _ => none
  | .disconnect, w => some { w with loop := { w.loop with control := .ended } }

/-- The event that the loop takes from its queue with a move. -/
def taken : Move → World → Option Live
  | .resume, w =>
      match w.loop.control with
      | .waiting => w.queue.head?
      | _ => none
  | _, _ => none

theorem taken_eq_some {mv : Move} {w : World} {live : Live} :
    taken mv w = some live ↔
      mv = .resume ∧ w.loop.control = .waiting ∧ w.queue.head? = some live := by
  unfold taken
  split
  · split <;> simp_all
  · simp_all

/-- What the loop can do next, one constructor for each place where it is suspended. -/
inductive Resumes (reads : Reads) (w : World) : World → Prop
  | refuse : w.loop.control = .opening →
      Resumes reads w { w with loop := { w.loop with control := .ended } }
  | subscribe : w.loop.control = .opening →
      Resumes reads w { w with
        queue := []
        loop := { w.loop with control := .polling, horizon := w.committed.length } }
  | poll : w.loop.control = .polling →
      Resumes reads w { w with
        loop := { w.loop with horizon := w.committed.length }.onMessages
          (getMessagesAfter w.committed w.loop.cursor) }
  | replay {rest : List Message} : w.loop.control = .replaying rest →
      Resumes reads w { w with loop := w.loop.replay rest }
  | check : w.loop.control = .checking →
      Resumes reads w { w with
        loop := w.loop.onSession (getSession reads w.loop.currentSession w.session) }
  | take {live : Live} {rest : List Live} : w.loop.control = .waiting → w.queue = live :: rest →
      Resumes reads w { w with queue := rest, loop := w.loop.onLive live.event }
  | round : w.loop.control = .delivering →
      Resumes reads w { w with loop := { w.loop with control := .polling } }
  | leave : w.loop.control = .closing →
      Resumes reads w { w with loop := { w.loop with control := .ended } }

/-- What a move does, one constructor for each move. -/
inductive Happens (reads : Reads) (w : World) : Move → World → Prop
  | append {name role content : String} {kwargs : List (String × Json)} : w.writer = .idle →
      Happens reads w (.append name role content kwargs) (w.append name role content kwargs)
  | commit {m : Message} : w.writer = .appended m →
      Happens reads w .commit { w with committed := w.committed ++ [m], writer := .committed m }
  | rollback {m : Message} : w.writer = .appended m →
      Happens reads w .rollback { w with writer := .idle }
  | publish {m : Message} : w.writer = .committed m →
      Happens reads w .publish { w.publish (.message m) with writer := .idle }
  | publishDelta {delta : Delta} : w.writer = .idle →
      Happens reads w (.publishDelta delta) (w.publish (.messageDelta delta))
  | setStatus {status : SessionStatus} :
      Happens reads w (.setStatus status) { w with session := some status }
  | resume {w' : World} : Resumes reads w w' → Happens reads w .resume w'
  | timeout : w.loop.control = .waiting →
      Happens reads w .timeout { w with loop := { w.loop with control := .polling } }
  | disconnect :
      Happens reads w .disconnect { w with loop := { w.loop with control := .ended } }

theorem resumes {reads : Reads} {w w' : World} (h : w.resume reads = some w') :
    Resumes reads w w' := by
  unfold World.resume at h
  split at h
  · split at h
    · obtain rfl := Option.some.inj h
      exact .refuse ‹_›
    · obtain rfl := Option.some.inj h
      exact .subscribe ‹_›
  · obtain rfl := Option.some.inj h
    exact .poll ‹_›
  · obtain rfl := Option.some.inj h
    exact .replay ‹_›
  · obtain rfl := Option.some.inj h
    exact .check ‹_›
  · split at h
    · cases h
    · obtain rfl := Option.some.inj h
      exact .take ‹_› ‹_›
  · obtain rfl := Option.some.inj h
    exact .round ‹_›
  · obtain rfl := Option.some.inj h
    exact .leave ‹_›
  · cases h

theorem happens {reads : Reads} {mv : Move} {w w' : World} (h : step reads mv w = some w') :
    Happens reads w mv w' := by
  cases mv with
  | resume => exact .resume (resumes h)
  | disconnect =>
      obtain rfl := Option.some.inj h
      exact .disconnect
  | _ =>
      simp only [step] at h
      split at h
      · obtain rfl := Option.some.inj h
        first
          | exact .append ‹_›
          | exact .commit ‹_›
          | exact .rollback ‹_›
          | exact .publish ‹_›
          | exact .publishDelta ‹_›
          | exact .setStatus
          | exact .timeout ‹_›
      · cases h

/-- The messages that a session has had so far. -/
structure History where
  messages : List Message
  numbered : Numbered (·.sequence) messages

/-- A stream is opened on a session with a history. -/
def start (sessionId : SessionId) (history : History) (session : Option SessionStatus)
    (after : Nat) : World where
  sessionId := sessionId
  committed := history.messages
  session := session
  writer := .idle
  queue := []
  loop := {
    after := after
    cursor := after
    control := .opening
    currentSession := none
    sent := []
    horizon := history.messages.length }

end ChangeQuality.SessionStream
