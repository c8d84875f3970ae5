import ChangeQuality.Runs
import ChangeQuality.SequencedLog
import ChangeQuality.SessionStream

/-!
The event stream of a check: the loop of `SopQualityService.stream_events`, which merges pages of
persisted events with a live queue, and the runner that appends, commits and publishes the events.
-/

namespace ChangeQuality.CheckStream

open ChangeQuality.SopTables
open ChangeQuality.SequencedLog
open ChangeQuality.Runs
open ChangeQuality.SessionStream (Reads)

/-- Membership in `TERMINAL_CHECK_STATUSES`. -/
def terminal : CheckStatus → Bool
  | .succeeded | .failed | .cancelled | .interrupted => true
  | .pending | .running => false

/-- Where the writer is between `append_event` and `_publish_event`. -/
inductive Writer where
  | idle
  | appended (event : SopQualityEvent)
  | committed (event : SopQualityEvent)

/-- What the loop is suspended at. A loop at `replaying`, `delivering` or `closing` has yielded an
event, at `closing` a terminal one, and waits for its consumer. -/
inductive Control where
  | opening
  | polling
  | replaying (rest : List SopQualityEvent)
  | checking
  | waiting
  | delivering
  | closing
  | ended

/-- The local state of `stream_events`: `check` is the instance that the variable keeps alive, with
the status that it was loaded with. Three fields are no variables of the code: what was yielded, how
many events were committed when the loop last queried for a page, or subscribed, and whether it has
taken an event from its queue. -/
structure Loop where
  after : Nat
  cursor : Nat
  control : Control
  check : Option CheckStatus
  sent : List SopQualityEvent
  horizon : Nat
  tookLive : Bool

structure World where
  checkId : CheckId
  broadcast : Bool
  committed : List SopQualityEvent
  check : Option CheckStatus
  writer : Writer
  queue : List SopQualityEvent
  loop : Loop

/-- `SopQualityCheckRepository.get_check`. -/
def getCheck (reads : Reads) (held row : Option CheckStatus) : Option CheckStatus :=
  match reads, held with
  | .identityMap, some status => some status
  | _, _ => row

/-- `SopQualityCheckRepository.get_events_after` with its default limit. -/
def getEventsAfter (committed : List SopQualityEvent) (after : Nat) : List SopQualityEvent :=
  pageAfter (·.sequence) committed after 100

namespace Loop

/-- `for event in events`, and the next round once the page is through. -/
def replay (loop : Loop) : List SopQualityEvent → Loop
  | [] => { loop with control := .polling }
  | event :: rest =>
      { loop with
        cursor := max loop.cursor event.sequence
        sent := loop.sent ++ [event]
        control := if event.type.terminal then .closing else .replaying rest }

/-- What follows `events = await self._repository.get_events_after(check_id, after=cursor)`. -/
def onEvents (loop : Loop) : List SopQualityEvent → Loop
  | [] => { loop with control := .checking }
  | event :: rest => loop.replay (event :: rest)

/-- What follows `current_check = await self._repository.get_check(check_id)`. -/
def onCheck (loop : Loop) : Option CheckStatus → Loop
  | none => { loop with control := .ended }
  | some status => { loop with control := if terminal status then .ended else .waiting }

/-- What follows `live_event = await asyncio.wait_for(queue.get(), ...)`: unlike the loop of the
session stream, this one leaves its cursor where it is. -/
def onLive (loop : Loop) (event : SopQualityEvent) : Loop :=
  { loop with
    sent := loop.sent ++ [event]
    tookLive := true
    control := if event.type.terminal then .closing else .delivering }

end Loop

/-- Whether `async with broadcast.subscribe(check_id)` has been entered and not left. -/
def Control.subscribed : Control → Bool
  | .opening | .ended => false
  | _ => true

namespace World

/-- `SopQualityBroadcast.publish`. -/
def publish (w : World) (event : SopQualityEvent) : World :=
  if w.loop.control.subscribed then { w with queue := w.queue ++ [event] } else w

/-- The loop goes on: what it awaited has come, or its consumer asks for the next event. -/
def resume (reads : Reads) (w : World) : Option World :=
  match w.loop.control with
  | .opening =>
      match w.check, w.broadcast with
      | some status, true => some { w with
          queue := []
          loop := { w.loop with
            check := some status
            control := .polling
            horizon := w.committed.length } }
      | _, _ => some { w with loop := { w.loop with control := .ended } }
  | .polling => some { w with
      loop := { w.loop with horizon := w.committed.length }.onEvents
        (getEventsAfter w.committed w.loop.cursor) }
  | .replaying rest => some { w with loop := w.loop.replay rest }
  | .checking => some { w with loop := w.loop.onCheck (getCheck reads w.loop.check w.check) }
  | .waiting =>
      match w.queue with
      | [] => none
      | event :: rest => some { w with queue := rest, loop := w.loop.onLive event }
  | .delivering => some { w with loop := { w.loop with control := .polling } }
  | .closing => some { w with loop := { w.loop with control := .ended } }
  | .ended => none

/-- `SopQualityCheckRepository.append_event`. -/
def append (w : World) (type : EventType) (node checkpointId taskId message : Option String) :
    World :=
  { w with
    writer := .appended {
      checkId := w.checkId
      sequence := latest (·.sequence) w.committed + 1
      type, node, checkpointId, taskId, message } }

end World

/-- The moves of a run: those of the writer, which appends, commits and publishes one event after
the other, and those of the loop. -/
inductive Move where
  | append (type : EventType) (node checkpointId taskId message : Option String)
  | commit
  | rollback
  | publish
  /-- The writer of this event publishes none of its events (`start_check` and the startup). -/
  | skipPublish
  | setStatus (status : CheckStatus)
  | resume
  /-- `asyncio.wait_for` gives up after `poll_interval_seconds`. -/
  | timeout
  /-- The consumer goes away and the generator is closed. -/
  | disconnect

def step (reads : Reads) : Move → World → Option World
  | .append type node checkpointId taskId message, w =>
      match w.writer, w.check with
      | .idle, some _ => some (w.append type node checkpointId taskId message)
      | _, _ => none
  | .commit, w =>
      match w.writer with
      | .appended event =>
          some { w with committed := w.committed ++ [event], writer := .committed event }
      | _ => none
  | .rollback, w =>
      match w.writer with
      | .appended _ => some { w with writer := .idle }
      | _ => none
  | .publish, w =>
      match w.writer with
      | .committed event => some { w.publish event with writer := .idle }
      | _ => none
  | .skipPublish, w =>
      match w.writer with
      | .committed _ => some { w with writer := .idle }
      | _ => none
  | .setStatus status, w =>
      match w.check with
      | some _ => some { w with check := some status }
      | none => none
  | .resume, w => w.resume reads
  | .timeout, w =>
      match w.loop.control with
      | .waiting => some { w with loop := { w.loop with control := .polling } }
      | _ => none
  | .disconnect, w => some { w with loop := { w.loop with control := .ended } }

/-- The event that the loop takes from its queue with a move. -/
def taken : Move → World → Option SopQualityEvent
  | .resume, w =>
      match w.loop.control with
      | .waiting => w.queue.head?
      | _ => none
  | _, _ => none

/-- The loop queries for a page with a move. -/
def queries : Move → World → Bool
  | .resume, w =>
      match w.loop.control with
      | .polling => true
      | _ => false
  | _, _ => false

/-- What the loop can do next, one constructor for each place where it is suspended. -/
inductive Resumes (reads : Reads) (w : World) : World → Prop
  | refuse : w.loop.control = .opening →
      Resumes reads w { w with loop := { w.loop with control := .ended } }
  | subscribe {status : CheckStatus} : w.loop.control = .opening →
      Resumes reads w { w with
        queue := []
        loop := { w.loop with
          check := some status
          control := .polling
          horizon := w.committed.length } }
  | poll : w.loop.control = .polling →
      Resumes reads w { w with
        loop := { w.loop with horizon := w.committed.length }.onEvents
          (getEventsAfter w.committed w.loop.cursor) }
  | replay {rest : List SopQualityEvent} : w.loop.control = .replaying rest →
      Resumes reads w { w with loop := w.loop.replay rest }
  | check : w.loop.control = .checking →
      Resumes reads w { w with loop := w.loop.onCheck (getCheck reads w.loop.check w.check) }
  | take {event : SopQualityEvent} {rest : List SopQualityEvent} :
      w.loop.control = .waiting → w.queue = event :: rest →
      Resumes reads w { w with queue := rest, loop := w.loop.onLive event }
  | round : w.loop.control = .delivering →
      Resumes reads w { w with loop := { w.loop with control := .polling } }
  | leave : w.loop.control = .closing →
      Resumes reads w { w with loop := { w.loop with control := .ended } }

/-- What a move does, one constructor for each move. -/
inductive Happens (reads : Reads) (w : World) : Move → World → Prop
  | append {type : EventType} {node checkpointId taskId message : Option String} :
      w.writer = .idle → Happens reads w (.append type node checkpointId taskId message)
        (w.append type node checkpointId taskId message)
  | commit {event : SopQualityEvent} : w.writer = .appended event →
      Happens reads w .commit
        { w with committed := w.committed ++ [event], writer := .committed event }
  | rollback : Happens reads w .rollback { w with writer := .idle }
  | publish {event : SopQualityEvent} : w.writer = .committed event →
      Happens reads w .publish { w.publish event with writer := .idle }
  | skipPublish : Happens reads w .skipPublish { w with writer := .idle }
  | setStatus {status : CheckStatus} :
      Happens reads w (.setStatus status) { w with check := some status }
  | resume {w' : World} : Resumes reads w w' → Happens reads w .resume w'
  | timeout : w.loop.control = .waiting →
      Happens reads w .timeout { w with loop := { w.loop with control := .polling } }
  | disconnect :
      Happens reads w .disconnect { w with loop := { w.loop with control := .ended } }

theorem resumes {reads : Reads} {w w' : World} (h : w.resume reads = some w') :
    Resumes reads w w' := by
  unfold World.resume at h
  split at h
  · split at h
    · obtain rfl := Option.some.inj h
      exact .subscribe ‹_›
    · obtain rfl := Option.some.inj h
      exact .refuse ‹_›
  · obtain rfl := Option.some.inj h
    exact .poll ‹_›
  · obtain rfl := Option.some.inj h
    exact .replay ‹_›
  · obtain rfl := Option.some.inj h
    exact .check ‹_›
  · split at h
    · cases h
    · obtain rfl := Option.some.inj h
      exact .take ‹_› ‹_›
  · obtain rfl := Option.some.inj h
    exact .round ‹_›
  · obtain rfl := Option.some.inj h
    exact .leave ‹_›
  · cases h

theorem happens {reads : Reads} {mv : Move} {w w' : World} (h : step reads mv w = some w') :
    Happens reads w mv w' := by
  cases mv with
  | resume => exact .resume (resumes h)
  | disconnect =>
      obtain rfl := Option.some.inj h
      exact .disconnect
  | _ =>
      simp only [step] at h
      split at h
      · obtain rfl := Option.some.inj h
        first
          | exact .append ‹_›
          | exact .commit ‹_›
          | exact .publish ‹_›
          | exact .rollback
          | exact .skipPublish
          | exact .setStatus
          | exact .timeout ‹_›
      · cases h

/-- The events that a check has had so far. -/
structure History where
  events : List SopQualityEvent
  numbered : Numbered (·.sequence) events

/-- A stream is opened on a check with a history. -/
def start (checkId : CheckId) (broadcast : Bool) (history : History) (check : Option CheckStatus)
    (after : Nat) : World where
  checkId := checkId
  broadcast := broadcast
  committed := history.events
  check := check
  writer := .idle
  queue := []
  loop := {
    after := after
    cursor := after
    control := .opening
    check := none
    sent := []
    horizon := history.events.length
    tookLive := false }

end ChangeQuality.CheckStream
