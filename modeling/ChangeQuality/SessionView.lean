import ChangeQuality.Records
import ChangeQuality.SessionDelivery

/-!
The view of a session in the browser: the reducer of the session events, and `useSessionStream`,
which loads the first page of messages, follows the event stream and connects again after an error.
An event goes over the connection as a text that is parsed back to the event.
-/

namespace ChangeQuality.SessionView

open ChangeQuality.Values
open ChangeQuality.Records
open ChangeQuality.SopTables
open ChangeQuality.SessionStream

/-- The columns of a message that the tables of the model leave out. -/
structure Columns where
  id : Message → String
  createdAt : Message → String

/-- A message in the browser. -/
structure SessionMessage where
  id : String
  sessionId : SessionId
  sequence : Nat
  role : String
  content : String
  additionalKwargs : Json
  createdAt : String

inductive SessionConnectionStatus where
  | idle
  | connecting
  | opened
  | reconnecting
  | closed
  deriving DecidableEq

structure SessionViewState where
  latestSequence : Nat
  messages : List SessionMessage
  liveBuffers : List (String × String)
  connectionStatus : SessionConnectionStatus
  thinking : List (String × Bool)

def createInitialSessionViewState : SessionViewState where
  latestSequence := 0
  messages := []
  liveBuffers := []
  connectionStatus := .idle
  thinking := []

section Reducer

variable (columns : Columns)

/-- A message as `GET /messages` returns it. -/
def readMessage (m : Message) : SessionMessage where
  id := columns.id m
  sessionId := m.sessionId
  sequence := m.sequence
  role := m.role
  content := m.content
  additionalKwargs := m.additionalKwargs
  createdAt := columns.createdAt m

def hydrateSessionViewState (messages : List SessionMessage) : SessionViewState :=
  { createInitialSessionViewState with
    latestSequence := messages.foldl (fun max message => Nat.max max message.sequence) 0
    messages }

/-- `readString` of an entry, where the empty string counts as missing. -/
def readKey (additional : Json) (key : String) : Option String :=
  ((additional.get key).asStr?).filter (· ≠ "")

def bufferKey (additional : Json) : String :=
  match readKey additional "step", readKey additional "turn_id" with
  | some step, _ => "step:" ++ step
  | none, some turnId => "turn:" ++ turnId
  | none, none => "default"

def reduceSessionStreamEvent (state : SessionViewState) : Event → SessionViewState
  | .message m =>
      if state.messages.any fun existing => existing.sequence = m.sequence then state
      else { state with
        latestSequence := max state.latestSequence m.sequence
        messages := state.messages ++
          [{ readMessage columns m with id := "msg-" ++ toString m.sequence }]
        liveBuffers := without (bufferKey m.additionalKwargs) state.liveBuffers }
  | .messageDelta delta =>
      let stepKey := bufferKey delta.additionalKwargs
      if (delta.additionalKwargs.get "channel").asStr? = some "thinking" then
        { state with thinking := put stepKey true state.thinking }
      else if delta.content = "" then state
      else { state with
        liveBuffers :=
          put stepKey ((state.liveBuffers.lookup stepKey).getD "" ++ delta.content)
            state.liveBuffers }
  | .ended _ => state

end Reducer

/-- How far the two effects of the hook have got. -/
inductive Phase where
  /-- `getSessionMessages` is under way. -/
  | loading
  /-- Its answer is on the way. -/
  | answered (page : List Message)
  | failed
  /-- `setHydratedFor` has been called, and the second effect is due. -/
  | hydrated
  /-- `eventSource` is the current source. -/
  | connected
  /-- `reconnectTimer` is set. -/
  | reconnecting
  | closed
  | unmounted

/-- The local state of `useSessionStream`. -/
structure Client where
  cursorRef : Nat
  terminalRef : Bool
  state : SessionViewState
  error : Option String
  loading : Bool
  phase : Phase

def Phase.isConnected : Phase → Bool
  | .connected => true
  | _ => false

namespace Client

/-- The first effect runs. -/
def mount : Client where
  cursorRef := 0
  terminalRef := false
  state := createInitialSessionViewState
  error := none
  loading := true
  phase := .loading

def setConnectionStatus (client : Client) (connectionStatus : SessionConnectionStatus) : Client :=
  { client with state := { client.state with connectionStatus } }

/-- What follows `await getSessionMessages(sessionId, 0)`. -/
def hydrate (columns : Columns) (client : Client) (page : List Message) : Client :=
  let hydrated := hydrateSessionViewState (page.map (readMessage columns))
  { client with
    cursorRef := hydrated.latestSequence
    state := hydrated
    loading := false
    phase := .hydrated }

/-- `handle`; an event of a source that is not the current one is dropped. -/
def handle (columns : Columns) (client : Client) (event : Event) : Client :=
  if !client.phase.isConnected || client.terminalRef then client
  else
    match event with
    | .ended _ =>
        { client.setConnectionStatus .closed with terminalRef := true, phase := .closed }
    | event => { client with
        cursorRef := (messageEventSequence event).elim client.cursorRef (max client.cursorRef)
        state := reduceSessionStreamEvent columns client.state event }

/-- The source fires an event. One named `message` reaches `onmessage` and the listener, which are
both `handle`. -/
def dispatch (columns : Columns) (client : Client) (event : Event) : Client :=
  match event with
  | .message _ => (client.handle columns event).handle columns event
  | _ => client.handle columns event

end Client

/-- The server, the events on the current connection, and the browser. -/
structure System where
  server : World
  connection : List Event
  client : Client

/-- The moves of a run: those of the server, and those of the browser. -/
inductive Turn where
  | server (move : Move)
  /-- The effects run from the start, for the first time or again. -/
  | mount
  | answer
  | refuse (error : String)
  | hydrate
  | connect
  | opened
  | deliver
  /-- `onerror`. -/
  | error
  | unmount

/-- A new request for the stream has reached the server. -/
def listen (server : World) (after : Nat) : World :=
  { server with
    queue := []
    loop := {
      after := after
      cursor := after
      control := .opening
      currentSession := none
      sent := []
      horizon := server.committed.length } }

namespace System

/-- The server has moved; what its loop has yielded goes onto the connection. -/
def serve (s : System) (server : World) : System :=
  { s with
    server
    connection := if s.client.phase.isConnected then
        s.connection ++ server.loop.sent.drop s.server.loop.sent.length
      else s.connection }

/-- `connect`, called by the second effect or by the timer. -/
def connect (s : System) (client : Client) : System where
  server := listen s.server client.cursorRef
  connection := []
  client := { client with phase := .connected }

/-- The current connection is gone. -/
def drop (s : System) (client : Client) : System :=
  { s with connection := [], client }

end System

def step (reads : Reads) (columns : Columns) : Turn → System → Option System
  | .server mv, s => (SessionStream.step reads mv s.server).map s.serve
  | .mount, s => some (s.drop .mount)
  | .answer, s =>
      match s.client.phase, s.server.session with
      | .loading, some _ => some { s with
          client := { s.client with phase := .answered (getMessagesAfter s.server.committed 0) } }
      | _, _ => none
  | .refuse error, s =>
      match s.client.phase with
      | .loading | .answered _ => some { s with
          client := { s.client with error := some error, loading := false, phase := .failed } }
      | _ => none
  | .hydrate, s =>
      match s.client.phase with
      | .answered page => some { s with client := s.client.hydrate columns page }
      | _ => none
  | .connect, s =>
      match s.client.phase with
      | .hydrated => some (s.connect (s.client.setConnectionStatus .connecting))
      | .reconnecting => some (s.connect s.client)
      | _ => none
  | .opened, s =>
      match s.client.phase with
      | .connected => some { s with client := s.client.setConnectionStatus .opened }
      | _ => none
  | .deliver, s =>
      match s.client.phase, s.connection with
      | .connected, event :: rest => some { s with
          connection := rest
          client := s.client.dispatch columns event }
      | _, _ => none
  | .error, s =>
      match s.client.phase with
      | .connected =>
          some (s.drop { s.client.setConnectionStatus .reconnecting with phase := .reconnecting })
      | _ => none
  | .unmount, s => some (s.drop { s.client with phase := .unmounted })

/-- The view of a session is opened on a session with a history. -/
def start (sessionId : SessionId) (history : History) (session : Option SessionStatus) :
    System where
  server := SessionStream.start sessionId history session 0
  connection := []
  client := .mount

/-- A message without the columns that the view does not take from the tables. -/
def SessionMessage.persisted (message : SessionMessage) : Message where
  sessionId := message.sessionId
  sequence := message.sequence
  role := message.role
  content := message.content
  additionalKwargs := message.additionalKwargs

/-- The view shows the persisted messages up to its latest sequence, each of them once and in
order, and the cursor of the next request is that sequence. -/
structure Mirrors (s : System) : Prop where
  messages : s.client.state.messages.map (·.persisted) =
    s.server.committed.filter fun m => m.sequence ≤ s.client.state.latestSequence
  sequences : s.client.state.messages.map (·.sequence) =
    List.range' 1 s.client.state.latestSequence
  cursor : s.client.cursorRef = s.client.state.latestSequence

end ChangeQuality.SessionView
