import ChangeQuality.Records
import ChangeQuality.SequencedLog
import ChangeQuality.SopTables

/-!
The view of a check in the browser: the reducer of the check's events, and `useSopQualityCheck`,
which loads the detail of the check again and again while it follows the event stream.
-/

namespace ChangeQuality.CheckView

open ChangeQuality.Records
open ChangeQuality.SequencedLog
open ChangeQuality.SopTables

inductive CheckEventType where
  | created
  | started
  | messages
  | updates
  | checkpoint
  | completed
  | failed
  | cancelled
  | interrupted
  deriving DecidableEq

/-- Membership in `CHECK_EVENT_NAMES`, which the source of the events has listeners for. -/
def CheckEventType.listened : CheckEventType → Bool
  | .cancelled => false
  | _ => true

inductive Channel where
  | thinking
  | summary
  | result

structure SopQualityCheckEvent where
  checkId : String
  sequence : Nat
  type : CheckEventType
  node : Option String
  channel : Option Channel
  message : Option String

inductive NodeStatus where
  | idle
  | running
  | done
  | error
  | interrupted
  deriving DecidableEq

structure SopQualityNodeState where
  status : NodeStatus
  streamText : String
  thinkingText : Option String
  error : Option String
  firstSequence : Option Nat

structure SopQualityDisplayState where
  latestSequence : Nat
  nodes : List (String × SopQualityNodeState)
  isRunning : Bool

inductive ConnectionStatus where
  | idle
  | connecting
  | opened
  | reconnecting
  | closed
  deriving DecidableEq

structure SopQualityCheckViewState where
  latestSequence : Nat
  nodes : List (String × SopQualityNodeState)
  events : List SopQualityCheckEvent
  needsRefresh : Bool
  isRunning : Bool
  connectionStatus : ConnectionStatus

def createInitialSopQualityCheckViewState : SopQualityCheckViewState where
  latestSequence := 0
  nodes := []
  events := []
  needsRefresh := false
  isRunning := true
  connectionStatus := .idle

def hydrateFromDisplayState (displayState : SopQualityDisplayState) : SopQualityCheckViewState :=
  { createInitialSopQualityCheckViewState with
    latestSequence := displayState.latestSequence
    nodes := displayState.nodes
    isRunning := displayState.isRunning }

section Reducer

def createNodeState : SopQualityNodeState where
  status := .idle
  streamText := ""
  thinkingText := none
  error := none
  firstSequence := none

/-- `event.node`, where the empty string counts as missing. -/
def nodeOf (event : SopQualityCheckEvent) : Option String :=
  event.node.filter (· ≠ "")

/-- A node of the view is replaced. -/
def updateNode (state : SopQualityCheckViewState) (node : String)
    (update : SopQualityNodeState → SopQualityNodeState) : SopQualityCheckViewState :=
  let currentNode := (state.nodes.lookup node).getD createNodeState
  { state with nodes := put node (update currentNode) state.nodes }

def updateEventNode (state : SopQualityCheckViewState) (event : SopQualityCheckEvent)
    (status : NodeStatus) : SopQualityCheckViewState :=
  match nodeOf event with
  | none => state
  | some node => updateNode state node fun currentNode =>
      { currentNode with
        status := status
        streamText := event.message.getD currentNode.streamText
        error := if status = .error then event.message.orElse fun _ => currentNode.error else none
        firstSequence := currentNode.firstSequence.orElse fun _ => event.sequence }

def appendEventNodeMessage (state : SopQualityCheckViewState) (event : SopQualityCheckEvent) :
    SopQualityCheckViewState :=
  match nodeOf event with
  | none => state
  | some node =>
      match event.channel with
      | some .thinking => updateNode state node fun currentNode =>
          { currentNode with
            status := .running
            thinkingText := event.message.orElse fun _ => currentNode.thinkingText
            firstSequence := currentNode.firstSequence.orElse fun _ => event.sequence }
      | some .summary => updateNode state node fun currentNode =>
          { currentNode with
            status := .running
            streamText := event.message.getD currentNode.streamText
            firstSequence := currentNode.firstSequence.orElse fun _ => event.sequence }
      | some .result => state
      | none => updateNode state node fun currentNode =>
          { currentNode with
            status := .running
            streamText := currentNode.streamText ++ event.message.getD ""
            firstSequence := currentNode.firstSequence.orElse fun _ => event.sequence }

def settleRunningNodes (nodes : List (String × SopQualityNodeState)) :
    List (String × SopQualityNodeState) :=
  nodes.map fun (nodeId, node) =>
    (nodeId, if node.status = .running then { node with status := .done } else node)

def reduceSopQualityCheckEvent (state : SopQualityCheckViewState) (event : SopQualityCheckEvent) :
    SopQualityCheckViewState :=
  let nextState := { state with
    latestSequence := max state.latestSequence event.sequence
    events := state.events ++ [event] }
  match event.type with
  | .checkpoint => { updateEventNode nextState event .done with needsRefresh := true }
  | .started => { updateEventNode nextState event .running with isRunning := true }
  | .messages => appendEventNodeMessage nextState event
  | .updates => updateEventNode nextState event .running
  | .completed =>
      { nextState with
        nodes := settleRunningNodes nextState.nodes
        needsRefresh := true
        isRunning := false
        connectionStatus := .closed }
  | .failed =>
      { updateEventNode nextState event .error with
        needsRefresh := true
        isRunning := false
        connectionStatus := .closed }
  | .interrupted =>
      { updateEventNode nextState event .interrupted with
        needsRefresh := true
        isRunning := false
        connectionStatus := .closed }
  | .created | .cancelled => nextState

end Reducer

/-- Membership in `TERMINAL_CHECK_STATUSES`. -/
def terminal : CheckStatus → Bool
  | .succeeded | .failed | .cancelled | .interrupted => true
  | .pending | .running => false

def isTerminalEvent (event : SopQualityCheckEvent) : Bool :=
  event.type = .completed ∨ event.type = .failed ∨ event.type = .interrupted

/-- `nextCursor`, given what `lastEventId` is parsed to. -/
def nextCursor (currentCursor : Nat) (parsedId : Option Nat) (event : SopQualityCheckEvent) : Nat :=
  max currentCursor (parsedId.getD event.sequence)

structure SopQualityCheckDetail where
  status : CheckStatus
  displayState : SopQualityDisplayState

/-- An open source: the cursor of its URL, and the sequence of the last event that it has fired. -/
structure EventSource where
  after : Nat
  position : Nat

/-- The local state of `useSopQualityCheck`. A request that `getSopQualityCheck` has under way is
kept with the answer that the server has given to it. -/
structure Hook where
  checkId : String
  cursorRef : Nat
  terminalRef : Bool
  detailRequestRef : Nat
  requests : List (Nat × Option SopQualityCheckDetail)
  detail : Option SopQualityCheckDetail
  error : Option String
  loading : Bool
  state : SopQualityCheckViewState
  eventSource : Option EventSource
  reconnectTimer : Bool

namespace Hook

/-- A request is over. -/
def settle (hook : Hook) (requestId : Nat) : Hook :=
  { hook with requests := without requestId hook.requests }

def setConnectionStatus (hook : Hook) (connectionStatus : ConnectionStatus) : Hook :=
  { hook with state := { hook.state with connectionStatus } }

/-- What `refreshDetail` does before its `await`. -/
def refreshDetail (hook : Hook) : Hook :=
  let requestId := hook.detailRequestRef + 1
  { hook with
    detailRequestRef := requestId
    requests := put requestId none hook.requests
    loading := true
    error := none }

/-- What `refreshDetail` does with its answer. -/
def onDetail (hook : Hook) (requestId : Nat) (nextDetail : SopQualityCheckDetail) : Hook :=
  if hook.detailRequestRef ≠ requestId then hook
  else { hook with
    cursorRef := nextDetail.displayState.latestSequence
    terminalRef := terminal nextDetail.status
    detail := some nextDetail
    state := { hydrateFromDisplayState nextDetail.displayState with
      connectionStatus := if terminal nextDetail.status then .closed else .idle }
    loading := false }

def onDetailError (hook : Hook) (requestId : Nat) (error : String) : Hook :=
  if hook.detailRequestRef ≠ requestId then hook
  else { hook with error := some error, loading := false }

def connect (hook : Hook) : Hook :=
  if hook.terminalRef then hook
  else { hook with eventSource := some { after := hook.cursorRef, position := hook.cursorRef } }

/-- The clean-up of the stream effect. -/
def cleanUp (hook : Hook) : Hook :=
  { hook with eventSource := none, reconnectTimer := false }

/-- The stream effect, with the detail of the render that it belongs to. -/
def streamEffect (hook : Hook) : Hook :=
  match hook.detail with
  | none => hook
  | some detail =>
      if terminal detail.status then hook else (hook.setConnectionStatus .connecting).connect

def handleCheckMessage (hook : Hook) (parsedId : Option Nat) (event : SopQualityCheckEvent) :
    Hook :=
  if hook.terminalRef ∨ event.checkId ≠ hook.checkId then hook
  else
    let reduced := { hook with
      cursorRef := nextCursor hook.cursorRef parsedId event
      state := reduceSopQualityCheckEvent hook.state event }
    let refreshed := if event.type = .checkpoint then reduced.refreshDetail else reduced
    if isTerminalEvent event then
      { refreshed with terminalRef := true, eventSource := none }.refreshDetail
    else refreshed

/-- `source.onerror`. A source that is not the current one stays, and connects again by itself. -/
def onError (hook : Hook) (source : EventSource) : Hook :=
  if hook.terminalRef then
    { hook with eventSource := some { source with position := source.after } }
  else
    { hook.setConnectionStatus .reconnecting with eventSource := none, reconnectTimer := true }

end Hook

/-- The events of the check, and the browser. -/
structure System where
  log : List SopQualityCheckEvent
  hook : Hook

/-- `latest_sequence` of the check. -/
def latestSequence (log : List SopQualityCheckEvent) : Nat :=
  latest (·.sequence) log

inductive Turn where
  /-- The check has one more event. -/
  | append (event : SopQualityCheckEvent)
  | refresh
  /-- The server answers a request for the detail. -/
  | answer (requestId : Nat) (status : CheckStatus)
      (nodes : List (String × SopQualityNodeState)) (isRunning : Bool)
  /-- An answer reaches the browser. -/
  | arrive (requestId : Nat)
  | refuse (requestId : Nat) (error : String)
  /-- The stream effect is cleaned up and runs again. -/
  | rerun
  | opened
  | deliver
  | error
  | reconnect

def step : Turn → System → Option System
  | .append event, s =>
      if event.checkId = s.hook.checkId ∧ latestSequence s.log < event.sequence then
        some { s with log := s.log ++ [event] }
      else none
  | .refresh, s => some { s with hook := s.hook.refreshDetail }
  | .answer requestId status nodes isRunning, s =>
      match s.hook.requests.lookup requestId with
      | some none =>
          let displayState := { latestSequence := latestSequence s.log, nodes, isRunning }
          let requests := put requestId (some { status, displayState }) s.hook.requests
          some { s with hook := { s.hook with requests } }
      | _ => none
  | .arrive requestId, s =>
      match s.hook.requests.lookup requestId with
      | some (some nextDetail) =>
          some { s with hook := (s.hook.settle requestId).onDetail requestId nextDetail }
      | _ => none
  | .refuse requestId error, s =>
      match s.hook.requests.lookup requestId with
      | some _ => some { s with hook := (s.hook.settle requestId).onDetailError requestId error }
      | none => none
  | .rerun, s => some { s with hook := s.hook.cleanUp.streamEffect }
  | .opened, s =>
      match s.hook.eventSource with
      | some _ => some { s with
          hook := if s.hook.terminalRef then s.hook else s.hook.setConnectionStatus .opened }
      | none => none
  | .deliver, s =>
      match s.hook.eventSource with
      | some source =>
          match nextAfter (·.sequence) s.log source.position with
          | some event =>
              let moved := { s.hook with
                eventSource := some { source with position := event.sequence } }
              some { s with hook :=
                if event.type.listened then moved.handleCheckMessage (some event.sequence) event
                else moved }
          | none => none
      | none => none
  | .error, s =>
      match s.hook.eventSource with
      | some source => some { s with hook := s.hook.onError source }
      | none => none
  | .reconnect, s =>
      if s.hook.reconnectTimer then
        some { s with hook := { s.hook with reconnectTimer := false }.connect }
      else none

/-- The effects of the first render have run, for a check with these events. -/
def start (checkId : String) (log : List SopQualityCheckEvent) : System where
  log := log
  hook := {
    checkId := checkId
    cursorRef := 0
    terminalRef := false
    detailRequestRef := 1
    requests := [(1, none)]
    detail := none
    error := none
    loading := true
    state := createInitialSopQualityCheckViewState
    eventSource := none
    reconnectTimer := false }

/-- The latest sequence of the snapshot that the view was last hydrated from. -/
def Hook.hydratedAt (hook : Hook) : Nat :=
  hook.detail.elim 0 (·.displayState.latestSequence)

/-- The events that the view has reduced since it was last hydrated are those of the check between
the snapshot and the cursor, each of them once and in order. -/
def Mirrors (s : System) : Prop :=
  s.hook.state.events = between (·.sequence) s.log s.hook.hydratedAt s.hook.cursorRef

end ChangeQuality.CheckView
