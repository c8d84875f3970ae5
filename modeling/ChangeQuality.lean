import ChangeQuality.McpLocks
import ChangeQuality.Records
import ChangeQuality.McpSystem
import ChangeQuality.McpService
import ChangeQuality.McpServers
import ChangeQuality.ReadCommitted
import ChangeQuality.Interference
import ChangeQuality.SopTables
import ChangeQuality.SopRepository
import ChangeQuality.SopRunner
import ChangeQuality.SopSystem
import ChangeQuality.SopEffects
import ChangeQuality.SopInvariant
import ChangeQuality.SopDiscipline
import ChangeQuality.SopOutcomes
import ChangeQuality.SopTransactions
import ChangeQuality.SopEvents
import ChangeQuality.SopCompletion
import ChangeQuality.SopLinks
import ChangeQuality.SopSessions
import ChangeQuality.Runs
import ChangeQuality.SequencedLog
import ChangeQuality.SessionStream
import ChangeQuality.SessionDelivery
import ChangeQuality.SessionOrder
import ChangeQuality.SessionEnding
import ChangeQuality.SessionDeltas
import ChangeQuality.CheckStream
import ChangeQuality.CheckOrder
import ChangeQuality.SopSequences
import ChangeQuality.Histories
import ChangeQuality.SopRunners
import ChangeQuality.SopCreation
import ChangeQuality.SopJoining
import ChangeQuality.SessionMirror
import ChangeQuality.JsonDecoding
import ChangeQuality.SopReview
import ChangeQuality.McpWorkers
import ChangeQuality.McpCommands
import ChangeQuality.McpRedaction
import ChangeQuality.Solo
import ChangeQuality.McpFailures
import ChangeQuality.McpValidation
import ChangeQuality.LlmProviders
import ChangeQuality.NodeProjection
import ChangeQuality.NodeHistory
import ChangeQuality.CheckMirror
import ChangeQuality.MarkedTexts
import ChangeQuality.McpApi
import ChangeQuality.McpSnapshots
import ChangeQuality.McpPrograms
import ChangeQuality.McpOwnership
import ChangeQuality.McpStatuses
import ChangeQuality.McpShownStatuses
import ChangeQuality.McpLaunches
import ChangeQuality.McpLiveRuntimes
import ChangeQuality.Agents
import ChangeQuality.AgentRepository
import ChangeQuality.AgentVersions
import ChangeQuality.AgentPublishing
import ChangeQuality.SopSummaries
import ChangeQuality.JsonEncoding
import ChangeQuality.SopNormalForm
import ChangeQuality.JsonLineBreaks
import ChangeQuality.SopFences
import ChangeQuality.McpErrorTexts
import ChangeQuality.SopVerdicts
import ChangeQuality.LlmConnectivity
import ChangeQuality.McpConfigurations
import ChangeQuality.McpForms
import ChangeQuality.AgentStreaming
import ChangeQuality.McpStartup
import ChangeQuality.CheckEndings
import ChangeQuality.LlmProviderForms
import ChangeQuality.McpFormMasks
import ChangeQuality.AuthProvider
import ChangeQuality.Broadcasts
import ChangeQuality.JsonConverters
import ChangeQuality.StreamEvents
import ChangeQuality.AgentTranscripts
import ChangeQuality.EventSource
import ChangeQuality.SessionFrames
import ChangeQuality.Interpretation
import ChangeQuality.McpTasks
import ChangeQuality.McpRegistry
import ChangeQuality.McpCalls
import ChangeQuality.McpBodies
import ChangeQuality.McpReturns
import ChangeQuality.McpTerminated
import ChangeQuality.McpInnerHandles
import ChangeQuality.McpInnerRuns
import ChangeQuality.SopScripts
import ChangeQuality.SopTranscripts
import ChangeQuality.SopConclusions
import ChangeQuality.SopDetails
import ChangeQuality.AgentDrafts
import ChangeQuality.McpProgress
import ChangeQuality.CheckDelivery
import ChangeQuality.Access
import ChangeQuality.ProviderEditing
import ChangeQuality.McpShutdown
import ChangeQuality.RemoteReads
import ChangeQuality.RequestHooks
import ChangeQuality.CheckFrames
import ChangeQuality.AgentEditing
