import TechScreen.Lib.Dict
import TechScreen.Lib.OrderedSet
import TechScreen.Lib.Run
import TechScreen.Lib.Copies
import TechScreen.Lib.Champion
import TechScreen.Lib.Lockstep
import TechScreen.Lib.Gauge
import TechScreen.Lib.Docket
import TechScreen.Lib.Uuid
import TechScreen.Lib.UuidText
import TechScreen.Lib.Group
import TechScreen.Lib.Pattern
import TechScreen.Lib.SortOn
import TechScreen.Lib.JsonData
import TechScreen.Lib.Casing
import TechScreen.Lib.Splice
import TechScreen.Lib.Nest
import TechScreen.Lib.Json
import TechScreen.Lib.JsonSchema
import TechScreen.Lib.JsonText
import TechScreen.Lib.Dumps
import TechScreen.Lib.JsonSize
import TechScreen.Lib.Decimal
import TechScreen.Orchestrator.Config
import TechScreen.Orchestrator.Plan
import TechScreen.Orchestrator.State
import TechScreen.Orchestrator.Adjudicate
import TechScreen.Orchestrator.Machine
import TechScreen.Orchestrator.Edges
import TechScreen.Orchestrator.Invariant
import TechScreen.Orchestrator.Phases
import TechScreen.Orchestrator.Budget
import TechScreen.Orchestrator.Traversal
import TechScreen.Orchestrator.Delivery
import TechScreen.Orchestrator.Locality
import TechScreen.Orchestrator.FreeText
import TechScreen.Orchestrator.Evidence
import TechScreen.Orchestrator.LateAssessments
import TechScreen.Orchestrator.AssessmentDocket
import TechScreen.Orchestrator.ReviewFlag
import TechScreen.Orchestrator.FailureLadder
import TechScreen.Orchestrator.GapMarkers
import TechScreen.Orchestrator.SessionLimit
import TechScreen.Orchestrator.Deadline
import TechScreen.Orchestrator.TimeShift
import TechScreen.Orchestrator.Redelivery
import TechScreen.Orchestrator.Persistence
import TechScreen.Services.DevSession
import TechScreen.Services.NodeIds
import TechScreen.Services.Interleaving
import TechScreen.Services.Serial
import TechScreen.Services.Repost
import TechScreen.Services.Reachable
import TechScreen.Services.Obligations
import TechScreen.Services.Recovery
import TechScreen.Services.Pace
import TechScreen.Services.Settling
import TechScreen.Services.Conversation
import TechScreen.Services.Transcript
import TechScreen.Services.Resumes
import TechScreen.Services.PriorTurns
import TechScreen.Services.FeatureFlags
import TechScreen.Services.FlagStaleness
import TechScreen.Services.FlagSync
import TechScreen.Services.TemplateConcurrency
import TechScreen.Agents.Turns
import TechScreen.Agents.UserPayload
import TechScreen.Agents.PayloadSize
import TechScreen.Agents.Contract
import TechScreen.Services.BookedShell
import TechScreen.Services.Halt
import TechScreen.Services.Ceiling
import TechScreen.Llm.Pricing
import TechScreen.Llm.Trace
import TechScreen.Llm.CallModel
import TechScreen.Llm.Ledgers
import TechScreen.Llm.InFlight
import TechScreen.Llm.Audit
import TechScreen.Llm.AttemptCount
import TechScreen.Agents.OutputModels
import TechScreen.Agents.OutputContract
import TechScreen.Services.RetryBudgets
import TechScreen.Services.InputAssembly
import TechScreen.Services.Provenance
import TechScreen.Rubric.Documents
import TechScreen.Rubric.Tables
import TechScreen.Rubric.Importer
import TechScreen.Rubric.Snapshot
import TechScreen.Rubric.Materialise
import TechScreen.Rubric.Placement
import TechScreen.Rubric.RoundTrip
import TechScreen.Rubric.Completeness
import TechScreen.Rubric.Editions
import TechScreen.Rubric.History
import TechScreen.Rubric.Layers
import TechScreen.Rubric.PayloadHash
import TechScreen.Rubric.ConcurrentSeeds
import TechScreen.Rubric.Gate
import TechScreen.Rubric.GateIndex
import TechScreen.Rubric.Masking
import TechScreen.Rubric.Renames
import TechScreen.Rubric.Convert
import TechScreen.Rubric.SheetRows
import TechScreen.Rubric.Canonical
import TechScreen.Rubric.RowsKept
import TechScreen.Rubric.BlockIds
import TechScreen.Logging.Redaction
import TechScreen.Access.Claims
import TechScreen.Access.Agreement
import TechScreen.Access.Certs
import TechScreen.Frontend.Tokens
import TechScreen.Frontend.Lossless
import TechScreen.Frontend.PositionForm
import TechScreen.Frontend.DevConsole
