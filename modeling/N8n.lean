import N8n.Library.Runs
import N8n.Library.Tickets
import N8n.Library.Dict
import N8n.Library.IndexMap
import N8n.Library.Join
import N8n.Library.Fallible
import N8n.Library.Trace
import N8n.Library.FirstBest
import N8n.Library.Places
import N8n.Library.Precedence
import N8n.Library.Cells
import N8n.Library.Paths
import N8n.Library.FileTree
import N8n.Library.DepthFirst
import N8n.Library.Branches
import N8n.Library.Traversal
import N8n.Library.LowLink
import N8n.Values
import N8n.Workflow
import N8n.WorkflowExecute
import N8n.Deliveries
import N8n.RequestsResponse
import N8n.NodeExecution
import N8n.ProcessRunExecutionData
import N8n.WaitingNodes
import N8n.ConcurrencyControl
import N8n.TaskBroker
import N8n.TaskBrokerRun
import N8n.TaskRunner
import N8n.TaskRequester
import N8n.ConnectionIndexes
import N8n.DirectedGraph
import N8n.DisabledNodes
import N8n.RecreateNodeExecutionStack
import N8n.PartialExecution
import N8n.ExportedGraph
import N8n.TestWebhooks
import N8n.WebhookService
import N8n.ActiveWorkflows
import N8n.ActiveExecutions
import N8n.QueueRecovery
import N8n.MultiMainSetup
import N8n.WaitTracker
import N8n.ActiveWorkflowManager
import N8n.PairedItems
import N8n.DataRequest
import N8n.StreamCapturer
import N8n.DeduplicationHelper
import N8n.DataTableRows
import N8n.OperationsProcessor
import N8n.PythonAst
import N8n.TaskAnalyzer
import N8n.FileSystemHelpers
import N8n.WorkflowDiff
import N8n.Library.Elimination
import N8n.Library.Topmost
import N8n.Proofs.ConnectionIndexes
import N8n.Proofs.DirectedGraph
import N8n.Proofs.FilteredGraph
import N8n.Proofs.ExportedGraph
import N8n.Proofs.DisabledNodes
import N8n.Proofs.SourceDataGroups
import N8n.Proofs.CleanRunData
import N8n.Proofs.Components
import N8n.Proofs.Cycles
import N8n.Proofs.BranchOrder
import N8n.Proofs.Subgraph
import N8n.Proofs.RebuiltEntries
import N8n.Proofs.StartNodes
import N8n.Proofs.RebuiltWaiting
import N8n.Proofs.ReleasedEntries
import N8n.Proofs.TestWebhooks
import N8n.Proofs.WebhookMatching
import N8n.Proofs.WebhookCache
import N8n.Proofs.ActiveWorkflows
import N8n.Proofs.ActiveExecutions
import N8n.Proofs.QueueRecovery
import N8n.Proofs.MultiMainSetup
import N8n.Proofs.WaitTimers
import N8n.Proofs.WaitResumes
import N8n.Proofs.ActiveWorkflowManager
import N8n.Proofs.PairedItems
import N8n.Proofs.DataRequest
import N8n.Proofs.StreamCapturer
import N8n.Proofs.DataTableRows
import N8n.Proofs.DeduplicationEntries
import N8n.Proofs.BuilderHeap
import N8n.Proofs.BuilderEdits
import N8n.Proofs.BuilderInputs
import N8n.Proofs.TaskAnalyzer
import N8n.Proofs.FileSystemHelpers
import N8n.Proofs.WorkflowDiff
import N8n.Proofs.ExecutionRecovery
import N8n.Proofs.History
import N8n.Proofs.InsightsCollection
import N8n.Proofs.ExpressionParser
import N8n.Proofs.GraphUtils
import N8n.Proofs.ConcurrencyLimit
import N8n.Proofs.TaskRequests
import N8n.Proofs.TaskLife
import N8n.Proofs.TaskEnds
import N8n.Proofs.StrandedTasks
import N8n.Proofs.RunnerTasks
import N8n.Proofs.CancelledTasks
import N8n.Proofs.PythonTaskRunner
import N8n.Proofs.Deliveries
import N8n.Proofs.NodeExecution
import N8n.Proofs.RetryBound
import N8n.Proofs.PausedNodes
import N8n.Proofs.WaitingNodes
import N8n.Proofs.RunRecords
import N8n.Proofs.ToolResponses
import N8n.Proofs.ReleaseOrder
import N8n.HighestNodes
import N8n.Proofs.HighestNodes
import N8n.Proofs.ErrorOutput
import N8n.BuiltInsParser
import N8n.Proofs.BuiltInsParser
import N8n.Library.Distances
import N8n.SearchNodes
import N8n.Proofs.SearchNodes
import N8n.Library.Replacement
import N8n.NodeReferences
import N8n.ParameterValues
import N8n.Proofs.ParameterValues
import N8n.Library.Wildcards
import N8n.Library.Doubles
import N8n.ArrayExtensions
import N8n.Proofs.ArrayExtensions
import N8n.FromAiParseUtils
import N8n.Proofs.FromAiParseUtils
import N8n.DisplayOptions
import N8n.Proofs.DisplayOptions
import N8n.TypeValidation
import N8n.FilterParameter
import N8n.Proofs.FilterParameter
import N8n.ParameterOrder
import N8n.Proofs.ParameterOrder
import N8n.Library.Calendar
import N8n.Library.Recurrence
import N8n.Schedule
import N8n.AugmentObject
import N8n.Proofs.ArrayIndexes
import N8n.Proofs.AugmentObject
import N8n.AdditiveChanges
import N8n.Proofs.AdditiveChanges
import N8n.DanglingToolCalls
import N8n.Proofs.DanglingToolCalls
import N8n.Library.BoundedCache
import N8n.JsonCompatible
import N8n.Proofs.JsonCompatible
import N8n.SourceControlPaths
import N8n.Proofs.SourceControlPaths
import N8n.Library.Batches
import N8n.SplitInBatches
import N8n.Proofs.SplitInBatches
import N8n.Library.Pushes
import N8n.JsTaskRunnerSandbox
import N8n.Proofs.JsTaskRunnerSandbox
import N8n.FieldMatching
import N8n.Proofs.FieldMatching
import N8n.CompareDatasets
import N8n.Proofs.CompareDatasets
import N8n.Library.StableSort
import N8n.RemoveDuplicates
import N8n.Summarize
import N8n.Proofs.Summarize
import N8n.WorkflowHelpers
import N8n.Proofs.WorkflowHelpers
import N8n.Proofs.RemoveDuplicates
import N8n.Proofs.Schedule
import N8n.Proofs.NodeReferences
import N8n.NodeReferenceParser
import N8n.Proofs.NodeReferenceParser
import N8n.ExecutionHistory
import N8n.Proofs.ExecutionHistory
import N8n.RunPartialWorkflow
import N8n.Proofs.RunPartialWorkflow
import N8n.FolderService
import N8n.Proofs.FolderService
import N8n.Library.DoWhile
import N8n.InsightsCompaction
import N8n.Proofs.InsightsCompaction
import N8n.Library.Positions
import N8n.DataTableColumns
import N8n.Proofs.DataTableColumns
import N8n.Proofs.TaskIsolation
