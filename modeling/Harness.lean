import Harness.Session.RepairCalls
import Harness.Agent.InboxContract
import Harness.AgentLoop.ToolCallsContract
import Harness.Persistence.WriteBehindContract
import Harness.Persistence.ChunkSplit
import Harness.Persistence.ZstdContract
import Harness.Persistence.TornWrite
import Harness.Persistence.ReadFromContract
import Harness.Persistence.PreparationsContract
import Harness.Compaction.PairsContract
import Harness.Projections.RegistryContract
import Harness.Projections.CacheContract
import Harness.Retention.RetainerContract
import Harness.Compaction.PrunedText
import Harness.Compaction.BracketsContract
import Harness.TokenMeter.UsageContract
import Harness.Compaction.Selection
import Harness.Schedule.LocalContract
import Harness.Schedule.EveryContract
import Harness.Settings.RedactedEdits
import Harness.FsRead.Paging
import Harness.Goal.RefinesFold
import Harness.History.Paginate
import Harness.Subagent.Settlement
import Harness.Jobs.Contract
import Harness.SessionStore.Contract
import Harness.PiAi.ReplayContract
import Harness.ClientSessions.Truthful
import Harness.ClientSessions.ProjectionStore
import Harness.Terminal.SendContract
import Harness.Session.ChunkRowsExact
import Harness.AgentLoop.RuntimeContext
import Harness.AgentLoop.TurnContract
import Harness.Plan.PlanContract
import Harness.SettingsFile.PatchContract
import Harness.Mcp.Supervisor
import Harness.Memory.Paging
import Harness.FsLocal.EditContract
import Harness.LlmDeepseek.TranslateContract
import Harness.Lsp.Framing
import Harness.Tools.ValueContract
import Harness.Tools.RenderJson
import Harness.FsSearch.GlobSample
import Harness.Persistence.Segment
import Harness.Subprocess.OutputCollector
