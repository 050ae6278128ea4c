import Foxclaw.Process.CommandQueueCapacity
import Foxclaw.Process.CommandQueueLedger
import Foxclaw.Config.MergeById
import Foxclaw.AutoReply.FollowupAccounting
import Foxclaw.AutoReply.FollowupDestinations
import Foxclaw.Outbound.DeliverySafety
import Foxclaw.AutoReply.FollowupQuiescence
import Foxclaw.Cron.TimerLoop
import Foxclaw.Infra.HeartbeatWakeOnce
import Foxclaw.Gateway.ExecApprovalOnce
import Foxclaw.Agents.GuardedAppend
import Foxclaw.Infra.DeviceAuthority
import Foxclaw.Config.RawLeak
import Foxclaw.Agents.AnnounceDelivery
import Foxclaw.Gateway.AuthRateLimitBound
import Foxclaw.Agents.SubagentProgress
import Foxclaw.Agents.SubagentFlows
import Foxclaw.Routing.RouteCache
import Foxclaw.Gateway.NodeReconnects
import Foxclaw.Acp.SessionActorQueue
import Foxclaw.Gateway.SeqGaps
import Foxclaw.Acp.SessionLimit
import Foxclaw.Acp.TurnOptions
import Foxclaw.Acp.TurnLifecycle
import Foxclaw.Config.PatchRoundTrip
import Foxclaw.Config.EnvRefExact
import Foxclaw.Cron.LockedOrder
import Foxclaw.Cron.Reschedule
import Foxclaw.Cron.UpdateAtomic
import Foxclaw.Cron.MigrationFixpoint
import Foxclaw.Pairing.ApprovalFailures
import Foxclaw.Config.DiskBudgetExact
import Foxclaw.Config.SessionEviction
import Foxclaw.Infra.ExecWrapperLayers
import Foxclaw.Infra.SafeBinGetopt
import Foxclaw.Agents.ToolLoopBreaker
import Foxclaw.Agents.AuthProfileCooldowns
import Foxclaw.Agents.ToolResultTruncation
import Foxclaw.Agents.ContextPruning
import Foxclaw.Agents.ToolCallIdRenaming
import Foxclaw.Agents.HistoryPruning
import Foxclaw.Agents.ApplyPatchExact
import Foxclaw.Agents.ApplyPatch
import Foxclaw.AutoReply.ChunkMarkdownFences
import Foxclaw.Infra.ExecAllowlistPattern
import Foxclaw.Markdown.ChunkIr
import Foxclaw.Memory.ChunkMarkdown
import Foxclaw.Routing.ConversationKeys
import Foxclaw.Secrets.ApplyRollback
import Foxclaw.Markdown.Render
import Foxclaw.Shared.ReasoningTags
import Foxclaw.Agents.BashProcessRegistry
import Foxclaw.Infra.ExecApprovalsStored
import Foxclaw.Gateway.ClientIp
import Foxclaw.AutoReply.InboundDebounce
import Foxclaw.Acp.IdentityMerge
import Foxclaw.Cron.StaggeredSlots
import Foxclaw.Secrets.TargetPattern
import Foxclaw.Infra.Dedupe
