import TsEpistle.Admission.Files
import TsEpistle.Agents.ChildBudgets
import TsEpistle.Agents.CompactionRequests
import TsEpistle.Agents.Concurrency
import TsEpistle.Agents.Continuations
import TsEpistle.Agents.DispatchTotals
import TsEpistle.Agents.Lifecycle
import TsEpistle.Agents.McpLimiter
import TsEpistle.Agents.PdfCacheSafety
import TsEpistle.Agents.Quotas
import TsEpistle.Agents.SideEffects
import TsEpistle.Agents.SkillRoundTrip
import TsEpistle.Collaboration.DraftReset
import TsEpistle.ContentExtensions.FencedEnvelopes
import TsEpistle.Discussions.Recovery
import TsEpistle.Documents.HtmlRoundTrip
import TsEpistle.Federation.AttemptRuns
import TsEpistle.Glossary.AutolinkedTexts
import TsEpistle.Glossary.Graph
import TsEpistle.Groups.Escalation
import TsEpistle.Jobs.Attempts
import TsEpistle.LinePatch.Disclosure
import TsEpistle.LiveNotes.Safety
import TsEpistle.Markdown.PlacedBlocks
import TsEpistle.Notifications.Watchers
import TsEpistle.Offline.DraftRuns
import TsEpistle.Offline.KeyBinding
import TsEpistle.Outbox.LinkAgreement
import TsEpistle.Pages.ParsedPaths
import TsEpistle.Pages.Retained
import TsEpistle.Pages.TreeFaithful
import TsEpistle.Pages.UpdatesApplied
import TsEpistle.Proposals.AtMostOnce
import TsEpistle.Protection.Unlocking
import TsEpistle.Search.Continuations
import TsEpistle.Search.Promotion
import TsEpistle.Specialists.Races
import TsEpistle.Storage.GitListings
import TsEpistle.Storage.Ownership
import TsEpistle.Taxonomy.Previews
import TsEpistle.Throttling.Admission
