import Crpg.Core.EventRun
import Crpg.Core.FixedText
import Crpg.Core.StreamIndependence
import Crpg.Core.UlidText
import Crpg.Data.MigrationRun
import Crpg.Data.OutcomeTables
import Crpg.Data.PackageResolution
import Crpg.Edit.CampaignWalk
import Crpg.Edit.Protection
import Crpg.Net.InterestNoninterference
import Crpg.Net.ReassemblyIdentity
import Crpg.Net.ResumeRun
import Crpg.Net.TokenBucket
import Crpg.Net.TransportAccounting
import Crpg.Net.WireDelivery
import Crpg.Quic.QueueRun
import Crpg.Rules.DependencyDepth
import Crpg.Rules.DiceSelection
import Crpg.Rules.IntegerArithmetic
import Crpg.Rules.QueryOrder
import Crpg.Rules.StatRoundTrip
import Crpg.Server.GrantRun
import Crpg.Server.HostFile
import Crpg.Server.OutcomeVocabulary
import Crpg.Sim.BonusIds
import Crpg.Sim.ExecutionPass
import Crpg.Sim.FairnessRun
import Crpg.Sim.HistoryConsumer
import Crpg.Sim.PaymentRun
import Crpg.Sim.Reentry
import Crpg.Sim.TimelineRun
import Crpg.Sim.TransferAtomicity
import Crpg.Sim.Translation
import Crpg.Testkit.Replay
