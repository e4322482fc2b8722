import Ravel.Proof.Agents.CancelledInputs
import Ravel.Proof.Agents.PageReserve
import Ravel.Proof.Agents.RetryAbsorption
import Ravel.Proof.Agents.StoredRoots
import Ravel.Proof.Agents.TimerDelivery
import Ravel.Proof.Catalog.FoldedShards
import Ravel.Proof.Codec.DictionaryColumns
import Ravel.Proof.Codec.IntegerPages
import Ravel.Proof.Codec.ScatteredRows
import Ravel.Proof.Codec.UntrustedPages
import Ravel.Proof.Commit.IdentityPreimages
import Ravel.Proof.Commit.Linearizable
import Ravel.Proof.Erasure.CompletionGate
import Ravel.Proof.Erasure.LogSpanRewrite
import Ravel.Proof.Erasure.RewriteKeepsWinners
import Ravel.Proof.Logs.AdmittedValues
import Ravel.Proof.Logs.DeclaredAggregates
import Ravel.Proof.Logs.PruneChannel
import Ravel.Proof.Logs.StreamIdentity
import Ravel.Proof.Maintain.CompactedViews
import Ravel.Proof.Maintain.SweepInvisible
import Ravel.Proof.Maintain.WalkAgreement
import Ravel.Proof.Metrics.CompactionInvisible
import Ravel.Proof.Promql.CountPushdown
import Ravel.Proof.Promql.RankedSelection
import Ravel.Proof.Promql.SampleFoldMerge
import Ravel.Proof.Promql.SelectorIsolation
import Ravel.Proof.Promql.SlicedCounts
import Ravel.Proof.Segment.GorillaRoundTrip
import Ravel.Proof.Segment.HistogramPages
import Ravel.Proof.Segment.PrunedCatalogs
import Ravel.Proof.Segment.ValueCodecs
import Ravel.Proof.Snapshot.NamePruning
import Ravel.Proof.Snapshot.PartSpans
import Ravel.Proof.Spans.EventBlobs
import Ravel.Proof.Spans.SpanPruning
