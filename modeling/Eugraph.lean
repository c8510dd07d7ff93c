import Eugraph.Kv.SortableOrder
import Eugraph.Storage.LiveScan
import Eugraph.Meta.IdAllocator
import Eugraph.Kv.KeyOrder
import Eugraph.Query.EdgeIdentity
import Eugraph.Query.EdgeIndexConsistency
import Eugraph.Storage.SummaryCodec
import Eugraph.Storage.IndexEquality
import Eugraph.Storage.IndexEntries
import Eugraph.Storage.IndexRange
import Eugraph.Storage.SessionPool
import Eugraph.Graph.GraphManager
import Eugraph.Meta.SchemaRuns
import Eugraph.Kv.ValueRoundTrip
import Eugraph.Meta.MetadataCodec
import Eugraph.Service.PackStreamRoundTrip
import Eugraph.Service.BoltFrames
import Eugraph.Service.BoltResponses
import Eugraph.Service.BoltDiscard
import Eugraph.Service.BoltGraphs
import Eugraph.EpochConversion
import Eugraph.Service.BoltValueMapping
import Eugraph.Query.ConcurrentBackfill
import Eugraph.Query.PropertyValueConvert
import Eugraph.Parser.PrecedenceRestored
import Eugraph.Parser.StringLiteral
import Eugraph.Query.BatchReads
import Eugraph.Query.Unwind
import Eugraph.Loader.CsvRoundTrip
import Eugraph.Loader.CsvCount
import Eugraph.Query.SkipLimit
import Eugraph.Query.HashJoin
import Eugraph.Query.PrimaryRows
import Eugraph.Query.CypherPreorder
import Eugraph.Query.ExpandAllowed
import Eugraph.Query.ShortestPathExact
import Eugraph.Optimizer.VarLenReversal
import Eugraph.Optimizer.PathCountFusion
import Eugraph.Query.IntegerSum
import Eugraph.Query.CheckedArithmetic
import Eugraph.Query.RangeFunction
import Eugraph.Query.Quantifier
import Eugraph.Query.Foreach
