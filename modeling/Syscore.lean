import Syscore.Library.Interleaving
import Syscore.ThreadPool.Model
import Syscore.ThreadPool.Ledger
import Syscore.ThreadPool.Invariant
import Syscore.ThreadPool.Steps
import Syscore.ThreadPool.Execution
import Syscore.ThreadPool.Progress
import Syscore.ThreadPool.Barrier
import Syscore.Library.Bytes
import Syscore.UnixV6.Reader
import Syscore.UnixV6.Mkfs
import Syscore.UnixV6.Blocks
import Syscore.UnixV6.RoundTrip
import Syscore.Library.CString
import Syscore.Library.LowerBound
import Syscore.Amazon.Words
import Syscore.Amazon.Builder
import Syscore.Amazon.Search
import Syscore.Amazon.KeywordIndex
import Syscore.Amazon.Query
import Syscore.Library.Decimal
import Syscore.Library.Stream
import Syscore.Proxy.SockReader
import Syscore.Proxy.Http
import Syscore.Proxy.Relay
import Syscore.Proxy.Service
import Syscore.Proxy.Freshness
import Syscore.MapReduce.Model
import Syscore.MapReduce.Shuffle
import Syscore.MapReduce.Runs
import Syscore.MapReduce.Completion
import Syscore.MapReduce.Independence
import Syscore.Proxy.Chunking
import Syscore.Proxy.Forward
import Syscore.Proxy.CacheKey
import Syscore.Library.Grouping
import Syscore.MapReduce.Conservation
import Syscore.MapReduce.WordCount
import Syscore.Amazon.Database
import Syscore.UnixV6.Pathname
import Syscore.UnixV6.Lookup
import Syscore.NewsAggregator.Model
import Syscore.NewsAggregator.Index
import Syscore.NewsAggregator.Steps
import Syscore.NewsAggregator.Wiring
import Syscore.NewsAggregator.Outcome
import Syscore.Library.Descriptors
import Syscore.Shell.Jobs
import Syscore.Shell.Parser
import Syscore.Shell.Launch
import Syscore.Shell.Wiring
import Syscore.Shell.Grouping
import Syscore.Shell.Pipeline
import Syscore.Shell.Session
import Syscore.Shell.Credit
import Syscore.Shell.Foreground
import Syscore.Shell.Tracking
import Syscore.Shell.Prompt
import Syscore.Shell.Reuse
import Syscore.UnixV6.Tail
import Syscore.Proxy.HeaderBlock
import Syscore.Proxy.Complete
import Syscore.Proxy.Target
import Syscore.Proxy.CacheControl
import Syscore.Proxy.Blocklist
import Syscore.Library.Ranking
import Syscore.NewsAggregator.Queries
import Syscore.NewsAggregator.Timing
import Syscore.Library.CloseOnExec
import Syscore.MapReduce.Subprocess
import Syscore.MapReduce.PipeEnds
import Syscore.Multiprocessing.Factor
import Syscore.Multiprocessing.Farm
import Syscore.Multiprocessing.Moves
import Syscore.Multiprocessing.Situations
import Syscore.Multiprocessing.Delivery
import Syscore.Multiprocessing.Numbers
import Syscore.Multiprocessing.Inheritance
import Syscore.Multiprocessing.Shutdown
import Syscore.Library.Rows
import Syscore.UnixV6.PointerTree
import Syscore.UnixV6.Directory
import Syscore.Library.Cycles
import Syscore.UnixV6.TreeDump
import Syscore.Shell.Grammar
import Syscore.Shell.Rendering
import Syscore.Shell.Failure
import Syscore.MapReduce.KeyOrder
import Syscore.Amazon.Quoting
import Syscore.Amazon.Lines
import Syscore.NewsAggregator.Tokens
import Syscore.Library.Permits
import Syscore.NewsAggregator.Links
import Syscore.NewsAggregator.Throttle
import Syscore.NewsAggregator.References
import Syscore.Multiprocessing.TrialDivision
import Syscore.Library.Counting
import Syscore.ThreadPool.Semaphore
import Syscore.ThreadPool.Counters
import Syscore.Multiprocessing.Splitting
import Syscore.Library.Inevitable
import Syscore.Multiprocessing.Readiness
import Syscore.Multiprocessing.Progress
import Syscore.Multiprocessing.CleanEnd
import Syscore.Library.Filters
import Syscore.Library.Chain
import Syscore.MapReduce.RunFilter
import Syscore.Shell.Dataflow
import Syscore.Shell.Streams
import Syscore.UnixV6.Listing
import Syscore.UnixV6.Sectors
import Syscore.Amazon.Report
import Syscore.Proxy.Sockets
import Syscore.Proxy.Delivery
import Syscore.Shell.Signals
import Syscore.Library.Forest
import Syscore.NewsAggregator.Documents
import Syscore.ThreadPool.Work
import Syscore.NewsAggregator.Progress
import Syscore.ThreadPool.Crew
import Syscore.ThreadPool.Finish
import Syscore.MapReduce.Pools
import Syscore.Multiprocessing.Pipeline
import Syscore.Proxy.Server
