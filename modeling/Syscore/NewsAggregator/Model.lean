import Syscore.Proxy.Http
import Syscore.ThreadPool.Model

/-!
# The news aggregator

`main`, `processFeed` and `processArticle` on two thread pools. A thread moves by one lock-protected
region, one semaphore operation or one download; the pools are those of `thread-pool.cc`, and the
threads of a pool run the bodies of its thunks. What a download gives is fixed for a run.
-/

namespace Syscore
namespace NewsAggregator

/-- `RSSItem`. -/
structure RSSItem where
  title : Text
  link : Text
  deriving DecidableEq

/-- `Article`. -/
structure Article where
  title : Text
  url : Text
  deriving DecidableEq

/-- `URL`. -/
structure URL where
  host : Text
  port : ℕ
  path : Text

/-- `parseHttpURL`. -/
def parseHttpURL (url : Text) : URL :=
  let rest := match find (ascii "://") url with
    | some scheme => url.drop (scheme + 3)
    | none => url
  let (host, port) := Proxy.splitHost (rest.takeWhile (· ≠ Proxy.slash))
  let path := if Proxy.slash ∈ rest then rest.dropWhile (· ≠ Proxy.slash) else [Proxy.slash]
  { host, port, path }

/-- `URL::server`. -/
def URL.server (url : URL) : Text := url.host ++ ascii ":" ++ decimal url.port

/-- What the network and the parsers give: a failed `fetchURL` is `none`. -/
structure Web where
  /-- `fetchURL`, then `parseRSSItems`. -/
  feed : Text → Option (List RSSItem)
  /-- `fetchURL`, then `tokenizeHTML`. -/
  page : Text → Option (List Text)

/-- `kMaxConnectionsPerServer`. -/
abbrev kMaxConnectionsPerServer : ℕ := 8

/-- The state that the tasks share. -/
structure Shared where
  articles : List Article
  /-- From a token to the counts by article. -/
  invertedIndex : Text → ℕ → Option ℕ
  seenURLs : List Text
  /-- The values of the semaphores made so far. -/
  serverLimits : Text → Option ℕ

namespace Shared

def initial : Shared where
  articles := []
  invertedIndex _ _ := none
  seenURLs := []
  serverLimits _ := none

/-- `serverSemaphore`: the semaphore of a server is made on first use. -/
def serverSemaphore (shared : Shared) (server : Text) : Shared :=
  match shared.serverLimits server with
  | some _ => shared
  | none =>
      { shared with
        serverLimits :=
          Function.update shared.serverLimits server (some kMaxConnectionsPerServer) }

/-- `sem.wait()`: blocked while the value is zero. -/
def wait (shared : Shared) (server : Text) : Option Shared :=
  match shared.serverLimits server with
  | some (value + 1) =>
      some { shared with serverLimits := Function.update shared.serverLimits server (some value) }
  | _ => none

/-- `sem.signal()`. -/
def signal (shared : Shared) (server : Text) : Shared :=
  { shared with
    serverLimits :=
      Function.update shared.serverLimits server ((shared.serverLimits server).map (· + 1)) }

/-- `invertedIndex[token][idx] += count`. -/
def addCount (shared : Shared) (idx : ℕ) (entry : Text × ℕ) : Shared :=
  { shared with
    invertedIndex :=
      Function.update shared.invertedIndex entry.1
        (Function.update (shared.invertedIndex entry.1) idx
          (some ((shared.invertedIndex entry.1 idx).getD 0 + entry.2))) }

end Shared

/-- `counts[tok]++`. -/
def increment (tok : Text) : List (Text × ℕ) → List (Text × ℕ)
  | [] => [(tok, 1)]
  | (other, count) :: counts =>
      if other = tok then (other, count + 1) :: counts else (other, count) :: increment tok counts

/-- The counts of the tokens of a page. -/
def countTokens (tokens : List Text) : List (Text × ℕ) :=
  tokens.foldl (fun counts tok => increment tok counts) []

/-- Positions in `processArticle(item)`, named by the next region. -/
inductive ArticlePc
  /-- Before the `seenMutex` region. -/
  | seen
  /-- Before `serverSemaphore`. -/
  | server
  /-- At `sem.wait()`. -/
  | wait
  /-- At `fetchURL`. -/
  | fetch
  /-- At `sem.signal()`, with what the download gave. -/
  | signal (page : Option (List Text))
  /-- Before the `articlesMutex` region. -/
  | push (counts : List (Text × ℕ))
  /-- Before the `indexMutex` region. -/
  | fold (counts : List (Text × ℕ)) (idx : ℕ)
  | returned

/-- The next region of `processArticle(item)`. -/
def processArticle (web : Web) (item : RSSItem) (shared : Shared) :
    ArticlePc → Option (Shared × ArticlePc)
  | .seen =>
      if item.link ∈ shared.seenURLs then
        some (shared, .returned)
      else
        some ({ shared with seenURLs := item.link :: shared.seenURLs }, .server)
  | .server => some (shared.serverSemaphore (parseHttpURL item.link).server, .wait)
  | .wait => (shared.wait (parseHttpURL item.link).server).map fun shared => (shared, .fetch)
  | .fetch => some (shared, .signal (web.page item.link))
  | .signal page =>
      let shared := shared.signal (parseHttpURL item.link).server
      match page with
      | none => some (shared, .returned)
      | some tokens =>
          let counts := countTokens tokens
          if counts = [] then some (shared, .returned) else some (shared, .push counts)
  | .push counts =>
      let idx := shared.articles.length
      some
        ({ shared with articles := shared.articles ++ [{ title := item.title, url := item.link }] },
          .fold counts idx)
  | .fold counts idx =>
      some (counts.foldl (fun shared entry => shared.addCount idx entry) shared, .returned)
  | .returned => none

/-- Positions in `processFeed(feed)`. -/
inductive FeedPc
  /-- Before `serverSemaphore`. -/
  | server
  /-- At `sem.wait()`. -/
  | wait
  /-- At `fetchURL`. -/
  | fetch
  /-- At `sem.signal()`, with the items of the download. -/
  | signal (items : Option (List RSSItem))
  /-- Head of the loop over the items. -/
  | loop (rest : List RSSItem)
  /-- Inside `articlePool.schedule`. -/
  | schedule (item : RSSItem) (rest : List RSSItem)
  | returned

/-- The next region of `processFeed(feed)` outside the loop over the items. -/
def processFeed (web : Web) (feed : RSSItem) (shared : Shared) : FeedPc → Option (Shared × FeedPc)
  | .server => some (shared.serverSemaphore (parseHttpURL feed.link).server, .wait)
  | .wait => (shared.wait (parseHttpURL feed.link).server).map fun shared => (shared, .fetch)
  | .fetch => some (shared, .signal (web.feed feed.link))
  | .signal items =>
      let shared := shared.signal (parseHttpURL feed.link).server
      match items with
      | none => some (shared, .returned)
      | some items => some (shared, .loop items)
  | .loop _ | .schedule _ _ | .returned => none

/-- Positions in `main`, from the construction of the pools on. -/
inductive MainPc
  /-- Head of the loop over the feeds. -/
  | loop (rest : List RSSItem)
  /-- Inside `feedPool.schedule`. -/
  | schedule (feed : RSSItem) (rest : List RSSItem)
  /-- Inside `feedPool.wait()`. -/
  | waitFeeds
  /-- Inside `articlePool.wait()`. -/
  | waitArticles
  /-- Past both. -/
  | joined
  deriving DecidableEq

/-- Threads of `feedPool`. -/
abbrev feedThreads : ℕ := 8

/-- Threads of `articlePool`. -/
abbrev articleThreads : ℕ := 24

instance neZero_feedThreads : NeZero feedThreads := ⟨Nat.succ_ne_zero 7⟩

instance neZero_articleThreads : NeZero articleThreads := ⟨Nat.succ_ne_zero 23⟩

/-- Who calls `articlePool`: `main`, or a thread of `feedPool`. -/
abbrev ArticleClient : Type := Option (Fin feedThreads)

/-- The aggregator while it downloads. -/
structure State where
  main : MainPc
  feedPool : ThreadPool.State feedThreads Unit
  articlePool : ThreadPool.State articleThreads ArticleClient
  /-- The captures of the thunks given to `feedPool`, by ticket. -/
  feedThunks : List RSSItem
  /-- The captures of the thunks given to `articlePool`, by ticket. -/
  articleThunks : List RSSItem
  /-- Where the thunk on each thread of `feedPool` is. -/
  feedPcs : Fin feedThreads → FeedPc
  /-- Where the thunk on each thread of `articlePool` is. -/
  articlePcs : Fin articleThreads → ArticlePc
  shared : Shared

/-- The thunk of a `schedule` call gets its ticket when the call counts it. -/
def issue (thunks : List RSSItem) (call : ThreadPool.Call) (item : RSSItem) : List RSSItem :=
  if call = .schedule .increment then thunks ++ [item] else thunks

/-- The next region of a thread of a pool: of the thunk that it runs, given what the thunk captures,
or of the pool. -/
def poolWorkerStep {numThreads : ℕ} {Client σ : Type} [NeZero numThreads] [DecidableEq Client]
    (pool : ThreadPool.State numThreads Client) (thunks : List RSSItem)
    (body : RSSItem → Option σ) (put : ThreadPool.State numThreads Client → σ)
    (id : Fin numThreads) : Option σ :=
  match (pool.workers id).pc with
  | .running ticket none => (thunks[ticket]?).bind body
  | _ => (ThreadPool.step pool (.worker id)).map put

namespace State

/-- The next region of `main`. -/
def mainStep (state : State) : Option State :=
  match state.main with
  | .loop (feed :: rest) =>
      (ThreadPool.step state.feedPool (.clientCalls () .schedule)).map fun feedPool =>
        { state with feedPool, main := .schedule feed rest }
  | .schedule feed rest =>
      match state.feedPool.clients () with
      | none => some { state with main := .loop rest }
      | some call =>
          (ThreadPool.step state.feedPool (.client ())).map fun feedPool =>
            { state with feedPool, feedThunks := issue state.feedThunks call feed }
  | .loop [] =>
      (ThreadPool.step state.feedPool (.clientCalls () .wait)).map fun feedPool =>
        { state with feedPool, main := .waitFeeds }
  | .waitFeeds =>
      match state.feedPool.clients () with
      | none =>
          (ThreadPool.step state.articlePool (.clientCalls none .wait)).map fun articlePool =>
            { state with articlePool, main := .waitArticles }
      | some _ =>
          (ThreadPool.step state.feedPool (.client ())).map fun feedPool => { state with feedPool }
  | .waitArticles =>
      match state.articlePool.clients none with
      | none => some { state with main := .joined }
      | some _ =>
          (ThreadPool.step state.articlePool (.client none)).map fun articlePool =>
            { state with articlePool }
  | .joined => none

/-- The next region of the thunk on a thread of `feedPool`. -/
def feedBodyStep (web : Web) (state : State) (id : Fin feedThreads) (feed : RSSItem) :
    Option State :=
  match state.feedPcs id with
  | .loop [] => some { state with feedPcs := Function.update state.feedPcs id .returned }
  | .loop (item :: rest) =>
      (ThreadPool.step state.articlePool (.clientCalls (some id) .schedule)).map fun articlePool =>
        { state with
          articlePool
          feedPcs := Function.update state.feedPcs id (.schedule item rest) }
  | .schedule item rest =>
      match state.articlePool.clients (some id) with
      | none => some { state with feedPcs := Function.update state.feedPcs id (.loop rest) }
      | some call =>
          (ThreadPool.step state.articlePool (.client (some id))).map fun articlePool =>
            { state with articlePool, articleThunks := issue state.articleThunks call item }
  | .returned =>
      (ThreadPool.step state.feedPool (.worker id)).map fun feedPool =>
        { state with feedPool, feedPcs := Function.update state.feedPcs id .server }
  | pc =>
      (processFeed web feed state.shared pc).map fun (shared, pc) =>
        { state with shared, feedPcs := Function.update state.feedPcs id pc }

/-- The next region of a thread of `feedPool`. -/
def feedWorkerStep (web : Web) (state : State) (id : Fin feedThreads) : Option State :=
  poolWorkerStep state.feedPool state.feedThunks (state.feedBodyStep web id)
    (fun feedPool => { state with feedPool }) id

/-- The next region of the thunk on a thread of `articlePool`. -/
def articleBodyStep (web : Web) (state : State) (id : Fin articleThreads) (item : RSSItem) :
    Option State :=
  match state.articlePcs id with
  | .returned =>
      (ThreadPool.step state.articlePool (.worker id)).map fun articlePool =>
        { state with articlePool, articlePcs := Function.update state.articlePcs id .seen }
  | pc =>
      (processArticle web item state.shared pc).map fun (shared, pc) =>
        { state with shared, articlePcs := Function.update state.articlePcs id pc }

/-- The next region of a thread of `articlePool`. -/
def articleWorkerStep (web : Web) (state : State) (id : Fin articleThreads) : Option State :=
  poolWorkerStep state.articlePool state.articleThunks (state.articleBodyStep web id)
    (fun articlePool => { state with articlePool }) id

end State

/-- The thread that moves; `wakeFeeds` and `wakeArticles` wake `main` without a notification. -/
inductive Thread
  | main
  | feedDispatcher
  | articleDispatcher
  | feedWorker (id : Fin feedThreads)
  | articleWorker (id : Fin articleThreads)
  | wakeFeeds
  | wakeArticles

/-- One step of the aggregator. -/
def step (web : Web) (state : State) : Thread → Option State
  | .main => state.mainStep
  | .feedDispatcher =>
      (ThreadPool.step state.feedPool .dispatcher).map fun feedPool => { state with feedPool }
  | .articleDispatcher =>
      (ThreadPool.step state.articlePool .dispatcher).map fun articlePool =>
        { state with articlePool }
  | .feedWorker id => state.feedWorkerStep web id
  | .articleWorker id => state.articleWorkerStep web id
  | .wakeFeeds =>
      (ThreadPool.step state.feedPool (.spuriousWake (.client ()))).map fun feedPool =>
        { state with feedPool }
  | .wakeArticles =>
      (ThreadPool.step state.articlePool (.spuriousWake (.client none))).map fun articlePool =>
        { state with articlePool }

/-- `main` after it has parsed the list of feeds. -/
def start (feeds : List RSSItem) : State where
  main := .loop feeds
  feedPool := ThreadPool.construct feedThreads Unit
  articlePool := ThreadPool.construct articleThreads ArticleClient
  feedThunks := []
  articleThunks := []
  feedPcs _ := .server
  articlePcs _ := .seen
  shared := .initial

/-- The aggregator as a machine. -/
def machine (web : Web) (feeds : List RSSItem) : Machine State Thread where
  start state := state = start feeds
  step := step web

end NewsAggregator
end Syscore
