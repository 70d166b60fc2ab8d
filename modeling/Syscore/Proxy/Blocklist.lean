import Syscore.Proxy.Service

/-!
# The blocklist

A host is matched as the request spells it. What no pattern tells apart is answered alike, and a
host that a pattern matches in the given spelling gets no further than the check.
-/

namespace Syscore
namespace Proxy

/-! ## Loading and matching -/

section Patterns

variable {Regex : Type*} (compile : Text → Option Regex) (regexSearch : Text → Regex → Bool)

/-- The pattern of a line: there is none for an empty line, a comment, or what is no regex. -/
def patternOf (line : Text) : Option Regex :=
  if line = [] ∨ line.head? = some 35 then none else compile line

/-- `Blocklist::load`; a file that cannot be opened leaves no patterns. -/
def Blocklist.load (file : Option Text) : List Regex :=
  match file with
  | none => []
  | some contents => (getlines contents).filterMap (patternOf compile)

/-- `Blocklist::blocks`. -/
def Blocklist.blocks (patterns : List Regex) (host : Text) : Bool :=
  patterns.any fun pattern => regexSearch host pattern

variable {regexSearch} in
/-- Hosts that no pattern tells apart are both blocked or neither is. -/
theorem Blocklist.blocks_congr {patterns : List Regex} {left right : Text}
    (alike : ∀ pattern ∈ patterns, regexSearch left pattern = regexSearch right pattern) :
    Blocklist.blocks regexSearch patterns left = Blocklist.blocks regexSearch patterns right := by
  rw [Bool.eq_iff_iff, blocks, blocks, List.any_eq_true, List.any_eq_true]
  exact exists_congr fun pattern => and_congr_right fun inside => by rw [alike pattern inside]

/-- The check of `serviceConnection` with the patterns of a file. -/
def blocklist (file : Option Text) : Text → Bool :=
  Blocklist.blocks regexSearch (Blocklist.load compile file)

end Patterns

/-- A task that has this stream to read answers it with 403. -/
def AnswersForbidden (blocks : Text → Bool) (incoming : List Chunk) : Prop :=
  ∀ (state : State) (id : ℕ) (clientIP : Text), id < state.tasks.length →
    (parseStep blocks state id clientIP incoming).tasks[id]? = some (.respond forbidden)

/-- A request is answered with 403 just when its host is blocked. -/
theorem answersForbidden_iff {blocks : Text → Bool} {incoming : List Chunk} {req : HTTPRequest}
    {rest : SockReader} (parsed : HTTPRequest.parse ⟨[], incoming⟩ = some (req, rest))
    (host : req.target.host ≠ []) :
    AnswersForbidden blocks incoming ↔ blocks req.target.host = true := by
  have moved (state : State) (id : ℕ) (task : Task) (inside : id < state.tasks.length) :
      (state.move id task).tasks[id]? = some task := by
    rw [State.tasks_move, List.getElem?_set_self inside]
  have unfolded (state : State) (id : ℕ) (clientIP : Text) :
      parseStep blocks state id clientIP incoming =
        if blocks req.target.host then state.move id (.respond forbidden)
        else if req.method = ascii "GET" then state.move id (.lookup clientIP req)
        else state.move id (.connect clientIP req) := by
    rw [parseStep, parsed]
    simp only [if_neg host]
  constructor
  · intro answers
    by_contra allowed
    have once := answers ⟨0, ∅, [.closed], []⟩ 0 [] (by decide)
    rw [unfolded, if_neg allowed] at once
    split at once
    · rw [moved _ _ _ (by decide)] at once
      cases Option.some.inj once
    · rw [moved _ _ _ (by decide)] at once
      cases Option.some.inj once
  · intro blocked state id clientIP inside
    rw [unfolded, if_pos blocked, moved _ _ _ inside]

/-! ## No way past the check -/

section Allowed

variable (blocks : Text → Bool)

/-- The host of the request is not blocked. -/
def AllowedRequest (req : HTTPRequest) : Prop := blocks req.target.host = false

/-- A task past the check has a request that is allowed. -/
def Task.Allowed : Task → Prop
  | .accepted .. => True
  | .lookup _ req => AllowedRequest blocks req
  | .connect _ req => AllowedRequest blocks req
  | .receive _ req => AllowedRequest blocks req
  | .store key _ _ => ∃ req, AllowedRequest blocks req ∧ cacheKey req = key
  | .respond _ => True
  | .closed => True

/-- Cache and origin see allowed requests only. -/
def Event.Allowed : Event → Prop
  | .lookup _ key _ _ => ∃ req, AllowedRequest blocks req ∧ cacheKey req = key
  | .forward _ data => ∃ clientIP req, AllowedRequest blocks req ∧
      data = (req.prepare clientIP).serialize
  | .ingest _ _ req _ => AllowedRequest blocks req
  | .store _ key _ _ _ => ∃ req, AllowedRequest blocks req ∧ cacheKey req = key
  | .write .. => True

/-- Every task and every event is past the check with an allowed request, if at all. -/
structure Checked (state : State) : Prop where
  tasks : ∀ task ∈ state.tasks, task.Allowed blocks
  log : ∀ event ∈ state.log, event.Allowed blocks

end Allowed

namespace Checked

variable {blocks : Text → Bool} {state : State}

/-- A task moves on, without or after an event. -/
theorem move (checked : Checked blocks state) {log : List Event}
    (logged : ∀ event ∈ log, event.Allowed blocks) {task : Task} (own : task.Allowed blocks)
    (id : ℕ)
    (now : ℤ) (entries : HTTPCache) :
    Checked blocks (State.move { now, entries, tasks := state.tasks, log } id task) := by
  refine ⟨fun other inside => ?_, logged⟩
  rcases List.mem_or_eq_of_mem_set inside with before | rfl
  · exact checked.tasks other before
  · exact own

theorem log_cons (checked : Checked blocks state) {event : Event} (own : event.Allowed blocks) :
    ∀ event' ∈ event :: state.log, event'.Allowed blocks :=
  List.forall_mem_cons.mpr ⟨own, checked.log⟩

theorem parseStep (checked : Checked blocks state) (id : ℕ) (clientIP : Text)
    (incoming : List Chunk) :
    Checked blocks (Proxy.parseStep blocks state id clientIP incoming) := by
  have answer {task : Task} (own : task.Allowed blocks) :=
    checked.move checked.log own id state.now state.entries
  rw [Proxy.parseStep]
  split
  · exact answer (by exact trivial)
  · split_ifs with noHost blocked get
    · exact answer (by exact trivial)
    · exact answer (by exact trivial)
    · exact answer (by simpa [Task.Allowed, AllowedRequest] using blocked)
    · exact answer (by simpa [Task.Allowed, AllowedRequest] using blocked)

theorem lookupStep (checked : Checked blocks state) {id : ℕ} {clientIP : Text} {req : HTTPRequest}
    (looking : .lookup clientIP req ∈ state.tasks) :
    Checked blocks (Proxy.lookupStep state id clientIP req) := by
  have own : AllowedRequest blocks req := checked.tasks _ looking
  have logged (result : Option Text) :
      ∀ event ∈ .lookup id (cacheKey req) state.now result :: state.log, event.Allowed blocks :=
    checked.log_cons ⟨req, own, rfl⟩
  simp only [Proxy.lookupStep]
  split
  · exact checked.move (logged _) (by exact trivial) id _ _
  · exact checked.move (logged _) (by exact own) id _ _

theorem connectStep (checked : Checked blocks state) {id : ℕ} {clientIP : Text} {req : HTTPRequest}
    (connecting : .connect clientIP req ∈ state.tasks) (outcome : Connection) :
    Checked blocks (Proxy.connectStep state id clientIP req outcome) := by
  have own : AllowedRequest blocks req := checked.tasks _ connecting
  cases outcome with
  | unreachable => exact checked.move checked.log (by exact trivial) id _ _
  | writeFailed => exact checked.move checked.log (by exact trivial) id _ _
  | sent =>
      have logged : ∀ event ∈ .forward id (req.prepare clientIP).serialize :: state.log,
          event.Allowed blocks := checked.log_cons ⟨clientIP, req, own, rfl⟩
      exact checked.move logged (by exact own) id _ _

theorem receiveStep (checked : Checked blocks state) {id : ℕ} {clientIP : Text} {req : HTTPRequest}
    (receiving : .receive clientIP req ∈ state.tasks) (incoming : List Chunk) :
    Checked blocks (Proxy.receiveStep state id clientIP req incoming) := by
  have own : AllowedRequest blocks req := checked.tasks _ receiving
  have logged (resp : HTTPResponse) :
      ∀ event ∈ .ingest id clientIP req resp :: state.log, event.Allowed blocks :=
    checked.log_cons (by exact own)
  simp only [Proxy.receiveStep]
  split
  · have storing : ∃ req', AllowedRequest blocks req' ∧ cacheKey req' = cacheKey req :=
      ⟨req, own, rfl⟩
    exact checked.move (logged _) (by exact storing) id _ _
  · exact checked.move (logged _) (by exact trivial) id _ _

/-- Every step keeps to the check. -/
theorem step (checked : Checked blocks state) {action : Action} {next : State}
    (stepped : Proxy.step blocks state action = some next) : Checked blocks next := by
  cases move_of_step stepped with
  | accept clientIP incoming =>
      refine ⟨fun task inside => ?_, checked.log⟩
      rcases List.mem_append.mp inside with before | here
      · exact checked.tasks task before
      · rw [List.mem_singleton.mp here]
        trivial
  | tick elapsed => exact { checked with }
  | parse at_id => exact checked.parseStep _ _ _
  | lookup at_id => exact checked.lookupStep (List.mem_of_getElem? at_id)
  | store at_id =>
      have own : ∃ req, AllowedRequest blocks req ∧ cacheKey req = _ :=
        checked.tasks _ (List.mem_of_getElem? at_id)
      exact checked.move (checked.log_cons (by exact own)) (by exact trivial) _ _ _
  | respond at_id =>
      exact checked.move (checked.log_cons (by exact trivial)) (by exact trivial) _ _ _
  | connect outcome at_id => exact checked.connectStep (List.mem_of_getElem? at_id) outcome
  | receive incoming at_id => exact checked.receiveStep (List.mem_of_getElem? at_id) incoming

end Checked

theorem checked_of_reachable {blocks : Text → Bool} {state : State}
    (reach : (machine blocks).Reachable .free state) : Checked blocks state := by
  refine reach.invariant (Checked blocks) (fun state start => ?_)
    fun _ _ _ checked _ stepped => checked.step stepped
  obtain ⟨_, noTask, noEvent⟩ := start
  constructor
  · rw [noTask]
    exact List.forall_mem_nil _
  · rw [noEvent]
    exact List.forall_mem_nil _

/-- Requests whose hosts no loaded pattern tells apart are answered alike, with 403 just when a
pattern matches the host as it is spelled; such a host reaches neither an origin nor the cache in
any run. -/
theorem blocked_as_spelled {Regex : Type*} (compile : Text → Option Regex)
    (regexSearch : Text → Regex → Bool) (file : Option Text) :
    (∀ {left right : List Chunk} {a b : HTTPRequest} {leftRest rightRest : SockReader},
        HTTPRequest.parse ⟨[], left⟩ = some (a, leftRest) →
          HTTPRequest.parse ⟨[], right⟩ = some (b, rightRest) → a.target.host ≠ [] →
            b.target.host ≠ [] →
              (∀ pattern ∈ Blocklist.load compile file,
                regexSearch a.target.host pattern = regexSearch b.target.host pattern) →
                (AnswersForbidden (blocklist compile regexSearch file) left ↔
                  AnswersForbidden (blocklist compile regexSearch file) right)) ∧
      (∀ {incoming : List Chunk} {req : HTTPRequest} {rest : SockReader},
        HTTPRequest.parse ⟨[], incoming⟩ = some (req, rest) → req.target.host ≠ [] →
          (AnswersForbidden (blocklist compile regexSearch file) incoming ↔
            ∃ pattern ∈ Blocklist.load compile file, regexSearch req.target.host pattern = true)) ∧
      ∀ {state : State}, (machine (blocklist compile regexSearch file)).Reachable .free state →
        Checked (blocklist compile regexSearch file) state := by
  refine ⟨?_, ?_, fun reach => checked_of_reachable reach⟩
  · intro left right a b leftRest rightRest leftParsed rightParsed leftHost rightHost alike
    rw [answersForbidden_iff leftParsed leftHost, answersForbidden_iff rightParsed rightHost,
      blocklist, Blocklist.blocks_congr alike]
  · intro incoming req rest parsed host
    rw [answersForbidden_iff parsed host, blocklist, Blocklist.blocks, List.any_eq_true]

/-! ## Letter case -/

/-- A regex of single characters; `none` stands for the dot. -/
abbrev LiteralRegex := List (Option UInt8)

/-- The regexes among the patterns of alphanumeric characters, hyphens, dots and escaped
punctuation. -/
def literalCompile : Text → Option LiteralRegex
  | [] => some []
  | 92 :: char :: rest =>
      if isalnum char then none else (literalCompile rest).map (some char :: ·)
  | 46 :: rest => (literalCompile rest).map (none :: ·)
  | char :: rest =>
      if isalnum char || char = 45 then (literalCompile rest).map (some char :: ·) else none

/-- Whether the text begins with a match. -/
def literalMatches : LiteralRegex → Text → Bool
  | [], _ => true
  | _ :: _, [] => false
  | some expected :: regex, char :: rest => expected = char && literalMatches regex rest
  | none :: regex, char :: rest => char ≠ newline && char ≠ 13 && literalMatches regex rest

/-- `regex_search` for these regexes. -/
def literalSearch (text : Text) (regex : LiteralRegex) : Bool :=
  text.tails.any (literalMatches regex)

/-- A blocklist with one pattern. -/
def oneBlocked : Option Text := some (ascii "# hosts\n\nblocked\\.test\n")

/-- A client that asks for the blocked host. -/
def blockedClient : List Chunk :=
  [⟨ascii "GET http://blocked.test/x HTTP/1.0\r\n\r\n", by decide +kernel⟩]

/-- A client that spells the blocked host with a capital. -/
def capitalClient : List Chunk :=
  [⟨ascii "GET http://Blocked.test/x HTTP/1.0\r\n\r\n", by decide +kernel⟩]

/-- A client that names the blocked host in its `Host` field. -/
def originFormClient : List Chunk :=
  [⟨ascii "GET /y HTTP/1.0\r\nHost: blocked.test:8080\r\n\r\n", by decide +kernel⟩]

/-- Both clients are served up to the forwarding of the second request. -/
def twoSpellings : List Action :=
  [.accept (ascii "1.2.3.4") blockedClient, .run 0, .accept (ascii "1.2.3.4") capitalClient, .run 1,
    .run 1, .connect 1 .sent]

/-- Of two clients that ask for one host, one is turned away, and the other gets to the origin. -/
theorem blocklist_dodged :
    HTTPHeader.lower (ascii "Blocked.test") = ascii "blocked.test" ∧
      ((machine (blocklist literalCompile literalSearch oneBlocked)).exec .free ⟨0, ∅, [], []⟩
          twoSpellings).map (fun state => (state.tasks.head?, state.log)) =
        some (some (.respond forbidden),
          [.forward 1
            (ascii "GET /x HTTP/1.0\r\nConnection: close\r\nx-forwarded-for: 1.2.3.4\r\n\r\n"),
            .lookup 1 (ascii "GET Blocked.test:80/x") 0 none]) := by
  constructor
  · decide +kernel
  · decide +kernel

/-- What is parsed from the stream of the blocked host. -/
def blockedRequest : HTTPRequest × SockReader :=
  (HTTPRequest.parse ⟨[], blockedClient⟩).get (by decide +kernel)

/-- What is parsed from the stream with the `Host` field. -/
def originFormRequest : HTTPRequest × SockReader :=
  (HTTPRequest.parse ⟨[], originFormClient⟩).get (by decide +kernel)

/-- The proxy after both clients. -/
def afterTwoSpellings : State :=
  ((machine (blocklist literalCompile literalSearch oneBlocked)).exec .free ⟨0, ∅, [], []⟩
    twoSpellings).get (by decide +kernel)

theorem blocked_as_spelled_origin :
    (AnswersForbidden (blocklist literalCompile literalSearch oneBlocked) blockedClient ↔
        AnswersForbidden (blocklist literalCompile literalSearch oneBlocked) originFormClient) ∧
      AnswersForbidden (blocklist literalCompile literalSearch oneBlocked) originFormClient ∧
        Checked (blocklist literalCompile literalSearch oneBlocked) afterTwoSpellings := by
  have facts := blocked_as_spelled literalCompile literalSearch oneBlocked
  have left : HTTPRequest.parse ⟨[], blockedClient⟩ = some blockedRequest :=
    (Option.some_get _).symm
  have right : HTTPRequest.parse ⟨[], originFormClient⟩ = some originFormRequest :=
    (Option.some_get _).symm
  have hosts : blockedRequest.1.target.host ≠ [] ∧ originFormRequest.1.target.host ≠ [] := by
    decide +kernel
  refine ⟨facts.1 left right hosts.1 hosts.2 (by decide +kernel),
    (facts.2.1 right hosts.2).mpr (by decide +kernel), facts.2.2 ?_⟩
  have start : (machine (blocklist literalCompile literalSearch oneBlocked)).start ⟨0, ∅, [], []⟩ :=
    ⟨rfl, rfl, rfl⟩
  exact .of_exec start twoSpellings (by decide +kernel)

end Proxy
end Syscore
