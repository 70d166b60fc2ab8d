import Syscore.Proxy.Freshness
import Syscore.Proxy.Sockets

/-!
# Descriptors and deliveries of the proxy

In every run of the proxy with its sockets the open descriptors are just those that the tasks hold,
each socket gets the bytes of its own task only, and what the tasks do is a run of the proxy without
sockets.
-/

namespace Syscore
namespace Proxy

/-! ## Descriptors -/

/-- Some task holds the descriptor for the file. -/
def Holds (tasks : List Position) (fd : ℕ) (file : File) : Prop :=
  ∃ id, ∃ position : Position, tasks[id]? = some position ∧ (fd, file) ∈ position.held id

/-- The open descriptors are those of the base and those that the tasks hold. -/
def Accounts (base : Descriptors File) (tasks : List Position) (table : Descriptors File) : Prop :=
  ∀ fd file, table.get fd = some file ↔ base.get fd = some file ∨ Holds tasks fd file

/-- The base has no sockets of tasks open. -/
def NoSockets (base : Descriptors File) : Prop :=
  ∀ fd file, base.get fd = some file → ∃ number, file = .other number

/-- The task that a socket belongs to. -/
def File.owner : File → Option ℕ
  | .other _ => none
  | .client id | .origin id => some id

/-- A task holds its own sockets only. -/
theorem owner_of_held {id fd : ℕ} {file : File} {position : Position}
    (held : (fd, file) ∈ position.held id) : file.owner = some id := by
  cases position with
  | closed => cases held
  | connecting | refused | forward | receive | hangUp =>
      rcases List.mem_cons.mp held with same | held
      · rw [(Prod.mk.inj same).2]
        rfl
      · rw [(Prod.mk.inj (List.mem_singleton.mp held)).2]
        rfl
  | accepted | lookup | resolve | dial | store | respond | finish =>
      rw [(Prod.mk.inj (List.mem_singleton.mp held)).2]
      rfl

section Table

variable {base table : Descriptors File} {tasks : List Position} {id : ℕ}
  {before position : Position}

theorem holds_set (here : tasks[id]? = some before) (fd : ℕ) (file : File) :
    Holds (tasks.set id position) fd file ↔ (fd, file) ∈ position.held id ∨
      Holds tasks fd file ∧ file.owner ≠ some id := by
  have inside := (List.getElem?_eq_some_iff.mp here).1
  constructor
  · rintro ⟨other, found, at_other, held⟩
    by_cases same : other = id
    · subst same
      rw [List.getElem?_set_self inside] at at_other
      obtain rfl := Option.some.inj at_other
      exact .inl held
    · rw [List.getElem?_set_ne (Ne.symm same)] at at_other
      refine .inr ⟨⟨other, found, at_other, held⟩, fun own => same ?_⟩
      exact Option.some.inj ((owner_of_held held).symm.trans own)
  · rintro (held | ⟨⟨other, found, at_other, held⟩, foreign⟩)
    · exact ⟨id, position, List.getElem?_set_self inside, held⟩
    · have apart : other ≠ id := by
        rintro rfl
        exact foreign (owner_of_held held)
      exact ⟨other, found, by rw [List.getElem?_set_ne apart.symm]; exact at_other, held⟩

/-- What the task itself holds is open, and belongs to it. -/
theorem Accounts.get (accounts : Accounts base tasks table) (here : tasks[id]? = some before)
    {fd : ℕ} {file : File} (held : (fd, file) ∈ before.held id) : table.get fd = some file :=
  (accounts fd file).mpr (.inr ⟨id, before, here, held⟩)

/-- A socket of a task that is open is held by it. -/
theorem Accounts.held (accounts : Accounts base tasks table) (other : NoSockets base)
    (here : tasks[id]? = some before) {fd : ℕ} {file : File} (opened : table.get fd = some file)
    (own : file.owner = some id) : (fd, file) ∈ before.held id := by
  rcases (accounts fd file).mp opened with below | ⟨holder, position, at_holder, held⟩
  · obtain ⟨number, rfl⟩ := other fd file below
    cases own
  · obtain rfl := Option.some.inj ((owner_of_held held).symm.trans own)
    obtain rfl := Option.some.inj (here.symm.trans at_holder)
    exact held

/-- A task moves on with the descriptors it has. -/
theorem Accounts.keep (accounts : Accounts base tasks table) (other : NoSockets base)
    (here : tasks[id]? = some before) (same : position.held id = before.held id) :
    Accounts base (tasks.set id position) table := by
  intro fd file
  rw [holds_set here, same]
  constructor
  · intro opened
    by_cases own : file.owner = some id
    · exact .inr (.inl (accounts.held other here opened own))
    · exact ((accounts fd file).mp opened).imp_right fun holds => .inr ⟨holds, own⟩
  · rintro (below | held | ⟨holds, -⟩)
    · exact (accounts fd file).mpr (.inl below)
    · exact accounts.get here held
    · exact (accounts fd file).mpr (.inr holds)

/-- A task opens a socket. -/
theorem Accounts.opens (accounts : Accounts base tasks table) (other : NoSockets base)
    (here : tasks[id]? = some before) {file : File}
    (more : ∀ entry, entry ∈ position.held id ↔
      entry ∈ before.held id ∨ entry = (table.lowest, file)) :
    Accounts base (tasks.set id position) (table.openFile file).2 := by
  intro fd found
  rw [Descriptors.openFile, Descriptors.get_set, holds_set here, more]
  by_cases new : fd = table.lowest
  · subst new
    rw [if_pos rfl]
    constructor
    · intro same
      obtain rfl := Option.some.inj same
      exact .inr (.inl (.inr rfl))
    · have closed := table.get_lowest
      rintro (below | (held | same) | ⟨holds, -⟩)
      · exact absurd (((accounts _ _).mpr (.inl below)).symm.trans closed) (by simp)
      · exact absurd ((accounts.get here held).symm.trans closed) (by simp)
      · rw [(Prod.mk.inj same).2]
      · exact absurd (((accounts _ _).mpr (.inr holds)).symm.trans closed) (by simp)
  · rw [if_neg new]
    have old : (fd, found) ≠ (table.lowest, file) := fun same => new (Prod.mk.inj same).1
    rw [or_iff_left old]
    have kept : Accounts base (tasks.set id before) table := accounts.keep other here rfl
    have kept := kept fd found
    rwa [holds_set here] at kept

/-- A task closes a socket. -/
theorem Accounts.closes (accounts : Accounts base tasks table) (other : NoSockets base)
    (here : tasks[id]? = some before) {fd : ℕ} {file : File} (held : (fd, file) ∈ before.held id)
    (less : ∀ entry, entry ∈ position.held id ↔ entry ∈ before.held id ∧ entry ≠ (fd, file)) :
    Accounts base (tasks.set id position) (table.close fd) := by
  have opened := accounts.get here held
  have own := owner_of_held held
  intro other_fd found
  rw [Descriptors.get_close, holds_set here, less]
  by_cases same : other_fd = fd
  · subst same
    rw [if_pos rfl]
    refine iff_of_false (by simp) ?_
    have only {found : File} (here : table.get other_fd = some found) : found = file :=
      Option.some.inj (here.symm.trans opened)
    rintro (below | ⟨held, apart⟩ | ⟨holds, foreign⟩)
    · have at_fd := only ((accounts _ _).mpr (.inl below))
      obtain ⟨number, same⟩ := other _ _ below
      rw [← at_fd, same] at own
      cases own
    · exact apart (by rw [only (accounts.get here held)])
    · exact foreign (by rw [only ((accounts _ _).mpr (.inr holds)), own])
  · rw [if_neg same]
    have apart : (other_fd, found) ≠ (fd, file) := fun both => same (Prod.mk.inj both).1
    rw [and_iff_left apart]
    have kept : Accounts base (tasks.set id before) table := accounts.keep other here rfl
    have kept := kept other_fd found
    rwa [holds_set here] at kept

/-- A new task holds its connection. -/
theorem Accounts.accepts (accounts : Accounts base tasks table)
    (fresh : position.held tasks.length = [(table.lowest, .client tasks.length)]) :
    Accounts base (tasks ++ [position]) (table.openFile (.client tasks.length)).2 := by
  have holds (fd : ℕ) (file : File) : Holds (tasks ++ [position]) fd file ↔
      Holds tasks fd file ∨ (fd, file) = (table.lowest, .client tasks.length) := by
    rw [← List.mem_singleton, ← fresh]
    constructor
    · rintro ⟨id, found, at_id, held⟩
      rcases Nat.lt_or_ge id tasks.length with old | new
      · rw [List.getElem?_append_left old] at at_id
        exact .inl ⟨id, found, at_id, held⟩
      · rw [List.getElem?_append_right new, List.getElem?_singleton] at at_id
        split at at_id
        · obtain rfl := Option.some.inj at_id
          rw [show id = tasks.length by omega] at held
          exact .inr held
        · cases at_id
    · rintro (⟨id, found, at_id, held⟩ | held)
      · refine ⟨id, found, ?_, held⟩
        rw [List.getElem?_append_left (List.getElem?_eq_some_iff.mp at_id).1]
        exact at_id
      · exact ⟨tasks.length, position, List.getElem?_concat_length, held⟩
  intro fd file
  rw [Descriptors.openFile, Descriptors.get_set, holds]
  by_cases new : fd = table.lowest
  · subst new
    rw [if_pos rfl]
    constructor
    · intro same
      exact .inr (.inr (by rw [Option.some.inj same]))
    · have closed := table.get_lowest
      rintro (below | held | same)
      · exact absurd (((accounts _ _).mpr (.inl below)).symm.trans closed) (by simp)
      · exact absurd (((accounts _ _).mpr (.inr held)).symm.trans closed) (by simp)
      · rw [(Prod.mk.inj same).2]
  · rw [if_neg new, or_iff_left fun same => new (Prod.mk.inj same).1]
    exact accounts fd file

end Table

/-! ## Bytes -/

/-- The data that an event hands over for the client of a task. -/
def Event.response (id : ℕ) : Event → Option Text
  | .write task data => if task = id then some data else none
  | _ => none

/-- The data that an event says the origin of a task has. -/
def Event.request (id : ℕ) : Event → Option Text
  | .forward task data => if task = id then some data else none
  | _ => none

/-- What went over the sockets of a task, and what the log says about it. -/
structure Account where
  /-- What the client has received. -/
  response : Text := []
  responses : List Text := []
  /-- A write to the client has failed. -/
  cut : Bool := false
  /-- What the origin has received. -/
  request : Text := []
  requests : List Text := []

/-- The account of a task. -/
def Sockets.account (state : Sockets) (id : ℕ) : Account where
  response := state.written (.client id)
  responses := state.log.filterMap (Event.response id)
  cut := id ∈ state.cut
  request := state.written (.origin id)
  requests := state.log.filterMap (Event.request id)

namespace Account

/-- Bytes reach a file. -/
def deliver (account : Account) (id : ℕ) (file : File) (bytes : Text) : Account :=
  { account with
    response := if file = .client id then account.response ++ bytes else account.response
    request := if file = .origin id then account.request ++ bytes else account.request }

/-- An event is recorded. -/
def record (account : Account) (id : ℕ) (event : Event) : Account :=
  { account with
    responses := (event.response id).toList ++ account.responses
    requests := (event.request id).toList ++ account.requests }

variable {account : Account} {id : ℕ}

theorem deliver_of_ne {file : File} {bytes : Text} (client : file ≠ .client id)
    (origin : file ≠ .origin id) : account.deliver id file bytes = account := by
  rw [deliver, if_neg client, if_neg origin]

theorem record_of_none {event : Event} (response : event.response id = none)
    (request : event.request id = none) : account.record id event = account := by
  rw [record, response, request]
  rfl

end Account

/-- The origin has what the log says, where the log says it. -/
def Account.Forwarded (account : Account) : Prop :=
  account.requests = [] ∨ account.requests = [account.request]

/-- The client has one response, or a beginning of it where a write failed; or nothing. -/
def Account.Responded (account : Account) : Prop :=
  account.responses = [] ∧ account.response = [] ∨
    ∃ data, account.responses = [data] ∧ account.response <+: data ∧
      (account.cut = false → account.response = data)

/-- The account of a task fits the place where it stands. -/
def Position.Agrees (account : Account) : Position → Prop
  | .accepted _ _ | .lookup _ _ _ | .resolve _ _ _ | .dial _ _ _ _ | .connecting _ _ _ _ _
  | .refused _ _ _ _ _ => account = {}
  | .forward _ _ clientIP req sent =>
      sent ≤ (req.prepare clientIP).serialize.length ∧
        account = { request := (req.prepare clientIP).serialize.take sent }
  | .receive _ _ clientIP req =>
      account = { request := (req.prepare clientIP).serialize
                  requests := [(req.prepare clientIP).serialize] }
  | .hangUp _ _ _ | .store _ _ _ _ =>
      account.response = [] ∧ account.responses = [] ∧ account.cut = false ∧ account.Forwarded
  | .respond _ data sent =>
      sent ≤ data.length ∧ account.response = data.take sent ∧ account.responses = [] ∧
        account.cut = false ∧ account.Forwarded
  | .finish _ | .closed => account.Responded ∧ account.Forwarded

/-- Every account fits, and those of the tasks to come are blank. -/
structure Traffic (state : Sockets) : Prop where
  fresh : ∀ id, state.tasks.length ≤ id → state.account id = {}
  agrees : ∀ id, ∀ position : Position, state.tasks[id]? = some position →
    position.Agrees (state.account id)

namespace Sockets

variable {state after : Sockets} {id fd : ℕ} {file : File}

/-- A call with an open descriptor leaves no mark. -/
theorem check_of_open (opened : state.table.get fd = some file) : state.check fd = state := by
  rw [check, opened, Option.isNone_some, Bool.or_false]

theorem close_of_open (opened : state.table.get fd = some file) :
    state.close fd = { state with table := state.table.close fd } := by
  rw [close, check_of_open opened]

theorem deliver_of_open (opened : state.table.get fd = some file) (bytes : Text) :
    state.deliver fd bytes =
      { state with
        written := Function.update state.written file (state.written file ++ bytes) } := by
  simp only [deliver, check_of_open opened, opened]

theorem account_deliver (opened : state.table.get fd = some file) (bytes : Text) (id : ℕ) :
    (state.deliver fd bytes).account id = (state.account id).deliver id file bytes := by
  have written (other : File) : Function.update state.written file (state.written file ++ bytes)
      other = if file = other then state.written other ++ bytes else state.written other := by
    split
    · rename_i same
      rw [← same, Function.update_self]
    · rename_i apart
      exact Function.update_of_ne (Ne.symm apart) ..
  rw [deliver_of_open opened]
  simp only [account, Account.deliver, written]

theorem account_record (event : Event) (id : ℕ) :
    (state.record event).account id = (state.account id).record id event := by
  simp only [account, record, Account.record, List.filterMap_cons]
  cases event.response id <;> cases event.request id <;> rfl

end Sockets

/-- A task moves on, and no other account changes. -/
theorem Traffic.put {state after : Sockets} (traffic : Traffic state) {id : ℕ}
    {before position : Position} (here : state.tasks[id]? = some before)
    (tasks : after.tasks = state.tasks.set id position)
    (others : ∀ other, other ≠ id → after.account other = state.account other)
    (own : position.Agrees (after.account id)) : Traffic after where
  fresh other beyond := by
    have inside := (List.getElem?_eq_some_iff.mp here).1
    rw [tasks, List.length_set] at beyond
    rw [others other (by omega)]
    exact traffic.fresh other beyond
  agrees other found at_other := by
    rw [tasks] at at_other
    by_cases same : other = id
    · subst same
      rw [List.getElem?_set_self (List.getElem?_eq_some_iff.mp here).1] at at_other
      rw [← Option.some.inj at_other]
      exact own
    · rw [List.getElem?_set_ne (Ne.symm same)] at at_other
      rw [others other same]
      exact traffic.agrees other found at_other

/-! ## The invariant -/

/-- What holds in every state of a run. -/
structure Known (base : Descriptors File) (state : Sockets) : Prop where
  accounts : Accounts base state.tasks state.table
  noBadf : state.badf = false
  traffic : Traffic state

/-- A task that has the descriptor of its client only, and has not written anything. -/
structure Position.Fresh (clientfd : ℕ) (position : Position) : Prop where
  held : ∀ id, position.held id = [(clientfd, .client id)]
  agrees : position.Agrees {}

theorem Position.Fresh.respond (clientfd : ℕ) (data : Text) :
    (Position.respond clientfd data 0).Fresh clientfd :=
  ⟨fun _ => rfl, Nat.zero_le _, rfl, rfl, rfl, .inl rfl⟩

theorem Position.Fresh.finish (clientfd : ℕ) : (Position.finish clientfd).Fresh clientfd :=
  ⟨fun _ => rfl, .inl ⟨rfl, rfl⟩, .inl rfl⟩

section Steps

variable {base : Descriptors File} {blocks : Text → Bool} {state : Sockets} {id : ℕ}
  {before : Position}

/-- A task moves on with the descriptors it has. -/
theorem Known.put (known : Known base state) (other : NoSockets base)
    (here : state.tasks[id]? = some before) {after : Sockets} {position : Position}
    (tasks : after.tasks = state.tasks.set id position) (table : after.table = state.table)
    (badf : after.badf = state.badf) (held : position.held id = before.held id)
    (others : ∀ other, other ≠ id → after.account other = state.account other)
    (own : position.Agrees (after.account id)) : Known base after where
  accounts := by
    rw [tasks, table]
    exact known.accounts.keep other here held
  noBadf := badf.trans known.noBadf
  traffic := known.traffic.put here tasks others own

/-- A task that has not written anything moves on, and still has not. -/
theorem Known.fresh (known : Known base state) (other : NoSockets base) {clientfd : ℕ}
    (here : state.tasks[id]? = some before) (fresh : before.Fresh clientfd)
    (blank : state.account id = {}) {after : Sockets} {position : Position}
    (tasks : after.tasks = state.tasks.set id position) (table : after.table = state.table)
    (badf : after.badf = state.badf) (later : position.Fresh clientfd)
    (accounts : after.account = state.account) : Known base after := by
  refine known.put other here tasks table badf ((later.held id).trans (fresh.held id).symm)
    (fun other _ => congrFun accounts other) ?_
  rw [accounts, blank]
  exact later.agrees

/-- What is held is open. -/
theorem Known.get (known : Known base state) (here : state.tasks[id]? = some before) {fd : ℕ}
    {file : File} (held : (fd, file) ∈ before.held id) : state.table.get fd = some file :=
  known.accounts.get here held

theorem Known.check (known : Known base state) (here : state.tasks[id]? = some before) {fd : ℕ}
    {file : File} (held : (fd, file) ∈ before.held id) : state.check fd = state :=
  Sockets.check_of_open (known.get here held)

theorem parseStep_eq (blocks : Text → Bool) (state : Sockets) (id clientfd : ℕ) (clientIP : Text) :
    ∃ position, position.Fresh clientfd ∧ state.parseStep blocks id clientfd clientIP =
      (state.check clientfd).put id position := by
  unfold Sockets.parseStep
  dsimp only
  split
  · exact ⟨_, .finish clientfd, rfl⟩
  · split
    · exact ⟨_, .finish clientfd, rfl⟩
    · split
      · exact ⟨_, .respond clientfd forbidden, rfl⟩
      · split
        · exact ⟨.lookup clientfd clientIP _, ⟨fun _ => rfl, rfl⟩, rfl⟩
        · exact ⟨.resolve clientfd clientIP _, ⟨fun _ => rfl, rfl⟩, rfl⟩

theorem lookupStep_eq (state : Sockets) (id clientfd : ℕ) (clientIP : Text) (req : HTTPRequest) :
    ∃ position entries cached, position.Fresh clientfd ∧
      state.lookupStep id clientfd clientIP req =
        ({ state with entries }.record (.lookup id (cacheKey req) state.now cached)).put id
          position := by
  unfold Sockets.lookupStep
  dsimp only
  split
  · exact ⟨_, _, _, .respond clientfd _, rfl⟩
  · exact ⟨.resolve clientfd clientIP req, _, _, ⟨fun _ => rfl, rfl⟩, rfl⟩

theorem receiveStep_eq (state : Sockets) (id clientfd originfd : ℕ) (clientIP : Text)
    (req : HTTPRequest) (incoming : List Chunk) :
    ∃ reply resp, state.receiveStep id clientfd originfd clientIP req incoming =
      ((state.check originfd).record (.ingest id clientIP req resp)).put id
        (.hangUp clientfd originfd reply) := by
  unfold Sockets.receiveStep
  dsimp only
  split
  · exact ⟨_, _, rfl⟩
  · exact ⟨_, _, rfl⟩

/-- What a task does with its reply fits what it has done before. -/
theorem Reply.agrees_position {account : Account} (reply : Reply) (clientfd originfd : ℕ)
    (agrees : (Position.hangUp clientfd originfd reply).Agrees account) :
    (reply.position clientfd).Agrees account := by
  obtain ⟨response, responses, whole, forwarded⟩ := agrees
  cases reply with
  | store => exact ⟨response, responses, whole, forwarded⟩
  | respond data => exact ⟨Nat.zero_le _, response, responses, whole, forwarded⟩

theorem Reply.held_position (reply : Reply) (clientfd id : ℕ) :
    (reply.position clientfd).held id = [(clientfd, .client id)] := by
  cases reply <;> rfl

theorem mem_origin (clientfd originfd id : ℕ) :
    (originfd, File.origin id) ∈ [(clientfd, File.client id), (originfd, File.origin id)] :=
  List.mem_cons_of_mem _ List.mem_cons_self

/-- Without the socket to the origin a task has just the descriptor of its client. -/
theorem mem_without_origin (clientfd originfd id : ℕ) (entry : ℕ × File) :
    entry ∈ [(clientfd, File.client id)] ↔
      entry ∈ [(clientfd, File.client id), (originfd, File.origin id)] ∧
        entry ≠ (originfd, File.origin id) := by
  rw [List.mem_singleton, List.mem_cons, List.mem_singleton]
  constructor
  · rintro rfl
    exact ⟨.inl rfl, fun same => by cases same⟩
  · rintro ⟨first | second, apart⟩
    · exact first
    · exact absurd second apart

/-- A longer beginning of the data. -/
theorem take_append_take_drop (data : Text) (sent count : ℕ) :
    data.take sent ++ (data.drop sent).take count = data.take (sent + count) :=
  List.take_add.symm

/-- One step keeps what is known. -/
theorem Known.step (known : Known base state) (other : NoSockets base) {after : Sockets}
    (move : Sockets.Move blocks state after) : Known base after := by
  have agrees := known.traffic.agrees
  cases move with
  | accept clientIP incoming =>
      refine ⟨known.accounts.accepts rfl, known.noBadf,
        ⟨fun id beyond => ?_, fun id found here => ?_⟩⟩
      · exact known.traffic.fresh id (le_trans (by simp) beyond)
      · rcases Nat.lt_or_ge id state.tasks.length with old | new
        · rw [List.getElem?_append_left old] at here
          exact agrees id found here
        · rw [List.getElem?_append_right new, List.getElem?_singleton] at here
          split at here
          · obtain rfl := Option.some.inj here
            exact known.traffic.fresh id new
          · cases here
  | tick elapsed => exact ⟨known.accounts, known.noBadf, known.traffic.fresh, agrees⟩
  | @parse id clientfd clientIP here =>
      obtain ⟨position, later, same⟩ := parseStep_eq blocks state id clientfd clientIP
      rw [same, known.check here List.mem_cons_self]
      exact known.fresh other here ⟨fun _ => rfl, rfl⟩ (agrees _ _ here) rfl rfl rfl later rfl
  | @lookup id clientfd clientIP req here =>
      obtain ⟨position, entries, cached, later, same⟩ :=
        lookupStep_eq state id clientfd clientIP req
      rw [same]
      exact known.fresh other here ⟨fun _ => rfl, rfl⟩ (agrees _ _ here) rfl rfl rfl later rfl
  | unresolved here | exhausted here =>
      exact known.fresh other here ⟨fun _ => rfl, rfl⟩ (agrees _ _ here) rfl rfl rfl
        (.respond _ _) rfl
  | resolved left here | noSocket here =>
      have blank := agrees _ _ here
      exact known.put other here rfl rfl rfl rfl (fun _ _ => rfl) blank
  | socket here =>
      have blank := agrees _ _ here
      refine ⟨known.accounts.opens other here fun entry => ?_, known.noBadf,
        known.traffic.put here rfl (fun _ _ => rfl) blank⟩
      rw [Position.held, Position.held, List.mem_cons, List.mem_singleton, List.mem_singleton]
  | @connected id clientfd originfd clientIP req left here =>
      rw [known.check here (mem_origin clientfd originfd id)]
      exact known.put other here rfl rfl rfl rfl (fun _ _ => rfl)
        ⟨Nat.zero_le _, agrees _ _ here⟩
  | @refused id clientfd originfd clientIP req left here =>
      rw [known.check here (mem_origin clientfd originfd id)]
      have blank := agrees _ _ here
      exact known.put other here rfl rfl rfl rfl (fun _ _ => rfl) blank
  | @redials id clientfd originfd clientIP req left here =>
      have blank := agrees _ _ here
      have held := mem_origin clientfd originfd id
      rw [Sockets.close_of_open (known.get here held)]
      exact ⟨known.accounts.closes other here held (mem_without_origin clientfd originfd id),
        known.noBadf, known.traffic.put here rfl (fun _ _ => rfl) blank⟩
  | @forwards id clientfd originfd clientIP req sent count here fits =>
      have opened := known.get here (mem_origin clientfd originfd id)
      have account := Sockets.account_deliver opened
        (((req.prepare clientIP).serialize.drop sent).take count)
      rw [Sockets.deliver_of_open opened] at account ⊢
      refine known.put other here rfl rfl rfl rfl (fun task apart => ?_) ⟨fits, ?_⟩
      · refine (account task).trans (Account.deliver_of_ne nofun fun same => ?_)
        exact apart (File.origin.inj same).symm
      · refine (account id).trans ?_
        rw [(agrees _ _ here).2, Account.deliver, if_neg nofun, if_pos rfl, take_append_take_drop]
  | @forwarded id clientfd originfd clientIP req sent here whole =>
      have account :=
        @Sockets.account_record state (.forward id (req.prepare clientIP).serialize)
      refine known.put other here rfl rfl rfl rfl (fun task apart => ?_) ?_
      · exact (account task).trans (Account.record_of_none rfl (if_neg (Ne.symm apart)))
      · refine (account id).trans ?_
        rw [(agrees _ _ here).2, List.take_of_length_le whole, Account.record, Event.request,
          if_pos rfl]
        rfl
  | @forwardFails id clientfd originfd clientIP req sent here =>
      rw [known.check here (mem_origin clientfd originfd id)]
      refine known.put other here rfl rfl rfl rfl (fun _ _ => rfl) ?_
      change Position.Agrees (state.account id) _
      rw [(agrees _ _ here).2]
      exact ⟨rfl, rfl, rfl, .inl rfl⟩
  | @receive id clientfd originfd clientIP req incoming here =>
      obtain ⟨reply, resp, same⟩ := receiveStep_eq state id clientfd originfd clientIP req incoming
      rw [same, known.check here (mem_origin clientfd originfd id)]
      refine known.put other here rfl rfl rfl rfl (fun _ _ => rfl) ?_
      change Position.Agrees (state.account id) _
      rw [agrees _ _ here]
      exact ⟨rfl, rfl, rfl, .inr rfl⟩
  | @hangsUp id clientfd originfd reply here =>
      have held := mem_origin clientfd originfd id
      rw [Sockets.close_of_open (known.get here held)]
      refine ⟨known.accounts.closes other here held fun entry => ?_, known.noBadf,
        known.traffic.put here rfl (fun _ _ => rfl) (reply.agrees_position clientfd
          originfd (agrees _ _ here))⟩
      rw [reply.held_position]
      exact mem_without_origin clientfd originfd id entry
  | @store id clientfd key serialized ttl here =>
      obtain ⟨response, responses, whole, forwarded⟩ := agrees _ _ here
      exact known.put other here rfl rfl rfl rfl (fun _ _ => rfl)
        ⟨Nat.zero_le _, response, responses, whole, forwarded⟩
  | @responds id clientfd data sent count here fits =>
      obtain ⟨-, response, responses, whole, forwarded⟩ := agrees _ _ here
      have opened := known.get here List.mem_cons_self
      have account := Sockets.account_deliver opened ((data.drop sent).take count)
      rw [Sockets.deliver_of_open opened] at account ⊢
      refine known.put other here rfl rfl rfl rfl (fun task apart => ?_) ?_
      · refine (account task).trans (Account.deliver_of_ne (fun same => ?_) nofun)
        exact apart (File.client.inj same).symm
      · have own := account id
        rw [Account.deliver, if_pos rfl, if_neg nofun] at own
        refine own.symm ▸ ⟨fits, ?_, responses, whole, forwarded⟩
        rw [response, take_append_take_drop]
  | @responded id clientfd data sent here whole =>
      obtain ⟨-, response, responses, unbroken, forwarded⟩ := agrees _ _ here
      have account := @Sockets.account_record state (.write id data)
      refine known.put other here rfl rfl rfl rfl (fun task apart => ?_) ?_
      · exact (account task).trans (Account.record_of_none (if_neg (Ne.symm apart)) rfl)
      · have own := account id
        rw [Account.record, Event.response, if_pos rfl] at own
        change Position.Agrees ((state.record (.write id data)).account id) _
        rw [own]
        refine ⟨.inr ⟨data, congrArg (data :: ·) responses, ?_, fun _ => ?_⟩, forwarded⟩
        · rw [response]
          exact List.take_prefix sent data
        · rw [response, List.take_of_length_le whole]
  | @respondFails id clientfd data sent here =>
      obtain ⟨-, response, responses, -, forwarded⟩ := agrees _ _ here
      have account := @Sockets.account_record { state with cut := id :: state.cut } (.write id data)
      rw [known.check here List.mem_cons_self]
      refine known.put other here rfl rfl rfl rfl (fun task apart => ?_) ?_
      · refine ((account task).trans
          (Account.record_of_none (if_neg (Ne.symm apart)) rfl)).trans ?_
        rw [Sockets.account, Sockets.account, Account.mk.injEq]
        refine ⟨rfl, rfl, ?_, rfl, rfl⟩
        rw [decide_eq_decide, List.mem_cons, or_iff_right apart]
      · have own := account id
        rw [Account.record, Event.response, if_pos rfl] at own
        refine own.symm ▸ ⟨.inr ⟨data, ?_, ?_, fun whole => ?_⟩, forwarded⟩
        · exact congrArg (data :: ·) responses
        · exact response ▸ List.take_prefix sent data
        · exact absurd List.mem_cons_self (of_decide_eq_false whole)
  | killed here held =>
      rw [known.check here held]
      exact ⟨known.accounts, known.noBadf, known.traffic.fresh, agrees⟩
  | @finish id clientfd here =>
      have done := agrees _ _ here
      rw [Sockets.close_of_open (known.get here List.mem_cons_self)]
      refine ⟨known.accounts.closes other here List.mem_cons_self fun entry => ?_, known.noBadf,
        known.traffic.put here rfl (fun _ _ => rfl) done⟩
      rw [Position.held, Position.held, List.mem_singleton]
      exact iff_of_false List.not_mem_nil fun both => both.2 both.1

end Steps

/-! ## The proxy without sockets -/

/-- What is left to do, as `Task` says it. -/
def Reply.task : Reply → Task
  | .store key serialized ttl => .store key serialized ttl
  | .respond data => .respond data

/-- A task without its descriptors; the steps towards the origin are one. -/
def Position.task (incoming : List Chunk) : Position → Task
  | .accepted _ clientIP => .accepted clientIP incoming
  | .lookup _ clientIP req => .lookup clientIP req
  | .resolve _ clientIP req | .dial _ clientIP req _ | .connecting _ _ clientIP req _
  | .refused _ _ clientIP req _ | .forward _ _ clientIP req _ => .connect clientIP req
  | .receive _ _ clientIP req => .receive clientIP req
  | .hangUp _ _ reply => reply.task
  | .store _ key serialized ttl => .store key serialized ttl
  | .respond _ data _ => .respond data
  | .finish _ | .closed => .closed

/-- The proxy without its sockets. -/
def Sockets.view (state : Sockets) : State where
  now := state.now
  entries := state.entries
  tasks := state.tasks.mapIdx fun id position => position.task (state.streams id)
  log := state.log

namespace Sockets

variable {base : Descriptors File} {blocks : Text → Bool} {state : Sockets} {id : ℕ}
  {before : Position}

theorem view_put (state : Sockets) (id : ℕ) (position : Position) :
    (state.put id position).view = state.view.move id (position.task (state.streams id)) := by
  rw [view, State.move, put, List.mapIdx_set]
  rfl

/-- A task of the proxy without sockets moves on along with the task. -/
theorem eq_view_put {next : State} {id : ℕ} {position : Position}
    (same : next = state.view.move id (position.task (state.streams id))) :
    next = (state.put id position).view := by
  rw [view_put]
  exact same

theorem tasks_view (here : state.tasks[id]? = some before) :
    state.view.tasks[id]? = some (before.task (state.streams id)) := by
  rw [view, List.getElem?_mapIdx, here, Option.map_some]

/-- A call that the proxy without sockets does not have leaves it as it is. -/
theorem view_put_same (here : state.tasks[id]? = some before) {position : Position}
    (same : position.task (state.streams id) = before.task (state.streams id)) :
    (state.put id position).view = state.view := by
  have at_id := tasks_view here
  obtain ⟨inside, task⟩ := List.getElem?_eq_some_iff.mp at_id
  rw [view_put, State.move, same, ← task, List.set_getElem_self]

/-- Each step is a step of the proxy without sockets, or none. -/
theorem simulates (known : Known base state) {after : Sockets} (move : Move blocks state after) :
    after.view = state.view ∨
      ∃ action, Proxy.step blocks state.view action = some after.view := by
  cases move with
  | accept clientIP incoming =>
      refine .inr ⟨.accept clientIP incoming, congrArg some ?_⟩
      have older : state.tasks.mapIdx (fun id position => position.task
          (Function.update state.streams state.tasks.length incoming id)) = state.view.tasks := by
        refine List.mapIdx_eq_mapIdx_iff.mpr fun id inside => ?_
        rw [Function.update_of_ne inside.ne]
      have grown : (state.tasks ++ [Position.accepted state.table.lowest clientIP]).mapIdx
          (fun id (position : Position) => position.task
            (Function.update state.streams state.tasks.length incoming id)) =
              state.view.tasks ++ [.accepted clientIP incoming] := by
        rw [List.mapIdx_concat, older, Function.update_self]
        rfl
      exact congrArg (fun tasks => State.mk state.now state.entries tasks state.log) grown.symm
  | tick elapsed => exact .inr ⟨.tick elapsed, rfl⟩
  | @parse id clientfd clientIP here =>
      have incoming : state.incoming clientfd = state.streams id := by
        rw [Sockets.incoming, known.get here List.mem_cons_self]
      refine .inr ⟨.run id, ?_⟩
      rw [Proxy.step, tasks_view here]
      refine congrArg some ?_
      simp only [parseStep, known.check here List.mem_cons_self, incoming, Proxy.parseStep]
      cases HTTPRequest.parse ⟨[], state.streams id⟩ with
      | none => exact eq_view_put rfl
      | some parsed =>
          obtain ⟨req, rest⟩ := parsed
          by_cases noHost : req.target.host = []
          · simp only [if_pos noHost]
            exact eq_view_put rfl
          by_cases blocked : blocks req.target.host = true
          · simp only [if_neg noHost, if_pos blocked]
            exact eq_view_put rfl
          by_cases get : req.method = ascii "GET"
          · simp only [if_neg noHost, if_neg blocked, if_pos get]
            exact eq_view_put rfl
          · simp only [if_neg noHost, if_neg blocked, if_neg get]
            exact eq_view_put rfl
  | @lookup id clientfd clientIP req here =>
      refine .inr ⟨.run id, ?_⟩
      rw [Proxy.step, tasks_view here]
      refine congrArg some ?_
      simp only [lookupStep, Proxy.lookupStep]
      have lookup : state.view.entries.lookup (cacheKey req) state.view.now =
        state.entries.lookup (cacheKey req) state.now := rfl
      rw [lookup]
      cases state.entries.lookup (cacheKey req) state.now with
      | mk cached entries =>
          cases cached with
          | none => exact eq_view_put rfl
          | some cached => exact eq_view_put rfl
  | @unresolved id clientfd clientIP req here | @exhausted id clientfd clientIP req here =>
      refine .inr ⟨.connect id .unreachable, ?_⟩
      rw [Proxy.step, tasks_view here]
      exact congrArg some (eq_view_put rfl)
  | resolved left here => exact .inl (view_put_same here rfl)
  | noSocket here => exact .inl (view_put_same here rfl)
  | socket here => exact .inl (view_put_same here rfl)
  | connected here => exact .inl (view_put_same here rfl)
  | refused here => exact .inl (view_put_same here rfl)
  | redials here => exact .inl (view_put_same here rfl)
  | @forwards id clientfd originfd clientIP req sent count here fits =>
      rw [deliver_of_open (known.get here (mem_origin clientfd originfd id))]
      exact .inl (view_put_same here rfl)
  | @forwarded id clientfd originfd clientIP req sent here whole =>
      refine .inr ⟨.connect id .sent, ?_⟩
      rw [Proxy.step, tasks_view here]
      exact congrArg some (eq_view_put rfl)
  | @forwardFails id clientfd originfd clientIP req sent here =>
      refine .inr ⟨.connect id .writeFailed, ?_⟩
      rw [Proxy.step, tasks_view here]
      exact congrArg some (eq_view_put rfl)
  | @receive id clientfd originfd clientIP req incoming here =>
      refine .inr ⟨.receive id incoming, ?_⟩
      rw [Proxy.step, tasks_view here]
      refine congrArg some ?_
      simp only [receiveStep, Proxy.receiveStep]
      cases HTTPResponse.initial.ingestFrom ⟨[], incoming⟩ with
      | mk resp rest =>
          by_cases keeps : 0 < cacheTTL (req.prepare clientIP) resp
          · simp only [if_pos keeps]
            exact eq_view_put rfl
          · simp only [if_neg keeps]
            exact eq_view_put rfl
  | @hangsUp id clientfd originfd reply here =>
      refine .inl (view_put_same here ?_)
      cases reply <;> rfl
  | @store id clientfd key serialized ttl here =>
      refine .inr ⟨.run id, ?_⟩
      rw [Proxy.step, tasks_view here]
      exact congrArg some (eq_view_put rfl)
  | @responds id clientfd data sent count here fits =>
      rw [deliver_of_open (known.get here List.mem_cons_self)]
      exact .inl (view_put_same here rfl)
  | @responded id clientfd data sent here whole =>
      refine .inr ⟨.run id, ?_⟩
      rw [Proxy.step, tasks_view here]
      exact congrArg some (eq_view_put rfl)
  | @respondFails id clientfd data sent here =>
      refine .inr ⟨.run id, ?_⟩
      rw [Proxy.step, tasks_view here]
      exact congrArg some (eq_view_put rfl)
  | killed here => exact .inl rfl
  | finish here => exact .inl (view_put_same here rfl)

end Sockets

/-! ## Runs -/

/-- A run with the sockets is a run without them, and keeps the invariant. -/
theorem known_of_reachable {blocks : Text → Bool} {base : Descriptors File}
    (other : NoSockets base) {state : Sockets}
    (reach : (socketMachine blocks base).Reachable .free state) :
    (machine blocks).Reachable .free state.view ∧ Known base state := by
  refine reach.invariant (fun state => (machine blocks).Reachable .free state.view ∧
    Known base state) ?_ ?_
  · rintro state ⟨entries, tasks, log, table, written, cut, badf, killed⟩
    refine ⟨.of_start ⟨entries, ?_, log⟩, ⟨fun fd file => ?_, badf, ⟨fun id _ => ?_, ?_⟩⟩⟩
    · rw [Sockets.view, tasks]
      rfl
    · rw [table, tasks, or_iff_left]
      rintro ⟨id, position, here, -⟩
      cases here
    · rw [Sockets.account, written, written, log, cut]
      rfl
    · rw [tasks]
      rintro id position ⟨⟩
  · rintro before label after ⟨reach, known⟩ - taken
    have move := Sockets.move_of_step taken
    refine ⟨?_, known.step other move⟩
    rcases Sockets.simulates known move with same | ⟨action, taken⟩
    · rw [same]
      exact reach
    · exact reach.next trivial taken

/-- With its sockets the proxy does what it does without them: each descriptor that a task uses is
open and refers to its own socket, the open descriptors are those that the tasks hold, and no client
or origin gets bytes that its own task did not hand over for it. -/
theorem sockets_refine {blocks : Text → Bool} {base : Descriptors File} (other : NoSockets base)
    {state : Sockets} (reach : (socketMachine blocks base).Reachable .free state) :
    (machine blocks).Reachable .free state.view ∧ state.badf = false ∧
      Accounts base state.tasks state.table ∧ Traffic state := by
  obtain ⟨view, known⟩ := known_of_reachable other reach
  exact ⟨view, known.noBadf, known.accounts, known.traffic⟩

/-- Standard input, output and error, and the socket that listens. -/
def standardTable : Descriptors File :=
  ⟨[some (.other 0), some (.other 1), some (.other 2), some (.other 3)]⟩

theorem noSockets_standardTable : NoSockets standardTable := by
  rintro (_ | _ | _ | _ | fd) file opened
  · exact ⟨0, (Option.some.inj opened).symm⟩
  · exact ⟨1, (Option.some.inj opened).symm⟩
  · exact ⟨2, (Option.some.inj opened).symm⟩
  · exact ⟨3, (Option.some.inj opened).symm⟩
  · cases opened

/-- The proxy before its first connection. -/
def listening : Sockets where
  now := 0
  entries := ∅
  tasks := []
  streams _ := []
  table := standardTable
  written _ := []
  log := []
  cut := []
  badf := false
  killed := false

/-- A task whose first address refuses, while another client connects; then the origin answers, and
the client is gone after three bytes. -/
def refusedOnce : List SocketAction :=
  let answer : List Chunk := [⟨ascii "HTTP/1.0 200 OK\r\n\r\nhi", by decide +kernel⟩]
  [.accept (ascii "1.2.3.4") cacheableGet, .run 0, .run 0, .resolve 0 (some 2), .socket 0 true,
    .connect 0 false, .run 0, .accept (ascii "1.2.3.5") [], .socket 0 true, .connect 0 true,
    .write 0 (.bytes 40), .write 0 (.bytes 23), .run 0, .receive 0 answer, .run 0,
    .write 0 (.bytes 3), .write 0 .failed, .run 0]

theorem refusedOnce_finishes :
    ((socketMachine (fun _ => false) standardTable).exec .free listening refusedOnce).isSome =
      true := by
  decide +kernel

/-- The proxy after `refusedOnce`. -/
def afterRefused : Sockets :=
  ((socketMachine (fun _ => false) standardTable).exec .free listening refusedOnce).get
    refusedOnce_finishes

theorem sockets_refine_refused :
    afterRefused.tasks = [.closed, .accepted 5 (ascii "1.2.3.5")] ∧
      afterRefused.written (.client 0) = ascii "HTT" ∧ afterRefused.badf = false ∧
        Accounts standardTable afterRefused.tasks afterRefused.table ∧ Traffic afterRefused := by
  have start : (socketMachine (fun _ => false) standardTable).start listening :=
    ⟨rfl, rfl, rfl, rfl, fun _ => rfl, rfl, rfl, rfl⟩
  have reach : (socketMachine (fun _ => false) standardTable).Reachable .free afterRefused :=
    .of_exec start refusedOnce refusedOnce_finishes
  exact ⟨by decide +kernel, by decide +kernel,
    (sockets_refine noSockets_standardTable reach).2⟩

end Proxy
end Syscore
