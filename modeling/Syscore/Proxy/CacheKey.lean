import Syscore.Proxy.Freshness
import Syscore.Proxy.Request
import Syscore.Proxy.Sessions

/-!
# What a cache key identifies

Nothing separates the decimal port from the path in a cache key. Two requests with one key name the
same resource unless the path of one begins with digits that the port of the other ends in.
-/

namespace Syscore

/-- Two texts that agree are cut by a character at the same place. -/
theorem cut_unique {stop : UInt8} {left right leftRest rightRest : Text} (leftFree : stop ∉ left)
    (rightFree : stop ∉ right) (same : left ++ stop :: leftRest = right ++ stop :: rightRest) :
    left = right ∧ leftRest = rightRest := by
  have leftCut := cut_at leftFree leftRest
  have rightCut := cut_at rightFree rightRest
  rw [same] at leftCut
  constructor
  · exact leftCut.1.symm.trans rightCut.1
  · exact (List.cons.inj (leftCut.2.symm.trans rightCut.2)).2

namespace Proxy

/-- Two requests for one resource. -/
def SameResource (left right : HTTPRequest) : Prop :=
  left.method = right.method ∧ left.target.host = right.target.host ∧
    left.target.port = right.target.port ∧ left.target.path = right.target.path

/-- The path begins with digits that complete its port to the port of the other request, whose path
is the rest. -/
def Shadows (left right : HTTPRequest) : Prop :=
  ∃ digits, digits ≠ [] ∧ decimal right.target.port = decimal left.target.port ++ digits ∧
    left.target.path = digits ++ right.target.path

/-- Two requests of one method to one host, one of which shadows the other. -/
def Ambiguous (left right : HTTPRequest) : Prop :=
  left.method = right.method ∧ left.target.host = right.target.host ∧
    (Shadows left right ∨ Shadows right left)

/-- What two requests with one key have in common. -/
theorem cacheKey_eq_iff {left right : HTTPRequest} (leftForm : left.WellFormed)
    (rightForm : right.WellFormed) :
    cacheKey left = cacheKey right ↔ left.method = right.method ∧
      left.target.host = right.target.host ∧
        decimal left.target.port ++ left.target.path =
          decimal right.target.port ++ right.target.path := by
  have key (req : HTTPRequest) : cacheKey req = req.method ++ 32 :: (req.target.host ++
      HTTPHeader.colon :: (decimal req.target.port ++ req.target.path)) := by
    rw [cacheKey, show ascii ":" = [HTTPHeader.colon] by decide +kernel]
    simp only [List.append_assoc, List.cons_append, List.nil_append]
  have noBlank {req : HTTPRequest} (form : req.WellFormed) : 32 ∉ req.method :=
    fun inside => absurd (form.method_noSpace 32 inside) (by decide)
  constructor
  · intro same
    rw [key, key] at same
    obtain ⟨method, same⟩ := cut_unique (noBlank leftForm) (noBlank rightForm) same
    obtain ⟨host, same⟩ := cut_unique leftForm.target_wellFormed.host_colon
      rightForm.target_wellFormed.host_colon same
    exact ⟨method, host, same⟩
  · rintro ⟨method, host, same⟩
    rw [key, key, method, host, same]

theorem Shadows.port_ne {left right : HTTPRequest} (shadows : Shadows left right) :
    left.target.port ≠ right.target.port := by
  obtain ⟨digits, nonempty, port, _⟩ := shadows
  intro same
  rw [same] at port
  exact nonempty (List.self_eq_append_right.mp port)

theorem Shadows.append_eq {left right : HTTPRequest} (shadows : Shadows left right) :
    decimal left.target.port ++ left.target.path =
      decimal right.target.port ++ right.target.path := by
  obtain ⟨digits, _, port, path⟩ := shadows
  rw [port, path, List.append_assoc]

/-- The key of two requests identifies their resource just when they are not ambiguous. -/
theorem identifies_iff {left right : HTTPRequest} (leftForm : left.WellFormed)
    (rightForm : right.WellFormed) :
    (cacheKey left = cacheKey right → SameResource left right) ↔ ¬ Ambiguous left right := by
  rw [cacheKey_eq_iff leftForm rightForm]
  constructor
  · rintro identifies ⟨method, host, shadows | shadows⟩
    · exact shadows.port_ne (identifies ⟨method, host, shadows.append_eq⟩).2.2.1
    · exact shadows.port_ne (identifies ⟨method, host, shadows.append_eq.symm⟩).2.2.1.symm
  · rintro clear ⟨method, host, same⟩
    refine ⟨method, host, ?_⟩
    rcases List.append_eq_append_iff.mp same with ⟨digits, port, path⟩ | ⟨digits, port, path⟩
    · by_cases none : digits = []
      · rw [none, List.append_nil] at port
        rw [none, List.nil_append] at path
        exact ⟨(decimal_injective port).symm, path⟩
      · exact absurd ⟨method, host, Or.inl ⟨digits, none, port, path⟩⟩ clear
    · by_cases none : digits = []
      · rw [none, List.append_nil] at port
        rw [none, List.nil_append] at path
        exact ⟨decimal_injective port, path.symm⟩
      · exact absurd ⟨method, host, Or.inr ⟨digits, none, port, path⟩⟩ clear

/-- A hit under a key comes from a response to a request for the resource of every client's request
with this key. -/
def HitOf (streams : List Chunk → Prop) (key cached : Text) (before : List Event) : Prop :=
  (∃ req, RequestOf streams req ∧ req.method = ascii "GET" ∧ cacheKey req = key) ∧
    ∀ req, RequestOf streams req → cacheKey req = key → ∃ storer clientIP stored resp,
      .ingest storer clientIP stored resp ∈ before ∧ resp.serialize = cached ∧
        SameResource stored req

/-- Where no two requests of the clients are ambiguous, a hit answers for the resource asked for. -/
theorem hit_same_resource {blocks : Text → Bool} {addresses : Text → Prop}
    {streams : List Chunk → Prop} {state : State}
    (reach : (machine blocks).Reachable (clients addresses streams) state)
    (clear : ∀ left right, RequestOf streams left → RequestOf streams right →
      ¬ Ambiguous left right)
    {id : ℕ} {key : Text} {now : ℤ} {cached : Text} {before : List Event}
    (hit : .lookup id key now (some cached) :: before <:+ state.log) :
    HitOf streams key cached before := by
  have served := served_of_reachable reach
  obtain ⟨storer, ttl, time, earlier, _, ⟨later, log, _⟩, provenance, _⟩ :=
    hits_are_fresh reach.toFree hit
  obtain ⟨_, clientIP, stored, incoming, resp, ingested, _, _, sameKey, _, serialized⟩ := provenance
  have inside : .ingest storer clientIP stored resp ∈ before := by
    rw [log]
    exact List.mem_append_right later (List.mem_cons_of_mem _ ingested)
  have own := served.log _ (hit.subset (List.mem_cons_of_mem _ inside))
  refine ⟨served.log _ (hit.subset List.mem_cons_self), fun req asked same => ?_⟩
  have ⟨_, _, _, _, storedParse⟩ := own.2
  have ⟨_, _, _, _, askedParse⟩ := asked
  refine ⟨storer, clientIP, stored, resp, inside, serialized, ?_⟩
  exact (identifies_iff (HTTPRequest.wellFormed_of_parse storedParse)
    (HTTPRequest.wellFormed_of_parse askedParse)).mpr (clear stored req own.2 asked)
    (sameKey.trans same.symm)

/-- The key of two parsed requests identifies what is forwarded just when they are not ambiguous,
and in a run without ambiguous requests every hit answers for the resource asked for. -/
theorem cacheKey_identifies_iff (left right : SockReader) :
    (∀ {leftRest rightRest : SockReader} {a b : HTTPRequest},
      HTTPRequest.parse left = some (a, leftRest) → HTTPRequest.parse right = some (b, rightRest) →
        a.target.host ≠ [] → b.target.host ≠ [] →
          ((cacheKey a = cacheKey b → SameResource a b) ↔ ¬ Ambiguous a b)) ∧
      ∀ {blocks : Text → Bool} {addresses : Text → Prop} {streams : List Chunk → Prop}
        {state : State}, (machine blocks).Reachable (clients addresses streams) state →
          (∀ a b, RequestOf streams a → RequestOf streams b → ¬ Ambiguous a b) →
            ∀ {id : ℕ} {key : Text} {now : ℤ} {cached : Text} {before : List Event},
              .lookup id key now (some cached) :: before <:+ state.log →
                HitOf streams key cached before := by
  constructor
  · intro leftRest rightRest a b leftParsed rightParsed _ _
    exact identifies_iff (HTTPRequest.wellFormed_of_parse leftParsed)
      (HTTPRequest.wellFormed_of_parse rightParsed)
  · intro blocks addresses streams state reach clear id key now cached before hit
    exact hit_same_resource reach clear hit

/-- A client that asks for `/foo` on port 805, and what its origin answers. -/
def portInURL : List Chunk := [⟨ascii "GET http://h:805/foo HTTP/1.0\r\n\r\n", by decide +kernel⟩]

@[inherit_doc portInURL]
def portInURLResponse : List Chunk :=
  [⟨ascii "HTTP/1.0 200 OK\r\nCache-Control: max-age=60\r\n\r\nhi", by decide +kernel⟩]

/-- A client that asks port 80 of the same host for `5/foo`. -/
def digitInPath : List Chunk :=
  [⟨ascii "GET 5/foo HTTP/1.0\r\nHost: h\r\n\r\n", by decide +kernel⟩]

/-- The request that is parsed. -/
def requestOf (incoming : List Chunk) : Option HTTPRequest :=
  (HTTPRequest.parse ⟨[], incoming⟩).map Prod.fst

/-- The second client asks after the first has its response. -/
def poisonedRun : List Action :=
  [.accept (ascii "1.2.3.4") portInURL, .run 0, .run 0, .connect 0 .sent,
    .receive 0 portInURLResponse, .run 0, .accept (ascii "1.2.3.5") digitInPath, .run 1, .run 1,
    .run 1]

/-- One key for two ports and two paths, and a client that gets the response of the other port. -/
theorem cacheKey_collision :
    ((requestOf portInURL).map cacheKey = some (ascii "GET h:805/foo") ∧
        (requestOf digitInPath).map cacheKey = some (ascii "GET h:805/foo")) ∧
      ((requestOf portInURL).map HTTPRequest.target = some ⟨ascii "h", 805, ascii "/foo"⟩ ∧
        (requestOf digitInPath).map HTTPRequest.target = some ⟨ascii "h", 80, ascii "5/foo"⟩) ∧
      ((machine fun _ => false).exec .free ⟨0, ∅, [], []⟩ poisonedRun).map
          (fun state => state.log.head?) =
        some (some (.write 1
          (ascii "HTTP/1.0 200 OK\r\nCache-Control: max-age=60\r\n\r\nhi"))) := by
  refine ⟨⟨?_, ?_⟩, ⟨?_, ?_⟩, ?_⟩
  all_goals decide +kernel

theorem not_ambiguous_self (req : HTTPRequest) : ¬ Ambiguous req req := by
  rintro ⟨_, _, shadows | shadows⟩
  · exact shadows.port_ne rfl
  · exact shadows.port_ne rfl

instance (addresses : Text → Prop) (streams : List Chunk → Prop) [DecidablePred addresses]
    [DecidablePred streams] (state : State) (action : Action) :
    Decidable (clients addresses streams state action) :=
  match action with
  | .accept clientIP incoming => inferInstanceAs (Decidable (addresses clientIP ∧ streams incoming))
  | .tick _ => .isTrue trivial
  | .run _ => .isTrue trivial
  | .connect _ _ => .isTrue trivial
  | .receive _ _ => .isTrue trivial

/-- The state in which two clients that sent one request have been served, the second by a hit. -/
def afterTwoGets : State :=
  ((machine fun _ => false).exec (clients (fun _ => True) (· = cacheableGet)) ⟨0, ∅, [], []⟩
    repeatedGet).get (by decide +kernel)

theorem cacheKey_identifies_iff_twoGets :
    (∀ a b rest rest', HTTPRequest.parse ⟨[], portInURL⟩ = some (a, rest) →
        HTTPRequest.parse ⟨[], cacheableGet⟩ = some (b, rest') → ¬ Ambiguous a b) ∧
      HitOf (· = cacheableGet) (ascii "GET h:80/")
        (ascii "HTTP/1.0 200 OK\r\nCache-Control: max-age=5\r\n\r\nhi") afterTwoGets.log.tail := by
  constructor
  · intro a b rest rest' parsed parsed'
    have facts : (requestOf portInURL).map (fun req => (cacheKey req, req.target.host)) =
          some (ascii "GET h:805/foo", ascii "h") ∧
        (requestOf cacheableGet).map (fun req => (cacheKey req, req.target.host)) =
          some (ascii "GET h:80/", ascii "h") := by decide +kernel
    rw [requestOf, requestOf, parsed, parsed'] at facts
    obtain ⟨key, host⟩ := Prod.mk.inj (Option.some.inj facts.1)
    obtain ⟨key', host'⟩ := Prod.mk.inj (Option.some.inj facts.2)
    refine ((cacheKey_identifies_iff _ _).1 parsed parsed' ?_ ?_).mp fun same => ?_
    · rw [host]
      decide +kernel
    · rw [host']
      decide +kernel
    · rw [key, key'] at same
      exact absurd same (by decide +kernel)
  · have start : (machine fun _ => false).start ⟨0, ∅, [], []⟩ := ⟨rfl, rfl, rfl⟩
    have reach : (machine fun _ => false).Reachable (clients (fun _ => True) (· = cacheableGet))
        afterTwoGets := .of_exec start repeatedGet (by decide +kernel)
    refine (cacheKey_identifies_iff ⟨[], cacheableGet⟩ ⟨[], cacheableGet⟩).2 reach ?_
      (show Event.lookup 1 (ascii "GET h:80/") (10 ^ 9) (some _) :: _ <:+ _ from ?_)
    · rintro a b ⟨_, _, _, rfl, parsed⟩ ⟨_, _, _, rfl, parsed'⟩
      obtain ⟨rfl, _⟩ := Prod.mk.inj (Option.some.inj (parsed.symm.trans parsed'))
      exact not_ambiguous_self a
    · rw [List.cons_head?_tail (by decide +kernel)]

end Proxy
end Syscore
