import Syscore.Proxy.Request
import Syscore.Proxy.Sessions

/-!
# Forwarding a request

What the origin reads is the request that the proxy parsed: its tokens, its header fields but those
about the connection, the two fields that the proxy adds, and its body.
-/

namespace Syscore
namespace Proxy

namespace HTTPRequest

/-- The client's fields without `Connection` and `Proxy-Connection`, then those of the proxy. -/
def forwardedFields (req : HTTPRequest) (clientIP : Text) : List (Text × Text) :=
  (req.headers.headers.filter fun h =>
      HTTPHeader.lower h.1 ≠ ascii "connection" ∧
        HTTPHeader.lower h.1 ≠ ascii "proxy-connection") ++
    [(ascii "Connection", ascii "close"), (ascii "x-forwarded-for", clientIP)]

theorem prepare_headers (req : HTTPRequest) (clientIP : Text) :
    (req.prepare clientIP).headers = ⟨req.forwardedFields clientIP⟩ := by
  have connection : HTTPHeader.lower (ascii "Connection") = ascii "connection" := by decide +kernel
  have proxy : HTTPHeader.lower (ascii "Proxy-Connection") = ascii "proxy-connection" := by
    decide +kernel
  simp only [prepare, HTTPHeader.remove, HTTPHeader.add, forwardedFields, connection, proxy,
    List.filter_filter, List.append_assoc, List.singleton_append]
  congr 3
  funext h
  rw [← Bool.decide_and]
  exact decide_eq_decide.mpr and_comm

/-- An address of digits and dots. -/
def Dotted (clientIP : Text) : Prop := ∀ char ∈ clientIP, isdigit char = true ∨ char = 46

theorem Dotted.stable {clientIP : Text} (dotted : Dotted clientIP) :
    HTTPHeader.StableField (ascii "x-forwarded-for", clientIP) where
  name_colon := show HTTPHeader.colon ∉ ascii "x-forwarded-for" by decide +kernel
  name_newline := show newline ∉ ascii "x-forwarded-for" by decide +kernel
  value_newline inside := by
    rcases dotted newline inside with digit | dot
    · exact absurd digit (by decide)
    · exact absurd dot (by decide)
  value_head char head := by
    rcases dotted char (List.mem_of_mem_head? head) with digit | rfl
    · have lower := (isdigit_iff.mp digit).1
      rw [Bool.or_eq_false_iff, decide_eq_false_iff_not, decide_eq_false_iff_not]
      constructor
      · rintro rfl
        exact absurd lower (by decide)
      · rintro rfl
        exact absurd lower (by decide)
    · decide

/-- The fields of a forwarded request read back. -/
theorem stable_forwardedFields {req : HTTPRequest} (wellFormed : req.WellFormed) {clientIP : Text}
    (dotted : Dotted clientIP) :
    ∀ h ∈ req.forwardedFields clientIP, HTTPHeader.StableField h := by
  intro h inside
  rcases List.mem_append.mp inside with kept | added
  · exact wellFormed.fields_stable h (List.mem_of_mem_filter kept)
  · rcases List.mem_cons.mp added with rfl | last
    · exact ⟨by decide +kernel, by decide +kernel, by decide +kernel, by decide +kernel⟩
    · rw [List.mem_singleton.mp last]
      exact dotted.stable

/-- The first line of the forwarded request. -/
def requestLine (req : HTTPRequest) : Text :=
  req.method ++ [32] ++ req.target.path ++ [32] ++ req.protocol

theorem newline_notMem_requestLine {req : HTTPRequest} (wellFormed : req.WellFormed) :
    newline ∉ req.requestLine := by
  have free {token : Text} (noSpace : ∀ char ∈ token, isspace char = false) : newline ∉ token :=
    fun inside => absurd (noSpace newline inside) (by decide)
  simp only [requestLine, List.mem_append, not_or]
  exact ⟨⟨⟨⟨free wellFormed.method_noSpace, by decide⟩,
    free wellFormed.target_wellFormed.path_noSpace⟩, by decide⟩, free wellFormed.protocol_noSpace⟩

/-- What an origin reads from `data`: the request line, the header block up to its blank line, and
exactly the body. -/
def ReadsAs (data : Text) (req : HTTPRequest) (clientIP : Text) : Prop :=
  ∀ origin : SockReader, origin.contents = data → ∃ block body,
    origin.readLine = some (req.requestLine, block) ∧
      block.contents =
        HTTPHeader.serialize ⟨req.forwardedFields clientIP⟩ ++ [13, newline] ++ req.body ∧
      HTTPHeader.parse ⟨[]⟩ block = (⟨req.forwardedFields clientIP⟩, body) ∧
      body.contents = req.body

theorem readsAs_serialize {req : HTTPRequest} (wellFormed : req.WellFormed) {clientIP : Text}
    (dotted : Dotted clientIP) : ReadsAs (req.prepare clientIP).serialize req clientIP := by
  intro origin bytes
  have shape : origin.contents = req.requestLine ++ [13, newline] ++
      (HTTPHeader.serialize ⟨req.forwardedFields clientIP⟩ ++ [13, newline] ++ req.body) := by
    rw [bytes, serialize, prepare_headers]
    simp only [prepare, requestLine, List.append_assoc]
  obtain ⟨block, read, rest⟩ :=
    SockReader.readLine_crlf (newline_notMem_requestLine wellFormed) shape
  obtain ⟨body, parsed, done⟩ :=
    HTTPHeader.parse_serialize (stable_forwardedFields wellFormed dotted) ⟨[]⟩ rest
  exact ⟨block, body, read, rest, parsed, done⟩

end HTTPRequest

/-- The proxy forwards exactly the request it parsed: `data` is what `serviceConnection` writes to
the origin. -/
theorem forwards_what_it_parsed {client rest : SockReader} {req : HTTPRequest}
    (parsed : HTTPRequest.parse client = some (req, rest)) {clientIP : Text}
    (dotted : HTTPRequest.Dotted clientIP) {state : State} {id : ℕ} {data : Text}
    (sent : (connectStep state id clientIP req .sent).log = .forward id data :: state.log) :
    HTTPRequest.ReadsAs data req clientIP := by
  obtain ⟨_, rfl⟩ := Event.forward.inj (List.cons.inj sent).1
  exact HTTPRequest.readsAs_serialize (HTTPRequest.wellFormed_of_parse parsed) dotted

/-- A request with a nameless field, a stray carriage return, a line without a colon and a surplus
byte behind its body. -/
def strayClient : SockReader where
  buf := []
  incoming :=
    [⟨ascii "POST http://h/x HTTP/1.0\r\nproxy-CONNECTION: keep\r\n: \tv\r\nA:\rb\r\nno colon\n",
        by decide +kernel⟩,
      ⟨ascii "content-length: 2\r\n\r\nok!", by decide +kernel⟩]

/-- What is parsed from it. -/
def strayRequest : HTTPRequest × SockReader :=
  (HTTPRequest.parse strayClient).get (by decide +kernel)

theorem forwards_what_it_parsed_stray :
    HTTPRequest.ReadsAs (strayRequest.1.prepare (ascii "10.0.0.7")).serialize strayRequest.1
        (ascii "10.0.0.7") ∧
      strayRequest.1.body = ascii "ok" ∧
      strayRequest.1.forwardedFields (ascii "10.0.0.7") =
        [([], ascii "v"), (ascii "A", ascii "\rb"), (ascii "content-length", ascii "2"),
          (ascii "Connection", ascii "close"), (ascii "x-forwarded-for", ascii "10.0.0.7")] := by
  refine ⟨?_, by decide +kernel, by decide +kernel⟩
  have parsed : HTTPRequest.parse strayClient = some strayRequest := (Option.some_get _).symm
  have dotted : HTTPRequest.Dotted (ascii "10.0.0.7") := by
    rw [HTTPRequest.Dotted]
    decide +kernel
  exact forwards_what_it_parsed parsed dotted
    (show (connectStep ⟨0, ∅, [], []⟩ 0 (ascii "10.0.0.7") strayRequest.1 .sent).log = _ from rfl)

/-- In every run, whatever reaches an origin reads as a request that a client sent. -/
theorem forwards_of_run {blocks : Text → Bool} {streams : List Chunk → Prop} {state : State}
    (reach : (machine blocks).Reachable (clients HTTPRequest.Dotted streams) state) {id : ℕ}
    {data : Text} (forwarded : .forward id data ∈ state.log) :
    ∃ req clientIP, RequestOf streams req ∧ HTTPRequest.ReadsAs data req clientIP := by
  obtain ⟨clientIP, req, dotted, own, rfl⟩ := (served_of_reachable reach).log _ forwarded
  have ⟨_, incoming, rest, _, parsed⟩ := own
  exact ⟨req, clientIP, own,
    HTTPRequest.readsAs_serialize (HTTPRequest.wellFormed_of_parse parsed) dotted⟩

end Proxy
end Syscore
