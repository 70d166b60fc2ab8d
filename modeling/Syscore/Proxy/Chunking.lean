import Syscore.Proxy.Relay

/-!
# Cutting the stream

Two readers with the same bytes before them are the same to a parser, however `read` delivers these
bytes. Each operation yields the same result on both and leaves readers that agree again.
-/

namespace Syscore
namespace Proxy

/-- Two results with the readers left behind agree when only the cuts of the streams differ. -/
def Agree {α : Type*} (left right : α × SockReader) : Prop :=
  left.1 = right.1 ∧ left.2.contents = right.2.contents

namespace SockReader

/-- A call of one of the three reading operations. -/
inductive Call where
  | readLine
  | readExactly (n : ℕ)
  | readUntilEOF
  deriving DecidableEq

/-- What a call yields, `none` where `readLine` returns false, and the reader it leaves. -/
def Call.run (reader : SockReader) : Call → Option Text × SockReader
  | .readLine =>
      match reader.readLine with
      | some (line, rest) => (some line, rest)
      | none => (none, reader)
  | .readExactly n => (some (reader.readExactly n).1, (reader.readExactly n).2)
  | .readUntilEOF => (some reader.readUntilEOF.1, reader.readUntilEOF.2)

/-- Calls one after the other. -/
def runCalls (reader : SockReader) : List Call → List (Option Text) × SockReader
  | [] => ([], reader)
  | call :: calls =>
      let (result, reader) := call.run reader
      let (results, reader) := reader.runCalls calls
      (result :: results, reader)

/-- A call on a stream of bytes that is not cut. -/
def Call.onStream (stream : Text) : Call → Option Text × Text
  | .readLine =>
      match firstLine stream with
      | some (line, rest) => (some line, rest)
      | none => (none, stream)
  | .readExactly n => (some (stream.take n), stream.drop n)
  | .readUntilEOF => (some stream, [])

/-- The buffered reader simulates the plain stream. -/
theorem Call.run_contents (call : Call) (reader : SockReader) :
    ((call.run reader).1, (call.run reader).2.contents) = call.onStream reader.contents := by
  cases call with
  | readLine =>
      rw [Call.run, Call.onStream, ← readLine_contents]
      cases reader.readLine <;> rfl
  | readExactly n =>
      obtain ⟨taken, dropped⟩ := reader.readExactly_contents n
      rw [Call.run, Call.onStream, taken, dropped]
  | readUntilEOF =>
      rw [Call.run, Call.onStream, reader.readUntilEOF_contents]
      rfl

variable {left right : SockReader}

theorem Call.run_agree (same : left.contents = right.contents) (call : Call) :
    Agree (call.run left) (call.run right) := by
  have both := (call.run_contents left).trans (same ▸ (call.run_contents right).symm)
  exact Prod.mk.inj both

theorem runCalls_agree (same : left.contents = right.contents) (calls : List Call) :
    Agree (left.runCalls calls) (right.runCalls calls) := by
  induction calls generalizing left right with
  | nil => exact ⟨rfl, same⟩
  | cons call calls ih =>
      obtain ⟨result, rest⟩ := call.run_agree same
      obtain ⟨results, done⟩ := ih rest
      exact ⟨congrArg₂ List.cons result results, done⟩

theorem readExactly_agree (same : left.contents = right.contents) (n : ℕ) :
    Agree (left.readExactly n) (right.readExactly n) := by
  rw [Agree, (left.readExactly_contents n).1, (left.readExactly_contents n).2,
    (right.readExactly_contents n).1, (right.readExactly_contents n).2, same]
  exact ⟨rfl, rfl⟩

theorem readUntilEOF_agree (same : left.contents = right.contents) :
    Agree left.readUntilEOF right.readUntilEOF := by
  rw [Agree, readUntilEOF_contents, readUntilEOF_contents, same]
  exact ⟨rfl, rfl⟩

/-- The other reader yields the same line. -/
theorem readLine_agree (same : left.contents = right.contents) {line : Text} {rest : SockReader}
    (read : left.readLine = some (line, rest)) :
    ∃ rest', right.readLine = some (line, rest') ∧ rest.contents = rest'.contents := by
  have bytes := readLine_contents left
  rw [read, same] at bytes
  obtain ⟨rest', read', same'⟩ := readLine_of_firstLine bytes.symm
  exact ⟨rest', read', same'.symm⟩

theorem readLine_eq_none (reader : SockReader) :
    reader.readLine = none ↔ reader.contents = [] := by
  rw [← Option.map_eq_none_iff, readLine_contents, firstLine]
  by_cases found : newline ∈ reader.contents
  · simp [found, List.ne_nil_of_mem found]
  · by_cases ended : reader.contents = []
    · simp [ended]
    · simp [found, ended]

/-- Where one reader is at its end, so is the other. -/
theorem readLine_none_agree {left right : SockReader} (same : left.contents = right.contents)
    (ended : left.readLine = none) : right.readLine = none := by
  rw [readLine_eq_none, ← same, ← readLine_eq_none]
  exact ended

end SockReader

variable {left right : SockReader}

theorem HTTPHeader.parse_agree (header : HTTPHeader) (same : left.contents = right.contents) :
    Agree (header.parse left) (header.parse right) := by
  induction header, left using HTTPHeader.parse.induct generalizing right with
  | case1 header left ended =>
      rw [parse_end ended, parse_end (SockReader.readLine_none_agree same ended)]
      exact ⟨rfl, same⟩
  | case2 header left rest read =>
      obtain ⟨rest', read', same'⟩ := SockReader.readLine_agree same read
      rw [parse_blank read, parse_blank read']
      exact ⟨rfl, same'⟩
  | case3 header left line rest read nonempty ih =>
      obtain ⟨rest', read', same'⟩ := SockReader.readLine_agree same read
      rw [parse_line read nonempty, parse_line read' nonempty]
      exact ih same'

namespace HTTPRequest

theorem parseRest_agree (req : HTTPRequest) (same : left.contents = right.contents) :
    Agree (req.parseRest left) (req.parseRest right) := by
  obtain ⟨fields, rest⟩ := req.headers.parse_agree same
  obtain ⟨body, done⟩ :=
    SockReader.readExactly_agree rest (req.headers.parse right).1.contentLength
  simp only [Agree, parseRest, fields]
  by_cases framed : (req.headers.parse right).1.has (ascii "Content-Length") = true
  · simp only [framed, if_true, body]
    exact ⟨trivial, done⟩
  · simp only [framed, Bool.false_eq_true, if_false]
    exact ⟨trivial, rest⟩

theorem parseInto_agree (req : HTTPRequest) (same : left.contents = right.contents) :
    Agree (req.parseInto left) (req.parseInto right) := by
  rw [parseInto, parseInto]
  cases read : left.readLine with
  | none =>
      rw [SockReader.readLine_none_agree same read]
      exact ⟨rfl, same⟩
  | some first =>
      obtain ⟨line, rest⟩ := first
      obtain ⟨rest', read', same'⟩ := SockReader.readLine_agree same read
      rw [read']
      by_cases empty : line = []
      · simp only [empty, if_true]
        exact ⟨rfl, same'⟩
      · simp only [empty, if_false]
        split
        · exact ⟨rfl, same'⟩
        · rename_i parsed _
          obtain ⟨request, done⟩ := parsed.parseRest_agree same'
          exact ⟨congrArg (Prod.mk true) request, done⟩

end HTTPRequest

namespace HTTPResponse

theorem ingestFirst_agree (resp : HTTPResponse) (same : left.contents = right.contents) :
    Agree (resp.ingestFirst left) (resp.ingestFirst right) := by
  rw [ingestFirst, ingestFirst]
  cases read : left.readLine with
  | none =>
      rw [SockReader.readLine_none_agree same read]
      exact ⟨rfl, same⟩
  | some first =>
      obtain ⟨line, rest⟩ := first
      obtain ⟨rest', read', same'⟩ := SockReader.readLine_agree same read
      rw [read']
      exact ⟨rfl, same'⟩

theorem ingestRest_agree (resp : HTTPResponse) (same : left.contents = right.contents) :
    Agree (resp.ingestRest left) (resp.ingestRest right) := by
  obtain ⟨fields, rest⟩ := resp.headers.parse_agree same
  obtain ⟨body, done⟩ :=
    SockReader.readExactly_agree rest (resp.headers.parse right).1.contentLength
  obtain ⟨tail, ended⟩ := SockReader.readUntilEOF_agree rest
  simp only [Agree, ingestRest, fields]
  by_cases framed : (resp.headers.parse right).1.has (ascii "Content-Length") = true
  · simp only [framed, if_true, body]
    exact ⟨trivial, done⟩
  · simp only [framed, Bool.false_eq_true, if_false, tail]
    exact ⟨trivial, ended⟩

theorem ingestFrom_agree (resp : HTTPResponse) (same : left.contents = right.contents) :
    Agree (resp.ingestFrom left) (resp.ingestFrom right) := by
  obtain ⟨first, rest⟩ := resp.ingestFirst_agree same
  simp only [ingestFrom, first]
  exact (resp.ingestFirst right).1.ingestRest_agree rest

end HTTPResponse

/-- Parsing does not depend on how the stream is cut: requests, responses and any sequence of reads
come out the same, and so does what is left unread. -/
theorem cutting_irrelevant (same : left.contents = right.contents) :
    (∀ req : HTTPRequest, Agree (req.parseInto left) (req.parseInto right)) ∧
      (∀ resp : HTTPResponse, Agree (resp.ingestFrom left) (resp.ingestFrom right)) ∧
      ∀ calls : List SockReader.Call, Agree (left.runCalls calls) (right.runCalls calls) :=
  ⟨fun req => req.parseInto_agree same, fun resp => resp.ingestFrom_agree same,
    SockReader.runCalls_agree same⟩

/-- A request with two surplus bytes behind its body, delivered by one `read`. -/
def wholeDelivery : SockReader where
  buf := []
  incoming := [⟨ascii "GET /a HTTP/1.0\r\nContent-Length: 2\r\n\r\nokGE", by decide +kernel⟩]

/-- The same bytes, cut inside both line ends and inside the body. -/
def cutDelivery : SockReader where
  buf := ascii "GET /a HTTP/1.0\r"
  incoming :=
    [⟨ascii "\nContent-Length: 2\r", by decide +kernel⟩, ⟨ascii "\n\r\no", by decide +kernel⟩,
      ⟨ascii "kG", by decide +kernel⟩, ⟨ascii "E", by decide +kernel⟩]

theorem cutting_irrelevant_request :
    Agree (HTTPRequest.initial.parseInto wholeDelivery)
        (HTTPRequest.initial.parseInto cutDelivery) ∧
      (HTTPRequest.initial.parseInto cutDelivery).1.1 = true ∧
      (HTTPRequest.initial.parseInto cutDelivery).1.2.body = ascii "ok" :=
  ⟨(cutting_irrelevant (show wholeDelivery.contents = cutDelivery.contents by decide +kernel)).1 _,
    by decide +kernel, by decide +kernel⟩

end Proxy
end Syscore
