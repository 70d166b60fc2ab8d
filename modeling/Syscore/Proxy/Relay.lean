import Syscore.Proxy.Http

/-!
# Relaying a response

A response that was ingested from any stream keeps its meaning when it is serialised and ingested
again: what `ingestFrom` produces is stable, and a stable response reads back from its own bytes.
-/

namespace Syscore
namespace Proxy

/-! ## Lines -/

theorem SockReader.readLine_of_firstLine {reader : SockReader} {line rest : Text}
    (first : SockReader.firstLine reader.contents = some (line, rest)) :
    ∃ reader', reader.readLine = some (line, reader') ∧ reader'.contents = rest := by
  rw [← SockReader.readLine_contents] at first
  obtain ⟨⟨line', reader'⟩, read, same⟩ := Option.map_eq_some_iff.mp first
  obtain ⟨rfl, rfl⟩ := Prod.mk.inj same
  exact ⟨reader', read, rfl⟩

/-- A line holds no newline. -/
theorem SockReader.newline_notMem_line {reader rest : SockReader} {line : Text}
    (read : reader.readLine = some (line, rest)) : newline ∉ line := by
  have bytes := SockReader.readLine_contents reader
  rw [read, Option.map_some] at bytes
  by_cases found : newline ∈ reader.contents
  · obtain ⟨before, after, shape, free⟩ := List.eq_append_cons_of_mem found
    rw [shape, SockReader.firstLine_newline free] at bytes
    obtain ⟨rfl, _⟩ := Prod.mk.inj (Option.some.inj bytes)
    intro inside
    rw [SockReader.popCR] at inside
    split at inside
    · exact free (List.dropLast_subset _ inside)
    · exact free inside
  · rw [SockReader.firstLine, if_neg found] at bytes
    by_cases ended : reader.contents = []
    · rw [if_pos ended] at bytes
      cases bytes
    · rw [if_neg ended] at bytes
      obtain ⟨rfl, _⟩ := Prod.mk.inj (Option.some.inj bytes)
      exact found

/-- A line that ends in a carriage return and a newline. -/
theorem SockReader.readLine_crlf {reader : SockReader} {line rest : Text} (free : newline ∉ line)
    (bytes : reader.contents = line ++ [13, newline] ++ rest) :
    ∃ reader', reader.readLine = some (line, reader') ∧ reader'.contents = rest := by
  apply SockReader.readLine_of_firstLine
  have regroup : line ++ [13, newline] ++ rest = (line ++ [13]) ++ newline :: rest := by simp
  have noNewline : newline ∉ line ++ [13] := by
    rw [List.mem_append, not_or]
    exact ⟨free, by decide⟩
  rw [bytes, regroup, SockReader.firstLine_newline noNewline, SockReader.popCR]
  simp

/-! ## Header fields -/

namespace HTTPHeader

/-- A field that is read back from its serialisation. -/
structure StableField (h : Text × Text) : Prop where
  name_colon : colon ∉ h.1
  name_newline : newline ∉ h.1
  value_newline : newline ∉ h.2
  value_head : ∀ char ∈ h.2.head?, (char = 32 || char = 9) = false

/-- A line adds a stable field or nothing. -/
theorem parseLine_stable {header : HTTPHeader} {line : Text} (free : newline ∉ line)
    (stable : ∀ h ∈ header.headers, StableField h) :
    ∀ h ∈ (header.parseLine line).headers, StableField h := by
  rw [parseLine]
  split
  · rename_i found
    obtain ⟨name, value, rfl, noColon⟩ := List.eq_append_cons_of_mem found
    obtain ⟨taken, dropped⟩ := cut_at noColon value
    intro h inside
    rw [taken, dropped] at inside
    rcases List.mem_append.mp inside with before | here
    · exact stable h before
    · rw [List.mem_singleton.mp here]
      simp only [List.mem_append, List.mem_cons, not_or] at free
      refine ⟨noColon, free.1, fun inside => free.2.2 ?_, fun char head => ?_⟩
      · exact (List.dropWhile_sublist _).subset inside
      · have stops := List.head?_dropWhile_not (fun char => char = 32 || char = 9) value
        rw [show (colon :: value).drop 1 = value from rfl] at head
        rw [Option.mem_def.mp head] at stops
        simpa using stops
  · exact stable

theorem parse_end {header : HTTPHeader} {reader : SockReader} (ended : reader.readLine = none) :
    header.parse reader = (header, reader) := by
  rw [parse]
  split
  · rfl
  · rename_i read
    rw [ended] at read
    cases read

theorem parse_blank {header : HTTPHeader} {reader rest : SockReader}
    (blank : reader.readLine = some ([], rest)) : header.parse reader = (header, rest) := by
  rw [parse]
  split
  · rename_i ended
    rw [blank] at ended
    cases ended
  · rename_i read
    rw [blank] at read
    obtain ⟨rfl, rfl⟩ := Prod.mk.inj (Option.some.inj read)
    rfl

theorem parse_line {header : HTTPHeader} {reader rest : SockReader} {line : Text}
    (read : reader.readLine = some (line, rest)) (nonempty : line ≠ []) :
    header.parse reader = (header.parseLine line).parse rest := by
  rw [parse]
  split
  · rename_i ended
    rw [read] at ended
    cases ended
  · rename_i again
    rw [read] at again
    obtain ⟨rfl, rfl⟩ := Prod.mk.inj (Option.some.inj again)
    rw [if_neg nonempty]

/-- `parse` keeps the fields stable. -/
theorem parse_stable (header : HTTPHeader) (reader : SockReader)
    (stable : ∀ h ∈ header.headers, StableField h) :
    ∀ h ∈ (header.parse reader).1.headers, StableField h := by
  induction header, reader using HTTPHeader.parse.induct with
  | case1 header reader ended =>
      rw [parse_end ended]
      exact stable
  | case2 header reader rest read =>
      rw [parse_blank read]
      exact stable
  | case3 header reader line rest read nonempty ih =>
      rw [parse_line read nonempty]
      exact ih (parseLine_stable (SockReader.newline_notMem_line read) stable)

/-- The line of a stable field adds just this field. -/
theorem parseLine_field {h : Text × Text} (stable : StableField h) (header : HTTPHeader) :
    header.parseLine (h.1 ++ ascii ": " ++ h.2) = header.add h.1 h.2 := by
  have line : h.1 ++ ascii ": " ++ h.2 = h.1 ++ colon :: 32 :: h.2 := by
    rw [List.append_assoc]
    rfl
  obtain ⟨taken, dropped⟩ := cut_at stable.name_colon (32 :: h.2)
  have trimmed : (32 :: h.2).dropWhile (fun char => char = 32 || char = 9) = h.2 := by
    cases value : h.2 with
    | nil => rfl
    | cons first others =>
        have kept := stable.value_head first (by rw [value]; rfl)
        rw [List.dropWhile_cons_of_pos rfl, List.dropWhile_cons_of_neg (by simp [kept])]
  rw [line, parseLine, if_pos (by simp), taken, dropped]
  exact congrArg (header.add h.1) trimmed

/-- A header block reads back. -/
theorem parse_serialize {fields : List (Text × Text)} (stable : ∀ h ∈ fields, StableField h)
    (header : HTTPHeader) {reader : SockReader} {body : Text}
    (bytes : reader.contents = serialize ⟨fields⟩ ++ [13, newline] ++ body) :
    ∃ reader', header.parse reader = (⟨header.headers ++ fields⟩, reader') ∧
      reader'.contents = body := by
  induction fields generalizing header reader with
  | nil =>
      obtain ⟨reader', read, rest⟩ := SockReader.readLine_crlf List.not_mem_nil bytes
      rw [parse_blank read, List.append_nil]
      exact ⟨reader', rfl, rest⟩
  | cons h fields ih =>
      have own := stable h List.mem_cons_self
      have free : newline ∉ h.1 ++ ascii ": " ++ h.2 := by
        rw [List.mem_append, List.mem_append, not_or, not_or]
        exact ⟨⟨own.name_newline, by decide⟩, own.value_newline⟩
      have line : reader.contents = h.1 ++ ascii ": " ++ h.2 ++ [13, newline] ++
          (serialize ⟨fields⟩ ++ [13, newline] ++ body) := by
        rw [bytes, serialize, List.flatMap_cons]
        simp [serialize]
      obtain ⟨next, read, rest⟩ := SockReader.readLine_crlf free line
      obtain ⟨reader', parsed, done⟩ :=
        ih (fun h inside => stable h (List.mem_cons_of_mem _ inside)) (header.add h.1 h.2) rest
      rw [parse_line read (by simp [ascii]), parseLine_field own, parsed]
      refine ⟨reader', ?_, done⟩
      rw [add, List.append_assoc]
      rfl

end HTTPHeader

/-! ## Responses -/

namespace HTTPResponse

/-- A response that is read back from its serialisation. -/
structure Relayable (resp : HTTPResponse) : Prop where
  protocol_nonempty : resp.protocol ≠ []
  protocol_noSpace : ∀ char ∈ resp.protocol, isspace char = false
  code_range : -2 ^ 31 ≤ resp.code ∧ resp.code ≤ 2 ^ 31 - 1
  reason_newline : newline ∉ resp.reason
  fields_stable : ∀ h ∈ resp.headers.headers, HTTPHeader.StableField h
  body_framed : resp.headers.has (ascii "Content-Length") = true →
    resp.body.length ≤ resp.headers.contentLength

/-- What the status line leaves for the rest of the message to be relayable. -/
structure HeadRelayable (resp : HTTPResponse) : Prop where
  protocol_nonempty : resp.protocol ≠ []
  protocol_noSpace : ∀ char ∈ resp.protocol, isspace char = false
  code_range : -2 ^ 31 ≤ resp.code ∧ resp.code ≤ 2 ^ 31 - 1
  reason_newline : newline ∉ resp.reason
  fields_empty : resp.headers.headers = []
  body_empty : resp.body = []

theorem headRelayable_initial : HeadRelayable initial where
  protocol_nonempty := by decide
  protocol_noSpace := by decide +kernel
  code_range := by decide
  reason_newline := List.not_mem_nil
  fields_empty := rfl
  body_empty := rfl

theorem headRelayable_ingestStatus (line : Text) : HeadRelayable (initial.ingestStatus line) := by
  have word := (IStream.ofText line).extractString_spec headRelayable_initial.protocol_nonempty
    headRelayable_initial.protocol_noSpace
  have inRange := ((IStream.ofText line).extractString initial.protocol).2.extractInt_spec
    headRelayable_initial.code_range
  have free := (((IStream.ofText line).extractString initial.protocol).2.extractInt
    initial.code).2.getline_spec headRelayable_initial.reason_newline
  refine ⟨word.1, word.2, inRange, ?_, rfl, rfl⟩
  rw [ingestStatus]
  simp only
  split
  · exact fun inside => free (List.mem_of_mem_drop inside)
  · exact free

theorem headRelayable_ingestFirst (reader : SockReader) :
    HeadRelayable (initial.ingestFirst reader).1 := by
  rw [ingestFirst]
  split
  · exact headRelayable_ingestStatus _
  · exact headRelayable_initial

theorem relayable_ingestRest {resp : HTTPResponse} (head : HeadRelayable resp)
    (reader : SockReader) : Relayable (resp.ingestRest reader).1 := by
  have stable := HTTPHeader.parse_stable resp.headers reader
    (by rw [head.fields_empty]; exact List.forall_mem_nil _)
  refine ⟨head.protocol_nonempty, head.protocol_noSpace, head.code_range, head.reason_newline,
    stable, fun framed => ?_⟩
  simp only [ingestRest] at framed ⊢
  rw [if_pos framed, head.body_empty, List.nil_append, (SockReader.readExactly_contents _ _).1]
  exact List.length_take_le _ _

/-- Every response ingested from a stream is relayable. -/
theorem relayable_ingestFrom (reader : SockReader) : Relayable (initial.ingestFrom reader).1 :=
  relayable_ingestRest (headRelayable_ingestFirst reader) _

/-- The status line of a relayable response reads back. -/
theorem ingestStatus_serialize {resp : HTTPResponse} (relayable : Relayable resp)
    (old : HTTPResponse) :
    old.ingestStatus (resp.protocol ++ [32] ++ decimalInt resp.code ++ [32] ++ resp.reason) =
      { old with protocol := resp.protocol, code := resp.code, reason := resp.reason } := by
  have line : resp.protocol ++ [32] ++ decimalInt resp.code ++ [32] ++ resp.reason =
      resp.protocol ++ 32 :: (decimalInt resp.code ++ 32 :: resp.reason) := by simp
  have blank : newline ∉ 32 :: resp.reason := by
    rw [List.mem_cons, not_or]
    exact ⟨by decide, relayable.reason_newline⟩
  rw [line, ingestStatus]
  simp only [IStream.extractString_word relayable.protocol_nonempty relayable.protocol_noSpace,
    IStream.extractInt_decimalInt relayable.code_range, IStream.getline_ofText blank]
  simp

/-- Header fields and body of a relayable response read back. -/
theorem ingestRest_serialize {resp head : HTTPResponse} (relayable : Relayable resp)
    (fields_empty : head.headers.headers = []) (body_empty : head.body = []) {reader : SockReader}
    (bytes : reader.contents = resp.headers.serialize ++ [13, newline] ++ resp.body) :
    (head.ingestRest reader).1 = { head with headers := resp.headers, body := resp.body } := by
  obtain ⟨rest, parsed, body⟩ :=
    HTTPHeader.parse_serialize relayable.fields_stable head.headers bytes
  rw [fields_empty, List.nil_append] at parsed
  have parsed : head.headers.parse reader = (resp.headers, rest) := parsed
  rw [ingestRest, parsed]
  simp only [body_empty, List.nil_append]
  by_cases framed : resp.headers.has (ascii "Content-Length") = true
  · rw [if_pos framed, (SockReader.readExactly_contents _ _).1, body,
      List.take_of_length_le (relayable.body_framed framed)]
  · rw [if_neg framed, SockReader.readUntilEOF_contents, body]

/-- A relayable response reads back from its own bytes. -/
theorem ingestFrom_serialize {resp : HTTPResponse} (relayable : Relayable resp)
    {reader : SockReader} (bytes : reader.contents = resp.serialize) :
    (initial.ingestFrom reader).1 = resp := by
  have noNewline : newline ∉ resp.protocol := fun inside =>
    absurd (relayable.protocol_noSpace newline inside) (by decide)
  have free : newline ∉
      resp.protocol ++ [32] ++ decimalInt resp.code ++ [32] ++ resp.reason := by
    simp only [List.mem_append, not_or]
    exact ⟨⟨⟨⟨noNewline, by decide⟩, newline_notMem_decimalInt resp.code⟩, by decide⟩,
      relayable.reason_newline⟩
  have line : reader.contents =
      (resp.protocol ++ [32] ++ decimalInt resp.code ++ [32] ++ resp.reason) ++ [13, newline] ++
        (resp.headers.serialize ++ [13, newline] ++ resp.body) := by
    rw [bytes, serialize]
    simp only [List.append_assoc]
  obtain ⟨next, read, rest⟩ := SockReader.readLine_crlf free line
  rw [ingestFrom, ingestFirst, read]
  simp only [ingestStatus_serialize relayable]
  rw [ingestRest_serialize relayable rfl rfl rest]

/-- Relaying is faithful: to ingest, serialise and ingest again is to ingest. -/
theorem relay_faithful (origin relayed : SockReader)
    (bytes : relayed.contents = (initial.ingestFrom origin).1.serialize) :
    (initial.ingestFrom relayed).1 = (initial.ingestFrom origin).1 :=
  ingestFrom_serialize (relayable_ingestFrom origin) bytes

/-- A stream with bare newlines, a missing reason, a stray carriage return and surplus bytes. -/
def looseStream : SockReader where
  buf := []
  incoming :=
    [⟨ascii "HTTP/1.1 200\nA:\t b\r\r\nno colon\ncontent-", by decide +kernel⟩,
      ⟨ascii "length: 3\n\nbody", by decide +kernel⟩]

theorem relay_faithful_loose :
    (initial.ingestFrom ⟨(initial.ingestFrom looseStream).1.serialize, []⟩).1 =
        (initial.ingestFrom looseStream).1 ∧
      (initial.ingestFrom looseStream).1.body = ascii "bod" :=
  ⟨relay_faithful looseStream _ (List.append_nil _), by decide +kernel⟩

end HTTPResponse

end Proxy
end Syscore
