import Mathlib.Data.List.DropRight
import Syscore.Proxy.Fields
import Syscore.Proxy.HeaderBlock
import Syscore.Proxy.Storing

/-!
# Incomplete responses in the cache

`readLine` and `readExactly` hand out what there is when the origin closes early, and nothing above
them looks again. What is stored is complete just when the origin sent the blank line behind the
header fields and, behind it, as many bytes as are asked for.
-/

namespace Syscore
namespace Proxy

/-! ## Lengths -/

/-- A field value without the white space around it. -/
def trim (value : Text) : Text := (value.dropWhile isspace).rdropWhile isspace

/-- The lengths that the `Content-Length` fields announce in decimal. -/
def HTTPHeader.announced (headers : HTTPHeader) : List ℕ :=
  headers.headers.filterMap fun h =>
    if HTTPHeader.SameName h.1 (ascii "Content-Length") ∧ isNumber (trim h.2) then
      some (digitsValue (trim h.2))
    else
      none

/-- An announced length is that of a `Content-Length` field. -/
theorem HTTPHeader.mem_announced_iff {headers : HTTPHeader} {n : ℕ} :
    n ∈ headers.announced ↔ ∃ h ∈ headers.headers,
      (HTTPHeader.SameName h.1 (ascii "Content-Length") ∧ isNumber (trim h.2)) ∧
        digitsValue (trim h.2) = n := by
  rw [announced, List.mem_filterMap]
  refine exists_congr fun h => and_congr_right fun _ => ?_
  by_cases own : HTTPHeader.SameName h.1 (ascii "Content-Length") ∧ isNumber (trim h.2) = true
  · simp [own]
  · simp only [own, if_false, false_and]
    exact iff_of_false (by simp) not_false

/-- `strtoul` reads a number with white space around it. -/
theorem strtoul_of_trim {value : Text} (number : isNumber (trim value) = true)
    (small : digitsValue (trim value) < 2 ^ 64) : strtoul value = digitsValue (trim value) := by
  have shape : (value.dropWhile isspace).rdropWhile isspace ++
      (value.dropWhile isspace).rtakeWhile isspace = value.dropWhile isspace :=
    List.rdropWhile_append_rtakeWhile
  have stops : ∀ char ∈ ((value.dropWhile isspace).rtakeWhile isspace).head?,
      isdigit char = false := by
    intro char head
    have space := List.mem_rtakeWhile_imp (List.mem_of_mem_head? head)
    by_contra digit
    rw [Bool.not_eq_false] at digit
    rw [isspace_digit digit] at space
    cases space
  have read := strtoul_digits number stops small
  rw [trim, shape] at read
  have again : (value.dropWhile isspace).dropWhile isspace = value.dropWhile isspace :=
    List.dropWhile_idempotent ..
  rw [strtoul, again, ← strtoul] at read
  exact read

/-! ## Complete responses -/

/-- Nothing more that the origin might have sent belongs to the response: no field, and nothing of a
body that a length frames. -/
structure Whole (incoming : List Chunk) : Prop where
  headers : ∀ more, (ingested (incoming ++ more)).headers = (ingested incoming).headers
  body : (ingested incoming).headers.has (ascii "Content-Length") = true → ∀ more,
    (ingested (incoming ++ more)).body = (ingested incoming).body

/-- The response is not cut short, and its body is as long as its header announces. -/
structure Complete (incoming : List Chunk) : Prop where
  whole : Whole incoming
  announced : ∀ n ∈ (ingested incoming).headers.announced, (ingested incoming).body.length = n

/-- The origin sends the blank line behind the header fields and, where there is a `Content-Length`
field, as many bytes behind it as `strtoul` reads from the first one, which is also what every other
one announces. -/
def Delivered (incoming : List Chunk) : Prop :=
  BlankLine (sent incoming) ∧
    ((headerBlock incoming).1.has (ascii "Content-Length") = true →
      (headerBlock incoming).1.contentLength ≤ (headerBlock incoming).2.length) ∧
    ∀ n ∈ (headerBlock incoming).1.announced, n = (headerBlock incoming).1.contentLength

instance (incoming : List Chunk) : Decidable (Delivered incoming) :=
  inferInstanceAs (Decidable (BlankLine (sent incoming) ∧
    ((headerBlock incoming).1.has (ascii "Content-Length") = true →
      (headerBlock incoming).1.contentLength ≤ (headerBlock incoming).2.length) ∧
    ∀ n ∈ (headerBlock incoming).1.announced, n = (headerBlock incoming).1.contentLength))

/-- The header of a response is that of its header block. -/
theorem ingested_headers (incoming : List Chunk) :
    (ingested incoming).headers = (headerBlock incoming).1 := by
  simp only [headerBlock, ingested, HTTPResponse.ingestFrom, HTTPResponse.ingestRest]

/-- The body of a response with a `Content-Length` field. -/
theorem ingested_body {incoming : List Chunk}
    (framed : (headerBlock incoming).1.has (ascii "Content-Length") = true) :
    (ingested incoming).body =
      (headerBlock incoming).2.take (headerBlock incoming).1.contentLength := by
  have empty := (HTTPResponse.headRelayable_ingestFirst ⟨[], incoming⟩).body_empty
  simp only [headerBlock] at framed ⊢
  simp only [ingested, HTTPResponse.ingestFrom, HTTPResponse.ingestRest]
  rw [if_pos framed, empty, List.nil_append]
  exact (SockReader.readExactly_contents _ _).1

/-- A body that is asked for is whole just when there is as much of it. -/
theorem body_whole_iff {incoming : List Chunk} (blank : BlankLine (sent incoming))
    (framed : (headerBlock incoming).1.has (ascii "Content-Length") = true) :
    (∀ more, (ingested (incoming ++ more)).body = (ingested incoming).body) ↔
      (headerBlock incoming).1.contentLength ≤ (headerBlock incoming).2.length := by
  have longer (more : List Chunk) : (ingested (incoming ++ more)).body =
      ((headerBlock incoming).2 ++ sent more).take (headerBlock incoming).1.contentLength := by
    have same := headerBlock_append blank more
    rw [ingested_body (by rw [same]; exact framed), same]
  constructor
  · intro same
    have one := same [⟨[0], by decide⟩]
    rw [longer, ingested_body framed] at one
    have lengths := congrArg List.length one
    simp only [List.length_take, List.length_append] at lengths
    simp only [sent, List.map_cons, List.map_nil, List.flatten_cons, List.flatten_nil,
      List.append_nil, List.length_singleton] at lengths
    omega
  · intro enough more
    rw [longer, ingested_body framed, List.take_append_of_le_length enough]

/-- A response is whole just when its header block is and the body that is asked for is there. -/
theorem whole_iff (incoming : List Chunk) :
    Whole incoming ↔ BlankLine (sent incoming) ∧
      ((headerBlock incoming).1.has (ascii "Content-Length") = true →
        (headerBlock incoming).1.contentLength ≤ (headerBlock incoming).2.length) := by
  constructor
  · rintro ⟨headers, body⟩
    have blank : BlankLine (sent incoming) := by
      by_contra open'
      obtain ⟨more, other⟩ := exists_more_fields open'
      have same := headers more
      rw [ingested_headers, ingested_headers] at same
      exact other same
    rw [ingested_headers] at body
    exact ⟨blank, fun framed => (body_whole_iff blank framed).mp (body framed)⟩
  · rintro ⟨blank, enough⟩
    refine ⟨fun more => ?_, fun framed => ?_⟩
    · rw [ingested_headers, ingested_headers, headerBlock_append blank]
    · rw [ingested_headers] at framed
      exact (body_whole_iff blank framed).mpr (enough framed)

/-- A response is complete just when it was delivered. -/
theorem complete_iff_delivered (incoming : List Chunk) :
    Complete incoming ↔ Delivered incoming := by
  have lengths (enough : (headerBlock incoming).1.has (ascii "Content-Length") = true →
      (headerBlock incoming).1.contentLength ≤ (headerBlock incoming).2.length) (n : ℕ)
      (announced : n ∈ (headerBlock incoming).1.announced) :
      (ingested incoming).body.length = n ↔ n = (headerBlock incoming).1.contentLength := by
    obtain ⟨h, inside, own, _⟩ := HTTPHeader.mem_announced_iff.mp announced
    have framed : (headerBlock incoming).1.has (ascii "Content-Length") = true :=
      HTTPHeader.has_iff.mpr ⟨h, inside, own.1⟩
    rw [ingested_body framed, List.length_take, Nat.min_eq_left (enough framed)]
    exact eq_comm
  constructor
  · rintro ⟨whole, announced⟩
    obtain ⟨blank, enough⟩ := (whole_iff incoming).mp whole
    rw [ingested_headers] at announced
    exact ⟨blank, enough, fun n inside => (lengths enough n inside).mp (announced n inside)⟩
  · rintro ⟨blank, enough, announced⟩
    refine ⟨(whole_iff incoming).mpr ⟨blank, enough⟩, fun n inside => ?_⟩
    rw [ingested_headers] at inside
    exact (lengths enough n inside).mpr (announced n inside)

/-- Where all fields announce one length in the range of `size_t`, the origin has to send the blank
line and that much. -/
theorem delivered_iff_of_single {incoming : List Chunk} {n : ℕ} (small : n < 2 ^ 64)
    (present : (headerBlock incoming).1.has (ascii "Content-Length") = true)
    (single : ∀ h ∈ (headerBlock incoming).1.headers,
      HTTPHeader.SameName h.1 (ascii "Content-Length") →
        isNumber (trim h.2) = true ∧ digitsValue (trim h.2) = n) :
    Delivered incoming ↔ BlankLine (sent incoming) ∧ n ≤ (headerBlock incoming).2.length := by
  obtain ⟨value, first⟩ := HTTPHeader.exists_firstField present
  obtain ⟨h, inside, own, rfl⟩ := first.mem
  obtain ⟨number, value⟩ := single h inside own
  have length : (headerBlock incoming).1.contentLength = n := by
    rw [HTTPHeader.contentLength, first.get.2, strtoul_of_trim number (value ▸ small), value]
  rw [Delivered, length]
  refine and_congr_right fun _ => ⟨fun delivered => delivered.1 present, fun enough => ?_⟩
  refine ⟨fun _ => enough, fun m announced => ?_⟩
  obtain ⟨other, there, also, rfl⟩ := HTTPHeader.mem_announced_iff.mp announced
  exact (single other there also.1).2

/-- A stored string is a complete response. -/
def CompleteSource (serialized : Text) : Prop :=
  ∃ incoming, Complete incoming ∧ (ingested incoming).serialize = serialized

/-- A response is not stored incomplete just when it may not be stored or was delivered, and in a
run in which every origin delivers what may be stored, everything stored and every hit is
complete. -/
theorem stored_complete_iff (req : HTTPRequest) (incoming : List Chunk) :
    ((Stored req (ingested incoming) → Complete incoming) ↔
        (Stored req (ingested incoming) → Delivered incoming)) ∧
      ∀ {blocks : Text → Bool} {state : State},
        (machine blocks).Reachable (storesOnly fun _ incoming => Delivered incoming) state →
          (∀ {id : ℕ} {key serialized : Text} {ttl now : ℤ},
              .store id key serialized ttl now ∈ state.log → CompleteSource serialized) ∧
            ∀ {id : ℕ} {key cached : Text} {now : ℤ},
              .lookup id key now (some cached) ∈ state.log → CompleteSource cached := by
  have complete {serialized : Text} {ttl : ℤ}
      (source : GoodSource (fun _ incoming => Delivered incoming) serialized ttl) :
      CompleteSource serialized := by
    obtain ⟨_, incoming, delivered, same, _⟩ := source
    exact ⟨incoming, (complete_iff_delivered incoming).mpr delivered, same⟩
  refine ⟨by rw [complete_iff_delivered], fun reach => ⟨fun stored => ?_, fun hit => ?_⟩⟩
  · exact complete (goodSource_of_store reach stored)
  · obtain ⟨ttl, source⟩ := goodSource_of_hit reach hit
    exact complete source

/-- A response that announces five bytes and is cut short after two, and one that is whole. -/
def truncatedResponse : List Chunk :=
  [⟨ascii "HTTP/1.0 200 OK\r\nCache-Control: max-age=60\r\nContent-Length: 5\r\n\r\nhi",
    by decide +kernel⟩]

@[inherit_doc truncatedResponse]
def wholeResponse : List Chunk :=
  [⟨ascii "HTTP/1.0 200 OK\r\nCache-Control: max-age=60\r\nContent-Length: 2\r\n\r\nhi",
    by decide +kernel⟩]

/-- A client gets a response, and a second client asks for the same page. -/
def getTwice (response : List Chunk) : List Action :=
  [.accept (ascii "1.2.3.4") cacheableGet, .run 0, .run 0, .connect 0 .sent, .receive 0 response,
    .run 0, .run 0, .accept (ascii "1.2.3.5") cacheableGet, .run 1, .run 1, .run 1]

/-- The second client is served the truncated response. -/
theorem truncated_is_cached :
    ¬ Complete truncatedResponse ∧
      ((machine fun _ => false).exec .free ⟨0, ∅, [], []⟩ (getTwice truncatedResponse)).map
          (fun state => state.log.take 2) =
        some [.write 1 (ingested truncatedResponse).serialize,
          .lookup 1 (ascii "GET h:80/") 0 (some (ingested truncatedResponse).serialize)] := by
  constructor
  · rw [complete_iff_delivered]
    decide +kernel
  · decide +kernel

/-- The proxy after both clients have the whole response. -/
def afterWholeResponse : State :=
  ((machine fun _ => false).exec (storesOnly fun _ incoming => Delivered incoming)
    ⟨0, ∅, [], []⟩ (getTwice wholeResponse)).get (by decide +kernel)

theorem stored_complete_iff_whole :
    CompleteSource
      (ascii "HTTP/1.0 200 OK\r\nCache-Control: max-age=60\r\nContent-Length: 2\r\n\r\nhi") := by
  have start : (machine fun _ => false).start ⟨0, ∅, [], []⟩ := ⟨rfl, rfl, rfl⟩
  have reach : (machine fun _ => false).Reachable (storesOnly fun _ incoming => Delivered incoming)
      afterWholeResponse := .of_exec start (getTwice wholeResponse) (by decide +kernel)
  have hit : .lookup 1 (ascii "GET h:80/") 0 (some (ascii
      "HTTP/1.0 200 OK\r\nCache-Control: max-age=60\r\nContent-Length: 2\r\n\r\nhi")) ∈
        afterWholeResponse.log := by decide +kernel
  exact ((stored_complete_iff HTTPRequest.initial wholeResponse).2 reach).2 hit

end Proxy
end Syscore
