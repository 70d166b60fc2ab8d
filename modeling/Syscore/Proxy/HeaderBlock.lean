import Syscore.Proxy.Relay

/-!
# Where a header block ends

The blank line behind the header fields: once it is there, nothing that the other side sends can add
a field or change one; before, there is something that does.
-/

namespace Syscore
namespace Proxy

/-- Somewhere in these bytes a line end is followed by an empty line. -/
def BlankLine (stream : Text) : Prop :=
  [newline, newline] <:+: stream ∨ [newline, 13, newline] <:+: stream

instance (stream : Text) : Decidable (BlankLine stream) :=
  inferInstanceAs (Decidable ([newline, newline] <:+: stream ∨ [newline, 13, newline] <:+: stream))

/-! ## Blank lines and lines -/

section Lines

variable {line rest stream : Text}

theorem blankLine_newline_cons :
    BlankLine (newline :: stream) ↔
      ([newline] <+: stream ∨ [13, newline] <+: stream) ∨ BlankLine stream := by
  simp only [BlankLine, List.infix_cons_iff, List.cons_prefix_cons, true_and]
  constructor
  · rintro ((here | later) | (here | later))
    · exact .inl (.inl here)
    · exact .inr (.inl later)
    · exact .inl (.inr here)
    · exact .inr (.inr later)
  · rintro ((here | here) | (later | later))
    · exact .inl (.inl here)
    · exact .inr (.inl here)
    · exact .inl (.inr later)
    · exact .inr (.inr later)

theorem blankLine_cons {char : UInt8} (other : char ≠ newline) :
    BlankLine (char :: stream) ↔ BlankLine stream := by
  simp only [BlankLine, List.infix_cons_iff, List.cons_prefix_cons, other.symm, false_and, false_or]

/-- A line has no part in the blank lines behind it. -/
theorem blankLine_append (free : newline ∉ line) (rest : Text) :
    BlankLine (line ++ rest) ↔ BlankLine rest := by
  induction line with
  | nil => rfl
  | cons char line ih =>
      rw [List.mem_cons, not_or] at free
      rw [List.cons_append, blankLine_cons (Ne.symm free.1), ih free.2]

theorem not_blankLine_of_free (free : newline ∉ line) : ¬ BlankLine line := by
  have none : ¬ BlankLine [] := by decide
  rw [← List.append_nil line, blankLine_append free]
  exact none

/-- One line that does not end is no blank line. -/
theorem not_blankLine_line (free : newline ∉ line) : ¬ BlankLine (newline :: line) := by
  rw [blankLine_newline_cons]
  rintro ((⟨_, rfl⟩ | ⟨_, rfl⟩) | later)
  · exact free List.mem_cons_self
  · exact free (List.mem_cons_of_mem _ List.mem_cons_self)
  · exact not_blankLine_of_free free later

/-- A line is blank, or a blank line comes later. -/
theorem blankLine_line_iff (free : newline ∉ line) (rest : Text) :
    BlankLine (newline :: (line ++ newline :: rest)) ↔
      SockReader.popCR line = [] ∨ BlankLine (newline :: rest) := by
  rw [blankLine_newline_cons, blankLine_append free]
  refine or_congr_left ?_
  rcases line with _ | ⟨first, _ | ⟨second, line⟩⟩
  · exact iff_of_true (.inl (by simp)) rfl
  · rw [List.mem_singleton] at free
    by_cases return' : first = 13
    · subst return'
      exact iff_of_true (.inr (by simp)) rfl
    · simp [SockReader.popCR, return', Ne.symm return', free]
  · have kept : SockReader.popCR (first :: second :: line) ≠ [] := by
      rw [SockReader.popCR]
      split
      · simp [List.dropLast]
      · exact List.cons_ne_nil _ _
    simp only [List.mem_cons, not_or] at free
    refine iff_of_false ?_ kept
    simp [free.1, free.2.1]

end Lines

namespace SockReader

/-- A line and its end. -/
theorem readLine_of_line {reader : SockReader} {line rest : Text} (free : newline ∉ line)
    (bytes : reader.contents = line ++ newline :: rest) :
    ∃ reader', reader.readLine = some (popCR line, reader') ∧ reader'.contents = rest := by
  apply readLine_of_firstLine
  rw [bytes, firstLine_newline free]

/-- The last line, which has no end. -/
theorem readLine_of_last {reader : SockReader} (free : newline ∉ reader.contents)
    (more : reader.contents ≠ []) :
    ∃ reader', reader.readLine = some (reader.contents, reader') ∧ reader'.contents = [] := by
  apply readLine_of_firstLine
  rw [firstLine, if_neg free, if_neg more]

/-- A stream is over, begins with a line and its end, or is a line without one. -/
theorem contents_cases (reader : SockReader) :
    reader.contents = [] ∨
      (∃ line rest, newline ∉ line ∧ reader.contents = line ++ newline :: rest) ∨
        newline ∉ reader.contents ∧ reader.contents ≠ [] := by
  by_cases found : newline ∈ reader.contents
  · obtain ⟨line, rest, shape, free⟩ := List.eq_append_cons_of_mem found
    exact .inr (.inl ⟨line, rest, free, shape⟩)
  · by_cases ended : reader.contents = []
    · exact .inl ended
    · exact .inr (.inr ⟨found, ended⟩)

theorem readLine_of_empty {reader : SockReader} (ended : reader.contents = []) :
    reader.readLine = none := by
  rw [← Option.map_eq_none_iff, readLine_contents, ended]
  rfl

end SockReader

namespace HTTPHeader

variable {reader longer : SockReader} {more : Text}

/-- Once the blank line is there, what comes behind it is left unread. -/
theorem parse_append (header : HTTPHeader) (blank : BlankLine (newline :: reader.contents))
    (bytes : longer.contents = reader.contents ++ more) :
    (header.parse longer).1 = (header.parse reader).1 ∧
      (header.parse longer).2.contents = (header.parse reader).2.contents ++ more := by
  induction length : reader.contents.length using Nat.strong_induction_on
    generalizing header reader longer with
  | _ length ih =>
      rcases reader.contents_cases with ended | ⟨line, rest, free, shape⟩ | ⟨free, -⟩
      · rw [ended] at blank
        exact absurd blank (by decide)
      · obtain ⟨next, read, left⟩ := SockReader.readLine_of_line free shape
        have further : longer.contents = line ++ newline :: (rest ++ more) := by
          rw [bytes, shape, List.append_assoc, List.cons_append]
        obtain ⟨next', read', left'⟩ := SockReader.readLine_of_line free further
        by_cases empty : SockReader.popCR line = []
        · rw [empty] at read read'
          rw [parse_blank read, parse_blank read', left, left']
          exact ⟨rfl, rfl⟩
        · rw [parse_line read empty, parse_line read' empty]
          rw [shape, blankLine_line_iff free, or_iff_right empty] at blank
          refine ih next.contents.length ?_ (header.parseLine _) (left ▸ blank) ?_ rfl
          · rw [← length, shape, left, List.length_append, List.length_cons]
            omega
          · rw [left, left']
      · exact absurd blank (not_blankLine_line free)

theorem length_parseLine (header : HTTPHeader) (line : Text) :
    (header.parseLine line).headers.length =
      header.headers.length + if colon ∈ line then 1 else 0 := by
  rw [parseLine]
  split
  · simp [add]
  · rfl

/-- The rest of a line and one more field. -/
def oneMoreField : Text := ascii "x\nX:y"

theorem parse_last (header : HTTPHeader) {line : Text} (free : newline ∉ line)
    (bytes : longer.contents = line ++ oneMoreField) :
    (header.parse longer).1.headers.length = (header.parseLine line).headers.length + 1 := by
  have whole : newline ∉ line ++ [120] := by
    rw [List.mem_append, not_or]
    exact ⟨free, by decide⟩
  have kept : SockReader.popCR (line ++ [120]) = line ++ [120] := by
    simp [SockReader.popCR]
  have further : longer.contents = (line ++ [120]) ++ newline :: ascii "X:y" := by
    rw [bytes, List.append_assoc]
    rfl
  obtain ⟨next, read, left⟩ := SockReader.readLine_of_line whole further
  have last : newline ∉ next.contents := by
    rw [left]
    decide
  obtain ⟨drained, read', ended⟩ := SockReader.readLine_of_last last (by rw [left]; decide)
  have same : colon ∈ line ++ [120] ↔ colon ∈ line := by
    rw [List.mem_append, or_iff_left (by decide)]
  rw [kept] at read
  rw [left] at read'
  rw [parse_line read (by simp), parse_line read' (by decide),
    parse_end (SockReader.readLine_of_empty ended), length_parseLine, length_parseLine,
    length_parseLine, if_pos (show colon ∈ ascii "X:y" by decide)]
  simp only [same]

/-- Before the blank line a field can still come. -/
theorem length_parse_oneMoreField (header : HTTPHeader)
    (open' : ¬ BlankLine (newline :: reader.contents))
    (bytes : longer.contents = reader.contents ++ oneMoreField) :
    (header.parse longer).1.headers.length = (header.parse reader).1.headers.length + 1 := by
  induction length : reader.contents.length using Nat.strong_induction_on
    generalizing header reader longer with
  | _ length ih =>
      rcases reader.contents_cases with ended | ⟨line, rest, free, shape⟩ | ⟨free, some_byte⟩
      · rw [ended] at bytes
        rw [parse_end (SockReader.readLine_of_empty ended),
          header.parse_last List.not_mem_nil bytes]
        rfl
      · rw [shape, blankLine_line_iff free, not_or] at open'
        obtain ⟨next, read, left⟩ := SockReader.readLine_of_line free shape
        have further : longer.contents = line ++ newline :: (rest ++ oneMoreField) := by
          rw [bytes, shape, List.append_assoc, List.cons_append]
        obtain ⟨next', read', left'⟩ := SockReader.readLine_of_line free further
        rw [parse_line read open'.1, parse_line read' open'.1]
        refine ih next.contents.length ?_ (header.parseLine _) (left ▸ open'.2) ?_ rfl
        · rw [← length, shape, left, List.length_append, List.length_cons]
          omega
        · rw [left, left']
      · obtain ⟨next, read, ended⟩ := SockReader.readLine_of_last free some_byte
        rw [parse_line read some_byte, parse_end (SockReader.readLine_of_empty ended)]
        exact header.parse_last free bytes

end HTTPHeader

/-! ## The header block of a response -/

/-- The bytes that an origin sends. -/
def sent (incoming : List Chunk) : Text := (incoming.map Subtype.val).flatten

theorem sent_append (incoming more : List Chunk) :
    sent (incoming ++ more) = sent incoming ++ sent more := by
  simp [sent]

theorem contents_incoming (incoming : List Chunk) :
    (⟨[], incoming⟩ : SockReader).contents = sent incoming := rfl

/-- The header block of a response and what the origin sends behind it. -/
def headerBlock (incoming : List Chunk) : HTTPHeader × Text :=
  let (resp, reader) := HTTPResponse.initial.ingestFirst ⟨[], incoming⟩
  let (headers, reader) := resp.headers.parse reader
  (headers, reader.contents)

/-- How the status line is read off a stream. -/
theorem headerBlock_line {incoming : List Chunk} {line rest : Text} (free : newline ∉ line)
    (bytes : sent incoming = line ++ newline :: rest) :
    ∃ reader : SockReader, reader.contents = rest ∧
      headerBlock incoming =
        ((HTTPHeader.parse ⟨[]⟩ reader).1, (HTTPHeader.parse ⟨[]⟩ reader).2.contents) := by
  have bytes : (⟨[], incoming⟩ : SockReader).contents = line ++ newline :: rest := bytes
  obtain ⟨reader, read, left⟩ := SockReader.readLine_of_line free bytes
  refine ⟨reader, left, ?_⟩
  simp only [headerBlock, HTTPResponse.ingestFirst, read]
  rfl

/-- Without the end of a line there is no header block. -/
theorem headerBlock_free {incoming : List Chunk} (free : newline ∉ sent incoming) :
    headerBlock incoming = (⟨[]⟩, []) := by
  by_cases ended : sent incoming = []
  · have none : (⟨[], incoming⟩ : SockReader).readLine = none :=
      SockReader.readLine_of_empty ended
    simp only [headerBlock, HTTPResponse.ingestFirst, none]
    rw [show HTTPResponse.initial.headers = ⟨[]⟩ from rfl, HTTPHeader.parse_end none,
      contents_incoming, ended]
  · have free : newline ∉ (⟨[], incoming⟩ : SockReader).contents := free
    obtain ⟨reader, read, left⟩ := SockReader.readLine_of_last free ended
    simp only [headerBlock, HTTPResponse.ingestFirst, read]
    rw [show (HTTPResponse.initial.ingestStatus _).headers = ⟨[]⟩ from rfl,
      HTTPHeader.parse_end (SockReader.readLine_of_empty left), left]

/-- Once the blank line is there, the fields stay and what is sent is the body's. -/
theorem headerBlock_append {incoming : List Chunk} (blank : BlankLine (sent incoming))
    (more : List Chunk) :
    headerBlock (incoming ++ more) =
      ((headerBlock incoming).1, (headerBlock incoming).2 ++ sent more) := by
  by_cases found : newline ∈ sent incoming
  · obtain ⟨line, rest, shape, free⟩ := List.eq_append_cons_of_mem found
    obtain ⟨reader, left, same⟩ := headerBlock_line free shape
    have further : sent (incoming ++ more) = line ++ newline :: (rest ++ sent more) := by
      rw [sent_append, shape, List.append_assoc, List.cons_append]
    obtain ⟨longer, left', same'⟩ := headerBlock_line free further
    rw [shape, blankLine_append free, ← left] at blank
    obtain ⟨fields, behind⟩ := HTTPHeader.parse_append ⟨[]⟩ blank
      (show longer.contents = reader.contents ++ sent more by rw [left, left'])
    rw [same, same', fields, behind]
  · exact absurd blank (not_blankLine_of_free found)

/-- Before the blank line, some further bytes add a field. -/
theorem exists_more_fields {incoming : List Chunk} (open' : ¬ BlankLine (sent incoming)) :
    ∃ more, (headerBlock (incoming ++ more)).1 ≠ (headerBlock incoming).1 := by
  have extra : HTTPHeader.oneMoreField ≠ [] ∧ HTTPHeader.oneMoreField.length ≤ 8192 := by
    decide
  have further : sent (incoming ++ [⟨HTTPHeader.oneMoreField, extra⟩]) =
      sent incoming ++ HTTPHeader.oneMoreField := by
    rw [sent_append]
    rfl
  refine ⟨[⟨HTTPHeader.oneMoreField, extra⟩], fun same => ?_⟩
  have more : (headerBlock (incoming ++ [⟨HTTPHeader.oneMoreField, extra⟩])).1.headers.length =
      (headerBlock incoming).1.headers.length + 1 := by
    by_cases found : newline ∈ sent incoming
    · obtain ⟨line, rest, shape, free⟩ := List.eq_append_cons_of_mem found
      obtain ⟨reader, left, same⟩ := headerBlock_line free shape
      rw [shape, List.append_assoc, List.cons_append] at further
      obtain ⟨longer, left', same'⟩ := headerBlock_line free further
      rw [shape, blankLine_append free, ← left] at open'
      rw [same, same']
      exact HTTPHeader.length_parse_oneMoreField ⟨[]⟩ open' (by rw [left, left'])
    · -- the status line ends in the further bytes, and the field behind it is the first one
      have whole : newline ∉ sent incoming ++ [120] := by
        rw [List.mem_append, not_or]
        exact ⟨found, by decide⟩
      have split' : sent incoming ++ HTTPHeader.oneMoreField =
          (sent incoming ++ [120]) ++ newline :: ascii "X:y" := by
        rw [List.append_assoc]
        rfl
      obtain ⟨longer, left, same⟩ := headerBlock_line whole (further.trans split')
      have last : newline ∉ longer.contents := by
        rw [left]
        decide
      obtain ⟨drained, read, ended⟩ := SockReader.readLine_of_last last (by rw [left]; decide)
      rw [left] at read
      rw [headerBlock_free found, same, HTTPHeader.parse_line read (by decide),
        HTTPHeader.parse_end (SockReader.readLine_of_empty ended)]
      rfl
  rw [same] at more
  omega

end Proxy
end Syscore
