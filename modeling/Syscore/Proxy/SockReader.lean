import Syscore.Library.Stream

/-!
# The buffered socket reader

`SockReader` of the proxy. The bytes of the stream arrive in chunks of any size that one `read` can
return; what a reader yields depends on their concatenation only.
-/

namespace Syscore
namespace Proxy

/-- What one successful `read` appends to the buffer. -/
abbrev Chunk := { data : Text // data ≠ [] ∧ data.length ≤ 8192 }

/-- `SockReader`: the buffer, and the chunks that the socket has yet to deliver before its end. -/
structure SockReader where
  buf : Text
  incoming : List Chunk

namespace SockReader

/-- The bytes that are still to be read. -/
def contents (reader : SockReader) : Text :=
  reader.buf ++ (reader.incoming.map Subtype.val).flatten

/-- `line.pop_back()` on a carriage return. -/
def popCR (line : Text) : Text := if line.getLast? = some 13 then line.dropLast else line

/-- The loop of `readLine`. -/
def readLineLoop (buf : Text) (incoming : List Chunk) : Option (Text × SockReader) :=
  if newline ∈ buf then
    let line := buf.takeWhile (· ≠ newline)
    some (popCR line, ⟨(buf.dropWhile (· ≠ newline)).drop 1, incoming⟩)
  else
    match incoming with
    | chunk :: incoming => readLineLoop (buf ++ chunk.val) incoming
    | [] => if buf = [] then none else some (buf, ⟨[], []⟩)

/-- `readLine`: the line, or `none` at the end of the stream. -/
def readLine (reader : SockReader) : Option (Text × SockReader) :=
  readLineLoop reader.buf reader.incoming

/-- The loop of `readExactly`: what is appended to `out`. -/
def readExactlyLoop (n : ℕ) (buf : Text) (incoming : List Chunk) : Text × SockReader :=
  if buf.length < n then
    match incoming with
    | chunk :: incoming => readExactlyLoop n (buf ++ chunk.val) incoming
    | [] => (buf, ⟨[], []⟩)
  else
    (buf.take n, ⟨buf.drop n, incoming⟩)

/-- `readExactly`. -/
def readExactly (n : ℕ) (reader : SockReader) : Text × SockReader :=
  readExactlyLoop n reader.buf reader.incoming

/-- The loop of `readUntilEOF`: what is appended to `out`. -/
def readUntilEOFLoop : List Chunk → Text
  | [] => []
  | chunk :: incoming => chunk.val ++ readUntilEOFLoop incoming

/-- `readUntilEOF`. -/
def readUntilEOF (reader : SockReader) : Text × SockReader :=
  (reader.buf ++ readUntilEOFLoop reader.incoming, ⟨[], []⟩)

/-! ## Only the bytes count -/

/-- The first line of a stream and the rest; the last line of a stream keeps its carriage return. -/
def firstLine (stream : Text) : Option (Text × Text) :=
  if newline ∈ stream then
    some (popCR (stream.takeWhile (· ≠ newline)), (stream.dropWhile (· ≠ newline)).drop 1)
  else if stream = [] then
    none
  else
    some (stream, [])

theorem firstLine_newline {line : Text} (free : newline ∉ line) (rest : Text) :
    firstLine (line ++ newline :: rest) = some (popCR line, rest) := by
  obtain ⟨taken, dropped⟩ := cut_at free rest
  rw [firstLine, if_pos (by simp), taken, dropped]
  rfl

theorem readLineLoop_contents (buf : Text) (incoming : List Chunk) :
    (readLineLoop buf incoming).map (fun (line, reader) => (line, reader.contents)) =
      firstLine (contents ⟨buf, incoming⟩) := by
  induction incoming generalizing buf with
  | nil =>
      rw [readLineLoop, firstLine]
      simp only [contents, List.map_nil, List.flatten_nil, List.append_nil]
      split_ifs <;> simp
  | cons chunk incoming ih =>
      rw [readLineLoop]
      by_cases found : newline ∈ buf
      · obtain ⟨line, rest, rfl, free⟩ := List.eq_append_cons_of_mem found
        obtain ⟨taken, dropped⟩ := cut_at free rest
        rw [if_pos found, contents, List.append_assoc, List.cons_append,
          firstLine_newline free, taken, dropped]
        rfl
      · rw [if_neg found]
        simp only [ih]
        simp [contents]

theorem readLine_contents (reader : SockReader) :
    reader.readLine.map (fun (line, rest) => (line, rest.contents)) =
      firstLine reader.contents :=
  readLineLoop_contents reader.buf reader.incoming

theorem firstLine_shorter {stream line rest : Text} (read : firstLine stream = some (line, rest)) :
    rest.length < stream.length := by
  by_cases found : newline ∈ stream
  · obtain ⟨before, after, rfl, free⟩ := List.eq_append_cons_of_mem found
    rw [firstLine_newline free] at read
    obtain ⟨_, rfl⟩ := Prod.mk.inj (Option.some.inj read)
    simp only [List.length_append, List.length_cons]
    omega
  · rw [firstLine, if_neg found] at read
    split at read
    · cases read
    · rename_i nonempty
      obtain ⟨_, rfl⟩ := Prod.mk.inj (Option.some.inj read)
      exact List.length_pos_iff.mpr nonempty

/-- A line takes at least one byte off the stream. -/
theorem readLine_shorter {reader rest : SockReader} {line : Text}
    (read : reader.readLine = some (line, rest)) :
    rest.contents.length < reader.contents.length := by
  have bytes := readLine_contents reader
  rw [read] at bytes
  exact firstLine_shorter bytes.symm

theorem readExactlyLoop_contents (n : ℕ) (buf : Text) (incoming : List Chunk) :
    (readExactlyLoop n buf incoming).1 = (contents ⟨buf, incoming⟩).take n ∧
      (readExactlyLoop n buf incoming).2.contents = (contents ⟨buf, incoming⟩).drop n := by
  induction incoming generalizing buf with
  | nil =>
      rw [readExactlyLoop]
      simp only [contents, List.map_nil, List.flatten_nil, List.append_nil]
      by_cases few : buf.length < n
      · simp [few, List.take_of_length_le few.le, List.drop_of_length_le few.le]
      · simp [few]
  | cons chunk incoming ih =>
      rw [readExactlyLoop]
      by_cases few : buf.length < n
      · simp only [few, if_true, ih]
        simp [contents]
      · have enough : n ≤ buf.length := Nat.not_lt.mp few
        simp [few, contents, List.take_append_of_le_length enough,
          List.drop_append_of_le_length enough]

theorem readExactly_contents (n : ℕ) (reader : SockReader) :
    (reader.readExactly n).1 = reader.contents.take n ∧
      (reader.readExactly n).2.contents = reader.contents.drop n :=
  readExactlyLoop_contents n reader.buf reader.incoming

theorem readUntilEOF_contents (reader : SockReader) :
    reader.readUntilEOF.1 = reader.contents := by
  have loop (incoming : List Chunk) :
      readUntilEOFLoop incoming = (incoming.map Subtype.val).flatten := by
    induction incoming with
    | nil => rfl
    | cons chunk incoming ih => rw [readUntilEOFLoop, ih, List.map_cons, List.flatten_cons]
  rw [readUntilEOF, loop, contents]

end SockReader

end Proxy
end Syscore
