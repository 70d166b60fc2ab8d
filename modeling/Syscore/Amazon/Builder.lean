import Std.Data.TreeMap.Lemmas
import Mathlib.Data.List.Basic
import Syscore.Amazon.Words
import Syscore.Library.Bytes

/-!
# Building the keyword index

The keyword index file that `mkamazondb` writes: a map from words to their occurrences in the order
of the keys, a table of offsets and one entry for each keyword.
-/

namespace Syscore
namespace Amazon

/-- `Rec`: one parsed line. -/
structure Rec where
  title : Text
  category : Text
  headline : Text
  body : Text
  rating : ℤ
  year : ℤ
  month : ℤ
  day : ℤ

/-- The fields that are indexed, in the order of their numbers. -/
def Rec.fields (r : Rec) : List Text := [r.title, r.category, r.headline, r.body]

/-- `(field << 24) | (off & 0x00FFFFFFu)`. -/
def location (field off : ℕ) : ℕ := field <<< 24 ||| (off &&& 0x00FFFFFF)

/-- The words of the first `n` reviews with their positions, in the order of the loops. -/
def occurrences (recs : List Rec) (n : ℕ) : List (Text × ℕ × ℕ) :=
  (recs.take n).zipIdx.flatMap fun (r, i) =>
    r.fields.zipIdx.flatMap fun (text, field) =>
      (splitWords text).zipIdx.map fun (word, off) => (word, i, location field off)

/-- `map<string, vector<pair<uint32_t, uint32_t>>>`. -/
abbrev KeywordMap := Std.TreeMap Text (List (ℕ × ℕ))

/-- `kw[words[off]].push_back({i, location})`. -/
def pushBack (kw : KeywordMap) (item : Text × ℕ × ℕ) : KeywordMap :=
  kw.alter item.1 fun old => some (old.getD [] ++ [item.2])

/-- The map `kw`; the number of reviews is cast to `uint32_t`. -/
def keywordMap (recs : List Rec) : KeywordMap :=
  (occurrences recs (recs.length % 2 ^ 32)).foldl pushBack ∅

/-- The order of `pair<uint32_t, uint32_t>`. -/
def pairLE (left right : ℕ × ℕ) : Bool :=
  left.1 < right.1 || (left.1 == right.1 && left.2 ≤ right.2)

/-- One occurrence in the file. -/
def occurrenceBytes (o : ℕ × ℕ) : List UInt8 := leBytes 4 o.1 ++ leBytes 4 o.2

/-- One keyword entry that begins at offset `cur`. -/
def keywordEntry (cur : ℕ) (entry : Text × List (ℕ × ℕ)) : List UInt8 :=
  let e := entry.1 ++ [0]
  -- the count is aligned to an even offset
  let e := if (cur + e.length) % 2 ≠ 0 then e ++ [0] else e
  let occ := entry.2.mergeSort pairLE
  e ++ leBytes 4 entry.2.length ++ occ.flatMap occurrenceBytes

/-- The loop over the map: the offsets and the entries from offset `cur` on. -/
def keywordLayout (cur : ℕ) : List (Text × List (ℕ × ℕ)) → List ℕ × List UInt8
  | [] => ([], [])
  | entry :: entries =>
      let e := keywordEntry cur entry
      let (offsets, blob) := keywordLayout (cur + e.length) entries
      (cur % 2 ^ 32 :: offsets, e ++ blob)

/-- The keyword index file. -/
def keywordIndexFile (recs : List Rec) : List UInt8 :=
  let kw := keywordMap recs
  let m := kw.size % 2 ^ 32
  let headerSize := 4 + 4 * m
  let (offsets, blob) := keywordLayout headerSize kw.toList
  leBytes 4 m ++ offsets.flatMap (leBytes 4) ++ blob

end Amazon
end Syscore
