import Mathlib.Data.Finset.Sort
import Syscore.Amazon.Words
import Syscore.Library.Bytes
import Syscore.Library.CString
import Syscore.Library.LowerBound

/-!
# Searching the keyword index

`amazon::findKeyword` and `amazon::searchKeywordIndex` on the bytes of a mapped keyword index. Every
function fails when it reads a byte outside the mapping.
-/

namespace Syscore
namespace Amazon

/-- The members of `amazon` that a search reads. -/
structure Engine where
  /-- The mapped file, or `nullptr`. -/
  keywordIndexFile : Option (List UInt8)
  numKeywords : ℕ

/-- The constructor on a keyword index file: an empty file is not mapped. -/
def Engine.open (kwi : List UInt8) : Option Engine :=
  if kwi = [] then
    some { keywordIndexFile := none, numKeywords := 0 }
  else
    (readLE 4 kwi).map fun numKeywords => { keywordIndexFile := some kwi, numKeywords }

/-- `amazon::Occurrence`. -/
structure Occurrence where
  reviewIndex : ℕ
  field : ℕ
  wordOffset : ℕ
  deriving DecidableEq

/-- `readU32(base + p)`. -/
def readU32 (base : List UInt8) (p : ℕ) : Option ℕ := readLE 4 (base.drop p)

/-- The comparison of `lower_bound`: the keyword of a table entry is before the word. -/
def keywordBefore (base : List UInt8) (word : Text) (index : ℕ) : Option Bool := do
  let off ← readU32 base (4 + 4 * index)
  let order ← strcmp (base.drop off) word
  return order == .lt

/-- One round of the loop over the occurrences of a keyword. -/
def readOccurrence (base : List UInt8) (p i : ℕ) : Option Occurrence := do
  let reviewIndex ← readU32 base (p + 8 * i)
  let location ← readU32 base (p + 8 * i + 4)
  return { reviewIndex, field := location >>> 24, wordOffset := location &&& 0x00FFFFFF }

/-- `findKeyword`: its result and the vector it fills. -/
def findKeyword (engine : Engine) (word : Text) : Option (Bool × List Occurrence) :=
  match engine.keywordIndexFile with
  | none => some (false, [])
  | some base => do
      let it ← lowerBound (keywordBefore base word) 0 engine.numKeywords
      if it = engine.numKeywords then
        return (false, [])
      let p ← readU32 base (4 + 4 * it)
      let order ← strcmp (base.drop p) word
      if order ≠ .eq then
        return (false, [])
      let length ← strlen (base.drop p)
      let p := p + length + 1
      let p := if p % 2 ≠ 0 then p + 1 else p
      let count ← readU32 base p
      let p := p + 4
      let occ ← (List.range count).mapM (readOccurrence base p)
      return (true, occ)

/-- A review, a field and an offset: `Pos`. -/
abbrev Pos := ℕ × ℕ × ℕ

/-- `static_cast<int>` of an `unsigned int`. -/
def toInt (value : ℕ) : ℤ := if value < 2 ^ 31 then value else value - 2 ^ 32

/-- The positions of every word of a phrase, or `none` when `anyEmpty`. -/
def phrasePositions (engine : Engine) : List Text → Option (Option (List (Finset Pos)))
  | [] => some (some [])
  | word :: words => do
      let (found, occ) ← findKeyword engine word
      if !found then
        return none
      let later ← phrasePositions engine words
      return later.map fun positions =>
        (occ.map fun o => (o.reviewIndex, o.field, o.wordOffset)).toFinset :: positions

/-- The loop that verifies the words after the anchor; `k` counts from 1. -/
def phraseFollows (anchor : Pos) (positions : List (Finset Pos)) : Bool :=
  positions.zipIdx.all fun (later, k) =>
    (anchor.1, anchor.2.1, (anchor.2.2 + (k + 1) % 2 ^ 32) % 2 ^ 32) ∈ later

/-- The reviews that match one term. -/
def termMatches (engine : Engine) : List Text → Option (Finset ℤ)
  | [word] => do
      let (found, occ) ← findKeyword engine word
      return if found then (occ.map fun o => toInt o.reviewIndex).toFinset else ∅
  | term => do
      let positions ← phrasePositions engine term
      return match positions with
        | some (anchors :: later) =>
            (anchors.filter fun anchor => phraseFollows anchor later).image fun anchor =>
              toInt anchor.1
        | _ => ∅

/-- The loop over the terms: `result` so far, `none` before the first term. -/
def searchTerms (engine : Engine) : Option (Finset ℤ) → List (List Text) → Option (Finset ℤ)
  | result, [] => some (result.getD ∅)
  | result, term :: terms => do
      let found ← termMatches engine term
      let result :=
        match result with
        | none => found
        | some result => result ∩ found
      if result = ∅ then
        return result
      searchTerms engine (some result) terms

/-- `searchKeywordIndex`: its result and the vector it fills. -/
def searchKeywordIndex (engine : Engine) (query : Text) : Option (Bool × List ℤ) :=
  let terms := convertQuery query
  if terms = [] then
    some (false, [])
  else do
    let result ← searchTerms engine none terms
    let reviewIndexes := result.sort (· ≤ ·)
    return (!reviewIndexes.isEmpty, reviewIndexes)

end Amazon
end Syscore
