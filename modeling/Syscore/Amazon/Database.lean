import Syscore.Amazon.KeywordIndex

/-!
# The review database

The database file that `mkamazondb` writes, and `amazon::getReview` on its bytes. Records have any
length, and the year of each is aligned by both sides.
-/

namespace Syscore
namespace Amazon

/-! ## Writing -/

/-- `static_cast<char>` of an `int`. -/
def charOf (value : ℤ) : UInt8 := UInt8.ofNat (value % 2 ^ 8).toNat

/-- One record that begins at offset `cur`. -/
def recordEntry (cur : ℕ) (r : Rec) : List UInt8 :=
  let bytes := r.title ++ [0] ++ r.category ++ [0] ++ [charOf r.rating] ++ r.headline ++ [0] ++
    r.body ++ [0]
  -- the year is aligned to an even offset
  let bytes := if (cur + bytes.length) % 2 ≠ 0 then bytes ++ [0] else bytes
  bytes ++ leBytes 2 (r.year % 2 ^ 16).toNat ++ [charOf r.month] ++ [charOf r.day]

/-- The database file; the number of reviews is cast to `uint32_t`. -/
def databaseFile (recs : List Rec) : List UInt8 :=
  let n := recs.length % 2 ^ 32
  let headerSize := 4 + 4 * n
  let (offsets, blob) := layoutFrom recordEntry headerSize (recs.take n)
  leBytes 4 n ++ offsets.flatMap (leBytes 4) ++ blob

/-! ## Reading -/

/-- `Review`. -/
structure Review where
  index : ℕ
  productTitle : Text
  productCategory : Text
  starRating : ℤ
  reviewHeadline : Text
  reviewBody : Text
  reviewYear : ℤ
  reviewMonth : ℤ
  reviewDay : ℤ
  deriving DecidableEq

/-- The members of `amazon` that `getReview` reads. -/
structure Database where
  /-- The mapped file, or `nullptr`. -/
  databaseFile : Option (List UInt8)
  numReviews : ℕ

/-- The constructor on a database file: an empty file is not mapped. -/
def Database.open (db : List UInt8) : Option Database :=
  if db = [] then
    some { databaseFile := none, numReviews := 0 }
  else
    (readLE 4 db).map fun numReviews => { databaseFile := some db, numReviews }

/-- `readU16(base + p)`. -/
def readU16 (base : List UInt8) (p : ℕ) : Option ℕ := readLE 2 (base.drop p)

/-- The byte at `base + p`. -/
def readByte (base : List UInt8) (p : ℕ) : Option ℕ := (base.drop p).head?.map UInt8.toNat

/-- `readCString`: the string and the position past its terminator. -/
def readCString (base : List UInt8) (p : ℕ) : Option (Text × ℕ) :=
  (strlen (base.drop p)).map fun len => ((base.drop p).take len, p + len + 1)

/-- `getReview`: `some none` where it returns false; the product `4 * index` has 32 bits. -/
def getReview (database : Database) (index : ℕ) : Option (Option Review) :=
  match database.databaseFile with
  | none => some none
  | some base =>
      if database.numReviews ≤ index then
        some none
      else do
        let p ← readU32 base (4 + 4 * index % 2 ^ 32)
        let (productTitle, p) ← readCString base p
        let (productCategory, p) ← readCString base p
        let starRating ← readByte base p
        let p := p + 1
        let (reviewHeadline, p) ← readCString base p
        let (reviewBody, p) ← readCString base p
        let p := if p % 2 ≠ 0 then p + 1 else p
        let reviewYear ← readU16 base p
        let reviewMonth ← readByte base (p + 2)
        let reviewDay ← readByte base (p + 3)
        return some
          { index, productTitle, productCategory, starRating, reviewHeadline, reviewBody,
            reviewYear, reviewMonth, reviewDay }

/-! ## The layout of a record -/

/-- A review that a record can hold. -/
structure Rec.Storable (r : Rec) : Prop where
  nulFree : ∀ text ∈ r.fields, 0 ∉ text
  rating : 0 ≤ r.rating ∧ r.rating < 2 ^ 8
  year : 0 ≤ r.year ∧ r.year < 2 ^ 16
  month : 0 ≤ r.month ∧ r.month < 2 ^ 8
  day : 0 ≤ r.day ∧ r.day < 2 ^ 8

/-- The review that is read back. -/
def Rec.review (r : Rec) (index : ℕ) : Review where
  index := index
  productTitle := r.title
  productCategory := r.category
  starRating := r.rating
  reviewHeadline := r.headline
  reviewBody := r.body
  reviewYear := r.year
  reviewMonth := r.month
  reviewDay := r.day

theorem toNat_charOf {value : ℤ} (range : 0 ≤ value ∧ value < 2 ^ 8) :
    ((charOf value).toNat : ℤ) = value := by
  rw [charOf, UInt8.toNat_ofNat', Int.emod_eq_of_lt range.1 range.2, Nat.mod_eq_of_lt (by omega)]
  exact Int.toNat_of_nonneg range.1

section Cursor

variable {base rest : List UInt8} {p : ℕ}

theorem readCString_at {word : Text} (nulFree : 0 ∉ word) (here : base.drop p = word ++ 0 :: rest) :
    readCString base p = some (word, p + word.length + 1) ∧
      base.drop (p + word.length + 1) = rest := by
  constructor
  · rw [readCString, here, strlen_append nulFree, Option.map_some, List.take_left]
  · rw [Nat.add_assoc, ← List.drop_drop, here, ← List.drop_drop, List.drop_left]
    rfl

theorem readByte_at {byte : UInt8} (here : base.drop p = byte :: rest) :
    readByte base p = some byte.toNat ∧ base.drop (p + 1) = rest := by
  constructor
  · rw [readByte, here]
    rfl
  · rw [← List.drop_drop, here]
    rfl

theorem readU16_at {value : ℕ} (fits : value < 2 ^ 16)
    (here : base.drop p = leBytes 2 value ++ rest) :
    readU16 base p = some value ∧ base.drop (p + 2) = rest := by
  constructor
  · rw [readU16, here]
    exact readLE_append (by simpa using fits) rest
  · rw [← List.drop_drop, here, List.drop_left' (length_leBytes 2 _)]

/-- The padding is skipped. -/
theorem skip_padding (here : base.drop p = (if p % 2 ≠ 0 then [0] else []) ++ rest) :
    base.drop (if p % 2 ≠ 0 then p + 1 else p) = rest := by
  split at here
  · rename_i odd
    rw [if_pos odd, ← List.drop_drop, here]
    rfl
  · rename_i even
    rw [if_neg even, here]
    rfl

end Cursor

/-- A record as the reader meets it: the padding depends on where it stands. -/
theorem recordEntry_eq (cur : ℕ) (r : Rec) :
    ∃ p, p = cur + r.title.length + 1 + r.category.length + 1 + 1 + r.headline.length + 1 +
        r.body.length + 1 ∧
      recordEntry cur r = r.title ++ 0 :: (r.category ++ 0 :: (charOf r.rating ::
        (r.headline ++ 0 :: (r.body ++ 0 :: ((if p % 2 ≠ 0 then [0] else []) ++
          (leBytes 2 (r.year % 2 ^ 16).toNat ++ [charOf r.month, charOf r.day])))))) := by
  refine ⟨_, rfl, ?_⟩
  have position : cur + (r.title ++ [0] ++ r.category ++ [0] ++ [charOf r.rating] ++ r.headline ++
      [0] ++ r.body ++ [0]).length = cur + r.title.length + 1 + r.category.length + 1 + 1 +
        r.headline.length + 1 + r.body.length + 1 := by
    simp only [List.length_append, List.length_singleton]
    omega
  rw [recordEntry, position]
  split <;> simp

/-- `getReview` reads a record wherever it lies. -/
theorem getReview_record {base after : List UInt8} {numReviews index off : ℕ} {r : Rec}
    (storable : r.Storable) (known : index < numReviews)
    (table : readU32 base (4 + 4 * index % 2 ^ 32) = some off)
    (here : base.drop off = recordEntry off r ++ after) :
    getReview ⟨some base, numReviews⟩ index = some (some (r.review index)) := by
  obtain ⟨stop, position, record⟩ := recordEntry_eq off r
  have free (text : Text) (field : text ∈ r.fields) := storable.nulFree text field
  rw [record] at here
  simp only [List.append_assoc, List.cons_append] at here
  obtain ⟨title, here⟩ := readCString_at (free r.title (by simp [Rec.fields])) here
  obtain ⟨category, here⟩ := readCString_at (free r.category (by simp [Rec.fields])) here
  obtain ⟨rating, here⟩ := readByte_at here
  obtain ⟨headline, here⟩ := readCString_at (free r.headline (by simp [Rec.fields])) here
  obtain ⟨body, here⟩ := readCString_at (free r.body (by simp [Rec.fields])) here
  rw [← position] at body here
  have here := skip_padding here
  obtain ⟨year, here⟩ := readU16_at (by have := storable.year; omega) here
  obtain ⟨month, here⟩ := readByte_at here
  obtain ⟨day, _⟩ := readByte_at here
  have yearBack : (((r.year % 2 ^ 16).toNat : ℕ) : ℤ) = r.year := by
    have := storable.year
    omega
  simp only [getReview, if_neg (Nat.not_le.mpr known), table, title, category, rating, headline,
    body, year, month, day, Option.bind_eq_bind, Option.bind_some, toNat_charOf storable.rating,
    toNat_charOf storable.month, toNat_charOf storable.day, yearBack]
  rfl

/-! ## The file -/

/-- The file is an offset table over the records. -/
theorem databaseFile_eq {recs : List Rec} (few : recs.length < 2 ^ 32) :
    databaseFile recs = tableFile recordEntry recs := by
  simp only [databaseFile, tableFile, Nat.mod_eq_of_lt few, List.take_length]

/-- The file reads back: every review with its eight fields, and nothing beyond. -/
def ReviewsReadBack (recs : List Rec) : Prop :=
  ∃ database, Database.open (databaseFile recs) = some database ∧
    ∀ index < 2 ^ 32, getReview database index =
      some (recs[index]?.map fun r => r.review index)

/-- The review database round-trips, for fewer than `2 ^ 32` reviews. -/
theorem database_round_trip {recs : List Rec} (few : recs.length < 2 ^ 32)
    (storable : ∀ r ∈ recs, r.Storable) (small : (databaseFile recs).length < 2 ^ 32) :
    ReviewsReadBack recs := by
  have file := databaseFile_eq few
  rw [file] at small
  have length := @length_tableFile _ recordEntry recs
  have nonempty : tableFile recordEntry recs ≠ [] := by
    rw [Ne, ← List.length_eq_zero_iff, length]
    omega
  have opened : Database.open (databaseFile recs) =
      some ⟨some (tableFile recordEntry recs), recs.length⟩ := by
    rw [file, Database.open, if_neg nonempty, readLE_tableFile small]
    rfl
  refine ⟨_, opened, fun index _ => ?_⟩
  cases at_index : recs[index]? with
  | none =>
      have beyond := List.getElem?_eq_none_iff.mp at_index
      rw [getReview]
      simp only [if_pos beyond, Option.map_none]
  | some r =>
      have known := (List.getElem?_eq_some_iff.mp at_index).1
      obtain ⟨off, after, table, bytes⟩ := tableFile_entry small at_index
      have product : 4 * index % 2 ^ 32 = 4 * index := by
        rw [length] at small
        exact Nat.mod_eq_of_lt (by omega)
      refine getReview_record (storable r (List.mem_of_getElem? at_index)) known ?_ bytes
      rw [product, readU32]
      exact table

/-- Two reviews whose records begin at offsets of different parity. -/
def oddReviews : List Rec :=
  [⟨[71, 111], [97], [], [33], 5, 2020, 12, 31⟩, ⟨[], [255], [98], [], 255, 65535, 0, 255⟩]

theorem database_round_trip_odd : ReviewsReadBack oddReviews := by
  refine database_round_trip (by decide) ?_ (by decide +kernel)
  intro r inside
  rcases List.mem_cons.mp inside with rfl | last
  · exact ⟨by decide, by decide, by decide, by decide, by decide⟩
  · rw [List.mem_singleton.mp last]
    exact ⟨by decide, by decide, by decide, by decide, by decide⟩

theorem database_wraps : (∀ r ∈ wrappedReviews, r.Storable) ∧
    (databaseFile wrappedReviews).length < 2 ^ 32 ∧ ¬ ReviewsReadBack wrappedReviews := by
  have header : databaseFile wrappedReviews = [0, 0, 0, 0] := by
    rw [databaseFile, wrappedReviews, List.length_replicate, Nat.mod_self, List.take_zero]
    decide +kernel
  refine ⟨?_, ?_, ?_⟩
  · intro r inside
    rw [mem_wrappedReviews.mp inside]
    exact ⟨by decide, by decide, by decide, by decide, by decide⟩
  · rw [header]
    decide
  · rintro ⟨database, opened, readBack⟩
    have mapped : Database.open [0, 0, 0, 0] = some ⟨some [0, 0, 0, 0], 0⟩ := rfl
    rw [header, mapped] at opened
    obtain rfl := Option.some.inj opened
    have first := readBack 0 (by decide)
    rw [wrappedReviews, List.getElem?_replicate_of_lt (by decide)] at first
    cases first

end Amazon
end Syscore
