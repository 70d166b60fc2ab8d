import Syscore.Proxy.Fields
import Syscore.Proxy.Storing

/-!
# Prohibitions of `Cache-Control`

`cacheTTL` looks at the first `Cache-Control` field only and searches its value as it is spelled.
What the fields say is read here as a comma-separated list of directives in any letter case.
-/

namespace Syscore
namespace Proxy

/-! ## Directives -/

/-- The comma between directives. -/
def comma : UInt8 := 44

/-- A blank or a tab. -/
def isBlank (char : UInt8) : Bool := char = 32 || char = 9

/-- A directive may begin behind this text: it is empty or ends in a comma, up to blanks. -/
def startsDirective (front : Text) : Bool :=
  (front.reverse.dropWhile isBlank).head?.all (· = comma)

/-- A directive may end before this text. -/
def endsDirective (tail : Text) : Bool := (tail.dropWhile isBlank).head?.all (· = comma)

/-- A directive of this name stands at a position of a field value, alone or with an argument. -/
def DirectiveAt (name value : Text) (position : ℕ) : Prop :=
  startsDirective (value.take position) = true ∧
    HTTPHeader.lower ((value.drop position).take name.length) = name ∧
    (endsDirective (value.drop (position + name.length)) = true ∨
      (value.drop (position + name.length)).head? = some 61)

/-- The number that a `max-age` directive at a position of a field value has as its argument. -/
def maxAgeAt (value : Text) (position : ℕ) : Option ℕ :=
  let argument := value.drop (position + 8)
  if startsDirective (value.take position) = true ∧
      HTTPHeader.lower ((value.drop position).take 8) = ascii "max-age=" ∧
      isNumber (argument.takeWhile isdigit) = true ∧
      endsDirective (argument.dropWhile isdigit) = true then
    some (digitsValue (argument.takeWhile isdigit))
  else
    none

/-- The directives that forbid a shared cache to answer from what it stores. -/
def prohibitions : List Text := [ascii "no-store", ascii "no-cache", ascii "private"]

/-- The field value carries a prohibition. -/
def Forbids (value : Text) : Prop :=
  ∃ name ∈ prohibitions, ∃ position ≤ value.length, DirectiveAt name value position

/-- The values of the `Cache-Control` fields, in order. -/
def HTTPHeader.cacheControl (headers : HTTPHeader) : List Text :=
  headers.values (ascii "Cache-Control")

/-- Some `Cache-Control` field carries a prohibition. -/
def Prohibited (headers : HTTPHeader) : Prop := ∃ value ∈ headers.cacheControl, Forbids value

/-- Some `Cache-Control` field carries `max-age` with this argument. -/
def GrantsMaxAge (headers : HTTPHeader) (age : ℤ) : Prop :=
  ∃ value ∈ headers.cacheControl, ∃ position n, maxAgeAt value position = some n ∧ (n : ℤ) = age

/-- What `cacheTTL` decides respects the directives. -/
def Respects (req : HTTPRequest) (resp : HTTPResponse) : Prop :=
  (Prohibited resp.headers → cacheTTL req resp = 0) ∧
    ∀ d, cacheTTL req resp = d → 0 < d →
      req.method = ascii "GET" ∧ resp.code = 200 ∧ GrantsMaxAge resp.headers d

/-! ## What is searched -/

/-- The value that is searched spells a prohibition in lower case. -/
def Spelled (value : Text) : Prop := ∃ name ∈ prohibitions, name <:+: value

/-- A prohibition that the search for the lower-case names in the first field does not see: it is
in another field, or not in lower case. -/
def Overlooked (first : Text) (others : List Text) : Prop :=
  (∃ value ∈ others, Forbids value) ∨
    ∃ name ∈ prohibitions, ∃ position ≤ first.length, DirectiveAt name first position ∧
      (first.drop position).take name.length ≠ name

/-- The number written behind a `max-age=` at this position. -/
def ageNumber (value : Text) (position : ℕ) : ℤ := writtenInt (value.drop (position + 8))

/-- The `max-age=` at this position begins a directive with an argument in the range of `int`. -/
def PlainAge (value : Text) (position : ℕ) : Prop :=
  ∃ n, maxAgeAt value position = some n ∧ n < 2 ^ 31

/-- Another directive grants what the number at this position of the first field is cut to. -/
def AgeElsewhere (first : Text) (others : List Text) (position : ℕ) : Prop :=
  ∃ n : ℕ, TruncatesTo (ageNumber first position) n ∧
    ((∃ other ≠ position, maxAgeAt first other = some n) ∨
      ∃ value ∈ others, ∃ other, maxAgeAt value other = some n)

/-- Where the response to a GET with status 200 has a first `Cache-Control` field that spells no
prohibition in lower case, and the number behind its first `max-age=` is one that the cast to `int`
makes positive: no prohibition is overlooked, and this `max-age=` is a plain directive or another
directive has the number for its argument. -/
def Visible (req : HTTPRequest) (resp : HTTPResponse) : Prop :=
  ∀ first others position, resp.headers.cacheControl = first :: others →
    find (ascii "max-age=") first = some position →
      req.method ≠ ascii "GET" ∨ resp.code ≠ 200 ∨ Spelled first ∨
        (∀ age, ¬ TruncatesTo (ageNumber first position) age) ∨
          ¬ Overlooked first others ∧
            (PlainAge first position ∨ AgeElsewhere first others position)

theorem spelled_iff {value : Text} :
    Spelled value ↔ (find (ascii "no-store") value).isSome ∨
      (find (ascii "no-cache") value).isSome ∨ (find (ascii "private") value).isSome := by
  have found (name : Text) : (find name value).isSome = true ↔ name <:+: value := by
    rw [← Option.ne_none_iff_isSome, Ne, find_eq_none_iff, not_not]
  rw [found, found, found, Spelled, prohibitions]
  simp

theorem cacheTTL_nonneg (req : HTTPRequest) (resp : HTTPResponse) : 0 ≤ cacheTTL req resp := by
  rw [cacheTTL]
  simp only
  split_ifs
  · exact le_rfl
  · exact le_rfl
  · split
    · exact le_rfl
    · split_ifs <;> omega

/-- When a response may live, and how long. -/
theorem cacheTTL_eq_iff {req : HTTPRequest} {resp : HTTPResponse} {ttl : ℤ} (positive : 0 < ttl) :
    cacheTTL req resp = ttl ↔ req.method = ascii "GET" ∧ resp.code = 200 ∧
      ¬ Spelled (resp.headers.get (ascii "Cache-Control")) ∧
        ∃ position, find (ascii "max-age=") (resp.headers.get (ascii "Cache-Control")) =
            some position ∧
          TruncatesTo (ageNumber (resp.headers.get (ascii "Cache-Control")) position) ttl := by
  have nonzero : ¬ 0 = ttl := positive.ne
  rw [cacheTTL]
  by_cases plain : req.method ≠ ascii "GET" ∨ resp.code ≠ 200
  · rw [if_pos plain]
    refine iff_of_false nonzero ?_
    rintro ⟨method, code, _⟩
    exact plain.elim (fun other => other method) fun other => other code
  · rw [if_neg plain]
    simp only [not_or, ne_eq, not_not] at plain
    simp only
    by_cases spelled : Spelled (resp.headers.get (ascii "Cache-Control"))
    · rw [if_pos (spelled_iff.mp spelled)]
      exact iff_of_false nonzero fun facts => facts.2.2.1 spelled
    · rw [if_neg (fun found => spelled (spelled_iff.mpr found))]
      simp only [plain, spelled, not_false_eq_true, true_and]
      cases found : find (ascii "max-age=") (resp.headers.get (ascii "Cache-Control")) with
      | none => simp [nonzero]
      | some position =>
          simp only [Option.some.injEq, exists_eq_left', ageNumber, ← atoi_eq_iff positive]
          split
          · rfl
          · rename_i small
            exact iff_of_false nonzero fun read => small (read ▸ positive)

/-- Without a `Cache-Control` field nothing is stored. -/
theorem cacheTTL_of_nil (req : HTTPRequest) {resp : HTTPResponse}
    (none : resp.headers.cacheControl = []) : cacheTTL req resp = 0 := by
  by_contra nonzero
  have positive := lt_of_le_of_ne (cacheTTL_nonneg req resp) (Ne.symm nonzero)
  obtain ⟨-, -, -, position, found, -⟩ := (cacheTTL_eq_iff positive).mp rfl
  rw [HTTPHeader.get_eq_head, show resp.headers.values (ascii "Cache-Control") = [] from none,
    List.head?_nil, Option.getD_none, find, if_neg (by decide)] at found
  cases found

/-- What is searched is the first field. -/
theorem get_of_cons {headers : HTTPHeader} {first : Text} {others : List Text}
    (fields : headers.cacheControl = first :: others) :
    headers.get (ascii "Cache-Control") = first := by
  rw [HTTPHeader.get_eq_head, show headers.values (ascii "Cache-Control") = first :: others from
    fields]
  rfl

/-- Where the first field spells no prohibition, a prohibition is one that is overlooked. -/
theorem prohibited_iff_overlooked {headers : HTTPHeader} {first : Text} {others : List Text}
    (fields : headers.cacheControl = first :: others) (unspelled : ¬ Spelled first) :
    Prohibited headers ↔ Overlooked first others := by
  have here : Forbids first ↔ ∃ name ∈ prohibitions, ∃ position ≤ first.length,
      DirectiveAt name first position ∧ (first.drop position).take name.length ≠ name := by
    refine exists_congr fun name => and_congr_right fun known => exists_congr fun position =>
      and_congr_right fun _ => (and_iff_left fun lower => unspelled ⟨name, known, ?_⟩).symm
    rw [← lower]
    exact (List.take_prefix _ _).isInfix.trans (List.drop_suffix _ _).isInfix
  rw [Prohibited, fields, List.exists_mem_cons_iff, here, or_comm]
  rfl

/-- The number behind a plain `max-age=` is its argument. -/
theorem ageNumber_of_maxAgeAt {value : Text} {position n : ℕ}
    (aged : maxAgeAt value position = some n) : ageNumber value position = n := by
  simp only [maxAgeAt] at aged
  split at aged
  · rename_i facts
    obtain ⟨_, _, number, _⟩ := facts
    obtain rfl := Option.some.inj aged
    have stops : ∀ char ∈ ((value.drop (position + 8)).dropWhile isdigit).head?,
        isdigit char = false := by
      intro char head
      have stop := List.head?_dropWhile_not isdigit (value.drop (position + 8))
      rw [Option.mem_def.mp head] at stop
      simpa using stop
    have written := writtenInt_digits number stops
    rw [List.takeWhile_append_dropWhile] at written
    exact written
  · cases aged

/-- Where the number at a position is cut to an age, the age is granted just when the number is
plain there or another directive grants it. -/
theorem grants_iff {headers : HTTPHeader} {first : Text} {others : List Text} {position : ℕ}
    {age : ℤ} (fields : headers.cacheControl = first :: others)
    (cut : TruncatesTo (ageNumber first position) age) :
    GrantsMaxAge headers age ↔
      PlainAge first position ∨ AgeElsewhere first others position := by
  have unique {n : ℕ} (same : TruncatesTo (ageNumber first position) n) : (n : ℤ) = age := by
    unfold TruncatesTo at same cut
    omega
  rw [GrantsMaxAge, fields]
  constructor
  · rintro ⟨value, inside, other, n, aged, rfl⟩
    rcases List.mem_cons.mp inside with rfl | later
    · by_cases same : other = position
      · subst same
        have small : n < 2 ^ 31 := by
          have range := cut.2.1.2
          omega
        exact .inl ⟨n, aged, small⟩
      · exact .inr ⟨n, cut, .inl ⟨other, same, aged⟩⟩
    · exact .inr ⟨n, cut, .inr ⟨value, later, other, aged⟩⟩
  · rintro (⟨n, aged, small⟩ | ⟨n, same, ⟨other, -, aged⟩ | ⟨value, later, other, aged⟩⟩)
    · refine ⟨first, List.mem_cons_self, position, n, aged, ?_⟩
      rw [ageNumber_of_maxAgeAt aged] at cut
      unfold TruncatesTo at cut
      omega
    · exact ⟨first, List.mem_cons_self, other, n, aged, unique same⟩
    · exact ⟨value, List.mem_cons_of_mem _ later, other, n, aged, unique same⟩

/-- What `cacheTTL` decides shows it the directives. -/
theorem Respects.visible {req : HTTPRequest} {resp : HTTPResponse} (respects : Respects req resp) :
    Visible req resp := by
  obtain ⟨prohibits, granted⟩ := respects
  intro first others position fields found
  by_cases method : req.method = ascii "GET"
  · by_cases code : resp.code = 200
    · by_cases spelled : Spelled first
      · exact .inr (.inr (.inl spelled))
      · by_cases aged : ∃ age, TruncatesTo (ageNumber first position) age
        · obtain ⟨age, cut⟩ := aged
          have lives : cacheTTL req resp = age := by
            rw [cacheTTL_eq_iff cut.2.1.1, get_of_cons fields]
            exact ⟨method, code, spelled, position, found, cut⟩
          refine .inr (.inr (.inr (.inr ⟨fun overlooked => ?_, ?_⟩)))
          · have none := prohibits ((prohibited_iff_overlooked fields spelled).mpr overlooked)
            exact cut.2.1.1.ne (none.symm.trans lives)
          · exact (grants_iff fields cut).mp (granted age lives cut.2.1.1).2.2
        · exact .inr (.inr (.inr (.inl (not_exists.mp aged))))
    · exact .inr (.inl code)
  · exact .inl method

/-- Where the directives are visible, a response lives only by leave of its fields: its time comes
from a first field with a first `max-age=`. -/
theorem Visible.permits {req : HTTPRequest} {resp : HTTPResponse} (visible : Visible req resp)
    {ttl : ℤ} (lives : cacheTTL req resp = ttl) (positive : 0 < ttl) :
    req.method = ascii "GET" ∧ resp.code = 200 ∧ ¬ Prohibited resp.headers ∧
      GrantsMaxAge resp.headers ttl := by
  obtain ⟨method, code, unspelled, position, found, cut⟩ := (cacheTTL_eq_iff positive).mp lives
  cases fields : resp.headers.cacheControl with
  | nil => exact absurd ((cacheTTL_of_nil req fields).symm.trans lives) positive.ne
  | cons first others =>
      rw [get_of_cons fields] at unspelled found cut
      rcases visible first others position fields found with
        other | other | spelled | never | ⟨seen, plain⟩
      · exact absurd method other
      · exact absurd code other
      · exact absurd spelled unspelled
      · exact absurd cut (never ttl)
      · refine ⟨method, code, fun prohibited => ?_, (grants_iff fields cut).mpr plain⟩
        exact seen ((prohibited_iff_overlooked fields unspelled).mp prohibited)

/-- `cacheTTL` respects the directives just when they are visible to it. -/
theorem respects_iff_visible (req : HTTPRequest) (resp : HTTPResponse) :
    Respects req resp ↔ Visible req resp := by
  refine ⟨Respects.visible, fun visible => ⟨fun prohibited => ?_, fun d lives positive => ?_⟩⟩
  · by_contra nonzero
    have positive := lt_of_le_of_ne (cacheTTL_nonneg req resp) (Ne.symm nonzero)
    exact (visible.permits rfl positive).2.2.1 prohibited
  · obtain ⟨method, code, -, granted⟩ := visible.permits lives positive
    exact ⟨method, code, granted⟩

/-- A stored string is a response to a GET that no field forbids to store, and its age is
granted. -/
def PermittedSource (serialized : Text) (ttl : ℤ) : Prop :=
  ∃ req incoming, req.method = ascii "GET" ∧ (ingested incoming).code = 200 ∧
    ¬ Prohibited (ingested incoming).headers ∧ GrantsMaxAge (ingested incoming).headers ttl ∧
      cacheTTL req (ingested incoming) = ttl ∧ (ingested incoming).serialize = serialized

/-- `cacheTTL` respects the directives just when they are visible to it, and in a run of visible
directives whatever is stored is permitted. -/
theorem directives_respected_iff (req : HTTPRequest) (resp : HTTPResponse) :
    (Respects req resp ↔ Visible req resp) ∧
      ∀ {blocks : Text → Bool} {state : State}, (machine blocks).Reachable
          (storesOnly fun req incoming => Visible req (ingested incoming)) state →
        ∀ {id : ℕ} {key serialized : Text} {ttl now : ℤ},
          .store id key serialized ttl now ∈ state.log → PermittedSource serialized ttl := by
  refine ⟨respects_iff_visible req resp, ?_⟩
  intro blocks state reach id key serialized ttl now stored
  obtain ⟨source, incoming, visible, same, lives, positive⟩ := goodSource_of_store reach stored
  obtain ⟨method, code, allowed, age⟩ := visible.permits lives positive
  exact ⟨source, incoming, method, code, allowed, age, lives, same⟩

/-- A response that two fields speak about, the second of them forbidding to store it. -/
def secondFieldForbids : List Chunk :=
  [⟨ascii "HTTP/1.0 200 OK\r\nCache-Control: max-age=60\r\nCache-Control: no-store\r\n\r\nhi",
    by decide +kernel⟩]

/-- A request for the root. -/
def rootRequest : HTTPRequest := { HTTPRequest.initial with method := ascii "GET" }

/-- The response that may not be stored gets a minute to live. -/
theorem prohibition_overlooked :
    Prohibited (ingested secondFieldForbids).headers ∧
      cacheTTL rootRequest (ingested secondFieldForbids) = 60 ∧
        ¬ Respects rootRequest (ingested secondFieldForbids) := by
  have prohibited : Prohibited (ingested secondFieldForbids).headers := by
    unfold Prohibited Forbids DirectiveAt
    decide +kernel
  have lives : cacheTTL rootRequest (ingested secondFieldForbids) = 60 := by decide +kernel
  refine ⟨prohibited, lives, fun respects => ?_⟩
  rw [respects.1 prohibited] at lives
  exact absurd lives (by decide)

theorem visible_cacheableResponse (req : HTTPRequest) :
    Visible req (ingested cacheableResponse) := by
  intro first others position fields found
  have only : (ingested cacheableResponse).headers.cacheControl = [ascii "max-age=5"] := by
    decide +kernel
  obtain ⟨rfl, rfl⟩ := List.cons.inj (fields.symm.trans only)
  have start : find (ascii "max-age=") (ascii "max-age=5") = some 0 := by decide
  obtain rfl := Option.some.inj (found.symm.trans start)
  refine .inr (.inr (.inr (.inr ⟨?_, .inl ⟨5, by decide +kernel, by decide⟩⟩)))
  unfold Overlooked Forbids DirectiveAt
  decide +kernel

/-- The proxy after a client got a response that may live for five seconds. -/
def afterCacheableResponse : State :=
  ((machine fun _ => false).exec (storesOnly fun _ incoming => incoming = cacheableResponse)
    ⟨0, ∅, [], []⟩ repeatedGet).get (by decide +kernel)

theorem directives_respected_iff_cacheable :
    (Respects rootRequest (ingested cacheableResponse) ↔
        Visible rootRequest (ingested cacheableResponse)) ∧
      PermittedSource (ascii "HTTP/1.0 200 OK\r\nCache-Control: max-age=5\r\n\r\nhi") 5 := by
  have start : (machine fun _ => false).start ⟨0, ∅, [], []⟩ := ⟨rfl, rfl, rfl⟩
  have reach : (machine fun _ => false).Reachable
      (storesOnly fun _ incoming => incoming = cacheableResponse) afterCacheableResponse :=
    .of_exec start repeatedGet (by decide +kernel)
  have stronger (req : HTTPRequest) (incoming : List Chunk) (same : incoming = cacheableResponse) :
      Visible req (ingested incoming) := by
    rw [same]
    exact visible_cacheableResponse req
  have visible := reach.mono (storesOnly_mono stronger)
  have stored : .store 0 (ascii "GET h:80/")
      (ascii "HTTP/1.0 200 OK\r\nCache-Control: max-age=5\r\n\r\nhi") 5 0 ∈
        afterCacheableResponse.log := by decide +kernel
  have facts := directives_respected_iff rootRequest (ingested cacheableResponse)
  exact ⟨facts.1, facts.2 visible stored⟩

end Proxy
end Syscore
