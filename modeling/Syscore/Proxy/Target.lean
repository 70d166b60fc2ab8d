import Syscore.Proxy.Fields
import Syscore.Proxy.Request

/-!
# The host a request is sent to

Origin form takes host and port from the `Host` field and absolute form from the URL. The first
fails just for targets that hold a `://` behind their first slash, the second for ports above 65535
and for an empty host that a `Host` field overrides.
-/

namespace Syscore

/-- A token of the request line. -/
def IsWord (text : Text) : Prop := text ≠ [] ∧ ∀ char ∈ text, isspace char = false

namespace IStream

/-- A sentry skips the blank in front of a word. -/
theorem sentry_blank {word : Text} (isWord : IsWord word) (rest : Text) :
    (ofText (32 :: (word ++ rest))).sentry = ofText (word ++ rest) := by
  obtain ⟨first, others, rfl⟩ := List.exists_cons_of_ne_nil isWord.1
  have head := isWord.2 first List.mem_cons_self
  simp [sentry, ofText, good, head, show isspace 32 = true from rfl]

/-- A word read behind a blank and before another. -/
theorem extractString_between {word : Text} (isWord : IsWord word) (old rest : Text) :
    (ofText (32 :: (word ++ 32 :: rest))).extractString old = (word, ofText (32 :: rest)) := by
  have kept : ∀ char ∈ word, (!isspace char) = true := fun char inside => by
    rw [isWord.2 char inside]
    rfl
  obtain ⟨taken, dropped⟩ :=
    takeWhile_append_stop kept (show (!isspace 32) = false from rfl) rest
  rw [extractString, sentry_blank isWord]
  simp only [ofText, good, taken, dropped]
  simp

/-- A word read behind a blank at the end of the stream. -/
theorem extractString_last {word : Text} (isWord : IsWord word) (old : Text) :
    (ofText (32 :: word)).extractString old =
      (word, { rest := [], eof := true, fail := false }) := by
  have kept : ∀ char ∈ word, (!isspace char) = true := fun char inside => by
    rw [isWord.2 char inside]
    rfl
  have skipped := sentry_blank isWord []
  rw [List.append_nil] at skipped
  rw [extractString, skipped]
  simp only [ofText, good, List.takeWhile_eq_self_iff.mpr kept, List.dropWhile_eq_nil_iff.mpr kept]
  simp

end IStream

namespace Proxy

/-! ## The parts of a request -/

/-- The request line `method url protocol`. -/
def requestText (method url protocol : Text) : Text :=
  method ++ [32] ++ url ++ [32] ++ protocol

/-- Three words make a request line. -/
theorem HTTPRequest.parseRequestLine_words (req : HTTPRequest) {method url protocol : Text}
    (method_word : IsWord method) (url_word : IsWord url) (protocol_word : IsWord protocol) :
    req.parseRequestLine (requestText method url protocol) =
      (true, { req with method, url, protocol }) := by
  have shape : requestText method url protocol = method ++ 32 :: (url ++ 32 :: protocol) := by
    simp [requestText]
  rw [parseRequestLine, shape]
  simp only [IStream.extractString_word method_word.1 method_word.2,
    IStream.extractString_between url_word, IStream.extractString_last protocol_word,
    Bool.not_false]

/-- What `parse` yields for a stream that begins with a request line. -/
theorem HTTPRequest.parse_of_requestText {reader rest : SockReader} {method url protocol : Text}
    (method_word : IsWord method) (url_word : IsWord url) (protocol_word : IsWord protocol)
    (read : reader.readLine = some (requestText method url protocol, rest)) :
    HTTPRequest.parse reader =
      some ({ HTTPRequest.initial with method, url, protocol }.parseRest rest) := by
  have nonempty : requestText method url protocol ≠ [] := by simp [requestText]
  rw [parse_eq_some_iff, parseInto, read]
  simp only [nonempty, if_false, parseRequestLine_words _ method_word url_word protocol_word]

/-- `host` or `host:port`, with the port in decimal; without a port it is 80. -/
def NamesHost (authority host : Text) (port : ℕ) : Prop :=
  (authority = host ∧ port = 80) ∨
    ∃ digits, authority = host ++ HTTPHeader.colon :: digits ∧ isNumber digits = true ∧
      digitsValue digits = port

/-- The port that the code makes of a decimal number: `strtol` clamps it, the casts truncate it. -/
theorem atoi_port {digits : Text} (number : isNumber digits = true) :
    (atoi digits % 2 ^ 16).toNat = min (2 ^ 63 - 1) (digitsValue digits) % 2 ^ 16 := by
  have whole : atoi (digits ++ []) = _ := atoi_digits number (by simp)
  rw [List.append_nil] at whole
  rw [whole, Int.bmod_def]
  omega

/-- How an authority is split. -/
theorem splitHost_of_namesHost {authority host : Text} {port : ℕ} (free : HTTPHeader.colon ∉ host)
    (named : NamesHost authority host port) :
    splitHost authority = (host, min (2 ^ 63 - 1) port % 2 ^ 16) := by
  rcases named with ⟨rfl, rfl⟩ | ⟨digits, rfl, number, rfl⟩
  · rw [splitHost, if_neg free]
    rfl
  · obtain ⟨taken, dropped⟩ := cut_at free digits
    rw [splitHost, if_pos (by simp), taken, dropped, ← atoi_port number]
    rfl

theorem port_fits_iff (port : ℕ) : min (2 ^ 63 - 1) port % 2 ^ 16 = port ↔ port < 2 ^ 16 := by
  omega

/-! ## Origin form -/

/-- Behind a separator the path is not the whole URL. -/
theorem path_parseAuthority_ne {url : Text} {scheme : ℕ}
    (found : find (ascii "://") url = some scheme) :
    (parseAuthority (url.drop (scheme + 3))).path ≠ url := by
  have separator := (isPrefix_of_find found).length_le
  rw [List.length_drop, show (ascii "://").length = 3 by decide] at separator
  intro same
  have lengths := congrArg List.length same
  simp only [parseAuthority] at lengths
  split at lengths
  · have shorter := ((url.drop (scheme + 3)).dropWhile_sublist (· ≠ slash)).length_le
    rw [List.length_drop] at shorter
    omega
  · rw [List.length_singleton] at lengths
    omega

/-- A target in origin form: it begins with a single slash. -/
def OriginForm (target : Text) : Prop := ∃ tail, target = slash :: tail ∧ tail.head? ≠ some slash

/-- Without a separator the whole target is the path, and there is no host yet. -/
theorem parseURL_originForm {target : Text} (origin : OriginForm target)
    (noSeparator : find (ascii "://") target = none) (t : RequestTarget) :
    parseURL target t = { t with path := target } := by
  obtain ⟨tail, rfl, single⟩ := origin
  have noSlashes : ¬ ascii "//" <+: slash :: tail := by
    rintro ⟨rest, shape⟩
    rw [show ascii "//" = [slash, slash] by decide] at shape
    obtain ⟨_, shape⟩ := List.cons.inj shape
    rw [← shape] at single
    exact single rfl
  rw [parseURL, noSeparator]
  simp [noSlashes]

/-- A request in origin form goes to the host of the `Host` field, with its target as the path, just
when the target holds no `://`. -/
theorem origin_form_iff {reader rest : SockReader} {method target protocol value host : Text}
    {port : ℕ} (method_word : IsWord method) (target_word : IsWord target)
    (protocol_word : IsWord protocol)
    (read : reader.readLine = some (requestText method target protocol, rest))
    (origin : OriginForm target)
    (first : (HTTPHeader.parse ⟨[]⟩ rest).1.FirstField (ascii "Host") value)
    (named : NamesHost value host port) (host_colon : HTTPHeader.colon ∉ host)
    (port_fits : port < 2 ^ 16) :
    (∃ req after, HTTPRequest.parse reader = some (req, after) ∧
        req.target = ⟨host, port, target⟩) ↔
      ¬ ascii "://" <:+: target := by
  have parsed := HTTPRequest.parse_of_requestText method_word target_word protocol_word read
  rw [← find_eq_none_iff]
  constructor
  · rintro ⟨req, after, again, toHost⟩
    have path := HTTPRequest.path_of_parse again
    have url : req.url = target := by
      rw [parsed] at again
      have same : _ = req := congrArg Prod.fst (Option.some.inj again)
      rw [← same]
      rfl
    rw [toHost, url, parseURL] at path
    cases separator : find (ascii "://") target with
    | none => rfl
    | some scheme =>
        rw [separator] at path
        exact absurd path.symm (path_parseAuthority_ne separator)
  · intro noSeparator
    refine ⟨_, _, parsed, ?_⟩
    obtain ⟨present, field⟩ := first.get
    have split : splitHost value = (host, port) := by
      rw [splitHost_of_namesHost host_colon named, (port_fits_iff port).mpr port_fits]
    simp only [parseURL_originForm origin noSeparator]
    rw [if_pos ⟨rfl, present⟩]
    simp only [HTTPRequest.initial] at field ⊢
    rw [field, split]

deriving instance DecidableEq for SockReader

/-- A request in origin form with a query, and what follows its request line. -/
def queryClient : SockReader :=
  ⟨ascii "GET /a?b=c HTTP/1.0\r\nhOsT: h:8080\r\nHost: other\r\n\r\n", []⟩

@[inherit_doc queryClient]
def queryBlock : SockReader := ⟨ascii "hOsT: h:8080\r\nHost: other\r\n\r\n", []⟩

theorem origin_form_iff_query :
    (∃ req after, HTTPRequest.parse queryClient = some (req, after) ∧
        req.target = ⟨ascii "h", 8080, ascii "/a?b=c"⟩) ↔ ¬ ascii "://" <:+: ascii "/a?b=c" := by
  have words : IsWord (ascii "GET") ∧ IsWord (ascii "/a?b=c") ∧ IsWord (ascii "HTTP/1.0") := by
    unfold IsWord
    decide +kernel
  have block : (HTTPHeader.parse ⟨[]⟩ queryBlock).1 =
      ⟨[(ascii "hOsT", ascii "h:8080"), (ascii "Host", ascii "other")]⟩ := by decide +kernel
  have first : (HTTPHeader.parse ⟨[]⟩ queryBlock).1.FirstField (ascii "Host") (ascii "h:8080") := by
    rw [block]
    exact ⟨[], _, _, rfl, by decide, List.forall_mem_nil _⟩
  have named : NamesHost (ascii "h:8080") (ascii "h") 8080 :=
    Or.inr ⟨ascii "8080", by decide, by decide, by decide⟩
  exact origin_form_iff words.1 words.2.1 words.2.2 (by decide)
    ⟨ascii "a?b=c", by decide, by decide⟩ first named (by decide)
    (by decide)

/-- A request for `good` whose query names another host, and what follows its request line. -/
def urlInQuery : SockReader := ⟨ascii "GET /x?u=http://evil/ HTTP/1.0\r\nHost: good\r\n\r\n", []⟩

@[inherit_doc urlInQuery]
def urlInQueryBlock : SockReader := ⟨ascii "Host: good\r\n\r\n", []⟩

/-- It is sent to the host in its query. -/
theorem origin_form_diverted :
    urlInQuery.readLine =
        some (requestText (ascii "GET") (ascii "/x?u=http://evil/") (ascii "HTTP/1.0"),
          urlInQueryBlock) ∧
      (HTTPHeader.parse ⟨[]⟩ urlInQueryBlock).1 = ⟨[(ascii "Host", ascii "good")]⟩ ∧
      (HTTPRequest.parse urlInQuery).map (fun parsed => parsed.1.target) =
        some ⟨ascii "evil", 80, ascii "/"⟩ :=
  ⟨by decide +kernel, by decide +kernel, by decide +kernel⟩

/-! ## Absolute form -/

/-- A host as an absolute target spells it. -/
def HostText (host : Text) : Prop :=
  ∀ char ∈ host, char ∉ [slash, HTTPHeader.colon, 63, 35] ∧ isspace char = false

/-- The path of an absolute target. -/
def PathText (path : Text) : Prop :=
  (path = [] ∨ path.head? = some slash) ∧ ∀ char ∈ path, isspace char = false

/-- `http://authority path`. -/
def absoluteURL (authority path : Text) : Text := ascii "http://" ++ (authority ++ path)

/-- The path that is asked for: an empty one stands for the root. -/
def requestedPath (path : Text) : Text := if path = [] then [slash] else path

/-- A property of the host and of the digits of the port holds throughout the authority. -/
theorem NamesHost.all {authority host : Text} {port : ℕ} (named : NamesHost authority host port)
    {good : UInt8 → Prop} (inHost : ∀ char ∈ host, good char) (colon : good HTTPHeader.colon)
    (digit : ∀ char, isdigit char = true → good char) : ∀ char ∈ authority, good char := by
  rcases named with ⟨rfl, _⟩ | ⟨digits, rfl, number, _⟩
  · exact inHost
  · intro char inside
    rcases List.mem_append.mp inside with before | behind
    · exact inHost char before
    · rcases List.mem_cons.mp behind with rfl | inDigits
      · exact colon
      · exact digit char ((isNumber_iff.mp number).2 char inDigits)

/-- The URL of an absolute target is a word. -/
theorem isWord_absoluteURL {authority host path : Text} {port : ℕ} (hostText : HostText host)
    (named : NamesHost authority host port) (pathText : PathText path) :
    IsWord (absoluteURL authority path) := by
  have scheme : ∀ char ∈ ascii "http://", isspace char = false := by
    simp [ascii, isspace]
  refine ⟨by simp [absoluteURL, ascii], fun char inside => ?_⟩
  rcases List.mem_append.mp inside with before | behind
  · exact scheme char before
  · rcases List.mem_append.mp behind with inAuthority | inPath
    · exact named.all (fun char inHost => (hostText char inHost).2) rfl
        (fun char digit => isspace_digit digit) char inAuthority
    · exact pathText.2 char inPath

/-- The separator of an absolute target is found behind its scheme. -/
theorem find_scheme (rest : Text) : find (ascii "://") (ascii "http://" ++ rest) = some 4 := by
  rw [show ascii "://" = [58, 47, 47] by decide,
    show ascii "http://" = [104, 116, 116, 112, 58, 47, 47] by decide]
  simp [find]

/-- An absolute target is cut into its authority and its path. -/
theorem parseURL_absoluteURL {authority path : Text} (noSlash : slash ∉ authority)
    (rooted : path = [] ∨ path.head? = some slash) (t : RequestTarget) :
    parseURL (absoluteURL authority path) t =
      ⟨(splitHost authority).1, (splitHost authority).2, requestedPath path⟩ := by
  have behind : (absoluteURL authority path).drop (4 + 3) = authority ++ path :=
    List.drop_left' (by decide)
  rw [parseURL, absoluteURL, find_scheme]
  simp only
  rw [← absoluteURL, behind, parseAuthority]
  cases path with
  | nil =>
      have kept : ∀ char ∈ authority, decide (char ≠ slash) = true := fun char inside =>
        decide_eq_true fun equal => noSlash (equal ▸ inside)
      rw [List.append_nil, List.takeWhile_eq_self_iff.mpr kept, if_neg noSlash]
      rfl
  | cons first others =>
      obtain rfl : first = slash := by simpa using rooted
      obtain ⟨taken, dropped⟩ := cut_at noSlash others
      rw [taken, dropped, if_pos (by simp)]
      rfl

/-- The target of a request in absolute form: a `Host` field steps in for an empty host. -/
theorem target_of_absoluteURL {authority host path : Text} {port : ℕ} (hostText : HostText host)
    (named : NamesHost authority host port) (pathText : PathText path) (method protocol : Text)
    (rest : SockReader) :
    ({ HTTPRequest.initial with
        method, url := absoluteURL authority path, protocol }.parseRest rest).1.target =
      if host = [] ∧ (HTTPHeader.parse ⟨[]⟩ rest).1.has (ascii "Host") then
        ⟨(splitHost ((HTTPHeader.parse ⟨[]⟩ rest).1.get (ascii "Host"))).1,
          (splitHost ((HTTPHeader.parse ⟨[]⟩ rest).1.get (ascii "Host"))).2, requestedPath path⟩
      else
        ⟨host, min (2 ^ 63 - 1) port % 2 ^ 16, requestedPath path⟩ := by
  have free : HTTPHeader.colon ∉ host := fun inside => (hostText _ inside).1 (by simp)
  have noSlash : slash ∉ authority := by
    have apart : ∀ char ∈ authority, char ≠ slash := by
      refine named.all (fun char inHost equal => ?_) (by decide) fun char digit equal => ?_
      · exact (hostText char inHost).1 (by simp [equal])
      · rw [equal] at digit
        exact absurd digit (by decide)
    exact fun inside => apart slash inside rfl
  simp only [HTTPRequest.parseRest, parseURL_absoluteURL noSlash pathText.1,
    splitHost_of_namesHost free named]
  rfl

/-- A request in absolute form goes to the host and port of its URL, or is refused for a port that
does not fit, just when the port fits and no `Host` field steps in for an empty host. -/
theorem absolute_form_iff {reader rest : SockReader} {method protocol authority host path : Text}
    {port : ℕ} (method_word : IsWord method) (protocol_word : IsWord protocol)
    (hostText : HostText host) (named : NamesHost authority host port) (pathText : PathText path)
    (read : reader.readLine =
      some (requestText method (absoluteURL authority path) protocol, rest)) :
    ((∃ req after, HTTPRequest.parse reader = some (req, after) ∧
          req.target = ⟨host, port, requestedPath path⟩) ∨
        (2 ^ 16 ≤ port ∧ HTTPRequest.parse reader = none)) ↔
      port < 2 ^ 16 ∧ (host = [] →
        ∀ value, (HTTPHeader.parse ⟨[]⟩ rest).1.FirstField (ascii "Host") value →
          splitHost value = ([], port)) := by
  have parsed := HTTPRequest.parse_of_requestText method_word
    (isWord_absoluteURL hostText named pathText) protocol_word read
  have target := target_of_absoluteURL hostText named pathText method protocol rest
  have reached : ((∃ req after, HTTPRequest.parse reader = some (req, after) ∧
        req.target = ⟨host, port, requestedPath path⟩) ∨
      (2 ^ 16 ≤ port ∧ HTTPRequest.parse reader = none)) ↔
      ({ HTTPRequest.initial with
        method, url := absoluteURL authority path, protocol }.parseRest rest).1.target =
          ⟨host, port, requestedPath path⟩ := by
    rw [parsed]
    constructor
    · rintro (⟨req, after, same, toHost⟩ | ⟨_, refused⟩)
      · obtain rfl : _ = req := congrArg Prod.fst (Option.some.inj same)
        exact toHost
      · cases refused
    · exact fun toHost => Or.inl ⟨_, _, rfl, toHost⟩
  rw [reached, target]
  by_cases overridden : host = [] ∧ (HTTPHeader.parse ⟨[]⟩ rest).1.has (ascii "Host") = true
  · obtain ⟨rfl, present⟩ := overridden
    obtain ⟨value, first⟩ := HTTPHeader.exists_firstField present
    rw [if_pos ⟨rfl, present⟩, first.get.2]
    constructor
    · intro same
      obtain ⟨sameHost, samePort, _⟩ := RequestTarget.mk.inj same
      refine ⟨samePort ▸ splitHost_port_lt value, fun _ other also => ?_⟩
      rw [← also.get.2, first.get.2]
      exact Prod.ext sameHost samePort
    · rintro ⟨_, clear⟩
      rw [clear rfl value first]
  · rw [if_neg overridden]
    constructor
    · intro same
      refine ⟨(port_fits_iff port).mp (RequestTarget.mk.inj same).2.1, fun empty value first => ?_⟩
      exact absurd ⟨empty, first.get.1⟩ overridden
    · rintro ⟨fits, _⟩
      rw [(port_fits_iff port).mpr fits]

/-- A request in absolute form whose path holds every separator, and what follows its request
line. -/
def absoluteClient : SockReader :=
  ⟨ascii "GET http://h:8080/p:1?u=http://x/ HTTP/1.0\r\nHost: other\r\n\r\n", []⟩

@[inherit_doc absoluteClient]
def absoluteBlock : SockReader := ⟨ascii "Host: other\r\n\r\n", []⟩

theorem absolute_form_iff_separators :
    ((∃ req after, HTTPRequest.parse absoluteClient = some (req, after) ∧
          req.target = ⟨ascii "h", 8080, requestedPath (ascii "/p:1?u=http://x/")⟩) ∨
        (2 ^ 16 ≤ 8080 ∧ HTTPRequest.parse absoluteClient = none)) ↔
      8080 < 2 ^ 16 ∧ (ascii "h" = [] →
        ∀ value, (HTTPHeader.parse ⟨[]⟩ absoluteBlock).1.FirstField (ascii "Host") value →
          splitHost value = ([], 8080)) := by
  have words : IsWord (ascii "GET") ∧ IsWord (ascii "HTTP/1.0") := by
    unfold IsWord
    decide +kernel
  have host : HostText (ascii "h") := by
    unfold HostText
    decide +kernel
  have path : PathText (ascii "/p:1?u=http://x/") := by
    unfold PathText
    decide +kernel
  have named : NamesHost (ascii "h:8080") (ascii "h") 8080 :=
    Or.inr ⟨ascii "8080", by decide, by decide, by decide⟩
  exact absolute_form_iff words.1 words.2 host named path (by decide)

/-- A request for port 65616. -/
def widePort : SockReader := ⟨ascii "GET http://h:65616/ HTTP/1.0\r\n\r\n", []⟩

/-- It is accepted, and sent to port 80. -/
theorem absolute_form_truncated :
    widePort.readLine = some (requestText (ascii "GET") (absoluteURL (ascii "h:65616") (ascii "/"))
        (ascii "HTTP/1.0"), ⟨ascii "\r\n", []⟩) ∧
      digitsValue (ascii "65616") = 65616 ∧
      (HTTPRequest.parse widePort).map (fun parsed => parsed.1.target) =
        some ⟨ascii "h", 80, ascii "/"⟩ :=
  ⟨by decide, by decide, by decide⟩

end Proxy
end Syscore
