import Syscore.NewsAggregator.Model
import Syscore.Proxy.Target

/-!
# The links of a feed

`resolve` makes an absolute URL of the link of an item, and `fetchURL` asks the server in that URL.
A relative link stays on the server of its feed just when it holds no `://`.
-/

namespace Syscore
namespace NewsAggregator

open Proxy (slash absoluteURL NamesHost)
open Proxy.HTTPHeader (colon)

/-! ## Resolving and fetching -/

/-- `path.substr(0, path.find_last_of('/') + 1)`. -/
def directory (path : Text) : Text := (path.reverse.dropWhile (· ≠ slash)).reverse

/-- `resolve`. -/
def resolve (base link : Text) : Text :=
  if (find (ascii "://") link).isSome then
    link
  else
    let b := parseHttpURL base
    let origin := ascii "http://" ++ b.server
    if link.head? = some slash then origin ++ link else origin ++ directory b.path ++ link

/-- The first check of `fetchURL`: a scheme that is not `http`. -/
def refusesScheme (url : Text) : Bool :=
  !(ascii "http://").isPrefixOf url && (find (ascii "://") url).isSome

/-- `fetchURL` before it connects: the server, and the request to send there. -/
def fetchRequest (url : Text) : Option (URL × Text) :=
  if refusesScheme url then
    none
  else
    let u := parseHttpURL url
    if u.host = [] then
      none
    else
      some (u, ascii "GET " ++ u.path ++ ascii " HTTP/1.0\r\n" ++
        ascii "Host: " ++ u.host ++ ascii "\r\n" ++
        ascii "User-Agent: stnewsaggregator/1.0\r\n" ++
        ascii "Connection: close\r\n\r\n")

/-- The directory of a path ends at its last slash. -/
theorem directory_append {dir file : Text} (ends : dir.getLast? = some slash)
    (noSlash : slash ∉ file) : directory (dir ++ file) = dir := by
  obtain ⟨front, rfl⟩ := List.getLast?_eq_some_iff.mp ends
  have free : slash ∉ file.reverse := mt List.mem_reverse.mp noSlash
  have shape : (front ++ [slash] ++ file).reverse = file.reverse ++ slash :: front.reverse := by
    simp
  rw [directory, shape, (cut_at free front.reverse).2]
  simp

/-! ## Absolute URLs -/

/-- Behind a scheme, a URL is cut as the proxy cuts a target. -/
theorem parseHttpURL_eq {url : Text} {scheme : ℕ} (found : find (ascii "://") url = some scheme)
    (t : Proxy.RequestTarget) :
    parseHttpURL url =
      { host := (Proxy.parseURL url t).host
        port := (Proxy.parseURL url t).port
        path := (Proxy.parseURL url t).path } := by
  simp only [parseHttpURL, Proxy.parseURL, found]
  rfl

/-- An authority with a host and a port that fits has no slash unless the host has one. -/
theorem slash_notMem_of_namesHost {authority host : Text} {port : ℕ} (noSlash : slash ∉ host)
    (named : NamesHost authority host port) : slash ∉ authority := by
  have apart : ∀ char ∈ authority, char ≠ slash := by
    refine named.all (fun char inHost equal => noSlash (equal ▸ inHost)) (by decide) ?_
    intro char digit equal
    rw [equal] at digit
    exact absurd digit (by decide)
  exact fun inside => apart slash inside rfl

/-- An absolute URL is cut into its host, its port and its path. -/
theorem parseHttpURL_absoluteURL {authority host path : Text} {port : ℕ} (noSlash : slash ∉ host)
    (noColon : colon ∉ host) (named : NamesHost authority host port) (fits : port < 2 ^ 16)
    (rooted : path.head? = some slash) :
    parseHttpURL (absoluteURL authority path) = { host, port, path } := by
  have split : Proxy.splitHost authority = (host, port) := by
    rw [Proxy.splitHost_of_namesHost noColon named, (Proxy.port_fits_iff port).mpr fits]
  have nonempty : path ≠ [] := by
    rintro rfl
    cases rooted
  have found : find (ascii "://") (absoluteURL authority path) = some 4 := Proxy.find_scheme _
  rw [parseHttpURL_eq found { host := [], port := 0, path := [] },
    Proxy.parseURL_absoluteURL (slash_notMem_of_namesHost noSlash named) (Or.inr rooted), split,
    Proxy.requestedPath, if_neg nonempty]

/-- `server` names its host and port. -/
theorem namesHost_server (u : URL) : NamesHost u.server u.host u.port := by
  obtain ⟨digits, nonempty, number⟩ := decimal_spec u.port
  refine Or.inr ⟨decimal u.port, ?_, isNumber_iff.mpr ⟨nonempty, digits⟩, number⟩
  simp only [URL.server, List.append_assoc]
  rfl

/-- No absolute URL is refused for its scheme. -/
theorem refusesScheme_absoluteURL (authority path : Text) :
    refusesScheme (absoluteURL authority path) = false := by
  have scheme : (ascii "http://").isPrefixOf (absoluteURL authority path) = true :=
    List.isPrefixOf_iff_prefix.mpr (List.prefix_append _ _)
  rw [refusesScheme, scheme]
  rfl

/-! ## Relative links -/

/-- A link without a scheme: no colon before the first slash, question mark or hash. -/
def NoScheme (link : Text) : Prop :=
  colon ∉ link.takeWhile fun char => char ∉ [slash, 63, 35]

instance : DecidablePred NoScheme := fun _ => inferInstanceAs (Decidable (¬ _))

/-- The path that a relative link stands for in a directory. -/
def linkPath (dir link : Text) : Text := if link.head? = some slash then link else dir ++ link

theorem isPrefixOf_of_noScheme {link : Text} (noScheme : NoScheme link) :
    (ascii "http://").isPrefixOf link = false := by
  rw [Bool.eq_false_iff]
  intro scheme
  obtain ⟨rest, rfl⟩ := List.isPrefixOf_iff_prefix.mp scheme
  rw [NoScheme, show ascii "http://" = [104, 116, 116, 112, 58, 47, 47] by decide +kernel]
    at noScheme
  exact noScheme (by simp [slash, colon])

/-- A relative link without `://` is resolved to an absolute URL on the server of the feed. -/
theorem resolve_absoluteURL {authority host dir file link : Text} {port : ℕ}
    (noSlash : slash ∉ host) (noColon : colon ∉ host) (named : NamesHost authority host port)
    (fits : port < 2 ^ 16) (rooted : dir.head? = some slash) (ends : dir.getLast? = some slash)
    (inFile : slash ∉ file) (noSeparator : ¬ ascii "://" <:+: link) :
    resolve (absoluteURL authority (dir ++ file)) link =
      absoluteURL (URL.server { host, port, path := dir ++ file }) (linkPath dir link) := by
  have rootedPath : (dir ++ file).head? = some slash := by
    rw [List.head?_append, rooted]
    rfl
  have feed := parseHttpURL_absoluteURL noSlash noColon named fits rootedPath
  rw [resolve, find_eq_none_iff.mpr noSeparator, feed, if_neg (by simp)]
  simp only [directory_append ends inFile, linkPath, absoluteURL, List.append_assoc]
  split <;> rfl

/-- The URL of such a link is on the server of the feed, and is not refused. -/
theorem resolve_stays {authority host dir file link : Text} {port : ℕ} (noSlash : slash ∉ host)
    (noColon : colon ∉ host) (named : NamesHost authority host port) (fits : port < 2 ^ 16)
    (rooted : dir.head? = some slash) (ends : dir.getLast? = some slash) (inFile : slash ∉ file)
    (noSeparator : ¬ ascii "://" <:+: link) :
    parseHttpURL (resolve (absoluteURL authority (dir ++ file)) link) =
        { host, port, path := linkPath dir link } ∧
      refusesScheme (resolve (absoluteURL authority (dir ++ file)) link) = false := by
  have rootedLink : (linkPath dir link).head? = some slash := by
    rw [linkPath]
    split
    · assumption
    · rw [List.head?_append, rooted]
      rfl
  rw [resolve_absoluteURL noSlash noColon named fits rooted ends inFile noSeparator]
  exact ⟨parseHttpURL_absoluteURL noSlash noColon (namesHost_server _) fits rootedLink,
    refusesScheme_absoluteURL _ _⟩

/-- It asks that server for the path the link stands for. -/
theorem fetchRequest_resolve {authority host dir file link : Text} {port : ℕ}
    (nonempty : host ≠ []) (noSlash : slash ∉ host) (noColon : colon ∉ host)
    (named : NamesHost authority host port) (fits : port < 2 ^ 16)
    (rooted : dir.head? = some slash) (ends : dir.getLast? = some slash) (inFile : slash ∉ file)
    (noSeparator : ¬ ascii "://" <:+: link) :
    ∃ header, fetchRequest (resolve (absoluteURL authority (dir ++ file)) link) =
      some ({ host, port, path := linkPath dir link },
        ascii "GET " ++ linkPath dir link ++ ascii " HTTP/1.0\r\n" ++ header) := by
  obtain ⟨parsed, accepted⟩ :=
    resolve_stays noSlash noColon named fits rooted ends inFile noSeparator
  rw [fetchRequest, accepted, parsed, if_neg Bool.false_ne_true]
  simp only [if_neg nonempty, List.append_assoc]
  exact ⟨_, rfl⟩

/-- A relative link is fetched from the server of its feed, under the path it stands for there, just
when it holds no `://`. -/
theorem resolve_stays_iff {authority host dir file link : Text} {port : ℕ}
    (noSlash : slash ∉ host) (noColon : colon ∉ host) (named : NamesHost authority host port)
    (fits : port < 2 ^ 16) (rooted : dir.head? = some slash) (ends : dir.getLast? = some slash)
    (inFile : slash ∉ file) (noScheme : NoScheme link) :
    (parseHttpURL (resolve (absoluteURL authority (dir ++ file)) link) =
          { host, port, path := linkPath dir link } ∧
        refusesScheme (resolve (absoluteURL authority (dir ++ file)) link) = false) ↔
      ¬ ascii "://" <:+: link := by
  constructor
  · rintro ⟨_, accepted⟩ separator
    have found : (find (ascii "://") link).isSome = true := by
      rw [Option.isSome_iff_ne_none]
      exact fun none => find_eq_none_iff.mp none separator
    rw [resolve, if_pos found, refusesScheme, isPrefixOf_of_noScheme noScheme, found] at accepted
    cases accepted
  · exact resolve_stays noSlash noColon named fits rooted ends inFile

/-- A link whose query mentions a mail address and a port. -/
theorem resolve_stays_iff_query :
    (parseHttpURL (resolve (absoluteURL (ascii "h:8080") (ascii "/news/" ++ ascii "feed.xml"))
            (ascii "go?to=a:b/")) =
          { host := ascii "h", port := 8080,
            path := linkPath (ascii "/news/") (ascii "go?to=a:b/") } ∧
        refusesScheme (resolve (absoluteURL (ascii "h:8080") (ascii "/news/" ++ ascii "feed.xml"))
          (ascii "go?to=a:b/")) = false) ↔
      ¬ ascii "://" <:+: ascii "go?to=a:b/" := by
  have named : NamesHost (ascii "h:8080") (ascii "h") 8080 :=
    Or.inr ⟨ascii "8080", by decide +kernel, by decide +kernel, by decide +kernel⟩
  exact resolve_stays_iff (by decide +kernel) (by decide +kernel) named (by decide)
    (by decide +kernel) (by decide +kernel) (by decide +kernel) (by decide +kernel)

deriving instance DecidableEq for URL

/-- A link whose query holds a URL is taken for an absolute one, and refused. -/
theorem resolve_leaves_server :
    parseHttpURL (absoluteURL (ascii "h") (ascii "/news/" ++ ascii "feed.xml")) =
        { host := ascii "h", port := 80, path := ascii "/news/feed.xml" } ∧
      NoScheme (ascii "go?u=http://x/y") ∧
      parseHttpURL (resolve (absoluteURL (ascii "h") (ascii "/news/" ++ ascii "feed.xml"))
          (ascii "go?u=http://x/y")) =
        { host := ascii "x", port := 80, path := ascii "/y" } ∧
      refusesScheme (resolve (absoluteURL (ascii "h") (ascii "/news/" ++ ascii "feed.xml"))
          (ascii "go?u=http://x/y")) = true :=
  ⟨by decide +kernel, by decide +kernel, by decide +kernel, by decide +kernel⟩

end NewsAggregator
end Syscore
