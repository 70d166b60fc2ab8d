import Syscore.Library.Forest
import Syscore.NewsAggregator.Links
import Syscore.NewsAggregator.Timing
import Syscore.NewsAggregator.Tokens

/-!
# Documents

The helpers of `xml-utils.cc` on the trees that libxml2 parses, and `fetchURL`. Both walks over a
tree give what the right nodes hold, in the order of the document; with them the index that the
queries read is a function of the documents on the network.
-/

namespace Syscore
namespace NewsAggregator

/-! ## Nodes -/

/-- The types of nodes that are told apart. -/
inductive NodeType where
  | element
  | text
  | other
  deriving DecidableEq

/-- What is read of an `xmlNode`; a null pointer is `none`. -/
structure Node where
  type : NodeType
  name : Option Text
  /-- `content`. -/
  content : Option Text
  /-- `xmlNodeGetContent(node)`. -/
  value : Option Text
  /-- `xmlGetProp(node, "href")`. -/
  href : Option Text
  deriving DecidableEq

/-- An element of this name; `xmlStrcasecmp` tells no case apart. -/
def Node.named (node : Node) (name : Text) : Bool :=
  node.type = .element && node.name.any fun own => own.map tolower = name.map tolower

/-- `nodeText`. -/
def nodeText (node : Node) : Text := node.value.getD []

/-- `childNamed`. -/
def childNamed (children : Forest Node) (name : Text) : Option Node :=
  (children.siblings.map Prod.fst).find? fun child => child.named name

/-- The item that `collectItems` makes of an element. -/
def readItem (baseURL : Text) (children : Forest Node) : RSSItem where
  title := match childNamed children (ascii "title") with
    | some t => nodeText t
    | none => []
  link := match childNamed children (ascii "link") with
    | some l => resolve baseURL (if nodeText l = [] then l.href.getD [] else nodeText l)
    | none => []

/-- `collectItems`. -/
def collectItems (baseURL : Text) : Forest Node → List RSSItem → List RSSItem
  | .nil, items => items
  | .node n children next, items =>
      let items :=
        if n.named (ascii "item") || n.named (ascii "entry") then
          let item := readItem baseURL children
          if item.link ≠ [] then items ++ [item] else items
        else
          items
      collectItems baseURL next (collectItems baseURL children items)

/-- `collectVisibleText`. -/
def collectVisibleText : Forest Node → Text → Text
  | .nil, out => out
  | .node n children next, out =>
      let out :=
        if n.type = .element ∧ n.name.isSome = true then
          if n.named (ascii "script") || n.named (ascii "style") then
            out
          else
            collectVisibleText children out
        else
          match n.type, n.content with
          | .text, some content => out ++ content ++ [32]
          | _, _ => out
      collectVisibleText next out

/-- The parsers of libxml2: the root element and what follows it, or nothing for a null document. -/
structure Parsers where
  /-- `xmlReadMemory` of a document and its URL. -/
  xmlReadMemory : Text → Text → Option (Forest Node)
  /-- `htmlReadMemory`. -/
  htmlReadMemory : Text → Option (Forest Node)

/-- `parseRSSItems`. -/
def parseRSSItems (parsers : Parsers) (xml baseURL : Text) : List RSSItem :=
  match parsers.xmlReadMemory xml baseURL with
  | some root => collectItems baseURL root []
  | none => []

/-- `tokenizeHTML`. -/
def tokenizeHTML (parsers : Parsers) (html : Text) : List Text :=
  match parsers.htmlReadMemory html with
  | some root => tokenize (collectVisibleText root [])
  | none => []

/-! ## The walks -/

/-- What an element gives to `collectItems`. -/
def itemOf (baseURL : Text) (n : Node) (children : Forest Node) : Option RSSItem :=
  if n.named (ascii "item") || n.named (ascii "entry") then
    (childNamed children (ascii "link")).map fun _ => readItem baseURL children
  else
    none

/-- The elements that `collectVisibleText` enters. -/
def Node.shows (n : Node) : Bool :=
  n.type = .element && n.name.isSome && !(n.named (ascii "script") || n.named (ascii "style"))

/-- What a node gives to `collectVisibleText`. -/
def textOf (n : Node) (_ : Forest Node) : Option Text :=
  if n.type = .text then n.content else none

/-- A link is never resolved to the empty string. -/
theorem resolve_ne_nil (base link : Text) : resolve base link ≠ [] := by
  intro empty
  rw [resolve] at empty
  split at empty
  · rename_i separator
    rw [empty] at separator
    exact absurd separator (by decide +kernel)
  · have scheme : ascii "http://" ≠ [] := by decide +kernel
    split at empty
    · exact scheme (List.append_eq_nil_iff.mp (List.append_eq_nil_iff.mp empty).1).1
    · rw [List.append_assoc] at empty
      exact scheme (List.append_eq_nil_iff.mp (List.append_eq_nil_iff.mp empty).1).1

/-- An item is kept just when its element has a link. -/
theorem readItem_link_iff (baseURL : Text) (children : Forest Node) :
    (readItem baseURL children).link ≠ [] ↔
      (childNamed children (ascii "link")).isSome = true := by
  rw [readItem]
  cases childNamed children (ascii "link") with
  | none => exact iff_of_false (fun kept => kept rfl) Bool.false_ne_true
  | some l => exact iff_of_true (resolve_ne_nil _ _) rfl

theorem collectItems_eq (baseURL : Text) (root : Forest Node) (items : List RSSItem) :
    collectItems baseURL root items =
      root.walk (fun _ => true) (itemOf baseURL) (fun items item => items ++ [item]) items := by
  induction root generalizing items with
  | nil => rfl
  | node n children next first rest =>
      rw [collectItems, Forest.walk, rest, first, if_pos rfl]
      congr 2
      rw [itemOf]
      split
      · have kept := readItem_link_iff baseURL children
        cases link : childNamed children (ascii "link") with
        | none =>
            rw [link] at kept
            exact if_neg (mt kept.mp Bool.false_ne_true)
        | some l =>
            rw [link] at kept
            exact if_pos (kept.mpr rfl)
      · rfl

theorem collectVisibleText_eq (root : Forest Node) (out : Text) :
    collectVisibleText root out =
      root.walk Node.shows textOf (fun out content => out ++ (content ++ [32])) out := by
  induction root generalizing out with
  | nil => rfl
  | node n children next first rest =>
      rw [collectVisibleText, Forest.walk, rest]
      congr 1
      by_cases element : n.type = .element ∧ n.name.isSome = true
      · have silent : textOf n children = none := by
          rw [textOf, element.1]
          rfl
        rw [if_pos element, silent, Node.shows, decide_eq_true element.1, element.2, ← first]
        cases n.named (ascii "script") || n.named (ascii "style") <;> rfl
      · have closed : n.shows = false := by
          rw [Node.shows, Bool.and_eq_false_iff, Bool.and_eq_false_iff, decide_eq_false_iff_not,
            ← Bool.not_eq_true]
          exact .inl (not_and_or.mp element)
        rw [if_neg element, closed, textOf]
        cases n.type <;> cases n.content <;> simp

/-- A text that ends in a blank is a text of its own for the splitting loop. -/
theorem tokenize_append (text rest : Text) :
    tokenize (text ++ [32] ++ rest) = tokenize text ++ tokenize rest := by
  rw [List.append_assoc, List.singleton_append, tokenize_eq, tokenize_eq, tokenize_eq,
    runs_append_cons text rest (by decide), List.map_append, List.filter_append]

/-- The tokens of texts, each followed by a blank, are those of the texts. -/
theorem tokenize_flatMap (texts : List Text) :
    tokenize (texts.flatMap fun content => content ++ [32]) = texts.flatMap tokenize := by
  induction texts with
  | nil => rfl
  | cons content texts ih => rw [List.flatMap_cons, tokenize_append, ih, List.flatMap_cons]

/-! ## What the documents hold -/

/-- The item of an element `item` or `entry` with a link. -/
def ItemAt (baseURL : Text) (root : Forest Node) (address : List ℕ) (item : RSSItem) : Prop :=
  ∃ n children, root.get? address = some (n, children) ∧
    (n.named (ascii "item") = true ∨ n.named (ascii "entry") = true) ∧
      (childNamed children (ascii "link")).isSome = true ∧ item = readItem baseURL children

/-- A text node all of whose ancestors are elements, and none of them a script or a style. -/
def TextAt (root : Forest Node) (address : List ℕ) (content : Text) : Prop :=
  (∃ n children, root.get? address = some (n, children) ∧ n.type = .text ∧
    n.content = some content) ∧ Forest.Entered Node.shows root address

theorem mem_items_iff {baseURL : Text} {root : Forest Node} {address : List ℕ} {item : RSSItem} :
    (address, item) ∈ root.listing (fun _ => true) (itemOf baseURL) ↔
      ItemAt baseURL root address item := by
  rw [Forest.mem_listing_iff, ItemAt]
  refine exists_congr fun n => exists_congr fun children => and_congr_right fun here => ?_
  have entered : Forest.Entered (fun _ => true) root address := by
    intro depth positive below
    obtain ⟨above, found⟩ := Forest.get?_take here positive below.le
    rw [found]
    rfl
  rw [and_iff_left entered, itemOf, ← Bool.or_eq_true]
  split
  · rename_i named
    rw [and_iff_right named, Option.map_eq_some_iff, Option.isSome_iff_exists]
    exact ⟨fun ⟨l, link, same⟩ => ⟨⟨l, link⟩, same.symm⟩,
      fun ⟨⟨l, link⟩, same⟩ => ⟨l, link, same.symm⟩⟩
  · rename_i other
    exact iff_of_false (fun none => by cases none) (mt And.left other)

theorem mem_texts_iff {root : Forest Node} {address : List ℕ} {content : Text} :
    (address, content) ∈ root.listing Node.shows textOf ↔ TextAt root address content := by
  rw [Forest.mem_listing_iff, TextAt, ← exists_and_right]
  refine exists_congr fun n => ?_
  rw [← exists_and_right]
  refine exists_congr fun children => ?_
  rw [and_assoc, textOf]
  split
  · rename_i text
    rw [and_iff_right text]
  · rename_i other
    exact iff_of_false (fun met => by cases met.2.1) (fun met => other met.2.1.1)

theorem parseRSSItems_eq {parsers : Parsers} {xml baseURL : Text} {root : Forest Node}
    (parsed : parsers.xmlReadMemory xml baseURL = some root) :
    parseRSSItems parsers xml baseURL =
      (root.listing (fun _ => true) (itemOf baseURL)).map Prod.snd := by
  rw [parseRSSItems, parsed]
  change collectItems baseURL root [] = _
  rw [collectItems_eq, Forest.walk_eq, ← List.flatMap_eq_foldl, List.flatMap_singleton']

theorem tokenizeHTML_eq {parsers : Parsers} {html : Text} {root : Forest Node}
    (parsed : parsers.htmlReadMemory html = some root) :
    tokenizeHTML parsers html =
      (root.listing Node.shows textOf).flatMap fun place => tokenize place.2 := by
  rw [tokenizeHTML, parsed]
  change tokenize (collectVisibleText root []) = _
  rw [collectVisibleText_eq, Forest.walk_eq, ← List.flatMap_eq_foldl, tokenize_flatMap,
    List.flatMap_map]

/-- A feed gives its items, and a page the alphanumeric runs of the texts that it shows, both in the
order of the document. -/
theorem documents_in_order (parsers : Parsers) (document baseURL : Text) :
    (∃ listed : List (List ℕ × RSSItem), listed.Pairwise (fun a b => a.1 < b.1) ∧
      (∀ address item, (address, item) ∈ listed ↔
        ∃ root, parsers.xmlReadMemory document baseURL = some root ∧
          ItemAt baseURL root address item) ∧
      parseRSSItems parsers document baseURL = listed.map Prod.snd) ∧
    ∃ shown : List (List ℕ × Text), shown.Pairwise (fun a b => a.1 < b.1) ∧
      (∀ address content, (address, content) ∈ shown ↔
        ∃ root, parsers.htmlReadMemory document = some root ∧ TextAt root address content) ∧
      tokenizeHTML parsers document = shown.flatMap fun place =>
        ((runs isalnum place.2).map (List.map tolower)).filter fun token =>
          2 ≤ token.length ∧ token.length ≤ 32 := by
  constructor
  · cases parsed : parsers.xmlReadMemory document baseURL with
    | none =>
        refine ⟨[], List.Pairwise.nil, fun address item => ?_, by rw [parseRSSItems, parsed]; rfl⟩
        exact iff_of_false List.not_mem_nil fun ⟨_, same, _⟩ => by cases same
    | some root =>
        refine ⟨root.listing (fun _ => true) (itemOf baseURL), Forest.pairwise_listing root,
          fun address item => ?_, parseRSSItems_eq parsed⟩
        rw [mem_items_iff]
        exact ⟨fun here => ⟨root, rfl, here⟩, fun ⟨_, same, here⟩ => Option.some.inj same ▸ here⟩
  · cases parsed : parsers.htmlReadMemory document with
    | none =>
        refine ⟨[], List.Pairwise.nil, fun address item => ?_, by rw [tokenizeHTML, parsed]; rfl⟩
        exact iff_of_false List.not_mem_nil fun ⟨_, same, _⟩ => by cases same
    | some root =>
        refine ⟨root.listing Node.shows textOf, Forest.pairwise_listing root,
          fun address item => ?_, ?_⟩
        · rw [mem_texts_iff]
          exact ⟨fun here => ⟨root, rfl, here⟩, fun ⟨_, same, here⟩ => Option.some.inj same ▸ here⟩
        · rw [tokenizeHTML_eq parsed]
          exact List.flatMap_congr fun place _ => tokenize_eq place.2

/-! ## The network -/

/-- What a server sends until it closes, in the answer to a request; nothing where it cannot be
reached or the request cannot be written. -/
abbrev Network : Type := Text → ℕ → Text → Option (List Proxy.Chunk)

/-- `fetchURL`: the body, where it returns true. -/
def fetchURL (network : Network) (url : Text) : Option Text :=
  match fetchRequest url with
  | none => none
  | some (u, req) =>
      match network u.host u.port req with
      | none => none
      | some incoming =>
          let resp := (Proxy.HTTPResponse.initial.ingestFrom ⟨[], incoming⟩).1
          if resp.code = 200 then some resp.body else none

/-- What the downloads give. -/
def web (network : Network) (parsers : Parsers) : Web where
  feed url := (fetchURL network url).map fun xml => parseRSSItems parsers xml url
  page url := (fetchURL network url).map (tokenizeHTML parsers)

/-- `main` in front of the pools: the feeds of the list, unless it cannot be fetched. -/
def feedList (network : Network) (parsers : Parsers) (feedListURL : Text) : Option (List RSSItem) :=
  (fetchURL network feedListURL).map fun indexXML => parseRSSItems parsers indexXML feedListURL

section Network

variable (network : Network) (parsers : Parsers)

/-- The document behind a URL has the item. -/
def Lists (url : Text) (item : RSSItem) : Prop :=
  ∃ xml root address, fetchURL network url = some xml ∧
    parsers.xmlReadMemory xml url = some root ∧ ItemAt url root address item

/-- The page behind a URL shows the word so many times, up to case. -/
def Shows (url q : Text) (count : ℕ) : Prop :=
  ∃ html root, fetchURL network url = some html ∧ parsers.htmlReadMemory html = some root ∧
    ∃ places : Finset (List ℕ × Text),
      (∀ address content, (address, content) ∈ places ↔ TextAt root address content) ∧
        count = ∑ place ∈ places, ((runs isalnum place.2).map (List.map tolower)).count q

end Network

variable {network : Network} {parsers : Parsers}

theorem mem_parseRSSItems_iff {xml url : Text} {item : RSSItem} :
    item ∈ parseRSSItems parsers xml url ↔ ∃ root address,
      parsers.xmlReadMemory xml url = some root ∧ ItemAt url root address item := by
  cases parsed : parsers.xmlReadMemory xml url with
  | none =>
      rw [parseRSSItems, parsed]
      exact iff_of_false List.not_mem_nil fun ⟨_, _, same, _⟩ => by cases same
  | some root =>
      rw [parseRSSItems_eq parsed, List.mem_map]
      constructor
      · rintro ⟨⟨address, item⟩, listed, rfl⟩
        exact ⟨root, address, rfl, mem_items_iff.mp listed⟩
      · rintro ⟨_, address, same, here⟩
        exact ⟨(address, item), mem_items_iff.mpr (Option.some.inj same ▸ here), rfl⟩

/-- The tokens of a text are its runs of a permitted size. -/
theorem count_tokenize (text q : Text) : (tokenize text).count q =
    if 2 ≤ q.length ∧ q.length ≤ 32 then ((runs isalnum text).map (List.map tolower)).count q
      else 0 := by
  rw [tokenize_eq]
  split
  · rename_i size
    exact List.count_filter (decide_eq_true size)
  · rename_i size
    refine List.count_eq_zero.mpr fun inside => size ?_
    exact of_decide_eq_true (List.mem_filter.mp inside).2

section Page

variable {url html q : Text} {root : Forest Node}
  (fetched : fetchURL network url = some html) (parsed : parsers.htmlReadMemory html = some root)

include parsed in
theorem count_tokenizeHTML : (tokenizeHTML parsers html).count q =
    if 2 ≤ q.length ∧ q.length ≤ 32 then
      ((root.listing Node.shows textOf).map fun place =>
        ((runs isalnum place.2).map (List.map tolower)).count q).sum
    else
      0 := by
  rw [tokenizeHTML_eq parsed, List.count_flatMap]
  have each : (List.count q ∘ fun place : List ℕ × Text => tokenize place.2) = fun place =>
      if 2 ≤ q.length ∧ q.length ≤ 32 then
        ((runs isalnum place.2).map (List.map tolower)).count q else 0 :=
    funext fun place => count_tokenize place.2 q
  rw [each]
  split
  · rfl
  · refine List.sum_eq_zero fun number inside => ?_
    obtain ⟨_, _, same⟩ := List.mem_map.mp inside
    exact same.symm

include fetched parsed in
theorem shows_iff {count : ℕ} : Shows network parsers url q count ↔
    count = ((root.listing Node.shows textOf).map fun place =>
      ((runs isalnum place.2).map (List.map tolower)).count q).sum := by
  have distinct : (root.listing Node.shows textOf).Nodup :=
    (Forest.pairwise_listing root).imp fun less same => less.ne (congrArg Prod.fst same)
  rw [← List.sum_toFinset _ distinct]
  constructor
  · rintro ⟨other, root', same, same', places, all, rfl⟩
    obtain rfl := Option.some.inj (same.symm.trans fetched)
    obtain rfl := Option.some.inj (same'.symm.trans parsed)
    refine Finset.sum_congr (Finset.ext fun place => ?_) fun _ _ => rfl
    rw [all place.1 place.2, List.mem_toFinset, ← mem_texts_iff]
  · rintro rfl
    refine ⟨html, root, fetched, parsed, _, fun address content => ?_, rfl⟩
    rw [List.mem_toFinset, mem_texts_iff]

end Page

/-- A page counts a token as often as it shows it. -/
theorem expected_web_iff {url q : Text} {count : ℕ} :
    expected (web network parsers) url q = some count ↔
      2 ≤ q.length ∧ q.length ≤ 32 ∧ 0 < count ∧ Shows network parsers url q count := by
  have page : (web network parsers).page url =
      (fetchURL network url).map (tokenizeHTML parsers) := rfl
  rw [expected, page]
  cases fetched : fetchURL network url with
  | none =>
      refine iff_of_false (fun none => by cases none) ?_
      rintro ⟨-, -, -, html, _, same, _⟩
      cases same.symm.trans fetched
  | some html =>
      cases parsed : parsers.htmlReadMemory html with
      | none =>
          refine iff_of_false ?_ ?_
          · rw [Option.map_some, tokenizeHTML, parsed]
            exact fun none => by cases none
          · rintro ⟨-, -, -, _, root, same, same', _⟩
            obtain rfl := Option.some.inj (same.symm.trans fetched)
            cases same'.symm.trans parsed
      | some root =>
          rw [Option.map_some, shows_iff fetched parsed]
          change (if q ∈ tokenizeHTML parsers html then some ((tokenizeHTML parsers html).count q)
            else none) = some count ↔ _
          rw [Option.ite_none_right_eq_some, Option.some_inj, ← List.count_pos_iff,
            count_tokenizeHTML parsed]
          by_cases size : 2 ≤ q.length ∧ q.length ≤ 32
          · rw [if_pos size, ← and_assoc, and_iff_right size, eq_comm]
            exact and_congr_left fun same => by rw [same]
          · rw [if_neg size]
            exact iff_of_false (fun met => lt_irrefl 0 met.1) fun met => size ⟨met.1, met.2.1⟩

theorem lists_iff {url : Text} {item : RSSItem} : Lists network parsers url item ↔
    ∃ items, (web network parsers).feed url = some items ∧ item ∈ items := by
  have feed : (web network parsers).feed url =
      (fetchURL network url).map fun xml => parseRSSItems parsers xml url := rfl
  rw [feed]
  constructor
  · rintro ⟨xml, root, address, fetched, parsed, here⟩
    rw [fetched]
    exact ⟨_, rfl, mem_parseRSSItems_iff.mpr ⟨root, address, parsed, here⟩⟩
  · rintro ⟨items, found, inside⟩
    obtain ⟨xml, fetched, rfl⟩ := Option.map_eq_some_iff.mp found
    obtain ⟨root, address, parsed, here⟩ := mem_parseRSSItems_iff.mp inside
    exact ⟨xml, root, address, fetched, parsed, here⟩

/-- The offered items are those of the feeds in the list. -/
theorem offered_web_iff {feedListURL : Text} {feeds : List RSSItem}
    (fetched : feedList network parsers feedListURL = some feeds) {item : RSSItem} :
    Offered (web network parsers) feeds item ↔ ∃ feed,
      Lists network parsers feedListURL feed ∧ Lists network parsers feed.link item := by
  refine exists_congr fun feed => ?_
  have known : feed ∈ feeds ↔ Lists network parsers feedListURL feed := by
    rw [lists_iff]
    constructor
    · exact fun inside => ⟨feeds, fetched, inside⟩
    · rintro ⟨items, found, inside⟩
      exact Option.some.inj (found.symm.trans fetched) ▸ inside
  rw [known, ← lists_iff]

/-! ## Runs -/

/-- In every run from a list of feeds, the ranking of a word that the queries see has one entry for
each link which some feed of the list offers and whose page shows the word: with the number of times
that it does, and with a title under which the link is offered. -/
theorem ranking_counts_pages {feedListURL : Text} {feeds : List RSSItem}
    (fetched : feedList network parsers feedListURL = some feeds) {state : State}
    (reach : (machine (web network parsers) feeds).Reachable .free state)
    (joined : state.main = .joined) (std : StdSort (ℕ × ℕ)) (q : Text) :
    (ranking std state.shared q).Pairwise (fun first second => ranksBefore second first = false) ∧
      ((ranking std state.shared q).map fun record => record.2.url).Nodup ∧
      (∀ record ∈ ranking std state.shared q, ∃ feed,
        Lists network parsers feedListURL feed ∧
          Lists network parsers feed.link { title := record.2.title, link := record.2.url }) ∧
      ∀ url count, (∃ record ∈ ranking std state.shared q, record.2.url = url ∧ record.1 = count) ↔
        (∃ feed item, Lists network parsers feedListURL feed ∧
          Lists network parsers feed.link item ∧ item.link = url) ∧
        2 ≤ q.length ∧ q.length ≤ 32 ∧ 0 < count ∧ Shows network parsers url q count := by
  have sound := sound_of_reachable reach
  have perm := ranking_perm std state.shared q
  refine ⟨ranking_sorted std state.shared q, ?_, fun record listed => ?_, fun url count => ?_⟩
  · have distinct : ((state.shared.records q).map fun record => record.2.url).Nodup :=
      (nodup_records sound q).map_on fun a left b right same =>
        record_eq_of_url sound joined left right same
    exact (perm.map _).nodup_iff.mpr distinct
  · exact (offered_web_iff fetched).mp (matches_of_record sound joined (perm.subset listed)).2
  · have offered : (∃ item, Offered (web network parsers) feeds item ∧ item.link = url) ↔
        ∃ feed item, Lists network parsers feedListURL feed ∧
          Lists network parsers feed.link item ∧ item.link = url := by
      constructor
      · rintro ⟨item, here, same⟩
        obtain ⟨feed, known, listed⟩ := (offered_web_iff fetched).mp here
        exact ⟨feed, item, known, listed, same⟩
      · rintro ⟨feed, item, known, listed, same⟩
        exact ⟨item, (offered_web_iff fetched).mpr ⟨feed, known, listed⟩, same⟩
    rw [← offered, ← expected_web_iff]
    constructor
    · rintro ⟨record, listed, rfl, rfl⟩
      exact (matches_of_record sound joined (perm.subset listed)).1
    · intro matched
      obtain ⟨record, listed, same⟩ := exists_record sound joined matched
      exact ⟨record, perm.symm.subset listed, same⟩

/-- An element around one text, which is no text node in a script. -/
def elementAround (name content : Text) (next : Forest Node) : Forest Node :=
  let inner : Node :=
    if name = ascii "script" then
      ⟨.other, none, some content, some content, none⟩
    else
      ⟨.text, some (ascii "text"), some content, some content, none⟩
  .node ⟨.element, some name, none, some content, none⟩ (.node inner .nil .nil) next

/-- An element around others. -/
def elementOver (name content : Text) (children : Forest Node) : Forest Node :=
  .node ⟨.element, some name, none, some content, none⟩ children .nil

/-- A list of one feed. -/
def siteList : Text := ascii "<rss><item><title>A</title><link>/a.xml</link></item></rss>"

/-- A feed with one item. -/
def siteFeed : Text := ascii "<rss><item><link>a.html</link></item></rss>"

/-- The page of the item. -/
def sitePage : Text := ascii "<p>To be</p><script>to()</script><b>to</b>"

/-- The answer with a document. -/
def siteAnswer (document : Text) : List Proxy.Chunk :=
  let bytes := ascii "HTTP/1.0 200 OK\r\n\r\n" ++ document
  if fits : bytes ≠ [] ∧ bytes.length ≤ 8192 then [⟨bytes, fits⟩] else []

/-- A site with the three documents. -/
def site : Network := fun _ _ req =>
  if (ascii "GET /feeds.xml ").isPrefixOf req then
    some (siteAnswer siteList)
  else if (ascii "GET /a.xml ").isPrefixOf req then
    some (siteAnswer siteFeed)
  else if (ascii "GET /a.html ").isPrefixOf req then
    some (siteAnswer sitePage)
  else
    none

/-- Their trees. -/
def siteParsers : Parsers where
  xmlReadMemory xml _ :=
    if xml = siteList then
      some (elementOver (ascii "rss") (ascii "A/a.xml")
        (elementOver (ascii "item") (ascii "A/a.xml")
          (elementAround (ascii "title") (ascii "A")
            (elementAround (ascii "link") (ascii "/a.xml") .nil))))
    else if xml = siteFeed then
      some (elementOver (ascii "rss") (ascii "a.html") (elementOver (ascii "item") (ascii "a.html")
        (elementAround (ascii "link") (ascii "a.html") .nil)))
    else
      none
  htmlReadMemory html :=
    if html = sitePage then
      some (elementOver (ascii "html") (ascii "To beto()to")
        (elementOver (ascii "body") (ascii "To beto()to")
          (elementAround (ascii "p") (ascii "To be") (elementAround (ascii "script") (ascii "to()")
            (elementAround (ascii "b") (ascii "to") .nil)))))
    else
      none

def siteFeeds : List RSSItem := [{ title := ascii "A", link := ascii "http://h:80/a.xml" }]

/-- The feed is done before its article begins. -/
def siteRun : List Thread :=
  List.flatten
    [List.replicate 6 .main, List.replicate 8 .feedDispatcher, List.replicate 10 (.feedWorker 0),
      List.replicate 8 .articleDispatcher, List.replicate 6 (.feedWorker 0),
      List.replicate 3 .main, List.replicate 13 (.articleWorker 0), List.replicate 2 .main]

theorem feedList_site :
    feedList site siteParsers (ascii "http://h/feeds.xml") = some siteFeeds := by
  decide +kernel

theorem siteRun_finishes : ((machine (web site siteParsers) siteFeeds).exec .free (start siteFeeds)
    siteRun).isSome = true := by
  decide +kernel

/-- What `main` finds after `siteRun`. -/
def siteEnd : State :=
  ((machine (web site siteParsers) siteFeeds).exec .free (start siteFeeds) siteRun).get
    siteRun_finishes

theorem ranking_counts_pages_site :
    ranking (insertionSort _) siteEnd.shared (ascii "to") =
        [(2, { title := [], url := ascii "http://h:80/a.html" })] ∧
      Shows site siteParsers (ascii "http://h:80/a.html") (ascii "to") 2 := by
  have reach : (machine (web site siteParsers) siteFeeds).Reachable .free siteEnd :=
    .of_exec rfl siteRun siteRun_finishes
  have hits : ranking (insertionSort _) siteEnd.shared (ascii "to") =
      [(2, { title := [], url := ascii "http://h:80/a.html" })] := by
    decide +kernel
  obtain ⟨-, -, -, counts⟩ := ranking_counts_pages feedList_site reach (by decide +kernel)
    (insertionSort _) (ascii "to")
  have listed : (2, { title := [], url := ascii "http://h:80/a.html" }) ∈
      ranking (insertionSort _) siteEnd.shared (ascii "to") := by
    rw [hits]
    exact List.mem_singleton_self _
  exact ⟨hits, ((counts _ 2).mp ⟨_, listed, rfl, rfl⟩).2.2.2.2⟩

end NewsAggregator
end Syscore
