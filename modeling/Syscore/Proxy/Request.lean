import Syscore.Proxy.Relay

/-!
# What a parsed request looks like

The values that `HTTPRequest::parse` can produce: its tokens hold no white space, the host holds no
colon, the port is printed from 16 bits, and the header fields are stable.
-/

namespace Syscore

namespace IStream

/-- A sentry is good only on a good stream. -/
theorem good_of_sentry {stream : IStream} (good : stream.sentry.good = true) :
    stream.good = true := by
  rw [sentry] at good
  split at good
  · assumption
  · simp [IStream.good] at good

/-- A sentry that is not good sets `failbit`. -/
theorem sentry_fail {stream : IStream} (bad : stream.sentry.good = false) :
    stream.sentry.fail = true := by
  rw [sentry] at bad ⊢
  by_cases good : stream.good = true
  · rw [if_pos good] at bad ⊢
    simpa [IStream.good] using bad
  · rw [if_neg good]

/-- An extraction that leaves the stream without `failbit` yielded a word without white space. -/
theorem extractString_of_not_fail {stream : IStream} {old : Text}
    (succeeded : (stream.extractString old).2.fail = false) :
    ((stream.extractString old).1 ≠ [] ∧
      ∀ char ∈ (stream.extractString old).1, isspace char = false) ∧ stream.fail = false := by
  rw [extractString] at succeeded ⊢
  cases good : stream.sentry.good with
  | true =>
      obtain ⟨first, others, shape, head⟩ := sentry_rest good
      have before := good_of_sentry good
      simp only [IStream.good, Bool.and_eq_true, Bool.not_eq_true'] at before
      simp only [if_true, shape]
      exact ⟨⟨by simp [head], fun char inside => by simpa using List.mem_takeWhile_imp inside⟩,
        before.2⟩
  | false =>
      simp only [good, Bool.false_eq_true, if_false] at succeeded
      rw [sentry_fail good] at succeeded
      cases succeeded

end IStream

namespace Proxy

theorem colon_notMem_splitHost (authority : Text) :
    HTTPHeader.colon ∉ (splitHost authority).1 := by
  rw [splitHost]
  split
  · intro inside
    simpa using List.mem_takeWhile_imp inside
  · rename_i free
    exact free

theorem splitHost_port_lt (authority : Text) : (splitHost authority).2 < 2 ^ 16 := by
  rw [splitHost]
  split
  · simp only
    have nonneg := Int.emod_nonneg
      (atoi ((authority.dropWhile (· ≠ HTTPHeader.colon)).drop 1)) (show (2 ^ 16 : ℤ) ≠ 0 by decide)
    have small := Int.emod_lt_of_pos
      (atoi ((authority.dropWhile (· ≠ HTTPHeader.colon)).drop 1)) (show (0 : ℤ) < 2 ^ 16 by decide)
    omega
  · exact show 80 < 2 ^ 16 by decide

/-- What is true of a target whatever the URL and the `Host` field were. -/
structure RequestTarget.WellFormed (t : RequestTarget) : Prop where
  host_colon : HTTPHeader.colon ∉ t.host
  port_lt : t.port < 2 ^ 16
  path_noSpace : ∀ char ∈ t.path, isspace char = false

theorem wellFormed_parseAuthority {rest : Text} (noSpace : ∀ char ∈ rest, isspace char = false) :
    (parseAuthority rest).WellFormed := by
  refine ⟨colon_notMem_splitHost _, splitHost_port_lt _, fun char inside => ?_⟩
  rw [parseAuthority] at inside
  simp only at inside
  split at inside
  · exact noSpace char ((List.dropWhile_sublist _).subset inside)
  · rw [List.mem_singleton.mp inside]
    rfl

theorem wellFormed_parseURL {url : Text} (noSpace : ∀ char ∈ url, isspace char = false)
    {t : RequestTarget} (before : t.WellFormed) : (parseURL url t).WellFormed := by
  rw [parseURL]
  split
  · exact wellFormed_parseAuthority fun char inside => noSpace char (List.mem_of_mem_drop inside)
  · split
    · exact wellFormed_parseAuthority fun char inside => noSpace char (List.mem_of_mem_drop inside)
    · refine ⟨before.host_colon, before.port_lt, fun char inside => ?_⟩
      simp only at inside
      split at inside
      · rw [List.mem_singleton.mp inside]
        rfl
      · exact noSpace char inside

namespace HTTPRequest

/-- What is true of every parsed request. -/
structure WellFormed (req : HTTPRequest) : Prop where
  method_noSpace : ∀ char ∈ req.method, isspace char = false
  protocol_noSpace : ∀ char ∈ req.protocol, isspace char = false
  target_wellFormed : req.target.WellFormed
  fields_stable : ∀ h ∈ req.headers.headers, HTTPHeader.StableField h

/-- The request line yields words without white space. -/
theorem parseRequestLine_noSpace {req : HTTPRequest} {line : Text}
    (three : (req.parseRequestLine line).1 = true) :
    (∀ char ∈ (req.parseRequestLine line).2.method, isspace char = false) ∧
      (∀ char ∈ (req.parseRequestLine line).2.url, isspace char = false) ∧
        ∀ char ∈ (req.parseRequestLine line).2.protocol, isspace char = false := by
  have third := (Bool.not_eq_true' _).mp three
  obtain ⟨protocol, third⟩ := IStream.extractString_of_not_fail third
  obtain ⟨url, second⟩ := IStream.extractString_of_not_fail third
  obtain ⟨method, _⟩ := IStream.extractString_of_not_fail second
  exact ⟨method.2, url.2, protocol.2⟩

theorem wellFormed_target_initial : initial.target.WellFormed where
  host_colon := List.not_mem_nil
  port_lt := by decide
  path_noSpace := by decide +kernel

/-- A parsed request is what its request line and the rest of the stream made of it. -/
theorem parse_inv {reader rest : SockReader} {req : HTTPRequest}
    (parsed : HTTPRequest.parse reader = some (req, rest)) :
    ∃ line next, (initial.parseRequestLine line).1 = true ∧
      req = ((initial.parseRequestLine line).2.parseRest next).1 := by
  rw [parse_eq_some_iff, parseInto] at parsed
  split at parsed
  · cases parsed
  · rename_i line next _
    split at parsed
    · cases parsed
    · split at parsed
      · cases parsed
      · rename_i first three
        refine ⟨line, next, congrArg Prod.fst three, ?_⟩
        rw [three]
        exact (Prod.mk.inj (Prod.mk.inj parsed).1).2.symm

/-- Every request that `parse` yields is well formed. -/
theorem wellFormed_of_parse {reader rest : SockReader} {req : HTTPRequest}
    (parsed : HTTPRequest.parse reader = some (req, rest)) : req.WellFormed := by
  obtain ⟨line, next, three, rfl⟩ := parse_inv parsed
  obtain ⟨method, url, protocol⟩ := parseRequestLine_noSpace three
  have target := wellFormed_parseURL url wellFormed_target_initial
  have stable := HTTPHeader.parse_stable initial.headers next (List.forall_mem_nil _)
  refine ⟨method, protocol, ?_, stable⟩
  simp only [parseRest]
  split
  · exact ⟨colon_notMem_splitHost _, splitHost_port_lt _, target.path_noSpace⟩
  · exact target

/-- The path comes from the URL alone. -/
theorem path_of_parse {reader rest : SockReader} {req : HTTPRequest}
    (parsed : HTTPRequest.parse reader = some (req, rest)) :
    req.target.path = (parseURL req.url initial.target).path := by
  obtain ⟨line, next, _, rfl⟩ := parse_inv parsed
  simp only [parseRest]
  split <;> rfl

end HTTPRequest

end Proxy
end Syscore
