import PromptCode.Py.IpAddress

/-!
# The client's address

`client_ip.py`: the key of the rate limits.  Behind a trusted proxy it is the rightmost hop of
`X-Forwarded-For` that is no trusted proxy.  A header may be sent in several lines, which are
one list; the framework's `headers.get` returns the first of them.
-/

namespace PromptCode

open Py

/-- `_parse_ip` -/
def parseIp (value : Str) : Option IpAddress := IpAddress.parse (strip value)

/-- `_is_trusted` -/
def isTrusted (ip : IpAddress) (networks : List IpNetwork) : Bool :=
  networks.any fun network => ip.isIn network

/-- A request: the host of the connection, and the header lines with lower-case names. -/
structure IpRequest where
  client : Option Str
  headers : List (Str × Str)

/-- `request.headers.get(name, "")`: the first line. -/
def IpRequest.header (request : IpRequest) (name : Str) : Str :=
  (request.headers.lookup name).getD []

def forwardedFor : Str := lit "x-forwarded-for"

def realIp : Str := lit "x-real-ip"

/-- The hops of a comma-separated list. -/
def hops (value : Str) : List Str := split 44 value

/-- `client_ip_from_request` -/
def clientIpFromRequest (networks : List IpNetwork) (request : IpRequest) : Str :=
  let peerHost := request.client.getD []
  match parseIp peerHost with
  | none => if peerHost = [] then lit "unknown" else peerHost
  | some peerIp =>
      if isTrusted peerIp networks = false then peerIp.text
      else
        let forwarded := (hops (request.header forwardedFor)).filterMap parseIp
        match forwarded.reverse.find? fun ip => !isTrusted ip networks with
        | some ip => ip.text
        | none =>
            match parseIp (request.header realIp) with
            | some ip => if isTrusted ip networks = false then ip.text else peerIp.text
            | none => peerIp.text

/-! ## The rightmost untrusted hop -/

/-- The rightmost hop that is an address and not a trusted one. -/
def RightmostUntrusted (networks : List IpNetwork) (items : List Str) (ip : IpAddress) : Prop :=
  ∃ before item after, items = before ++ item :: after ∧ parseIp item = some ip ∧
    isTrusted ip networks = false ∧
    ∀ other ∈ after, ∀ hop, parseIp other = some hop → isTrusted hop networks = true

section

variable {networks : List IpNetwork} {items rest : List Str} {ip other : IpAddress}

theorem rightmostUntrusted_nil : ¬ RightmostUntrusted networks [] ip := by
  rintro ⟨before, item, after, h, -⟩
  exact absurd h (by simp)

theorem rightmostUntrusted_concat {item : Str} :
    RightmostUntrusted networks (items ++ [item]) ip ↔
      (parseIp item = some ip ∧ isTrusted ip networks = false) ∨
        ((∀ hop, parseIp item = some hop → isTrusted hop networks = true) ∧
          RightmostUntrusted networks items ip) := by
  constructor
  · rintro ⟨before, hop, after, hsplit, hparse, huntrusted, hafter⟩
    rcases List.eq_nil_or_concat after with rfl | ⟨init, last, rfl⟩
    · obtain ⟨rfl, heq⟩ := List.append_inj' hsplit rfl
      obtain rfl := List.singleton_inj.mp heq
      exact Or.inl ⟨hparse, huntrusted⟩
    · rw [List.concat_eq_append] at hsplit hafter
      rw [← List.cons_append, ← List.append_assoc] at hsplit
      obtain ⟨rfl, heq⟩ := List.append_inj' hsplit rfl
      obtain rfl := List.singleton_inj.mp heq
      exact Or.inr ⟨hafter item (by simp), before, hop, init, rfl, hparse, huntrusted,
        fun o ho => hafter o (by simp [ho])⟩
  · rintro (⟨hparse, huntrusted⟩ | ⟨hlast, before, hop, after, rfl, hparse, huntrusted, hafter⟩)
    · exact ⟨items, item, [], rfl, hparse, huntrusted, by simp⟩
    · refine ⟨before, hop, after ++ [item], by simp, hparse, huntrusted, fun o ho => ?_⟩
      rcases List.mem_append.mp ho with ho | ho
      · exact hafter o ho
      · exact List.mem_singleton.mp ho ▸ hlast

/-- The search from the right finds it. -/
theorem find?_reverse_eq_some_iff :
    ((items.filterMap parseIp).reverse.find? fun ip => !isTrusted ip networks) = some ip ↔
      RightmostUntrusted networks items ip := by
  induction items using List.reverseRecOn with
  | nil => exact iff_of_false (by simp) rightmostUntrusted_nil
  | append_singleton items item ih =>
      rw [rightmostUntrusted_concat, List.filterMap_append, List.reverse_append, ← ih]
      cases hparse : parseIp item with
      | none => simp [hparse]
      | some hop =>
          cases htrusted : isTrusted hop networks with
          | true =>
              have hne : ¬ (hop = ip ∧ isTrusted ip networks = false) := by
                rintro ⟨rfl, hfalse⟩
                rw [htrusted] at hfalse
                exact absurd hfalse (by simp)
              simp [hparse, htrusted, hne]
          | false =>
              simp only [List.filterMap_cons, hparse, List.filterMap_nil, List.reverse_singleton,
                List.singleton_append, List.find?_cons, htrusted, Bool.not_false, Option.some.injEq,
                forall_eq', Bool.false_eq_true, false_and, or_false]
              exact ⟨fun h => h ▸ ⟨rfl, htrusted⟩, fun h => h.1⟩

theorem RightmostUntrusted.unique (h : RightmostUntrusted networks items ip)
    (h' : RightmostUntrusted networks items other) : ip = other := by
  rw [← find?_reverse_eq_some_iff] at h h'
  exact Option.some.inj (h.symm.trans h')

/-- What comes later in the list decides. -/
theorem rightmostUntrusted_append :
    RightmostUntrusted networks (items ++ rest) ip ↔
      RightmostUntrusted networks rest ip ∨
        ((∀ hop, ¬ RightmostUntrusted networks rest hop) ∧
          RightmostUntrusted networks items ip) := by
  simp only [← find?_reverse_eq_some_iff, List.filterMap_append, List.reverse_append,
    List.find?_append]
  cases ((rest.filterMap parseIp).reverse.find? fun ip => !isTrusted ip networks) with
  | none => simp
  | some hop => simp

end

/-! ## Header lines -/

/-- The lines of `X-Forwarded-For`. -/
def IpRequest.forwardedLines (request : IpRequest) : List Str :=
  (request.headers.filter fun line => line.1 = forwardedFor).map Prod.snd

/-- The header as HTTP reads it: one list of all lines. -/
def IpRequest.forwardedList (request : IpRequest) : Str := join 44 request.forwardedLines

theorem lookup_eq_head? (headers : List (Str × Str)) (name : Str) :
    headers.lookup name = ((headers.filter fun line => line.1 = name).map Prod.snd).head? := by
  induction headers with
  | nil => rfl
  | cons line headers ih =>
      rw [List.lookup_cons]
      by_cases h : name = line.1
      · simp [h]
      · rw [beq_eq_false_iff_ne.mpr h, ih]
        simp [Ne.symm h]

theorem header_forwardedFor (request : IpRequest) :
    request.header forwardedFor = request.forwardedLines.head?.getD [] := by
  rw [IpRequest.header, lookup_eq_head?]
  rfl

theorem hops_join (first : Str) (later : List Str) :
    hops (join 44 (first :: later)) = hops first ++ later.flatMap hops := by
  induction later generalizing first with
  | nil => simp
  | cons line later ih =>
      rw [join_cons_cons, hops, split_append_cons_self, List.flatMap_cons]
      exact congrArg _ (ih line)

/-! ## The address law -/

section

variable (networks : List IpNetwork) (request : IpRequest)

/-- The connection is from a trusted proxy. -/
def FromProxy (peer : IpAddress) : Prop :=
  parseIp (request.client.getD []) = some peer ∧ isTrusted peer networks = true

/-- Behind a trusted proxy the rightmost untrusted hop of the whole list is the client,
whatever stands before it; from elsewhere the headers do not count. -/
structure NamesClient : Prop where
  trusted : ∀ peer ip, FromProxy networks request peer →
    RightmostUntrusted networks (hops request.forwardedList) ip →
      clientIpFromRequest networks request = ip.text
  untrusted : (∀ peer, ¬ FromProxy networks request peer) → ∀ headers,
    clientIpFromRequest networks ⟨request.client, headers⟩ =
      clientIpFromRequest networks request

/-- The address that a header line shows, or in its place `X-Real-IP` or the proxy. -/
def Shown (peer : IpAddress) (line : Str) (ip : IpAddress) : Prop :=
  RightmostUntrusted networks (hops line) ip ∨
    (∀ hop, ¬ RightmostUntrusted networks (hops line) hop) ∧
      (RightmostUntrusted networks [request.header realIp] ip ∨
        (∀ hop, ¬ RightmostUntrusted networks [request.header realIp] hop) ∧ ip = peer)

/-- No later line has an untrusted hop, or the last one there is also the address that the
first line shows. -/
def FirstLineSuffices : Prop :=
  ∀ peer first later ip, FromProxy networks request peer →
    request.forwardedLines = first :: later →
    RightmostUntrusted networks (later.flatMap hops) ip →
      ∃ shown, Shown networks request peer first shown ∧ shown.text = ip.text

variable {networks request} {peer ip : IpAddress}

theorem rightmostUntrusted_single {item : Str} :
    RightmostUntrusted networks [item] ip ↔
      parseIp item = some ip ∧ isTrusted ip networks = false := by
  rw [← List.nil_append [item], rightmostUntrusted_concat]
  simp [rightmostUntrusted_nil]

theorem clientIp_of_proxy (hpeer : FromProxy networks request peer)
    (hshown : Shown networks request peer (request.forwardedLines.head?.getD []) ip) :
    clientIpFromRequest networks request = ip.text := by
  unfold clientIpFromRequest
  dsimp only
  rw [hpeer.1]
  dsimp only
  rw [if_neg (by simp [hpeer.2]), header_forwardedFor]
  rcases hshown with hfirst | ⟨hnone, hreal⟩
  · rw [find?_reverse_eq_some_iff.mpr hfirst]
  · rw [Option.eq_none_iff_forall_ne_some.mpr fun hop h =>
      hnone hop (find?_reverse_eq_some_iff.mp h)]
    simp only [rightmostUntrusted_single] at hreal
    dsimp only
    rcases hreal with ⟨hparse, huntrusted⟩ | ⟨hnone, rfl⟩
    · rw [hparse]
      dsimp only
      rw [if_pos huntrusted]
    · cases hparse : parseIp (request.header realIp) with
      | none => rfl
      | some hop =>
          dsimp only
          rw [if_neg fun huntrusted => hnone hop ⟨hparse, huntrusted⟩]

theorem exists_shown (line : Str) : ∃ shown, Shown networks request peer line shown := by
  by_cases hline : ∃ hop, RightmostUntrusted networks (hops line) hop
  · obtain ⟨hop, h⟩ := hline
    exact ⟨hop, Or.inl h⟩
  · by_cases hreal : ∃ hop, RightmostUntrusted networks [request.header realIp] hop
    · obtain ⟨hop, h⟩ := hreal
      exact ⟨hop, Or.inr ⟨not_exists.mp hline, Or.inl h⟩⟩
    · exact ⟨peer, Or.inr ⟨not_exists.mp hline, Or.inr ⟨not_exists.mp hreal, rfl⟩⟩⟩

theorem clientIp_of_not_proxy (h : ∀ peer, ¬ FromProxy networks request peer)
    (headers : List (Str × Str)) :
    clientIpFromRequest networks ⟨request.client, headers⟩ =
      clientIpFromRequest networks request := by
  unfold clientIpFromRequest
  dsimp only
  cases hparse : parseIp (request.client.getD []) with
  | none => rfl
  | some peer =>
      have huntrusted : isTrusted peer networks = false := by
        rw [← Bool.not_eq_true]
        exact fun htrusted => h peer ⟨hparse, htrusted⟩
      dsimp only
      rw [if_pos huntrusted, if_pos huntrusted]

/-- The client is named rightly exactly when the first line of the header suffices. -/
theorem namesClient_iff (networks : List IpNetwork) (request : IpRequest) :
    NamesClient networks request ↔ FirstLineSuffices networks request := by
  constructor
  · intro h peer first later ip hpeer hlines hlater
    obtain ⟨shown, hshown⟩ : ∃ shown, Shown networks request peer first shown :=
      exists_shown first
    have hall : RightmostUntrusted networks (hops request.forwardedList) ip := by
      rw [IpRequest.forwardedList, hlines, hops_join]
      exact rightmostUntrusted_append.mpr (Or.inl hlater)
    refine ⟨shown, hshown, ?_⟩
    rw [← h.trusted peer ip hpeer hall]
    exact (clientIp_of_proxy hpeer (by rwa [hlines])).symm
  · intro h
    refine ⟨fun peer ip hpeer hall => ?_, fun hpeer => clientIp_of_not_proxy hpeer⟩
    cases hlines : request.forwardedLines with
    | nil =>
        rw [IpRequest.forwardedList, hlines] at hall
        exact clientIp_of_proxy hpeer (Or.inl (by rw [hlines]; exact hall))
    | cons first later =>
        rw [IpRequest.forwardedList, hlines, hops_join] at hall
        rcases rightmostUntrusted_append.mp hall with hlater | ⟨hnone, hfirst⟩
        · obtain ⟨shown, hshown, htext⟩ := h peer first later ip hpeer hlines hlater
          rw [← htext]
          exact clientIp_of_proxy hpeer (by rwa [hlines])
        · exact clientIp_of_proxy hpeer (Or.inl (by rwa [hlines]))

end

/-- A client sends a line of its own and the proxy adds a second one. -/
theorem clientIp_spoofed_by_first_line :
    let networks := [IpNetwork.v4 0x0a000000#32 8]
    let request : IpRequest := ⟨some (lit "10.0.0.1"),
      [(forwardedFor, lit "6.6.6.6"), (forwardedFor, lit "198.51.100.7")]⟩
    FromProxy networks request (.v4 0x0a000001#32) ∧
      RightmostUntrusted networks (hops request.forwardedList) (.v4 0xc6336407#32) ∧
      clientIpFromRequest networks request = lit "6.6.6.6" ∧
      (IpAddress.v4 0xc6336407#32).text = lit "198.51.100.7" := by
  refine ⟨⟨by decide +kernel, by decide +kernel⟩, ?_, by decide +kernel, by decide +kernel⟩
  exact find?_reverse_eq_some_iff.mp (by decide +kernel)

end PromptCode
