import Spot.Conn.Resolver

/-!
# Dialling a server

The connector of the websocket transport looks a host up and tries its addresses one by one.
`run_dialAll` says what a run of the loop is, and `connect_in_order` that of the connector: a
`g-dns.net` host is dialled at the addresses in its name, in their order, without asking anybody.
-/

namespace Spot

/-- What the connector asks: the system's resolver about a host and a port, or an address for a
connection, within a time. -/
inductive DialAsk
  | resolve (host : Text × UInt16)
  | connect (addr : SocketAddr) (timeout : Option ℕ)

/-- The answers, for connections of type `σ`. -/
abbrev DialReply (σ : Type) : DialAsk → Type
  | .resolve host => ToSocketAddrs host
  | .connect _ _ => Except Text σ

variable {σ : Type}

/-- The loop of `connect`, with the last error so far. -/
def dialAll (host : Text) (timeout : Option ℕ) :
    List SocketAddr → Option Text → Prog (DialReply σ) (Except Text σ)
  | [], last => .ret (.error (last.getD ("no addresses found for ".toList ++ host)))
  | addr :: addrs, _ => .ask (.connect addr timeout) fun (res : Except Text σ) =>
    match res with
    | .ok s => .ret (.ok s)
    | .error e => dialAll host timeout addrs (some e)

/-- `GdnsConnector::connect`. -/
def gdnsConnect (host : Text) (port : UInt16) (timeout : Option ℕ) :
    Prog (DialReply σ) (Except Text σ) := do
  match ← (lookupHost host port).embed DialAsk.resolve with
  | .error (.io e) => .ret (.error e)
  | .error e => .ret (.error e.display)
  | .ok addrs => dialAll host timeout addrs none

/-- The addresses were tried, and each refused with its error. -/
def refusals (timeout : Option ℕ) (fails : List (SocketAddr × Text)) :
    List (Asked (DialReply σ)) :=
  fails.map fun f => ⟨.connect f.1 timeout, .error f.2⟩

/-- The addresses were tried in order: up to one that accepted, or all of them, and then the error
is that of the last one. -/
def Dialled (host : Text) (timeout : Option ℕ) (addrs : List SocketAddr) (last : Option Text)
    (tr : List (Asked (DialReply σ))) (r : Except Text σ) : Prop :=
  (∃ fails addr s rest, addrs = fails.map Prod.fst ++ addr :: rest ∧
    tr = refusals timeout fails ++ [⟨.connect addr timeout, .ok s⟩] ∧ r = .ok s) ∨
  ∃ fails, addrs = fails.map Prod.fst ∧ tr = refusals timeout fails ∧
    r = .error (((fails.map Prod.snd).getLast?.or last).getD
      ("no addresses found for ".toList ++ host))

variable {host : Text} {port : UInt16} {timeout : Option ℕ} {addrs : List SocketAddr}
  {last : Option Text} {tr : List (Asked (DialReply σ))} {r : Except Text σ}

theorem getLast?_cons_or {α : Type} (a : α) (l : List α) (o : Option α) :
    (a :: l).getLast?.or o = l.getLast?.or (some a) := by
  cases l with
  | nil => rfl
  | cons b l => rw [List.getLast?_cons_cons, List.getLast?_cons]; rfl

theorem run_dialAll : (dialAll host timeout addrs last).Run tr r ↔
    Dialled host timeout addrs last tr r := by
  induction addrs generalizing last tr with
  | nil =>
    constructor
    · rintro ⟨rfl, rfl⟩
      exact .inr ⟨[], rfl, rfl, rfl⟩
    · rintro (⟨fails, addr, s, rest, h, -, -⟩ | ⟨fails, h, rfl, rfl⟩)
      · exact absurd h.symm (List.append_ne_nil_of_right_ne_nil _ (List.cons_ne_nil _ _))
      · obtain rfl := List.map_eq_nil_iff.1 h.symm
        exact ⟨rfl, rfl⟩
  | cons addr addrs ih =>
    constructor
    · rintro ⟨res, tr', rfl, h⟩
      cases res with
      | ok s =>
        obtain ⟨rfl, rfl⟩ := h
        exact .inl ⟨[], addr, s, addrs, rfl, rfl, rfl⟩
      | error e =>
        rcases ih.1 h with ⟨fails, addr', s, rest, rfl, rfl, rfl⟩ | ⟨fails, rfl, rfl, rfl⟩
        · exact .inl ⟨(addr, e) :: fails, addr', s, rest, rfl, rfl, rfl⟩
        · refine .inr ⟨(addr, e) :: fails, rfl, rfl, ?_⟩
          rw [List.map_cons, getLast?_cons_or]
    · rintro (⟨fails, addr', s, rest, h, rfl, rfl⟩ | ⟨fails, h, rfl, rfl⟩)
      · cases fails with
        | nil =>
          obtain ⟨rfl, rfl⟩ := List.cons_eq_cons.1 h
          exact ⟨.ok s, [], rfl, rfl, rfl⟩
        | cons f fails =>
          obtain ⟨rfl, rfl⟩ := List.cons_eq_cons.1 h
          exact ⟨.error f.2, _, rfl, ih.2 (.inl ⟨fails, addr', s, rest, rfl, rfl, rfl⟩)⟩
      · cases fails with
        | nil => cases h
        | cons f fails =>
          obtain ⟨rfl, rfl⟩ := List.cons_eq_cons.1 h
          refine ⟨.error f.2, _, rfl, ih.2 (.inr ⟨fails, rfl, rfl, ?_⟩)⟩
          rw [List.map_cons, getLast?_cons_or]

/-- What the name of a host says of its addresses, if it says any: the parts between dashes that
are addresses in base32. -/
def namedAddresses (encoded : Text) : List IpAddr :=
  (split '-' encoded).filterMap decodeBase32Ip

theorem lookupHost_named {encoded : Text} (port : UInt16)
    (h : toAsciiLowercase host = toAsciiLowercase (encoded ++ gdnsSuffix)) :
    lookupHost host port =
      if namedAddresses encoded ≠ [] then
        .ret (.ok ((namedAddresses encoded).map (SocketAddr.new port)))
      else .ask (host, port) fun found => .ret (found.mapError .io) := by
  unfold namedAddresses
  rw [lookupHost_of_suffix port h]
  by_cases hnone : (split '-' encoded).filterMap decodeBase32Ip = []
  · rw [if_neg (not_not.2 (List.map_eq_nil_iff.2 hnone)), if_neg (not_not.2 hnone)]
  · rw [if_pos (mt List.map_eq_nil_iff.1 hnone), if_pos hnone]

/-- A `g-dns.net` host is dialled at the addresses in its name, in order, until one accepts; nobody
is asked about it.  Any other host is looked up once, and dialled at the addresses found. -/
theorem connect_in_order (hr : (gdnsConnect host port timeout).Run tr r) :
    (∀ encoded, toAsciiLowercase host = toAsciiLowercase (encoded ++ gdnsSuffix) →
      namedAddresses encoded ≠ [] →
        Dialled host timeout ((namedAddresses encoded).map (SocketAddr.new port)) none tr r) ∧
    ((¬ gdnsSuffix <:+ toAsciiLowercase host ∨
        ∃ encoded, toAsciiLowercase host = toAsciiLowercase (encoded ++ gdnsSuffix) ∧
          namedAddresses encoded = []) →
      ∃ found rest, tr = ⟨.resolve (host, port), found⟩ :: rest ∧
        (∀ e, found = .error e → rest = [] ∧ r = .error e) ∧
        ∀ addrs, found = .ok addrs → Dialled host timeout addrs none rest r) := by
  unfold gdnsConnect at hr
  rw [Prog.run_bind] at hr
  obtain ⟨tr₁, res, tr₂, rfl, hembed, hr⟩ := hr
  obtain ⟨tr₀, hlookup, rfl⟩ := Prog.run_embed.1 hembed
  constructor
  · intro encoded hhost hne
    rw [lookupHost_named port hhost, if_pos hne] at hlookup
    obtain ⟨rfl, rfl⟩ := hlookup
    exact run_dialAll.1 hr
  · intro hsystem
    have hask : lookupHost host port =
        .ask (host, port) fun found => .ret (found.mapError .io) := by
      rcases hsystem with hsuffix | ⟨encoded, hhost, hnone⟩
      · have hstrip : stripSuffix gdnsSuffix (toAsciiLowercase host) = none := if_neg hsuffix
        rw [lookupHost, hstrip]
      · rw [lookupHost_named port hhost, if_neg (not_not.2 hnone)]
    rw [hask] at hlookup
    obtain ⟨found, tr', rfl, rfl, rfl⟩ := hlookup
    refine ⟨found, tr₂, rfl, fun e he => ?_, fun addrs haddrs => ?_⟩
    · rw [he] at hr
      exact ⟨hr.1, hr.2.symm⟩
    · rw [haddrs] at hr
      exact run_dialAll.1 hr

def namedHost : Text := "P4AAAAI-P4AAAAQ.G-DNS.net".toList

def loopback (n : UInt8) : SocketAddr := .new 443 (.v4 (127 ::ᵥ 0 ::ᵥ 0 ::ᵥ n ::ᵥ .nil))

/-- The first of the two addresses in the name of a host refuses. -/
def refusedRun : List (Asked (DialReply ℕ)) :=
  [⟨.connect (loopback 1) none, .error "refused".toList⟩, ⟨.connect (loopback 2) none, .ok 7⟩]

theorem connect_in_order_refusedRun :
    Dialled namedHost none [loopback 1, loopback 2] none refusedRun (.ok 7) := by
  have hhost : toAsciiLowercase namedHost =
      toAsciiLowercase ("P4AAAAI-P4AAAAQ".toList ++ gdnsSuffix) := by decide +kernel
  have hnamed : (namedAddresses "P4AAAAI-P4AAAAQ".toList).map (SocketAddr.new 443) =
      [loopback 1, loopback 2] := by decide +kernel
  have hne : namedAddresses "P4AAAAI-P4AAAAQ".toList ≠ [] := by
    intro h
    rw [h] at hnamed
    cases hnamed
  have hlookup : lookupHost namedHost 443 = .ret (.ok [loopback 1, loopback 2]) := by
    rw [lookupHost_named 443 hhost, if_pos hne, hnamed]
  have hr : (gdnsConnect namedHost 443 none).Run refusedRun (.ok 7) := by
    unfold gdnsConnect
    rw [hlookup]
    exact ⟨_, _, rfl, _, _, rfl, rfl, rfl⟩
  rw [← hnamed]
  exact (connect_in_order hr).1 _ hhost hne

end Spot
