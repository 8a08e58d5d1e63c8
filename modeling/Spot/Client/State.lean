import Spot.Client.Exchange
import Spot.General.Pool

/-!
# The state of a client

What the threads of a client share of its cards, handlers and packet connections, and the calls that
start threads.  `clientSystem` puts them together: a client is a pool of programs on that state.
-/

namespace Spot

/-- A packet connection: what is queued on its channel, and whether it has not been dropped. -/
structure PacketConn where
  name : Text
  queue : List (Bytes × Str) := []
  live : Bool := true

/-- What the threads share; `received` lists what the packet connections have yielded. -/
structure Shared (B : Bottlers) where
  cache : AList (fun _ : Bytes => B.Card) := ∅
  handlers : AList (fun _ : Text => Handler) := ∅
  conns : List PacketConn := []
  received : List (ℕ × Bytes × Str) := []

variable {B : Bottlers}

namespace Shared

/-- `set_idcard_cache`, which empties a cache that has grown too large. -/
def setCache (s : Shared B) (h : Bytes) (card : B.Card) : Shared B :=
  let cache := if s.cache.entries.length > 1024 then ∅ else s.cache
  { s with cache := cache.insert h card }

/-- The answer to a question, when the outside would answer `a`. -/
def answer (s : Shared B) : (q : Ask B) → Reply B q → Reply B q
  | .cached h, _ => s.cache.lookup h
  | .getHandler name, _ => s.handlers.lookup name
  | _, a => a

/-- What a question does to the state. -/
def effect (s : Shared B) : Ask B → Shared B
  | .insert h card => { s with cache := s.cache.insert h card }
  | .setCache h card => s.setCache h card
  | .refresh => { s with cache := ∅ }
  | .deliver chan payload sender =>
    { s with conns := s.conns.modify chan fun c =>
        if c.live then { c with queue := c.queue ++ [(payload, sender)] } else c }
  | _ => s

/-- What the questions of a trace do, one after the other. -/
def replay (s : Shared B) (tr : Trace B) : Shared B := tr.foldl (fun s e => s.effect e.1) s

theorem replay_append (s : Shared B) (tr tr' : Trace B) :
    s.replay (tr ++ tr') = (s.replay tr).replay tr' :=
  List.foldl_append ..

end Shared

/-! ## Calls -/

/-- How a program of the client ends. -/
inductive Done (B : Bottlers)
  | card (h : Bytes) (r : Result B.Card)
  | cardFor (rcv : Str) (r : Result B.Card)
  | reply (target : Str) (r : Result Bytes)
  | sent (r : Result Unit)
  | routed

/-- What happens outside of the programs: calls of the client's functions, the arrival of messages,
and what is done with handlers and packet connections. -/
inductive Call
  | getIdcard (h : Bytes)
  | getIdcardForRecipient (rcv : Str)
  | query (target : Str) (body : Bytes)
  | sendTo (target : Str) (payload : Bytes) (sender : Str)
  | incoming
  | setHandler (name : Text) (f : Option ℕ)
  | listenPacket (name : Text)
  | recv (chan : ℕ)
  | dropConn (chan : ℕ)

/-- Registers a handler, or removes one. -/
def Shared.setHandler (s : Shared B) (name : Text) : Option ℕ → Shared B
  | some f => { s with handlers := s.handlers.insert name (.user f) }
  | none => { s with handlers := s.handlers.erase name }

/-- Makes a packet connection. -/
def Shared.listenPacket (s : Shared B) (name : Text) : Shared B :=
  { s with
    handlers := s.handlers.insert name (.packet s.conns.length)
    conns := s.conns ++ [{ name }] }

/-- Takes the next packet from a connection. -/
def Shared.recv (s : Shared B) (chan : ℕ) : Option (Shared B) :=
  s.conns[chan]?.bind fun c =>
    match c.live, c.queue with
    | true, p :: queue =>
      some { s with
        conns := s.conns.set chan { c with queue }
        received := s.received ++ [(chan, p)] }
    | _, _ => none

/-- Drops a packet connection, with the handler under its name. -/
def Shared.dropConn (s : Shared B) (chan : ℕ) : Option (Shared B) :=
  s.conns[chan]?.map fun c =>
    { s with
      handlers := s.handlers.erase c.name
      conns := s.conns.set chan { c with live := false } }

/-- What a call does to the state, apart from the programs it starts. -/
def Shared.after (s : Shared B) : Call → Option (Shared B)
  | .setHandler name f => some (s.setHandler name f)
  | .listenPacket name => some (s.listenPacket name)
  | .recv chan => s.recv chan
  | .dropConn chan => s.dropConn chan
  | .getIdcard _ | .getIdcardForRecipient _ | .query _ _ | .sendTo _ _ _ | .incoming => some s

/-- The programs that a call starts. -/
def callPrograms (t : Platform) (acct : Account B) : Call → List (Action B (Done B))
  | .getIdcard h => [Done.card h <$> (getIdcard t acct h).run]
  | .getIdcardForRecipient rcv => [Done.cardFor rcv <$> (getIdcardForRecipient t acct rcv).run]
  | .query target body => [Done.reply target <$> (query t acct target body).run]
  | .sendTo target payload sender =>
    [Done.sent <$> (sendToWithFrom t acct target payload sender).run]
  | .incoming => [(fun _ => Done.routed) <$> incoming t acct]
  | .setHandler _ _ | .listenPacket _ | .recv _ | .dropConn _ => []

theorem Shared.recv_eq_some {s s' : Shared B} {chan : ℕ} (h : s.recv chan = some s') :
    ∃ c p queue, s.conns[chan]? = some c ∧ c.queue = p :: queue ∧
      s' = { s with
        conns := s.conns.set chan { c with queue }
        received := s.received ++ [(chan, p)] } := by
  obtain ⟨c, hc, h⟩ := Option.bind_eq_some_iff.1 h
  split at h
  · rename_i p queue _ hqueue
    exact ⟨c, p, queue, hc, hqueue, (Option.some.inj h).symm⟩
  · cases h

theorem Shared.dropConn_eq_some {s s' : Shared B} {chan : ℕ} (h : s.dropConn chan = some s') :
    ∃ c, s.conns[chan]? = some c ∧
      s' = { s with
        handlers := s.handlers.erase c.name
        conns := s.conns.set chan { c with live := false } } := by
  obtain ⟨c, hc, rfl⟩ := Option.map_eq_some_iff.1 h
  exact ⟨c, hc, rfl⟩

/-- A client: its programs on their shared state. -/
def clientSystem (t : Platform) (acct : Account B) : System (Shared B) Call (Reply B) (Done B) where
  act s c := (s.after c).map (·, callPrograms t acct c)
  answer := Shared.answer
  effect s q _ := s.effect q

theorem clientSystem_act_eq_some {t : Platform} {acct : Account B} {s s' : Shared B} {c : Call}
    {ps : List (Action B (Done B))} (h : (clientSystem t acct).act s c = some (s', ps)) :
    s.after c = some s' ∧ ps = callPrograms t acct c := by
  obtain ⟨s'', hs, h⟩ := Option.map_eq_some_iff.1 h
  obtain ⟨rfl, rfl⟩ := Prod.mk.inj h
  exact ⟨hs, rfl⟩

/-- The states of a client. -/
abbrev ClientState (B : Bottlers) : Type := Pool (Shared B) (Reply B) (Done B)

/-- What can happen to a client. -/
abbrev ClientEvent (B : Bottlers) : Type := Pool.Event Call (Reply B)

end Spot
