import Spot.Client.Laws
import Spot.Client.State
import Spot.General.Mpsc
import Spot.General.Runs

/-!
# The channels of packet connections

A packet connection receives on a channel whose sender is in the handler under its name.  A message
that is routed to the handler starts a call, which keeps the handler until it returns, also when the
handler is replaced or removed meanwhile.  `Channels.step` is this for any number of connections,
calls and receivers.

* `step_move`: to each channel a step is a move of `Mpsc`;
* `packets_received`: what a connection receives is what was sent to it, in order, and
  `Error::Closed` comes only after all of it.
-/

namespace Spot

/-- A call of `run_handler`, which keeps its handler until it returns. -/
inductive HandlerCall
  | opening (h : Handler)
  | answering (h : Handler)
  | returned
  deriving DecidableEq

/-- The handler that the call keeps. -/
def HandlerCall.handler? : HandlerCall → Option Handler
  | .opening h | .answering h => some h
  | .returned => none

/-- The state of a client and the calls of its handlers, with what was sent on the channels and what
their receivers got. -/
structure Channels (B : Bottlers) where
  shared : Shared B := {}
  calls : List HandlerCall := []
  sent : List (ℕ × Bytes × Str) := []
  results : List (ℕ × Recv (Bytes × Str)) := []

/-- What can happen: what is done with handlers and packet connections, a message is routed to a
name, a call runs its handler or returns, or a packet connection receives. -/
inductive ChannelEvent
  | setHandler (name : Text) (f : Option ℕ)
  | listenPacket (name : Text)
  | dropConn (chan : ℕ)
  | route (name : Text)
  | invoke (i : ℕ) (msg : Message)
  | finish (i : ℕ)
  | recv (chan : ℕ) (timesOut : Bool)

variable {B : Bottlers}

namespace Channels

/-- Some handler that is registered, or that a call keeps, sends on the channel. -/
def hasSender (s : Channels B) (chan : ℕ) : Bool :=
  s.shared.handlers.entries.any (fun e => e.2 = .packet chan) ||
    s.calls.any (fun c => c.handler? = some (.packet chan))

/-- A handler is run on a message: that of a packet connection sends what is encrypted. -/
def invoked (s : Channels B) (h : Handler) (msg : Message) : Channels B :=
  match h with
  | .packet chan =>
    if msg.isEncrypted then
      { s with
        shared := s.shared.effect (.deliver chan msg.body msg.sender)
        sent := s.sent ++ [(chan, msg.body, msg.sender)] }
    else s
  | _ => s

/-- `recv`, which without a packet waits or ends with `Error::Timeout` while somebody can send, and
with `Error::Closed` when nobody can. -/
def recv (s : Channels B) (chan : ℕ) (timesOut : Bool) : Option (Channels B) :=
  s.shared.conns[chan]?.bind fun c =>
    if c.live then
      match c.queue with
      | p :: _ => (s.shared.recv chan).map fun shared =>
        { s with shared, results := s.results ++ [(chan, .item p)] }
      | [] =>
        if s.hasSender chan then
          if timesOut then some { s with results := s.results ++ [(chan, .timeout)] }
          else none
        else some { s with results := s.results ++ [(chan, .closed)] }
    else none

/-- One step; a packet connection is dropped once. -/
def step (s : Channels B) : ChannelEvent → Option (Channels B)
  | .setHandler name f => some { s with shared := s.shared.setHandler name f }
  | .listenPacket name => some { s with shared := s.shared.listenPacket name }
  | .dropConn chan =>
    s.shared.conns[chan]?.bind fun c =>
      if c.live then (s.shared.dropConn chan).map fun shared => { s with shared } else none
  | .route name =>
    match s.shared.handlers.lookup name with
    | some h => some { s with calls := s.calls ++ [.opening h] }
    -- logged
    | none => some s
  | .invoke i msg =>
    match s.calls[i]? with
    | some (.opening h) => some { s.invoked h msg with calls := s.calls.set i (.answering h) }
    | _ => none
  | .finish i =>
    match s.calls[i]? with
    | some (.opening _) | some (.answering _) =>
      some { s with calls := s.calls.set i .returned }
    | _ => none
  | .recv chan timesOut => s.recv chan timesOut

/-! ## One channel -/

/-- What was sent on the channel. -/
def sentOn (s : Channels B) (chan : ℕ) : List (Bytes × Str) :=
  s.sent.filterMap fun p => if p.1 = chan then some p.2 else none

/-- What was received on the channel. -/
def resultsOn (s : Channels B) (chan : ℕ) : List (Recv (Bytes × Str)) :=
  s.results.filterMap fun r => if r.1 = chan then some r.2 else none

/-- The state as the channel. -/
def channel (s : Channels B) (chan : ℕ) : Mpsc (Bytes × Str) where
  made := s.shared.conns[chan]?.isSome
  sender := s.hasSender chan
  live := (s.shared.conns[chan]?.map PacketConn.live).getD true
  queue := (s.shared.conns[chan]?.map PacketConn.queue).getD []
  sent := s.sentOn chan
  results := s.resultsOn chan

section Steps

variable {s s' : Channels B} {a : ChannelEvent} {chan : ℕ}

theorem hasSender_eq_true : s.hasSender chan = true ↔
    (∃ name, s.shared.handlers.lookup name = some (.packet chan)) ∨
      ∃ c ∈ s.calls, c.handler? = some (.packet chan) := by
  have hentries : (∃ e ∈ s.shared.handlers.entries, decide (e.2 = Handler.packet chan) = true) ↔
      ∃ name, s.shared.handlers.lookup name = some (.packet chan) := by
    constructor
    · rintro ⟨⟨name, h⟩, he, hv⟩
      obtain rfl := of_decide_eq_true hv
      exact ⟨name, AList.mem_lookup_iff.2 he⟩
    · rintro ⟨name, h⟩
      exact ⟨⟨name, _⟩, AList.mem_lookup_iff.1 h, decide_eq_true rfl⟩
  rw [hasSender, Bool.or_eq_true, List.any_eq_true, List.any_eq_true, hentries]
  simp only [decide_eq_true_eq]

/-- A step that neither makes nor drops the channel, on which nothing is sent or received. -/
theorem move_release (hconns : s'.shared.conns[chan]? = s.shared.conns[chan]?)
    (hsent : s'.sentOn chan = s.sentOn chan) (hresults : s'.resultsOn chan = s.resultsOn chan)
    (hsender : s'.hasSender chan = true → s.hasSender chan = true) :
    Mpsc.Move (s.channel chan) (s'.channel chan) := by
  have heq : s'.channel chan = { s.channel chan with sender := s'.hasSender chan } := by
    simp only [channel, hconns, hsent, hresults]
  rw [heq]
  exact .release _ _ hsender

theorem lookup_setHandler {name name' : Text} {f : Option ℕ}
    (h : (s.shared.setHandler name' f).handlers.lookup name = some (.packet chan)) :
    s.shared.handlers.lookup name = some (.packet chan) := by
  cases f with
  | none =>
    by_cases hname : name = name'
    · subst hname
      rw [Shared.setHandler, AList.lookup_erase] at h
      cases h
    · rwa [Shared.setHandler, AList.lookup_erase_ne hname] at h
  | some f =>
    by_cases hname : name = name'
    · subst hname
      rw [Shared.setHandler, AList.lookup_insert] at h
      cases h
    · rwa [Shared.setHandler, AList.lookup_insert_ne hname] at h

/-- A connection that is made has a channel of its own. -/
theorem move_listenPacket (name : Text) :
    Mpsc.Move (s.channel chan) ({ s with shared := s.shared.listenPacket name }.channel chan) := by
  by_cases hchan : chan = s.shared.conns.length
  · have hnone : s.shared.conns[chan]? = none := by
      rw [hchan]
      exact List.getElem?_eq_none le_rfl
    have hsome : (s.shared.listenPacket name).conns[chan]? = some { name } := by
      rw [hchan]
      exact List.getElem?_concat_length
    have hsender : hasSender { s with shared := s.shared.listenPacket name } chan = true := by
      refine hasSender_eq_true.2 (.inl ⟨name, ?_⟩)
      rw [hchan]
      exact AList.lookup_insert _
    have heq : channel { s with shared := s.shared.listenPacket name } chan =
        { s.channel chan with made := true, sender := true } := by
      simp only [channel, hsome, hnone, hsender]
      rfl
    rw [heq]
    refine .make _ ?_
    rw [channel, hnone]
    rfl
  · refine move_release ?_ rfl rfl fun h => ?_
    · show (s.shared.conns ++ [_])[chan]? = _
      rcases Nat.lt_or_gt_of_ne hchan with hlt | hgt
      · exact List.getElem?_append_left hlt
      · rw [List.getElem?_eq_none (by simp; omega), List.getElem?_eq_none (by omega)]
    · rcases hasSender_eq_true.1 h with ⟨name', h⟩ | h
      · refine hasSender_eq_true.2 (.inl ⟨name', ?_⟩)
        by_cases hname : name' = name
        · subst hname
          rw [Shared.listenPacket, AList.lookup_insert] at h
          exact absurd (Handler.packet.inj (Option.some.inj h)).symm hchan
        · rwa [Shared.listenPacket, AList.lookup_insert_ne hname] at h
      · exact hasSender_eq_true.2 (.inr h)

/-- A connection that is dropped lets go of the handler under its name, whose ever it is. -/
theorem move_dropConn {d : ℕ} (h : s.step (.dropConn d) = some s') :
    Mpsc.Move (s.channel chan) (s'.channel chan) := by
  obtain ⟨c, hc, h⟩ := Option.bind_eq_some_iff.1 h
  split at h
  · obtain ⟨shared, hdrop, rfl⟩ := Option.map_eq_some_iff.1 h
    obtain ⟨c', hc', rfl⟩ := Shared.dropConn_eq_some hdrop
    obtain rfl := Option.some.inj (hc.symm.trans hc')
    have hsender : ∀ {shared : Shared B}, shared.handlers = s.shared.handlers.erase c.name →
        hasSender { s with shared } chan = true → s.hasSender chan = true := by
      intro shared hhandlers hsome
      rcases hasSender_eq_true.1 hsome with ⟨name, hname⟩ | hcall
      · refine hasSender_eq_true.2 (.inl ⟨name, ?_⟩)
        rw [hhandlers] at hname
        by_cases hne : name = c.name
        · subst hne
          rw [AList.lookup_erase] at hname
          cases hname
        · rwa [AList.lookup_erase_ne hne] at hname
      · exact hasSender_eq_true.2 (.inr hcall)
    by_cases hchan : d = chan
    · subst hchan
      have hlt := (List.getElem?_eq_some_iff.1 hc).1
      have hset : (s.shared.conns.set d { c with live := false })[d]? =
          some { c with live := false } := List.getElem?_set_self hlt
      generalize hs' : ({ s with shared := { s.shared with
        handlers := s.shared.handlers.erase c.name
        conns := s.shared.conns.set d { c with live := false } } } : Channels B) = s'
      have heq : s'.channel d =
          { s.channel d with sender := s'.hasSender d, live := false } := by
        subst hs'
        simp only [channel, hset, hc]
        rfl
      rw [heq]
      refine .drop _ _ ?_
      subst hs'
      exact hsender rfl
    · exact move_release (List.getElem?_set_ne hchan) rfl rfl (hsender rfl)
  · cases h

/-- A call gets a handler that is registered. -/
theorem move_route {name : Text} (h : s.step (.route name) = some s') :
    Mpsc.Move (s.channel chan) (s'.channel chan) := by
  simp only [step] at h
  split at h
  · rename_i k hk
    obtain rfl := Option.some.inj h
    refine move_release rfl rfl rfl fun hsome => ?_
    rcases hasSender_eq_true.1 hsome with hname | ⟨c, hc, hcall⟩
    · exact hasSender_eq_true.2 (.inl hname)
    · rcases List.mem_append.1 hc with hc | hc
      · exact hasSender_eq_true.2 (.inr ⟨c, hc, hcall⟩)
      · obtain rfl := List.mem_singleton.1 hc
        obtain rfl := Option.some.inj hcall
        exact hasSender_eq_true.2 (.inl ⟨name, hk⟩)
  · obtain rfl := Option.some.inj h
    exact .stay _

/-- What a call keeps, or has let go, when it goes on. -/
theorem hasSender_setCall {i : ℕ} {c c' : HandlerCall} (hc : s.calls[i]? = some c)
    (hle : ∀ h, c'.handler? = some h → c.handler? = some h) {s' : Channels B}
    (hhandlers : s'.shared.handlers = s.shared.handlers) (hcalls : s'.calls = s.calls.set i c')
    (h : s'.hasSender chan = true) : s.hasSender chan = true := by
  rcases hasSender_eq_true.1 h with ⟨name, hname⟩ | ⟨k, hk, hcall⟩
  · rw [hhandlers] at hname
    exact hasSender_eq_true.2 (.inl ⟨name, hname⟩)
  · rw [hcalls] at hk
    rcases List.mem_or_eq_of_mem_set hk with hk | rfl
    · exact hasSender_eq_true.2 (.inr ⟨k, hk, hcall⟩)
    · exact hasSender_eq_true.2 (.inr ⟨c, List.mem_of_getElem? hc, hle _ hcall⟩)

theorem move_finish {i : ℕ} (h : s.step (.finish i) = some s') :
    Mpsc.Move (s.channel chan) (s'.channel chan) := by
  simp only [step] at h
  split at h
  · rename_i k hk
    obtain rfl := Option.some.inj h
    exact move_release rfl rfl rfl (hasSender_setCall hk (fun _ h => by cases h) rfl rfl)
  · rename_i k hk
    obtain rfl := Option.some.inj h
    exact move_release rfl rfl rfl (hasSender_setCall hk (fun _ h => by cases h) rfl rfl)
  · cases h

/-- A handler that is run, but does not send on the channel. -/
theorem invoked_other {k : Handler} {msg : Message}
    (h : k ≠ .packet chan ∨ msg.isEncrypted = false) :
    (s.invoked k msg).shared.conns[chan]? = s.shared.conns[chan]? ∧
      (s.invoked k msg).sentOn chan = s.sentOn chan ∧
      (s.invoked k msg).shared.handlers = s.shared.handlers ∧
      (s.invoked k msg).results = s.results := by
  cases k with
  | packet d =>
    unfold invoked
    cases henc : msg.isEncrypted with
    | false => exact ⟨rfl, rfl, rfl, rfl⟩
    | true =>
      have hd : d ≠ chan := by
        rintro rfl
        exact (h.resolve_right (by simp [henc])) rfl
      refine ⟨List.getElem?_modify_ne _ _ hd, ?_, rfl, rfl⟩
      show (s.sent ++ [(d, msg.body, msg.sender)]).filterMap _ = _
      rw [List.filterMap_append]
      simp [sentOn, hd]
  | ping | version | finger | idcardUpdate | user f => exact ⟨rfl, rfl, rfl, rfl⟩

/-- A handler that is run sends on its own channel at most. -/
theorem move_invoke {i : ℕ} {msg : Message} (hs : (s.channel chan).Sound)
    (h : s.step (.invoke i msg) = some s') : Mpsc.Move (s.channel chan) (s'.channel chan) := by
  simp only [step] at h
  split at h
  · rename_i k hk
    obtain rfl := Option.some.inj h
    by_cases hsend : k ≠ .packet chan ∨ msg.isEncrypted = false
    · obtain ⟨hconns, hsent, hhandlers, hresults⟩ := invoked_other (s := s) hsend
      have hle : ∀ h, (HandlerCall.answering k).handler? = some h →
          (HandlerCall.opening k).handler? = some h := fun _ h => h
      refine move_release hconns hsent ?_ (hasSender_setCall hk hle hhandlers rfl)
      exact congrArg (List.filterMap _) hresults
    · obtain ⟨hk', henc⟩ := not_or.1 hsend
      obtain rfl := not_not.1 hk'
      have henc' : msg.isEncrypted = true := eq_true_of_ne_false henc
      have hlt := (List.getElem?_eq_some_iff.1 hk).1
      have hbefore : s.hasSender chan = true :=
        hasSender_eq_true.2 (.inr ⟨_, List.mem_of_getElem? hk, rfl⟩)
      generalize hs' : ({ s.invoked (.packet chan) msg with
        calls := s.calls.set i (.answering (.packet chan)) } : Channels B) = s'
      have hafter : s'.hasSender chan = true := by
        subst hs'
        exact hasSender_eq_true.2
          (.inr ⟨.answering (.packet chan), List.mem_set hlt _, rfl⟩)
      have heq : s'.channel chan = { s.channel chan with
          queue := if (s.channel chan).live then
            (s.channel chan).queue ++ [(msg.body, msg.sender)] else (s.channel chan).queue
          sent := (s.channel chan).sent ++ [(msg.body, msg.sender)] } := by
        have hsent : s'.sentOn chan = s.sentOn chan ++ [(msg.body, msg.sender)] := by
          subst hs'
          simp [sentOn, invoked, henc']
        have hconns : s'.shared.conns[chan]? = s.shared.conns[chan]?.map fun c =>
            if c.live then { c with queue := c.queue ++ [(msg.body, msg.sender)] } else c := by
          subst hs'
          simp [invoked, henc', Shared.effect]
        have hresults : s'.resultsOn chan = s.resultsOn chan := by
          subst hs'
          simp [resultsOn, invoked, henc']
        cases hc : s.shared.conns[chan]? with
        | none =>
          -- there is no sender before the channel is made
          have hunmade : s.hasSender chan = false := hs.unmade (by rw [channel, hc]; rfl)
          cases hunmade.symm.trans hbefore
        | some c =>
          simp only [channel, hafter, hbefore, hsent, hconns, hresults, hc]
          cases hl : c.live <;> simp [hl]
      rw [heq]
      exact .send _ _ hbefore
  · cases h

/-- What a connection receives, to the channel it is on and to the others. -/
theorem resultsOn_concat {d : ℕ} {r : Recv (Bytes × Str)} {s' : Channels B}
    (hresults : s'.results = s.results ++ [(d, r)]) :
    s'.resultsOn chan = s.resultsOn chan ++ if d = chan then [r] else [] := by
  rw [resultsOn, hresults, List.filterMap_append]
  by_cases hd : d = chan <;> simp [resultsOn, hd]

/-- A receive that takes nothing from the channel. -/
theorem channel_result {r : Recv (Bytes × Str)} (d : ℕ) :
    channel { s with results := s.results ++ [(d, r)] } chan =
      { s.channel chan with
        results := (s.channel chan).results ++ if d = chan then [r] else [] } := by
  have hresults : resultsOn { s with results := s.results ++ [(d, r)] } chan =
      s.resultsOn chan ++ if d = chan then [r] else [] := resultsOn_concat rfl
  rw [channel, hresults]
  rfl

/-- A connection receives on its own channel. -/
theorem move_recv {d : ℕ} {timesOut : Bool} (h : s.recv d timesOut = some s') :
    Mpsc.Move (s.channel chan) (s'.channel chan) := by
  obtain ⟨c, hc, h⟩ := Option.bind_eq_some_iff.1 h
  split at h
  · rename_i hlive
    have hlive' : (s.channel d).live = true := by simp only [channel, hc, Option.map_some,
      Option.getD_some, hlive]
    split at h
    · rename_i p q hq
      obtain ⟨shared, hrecv, rfl⟩ := Option.map_eq_some_iff.1 h
      obtain ⟨c', p', q', hc', hq', rfl⟩ := Shared.recv_eq_some hrecv
      obtain rfl := Option.some.inj (hc.symm.trans hc')
      obtain ⟨rfl, rfl⟩ := List.cons.inj (hq.symm.trans hq')
      by_cases hd : d = chan
      · subst hd
        have hlt := (List.getElem?_eq_some_iff.1 hc).1
        have hset : (s.shared.conns.set d { c with queue := q })[d]? =
            some { c with queue := q } := List.getElem?_set_self hlt
        have hqueue : (s.channel d).queue = p :: q := by
          simp only [channel, hc, Option.map_some, Option.getD_some, hq]
        have hmove := Mpsc.Move.item (s.channel d) p q hlive' hqueue
        generalize hs' : ({ s with
          shared := { s.shared with
            conns := s.shared.conns.set d { c with queue := q }
            received := s.shared.received ++ [(d, p)] }
          results := s.results ++ [(d, .item p)] } : Channels B) = s'
        have hresults : s'.resultsOn d = s.resultsOn d ++ [.item p] := by
          subst hs'
          rw [resultsOn_concat (s := s) rfl, if_pos rfl]
        have hsender : s'.hasSender d = s.hasSender d := by
          subst hs'
          rfl
        have hsent : s'.sentOn d = s.sentOn d := by
          subst hs'
          rfl
        have hconns : s'.shared.conns[d]? = some { c with queue := q } := by
          subst hs'
          exact hset
        have heq : s'.channel d = { s.channel d with
            queue := q, results := (s.channel d).results ++ [.item p] } := by
          simp only [channel, hconns, hresults, hsender, hsent, hc]
          rfl
        rw [heq]
        exact hmove
      · refine move_release (List.getElem?_set_ne hd) rfl ?_ id
        rw [resultsOn_concat (s := s) rfl, if_neg hd, List.append_nil]
    · rename_i hq
      have hqueue : (s.channel d).queue = [] := by
        simp only [channel, hc, Option.map_some, Option.getD_some, hq]
      split at h
      · rename_i hsender
        split at h
        · obtain rfl := Option.some.inj h
          rw [channel_result]
          by_cases hd : d = chan
          · subst hd
            rw [if_pos rfl]
            exact .timeout _ hlive' hqueue hsender
          · rw [if_neg hd, List.append_nil]
            exact .stay _
        · cases h
      · rename_i hsender
        obtain rfl := Option.some.inj h
        rw [channel_result]
        by_cases hd : d = chan
        · subst hd
          rw [if_pos rfl]
          exact .closed _ (by rw [channel, hc]; rfl) hlive' hqueue (eq_false_of_ne_true hsender)
        · rw [if_neg hd, List.append_nil]
          exact .stay _
  · cases h

/-- To each channel a step is a move. -/
theorem step_move (hs : (s.channel chan).Sound) (h : s.step a = some s') :
    Mpsc.Move (s.channel chan) (s'.channel chan) := by
  cases a with
  | setHandler name f =>
    obtain rfl := Option.some.inj h
    refine move_release ?_ rfl rfl fun hsome => ?_
    · cases f <;> rfl
    · rcases hasSender_eq_true.1 hsome with ⟨name', hname⟩ | hcall
      · exact hasSender_eq_true.2 (.inl ⟨name', lookup_setHandler hname⟩)
      · exact hasSender_eq_true.2 (.inr hcall)
  | listenPacket name =>
    obtain rfl := Option.some.inj h
    exact move_listenPacket name
  | dropConn d => exact move_dropConn h
  | route name => exact move_route h
  | invoke i msg => exact move_invoke hs h
  | finish i => exact move_finish h
  | recv d timesOut => exact move_recv h

end Steps

/-- In every run of registrations, drops, routed messages, calls and receives, on each channel what
was received and what is queued is what was sent, in order, up to the drop of the connection at
most.  `Error::Closed` comes only when nothing is left and nobody can send any more, and from then
on nothing else comes. -/
theorem packets_received {as : List ChannelEvent} {s : Channels B} {chan : ℕ} {c : PacketConn}
    (hr : run step {} as = some s) (hc : s.shared.conns[chan]? = some c) :
    Recv.items (s.resultsOn chan) ++ c.queue <+: s.sentOn chan ∧
      (c.live = true → Recv.items (s.resultsOn chan) ++ c.queue = s.sentOn chan) ∧
      ∀ pre post, s.resultsOn chan = pre ++ .closed :: post →
        s.hasSender chan = false ∧ Recv.items pre = s.sentOn chan ∧ ∀ r ∈ post, r = .closed := by
  have hs : (s.channel chan).Sound :=
    run_invariant (I := fun s => (s.channel chan).Sound)
      (fun _ _ _ hs h => (step_move hs h).sound hs) Mpsc.sound_start hr
  have hqueue : (s.channel chan).queue = c.queue := by rw [channel, hc]; rfl
  have hlive : (s.channel chan).live = c.live := by rw [channel, hc]; rfl
  refine ⟨?_, fun hl => ?_, fun pre post hsplit => ?_⟩
  · rw [← hqueue]
    exact hs.order
  · rw [← hqueue]
    exact hs.all (hlive.trans hl)
  · have hmem : .closed ∈ (s.channel chan).results := by
      show .closed ∈ s.resultsOn chan
      rw [hsplit]
      exact List.mem_append_right _ List.mem_cons_self
    obtain ⟨hpre, hpost⟩ := hs.told pre post hsplit
    exact ⟨(hs.closed hmem).2.1, hpre, hpost⟩

/-- A message that is encrypted. -/
def sealedMessage : Message := { (default : Message) with flags := 0 }

/-- A call is under way when another connection takes the name; the first connection still gets its
packet, and is closed after that. -/
def replacedConn : List ChannelEvent :=
  [.listenPacket "in".toList, .route "in".toList, .recv 0 true, .listenPacket "in".toList,
    .invoke 0 sealedMessage, .finish 0, .recv 0 true, .recv 0 true, .recv 0 true, .recv 1 true]

theorem packets_received_replacedConn :
    ∃ s : Channels plain, run step {} replacedConn = some s ∧ s.hasSender 0 = false ∧
      Recv.items [.timeout, .item (sealedMessage.body, sealedMessage.sender)] = s.sentOn 0 := by
  have hr : run step ({} : Channels plain) replacedConn = some _ := rfl
  obtain ⟨hsender, hall, -⟩ := (@packets_received _ _ _ 0 _ hr rfl).2.2
    [.timeout, .item (sealedMessage.body, sealedMessage.sender)] [.closed] rfl
  exact ⟨_, hr, hsender, hall⟩

end Channels

end Spot
