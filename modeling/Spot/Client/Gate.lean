import Spot.Client.Guarantee

/-!
# The gate for incoming messages

`inbound_gate`: a handler is called with an encrypted message only after its body was opened and
found authentic for a card of its sender, its response is sealed for the same card, and all that a
packet connection yields or a handler of the user is called with has gone through this gate.
-/

namespace Spot

variable {B : Bottlers} {t : Platform} {acct : Account B}

/-! ## One message -/

/-- All that is pushed is queries for the card of the sender of `msg`. -/
def OnlyLookups (acct : Account B) (msg : Message) (tr : Trace B) : Prop :=
  ∀ req, ⟨.push req, ()⟩ ∈ tr → ∃ h id body, recipientHash msg.sender.chars = .ok h ∧
    Seals acct none h body ∧ req = request id idcardFind body

/-- What opening a message comes to. -/
theorem openRequest_run {msg : Message} {tr : Trace B} {r : Result (Option B.Card × Message)}
    (hr : (openRequest t acct msg).run.Run tr r) :
    OnlyLookups acct msg tr ∧ ∀ rid m, r = .ok (rid, m) →
      if msg.flags &&& msgFlagNotBottle = 0 then
        ∃ card, rid = some card ∧ Opened acct tr msg m card
      else rid = none ∧ m = msg := by
  let G : Ask B → Prop := fun q => ∀ req, q = .push req →
    ∃ h id body, recipientHash msg.sender.chars = .ok h ∧ Seals acct none h body ∧
      req = request id idcardFind body
  let P : Trace B → Result (Option B.Card × Message) → Prop := fun tr r => ∀ rid m,
    r = .ok (rid, m) →
      if msg.flags &&& msgFlagNotBottle = 0 then
        ∃ card, rid = some card ∧ Opened acct tr msg m card
      else rid = none ∧ m = msg
  have hsafe : (openRequest t acct msg).run.Safe (fun _ => G) (fun _ => True) P [] := by
    refine safe_openRequest (fun tr q hq => ?_) (fun h hh tr' id body hbody => ?_)
      (fun h tr' buf card _ _ => ?_) (fun tr' e => ?_) (fun hflags => ?_)
      fun hflags tr' m card hopened => ?_
    · rintro req rfl
      exact hq.elim
    · rintro req ⟨⟩
      exact ⟨h, id, body, hh, hbody, rfl⟩
    · rintro req ⟨⟩
    · rintro rid m ⟨⟩
    · rintro rid m ⟨⟩
      rw [if_neg hflags]
      exact ⟨rfl, rfl⟩
    · rintro rid m ⟨⟩
      rw [if_pos hflags]
      exact ⟨card, rfl, hopened⟩
  refine ⟨fun req hreq => ?_, (hsafe.run hr fun _ _ => trivial).1⟩
  exact hsafe.asked hr (fun _ _ => trivial) _ hreq req rfl

/-- What is pushed in response. -/
theorem respond_run {msg : Message} {rid : Option B.Card} {res : Except Text (Option Bytes)}
    {tr : Trace B} (hr : (respond acct rid msg res).Run tr ()) {resp : Message}
    (hresp : ⟨.push resp, ()⟩ ∈ tr) : Responds acct rid msg resp := by
  let G : Ask B → Prop := fun q => ∀ resp, q = .push resp → Responds acct rid msg resp
  have hsafe : (respond acct rid msg res).Safe (fun _ => G) (fun _ => True)
      (fun _ _ => True) [] := by
    refine safe_respond (fun tr q hq => ?_) (fun tr' resp hresp => ?_) fun _ => trivial
    · rintro req rfl
      exact hq.elim
    · rintro resp' ⟨⟩
      exact hresp
  exact hsafe.asked hr (fun _ _ => trivial) _ hresp resp rfl

/-- The trace of what follows the call of a handler: the response to its result, if it has one. -/
def Concludes (t : Platform) (acct : Account B) (rid : Option B.Card) (m : Message) (out : Outcome)
    (tr : Trace B) : Prop :=
  (out.result t = none → tr = []) ∧
    ∀ res, out.result t = some res → (respond acct rid m res).Run tr ()

theorem concludes_iff {rid : Option B.Card} {m : Message} {out : Outcome} {tr : Trace B} :
    Concludes t acct rid m out tr ↔
      (match out.result t with
        | none => pure ()
        | some res => respond acct rid m res : Action B Unit).Run tr () := by
  unfold Concludes
  cases out.result t with
  | none =>
    refine ⟨fun h => ⟨h.1 rfl, rfl⟩, fun h => ⟨fun _ => h.1, ?_⟩⟩
    rintro res ⟨⟩
  | some res =>
    refine ⟨fun h => h.2 res rfl, fun h => ⟨nofun, ?_⟩⟩
    rintro res ⟨⟩
    exact h

theorem Concludes.responds {rid : Option B.Card} {m resp : Message} {out : Outcome} {tr : Trace B}
    (h : Concludes t acct rid m out tr) (hresp : ⟨.push resp, ()⟩ ∈ tr) :
    Responds acct rid m resp := by
  cases hout : out.result t with
  | none =>
    rw [h.1 hout] at hresp
    cases hresp
  | some res => exact respond_run (h.2 res hout) hresp

/-! ## Packet connections -/

/-- The packet waits on a packet connection, or was yielded by one. -/
def Shared.Holds (s : Shared B) (p : Bytes × Str) : Prop :=
  (∃ c ∈ s.conns, p ∈ c.queue) ∨ ∃ chan, (chan, p) ∈ s.received

theorem Shared.holds_effect {s : Shared B} {q : Ask B} {p : Bytes × Str}
    (h : (s.effect q).Holds p) : s.Holds p ∨ ∃ chan, q = .deliver chan p.1 p.2 := by
  cases q with
  | deliver chan payload sender =>
    rcases h with ⟨c, hc, hp⟩ | h
    · obtain ⟨i, hi⟩ := List.mem_iff_getElem?.1 hc
      rw [Shared.effect, List.getElem?_modify] at hi
      obtain ⟨c', hc', rfl⟩ := Option.map_eq_some_iff.1 hi
      have hmem := List.mem_of_getElem? hc'
      split at hp
      · split at hp
        · rcases List.mem_append.1 hp with hp | hp
          · exact .inl (.inl ⟨c', hmem, hp⟩)
          · obtain rfl := List.mem_singleton.1 hp
            exact .inr ⟨chan, rfl⟩
        · exact .inl (.inl ⟨c', hmem, hp⟩)
      · exact .inl (.inl ⟨c', hmem, hp⟩)
    · exact .inl (.inr h)
  | _ => exact .inl h

theorem Shared.holds_after {s s' : Shared B} {c : Call} (hs : s.after c = some s')
    {p : Bytes × Str} (h : s'.Holds p) : s.Holds p := by
  cases c with
  | setHandler name f =>
    obtain rfl := Option.some.inj hs
    cases f <;> exact h
  | listenPacket name =>
    obtain rfl := Option.some.inj hs
    rcases h with ⟨c, hc, hp⟩ | h
    · rcases List.mem_append.1 hc with hc | hc
      · exact .inl ⟨c, hc, hp⟩
      · obtain rfl := List.mem_singleton.1 hc
        cases hp
    · exact .inr h
  | recv chan =>
    obtain ⟨c, p', queue, hc, hqueue, rfl⟩ := Shared.recv_eq_some hs
    have hmem := List.mem_of_getElem? hc
    rcases h with ⟨c', hc', hp⟩ | ⟨chan', hp⟩
    · rcases List.mem_or_eq_of_mem_set hc' with hc' | rfl
      · exact .inl ⟨c', hc', hp⟩
      · exact .inl ⟨c, hmem, by rw [hqueue]; exact List.mem_cons_of_mem _ hp⟩
    · rcases List.mem_append.1 hp with hp | hp
      · exact .inr ⟨chan', hp⟩
      · obtain ⟨-, rfl⟩ := Prod.mk.inj (List.mem_singleton.1 hp)
        exact .inl ⟨c, hmem, by rw [hqueue]; exact List.mem_cons_self⟩
  | dropConn chan =>
    obtain ⟨c, hc, rfl⟩ := Shared.dropConn_eq_some hs
    rcases h with ⟨c', hc', hp⟩ | h
    · rcases List.mem_or_eq_of_mem_set hc' with hc' | rfl
      · exact .inl ⟨c', hc', hp⟩
      · exact .inl ⟨c, List.mem_of_getElem? hc, hp⟩
    · exact .inr h
  | _ =>
    obtain rfl := Option.some.inj hs
    exact h

/-- The payload and the sender of a packet are those of a message that was received and opened. -/
def Delivered (acct : Account B) (tr : Trace B) (p : Bytes × Str) : Prop :=
  ∃ m, Received acct tr m ∧ m.body = p.1 ∧ m.sender = p.2

theorem Delivered.mono {tr tr' : Trace B} {p : Bytes × Str} (h : Delivered acct tr p)
    (hsub : tr ⊆ tr') : Delivered acct tr' p := by
  obtain ⟨m, hm, hp⟩ := h
  exact ⟨m, hm.mono hsub, hp⟩

/-- All packets were delivered. -/
def PacketsDelivered (acct : Account B) (s : Shared B) (log : Trace B) : Prop :=
  ∀ p, s.Holds p → Delivered acct log p

theorem packets_contract : Pool.Contract (clientSystem t acct) (PacketsDelivered acct)
    (Allowed acct) (fun _ => True) (fun _ => True) (Ends acct) where
  act {s s' log c ps} hs h := by
    obtain ⟨hafter, rfl⟩ := clientSystem_act_eq_some h
    exact ⟨fun p hp => hs p (Shared.holds_after hafter hp), safe_callPrograms c⟩
  answer _ _ _ _ _ := trivial
  effect {s log tr q a} hs _ hsub hq _ := by
    intro p hp
    rcases Shared.holds_effect hp with hp | ⟨chan, rfl⟩
    · exact (hs p hp).mono (List.subset_append_left _ _)
    · exact Delivered.mono hq (List.subset_append_of_subset_left _ hsub)

/-- A client that has received no packets yet. -/
def NoPackets (s : Shared B) : Prop := ∀ p, ¬ s.Holds p

/-- A run of a handler on a message either ends without the handler being called, and has pushed
queries for the card of the sender at most; or it opens the message, calls the handler once and
responds.  If the message is encrypted, the handler gets it with its body opened and authentic for a
card of the sender, and what is pushed after the call is sealed for that card.  And in every run of
a client, the encrypted messages that handlers of the user are called with were received and opened
in this way, and what a packet connection yields is the body and the sender of such a message. -/
theorem inbound_gate (t : Platform) (acct : Account B) :
    (∀ msg h tr, (runHandler t acct msg h).Run tr () →
      OnlyLookups acct msg tr ∧ (∃ e, (openRequest t acct msg).run.Run tr (.error e)) ∨
      ∃ rid m tr₁ tr₂ tr₃ out, tr = tr₁ ++ (tr₂ ++ tr₃) ∧
        (openRequest t acct msg).run.Run tr₁ (.ok (rid, m)) ∧ OnlyLookups acct msg tr₁ ∧
        (h.call m).Run tr₂ out ∧ Concludes t acct rid m out tr₃ ∧
        if msg.flags &&& msgFlagNotBottle = 0 then
          ∃ card, rid = some card ∧ Opened acct tr₁ msg m card ∧ ∀ resp, ⟨.push resp, ()⟩ ∈ tr₃ →
            resp.flags &&& msgFlagNotBottle = 0 ∧ ∃ body, Seals acct (some card) body resp.body
        else m = msg ∧ m.isEncrypted = false) ∧
    ∀ (shared : Shared B) es s, NoPackets shared →
      run (Pool.step (clientSystem t acct)) { shared } es = some s →
        (∀ f m out, ⟨.handle f m, out⟩ ∈ s.log → m.isEncrypted = true → Received acct s.log m) ∧
        ∀ chan payload sender, (chan, payload, sender) ∈ s.shared.received →
          Delivered acct s.log (payload, sender) := by
  constructor
  · intro msg h tr hr
    obtain ⟨tr₁, r, tr', rfl, hopen, hrest⟩ := Prog.run_bind.1 hr
    obtain ⟨hlookups, hok⟩ := openRequest_run hopen
    cases r with
    | error e =>
      obtain ⟨rfl, -⟩ := hrest
      rw [List.append_nil]
      exact .inl ⟨hlookups, e, hopen⟩
    | ok p =>
      obtain ⟨rid, m⟩ := p
      have hm := hok rid m rfl
      obtain ⟨tr₂, out, tr₃, rfl, hcall, hresp⟩ := Prog.run_bind.1 hrest
      have hend : Concludes t acct rid m out tr₃ := concludes_iff.2 hresp
      refine .inr ⟨rid, m, tr₁, tr₂, tr₃, out, rfl, hopen, hlookups, hcall, hend, ?_⟩
      by_cases hflags : msg.flags &&& msgFlagNotBottle = 0
      · rw [if_pos hflags] at hm ⊢
        obtain ⟨card, rfl, hopened⟩ := hm
        refine ⟨card, rfl, hopened, fun resp hpush => ?_⟩
        obtain ⟨now, -, -, -, hm⟩ := hopened
        have hseal := (hend.responds hpush).2
        rw [hm] at hseal
        rwa [if_pos hflags] at hseal
      · rw [if_neg hflags] at hm ⊢
        obtain ⟨-, rfl⟩ := hm
        exact ⟨rfl, beq_eq_false_iff_ne.2 hflags⟩
  · intro shared es s hnone hr
    have hstart : ({ shared } : ClientState B).Sound (PacketsDelivered acct) (Allowed acct)
        (fun _ => True) (Ends acct) := Pool.sound_start fun p hp => absurd hp (hnone p)
    have hs := packets_contract.run hstart hr
    refine ⟨fun f m out hhandle henc => ?_, fun chan payload sender hp => ?_⟩
    · obtain ⟨tr, hsub, hallowed⟩ := hs.asked _ hhandle
      exact (hallowed henc).mono hsub
    · exact hs.inv _ (.inr ⟨chan, hp⟩)

/-! ### A packet -/

open Account

/-- The payload `[7]` for the endpoint `in`, sealed by the owner of `peerCard`. -/
def packetMessage : Message :=
  { peerReply with recipient := ⟨"k.AAU/in".toList, by decide⟩, sender := shortTarget }

/-- The message arrives at a packet connection, which yields its payload. -/
def packetRun : List (ClientEvent plain) :=
  .act (.listenPacket "in".toList) :: .act .incoming ::
    (List.replicate 6 (.answer 0 (outsideAnswers packetMessage fun _ => .elapsed true false)) ++
      [.act (.recv 0)])

/-- A client that has the card in its cache. -/
def peerShared : Shared plain := { cache := AList.insert [0, 5] peerCard ∅ }

theorem inbound_gate_packetRun :
    ∃ s, run (Pool.step (clientSystem .native plainAccount)) { shared := peerShared } packetRun =
        some s ∧ s.shared.received = [(0, [7], shortTarget)] ∧
      Delivered plainAccount s.log ([7], shortTarget) := by
  have hr : run (Pool.step (clientSystem .native plainAccount)) { shared := peerShared }
      packetRun = some _ := rfl
  have hnone : NoPackets peerShared := by
    rintro p (⟨c, hc, -⟩ | ⟨chan, hp⟩)
    · cases hc
    · cases hp
  exact ⟨_, hr, rfl, ((inbound_gate .native plainAccount).2 peerShared packetRun _ hnone hr).2 0 [7]
    shortTarget List.mem_cons_self⟩

end Spot
