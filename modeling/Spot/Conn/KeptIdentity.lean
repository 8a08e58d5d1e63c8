import Spot.Client.Groups
import Spot.Conn.Protocol

/-!
# The identity in the sessions

A challenge may bring membership records for the client's card.  They edit its groups
(`keeps_joinGroups`), so the client stays at its key on however many connections they come, and
every answer shows a card of that key (`identity_stays`).
-/

namespace Spot

variable {B : Bottlers}

section Identity

variable {t : Platform} {S : RawSigner B} {V : Uvarint} {C : Ciborium} {acct : Account B}
  {st st' : IdState B} {k : Bytes} {l l' : Link B} {x : Turn B} {xs : List (Turn B)}
  {closed : Bool} {req : HandshakeRequest}

/-- The bytes are a card of the key `k`, signed by the client. -/
def Account.Shows (acct : Account B) (k id : Bytes) : Prop :=
  ∃ seed, ∃ card : B.Card, card.selfKey = k ∧ B.signCard seed acct.signer card = .ok id

/-- The card and the signed form are of the key `k`. -/
structure Account.Keeps (acct : Account B) (k : Bytes) (st : IdState B) : Prop where
  card : st.card.selfKey = k
  signed : acct.Shows k st.signed

/-- The packet is an answer with the main public key that shows a card of the key `k`. -/
def ShowsCard (V : Uvarint) (C : Ciborium) (acct : Account B) (k buf : Bytes) : Prop :=
  ∃ res, (Packet.handshakeResponse res).encode V C = .ok buf ∧
    B.publicPkix acct.signer = .ok res.key ∧ acct.Shows k res.id

/-- Membership records are for the owner of the card, whom they do not change. -/
theorem keeps_joinGroups (h : acct.Keeps k st) (seed : B.Seed) :
    acct.Keeps k (joinGroups C acct st req seed) := by
  unfold joinGroups
  split
  · rename_i groups _
    rw [Account.handleGroups_eq]
    have hcard : ((appliedRecords B C st.card.selfKey groups).foldl applyMembership
        st.card).selfKey = k := by rw [selfKey_foldl, h.card]
    dsimp only
    split
    · exact ⟨hcard, h.signed⟩
    · split
      · rename_i hsign
        exact ⟨hcard, seed, _, hcard, hsign⟩
      · exact ⟨hcard, h.signed⟩
  · exact h

theorem eq_ok_of_liftProto {α : Type} {r : ProtoResult α} {a : α} (h : liftProto r = .ok a) :
    r = .ok a := by
  cases r with
  | ok b => exact congrArg Except.ok (Except.ok.inj h)
  | error e => cases e <;> cases h

/-- A response carries the main public key. -/
theorem key_of_respond {seed : B.Seed} {res : HandshakeResponse}
    (h : req.respond S C seed acct.signer = .ok res) : B.publicPkix acct.signer = .ok res.key := by
  unfold HandshakeRequest.respond at h
  split at h
  · cases h
  · split at h
    · cases h
    · split at h
      · cases h
      · rename_i hkey
        obtain rfl := Except.ok.inj h
        exact hkey

theorem showsCard_responsePacket {id buf : Bytes} {seed : B.Seed} (hid : acct.Shows k id)
    (h : responsePacket S V C acct id seed req = .ok buf) : ShowsCard V C acct k buf := by
  unfold responsePacket at h
  split at h
  · cases h
  · rename_i res hres
    have hkey := key_of_respond (eq_ok_of_liftProto hres)
    exact ⟨{ res with id }, eq_ok_of_liftProto h, hkey, hid⟩

/-- What the connection has sent, and what it is sending, shows a card of the key `k`. -/
structure Link.ShowsCards (V : Uvarint) (C : Ciborium) (acct : Account B) (k : Bytes)
    (l : Link B) : Prop where
  sent : ∀ buf ∈ l.sent, ShowsCard V C acct k buf
  sending : ∀ online x st buf, l.phase = .sending online x st buf → ShowsCard V C acct k buf

theorem Link.ShowsCards.checked (h : l.ShowsCards V C acct k) (r : LinkRead B) :
    (l.checked t r).ShowsCards V C acct k := by
  unfold Link.checked
  cases t with
  | native => exact ⟨h.sent, h.sending⟩
  | wasm =>
    dsimp only
    split
    · exact ⟨h.sent, fun _ _ _ _ h => by cases h⟩
    · exact ⟨h.sent, h.sending⟩

/-- A read that is no challenge sends nothing. -/
theorem Link.ShowsCards.next {r : LinkRead B} (h : l.ShowsCards V C acct k)
    (hnext : l.Next t S V C acct r l') (hasked : r.turn.asked? t V C = none) :
    l'.ShowsCards V C acct k := by
  rcases hnext.answered with ⟨hsent, -⟩ | ⟨buf, -, hsome, -⟩
  · refine ⟨by rw [hsent]; exact h.sent, fun online x st buf hphase => ?_⟩
    have hidle := hnext.idle
    rw [hphase] at hidle
    cases hidle
  · rw [hasked] at hsome
    cases hsome

/-- The records of a challenge keep the identity, and nothing else changes it. -/
theorem keeps_read (S : RawSigner B) (hst : acct.Keeps k st) (h : l.ShowsCards V C acct k)
    (x : Turn B) (closed : Bool) (hl : l.phase = .handshaking ∨ l.phase = .reading) :
    acct.Keeps k (l.read t V C acct st x closed).1 ∧
      (l.read t V C acct st x closed).2.ShowsCards V C acct k := by
  cases hasked : x.asked? t V C with
  | some req =>
    rw [Link.read_asked hl hasked]
    exact ⟨keeps_joinGroups hst _, h.sent, fun _ _ _ _ h => by cases h⟩
  | none =>
    have hnext : (l.read t V C acct st x closed).1 = st ∧
        l.Next t S V C acct ⟨st, x, closed⟩ (l.read t V C acct st x closed).2 :=
      Link.next_read hl hasked
    rw [hnext.1]
    exact ⟨hst, h.next hnext.2 hasked⟩

/-- The answer that is built shows a card. -/
theorem keeps_build (hst : acct.Keeps k st) (h : l.ShowsCards V C acct k) :
    (l.build S V C acct st).ShowsCards V C acct k := by
  unfold Link.build
  split
  · split
    · exact ⟨h.sent, fun _ _ _ _ h => by cases h⟩
    · rename_i buf hbuf
      refine ⟨h.sent, fun online x st buf hphase => ?_⟩
      obtain ⟨-, -, -, rfl⟩ := LinkPhase.sending.inj hphase
      exact showsCard_responsePacket hst.signed hbuf
  · exact h

theorem keeps_finish (h : l.ShowsCards V C acct k) (closed : Bool) :
    (l.finish t closed).ShowsCards V C acct k := by
  unfold Link.finish
  split
  · rename_i online x st buf hphase
    have hsent : ∀ b ∈ l.sent ++ [buf], ShowsCard V C acct k b := by
      intro b hb
      rcases List.mem_append.1 hb with hb | hb
      · exact h.sent b hb
      · obtain rfl := List.mem_singleton.1 hb
        exact h.sending online x st b hphase
    split
    · exact ⟨h.sent, fun _ _ _ _ h => by cases h⟩
    · split
      · exact Link.ShowsCards.checked ⟨hsent, fun _ _ _ _ h => by cases h⟩ _
      · exact ⟨hsent, fun _ _ _ _ h => by cases h⟩
  · exact h

/-- A step of a connection keeps the identity, and what it sends shows it. -/
theorem keeps_step (hst : acct.Keeps k st) (h : l.ShowsCards V C acct k)
    (hstep : l.Step t S V C acct st st' l' xs) :
    acct.Keeps k st' ∧ l'.ShowsCards V C acct k := by
  cases hstep with
  | read x closed hphase =>
    obtain ⟨hst', hread⟩ := keeps_read (t := t) S hst h x closed hphase
    unfold Link.received
    cases t with
    | native => exact ⟨hst', hread⟩
    | wasm => exact ⟨hst', keeps_build hst' hread⟩
  | build hphase => exact ⟨hst, keeps_build hst h⟩
  | finish closed hphase => exact ⟨hst, keeps_finish h closed⟩

end Identity

namespace Links

variable {t : Platform} {S : RawSigner B} {V : Uvarint} {C : Ciborium} {acct : Account B}
  {s : Links B} {as : List (LinksEvent B)}

/-- Whatever membership records the challenges bring, on however many connections of either
platform, the client keeps its key, so its address, and every answer on any connection shows a card
of that key, signed by the client, with its main public key. -/
theorem identity_stays {st : IdState B} (hst : acct.Signed st)
    (hr : run (step t S V C acct) { st } as = some s) :
    s.st.card.selfKey = st.card.selfKey ∧ acct.Shows st.card.selfKey s.st.signed ∧
      ∀ l ∈ s.links, ∀ buf ∈ l.sent, ShowsCard V C acct st.card.selfKey buf := by
  obtain ⟨seed, hsign⟩ := hst
  have hinv : acct.Keeps st.card.selfKey s.st ∧
      ∀ l ∈ s.links, l.ShowsCards V C acct st.card.selfKey := by
    refine run_invariant (I := fun s => acct.Keeps st.card.selfKey s.st ∧
      ∀ l ∈ s.links, l.ShowsCards V C acct st.card.selfKey) ?_
      ⟨⟨rfl, seed, _, rfl, hsign⟩, fun _ h => absurd h List.not_mem_nil⟩ hr
    rintro m a m' ⟨hm, hlinks⟩ h
    rcases step_eq_some h with ⟨rfl, rfl⟩ | ⟨i, l, st', l', xs, hl, hstep, rfl, -⟩
    · refine ⟨hm, fun l hl => ?_⟩
      rcases List.mem_append.1 hl with hl | hl
      · exact hlinks l hl
      · obtain rfl := List.mem_singleton.1 hl
        exact ⟨fun _ h => absurd h List.not_mem_nil, fun _ _ _ _ h => by cases h⟩
    · obtain ⟨hm', hshows⟩ := keeps_step hm (hlinks l (List.mem_of_getElem? hl)) hstep
      refine ⟨hm', fun k hk => ?_⟩
      rcases List.mem_or_eq_of_mem_set hk with hk | rfl
      · exact hlinks k hk
      · exact hshows
  exact ⟨hinv.1.card, hinv.1.signed, fun l hl => (hinv.2 l hl).sent⟩

theorem identity_stays_pairReads :
    readPair.st.card.selfKey = Account.plainIdState.card.selfKey ∧
      ∀ l ∈ readPair.links, ∀ buf ∈ l.sent,
        ShowsCard leb128 greetCiborium Account.plainAccount [0, 5] buf := by
  have hr : run (step .native plainSigner leb128 greetCiborium Account.plainAccount)
      { st := Account.plainIdState } pairReads = some readPair := rfl
  obtain ⟨hkey, -, hshows⟩ := identity_stays ⟨(), rfl⟩ hr
  exact ⟨hkey, hshows⟩

end Links

end Spot
