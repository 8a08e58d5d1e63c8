import Spot.Client.Guarantee

/-!
# The card cache

`cards_match`: as long as every reply to a query for a card brings a card of the key that was asked
for, every card in the cache has the key of its entry, and requests are sealed for, and replies and
messages checked against, the key of the address they are sent to or come from.  The client does
not check the former; `not_cards_match` is a run in which the server sends another card.
-/

namespace Spot

variable {B : Bottlers} {t : Platform} {acct : Account B}

/-- The hash of the key that a card is of. -/
def keyHash (card : B.Card) : Bytes := (B.sha256 card.selfKey).toList

/-- The card is of the key that the address names. -/
def IsCardOf (card : B.Card) (rcv : Str) : Prop := recipientHash rcv.chars = .ok (keyHash card)

/-- Cards are of the keys they were stored, returned and used for. -/
structure CardsMatch (acct : Account B) (s : ClientState B) : Prop where
  cache : ∀ h card, s.shared.cache.lookup h = some card → keyHash card = h
  returned : ∀ task ∈ s.tasks, ∀ h card, task.prog = .ret (.card h (.ok card)) → keyHash card = h
  returnedFor : ∀ task ∈ s.tasks, ∀ rcv card, task.prog = .ret (.cardFor rcv (.ok card)) →
    IsCardOf card rcv
  sealed : ∀ req, ⟨.push req, ()⟩ ∈ s.log → req.flags &&& msgFlagNotBottle = 0 →
    isKeyTarget req.recipient.chars = true →
    ∃ card payload, IsCardOf card req.recipient ∧ Seals acct (some card) payload req.body
  verified : ∀ task ∈ s.tasks, ∀ target plain, isKeyTarget target.chars = true →
    task.prog = .ret (.reply target (.ok plain)) →
    ∃ (card : B.Card) (obj : Message) (now : ℤ), IsCardOf card target ∧
      Authentic acct card now obj.body plain
  handled : ∀ f m out, ⟨.handle f m, out⟩ ∈ s.log → m.isEncrypted = true →
    ∃ (card : B.Card) (msg : Message) (now : ℤ), IsCardOf card m.sender ∧
      Authentic acct card now msg.body m.body

/-- If the answer is a reply to the query for a card, and brings one, it is of the right key. -/
def HonestReply (acct : Account B) : Asked (Reply B) → Prop
  | ⟨.wait _ (some h), .message obj⟩ => ∀ card, Brings acct obj card → keyHash card = h
  | _ => True

/-- A card that is read from the cache, put there or brought by a reply is of the right key. -/
def RightCard (acct : Account B) : Asked (Reply B) → Prop
  | ⟨.cached h, some card⟩ => keyHash card = h
  | ⟨.insert h card, _⟩ => keyHash card = h
  | e => HonestReply acct e

/-- Every entry of the cache is under the hash of its card's key. -/
def CacheMatches (s : Shared B) (_ : Trace B) : Prop :=
  ∀ h card, s.cache.lookup h = some card → keyHash card = h

theorem cacheMatches_insert {cache : AList fun _ : Bytes => B.Card} {h : Bytes} {card : B.Card}
    (hcache : ∀ h card, cache.lookup h = some card → keyHash card = h) (hcard : keyHash card = h) :
    ∀ h' card', (cache.insert h card).lookup h' = some card' → keyHash card' = h' := by
  intro h' card' hlookup
  by_cases hh : h' = h
  · subst hh
    rw [AList.lookup_insert] at hlookup
    exact Option.some.inj hlookup ▸ hcard
  · rw [AList.lookup_insert_ne hh] at hlookup
    exact hcache h' card' hlookup

theorem cacheMatches_empty {log : Trace B} {s : Shared B} (hs : s.cache = ∅) :
    CacheMatches s log := by
  intro h card hlookup
  rw [hs] at hlookup
  cases hlookup

theorem cache_after {s s' : Shared B} {c : Call} (h : s.after c = some s') :
    s'.cache = s.cache := by
  cases c with
  | setHandler name f =>
    obtain rfl := Option.some.inj h
    cases f <;> rfl
  | recv chan =>
    obtain ⟨c, p, queue, -, -, rfl⟩ := Shared.recv_eq_some h
    rfl
  | dropConn chan =>
    obtain ⟨c, -, rfl⟩ := Shared.dropConn_eq_some h
    rfl
  | _ =>
    obtain rfl := Option.some.inj h
    rfl

/-- If replies are honest, the entries of the cache match, and all cards that are used. -/
theorem cards_contract : Pool.Contract (clientSystem t acct) CacheMatches (Allowed acct)
    (HonestReply acct) (RightCard acct) (Ends acct) where
  act {s s' log c ps} hs h := by
    obtain ⟨hafter, rfl⟩ := clientSystem_act_eq_some h
    refine ⟨?_, safe_callPrograms c⟩
    unfold CacheMatches
    rw [cache_after hafter]
    exact hs
  answer {s log tr q a} hs hlog hsub hq hhonest := by
    cases q with
    | cached h =>
      show RightCard acct ⟨.cached h, s.cache.lookup h⟩
      cases hlookup : s.cache.lookup h with
      | none => trivial
      | some card => exact hs h card hlookup
    | insert h card =>
      obtain ⟨id, obj, hwait, hbrings⟩ := hq
      exact hlog _ (hsub hwait) card hbrings
    | wait id find => exact hhonest
    | _ => trivial
  effect {s log tr q a} hs _ _ hq hright := by
    cases q with
    | insert h card => exact cacheMatches_insert hs hright
    | setCache h card =>
      refine cacheMatches_insert ?_ (Eq.symm hq)
      split
      · exact @cacheMatches_empty B log { s with cache := ∅ } rfl
      · exact hs
    | refresh => exact cacheMatches_empty rfl
    | _ => exact hs

theorem keyHash_of_obtained {tr : Trace B} (htr : ∀ e ∈ tr, RightCard acct e) {h : Bytes}
    {card : B.Card} (ho : Obtained tr h card) : keyHash card = h := by
  rcases ho with ho | ho
  · exact htr _ ho
  · exact htr _ ho

theorem isCardOf_of_obtainedFor {tr : Trace B} (htr : ∀ e ∈ tr, RightCard acct e) {rcv : Str}
    {card : B.Card} (ho : ObtainedFor tr rcv card) : IsCardOf card rcv := by
  obtain ⟨h, hh, ho⟩ := ho
  rw [IsCardOf, keyHash_of_obtained htr ho, hh]

theorem Pool.Sound.cardsMatch {s : ClientState B}
    (h : s.Sound CacheMatches (Allowed acct) (RightCard acct) (Ends acct)) :
    CardsMatch acct s := by
  have htrace : ∀ tr ⊆ s.log, ∀ e ∈ tr, RightCard acct e := fun tr hsub e he => h.log e (hsub he)
  have hends : ∀ task ∈ s.tasks, ∀ d, task.prog = .ret d → Ends acct task.trace d := by
    intro task ht d hd
    have hsafe := h.safe task ht
    rwa [hd] at hsafe
  constructor
  · exact h.inv
  · intro task ht k card hd
    exact keyHash_of_obtained (htrace _ (h.trace task ht)) (hends task ht _ hd card rfl)
  · intro task ht rcv card hd
    exact isCardOf_of_obtainedFor (htrace _ (h.trace task ht)) (hends task ht _ hd card rfl)
  · intro req hreq hflags hk
    obtain ⟨tr, hsub, hallowed⟩ := h.asked _ hreq
    obtain ⟨card, payload, hfor, hseals⟩ := hallowed hflags hk
    exact ⟨card, payload, isCardOf_of_obtainedFor (htrace tr hsub) hfor, hseals⟩
  · intro task ht target plain hk hd
    obtain ⟨card, obj, now, hfor, hauth, -⟩ := hends task ht _ hd plain hk rfl
    exact ⟨card, obj, now, isCardOf_of_obtainedFor (htrace _ (h.trace task ht)) hfor, hauth⟩
  · intro f m out hout henc
    obtain ⟨tr, hsub, hallowed⟩ := h.asked _ hout
    obtain ⟨msg, card, -, now, -, hfor, hauth, hm⟩ := hallowed henc
    have hsender : m.sender = msg.sender := by rw [hm]
    refine ⟨card, msg, now, ?_, hauth⟩
    rw [hsender]
    exact isCardOf_of_obtainedFor (htrace tr hsub) hfor

/-- In every run from an empty cache in which the replies to queries for cards are honest, cards
match in every state. -/
theorem cards_match (t : Platform) (acct : Account B) (shared : Shared B) (hs : shared.cache = ∅)
    (es : List (ClientEvent B))
    (hes : Guarded (Pool.step (clientSystem t acct))
      (Pool.Meets (clientSystem t acct) (HonestReply acct)) { shared } es) :
    Throughout (Pool.step (clientSystem t acct)) (CardsMatch acct) { shared } es := by
  have hstart : ({ shared } : ClientState B).Sound CacheMatches (Allowed acct) (RightCard acct)
      (Ends acct) := Pool.sound_start (cacheMatches_empty hs)
  exact (cards_contract.throughout hstart hes).mono fun _ h => h.cardsMatch

/-! ### Two replies of a server -/

open Account

/-- A reply that is the card of the key `[0, 9]`. -/
def cardReply : Message := { (default : Message) with flags := msgFlagNotBottle, body := [0, 9] }

/-- The card of the hash `h` is asked for, and the query for it is answered by `reply`. -/
def lookupRun (h : Bytes) (reply : Bytes → Wait) : List (ClientEvent plain) :=
  .act (.getIdcard h) :: List.replicate 8 (.answer 0 (outsideAnswers default reply))

/-- The hashes of the keys `[0, 5]` and `[0, 9]`. -/
def hash5 : Bytes := (plain.sha256 [0, 5]).toList

def hash9 : Bytes := (plain.sha256 [0, 9]).toList

/-- A server that only answers queries for the key it has. -/
def honestServer (h : Bytes) : Wait :=
  if h = hash9 then .message cardReply else .elapsed true false

theorem honestReply_honestServer (id : MessageId) (h : Bytes) :
    HonestReply plainAccount ⟨.wait id (some h), honestServer h⟩ := by
  unfold honestServer
  split
  · rename_i hh
    rintro card ⟨now, buf, hbuf, hcard⟩
    obtain rfl := Except.ok.inj (show Except.ok [0, 9] = Except.ok buf from hbuf)
    obtain rfl := Except.ok.inj (show Except.ok (Plain.cardOf [0, 9] 0) = Except.ok card from hcard)
    exact hh.symm
  · trivial

theorem cards_match_lookupRun :
    Throughout (Pool.step (clientSystem .native plainAccount)) (CardsMatch plainAccount)
      { shared := {} } (lookupRun hash9 honestServer) := by
  refine cards_match .native plainAccount {} rfl _ (Guarded.of_forall fun e he s => ?_)
  rcases List.mem_cons.1 he with rfl | he
  · trivial
  · obtain rfl := List.eq_of_mem_replicate he
    refine Pool.meets_of_forall fun q => ?_
    cases q with
    | wait id find =>
      cases find with
      | none => trivial
      | some h => exact honestReply_honestServer id h
    | _ => trivial

/-- A server that answers every query with the same card. -/
theorem not_cards_match :
    ¬ ∀ es s, run (Pool.step (clientSystem .native plainAccount)) { shared := {} } es = some s →
      CardsMatch plainAccount s := by
  intro hall
  have hr : run (Pool.step (clientSystem .native plainAccount)) { shared := {} }
      (lookupRun hash5 fun _ => .message cardReply) = some _ := rfl
  have hcard := (hall _ _ hr).cache hash5 (Plain.cardOf [0, 9] 0) rfl
  exact absurd hcard (by decide)

end Spot
