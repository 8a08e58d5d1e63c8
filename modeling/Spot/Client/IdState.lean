import Spot.Client.Laws
import Spot.General.Runs

/-!
# The client's own identity

The client keeps its card and the signed form it shows to servers and peers.  A handshake request
may bring membership records; `handleGroups` applies them to the card and signs the card again.
When it fails in between, the caller goes on with the card as it was left.

`identity_agrees` says that card and signed form agree in every run of requests in which no request
applies a record before it fails, and that on a card without groups only such a request may fail
without harm.
-/

namespace Spot

/-- The client's card and its signed form. -/
structure IdState (B : Bottlers) where
  card : B.Card
  signed : Bytes

variable {B : Bottlers}

namespace Account

/-- The signed form is the card, signed by the client. -/
def Signed (acct : Account B) (st : IdState B) : Prop :=
  ∃ seed, B.signCard seed acct.signer st.card = .ok st.signed

/-- Updates group memberships from server-provided records and signs the card again. -/
def handleGroups (C : Ciborium) (acct : Account B) (st : IdState B) (seed : B.Seed)
    (groups : List Bytes) : IdState B × Result Unit :=
  match updateGroups B C st.card groups with
  | (card, .error e) => ({ st with card }, .error e)
  | (card, .ok ()) =>
    match B.signCard seed acct.signer card with
    | .ok signed => ({ card, signed }, .ok ())
    | .error e => ({ st with card }, .error (.bottle e))

/-- A call to `handleGroups` and what came of it. -/
structure GroupCall (B : Bottlers) where
  before : IdState B
  result : Result Unit
  after : IdState B

/-- A call that succeeds leaves a signed card, and one that fails changes nothing. -/
def GroupCall.Atomic (acct : Account B) (call : GroupCall B) : Prop :=
  match call.result with
  | .ok () => acct.Signed call.after
  | .error _ => call.after = call.before

/-- The call to `handleGroups` in a state. -/
def groupCall (C : Ciborium) (acct : Account B) (st : IdState B) (seed : B.Seed)
    (groups : List Bytes) : GroupCall B :=
  let r := acct.handleGroups C st seed groups
  ⟨st, r.2, r.1⟩

/-- No record fails and the updated card can be signed, or no record is applied before one fails. -/
def Settles (C : Ciborium) (acct : Account B) (st : IdState B) (seed : B.Seed)
    (groups : List Bytes) : Prop :=
  let applied := appliedRecords B C st.card.selfKey groups
  (firstFailure B C st.card.selfKey groups = none ∧
    ∃ signed, B.signCard seed acct.signer (applied.foldl applyMembership st.card) = .ok signed) ∨
  applied = []

section Calls

variable {C : Ciborium} {acct : Account B} {st : IdState B} {seed : B.Seed} {groups : List Bytes}

theorem handleGroups_eq :
    acct.handleGroups C st seed groups =
      let card := (appliedRecords B C st.card.selfKey groups).foldl applyMembership st.card
      match firstFailure B C st.card.selfKey groups with
      | some e => ({ st with card }, .error e)
      | none =>
        match B.signCard seed acct.signer card with
        | .ok signed => ({ card, signed }, .ok ())
        | .error e => ({ st with card }, .error (.bottle e)) := by
  rw [handleGroups, updateGroups_eq]
  cases firstFailure B C st.card.selfKey groups <;> rfl

/-- A call that settles is atomic. -/
theorem Settles.atomic (h : acct.Settles C st seed groups) :
    (acct.groupCall C st seed groups).Atomic acct := by
  unfold GroupCall.Atomic groupCall
  rw [handleGroups_eq]
  rcases h with ⟨hf, signed, hs⟩ | ha
  · simp only [hf, hs]
    exact ⟨seed, hs⟩
  · simp only [ha, List.foldl_nil]
    cases firstFailure B C st.card.selfKey groups with
    | some e => rfl
    | none =>
      cases hs : B.signCard seed acct.signer st.card with
      | error e => rfl
      | ok signed => exact ⟨seed, hs⟩

theorem foldl_applyMembership_ne {card : B.Card} (hg : card.groups = none) {ms : List Membership}
    (hms : ms ≠ []) : ms.foldl applyMembership card ≠ card := by
  obtain ⟨ms, m, rfl⟩ := (List.eq_nil_or_concat' ms).resolve_left hms
  intro h
  rw [List.foldl_append, List.foldl_cons, List.foldl_nil] at h
  have hsome := isSome_groups_applyMembership (ms.foldl applyMembership card) m
  rw [h, hg] at hsome
  cases hsome

/-- On a card without groups, only a call that settles is atomic. -/
theorem settles_of_atomic (hg : st.card.groups = none)
    (h : (acct.groupCall C st seed groups).Atomic acct) : acct.Settles C st seed groups := by
  by_contra hno
  obtain ⟨hok, ha⟩ := not_or.1 hno
  unfold GroupCall.Atomic groupCall at h
  rw [handleGroups_eq] at h
  have hne := foldl_applyMembership_ne hg ha
  cases hf : firstFailure B C st.card.selfKey groups with
  | some e =>
    simp only [hf] at h
    exact hne (congrArg IdState.card h)
  | none =>
    cases hs : B.signCard seed acct.signer
        ((appliedRecords B C st.card.selfKey groups).foldl applyMembership st.card) with
    | ok signed => exact hok ⟨hf, signed, hs⟩
    | error e =>
      simp only [hf, hs] at h
      exact hne (congrArg IdState.card h)

theorem signed_after (hst : acct.Signed st)
    (h : (acct.groupCall C st seed groups).Atomic acct) :
    acct.Signed (acct.groupCall C st seed groups).after := by
  unfold GroupCall.Atomic at h
  split at h
  · exact h
  · rw [h]
    exact hst

end Calls

/-! ## Runs -/

/-- The identity and the calls made so far. -/
structure History (B : Bottlers) where
  st : IdState B
  calls : List (GroupCall B) := []

/-- A handshake request on connection `c`, with the records it brings, if any. -/
structure Handshake (B : Bottlers) where
  c : ℕ
  groups : Option (List Bytes)
  seed : B.Seed

/-- What answering a request does to the identity, on whichever connection it comes. -/
def step (C : Ciborium) (acct : Account B) (s : History B) (a : Handshake B) : Option (History B) :=
  match a.groups with
  | none => some s
  | some groups =>
    -- an error is logged, and the handshake goes on
    let call := acct.groupCall C s.st a.seed groups
    some { st := call.after, calls := s.calls ++ [call] }

/-- The card and its signed form agree, and every call was atomic. -/
def Agrees (acct : Account B) (s : History B) : Prop :=
  acct.Signed s.st ∧ ∀ call ∈ s.calls, call.Atomic acct

/-- The request brings no records, or its call settles. -/
def SettledRequest (C : Ciborium) (acct : Account B) (s : History B) (a : Handshake B) : Prop :=
  ∀ groups, a.groups = some groups → acct.Settles C s.st a.seed groups

theorem agrees_step {C : Ciborium} {acct : Account B} {s s' : History B} {a : Handshake B}
    (hs : acct.Agrees s) (ha : acct.SettledRequest C s a) (h : acct.step C s a = some s') :
    acct.Agrees s' := by
  unfold step at h
  split at h
  · exact Option.some.inj h ▸ hs
  · rename_i groups hgroups
    obtain rfl := Option.some.inj h
    have hatomic := (ha groups hgroups).atomic
    refine ⟨signed_after hs.1 hatomic, fun call hcall => ?_⟩
    rcases List.mem_append.1 hcall with hcall | hcall
    · exact hs.2 call hcall
    · exact List.mem_singleton.1 hcall ▸ hatomic

/-- In a run of requests that all settle, the card and its signed form agree in every state and
every call was atomic; and on a card without groups the calls that settle are the atomic ones. -/
theorem identity_agrees (C : Ciborium) (acct : Account B) (st : IdState B) (hst : acct.Signed st) :
    (∀ as, Guarded (acct.step C) (acct.SettledRequest C) { st } as →
      Throughout (acct.step C) acct.Agrees { st } as) ∧
    (st.card.groups = none → ∀ seed groups,
      (acct.groupCall C st seed groups).Atomic acct ↔ acct.Settles C st seed groups) := by
  refine ⟨fun as hg => ?_, fun hnone seed groups => ?_⟩
  · refine hg.throughout (fun s a s' hs ha h => agrees_step hs ha h) ⟨hst, ?_⟩
    exact fun call hcall => absurd hcall List.not_mem_nil
  · exact ⟨settles_of_atomic hnone, Settles.atomic⟩

/-! ### A request that stops in the middle -/

/-- A membership of the owner of the key `[0, 5]` in the group `[9]`, and its CBOR bytes. -/
def joinRecord : Bytes :=
  [0xa3, 0x01, 0x42, 0x00, 0x05, 0x02, 0x41, 0x09, 0x03, 0x65, 0x76, 0x61, 0x6c, 0x69, 0x64]

/-- CBOR as it is read from that record. -/
def joinCiborium : Ciborium where
  intoWriter _ := .error "unused".toList
  fromReader b :=
    if b = joinRecord then
      .ok (.map [(.integer 1, .bytes [0, 5]), (.integer 2, .bytes [9]),
        (.integer 3, .text ⟨"valid".toList, by decide⟩)])
    else .error "eof".toList

def plainIdState : IdState plain := ⟨Plain.cardOf [0, 5] 0, [0, 5, 0]⟩

theorem identity_agrees_joinRecord :
    Throughout (step joinCiborium plainAccount) plainAccount.Agrees { st := plainIdState }
      [⟨0, some [joinRecord], ()⟩] := by
  apply (identity_agrees joinCiborium plainAccount plainIdState ⟨(), rfl⟩).1
  refine ⟨?_, fun _ _ => trivial⟩
  rintro groups ⟨⟩
  exact .inl ⟨rfl, _, rfl⟩

/-- A record that is applied, then one that cannot be read: the card has changed, and its signed
form has not. -/
theorem not_agrees_joinRecord :
    ¬ ∀ as s, run (step joinCiborium plainAccount) { st := plainIdState } as = some s →
      plainAccount.Agrees s := by
  intro h
  obtain ⟨⟨seed, hs⟩, -⟩ := h [⟨0, some [joinRecord, [0xff]], ()⟩] _ rfl
  exact absurd (Except.ok.inj hs) (by decide)

end Account

end Spot
