import Spot.Client.Supply
import Spot.General.Entries
import Spot.General.SortedMap
import Spot.Proto.Packet

/-!
# The calls on a builder

A builder collects keys, metadata and handlers in any order.  `build_calls` says what a client that
is built has of them: the last value of each metadata key, in the order of the keys, on its card for
good; and under each name the last handler, or a default one.  Nothing else about the calls matters,
but for the order of the keys.
-/

namespace Spot

variable {B : Bottlers}

/-! ## Metadata in the order of its keys -/

/-- The order of strings in a `BTreeMap`. -/
def strLt (k k' : Str) : Prop := k.bytes < k'.bytes

instance : DecidableRel strLt := fun k k' => inferInstanceAs (Decidable (k.bytes < k'.bytes))

instance : IsStrictTotalOrder Str strLt where
  trichotomous k k' h h' := by
    have hbytes : k.bytes = k'.bytes := Std.Trichotomous.trichotomous (r := (· < ·)) _ _ h h'
    exact Str.ext (by rw [← k.lossy_bytes, hbytes, k'.lossy_bytes])
  irrefl k := List.lt_irrefl k.bytes
  trans _ _ _ := List.lt_trans

theorem insertInfo_eq (k v : Str) (l : List (Str × Str)) :
    insertInfo k v l = insertSorted strLt k v l := by
  induction l with
  | nil => rfl
  | cons e l ih =>
    rw [insertInfo, insertSorted, ih]
    rfl

/-! ## Calls -/

namespace ClientBuilder

/-- Adds a metadata entry (`meta`). -/
def metaEntry (b : ClientBuilder B) (k v : Str) : ClientBuilder B :=
  { b with metadata := insertInfo k v b.metadata }

/-- Registers a message handler for an endpoint. -/
def handler (b : ClientBuilder B) (endpoint : Text) (f : ℕ) : ClientBuilder B :=
  { b with handlers := b.handlers.insert endpoint (.user f) }

end ClientBuilder

/-- A call on a builder. -/
inductive BuilderCall (B : Bottlers)
  | keys (i : Intake B)
  | metaEntry (k v : Str)
  | handler (endpoint : Text) (f : ℕ)

namespace BuilderCall

def apply (b : ClientBuilder B) : BuilderCall B → ClientBuilder B
  | keys i => i.apply b
  | metaEntry k v => b.metaEntry k v
  | handler endpoint f => b.handler endpoint f

/-- The builder after the calls. -/
def builder (calls : List (BuilderCall B)) : ClientBuilder B := calls.foldl apply {}

/-- The keys a call adds. -/
def taken : BuilderCall B → List B.PrivateKey
  | keys i => i.taken
  | _ => []

/-- The value a call gives to a metadata key. -/
def valueFor (k : Str) : BuilderCall B → Option Str
  | metaEntry k' v => if k = k' then some v else none
  | _ => none

/-- The handler a call registers under a name. -/
def handlerFor (name : Text) : BuilderCall B → Option Handler
  | handler endpoint f => if name = endpoint then some (.user f) else none
  | _ => none

/-- The calls add the same keys in the same order, and the last value of each metadata key and the
last handler of each name are the same. -/
structure Alike (calls calls' : List (BuilderCall B)) : Prop where
  keys : calls.flatMap taken = calls'.flatMap taken
  metadata : ∀ k, lastOf (valueFor k) calls = lastOf (valueFor k) calls'
  handlers : ∀ name, lastOf (handlerFor name) calls = lastOf (handlerFor name) calls'

variable {calls calls' : List (BuilderCall B)}

theorem keys_builder : (builder calls).keys = calls.flatMap taken := by
  suffices h : ∀ b : ClientBuilder B,
      (calls.foldl apply b).keys = b.keys ++ calls.flatMap taken from h {}
  induction calls with
  | nil => exact fun b => (List.append_nil _).symm
  | cons c calls ih =>
    intro b
    rw [List.foldl_cons, ih, List.flatMap_cons, ← List.append_assoc]
    congr 1
    cases c with
    | keys i => cases i <;> rfl
    | metaEntry | handler => exact (List.append_nil _).symm

/-- A map that every call sets at a key or leaves alone there. -/
theorem lookup_builder {α : Type} {g : ClientBuilder B → Option α} {f : BuilderCall B → Option α}
    (h : ∀ b c, g (apply b c) = (f c).or (g b)) (hnone : g {} = none) :
    g (builder calls) = lastOf f calls := by
  have hset : ∀ b c, g (apply b c) = ((f c).map some).getD (g b) := by
    intro b c
    rw [h]
    cases f c <;> rfl
  rw [builder, foldl_field hset, hnone, lastOf_map]
  cases lastOf f calls <;> rfl

theorem lookup_metadata (k : Str) :
    (builder calls).metadata.lookup k = lastOf (valueFor k) calls := by
  refine lookup_builder (g := fun b => b.metadata.lookup k) (fun b c => ?_) rfl
  cases c with
  | metaEntry k' v =>
    show (insertInfo k' v b.metadata).lookup k = _
    rw [insertInfo_eq, lookup_insertSorted, valueFor]
    split_ifs <;> rfl
  | keys i => cases i <;> rfl
  | handler => rfl

theorem ascending_metadata : Ascending strLt (builder calls).metadata := by
  suffices h : ∀ b : ClientBuilder B, Ascending strLt b.metadata →
      Ascending strLt (calls.foldl apply b).metadata from h {} .nil
  induction calls with
  | nil => exact fun b => id
  | cons c calls ih =>
    intro b hb
    refine ih _ ?_
    cases c with
    | metaEntry k v =>
      show Ascending strLt (insertInfo k v b.metadata)
      rw [insertInfo_eq]
      exact ascending_insertSorted hb
    | keys i => cases i <;> exact hb
    | handler => exact hb

theorem lookup_handlers (name : Text) :
    (builder calls).handlers.lookup name = lastOf (handlerFor name) calls := by
  refine lookup_builder (g := fun b => b.handlers.lookup name) (fun b c => ?_) rfl
  cases c with
  | handler endpoint f =>
    show (b.handlers.insert endpoint (.user f)).lookup name = _
    rw [handlerFor]
    split_ifs with hname
    · rw [hname, AList.lookup_insert]
      rfl
    · rw [AList.lookup_insert_ne hname]
      rfl
  | keys i => cases i <;> rfl
  | metaEntry => rfl

/-- Calls that are alike give the same keys and metadata. -/
theorem Alike.builder (h : Alike calls calls') :
    (builder calls').keys = (builder calls).keys ∧
      (builder calls').metadata = (builder calls).metadata := by
  refine ⟨?_, ascending_metadata.ext ascending_metadata fun k => ?_⟩
  · rw [keys_builder, keys_builder, h.keys]
  · rw [lookup_metadata, lookup_metadata, h.metadata]

end BuilderCall

/-! ## What is built of them -/

open BuilderCall

/-- The handler under a name that nobody registered. -/
def defaultHandler (name : Text) : Option Handler :=
  if name = "ping".toList then some .ping
  else if name = "version".toList then some .version
  else if name = "finger".toList then some .finger
  else if name = "idcard_update".toList then some .idcardUpdate
  else none

theorem lookup_orInsert {n : String} {h : Handler} {handlers : AList fun _ : Text => Handler}
    {name : Text} : (orInsert n h handlers).lookup name =
      (handlers.lookup name).or (if name = n.toList then some h else none) := by
  unfold orInsert
  by_cases hname : name = n.toList
  · rw [hname, if_pos rfl]
    cases hlookup : handlers.lookup n.toList with
    | some k => rw [Option.isSome_some, if_pos rfl, hlookup, Option.some_or]
    | none =>
      rw [Option.isSome_none, if_neg Bool.false_ne_true, AList.lookup_insert, Option.none_or]
  · rw [if_neg hname, Option.or_none]
    split_ifs
    · rfl
    · exact AList.lookup_insert_ne hname

theorem lookup_withDefaults (handlers : AList fun _ : Text => Handler) (name : Text) :
    (withDefaults handlers).lookup name = (handlers.lookup name).or (defaultHandler name) := by
  simp only [withDefaults, lookup_orInsert, Option.or_assoc]
  unfold defaultHandler
  split_ifs <;> rfl

theorem metadata_addKeys {id card : B.Card} {now : ℤ} {keys : List B.PrivateKey}
    (h : addKeys B id now keys = .ok card) : card.metadata = id.metadata := by
  induction keys generalizing id with
  | nil =>
    obtain rfl := Except.ok.inj h
    rfl
  | cons key keys ih =>
    rw [addKeys] at h
    split_ifs at h
    · exact ih h
    · split at h
      · cases h
      · exact (ih h).trans rfl

theorem metadata_ownCard {env : BuildEnv B} {metadata : List (Str × Str)} {kc : B.Keychain}
    {signer : B.PrivateKey} {pkix : Bytes} {ephemeral : Bool} {st : IdState B}
    (h : ownCard B env metadata kc signer pkix ephemeral = .ok st) :
    st.card.metadata = some metadata := by
  unfold ownCard at h
  obtain ⟨card, -, h⟩ := bind_eq_ok h
  obtain ⟨card', hkeys, h⟩ := bind_eq_ok h
  obtain ⟨signed, -, h⟩ := bind_eq_ok h
  obtain rfl := Except.ok.inj h
  cases ephemeral <;> exact metadata_addKeys hkeys

theorem metadata_foldl_applyMembership {ρ : Type} (ms : List Membership) (id : IDCard ρ) :
    (ms.foldl applyMembership id).metadata = id.metadata := by
  induction ms generalizing id with
  | nil => rfl
  | cons m ms ih =>
    rw [List.foldl_cons, ih, applyMembership]
    split_ifs <;> rfl

/-- Answering a request does not change the metadata. -/
theorem metadata_step {C : Ciborium} {acct : Account B} {s s' : Account.History B}
    {a : Account.Handshake B} (h : acct.step C s a = some s') :
    s'.st.card.metadata = s.st.card.metadata := by
  unfold Account.step at h
  split at h
  · obtain rfl := Option.some.inj h
    rfl
  · rename_i groups _
    obtain rfl := Option.some.inj h
    show (acct.handleGroups C s.st a.seed groups).1.card.metadata = _
    rw [Account.handleGroups_eq, ← metadata_foldl_applyMembership
      (appliedRecords B C s.st.card.selfKey groups) s.st.card]
    cases firstFailure B C s.st.card.selfKey groups with
    | some e => rfl
    | none =>
      dsimp only
      split <;> rfl

theorem Built.Current.metadata {C : Ciborium} {built : Built B} {card : B.Card}
    (h : built.Current C card) : card.metadata = built.st.card.metadata := by
  obtain ⟨s, hreach, rfl⟩ := h
  exact hreach.invariant (I := fun s => s.st.card.metadata = built.st.card.metadata)
    (fun _ _ _ hs hstep => (metadata_step hstep).trans hs) rfl

theorem handlers_of_build {env : BuildEnv B} {b : ClientBuilder B} {built : Built B}
    (h : b.build env = .ok built) : built.handlers = withDefaults b.handlers := by
  unfold ClientBuilder.build at h
  split at h
  · cases h
  split at h
  · cases h
  split at h
  · cases h
  split at h
  · cases h
  obtain rfl := Except.ok.inj h
  rfl

/-- The identity that is built does not depend on the handlers. -/
theorem build_withHandlers (env : BuildEnv B) (b : ClientBuilder B)
    (handlers : AList fun _ : Text => Handler) :
    { b with handlers }.build env =
      (b.build env).map fun built => { built with handlers := withDefaults handlers } := by
  have hall : { b with handlers }.allKeys env = b.allKeys env := rfl
  have heph : { b with handlers }.ephemeral = b.ephemeral := rfl
  unfold ClientBuilder.build
  rw [hall, heph]
  cases fillKeychains B (b.allKeys env) (B.newKeychain, B.newKeychain) with
  | error e => rfl
  | ok kcs =>
    obtain ⟨kc, opener⟩ := kcs
    dsimp only
    cases signerPkix B kc with
    | error e => rfl
    | ok pkix =>
      dsimp only
      split
      · rfl
      · rename_i signer hsigner
        cases ownCard B env b.metadata kc signer pkix b.ephemeral <;> rfl

/-- A client that is built from calls has on its card, also after any number of handshake requests,
the last value of each metadata key, in the order of the keys; under each name it has the last
handler, or a default one; and other calls that supply the same keys in the same order, the same
last values and the same last handlers build the same client. -/
theorem build_calls (C : Ciborium) {env : BuildEnv B} {calls : List (BuilderCall B)}
    {built : Built B} (h : (builder calls).build env = .ok built) :
    (∀ card, built.Current C card → ∃ entries, card.metadata = some entries ∧
      Ascending strLt entries ∧ ∀ k, entries.lookup k = lastOf (valueFor k) calls) ∧
    (∀ name, built.handlers.lookup name =
      (lastOf (handlerFor name) calls).or (defaultHandler name)) ∧
    ∀ calls', BuilderCall.Alike calls calls' → ∃ built', (builder calls').build env = .ok built' ∧
      built'.acct = built.acct ∧ built'.st = built.st ∧
      ∀ name, built'.handlers.lookup name = built.handlers.lookup name := by
  have hhandlers : ∀ {calls : List (BuilderCall B)} {built : Built B},
      (builder calls).build env = .ok built → ∀ name, built.handlers.lookup name =
        (lastOf (handlerFor name) calls).or (defaultHandler name) := by
    intro calls built h name
    rw [handlers_of_build h, lookup_withDefaults, lookup_handlers]
  refine ⟨fun card hcard => ?_, hhandlers h, fun calls' halike => ?_⟩
  · refine ⟨(builder calls).metadata, ?_, ascending_metadata, lookup_metadata⟩
    rw [hcard.metadata]
    exact metadata_ownCard (build_eq_ok h).2.2
  · obtain ⟨hkeys, hmetadata⟩ := halike.builder
    have hbuilder : builder calls' =
        { builder calls with handlers := (builder calls').handlers } := by
      dsimp only
      rw [← hkeys, ← hmetadata]
    have hbuild : (builder calls').build env =
        .ok { built with handlers := withDefaults (builder calls').handlers } := by
      rw [hbuilder, build_withHandlers, h]
      rfl
    refine ⟨_, hbuild, rfl, rfl, fun name => ?_⟩
    rw [hhandlers hbuild, hhandlers h, halike.handlers]

def nameKey : Str := ⟨"name".toList, by decide⟩

def areaKey : Str := ⟨"area".toList, by decide⟩

def pingName : Text := "ping".toList

/-- Two handlers and two values for one name, with a key between them. -/
def mixedCalls : List (BuilderCall plain) :=
  [.metaEntry nameKey areaKey, .handler pingName 1, .keys (.key (Plain.mk .ecdsa 5)),
    .metaEntry areaKey areaKey, .handler pingName 2, .metaEntry nameKey nameKey]

/-- The same with what is overwritten left out. -/
def lastCalls : List (BuilderCall plain) :=
  [.handler pingName 2, .metaEntry nameKey nameKey, .metaEntry areaKey areaKey,
    .keys (.key (Plain.mk .ecdsa 5))]

theorem alike_mixedCalls : BuilderCall.Alike mixedCalls lastCalls where
  keys := rfl
  metadata k := by
    by_cases hname : k = nameKey
    · subst hname
      decide
    · by_cases harea : k = areaKey
      · subst harea
        decide
      · simp only [mixedCalls, lastCalls, lastOf, List.filterMap_cons, List.filterMap_nil,
          BuilderCall.valueFor, if_neg hname, if_neg harea]
  handlers name := by
    by_cases hping : name = pingName
    · subst hping
      decide
    · simp only [mixedCalls, lastCalls, lastOf, List.filterMap_cons, List.filterMap_nil,
        BuilderCall.handlerFor, if_neg hping]

theorem build_calls_mixedCalls :
    ∃ built : Built plain, (builder mixedCalls).build ⟨(), (), 0, 0, 0⟩ = .ok built ∧
      built.st.card.metadata = some [(areaKey, areaKey), (nameKey, nameKey)] ∧
      built.handlers.lookup pingName = some (.user 2) ∧
      built.handlers.lookup "finger".toList = some .finger ∧
      ∃ built', (builder lastCalls).build ⟨(), (), 0, 0, 0⟩ = .ok built' ∧
        built'.st = built.st := by
  have h : (builder mixedCalls).build ⟨(), (), 0, 0, 0⟩ = .ok _ := rfl
  obtain ⟨-, hhandlers, hsame⟩ := build_calls sampleCiborium h
  obtain ⟨built', hbuild', -, hst, -⟩ := hsame _ alike_mixedCalls
  exact ⟨_, h, rfl, hhandlers _, hhandlers _, built', hbuild', hst⟩

end Spot
