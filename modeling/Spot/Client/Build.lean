import Spot.Client.IdState
import Spot.Client.Inner

/-!
# Building a client

`build` makes a client from the keys it is given, or from a new one: a keychain and a copy of it to
open bottles with, a main key to sign with, and a card that lists all keys.  `ready_build` says that
the card and the keychains fit together, `Built.Current.ready` that they still do after any number
of handshake requests.
-/

namespace Spot

/-- The keys, metadata and handlers set before a client is built. -/
structure ClientBuilder (B : Bottlers) where
  keys : List B.PrivateKey := []
  metadata : List (Str × Str) := []
  handlers : AList (fun _ : Text => Handler) := ∅

/-- The random bytes drawn, and the times read, while a client is built. -/
structure BuildEnv (B : Bottlers) where
  generate : B.Seed
  sign : B.Seed
  created : ℤ
  listed : ℤ
  marked : ℤ

/-- A new client: its keys, its identity and its handlers. -/
structure Built (B : Bottlers) where
  acct : Account B
  st : IdState B
  handlers : AList (fun _ : Text => Handler)

variable {B : Bottlers}

/-- Adds the keys to a keychain, and a copy of each to another. -/
def fillKeychains (B : Bottlers) :
    List B.PrivateKey → B.Keychain × B.Keychain → Result (B.Keychain × B.Keychain)
  | [], kcs => .ok kcs
  | key :: keys, (kc, openerKc) => do
    let copy ← clonePrivateKey B key
    let openerKc ← wrapBottle (B.addKey openerKc copy)
    let kc ← wrapBottle (B.addKey kc key)
    fillKeychains B keys (kc, openerKc)

/-- The public form of the first key of a keychain that can sign. -/
def signerPkix (B : Bottlers) (kc : B.Keychain) : Result Bytes :=
  match B.firstSigner kc with
  | none => .error (.other "no signing key available".toList)
  | some key => wrapBottle (B.publicPkix key)

def ephemeralPurpose : Text := "ephemeral".toList

/-- The card of a new client, and its signed form. -/
def ownCard (B : Bottlers) (env : BuildEnv B) (metadata : List (Str × Str)) (kc : B.Keychain)
    (signer : B.PrivateKey) (pkix : Bytes) (ephemeral : Bool) : Result (IdState B) := do
  let card ← wrapBottle (B.newCard signer env.created)
  let card ← addKeychain B { card with metadata := some metadata } kc env.listed
  let card := if ephemeral then addKeyPurposes B card pkix [ephemeralPurpose] env.marked else card
  let signed ← wrapBottle (B.signCard env.sign signer card)
  return { card, signed }

/-- Adds a handler where there is none. -/
def orInsert (name : String) (h : Handler) (handlers : AList fun _ : Text => Handler) :
    AList fun _ : Text => Handler :=
  if (handlers.lookup name.toList).isSome then handlers else handlers.insert name.toList h

/-- The default handlers, those that need the client's state last. -/
def withDefaults (handlers : AList fun _ : Text => Handler) : AList fun _ : Text => Handler :=
  orInsert "idcard_update" .idcardUpdate (orInsert "finger" .finger
    (orInsert "version" .version (orInsert "ping" .ping handlers)))

namespace ClientBuilder

/-- Whether no key was supplied, so that a new one is made. -/
def ephemeral (b : ClientBuilder B) : Bool := b.keys.isEmpty

/-- The keys of the client. -/
def allKeys (env : BuildEnv B) (b : ClientBuilder B) : List B.PrivateKey :=
  if b.ephemeral then [⟨.ecdsa, B.generate env.generate⟩] else b.keys

/-- Builds the client. -/
def build (env : BuildEnv B) (b : ClientBuilder B) : Except (Fault Error) (Built B) :=
  match fillKeychains B (b.allKeys env) (B.newKeychain, B.newKeychain) with
  | .error e => .error (.err e)
  | .ok (kc, opener) =>
    match signerPkix B kc with
    | .error e => .error (.err e)
    | .ok pkix =>
      match hsigner : B.getKey kc pkix with
      | none => .error .panic
      | some signer =>
        match ownCard B env b.metadata kc signer pkix b.ephemeral with
        | .error e => .error (.err e)
        | .ok st => .ok
          { acct := { kc, signerPkix := pkix, opener, signer, signer_eq := hsigner }
            st
            handlers := withDefaults b.handlers }

end ClientBuilder

/-! ## Copies of keys -/

namespace Bottlers

theorem SameKey.refl (key : B.PrivateKey) : B.SameKey key key := ⟨rfl, rfl⟩

theorem SameKey.trans {key₁ key₂ key₃ : B.PrivateKey} (h : B.SameKey key₁ key₂)
    (h' : B.SameKey key₂ key₃) : B.SameKey key₁ key₃ :=
  ⟨h.1.trans h'.1, h.2.trans h'.2⟩

end Bottlers

theorem sameKey_of_clonePrivateKey (hB : B.Lawful) {key copy : B.PrivateKey}
    (h : clonePrivateKey B key = .ok copy) : B.SameKey copy key := by
  obtain ⟨kind, sk⟩ := key
  cases kind with
  | ecdsa =>
    simp only [clonePrivateKey] at h
    split at h
    · rename_i sk' hsk
      obtain rfl := Except.ok.inj h
      exact ⟨rfl, hB.publicPkix_ecdsa sk sk' hsk⟩
    · cases h
  | ed25519 =>
    obtain rfl := Except.ok.inj h
    exact ⟨rfl, hB.publicPkix_ed25519 sk⟩
  | rsa =>
    simp only [clonePrivateKey] at h
    split at h
    · rename_i sk' hsk
      obtain rfl := Except.ok.inj h
      exact ⟨rfl, hB.publicPkix_rsa sk sk' hsk⟩
    · cases h
  | _ => cases h

/-- Every key of the keychain has a copy in the opener. -/
theorem holds_fillKeychains (hB : B.Lawful) {keys : List B.PrivateKey} {kc openerKc : B.Keychain}
    {kcs : B.Keychain × B.Keychain}
    (hkc : ∀ key, B.Holds kc key → B.Holds openerKc key)
    (h : fillKeychains B keys (kc, openerKc) = .ok kcs) :
    ∀ key, B.Holds kcs.1 key → B.Holds kcs.2 key := by
  induction keys generalizing kc openerKc with
  | nil =>
    obtain rfl := Except.ok.inj h
    exact hkc
  | cons key keys ih =>
    rw [fillKeychains] at h
    obtain ⟨copy, hcopy, h⟩ := bind_eq_ok h
    obtain ⟨openerKc', hopener, h⟩ := bind_eq_ok h
    obtain ⟨kc', hadd, h⟩ := bind_eq_ok h
    rw [wrapBottle_eq_ok] at hopener hadd
    refine ih (fun k hk => ?_) h
    rw [hB.holds_addKey _ _ _ hopener]
    rcases (hB.holds_addKey _ _ _ hadd k).1 hk with hk | hk
    · exact .inl (hkc k hk)
    · exact .inr ((sameKey_of_clonePrivateKey hB hcopy).trans hk)

/-- The keychain has the keys it had, and those that were added. -/
theorem holds_fillKeychains_iff (hB : B.Lawful) {keys : List B.PrivateKey}
    {kc openerKc : B.Keychain} {kcs : B.Keychain × B.Keychain}
    (h : fillKeychains B keys (kc, openerKc) = .ok kcs) (key : B.PrivateKey) :
    B.Holds kcs.1 key ↔ B.Holds kc key ∨ ∃ k ∈ keys, B.SameKey k key := by
  induction keys generalizing kc openerKc with
  | nil =>
    obtain rfl := Except.ok.inj h
    simp
  | cons k keys ih =>
    rw [fillKeychains] at h
    obtain ⟨copy, -, h⟩ := bind_eq_ok h
    obtain ⟨openerKc', -, h⟩ := bind_eq_ok h
    obtain ⟨kc', hadd, h⟩ := bind_eq_ok h
    rw [wrapBottle_eq_ok] at hadd
    rw [ih h, hB.holds_addKey _ _ _ hadd, List.exists_mem_cons_iff, or_assoc]

/-! ## Keys listed on a card -/

/-- A subkey `pkix` with the purposes `ps` is on the list. -/
def Lists (B : Bottlers) (subs : List SubKey) (pkix : Bytes) (ps : List Text) : Prop :=
  ∃ sub ∈ subs, sub.key = pkix ∧ ∀ p ∈ ps, B.hasPurpose sub p = true

section Lists

variable {subs : List SubKey} {pkix : Bytes} {ps : List Text} {now : ℤ}

theorem lists_addPurposesTo (hB : B.Lawful) :
    Lists B (addPurposesTo B pkix ps now subs) pkix ps := by
  induction subs with
  | nil =>
    refine ⟨_, List.mem_cons_self, hB.key_addPurpose _ _, fun p hp => ?_⟩
    exact (hB.hasPurpose_addPurpose _ _ _).2 (.inr hp)
  | cons sub subs ih =>
    rw [addPurposesTo]
    split
    · rename_i hkey
      refine ⟨_, List.mem_cons_self, (hB.key_addPurpose _ _).trans hkey, fun p hp => ?_⟩
      exact (hB.hasPurpose_addPurpose _ _ _).2 (.inr hp)
    · obtain ⟨s, hs, hsub⟩ := ih
      exact ⟨s, List.mem_cons_of_mem _ hs, hsub⟩

theorem Lists.addPurposesTo (hB : B.Lawful) {pkix' : Bytes} {ps' : List Text}
    (h : Lists B subs pkix' ps') : Lists B (addPurposesTo B pkix ps now subs) pkix' ps' := by
  induction subs with
  | nil =>
    obtain ⟨s, hs, -⟩ := h
    cases hs
  | cons sub subs ih =>
    rw [Spot.addPurposesTo]
    obtain ⟨s, hs, hkey', hps⟩ := h
    split
    · rcases List.mem_cons.1 hs with rfl | hs
      · refine ⟨_, List.mem_cons_self, (hB.key_addPurpose _ _).trans hkey', fun p hp => ?_⟩
        exact (hB.hasPurpose_addPurpose _ _ _).2 (.inl (hps p hp))
      · exact ⟨s, List.mem_cons_of_mem _ hs, hkey', hps⟩
    · rcases List.mem_cons.1 hs with rfl | hs
      · exact ⟨s, List.mem_cons_self, hkey', hps⟩
      · obtain ⟨s', hs', hsub⟩ := ih ⟨s, hs, hkey', hps⟩
        exact ⟨s', List.mem_cons_of_mem _ hs', hsub⟩

theorem soundKey_addPurpose (hB : B.Lawful) {sub : SubKey} {key : B.PrivateKey}
    (hs : B.hasPurpose sub decryptPurpose = true → B.SoundKey sub) (he : sub.expires = none)
    (hkey : B.publicPkix key = .ok sub.key)
    (hps : decryptPurpose ∈ ps → decryptPurpose ∈ keyPurposes key.1) :
    B.SoundKey (B.addPurpose sub ps) := by
  refine ⟨(hB.expires_addPurpose _ _).trans he, ?_⟩
  rw [hB.key_addPurpose]
  cases hp : B.hasPurpose sub decryptPurpose with
  | true =>
    obtain ⟨-, key', hkey', hp'⟩ := hs hp
    exact ⟨key', hkey', fun _ => hp' hp⟩
  | false =>
    refine ⟨key, hkey, fun h => ?_⟩
    rcases (hB.hasPurpose_addPurpose _ _ _).1 h with h | h
    · rw [hp] at h
      cases h
    · exact hps h

theorem soundKey_addPurposesTo (hB : B.Lawful) {key : B.PrivateKey}
    (hkey : B.publicPkix key = .ok pkix)
    (hps : decryptPurpose ∈ ps → decryptPurpose ∈ keyPurposes key.1)
    (hs : ∀ sub ∈ subs, B.SoundKey sub) :
    ∀ sub ∈ addPurposesTo B pkix ps now subs, B.SoundKey sub := by
  induction subs with
  | nil =>
    intro sub hsub
    obtain rfl := List.mem_singleton.1 hsub
    refine soundKey_addPurpose hB (fun hp => ?_) rfl hkey hps
    rw [hB.hasPurpose_nil _ _ rfl] at hp
    cases hp
  | cons sub subs ih =>
    have hrest : ∀ s ∈ subs, B.SoundKey s := fun s h => hs s (List.mem_cons_of_mem _ h)
    have hsub := hs sub List.mem_cons_self
    rw [addPurposesTo]
    split
    · rename_i hpkix
      intro s h
      rcases List.mem_cons.1 h with rfl | h
      · exact soundKey_addPurpose hB (fun _ => hsub) hsub.1 (hpkix ▸ hkey) hps
      · exact hrest s h
    · intro s h
      rcases List.mem_cons.1 h with rfl | h
      · exact hsub
      · exact ih hrest s h

end Lists

/-- What listing keys does to a card: all of them are listed, and the rest stays. -/
theorem addKeys_eq_ok (hB : B.Lawful) {card card' : B.Card} {now : ℤ} {keys : List B.PrivateKey}
    (h : addKeys B card now keys = .ok card') :
    card'.selfKey = card.selfKey ∧ (B.Sound card → B.Sound card') ∧
      (∀ pkix ps, Lists B card.subkeys pkix ps → Lists B card'.subkeys pkix ps) ∧
      ∀ key ∈ keys, ∃ pkix, B.publicPkix key = .ok pkix ∧
        Lists B card'.subkeys pkix (keyPurposes key.1) := by
  induction keys generalizing card with
  | nil =>
    obtain rfl := Except.ok.inj h
    exact ⟨rfl, id, fun _ _ => id, fun key hkey => absurd hkey List.not_mem_nil⟩
  | cons key keys ih =>
    have hpurposes : keyPurposes key.1 ≠ [] := by
      cases key.1 <;> exact List.cons_ne_nil _ _
    rw [addKeys, if_neg hpurposes] at h
    cases hkey : B.publicPkix key with
    | error e =>
      simp only [hkey] at h
      cases h
    | ok pkix =>
      simp only [hkey] at h
      obtain ⟨hself, hsound, hlists, hall⟩ := ih h
      refine ⟨hself, fun hs => hsound ?_, fun p ps hp => hlists p ps (hp.addPurposesTo hB),
        fun key' hkey' => ?_⟩
      · exact soundKey_addPurposesTo hB hkey id hs
      · rcases List.mem_cons.1 hkey' with rfl | hkey'
        · exact ⟨pkix, hkey, hlists _ _ (lists_addPurposesTo hB)⟩
        · exact hall key' hkey'

/-! ## A client whose card fits its keys -/

/-- The card is the one of the main key, which can sign; all keys of the client are listed on it,
and have a copy that can open. -/
structure Account.Ready (acct : Account B) (card : B.Card) : Prop where
  selfKey : card.selfKey = acct.signerPkix
  sound : B.Sound card
  signs : signPurpose ∈ keyPurposes acct.signer.1
  pkix : B.publicPkix acct.signer = .ok acct.signerPkix
  main : acct.signer ∈ B.keys acct.kc
  listed : ∀ key ∈ B.keys acct.kc, ∃ pkix, B.publicPkix key = .ok pkix ∧
    Lists B card.subkeys pkix (keyPurposes key.1)
  opens : ∀ key ∈ B.keys acct.kc, B.Holds acct.opener key

theorem signerPkix_eq_ok {kc : B.Keychain} {pkix : Bytes} (h : signerPkix B kc = .ok pkix) :
    ∃ key, B.firstSigner kc = some key ∧ B.publicPkix key = .ok pkix := by
  unfold signerPkix at h
  cases hfirst : B.firstSigner kc with
  | none =>
    simp only [hfirst] at h
    cases h
  | some key =>
    simp only [hfirst, wrapBottle_eq_ok] at h
    exact ⟨key, rfl, h⟩

theorem ownCard_eq_ok (hB : B.Lawful) {env : BuildEnv B} {metadata : List (Str × Str)}
    {kc : B.Keychain} {signer : B.PrivateKey} {pkix : Bytes} {ephemeral : Bool} {st : IdState B}
    (hpkix : B.publicPkix signer = .ok pkix)
    (h : ownCard B env metadata kc signer pkix ephemeral = .ok st) :
    st.card.selfKey = pkix ∧ B.Sound st.card ∧
      (∃ seed, B.signCard seed signer st.card = .ok st.signed) ∧
      ∀ key ∈ B.keys kc, ∃ pkix, B.publicPkix key = .ok pkix ∧
        Lists B st.card.subkeys pkix (keyPurposes key.1) := by
  unfold ownCard at h
  obtain ⟨card, hcard, h⟩ := bind_eq_ok h
  obtain ⟨card', hcard', h⟩ := bind_eq_ok h
  obtain ⟨signed, hsigned, h⟩ := bind_eq_ok h
  obtain rfl := Except.ok.inj h
  rw [wrapBottle_eq_ok] at hcard hsigned
  obtain ⟨hself, hsubs⟩ := hB.newCard_eq_ok signer env.created card hcard
  have hself' : card.selfKey = pkix := Except.ok.inj (hself.symm.trans hpkix)
  have hsound : B.Sound { card with metadata := some metadata } := by
    intro sub hsub
    obtain ⟨hkey, hexp, hdec⟩ := hsubs sub hsub
    refine ⟨hexp, signer, by rw [hkey]; exact hself, fun hp => ?_⟩
    rw [hdec] at hp
    cases hp
  obtain ⟨hself₁, hsound₁, -, hall⟩ := addKeys_eq_ok hB hcard'
  cases ephemeral with
  | false => exact ⟨hself₁.trans hself', hsound₁ hsound, ⟨_, hsigned⟩, hall⟩
  | true =>
    refine ⟨hself₁.trans hself', ?_, ⟨_, hsigned⟩, fun key hkey => ?_⟩
    · refine soundKey_addPurposesTo hB hpkix (fun hp => absurd hp (by decide)) (hsound₁ hsound)
    · obtain ⟨p, hp, hl⟩ := hall key hkey
      exact ⟨p, hp, hl.addPurposesTo hB⟩

/-- What a client is built of. -/
theorem build_eq_ok {env : BuildEnv B} {b : ClientBuilder B} {built : Built B}
    (h : b.build env = .ok built) :
    fillKeychains B (b.allKeys env) (B.newKeychain, B.newKeychain) =
        .ok (built.acct.kc, built.acct.opener) ∧
      signerPkix B built.acct.kc = .ok built.acct.signerPkix ∧
      ownCard B env b.metadata built.acct.kc built.acct.signer built.acct.signerPkix b.ephemeral =
        .ok built.st := by
  unfold ClientBuilder.build at h
  split at h
  · cases h
  rename_i kc opener hfill
  split at h
  · cases h
  rename_i pkix hsigner
  split at h
  · cases h
  split at h
  · cases h
  rename_i st hcard
  obtain rfl := Except.ok.inj h
  exact ⟨hfill, hsigner, hcard⟩

/-- A client that is built is ready, with its card signed. -/
theorem ready_build (hB : B.Lawful) {env : BuildEnv B} {b : ClientBuilder B} {built : Built B}
    (h : b.build env = .ok built) :
    built.acct.Ready built.st.card ∧ built.acct.Signed built.st := by
  obtain ⟨hfill, hsigner, hcard⟩ := build_eq_ok h
  obtain ⟨hmem, hpkix⟩ := hB.getKey_eq_some _ _ _ built.acct.signer_eq
  obtain ⟨hself, hsound, hsigned, hlisted⟩ := ownCard_eq_ok hB hpkix hcard
  obtain ⟨first, hfirst, hkey⟩ := signerPkix_eq_ok hsigner
  refine ⟨⟨hself, hsound, ?_, hpkix, hmem, hlisted, fun key hk => ?_⟩, hsigned⟩
  · rw [hB.kind_eq _ first _ hpkix hkey]
    exact (hB.firstSigner_eq_some _ first hfirst).2
  · exact holds_fillKeychains hB (fun _ => id) hfill key ⟨key, hk, .refl key⟩

/-- The keychain of a client has the keys it was built from. -/
theorem holds_build (hB : B.Lawful) {env : BuildEnv B} {b : ClientBuilder B} {built : Built B}
    (h : b.build env = .ok built) (key : B.PrivateKey) :
    B.Holds built.acct.kc key ↔ ∃ k ∈ b.allKeys env, B.SameKey k key := by
  obtain ⟨hfill, -, -⟩ := build_eq_ok h
  rw [holds_fillKeychains_iff hB hfill, or_iff_right]
  rintro ⟨k, hk, -⟩
  rw [hB.keys_newKeychain] at hk
  cases hk

/-! ### The current card -/

/-- A card that the client may have after handshake requests. -/
def Built.Current (C : Ciborium) (built : Built B) (card : B.Card) : Prop :=
  ∃ s, Reachable (built.acct.step C) { st := built.st } s ∧ s.st.card = card

theorem foldl_applyMembership_keys {ρ : Type} (ms : List Membership) (id : IDCard ρ) :
    (ms.foldl applyMembership id).selfKey = id.selfKey ∧
      (ms.foldl applyMembership id).subkeys = id.subkeys := by
  induction ms generalizing id with
  | nil => exact ⟨rfl, rfl⟩
  | cons m ms ih =>
    rw [List.foldl_cons, (ih _).1, (ih _).2]
    exact ⟨selfKey_applyMembership id m, subkeys_applyMembership id m⟩

/-- Answering a request changes neither the main key nor the listed keys of the card. -/
theorem keys_step {C : Ciborium} {acct : Account B} {s s' : Account.History B}
    {a : Account.Handshake B} (h : acct.step C s a = some s') :
    s'.st.card.selfKey = s.st.card.selfKey ∧ s'.st.card.subkeys = s.st.card.subkeys := by
  unfold Account.step at h
  split at h
  · obtain rfl := Option.some.inj h
    exact ⟨rfl, rfl⟩
  · rename_i groups _
    obtain rfl := Option.some.inj h
    have hcard : (acct.groupCall C s.st a.seed groups).after.card =
        (appliedRecords B C s.st.card.selfKey groups).foldl applyMembership s.st.card := by
      unfold Account.groupCall
      rw [Account.handleGroups_eq]
      cases firstFailure B C s.st.card.selfKey groups with
      | some e => rfl
      | none =>
        simp only
        cases B.signCard a.seed acct.signer
          ((appliedRecords B C s.st.card.selfKey groups).foldl applyMembership s.st.card) <;> rfl
    rw [hcard]
    exact foldl_applyMembership_keys _ _

/-- The current card of a client fits its keys. -/
theorem Built.Current.ready (hB : B.Lawful) {C : Ciborium} {env : BuildEnv B} {b : ClientBuilder B}
    {built : Built B} (h : b.build env = .ok built) {card : B.Card} (hc : built.Current C card) :
    built.acct.Ready card := by
  obtain ⟨s, hreach, rfl⟩ := hc
  obtain ⟨hready, -⟩ := ready_build hB h
  have hkeys : s.st.card.selfKey = built.st.card.selfKey ∧
      s.st.card.subkeys = built.st.card.subkeys := by
    refine hreach.invariant (I := fun s => s.st.card.selfKey = built.st.card.selfKey ∧
      s.st.card.subkeys = built.st.card.subkeys) (fun s a s' hs hstep => ?_) ⟨rfl, rfl⟩
    obtain ⟨hself, hsubs⟩ := keys_step hstep
    exact ⟨hself.trans hs.1, hsubs.trans hs.2⟩
  obtain ⟨hself, hsound, hsigns, hpkix, hmain, hlisted, hopens⟩ := hready
  rw [← hkeys.1] at hself
  rw [← hkeys.2] at hlisted
  refine ⟨hself, ?_, hsigns, hpkix, hmain, hlisted, hopens⟩
  unfold Bottlers.Sound
  rw [hkeys.2]
  exact hsound

end Spot
