import Spot.Client.Address
import Spot.Client.Build

/-!
# The keys a client is built from

Keys reach the builder one by one (`key`) or as keychains (`keychain`).  A key that cannot be
duplicated makes `build` fail if it was given by itself, and is left out if it came in a keychain.

* `labels_fillKeychains`: the keychain of a new client has the keys of the builder, in their order;
* `usesSupplied_build`: a client that is built from keys has the first that can sign as its main
  key, and all of them on its card;
* `supplied_is_used_iff`: for which calls this holds of the keys supplied.
-/

namespace Spot

variable {B : Bottlers}

/-! ## Supplying keys -/

namespace ClientBuilder

/-- Adds a private key. -/
def key (b : ClientBuilder B) (k : B.PrivateKey) : ClientBuilder B :=
  { b with keys := b.keys ++ [k] }

/-- Adds copies of the keys of a keychain. -/
def keychain (b : ClientBuilder B) (kc : B.Keychain) : ClientBuilder B :=
  { b with keys := b.keys ++ (B.keys kc).filterMap fun k => (clonePrivateKey B k).toOption }

end ClientBuilder

/-- A call that supplies keys. -/
inductive Intake (B : Bottlers)
  | key (k : B.PrivateKey)
  | keychain (kc : B.Keychain)

namespace Intake

def apply (b : ClientBuilder B) : Intake B → ClientBuilder B
  | key k => b.key k
  | keychain kc => b.keychain kc

/-- The keys a call supplies. -/
def supplied : Intake B → List B.PrivateKey
  | key k => [k]
  | keychain kc => B.keys kc

/-- The keys a call adds to the builder. -/
def taken : Intake B → List B.PrivateKey
  | key k => [k]
  | keychain kc => (B.keys kc).filterMap fun k => (clonePrivateKey B k).toOption

end Intake

/-- The key can be duplicated. -/
def Duplicable (B : Bottlers) (k : B.PrivateKey) : Prop := ∃ copy, clonePrivateKey B k = .ok copy

/-- The key can sign. -/
def canSign (B : Bottlers) (k : B.PrivateKey) : Bool := (keyPurposes k.1).contains signPurpose

/-- The address of a client. -/
def Built.targetId (built : Built B) : Text := Spot.targetId B built.st.card.selfKey

/-- The identity of the client is made of the keys: the first that can sign is its main key, all are
listed on its card, it has no others, and the card is not marked. -/
structure Built.UsesSupplied (built : Built B) (keys : List B.PrivateKey) : Prop where
  main : ∃ k pkix, keys.find? (canSign B) = some k ∧ B.publicPkix k = .ok pkix ∧
    built.acct.signerPkix = pkix ∧ built.st.card.selfKey = pkix ∧
    built.targetId = Spot.targetId B pkix
  listed : ∀ k ∈ keys, ∃ pkix, B.publicPkix k = .ok pkix ∧
    Lists B built.st.card.subkeys pkix (keyPurposes k.1)
  own : ∀ k ∈ B.keys built.acct.kc, ∃ k' ∈ keys, B.SameKey k k'
  unmarked : ∀ sub ∈ built.st.card.subkeys, B.hasPurpose sub ephemeralPurpose = false

/-- Building fails with an error, or makes a client of the keys. -/
def SuppliedIsUsed (env : BuildEnv B) (b : ClientBuilder B) (keys : List B.PrivateKey) : Prop :=
  b.build env ≠ .error .panic ∧ ∀ built, b.build env = .ok built → built.UsesSupplied keys

namespace Bottlers

/-- What tells a key from others: its kind and its public form. -/
def label (B : Bottlers) (k : B.PrivateKey) : KeyKind × Except Text Bytes := (k.1, B.publicPkix k)

/-- What is relied on when a client is built: keys of the kinds that can be duplicated are copied,
published and added to keychains, and a card can be made for a key that can sign. -/
structure Copying (B : Bottlers) : Prop where
  ecdsaFromBytes_ok (sk : B.Secret .ecdsa) : ∃ copy, B.ecdsaFromBytes (B.ecdsaToBytes sk) = .ok copy
  rsaFromPkcs8Der_ok (sk : B.Secret .rsa) :
    ∃ copy, B.rsaFromPkcs8Der (B.rsaToPkcs8Der sk) = .ok copy
  publicPkix_ok (k : B.PrivateKey) : Duplicable B k → ∃ pkix, B.publicPkix k = .ok pkix
  addKey_ok (kc : B.Keychain) (k : B.PrivateKey) : Duplicable B k → ∃ kc', B.addKey kc k = .ok kc'
  getKey_ok (kc : B.Keychain) (k : B.PrivateKey) (pkix : Bytes) :
    k ∈ B.keys kc → B.publicPkix k = .ok pkix → ∃ k', B.getKey kc pkix = some k'
  newCard_ok (k : B.PrivateKey) (now : ℤ) : canSign B k = true → ∃ card, B.newCard k now = .ok card
  newCard_unmarked (k : B.PrivateKey) (now : ℤ) (card : B.Card) : B.newCard k now = .ok card →
    ∀ sub ∈ card.subkeys, B.hasPurpose sub ephemeralPurpose = false
  signCard_ok (seed : B.Seed) (k : B.PrivateKey) (card : B.Card) : canSign B k = true →
    ∃ signed, B.signCard seed k card = .ok signed

/-- Keychains keep the order in which keys were first added, when they list them and when they look
for one that can sign. -/
structure Orderly (B : Bottlers) : Prop extends Copying B where
  keys_addKey (kc kc' : B.Keychain) (k : B.PrivateKey) : B.addKey kc k = .ok kc' →
    (B.keys kc').map B.label = (B.keys kc).map B.label ++ [B.label k] ∨
      B.label k ∈ (B.keys kc).map B.label ∧ (B.keys kc').map B.label = (B.keys kc).map B.label
  firstSigner_eq (kc : B.Keychain) : B.firstSigner kc = (B.keys kc).find? (canSign B)

/-- Keychains keep that order when they look for a key that can sign; they may list their keys in
any order. -/
structure FirstSigns (B : Bottlers) : Prop extends Copying B where
  firstSigner_addKey (kc kc' : B.Keychain) (k : B.PrivateKey) : B.addKey kc k = .ok kc' →
    (B.firstSigner kc').map B.label =
      ((B.firstSigner kc).map B.label).or (if canSign B k then some (B.label k) else none)

end Bottlers

/-! ## Keys that can be duplicated -/

section Duplicable

variable {k k' : B.PrivateKey}

theorem sameKey_iff : B.SameKey k k' ↔ B.label k = B.label k' := Prod.mk.injEq .. ▸ Iff.rfl

theorem duplicable_iff (hC : B.Copying) :
    Duplicable B k ↔ k.1 = .ecdsa ∨ k.1 = .ed25519 ∨ k.1 = .rsa := by
  obtain ⟨kind, sk⟩ := k
  constructor
  · rintro ⟨copy, h⟩
    cases kind with
    | ecdsa => exact .inl rfl
    | ed25519 => exact .inr (.inl rfl)
    | rsa => exact .inr (.inr rfl)
    | _ => cases h
  · rintro (rfl | rfl | rfl)
    · obtain ⟨copy, h⟩ := hC.ecdsaFromBytes_ok sk
      exact ⟨⟨.ecdsa, copy⟩, by rw [clonePrivateKey, h]⟩
    · exact ⟨_, rfl⟩
    · obtain ⟨copy, h⟩ := hC.rsaFromPkcs8Der_ok sk
      exact ⟨⟨.rsa, copy⟩, by rw [clonePrivateKey, h]⟩

/-- Keys that can be duplicated can sign. -/
theorem Duplicable.canSign (h : Duplicable B k) : canSign B k = true := by
  obtain ⟨copy, h⟩ := h
  obtain ⟨kind, sk⟩ := k
  apply List.contains_iff_mem.2
  cases kind with
  | ecdsa | ed25519 | rsa => simp [keyPurposes]
  | _ => cases h

theorem Duplicable.of_sameKind (hC : B.Copying) (h : Duplicable B k) (hk : k'.1 = k.1) :
    Duplicable B k' := by
  rw [duplicable_iff hC, hk]
  exact (duplicable_iff hC).1 h

/-- A copy is the same key, and can be duplicated again. -/
theorem clone_spec (hB : B.Lawful) (hC : B.Copying) (h : clonePrivateKey B k = .ok k') :
    B.label k' = B.label k ∧ Duplicable B k' := by
  have hsame := sameKey_of_clonePrivateKey hB h
  exact ⟨sameKey_iff.1 hsame, Duplicable.of_sameKind hC ⟨k', h⟩ hsame.1⟩

end Duplicable

/-! ## What the builder is given -/

section Intake

variable {calls : List (Intake B)} {b : ClientBuilder B}

theorem keys_apply (c : Intake B) : (c.apply b).keys = b.keys ++ c.taken := by
  cases c <;> rfl

theorem foldl_apply (calls : List (Intake B)) (b : ClientBuilder B) :
    (calls.foldl Intake.apply b).keys = b.keys ++ calls.flatMap Intake.taken := by
  induction calls generalizing b with
  | nil => exact (List.append_nil _).symm
  | cons c calls ih =>
    rw [List.foldl_cons, ih, keys_apply, List.flatMap_cons, List.append_assoc]

/-- Keys that can all be duplicated are all copied. -/
theorem labels_copies (hB : B.Lawful) (hC : B.Copying) {ks : List B.PrivateKey}
    (h : ∀ k ∈ ks, Duplicable B k) :
    (ks.filterMap fun k => (clonePrivateKey B k).toOption).map B.label = ks.map B.label := by
  induction ks with
  | nil => rfl
  | cons k ks ih =>
    obtain ⟨copy, hcopy⟩ := h k List.mem_cons_self
    rw [List.filterMap_cons, hcopy]
    show B.label copy :: _ = B.label k :: _
    rw [(clone_spec hB hC hcopy).1, ih fun k hk => h k (List.mem_cons_of_mem _ hk)]

theorem labels_taken (hB : B.Lawful) (hC : B.Copying) {c : Intake B}
    (h : ∀ kc, c = .keychain kc → ∀ k ∈ B.keys kc, Duplicable B k) :
    c.taken.map B.label = c.supplied.map B.label := by
  cases c with
  | key k => rfl
  | keychain kc => exact labels_copies hB hC (h kc rfl)

theorem labels_flatMap_taken (hB : B.Lawful) (hC : B.Copying)
    (h : ∀ kc, .keychain kc ∈ calls → ∀ k ∈ B.keys kc, Duplicable B k) :
    (calls.flatMap Intake.taken).map B.label = (calls.flatMap Intake.supplied).map B.label := by
  induction calls with
  | nil => rfl
  | cons c calls ih =>
    rw [List.flatMap_cons, List.flatMap_cons, List.map_append, List.map_append,
      ih fun kc hkc => h kc (List.mem_cons_of_mem _ hkc),
      labels_taken hB hC fun kc hc => h kc (hc ▸ List.mem_cons_self)]

/-- What is taken from keychains can be duplicated. -/
theorem duplicable_taken (hB : B.Lawful) (hC : B.Copying)
    (h : ∀ k, .key k ∈ calls → Duplicable B k) :
    ∀ k ∈ calls.flatMap Intake.taken, Duplicable B k := by
  intro k hk
  obtain ⟨c, hc, hk⟩ := List.mem_flatMap.1 hk
  cases c with
  | key k' =>
    obtain rfl := List.mem_singleton.1 hk
    exact h k hc
  | keychain kc =>
    obtain ⟨k', -, hcopy⟩ := List.mem_filterMap.1 hk
    cases hclone : clonePrivateKey B k' with
    | error e =>
      rw [hclone] at hcopy
      cases hcopy
    | ok copy =>
      rw [hclone] at hcopy
      obtain rfl := Option.some.inj hcopy
      exact (clone_spec hB hC hclone).2

end Intake

/-! ## The keychain of a new client -/

section Keychain

variable {keys : List B.PrivateKey} {kcs kcs' : B.Keychain × B.Keychain} {k : B.PrivateKey}

theorem fillKeychains_eq_ok (h : fillKeychains B keys kcs = .ok kcs') :
    ∀ k ∈ keys, Duplicable B k := by
  induction keys generalizing kcs with
  | nil => exact fun k hk => absurd hk List.not_mem_nil
  | cons key keys ih =>
    rw [fillKeychains] at h
    obtain ⟨copy, hcopy, h⟩ := bind_eq_ok h
    obtain ⟨openerKc, -, h⟩ := bind_eq_ok h
    obtain ⟨kc, -, h⟩ := bind_eq_ok h
    intro k hk
    rcases List.mem_cons.1 hk with rfl | hk
    · exact ⟨copy, hcopy⟩
    · exact ih h k hk

theorem fillKeychains_ok (hB : B.Lawful) (hC : B.Copying) (kcs : B.Keychain × B.Keychain)
    (h : ∀ k ∈ keys, Duplicable B k) : ∃ kcs', fillKeychains B keys kcs = .ok kcs' := by
  induction keys generalizing kcs with
  | nil => exact ⟨kcs, rfl⟩
  | cons key keys ih =>
    have hkey := h key List.mem_cons_self
    obtain ⟨copy, hcopy⟩ := hkey
    obtain ⟨openerKc, hopener⟩ := hC.addKey_ok kcs.2 copy (clone_spec hB hC hcopy).2
    obtain ⟨kc, hkc⟩ := hC.addKey_ok kcs.1 key (h key List.mem_cons_self)
    rw [fillKeychains, hcopy]
    show ∃ kcs', (wrapBottle (B.addKey kcs.2 copy) >>= fun openerKc =>
      wrapBottle (B.addKey kcs.1 key) >>= fun kc => fillKeychains B keys (kc, openerKc)) = .ok kcs'
    rw [hopener, hkc]
    exact ih _ fun k hk => h k (List.mem_cons_of_mem _ hk)

/-- Adding an element again does not change what is found first. -/
theorem find?_append_of_mem {α : Type} {l : List α} {a : α} (h : a ∈ l) (p : α → Bool) :
    (l ++ [a]).find? p = l.find? p := by
  rw [List.find?_append]
  cases hl : l.find? p with
  | some x => rfl
  | none =>
    rw [List.find?_singleton, if_neg (List.find?_eq_none.1 hl a h)]
    rfl

/-- What is found first in a keychain to which a key was added. -/
theorem find?_labels_addKey (hO : B.Orderly) {kc kc' : B.Keychain} (h : B.addKey kc k = .ok kc')
    (p : KeyKind × Except Text Bytes → Bool) :
    ((B.keys kc').map B.label).find? p =
      ((B.keys kc).map B.label ++ [B.label k]).find? p := by
  rcases hO.keys_addKey _ _ _ h with hkeys | ⟨hmem, hkeys⟩
  · rw [hkeys]
  · rw [hkeys, find?_append_of_mem hmem]

/-- The keychain has the keys of the builder after the ones it had, in the order in which they were
first added. -/
theorem labels_fillKeychains (hO : B.Orderly) (h : fillKeychains B keys kcs = .ok kcs')
    (p : KeyKind × Except Text Bytes → Bool) :
    ((B.keys kcs'.1).map B.label).find? p =
      ((B.keys kcs.1).map B.label ++ keys.map B.label).find? p := by
  induction keys generalizing kcs with
  | nil =>
    obtain rfl := Except.ok.inj h
    rw [List.map_nil, List.append_nil]
  | cons key keys ih =>
    rw [fillKeychains] at h
    obtain ⟨copy, -, h⟩ := bind_eq_ok h
    obtain ⟨openerKc, -, h⟩ := bind_eq_ok h
    obtain ⟨kc, hkc, h⟩ := bind_eq_ok h
    have hadd := find?_labels_addKey hO (wrapBottle_eq_ok.1 hkc) p
    rw [ih h, List.find?_append, hadd, ← List.find?_append, List.append_assoc]
    rfl

open Classical in
/-- A label is found exactly if it is in the list. -/
theorem mem_iff_find? {α : Type} {l : List α} {a : α} :
    a ∈ l ↔ (l.find? fun x => decide (x = a)).isSome = true := by
  rw [List.find?_isSome]
  simp

/-- The keychain of a new client has exactly the keys of the builder. -/
theorem label_mem_iff (hB : B.Lawful) (hO : B.Orderly)
    (h : fillKeychains B keys (B.newKeychain, B.newKeychain) = .ok kcs')
    {x : KeyKind × Except Text Bytes} :
    x ∈ (B.keys kcs'.1).map B.label ↔ x ∈ keys.map B.label := by
  rw [mem_iff_find?, labels_fillKeychains hO h, hB.keys_newKeychain, List.map_nil, List.nil_append,
    ← mem_iff_find?]

theorem find?_labels (l : List B.PrivateKey) :
    (l.map B.label).find? (fun x => (keyPurposes x.1).contains signPurpose) =
      (l.find? (canSign B)).map B.label :=
  List.find?_map

theorem Bottlers.Orderly.firstSigns (hO : B.Orderly) : B.FirstSigns where
  toCopying := hO.toCopying
  firstSigner_addKey kc kc' k h := by
    rw [hO.firstSigner_eq, hO.firstSigner_eq, ← find?_labels, ← find?_labels,
      find?_labels_addKey hO h, List.find?_append, List.find?_singleton]
    rfl

/-- The first signer of a new client is the first key of the builder that can sign. -/
theorem firstSigner_fillKeychains (hB : B.Lawful) (hO : B.Orderly)
    (h : fillKeychains B keys (B.newKeychain, B.newKeychain) = .ok kcs') :
    (B.firstSigner kcs'.1).map B.label = (keys.find? (canSign B)).map B.label := by
  rw [hO.firstSigner_eq, ← find?_labels, ← find?_labels, labels_fillKeychains hO h,
    hB.keys_newKeychain]
  rfl

end Keychain

/-! ## The card of a new client -/

section Card

variable {pkix : Bytes} {ps : List Text} {now : ℤ} {subs : List SubKey} {card card' : B.Card}
  {keys : List B.PrivateKey}

theorem key_addPurposesTo (hB : B.Lawful) :
    ∀ sub ∈ addPurposesTo B pkix ps now subs, sub.key = pkix ∨ ∃ s ∈ subs, s.key = sub.key := by
  induction subs with
  | nil =>
    intro sub hsub
    obtain rfl := List.mem_singleton.1 hsub
    exact .inl (hB.key_addPurpose _ _)
  | cons s subs ih =>
    rw [addPurposesTo]
    intro sub hsub
    split at hsub
    · rename_i hkey
      rcases List.mem_cons.1 hsub with rfl | hsub
      · exact .inl ((hB.key_addPurpose _ _).trans hkey)
      · exact .inr ⟨sub, List.mem_cons_of_mem _ hsub, rfl⟩
    · rcases List.mem_cons.1 hsub with rfl | hsub
      · exact .inr ⟨sub, List.mem_cons_self, rfl⟩
      · rcases ih sub hsub with hkey | ⟨s', hs', hkey⟩
        · exact .inl hkey
        · exact .inr ⟨s', List.mem_cons_of_mem _ hs', hkey⟩

theorem hasPurpose_addPurposesTo (hB : B.Lawful) {p : Text} (hp : p ∉ ps)
    (h : ∀ sub ∈ subs, B.hasPurpose sub p = false) :
    ∀ sub ∈ addPurposesTo B pkix ps now subs, B.hasPurpose sub p = false := by
  have hadd : ∀ sub : SubKey, B.hasPurpose sub p = false →
      B.hasPurpose (B.addPurpose sub ps) p = false := by
    intro sub hsub
    rw [← Bool.not_eq_true, hB.hasPurpose_addPurpose, hsub]
    simp [hp]
  induction subs with
  | nil =>
    intro sub hsub
    obtain rfl := List.mem_singleton.1 hsub
    exact hadd _ (hB.hasPurpose_nil _ _ rfl)
  | cons s subs ih =>
    have hrest := fun sub hsub => h sub (List.mem_cons_of_mem _ hsub)
    rw [addPurposesTo]
    intro sub hsub
    split at hsub
    · rcases List.mem_cons.1 hsub with rfl | hsub
      · exact hadd _ (h s List.mem_cons_self)
      · exact hrest sub hsub
    · rcases List.mem_cons.1 hsub with rfl | hsub
      · exact h sub List.mem_cons_self
      · exact ih hrest sub hsub

theorem ephemeralPurpose_notMem (kind : KeyKind) : ephemeralPurpose ∉ keyPurposes kind := by
  cases kind <;> decide

/-- Listing keys lists no others, and marks none. -/
theorem addKeys_subkeys (hB : B.Lawful) (h : addKeys B card now keys = .ok card') :
    (∀ sub ∈ card'.subkeys, (∃ s ∈ card.subkeys, s.key = sub.key) ∨
      ∃ k ∈ keys, B.publicPkix k = .ok sub.key) ∧
    ((∀ sub ∈ card.subkeys, B.hasPurpose sub ephemeralPurpose = false) →
      ∀ sub ∈ card'.subkeys, B.hasPurpose sub ephemeralPurpose = false) := by
  induction keys generalizing card with
  | nil =>
    obtain rfl := Except.ok.inj h
    exact ⟨fun sub hsub => .inl ⟨sub, hsub, rfl⟩, id⟩
  | cons key keys ih =>
    rw [addKeys] at h
    split at h
    · obtain ⟨honly, hmarks⟩ := ih h
      refine ⟨fun sub hsub => (honly sub hsub).imp id ?_, hmarks⟩
      rintro ⟨k, hk, hkey⟩
      exact ⟨k, List.mem_cons_of_mem _ hk, hkey⟩
    · cases hkey : B.publicPkix key with
      | error e =>
        simp only [hkey] at h
        cases h
      | ok pkix =>
        simp only [hkey] at h
        obtain ⟨honly, hmarks⟩ := ih h
        refine ⟨fun sub hsub => ?_, fun hcard => hmarks ?_⟩
        · rcases honly sub hsub with ⟨s, hs, hsub⟩ | ⟨k, hk, hsub⟩
          · rcases key_addPurposesTo hB s hs with hs | ⟨s', hs', hs⟩
            · exact .inr ⟨key, List.mem_cons_self, by rw [hkey, ← hsub, hs]⟩
            · exact .inl ⟨s', hs', hs.trans hsub⟩
          · exact .inr ⟨k, List.mem_cons_of_mem _ hk, hsub⟩
        · exact hasPurpose_addPurposesTo hB (ephemeralPurpose_notMem _) hcard

variable {env : BuildEnv B} {metadata : List (Str × Str)} {kc : B.Keychain} {signer : B.PrivateKey}
  {ephemeral : Bool} {st : IdState B}

/-- The card lists the main key and those of the keychain only, and none is marked on the card of a
client that was supplied with keys. -/
theorem ownCard_subkeys (hB : B.Lawful) (hC : B.Copying) (hpkix : B.publicPkix signer = .ok pkix)
    (h : ownCard B env metadata kc signer pkix ephemeral = .ok st) :
    (∀ sub ∈ st.card.subkeys, sub.key = pkix ∨ ∃ k ∈ B.keys kc, B.publicPkix k = .ok sub.key) ∧
    (ephemeral = false → ∀ sub ∈ st.card.subkeys, B.hasPurpose sub ephemeralPurpose = false) := by
  unfold ownCard at h
  obtain ⟨card, hcard, h⟩ := bind_eq_ok h
  obtain ⟨card', hcard', h⟩ := bind_eq_ok h
  obtain ⟨signed, -, h⟩ := bind_eq_ok h
  obtain rfl := Except.ok.inj h
  rw [wrapBottle_eq_ok] at hcard
  obtain ⟨hself, hsubs⟩ := hB.newCard_eq_ok signer env.created card hcard
  have hself' : card.selfKey = pkix := Except.ok.inj (hself.symm.trans hpkix)
  obtain ⟨honly, hmarks⟩ := addKeys_subkeys hB hcard'
  have honly' : ∀ sub ∈ card'.subkeys,
      sub.key = pkix ∨ ∃ k ∈ B.keys kc, B.publicPkix k = .ok sub.key := by
    intro sub hsub
    rcases honly sub hsub with ⟨s, hs, hkey⟩ | hkey
    · exact .inl (by rw [← hkey, (hsubs s hs).1, hself'])
    · exact .inr hkey
  cases ephemeral with
  | false => exact ⟨honly', fun _ => hmarks (hC.newCard_unmarked signer env.created card hcard)⟩
  | true =>
    refine ⟨fun sub hsub => ?_, fun hfalse => by cases hfalse⟩
    rcases key_addPurposesTo hB sub hsub with hkey | ⟨s, hs, hkey⟩
    · exact .inl hkey
    · rw [← hkey]
      exact honly' s hs

theorem addKeys_ok (card : B.Card) (now : ℤ) (h : ∀ k ∈ keys, ∃ pkix, B.publicPkix k = .ok pkix) :
    ∃ card', addKeys B card now keys = .ok card' := by
  induction keys generalizing card with
  | nil => exact ⟨card, rfl⟩
  | cons key keys ih =>
    have hrest := fun k hk => h k (List.mem_cons_of_mem _ hk)
    obtain ⟨pkix, hkey⟩ := h key List.mem_cons_self
    rw [addKeys, hkey]
    split
    · exact ih card hrest
    · exact ih _ hrest

theorem ownCard_ok (hC : B.Copying) (env : BuildEnv B) (metadata : List (Str × Str)) (pkix : Bytes)
    (ephemeral : Bool) (hsigner : canSign B signer = true)
    (h : ∀ k ∈ B.keys kc, ∃ pkix, B.publicPkix k = .ok pkix) :
    ∃ st, ownCard B env metadata kc signer pkix ephemeral = .ok st := by
  obtain ⟨card, hcard⟩ := hC.newCard_ok signer env.created hsigner
  obtain ⟨card', hcard'⟩ := addKeys_ok { card with metadata := some metadata } env.listed h
  let marked : B.Card :=
    if ephemeral then addKeyPurposes B card' pkix [ephemeralPurpose] env.marked else card'
  obtain ⟨signed, hsigned⟩ := hC.signCard_ok env.sign signer marked hsigner
  refine ⟨⟨marked, signed⟩, ?_⟩
  unfold ownCard addKeychain
  rw [hcard]
  show (addKeys B { card with metadata := some metadata } env.listed (B.keys kc) >>= _) = _
  rw [hcard']
  show (wrapBottle (B.signCard env.sign signer marked) >>= _) = _
  rw [hsigned]
  rfl

end Card

/-! ## Building -/

section Build

variable {env : BuildEnv B} {b : ClientBuilder B} {built : Built B}

/-- The main key is in the keychain. -/
theorem exists_getKey (hB : B.Lawful) (hC : B.Copying) {kc : B.Keychain} {pkix : Bytes}
    (h : signerPkix B kc = .ok pkix) : ∃ k, B.getKey kc pkix = some k := by
  obtain ⟨k, hfirst, hkey⟩ := signerPkix_eq_ok h
  exact hC.getKey_ok kc k pkix (hB.firstSigner_eq_some kc k hfirst).1 hkey

theorem build_ne_panic (hB : B.Lawful) (hC : B.Copying) : b.build env ≠ .error .panic := by
  intro h
  unfold ClientBuilder.build at h
  split at h
  · cases h
  split at h
  · cases h
  rename_i pkix hsigner
  split at h
  · rename_i hnone
    obtain ⟨k, hk⟩ := exists_getKey hB hC hsigner
    rw [hk] at hnone
    cases hnone
  · split at h <;> cases h

/-- A key that cannot be duplicated makes the building fail. -/
theorem build_of_not_duplicable {k : B.PrivateKey} (hk : k ∈ b.allKeys env)
    (h : ¬ Duplicable B k) : ∃ e, b.build env = .error (.err e) := by
  cases hfill : fillKeychains B (b.allKeys env) (B.newKeychain, B.newKeychain) with
  | ok kcs => exact absurd (fillKeychains_eq_ok hfill k hk) h
  | error e =>
    refine ⟨e, ?_⟩
    unfold ClientBuilder.build
    rw [hfill]

theorem allKeys_ne_nil (env : BuildEnv B) (b : ClientBuilder B) : b.allKeys env ≠ [] := by
  unfold ClientBuilder.allKeys ClientBuilder.ephemeral
  cases hb : b.keys with
  | nil => exact List.cons_ne_nil _ _
  | cons k ks => exact List.cons_ne_nil _ _

theorem keys_subset_allKeys {k : B.PrivateKey} (hk : k ∈ b.keys) : k ∈ b.allKeys env := by
  unfold ClientBuilder.allKeys ClientBuilder.ephemeral
  rw [if_neg (by simpa using List.ne_nil_of_mem hk)]
  exact hk

/-- A new key is made only when no key is left in the builder. -/
theorem mem_allKeys {k : B.PrivateKey} (hk : k ∈ b.allKeys env) :
    k ∈ b.keys ∨ b.keys = [] ∧ k.1 = .ecdsa := by
  unfold ClientBuilder.allKeys ClientBuilder.ephemeral at hk
  split at hk
  · rename_i hempty
    obtain rfl := List.mem_singleton.1 hk
    exact .inr ⟨List.isEmpty_iff.1 hempty, rfl⟩
  · exact .inl hk

/-- Keys that can be duplicated make a client. -/
theorem build_ok (hB : B.Lawful) (hO : B.Orderly) (h : ∀ k ∈ b.allKeys env, Duplicable B k) :
    ∃ built, b.build env = .ok built := by
  obtain ⟨⟨kc, opener⟩, hfill⟩ := fillKeychains_ok hB hO.toCopying (B.newKeychain, B.newKeychain) h
  have hkeys : ∀ k ∈ B.keys kc, Duplicable B k := by
    intro k hk
    obtain ⟨k', hk', hlabel⟩ :=
      List.mem_map.1 ((label_mem_iff hB hO hfill).1 (List.mem_map_of_mem hk))
    exact (h k' hk').of_sameKind hO.toCopying (sameKey_iff.2 hlabel.symm).1
  obtain ⟨k, hfirst, hpkix⟩ : ∃ k, B.firstSigner kc = some k ∧ Duplicable B k := by
    obtain ⟨k, ks, hall⟩ := List.exists_cons_of_ne_nil (allKeys_ne_nil env b)
    have hk : k ∈ b.allKeys env := by rw [hall]; exact List.mem_cons_self
    have hlabel := firstSigner_fillKeychains hB hO hfill
    rw [hall, List.find?_cons_of_pos (h k hk).canSign] at hlabel
    obtain ⟨k', hk', -⟩ := Option.map_eq_some_iff.1 hlabel
    exact ⟨k', hk', hkeys k' (hB.firstSigner_eq_some kc k' hk').1⟩
  obtain ⟨pkix, hpkix⟩ := hO.publicPkix_ok k hpkix
  have hsigner : signerPkix B kc = .ok pkix := by
    rw [signerPkix, hfirst]
    exact wrapBottle_eq_ok.2 hpkix
  cases hbuild : b.build env with
  | ok built => exact ⟨built, rfl⟩
  | error f =>
    exfalso
    unfold ClientBuilder.build at hbuild
    simp only [hfill, hsigner] at hbuild
    split at hbuild
    · rename_i hnone
      obtain ⟨k, hk⟩ := exists_getKey hB hO.toCopying hsigner
      rw [hk] at hnone
      cases hnone
    · rename_i signer hget
      have hmem := (hB.getKey_eq_some kc pkix signer hget).1
      obtain ⟨st, hst⟩ := ownCard_ok hO.toCopying env b.metadata pkix b.ephemeral
        (hkeys signer hmem).canSign fun k hk => hO.publicPkix_ok k (hkeys k hk)
      rw [hst] at hbuild
      cases hbuild

/-- A client that is built from keys is theirs. -/
theorem usesSupplied_build (hB : B.Lawful) (hO : B.Orderly) (hne : b.keys ≠ [])
    (h : b.build env = .ok built) {keys : List B.PrivateKey}
    (hkeys : b.keys.map B.label = keys.map B.label) : built.UsesSupplied keys := by
  obtain ⟨hfill, hsigner, hcard⟩ := build_eq_ok h
  have heph : b.ephemeral = false := by
    unfold ClientBuilder.ephemeral
    rw [List.isEmpty_eq_false_iff]
    exact hne
  have hall : b.allKeys env = b.keys := by rw [ClientBuilder.allKeys, heph]; rfl
  rw [hall] at hfill
  obtain ⟨hready, -⟩ := ready_build hB h
  constructor
  · obtain ⟨k, hfirst, hpkix⟩ := signerPkix_eq_ok hsigner
    have hlabel := firstSigner_fillKeychains hB hO hfill
    rw [hfirst, ← find?_labels, hkeys, find?_labels] at hlabel
    obtain ⟨k', hk', hsame⟩ := Option.map_eq_some_iff.1 hlabel.symm
    refine ⟨k', built.acct.signerPkix, hk', ?_, rfl, hready.selfKey, ?_⟩
    · rw [← hpkix]
      exact (sameKey_iff.2 hsame).2
    · rw [Built.targetId, hready.selfKey]
  · intro k hk
    have hmem : B.label k ∈ (B.keys built.acct.kc).map B.label := by
      rw [label_mem_iff hB hO hfill, hkeys]
      exact List.mem_map_of_mem hk
    obtain ⟨k', hk', hsame⟩ := List.mem_map.1 hmem
    obtain ⟨hkind, hpub⟩ := sameKey_iff.2 hsame
    obtain ⟨pkix, hpkix, hlists⟩ := hready.listed k' hk'
    exact ⟨pkix, hpub ▸ hpkix, hkind ▸ hlists⟩
  · intro k hk
    have hmem := (label_mem_iff hB hO hfill).1 (List.mem_map_of_mem hk)
    rw [hkeys] at hmem
    obtain ⟨k', hk', hsame⟩ := List.mem_map.1 hmem
    exact ⟨k', hk', sameKey_iff.2 hsame.symm⟩
  · exact (ownCard_subkeys hB hO.toCopying hready.pkix hcard).2 heph

/-- A client lists no key that cannot be duplicated. -/
theorem not_listed_of_not_duplicable (hB : B.Lawful) (hO : B.Orderly) (h : b.build env = .ok built)
    {k : B.PrivateKey} {pkix : Bytes} (hk : ¬ Duplicable B k) (hpkix : B.publicPkix k = .ok pkix) :
    ∀ sub ∈ built.st.card.subkeys, sub.key ≠ pkix := by
  rintro sub hsub rfl
  obtain ⟨hfill, -, hcard⟩ := build_eq_ok h
  obtain ⟨hready, -⟩ := ready_build hB h
  obtain ⟨k', hk', hpkix'⟩ : ∃ k' ∈ B.keys built.acct.kc, B.publicPkix k' = .ok sub.key := by
    rcases (ownCard_subkeys hB hO.toCopying hready.pkix hcard).1 sub hsub with hkey | hkey
    · exact ⟨built.acct.signer, hready.main, hkey ▸ hready.pkix⟩
    · exact hkey
  obtain ⟨k'', hk'', hlabel⟩ :=
    List.mem_map.1 ((label_mem_iff hB hO hfill).1 (List.mem_map_of_mem hk'))
  have hkind : k.1 = k''.1 :=
    (hB.kind_eq k k' sub.key hpkix hpkix').trans (sameKey_iff.2 hlabel.symm).1
  exact hk ((fillKeychains_eq_ok hfill k'' hk'').of_sameKind hO.toCopying hkind)

end Build

/-! ## Which keys are used -/

section Supplied

variable {env : BuildEnv B} {b : ClientBuilder B} {calls : List (Intake B)}

theorem keys_foldl (hb : b.keys = []) :
    (calls.foldl Intake.apply b).keys = calls.flatMap Intake.taken := by
  rw [foldl_apply, hb, List.nil_append]

/-- A client is built without a key of a keychain that cannot be duplicated. -/
theorem not_suppliedIsUsed (hB : B.Lawful) (hO : B.Orderly) (hb : b.keys = [])
    (hall : ∀ k, .key k ∈ calls → Duplicable B k) {kc : B.Keychain} {k : B.PrivateKey}
    (hkc : .keychain kc ∈ calls) (hk : k ∈ B.keys kc) (hdup : ¬ Duplicable B k) :
    ¬ SuppliedIsUsed env (calls.foldl Intake.apply b) (calls.flatMap Intake.supplied) := by
  rintro ⟨-, hused⟩
  have htaken := duplicable_taken hB hO.toCopying hall
  obtain ⟨built, hbuilt⟩ : ∃ built, (calls.foldl Intake.apply b).build env = .ok built := by
    refine build_ok hB hO fun k hk => ?_
    rcases mem_allKeys hk with hk | ⟨-, hkind⟩
    · exact htaken k (keys_foldl hb ▸ hk)
    · exact (duplicable_iff hO.toCopying).2 (.inl hkind)
  have hsupplied : k ∈ calls.flatMap Intake.supplied := List.mem_flatMap.2 ⟨.keychain kc, hkc, hk⟩
  obtain ⟨pkix, hpkix, sub, hsub, hkey, -⟩ := (hused built hbuilt).listed k hsupplied
  exact not_listed_of_not_duplicable hB hO hbuilt hdup hpkix sub hsub hkey

/-- If the keys of all keychains can be duplicated, the client is made of the keys supplied. -/
theorem usesSupplied_of_keychains (hB : B.Lawful) (hO : B.Orderly) (hb : b.keys = [])
    (hne : calls.flatMap Intake.supplied ≠ [])
    (h : ∀ kc, .keychain kc ∈ calls → ∀ k ∈ B.keys kc, Duplicable B k) {built : Built B}
    (hbuilt : (calls.foldl Intake.apply b).build env = .ok built) :
    built.UsesSupplied (calls.flatMap Intake.supplied) := by
  have hlabels := labels_flatMap_taken hB hO.toCopying h
  rw [← keys_foldl hb] at hlabels
  refine usesSupplied_build hB hO (fun hnil => hne ?_) hbuilt hlabels
  rw [hnil] at hlabels
  exact List.map_eq_nil_iff.1 hlabels.symm

/-- A key given by itself that cannot be duplicated makes the building fail. -/
theorem build_of_key (env : BuildEnv B) (hb : b.keys = []) {k : B.PrivateKey} (hk : .key k ∈ calls)
    (hdup : ¬ Duplicable B k) : ∃ e, (calls.foldl Intake.apply b).build env = .error (.err e) := by
  refine build_of_not_duplicable (keys_subset_allKeys ?_) hdup
  rw [keys_foldl hb]
  exact List.mem_flatMap.2 ⟨.key k, hk, List.mem_singleton_self k⟩

end Supplied

/-- The identity a client is built with is the one supplied, unless a key of a keychain is left out
and building goes on: unless some key that came in a keychain cannot be duplicated, and every key
given by itself can. -/
theorem supplied_is_used_iff (hB : B.Lawful) (hO : B.Orderly) (env : BuildEnv B)
    (calls : List (Intake B)) (b : ClientBuilder B) (hb : b.keys = [])
    (hne : calls.flatMap Intake.supplied ≠ []) :
    SuppliedIsUsed env (calls.foldl Intake.apply b) (calls.flatMap Intake.supplied) ↔
      (∀ kc, .keychain kc ∈ calls → ∀ k ∈ B.keys kc, Duplicable B k) ∨
        ∃ k, .key k ∈ calls ∧ ¬ Duplicable B k := by
  constructor
  · intro hused
    by_contra hcond
    push Not at hcond
    obtain ⟨⟨kc, hkc, k, hk, hdup⟩, hall⟩ := hcond
    exact not_suppliedIsUsed hB hO hb hall hkc hk hdup hused
  · refine fun hcond => ⟨build_ne_panic hB hO.toCopying, fun built hbuilt => ?_⟩
    rcases hcond with hall | ⟨k, hk, hdup⟩
    · exact usesSupplied_of_keychains hB hO hb hne hall hbuilt
    · obtain ⟨e, he⟩ := build_of_key env hb hk hdup
      rw [he] at hbuilt
      cases hbuilt

/-! ### The library without secrecy -/

open Plain in
theorem plain_orderly : plain.Orderly where
  ecdsaFromBytes_ok _ := ⟨_, rfl⟩
  rsaFromPkcs8Der_ok _ := ⟨_, rfl⟩
  publicPkix_ok _ _ := ⟨_, rfl⟩
  addKey_ok _ _ _ := ⟨_, rfl⟩
  keys_addKey kc kc' k h := by
    obtain rfl := Except.ok.inj h
    exact .inl List.map_append
  firstSigner_eq kc := by
    show List.find? _ kc = List.find? _ kc
    congr 1
    funext key
    exact (List.contains_eq_mem ..).symm
  getKey_ok kc k pkix hk hpkix := by
    refine Option.isSome_iff_exists.1 (List.find?_isSome.2 ⟨k, hk, ?_⟩)
    exact decide_eq_true (Except.ok.inj hpkix)
  newCard_ok _ _ _ := ⟨_, rfl⟩
  newCard_unmarked k now card h := by
    obtain rfl := Except.ok.inj h
    intro sub hsub
    obtain rfl := List.mem_singleton.1 hsub
    show decide (ephemeralPurpose ∈ [signPurpose]) = false
    decide
  signCard_ok _ _ _ _ := ⟨_, rfl⟩

/-- A keychain with an Ed25519 key, then an ECDSA key. -/
def twoKeys : List (Intake plain) :=
  [.keychain [Plain.mk .ed25519 6], .key (Plain.mk .ecdsa 5)]

theorem supplied_is_used_iff_twoKeys :
    SuppliedIsUsed ⟨(), (), 0, 0, 0⟩ (twoKeys.foldl Intake.apply {})
      (twoKeys.flatMap Intake.supplied) := by
  refine (supplied_is_used_iff plain_lawful plain_orderly ⟨(), (), 0, 0, 0⟩ twoKeys {} rfl
    (List.cons_ne_nil _ _)).2 (.inl fun kc hkc k hk => ?_)
  rcases List.mem_cons.1 hkc with hkc | hkc
  · obtain rfl := Intake.keychain.inj hkc
    obtain rfl := List.mem_singleton.1 hk
    exact ⟨_, rfl⟩
  · cases List.mem_singleton.1 hkc

/-- A keychain with an ML-DSA key only: the client gets a new key. -/
theorem not_suppliedIsUsed_mlDsaKeychain :
    ¬ ∀ calls : List (Intake plain), calls.flatMap Intake.supplied ≠ [] →
      SuppliedIsUsed ⟨(), (), 0, 0, 0⟩ (calls.foldl Intake.apply {})
        (calls.flatMap Intake.supplied) := by
  intro h
  have hkey : ∀ k, Intake.key k ∈ [Intake.keychain (B := plain) [Plain.mk .mlDsa44 5]] →
      Duplicable plain k := fun k hk => by cases List.mem_singleton.1 hk
  refine not_suppliedIsUsed plain_lawful plain_orderly rfl hkey List.mem_cons_self
    List.mem_cons_self ?_ (h [.keychain [Plain.mk .mlDsa44 5]] (List.cons_ne_nil _ _))
  rintro ⟨copy, hcopy⟩
  cases hcopy

end Spot
