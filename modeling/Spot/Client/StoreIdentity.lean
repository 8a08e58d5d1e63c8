import Spot.Client.Store
import Spot.Client.Supply

/-!
# The identity a store gives

The first signing key of a store's keychain is the one that was loaded first
(`firstSigner_keychain`), and the order in which keys are loaded is the one in which the system
lists the directory; so a store keeps its identity when it is opened again exactly if there is only
one key in it (`stable_iff`).  The order in which a keychain lists its keys does not matter here.
-/

namespace Spot

variable {B : Bottlers}

/-! ## The keychain of a store -/

/-- Adds copies of keys to a keychain. -/
def addCopies (B : Bottlers) : List B.PrivateKey → B.Keychain → Result B.Keychain
  | [], kc => .ok kc
  | key :: keys, kc => do
    let copy ← clonePrivateKey B key
    let kc ← wrapBottle (B.addKey kc copy)
    addCopies B keys kc

namespace DiskStore

/-- The keychain of a store. -/
def keychain (s : DiskStore B) : Result B.Keychain := addCopies B s.keys B.newKeychain

/-- What tells the first signing key of the store's keychain from others. -/
def mainKey (s : DiskStore B) : Option (KeyKind × Except Text Bytes) :=
  s.keychain.toOption.bind fun kc => (B.firstSigner kc).map B.label

end DiskStore

/-- The store after calls, which is unchanged by those that fail. -/
def afterCalls (P : PureCrypto) (s : DiskStore B) (calls : List (AddKey B)) : DiskStore B :=
  calls.foldl (fun s c => (addStep P s c).getD s) s

/-- Two stores have the same first signing key, and clients built with their keychains the same main
identity and address. -/
structure SameIdentity (s s' : DiskStore B) : Prop where
  mainKey : s.mainKey.isSome ∧ s.mainKey = s'.mainKey
  client : ∀ kc kc', s.keychain = .ok kc → s'.keychain = .ok kc' → ∀ env env' built built',
    (({} : ClientBuilder B).keychain kc).build env = .ok built →
    (({} : ClientBuilder B).keychain kc').build env' = .ok built' →
      built.st.card.selfKey = built'.st.card.selfKey ∧ built.targetId = built'.targetId

/-- All keys that can be loaded from the directory are the same key. -/
def OneKey (P : PureCrypto) (B : Bottlers) (dir : Dir) : Prop :=
  ∀ k ∈ loadKeys P B dir.entries, ∀ k' ∈ loadKeys P B dir.entries, B.label k = B.label k'

section Keychains

variable {keys : List B.PrivateKey} {kc kc' : B.Keychain} {s s' : DiskStore B}

theorem addCopies_ok (hB : B.Lawful) (hC : B.Copying) (kc : B.Keychain)
    (h : ∀ k ∈ keys, Duplicable B k) : ∃ kc', addCopies B keys kc = .ok kc' := by
  induction keys generalizing kc with
  | nil => exact ⟨kc, rfl⟩
  | cons key keys ih =>
    rw [List.forall_mem_cons] at h
    obtain ⟨copy, hcopy⟩ := h.1
    obtain ⟨kc₁, hkc₁⟩ := hC.addKey_ok kc copy (clone_spec hB hC hcopy).2
    obtain ⟨kc', hkc'⟩ := ih kc₁ h.2
    refine ⟨kc', ?_⟩
    rw [addCopies, hcopy]
    show (wrapBottle (B.addKey kc copy) >>= fun kc => addCopies B keys kc) = _
    rw [hkc₁]
    exact hkc'

/-- The first signer is the one there was, or else the first of the keys that can sign. -/
theorem firstSigner_addCopies (hB : B.Lawful) (hF : B.FirstSigns)
    (h : addCopies B keys kc = .ok kc') :
    (B.firstSigner kc').map B.label =
      ((B.firstSigner kc).map B.label).or ((keys.find? (canSign B)).map B.label) := by
  induction keys generalizing kc with
  | nil =>
    obtain rfl := Except.ok.inj h
    rw [List.find?_nil, Option.map_none, Option.or_none]
  | cons key keys ih =>
    rw [addCopies] at h
    obtain ⟨copy, hcopy, h⟩ := bind_eq_ok h
    obtain ⟨kc₁, hkc₁, h⟩ := bind_eq_ok h
    obtain ⟨hlabel, hdup⟩ := clone_spec hB hF.toCopying hcopy
    have hsign : canSign B key = true := (Duplicable.of_sameKind hF.toCopying hdup
      (sameKey_iff.2 hlabel.symm).1).canSign
    have hadd := hF.firstSigner_addKey _ _ _ (wrapBottle_eq_ok.1 hkc₁)
    rw [if_pos hdup.canSign, hlabel] at hadd
    rw [ih h, hadd, List.find?_cons_of_pos hsign, Option.map_some, Option.or_assoc]
    rfl

/-- The keychain has the keys it had, and copies of those that were added. -/
theorem holds_addCopies_iff (hB : B.Lawful) (h : addCopies B keys kc = .ok kc')
    (key : B.PrivateKey) :
    B.Holds kc' key ↔ B.Holds kc key ∨ ∃ k ∈ keys, B.label k = B.label key := by
  induction keys generalizing kc with
  | nil =>
    obtain rfl := Except.ok.inj h
    simp
  | cons k keys ih =>
    rw [addCopies] at h
    obtain ⟨copy, hcopy, h⟩ := bind_eq_ok h
    obtain ⟨kc₁, hkc₁, h⟩ := bind_eq_ok h
    have hlabel : B.label copy = B.label k := sameKey_iff.1 (sameKey_of_clonePrivateKey hB hcopy)
    rw [ih h, hB.holds_addKey _ _ _ (wrapBottle_eq_ok.1 hkc₁), sameKey_iff, hlabel,
      List.exists_mem_cons_iff, or_assoc]

/-- The keychain of a store has exactly the keys of the store. -/
theorem label_mem_keychain_iff (hB : B.Lawful) (h : s.keychain = .ok kc)
    {x : KeyKind × Except Text Bytes} :
    x ∈ (B.keys kc).map B.label ↔ x ∈ s.keys.map B.label := by
  have hnew : ∀ key, ¬ B.Holds B.newKeychain key := by
    rintro key ⟨k, hk, -⟩
    rw [hB.keys_newKeychain] at hk
    cases hk
  constructor
  · intro hx
    obtain ⟨k, hk, rfl⟩ := List.mem_map.1 hx
    obtain hno | ⟨k', hk', hlabel⟩ := (holds_addCopies_iff hB h k).1 ⟨k, hk, .refl k⟩
    · exact absurd hno (hnew k)
    · exact hlabel ▸ List.mem_map_of_mem hk'
  · intro hx
    obtain ⟨k, hk, rfl⟩ := List.mem_map.1 hx
    obtain ⟨k', hk', hsame⟩ := (holds_addCopies_iff hB h k).2 (.inr ⟨k, hk, rfl⟩)
    exact sameKey_iff.1 hsame ▸ List.mem_map_of_mem hk'

/-- The first signing key of a store is its first key. -/
theorem firstSigner_keychain (hB : B.Lawful) (hF : B.FirstSigns) (h : s.keychain = .ok kc)
    {k : B.PrivateKey} {ks : List B.PrivateKey} (hs : s.keys = k :: ks) (hk : Duplicable B k) :
    (B.firstSigner kc).map B.label = some (B.label k) := by
  have hnew : B.firstSigner B.newKeychain = none := by
    cases hfirst : B.firstSigner B.newKeychain with
    | none => rfl
    | some key =>
      have hkey := (hB.firstSigner_eq_some _ _ hfirst).1
      rw [hB.keys_newKeychain] at hkey
      cases hkey
  rw [firstSigner_addCopies hB hF h, hnew, hs, List.find?_cons_of_pos hk.canSign]
  rfl

theorem mainKey_eq (hB : B.Lawful) (hF : B.FirstSigns) {k : B.PrivateKey} {ks : List B.PrivateKey}
    (hs : s.keys = k :: ks) (hdup : ∀ k ∈ s.keys, Duplicable B k) :
    s.mainKey = some (B.label k) := by
  obtain ⟨kc, hkc⟩ := addCopies_ok hB hF.toCopying B.newKeychain hdup
  have hfirst := firstSigner_keychain (s := s) hB hF hkc hs (hdup k (by rw [hs]; simp))
  rw [DiskStore.mainKey, DiskStore.keychain, hkc]
  exact hfirst

/-- A client that is built with the keychain of a store of one key is the one of that key, in
whatever order the keychain lists its copies. -/
theorem targetId_of_keychain (hB : B.Lawful) (hC : B.Copying) (h : s.keychain = .ok kc)
    {k : B.PrivateKey} (hk : k ∈ s.keys) (hdup : Duplicable B k)
    (hone : ∀ k' ∈ s.keys, B.label k' = B.label k) {env : BuildEnv B} {built : Built B}
    (hbuild : (({} : ClientBuilder B).keychain kc).build env = .ok built) :
    B.publicPkix k = .ok built.st.card.selfKey ∧
      built.targetId = targetId B built.st.card.selfKey := by
  have hlabels : ∀ k' ∈ B.keys kc, B.label k' = B.label k := by
    intro k' hk'
    obtain ⟨k'', hk'', hlabel⟩ :=
      List.mem_map.1 ((label_mem_keychain_iff hB h).1 (List.mem_map_of_mem hk'))
    exact hlabel.symm.trans (hone k'' hk'')
  have hkeys : (({} : ClientBuilder B).keychain kc).keys.map B.label = (B.keys kc).map B.label :=
    labels_copies hB hC fun k' hk' =>
      hdup.of_sameKind hC (sameKey_iff.2 (hlabels k' hk')).1
  have hne : (({} : ClientBuilder B).keychain kc).keys ≠ [] := by
    intro hnil
    have hmem := (label_mem_keychain_iff hB h).2 (List.mem_map_of_mem hk)
    rw [← hkeys, hnil] at hmem
    cases hmem
  obtain ⟨hready, -⟩ := ready_build hB hbuild
  -- The main key of the client is a copy of one in the keychain, and they all are this key.
  obtain ⟨k₁, hk₁, hsame⟩ := (holds_build hB hbuild _).1 ⟨_, hready.main, .refl _⟩
  have hk₁' : k₁ ∈ (({} : ClientBuilder B).keychain kc).keys :=
    (mem_allKeys hk₁).resolve_right fun hno => hne hno.1
  have hmem : B.label k₁ ∈ (B.keys kc).map B.label := hkeys ▸ List.mem_map_of_mem hk₁'
  obtain ⟨k₂, hk₂, hlabel⟩ := List.mem_map.1 hmem
  have hsigner : B.label built.acct.signer = B.label k :=
    (sameKey_iff.1 hsame).symm.trans (hlabel.symm.trans (hlabels k₂ hk₂))
  refine ⟨?_, rfl⟩
  rw [hready.selfKey, ← (sameKey_iff.2 hsigner).2]
  exact hready.pkix

end Keychains

/-! ## Stability -/

section Stability

variable {P : PureCrypto} {s s₀ : DiskStore B} {seed : B.Seed} {dir : Dir}
  {entries : List DirEntry} {calls : List (AddKey B)}

/-- Keys that are loaded or added are of kinds that can be copied. -/
theorem kind_of_parseKeyPem {pem : Text} {key : B.PrivateKey} (h : parseKeyPem P B pem = .ok key) :
    key.1 = .ecdsa ∨ key.1 = .rsa := by
  unfold parseKeyPem at h
  repeat' split at h
  all_goals cases h
  · exact .inl rfl
  · exact .inr rfl

theorem kind_of_privateKeyPkcs8 {key : B.PrivateKey} {der : Bytes}
    (h : privateKeyPkcs8 P B key = .ok der) : key.1 = .ecdsa ∨ key.1 = .rsa := by
  obtain ⟨kind, sk⟩ := key
  cases kind with
  | ecdsa => exact .inl rfl
  | rsa => exact .inr rfl
  | _ => cases h

theorem kind_of_mem_loadKeys {k : B.PrivateKey} (h : k ∈ loadKeys P B entries) :
    k.1 = .ecdsa ∨ k.1 = .rsa := by
  obtain ⟨file, -, hload⟩ := List.mem_filterMap.1 h
  unfold loadKey at hload
  simp only at hload
  split at hload
  · cases hload
  · obtain ⟨data, -, hparse⟩ := Option.bind_eq_some_iff.1 hload
    cases hk : parseKeyPem P B data with
    | ok key =>
      rw [hk] at hparse
      obtain rfl := Option.some.inj hparse
      exact kind_of_parseKeyPem hk
    | error e =>
      rw [hk] at hparse
      cases hparse

/-- What holds of a store that is opened and added to: its keys can be copied and are those that are
loaded again, and its first key stays. -/
structure Kept (P : PureCrypto) (s : DiskStore B) (k : B.PrivateKey) : Prop where
  kinds : ∀ k ∈ s.keys, k.1 = .ecdsa ∨ k.1 = .rsa
  reloads : Reloads P s s.keys
  first : ∃ ks, s.keys = k :: ks

theorem Kept.duplicable (hC : B.Copying) {k : B.PrivateKey} (h : Kept P s k) :
    ∀ k ∈ s.keys, Duplicable B k := by
  intro k hk
  rw [duplicable_iff hC]
  exact (h.kinds k hk).imp id .inr

theorem kept_withPath (hP : P.Lawful B) (hentries : entries.Perm dir.entries)
    (h : withPath P seed dir entries = .ok s) : ∃ k, Kept P s k := by
  obtain ⟨-, hreloads, hkeys⟩ := withPath_spec hP hentries h
  have hne : s.keys ≠ [] := by
    rw [hkeys, newKeys]
    split
    · simp
    · next hempty => simpa using hempty
  obtain ⟨k, ks, hks⟩ := List.exists_cons_of_ne_nil hne
  refine ⟨k, fun k' hk' => ?_, hkeys ▸ hreloads, ks, hks⟩
  rw [hkeys, newKeys] at hk'
  rcases List.mem_append.1 hk' with hk' | hk'
  · exact kind_of_mem_loadKeys hk'
  · split at hk'
    · obtain rfl := List.mem_singleton.1 hk'
      exact .inl rfl
    · cases hk'

theorem Kept.addKey (hP : P.Lawful B) {k : B.PrivateKey} {c : AddKey B} {s' : DiskStore B}
    (hs : Kept P s k) (h : addKey P c s = .ok s') : Kept P s' k := by
  have hreloads := reloads_addKey hP h hs.reloads
  obtain ⟨der, hder, n, -, -, rfl⟩ := addKey_eq_ok h
  obtain ⟨ks, hks⟩ := hs.first
  refine ⟨fun k' hk' => ?_, hreloads, ks ++ [c.key], by rw [hks]; rfl⟩
  rcases List.mem_append.1 hk' with hk' | hk'
  · exact hs.kinds k' hk'
  · obtain rfl := List.mem_singleton.1 hk'
    exact kind_of_privateKeyPkcs8 hder

theorem Kept.afterCalls (hP : P.Lawful B) {k : B.PrivateKey} (hs : Kept P s k)
    (calls : List (AddKey B)) : Kept P (afterCalls P s calls) k := by
  induction calls generalizing s with
  | nil => exact hs
  | cons c calls ih =>
    refine ih (s := (addStep P s c).getD s) ?_
    cases h : addStep P s c with
    | none => exact hs
    | some s' => exact hs.addKey hP (addStep_eq_some.1 h)

/-- Any key of a directory is the first in some order. -/
theorem exists_loadKeys_eq_cons {k : B.PrivateKey} (h : k ∈ loadKeys P B dir.entries) :
    ∃ entries ks, entries.Perm dir.entries ∧ loadKeys P B entries = k :: ks := by
  obtain ⟨file, hfile, hload⟩ := List.mem_filterMap.1 h
  obtain ⟨as, bs, hdir⟩ := List.append_of_mem hfile
  refine ⟨file :: (as ++ bs), loadKeys P B (as ++ bs), ?_, List.filterMap_cons_some hload⟩
  rw [hdir]
  exact List.perm_middle.symm

/-- A store that has keys is opened without a new one. -/
theorem withPath_of_loadKeys {k : B.PrivateKey} {ks : List B.PrivateKey}
    (h : loadKeys P B entries = k :: ks) :
    withPath P seed dir entries = .ok { dir, keys := k :: ks } := by
  rw [withPath, h]
  rfl

theorem kept_of_loadKeys (hP : P.Lawful B) (seed : B.Seed) (hentries : entries.Perm dir.entries)
    {k : B.PrivateKey} {ks : List B.PrivateKey} (h : loadKeys P B entries = k :: ks) :
    Kept P (B := B) { dir, keys := k :: ks } k := by
  have hopen : withPath P seed dir entries = .ok { dir, keys := k :: ks } :=
    withPath_of_loadKeys h
  obtain ⟨k', hkept⟩ := kept_withPath hP hentries hopen
  obtain ⟨ks', hks'⟩ := hkept.first
  obtain ⟨rfl, -⟩ := List.cons_eq_cons.1 hks'
  exact hkept

theorem Kept.mainKey (hB : B.Lawful) (hF : B.FirstSigns) {k : B.PrivateKey} (h : Kept P s k) :
    s.mainKey = some (B.label k) := by
  obtain ⟨ks, hks⟩ := h.first
  exact mainKey_eq hB hF hks (h.duplicable hF.toCopying)

/-- Stores of one key have the same identity if it is the same key. -/
theorem sameIdentity_of_label (hB : B.Lawful) (hF : B.FirstSigns) {s' : DiskStore B}
    {k k' : B.PrivateKey} (hs : Kept P s k) (hs' : Kept P s' k') (hlabel : B.label k = B.label k')
    (hone : ∀ k₁ ∈ s.keys, B.label k₁ = B.label k)
    (hone' : ∀ k₁ ∈ s'.keys, B.label k₁ = B.label k') : SameIdentity s s' := by
  have hmain := hs.mainKey hB hF
  have hmain' := hs'.mainKey hB hF
  obtain ⟨ks, hks⟩ := hs.first
  obtain ⟨ks', hks'⟩ := hs'.first
  have hk : k ∈ s.keys := hks ▸ List.mem_cons_self
  have hk' : k' ∈ s'.keys := hks' ▸ List.mem_cons_self
  refine ⟨⟨by rw [hmain]; rfl, by rw [hmain, hmain', hlabel]⟩,
    fun kc kc' hkc hkc' env env' built built' h h' => ?_⟩
  obtain ⟨hself, htarget⟩ := targetId_of_keychain hB hF.toCopying hkc hk
    (hs.duplicable hF.toCopying k hk) hone h
  obtain ⟨hself', htarget'⟩ := targetId_of_keychain hB hF.toCopying hkc' hk'
    (hs'.duplicable hF.toCopying k' hk') hone' h'
  have heq : built.st.card.selfKey = built'.st.card.selfKey := by
    rw [(sameKey_iff.2 hlabel).2, hself'] at hself
    exact (Except.ok.inj hself).symm
  exact ⟨heq, by rw [htarget, htarget', heq]⟩

/-- Calls that add keys keep those there are, and bring no others than they add. -/
theorem mem_keys_afterCalls (P : PureCrypto) (s : DiskStore B) (calls : List (AddKey B)) :
    s.keys ⊆ (afterCalls P s calls).keys ∧
      ∀ k ∈ (afterCalls P s calls).keys, k ∈ s.keys ∨ ∃ c ∈ calls, k = c.key := by
  induction calls generalizing s with
  | nil => exact ⟨fun _ hk => hk, fun _ hk => .inl hk⟩
  | cons c calls ih =>
    obtain ⟨hsub, hno⟩ := ih ((addStep P s c).getD s)
    show s.keys ⊆ (afterCalls P ((addStep P s c).getD s) calls).keys ∧
      ∀ k ∈ (afterCalls P ((addStep P s c).getD s) calls).keys, _
    cases h : addStep P s c with
    | none =>
      rw [h] at hsub hno
      exact ⟨hsub, fun k hk => (hno k hk).imp_right fun ⟨c', hc', hk'⟩ =>
        ⟨c', List.mem_cons_of_mem _ hc', hk'⟩⟩
    | some s' =>
      rw [h] at hsub hno
      obtain ⟨der, -, n, -, -, rfl⟩ := addKey_eq_ok (addStep_eq_some.1 h)
      refine ⟨fun k hk => hsub (List.mem_append_left _ hk), fun k hk => ?_⟩
      rcases hno k hk with hk | ⟨c', hc', hk'⟩
      · rcases List.mem_append.1 hk with hk | hk
        · exact .inl hk
        · exact .inr ⟨c, List.mem_cons_self, List.mem_singleton.1 hk⟩
      · exact .inr ⟨c', List.mem_cons_of_mem _ hc', hk'⟩

/-- A store that was opened and added to has the identity it had at first whenever it is opened
again, in whatever order the directory is read then, exactly if all keys that can be loaded from the
directory are the same key. -/
theorem stable_iff (hB : B.Lawful) (hF : B.FirstSigns) (hP : P.Lawful B)
    (hentries : entries.Perm dir.entries) (hopen : withPath P seed dir entries = .ok s₀)
    (calls : List (AddKey B)) :
    (∀ seed' entries', entries'.Perm (afterCalls P s₀ calls).dir.entries →
      ∃ s, withPath P seed' (afterCalls P s₀ calls).dir entries' = .ok s ∧ SameIdentity s₀ s) ↔
      OneKey P B (afterCalls P s₀ calls).dir := by
  obtain ⟨k₀, hkept₀⟩ := kept_withPath hP hentries hopen
  have hkept := hkept₀.afterCalls hP calls
  constructor
  · intro hstable
    suffices hall : ∀ k ∈ loadKeys P B (afterCalls P s₀ calls).dir.entries,
        B.label k₀ = B.label k from fun k hk k' hk' => (hall k hk).symm.trans (hall k' hk')
    intro k hk
    -- The order in which this key comes first.
    obtain ⟨entries', ks, hperm, hload⟩ := exists_loadKeys_eq_cons hk
    obtain ⟨s, hs, hsame⟩ := hstable seed entries' hperm
    rw [withPath_of_loadKeys hload] at hs
    obtain rfl := Except.ok.inj hs
    have hmain := hsame.mainKey.2
    rw [hkept₀.mainKey hB hF, (kept_of_loadKeys hP seed hperm hload).mainKey hB hF] at hmain
    exact Option.some.inj hmain
  · intro hone seed' entries' hperm
    have hload := hkept.reloads entries' hperm
    have hdir := loadKeys_perm (P := P) (B := B) hperm
    have hloaded : ∀ k ∈ s₀.keys, k ∈ loadKeys P B entries' :=
      fun k hk => hload.mem_iff.2 ((mem_keys_afterCalls P s₀ calls).1 hk)
    have hlabel : ∀ k ∈ loadKeys P B entries', ∀ k' ∈ loadKeys P B entries',
        B.label k = B.label k' :=
      fun k hk k' hk' => hone k (hdir.mem_iff.1 hk) k' (hdir.mem_iff.1 hk')
    obtain ⟨ks, hks⟩ := hkept₀.first
    have hk₀ : k₀ ∈ loadKeys P B entries' := hloaded k₀ (hks ▸ List.mem_cons_self)
    obtain ⟨k, ks', hcons⟩ := List.exists_cons_of_ne_nil (List.ne_nil_of_mem hk₀)
    have hkept' := kept_of_loadKeys hP seed' hperm hcons
    have hk : k ∈ loadKeys P B entries' := hcons ▸ List.mem_cons_self
    refine ⟨_, withPath_of_loadKeys hcons, sameIdentity_of_label hB hF hkept₀ hkept'
      (hlabel k₀ hk₀ k hk) (fun k₁ hk₁ => hlabel k₁ (hloaded k₁ hk₁) k₀ hk₀) fun k₁ hk₁ => ?_⟩
    exact hlabel k₁ (hcons ▸ hk₁) k hk

end Stability

/-- The file of a key. -/
def keyFile (b : UInt8) (n : ℕ) : DirEntry :=
  ⟨utf8 (keyFileName ecdsaType n), utf8 (plainCrypto.pemEncode pemLabel [b])⟩

theorem loadKey_keyFile (b : UInt8) (n : ℕ) :
    loadKey plainCrypto plain (keyFile b n) = some (Plain.mk .rsa b) := by
  have hder : privateKeyPkcs8 plainCrypto plain (Plain.mk .rsa b) = .ok [b] := rfl
  exact loadKey_written plainCrypto_lawful hder ecdsaType n

theorem loadKeys_keyFiles (a b : UInt8) (m n : ℕ) :
    loadKeys plainCrypto plain [keyFile a m, keyFile b n] = [Plain.mk .rsa a, Plain.mk .rsa b] := by
  rw [loadKeys, List.filterMap_cons_some (loadKey_keyFile a m),
    List.filterMap_cons_some (loadKey_keyFile b n), List.filterMap_nil]

/-- A directory with two files of one key. -/
def oneKeyFiles : Dir where
  entries := [keyFile 7 0, keyFile 7 1]
  nodupKeys := by
    show List.Nodup [utf8 (keyFileName ecdsaType 0), utf8 (keyFileName ecdsaType 1)]
    decide +kernel

/-- The same key is added once more. -/
theorem stable_oneKeyFiles : ∃ s₀ s₁ : DiskStore plain,
    withPath plainCrypto () oneKeyFiles oneKeyFiles.entries = .ok s₀ ∧
    addKey plainCrypto ⟨Plain.mk .rsa 7, ecdsaType⟩ s₀ = .ok s₁ ∧
    ∀ seed' entries', entries'.Perm s₁.dir.entries →
      ∃ s, withPath plainCrypto seed' s₁.dir entries' = .ok s ∧ SameIdentity s₀ s := by
  let s₀ : DiskStore plain := ⟨oneKeyFiles, [Plain.mk .rsa 7, Plain.mk .rsa 7]⟩
  let c : AddKey plain := ⟨Plain.mk .rsa 7, ecdsaType⟩
  have hopen : withPath plainCrypto () oneKeyFiles oneKeyFiles.entries = .ok s₀ :=
    withPath_of_loadKeys (loadKeys_keyFiles 7 7 0 1)
  have hfree : Free s₀.dir ecdsaType := free_of_length_lt (by decide) ecdsaType
  obtain ⟨s₁, hadd⟩ := (exists_addKey_iff (c := c) plainCrypto_lawful (.inr rfl)).2 hfree
  have hafter : afterCalls plainCrypto s₀ [c] = s₁ := by
    show (addStep plainCrypto s₀ c).getD s₀ = s₁
    rw [addStep_eq_some.2 hadd]
    rfl
  have hstable := stable_iff plain_lawful (plain_orderly.firstSigns) plainCrypto_lawful (.refl _)
    hopen [c]
  rw [hafter] at hstable
  refine ⟨s₀, s₁, hopen, hadd, hstable.2 ?_⟩
  have hkept : Kept plainCrypto s₁ (Plain.mk .rsa 7) := (kept_of_loadKeys plainCrypto_lawful ()
    (.refl _) (loadKeys_keyFiles 7 7 0 1)).addKey plainCrypto_lawful hadd
  have hall : ∀ k ∈ loadKeys plainCrypto plain s₁.dir.entries, k = Plain.mk .rsa 7 := by
    intro k hk
    have hmem : k ∈ (afterCalls plainCrypto s₀ [c]).keys :=
      hafter ▸ (hkept.reloads _ (.refl _)).mem_iff.1 hk
    rcases (mem_keys_afterCalls plainCrypto s₀ [c]).2 k hmem with hk | ⟨c', hc', rfl⟩
    · simpa [s₀] using hk
    · rw [List.mem_singleton.1 hc']
  intro k hk k' hk'
  rw [hall k hk, hall k' hk']

/-- A directory with two keys. -/
def twoKeyFiles : Dir where
  entries := [keyFile 7 0, keyFile 8 1]
  nodupKeys := by
    show List.Nodup [utf8 (keyFileName ecdsaType 0), utf8 (keyFileName ecdsaType 1)]
    decide +kernel

/-- It is listed in one order and in the other. -/
theorem mainKey_twoKeyFiles :
    ¬ ∀ (dir : Dir) (entries entries' : List DirEntry) (s s' : DiskStore plain),
      entries.Perm dir.entries → entries'.Perm dir.entries →
        withPath plainCrypto () dir entries = .ok s →
          withPath plainCrypto () dir entries' = .ok s' → s.mainKey = s'.mainKey := by
  intro hall
  have hmain (a b : UInt8) : DiskStore.mainKey (B := plain)
      ⟨twoKeyFiles, [Plain.mk .rsa a, Plain.mk .rsa b]⟩ = some (plain.label (Plain.mk .rsa a)) := by
    refine mainKey_eq plain_lawful plain_orderly.firstSigns rfl
      fun k hk => (duplicable_iff plain_orderly.toCopying).2 ?_
    rcases List.mem_cons.1 hk with rfl | hk
    · exact .inr (.inr rfl)
    · obtain rfl := List.mem_singleton.1 hk
      exact .inr (.inr rfl)
  have h := hall twoKeyFiles [keyFile 7 0, keyFile 8 1] [keyFile 8 1, keyFile 7 0] _ _ (.refl _)
    (.swap _ _ _) (withPath_of_loadKeys (loadKeys_keyFiles 7 8 0 1))
    (withPath_of_loadKeys (loadKeys_keyFiles 8 7 1 0))
  rw [hmain, hmain] at h
  have hpkix : (Except.ok [2, 7] : Except Text Bytes) = .ok [2, 8] :=
    congrArg Prod.snd (Option.some.inj h)
  exact absurd (Except.ok.inj hpkix) (by decide)

end Spot
