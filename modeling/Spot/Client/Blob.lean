import Spot.Client.EndToEnd

/-!
# Blobs

A client keeps values with the server under keys of its choice: a request to store is the key, a NUL
byte and the value, sealed by the client for itself; without a value it deletes.  The client does
not look at the key: `storeBlob_addresses_iff` says that the requests are about their keys if and
only if there is no NUL in them, or nothing to send.  `open_stored` follows a value into a bottle
and out of it, with the keys of any client built from the same ones.
-/

namespace Spot

variable {B : Bottlers}

/-- The character that ends a key. -/
def nul : Char := Char.ofNat 0

def storeBlobTarget : Str := ⟨"@/store_blob".toList, by decide⟩

def fetchBlobTarget : Str := ⟨"@/fetch_blob".toList, by decide⟩

/-- A bottle on which signatures are collected, with their number and the last error. -/
structure Signing (B : Bottlers) where
  bottle : B.Bottle
  sigCnt : ℕ := 0
  sigErr : Option Text := none

/-- Signs with a key if it can; the bottle stays as it is otherwise. -/
def Signing.sign (s : Signing B) (seed : B.Seed) (key : B.PrivateKey) : Signing B :=
  match B.sign seed key s.bottle with
  | .ok bottle => { s with bottle, sigCnt := s.sigCnt + 1 }
  | .error e => { s with sigErr := some e }

/-- Signs with each key in turn. -/
def signEach : List B.PrivateKey → Signing B → Action B (Signing B)
  | [], s => return s
  | key :: keys, s => do
    let seeds ← randomSeeds B
    signEach keys (s.sign seeds.sign key)

/-- The bottle that is stored for a value, encrypted for the decryption keys of the client's card
and signed with every key that can sign. -/
def blobBottle (acct : Account B) (card : B.Card) (value : Bytes) : Client B Bytes := do
  let now ← nowUnix B
  let seeds ← randomSeeds B
  let bottle ← liftM (wrapBottle
    (B.encrypt seeds.encrypt (B.keysFor card decryptPurpose now) (B.newBottle value)))
  let bottle ← liftM (wrapBottle (B.bottleUp bottle))
  let s ← signEach (B.keys acct.kc) { bottle }
  if s.sigCnt = 0 then
    throw (match s.sigErr with
      | some e => .bottle e
      | none => .other "no signature key was available".toList)
  else liftM (wrapBottle (B.toCbor s.bottle))

/-- Builds the body of a request to store a value. -/
def buildStoreBlob (acct : Account B) (card : B.Card) (key : Text) (value : Bytes) :
    Client B Bytes := do
  let buf ← blobBottle acct card value
  return utf8 (key ++ [nul]) ++ buf

/-- Decrypts and verifies a blob fetched from the server. -/
def openFetchedBlob (acct : Account B) (card : B.Card) (now : ℤ) (buf : Bytes) : Result Bytes :=
  match B.openCbor acct.opener buf with
  | .error e => .error (.bottle e)
  | .ok (data, info) =>
    if !signedBy B info card now then .error (.other "data was not signed by us".toList)
    else if B.decryption info = 0 then .error (.other "data was not encrypted".toList)
    else .ok data

/-- The body of a request to store: a value, or none to delete. -/
def storeBody (acct : Account B) (card : B.Card) (key : Text) (value : Bytes) : Client B Bytes :=
  if value = [] then return utf8 (key ++ [nul]) else buildStoreBlob acct card key value

/-- Stores a value under a key; an empty value deletes the key. -/
def storeBlob (t : Platform) (acct : Account B) (card : B.Card) (key : Text) (value : Bytes) :
    Client B Unit := do
  let body ← storeBody acct card key value
  let _ ← query t acct storeBlobTarget body
  return ()

/-- The body of a request to fetch. -/
def fetchBody (key : Text) : Bytes := utf8 key

/-- What is made of a blob at the time it arrives. -/
def openFetched (acct : Account B) (card : B.Card) (buf : Bytes) : Client B Bytes := do
  let now ← nowUnix B
  liftM (openFetchedBlob acct card now buf)

/-- Fetches a blob; `card` is the client's card when it arrives. -/
def fetchBlob (t : Platform) (acct : Account B) (card : B.Card) (key : Text) : Client B Bytes := do
  let buf ← query t acct fetchBlobTarget (fetchBody key)
  openFetched acct card buf

/-! ## Building a bottle -/

/-- A bottle and its signatures after some keys have been tried. -/
structure Signing.After (s : Signing B) (keys : List B.PrivateKey) (s' : Signing B)
    (signers : List B.PrivateKey) : Prop where
  signed : B.SignedWith signers s.bottle s'.bottle
  count : s'.sigCnt = s.sigCnt + signers.length
  able : ∀ key ∈ keys, signPurpose ∈ keyPurposes key.1 → key ∈ signers

theorem Signing.sign_cases (s : Signing B) (seed : B.Seed) (key : B.PrivateKey) :
    (∃ b, B.sign seed key s.bottle = .ok b ∧ (s.sign seed key).bottle = b ∧
      (s.sign seed key).sigCnt = s.sigCnt + 1) ∨
    (∃ e, B.sign seed key s.bottle = .error e) ∧ (s.sign seed key).bottle = s.bottle ∧
      (s.sign seed key).sigCnt = s.sigCnt := by
  unfold Signing.sign
  cases B.sign seed key s.bottle with
  | ok b => exact .inl ⟨b, rfl, rfl, rfl⟩
  | error e => exact .inr ⟨⟨e, rfl⟩, rfl, rfl⟩

/-- Every key that can sign is among the signers. -/
theorem safe_signEach (hB : B.Lawful) {R : Asked (Reply B) → Prop} {keys : List B.PrivateKey}
    {s : Signing B} {tr : Trace B} :
    (signEach keys s).Safe (fun _ _ => True) R
      (fun _ s' => ∃ signers, s.After keys s' signers) tr := by
  induction keys generalizing s tr with
  | nil => exact ⟨[], rfl, rfl, fun key hkey => absurd hkey List.not_mem_nil⟩
  | cons key keys ih =>
    refine ⟨trivial, fun seeds _ => ih.post ?_⟩
    rintro - s' ⟨signers, hsigned, hcount, hable⟩
    rcases s.sign_cases seeds.sign key with ⟨b, hb, hbottle, hcnt⟩ | ⟨⟨e, he⟩, hbottle, hcnt⟩
    · rw [hbottle] at hsigned
      rw [hcnt] at hcount
      refine ⟨key :: signers, ⟨seeds.sign, b, hb, hsigned⟩, ?_, fun k hk hsign => ?_⟩
      · rw [List.length_cons]
        omega
      · rcases List.mem_cons.1 hk with rfl | hk
        · exact List.mem_cons_self
        · exact List.mem_cons_of_mem _ (hable k hk hsign)
    · rw [hbottle] at hsigned
      rw [hcnt] at hcount
      refine ⟨signers, hsigned, hcount, fun k hk hsign => ?_⟩
      rcases List.mem_cons.1 hk with rfl | hk
      · obtain ⟨b, hb⟩ := hB.sign_ok seeds.sign k s.bottle hsign
        rw [hb] at he
        cases he
      · exact hable k hk hsign

/-- The bottle is a value, encrypted for a card and signed by the client among others. -/
structure SealedBlob (acct : Account B) (card : B.Card) (value buf : Bytes) (now : ℤ)
    (seed : B.Seed) (signers : List B.PrivateKey) : Prop where
  main : acct.signer ∈ signers
  written : ∃ b b' b'', B.encrypt seed (B.keysFor card decryptPurpose now) (B.newBottle value) =
    .ok b ∧ B.bottleUp b = .ok b' ∧ B.SignedWith signers b' b'' ∧ B.toCbor b'' = .ok buf

/-- A client that can encrypt a value makes a bottle of it. -/
theorem safe_blobBottle (hB : B.Lawful) {acct : Account B} {card : B.Card}
    (hready : acct.Ready card) {value : Bytes} {R : Asked (Reply B) → Prop} {tr : Trace B}
    (henc : ∀ now seeds, R ⟨.now, now⟩ → R ⟨.seeds, seeds⟩ → ∃ b,
      B.encrypt seeds.encrypt (B.keysFor card decryptPurpose now) (B.newBottle value) = .ok b) :
    (blobBottle acct card value).run.Safe (fun _ _ => True) R
      (fun _ r => ∃ buf now seed signers, r = .ok buf ∧
        SealedBlob acct card value buf now seed signers) tr := by
  refine Prog.safe_run_once_bind (G := fun _ _ => True) Ask.now trivial fun now hnow => ?_
  refine Prog.safe_run_once_bind (G := fun _ _ => True) Ask.seeds trivial fun seeds hseeds => ?_
  obtain ⟨b, hb⟩ := henc now seeds hnow hseeds
  obtain ⟨b', hb'⟩ := hB.bottleUp_ok b
  rw [Prog.safe_run_bind, Prog.safe_run_except, hb]
  show Prog.Safe _ _ _ (ExceptT.run (_ >>= _)) _
  rw [Prog.safe_run_bind, Prog.safe_run_except, hb']
  show Prog.Safe _ _ _ (ExceptT.run (_ >>= _)) _
  rw [Prog.safe_run_bind, Prog.safe_run_liftM]
  refine (safe_signEach hB).post ?_
  rintro tr' s ⟨signers, hsigned, hcount, hable⟩
  have hmain : acct.signer ∈ signers := hable _ hready.main hready.signs
  have hpos : s.sigCnt ≠ 0 := by
    have hlen : 0 < signers.length := List.length_pos_of_mem hmain
    omega
  obtain ⟨buf, hbuf⟩ := hB.toCbor_ok s.bottle
  show Prog.Safe _ _ _ (ExceptT.run (if s.sigCnt = 0 then _ else _)) _
  rw [if_neg hpos, Prog.safe_run_except, hbuf]
  exact ⟨buf, now, seeds.encrypt, signers, rfl, hmain, b, b', s.bottle, hb, hb', hsigned, hbuf⟩

/-! ## What a request is about -/

/-- The requests to store under a key are about that key and no other, the one that is fetched; a
key that a request cannot be about is rejected before anything is sent. -/
structure Addresses (t : Platform) (acct : Account B) (card : B.Card) (key : Text)
    (value : Bytes) : Prop where
  splits : ∀ tr body, (storeBody acct card key value).run.Run tr (.ok body) →
    before 0 body = utf8 key ∧ ∃ content, after? 0 body = some content ∧
      (value = [] → content = []) ∧
      (value ≠ [] → (blobBottle acct card value).run.Run tr (.ok content))
  others : ∀ tr body, (storeBody acct card key value).run.Run tr (.ok body) →
    ∀ key' : Text, key' ≠ key → before 0 body ≠ utf8 key'
  fetched : ∀ tr body, (storeBody acct card key value).run.Run tr (.ok body) →
    fetchBody key = before 0 body
  rejects : nul ∈ key → ∀ tr r, (storeBlob t acct card key value).run.Run tr r →
    (∃ e, r = .error e) ∧ pushed tr = []

/-- The value cannot be encrypted for the decryption keys of the card. -/
def Unencryptable (card : B.Card) (value : Bytes) : Prop :=
  value ≠ [] ∧ ∀ now seed, ∃ e,
    B.encrypt seed (B.keysFor card decryptPurpose now) (B.newBottle value) = .error e

section Requests

variable {t : Platform} {acct : Account B} {card : B.Card} {key : Text} {value : Bytes}

theorem zero_mem_utf8 : 0 ∈ utf8 key ↔ nul ∈ key := ascii_mem_utf8 (a := nul) (by decide)

theorem utf8_nul : utf8 (key ++ [nul]) = utf8 key ++ [0] := utf8_append key [nul]

theorem utf8_injective {key key' : Text} (h : utf8 key = utf8 key') : key = key' := by
  rw [← lossy_utf8 key, h, lossy_utf8]

/-- What is sent to store: the key, a NUL byte, and a bottle unless the value is empty. -/
theorem storeBody_eq_ok {tr : Trace B} {body : Bytes}
    (h : (storeBody acct card key value).run.Run tr (.ok body)) :
    ∃ content, body = utf8 key ++ 0 :: content ∧ (value = [] → content = []) ∧
      (value ≠ [] → (blobBottle acct card value).run.Run tr (.ok content)) := by
  unfold storeBody at h
  by_cases hvalue : value = []
  · rw [if_pos hvalue, Prog.run_run_pure] at h
    obtain ⟨-, hbody⟩ := h
    obtain rfl := Except.ok.inj hbody
    exact ⟨[], utf8_nul, fun _ => rfl, fun hne => absurd hvalue hne⟩
  · rw [if_neg hvalue, buildStoreBlob, Prog.run_run_bind] at h
    rcases h with ⟨tr₁, buf, tr₂, rfl, hbuf, rfl, hbody⟩ | ⟨e, he, -⟩
    · obtain rfl := Except.ok.inj hbody
      rw [List.append_nil, utf8_nul, List.append_assoc]
      exact ⟨buf, rfl, fun h => absurd h hvalue, fun _ => hbuf⟩
    · cases he

/-- A key that holds no NUL is what stands before the first one. -/
theorem addresses_of_notMem (h : nul ∉ key) : Addresses t acct card key value := by
  have h0 : 0 ∉ utf8 key := fun hmem => h (zero_mem_utf8.1 hmem)
  have hbefore : ∀ tr body, (storeBody acct card key value).run.Run tr (.ok body) →
      before 0 body = utf8 key := by
    intro tr body hrun
    obtain ⟨content, rfl, -, -⟩ := storeBody_eq_ok hrun
    exact before_append_cons h0
  refine ⟨fun tr body hrun => ?_, fun tr body hrun key' hne heq => ?_, fun tr body hrun => ?_,
    fun hmem => absurd hmem h⟩
  · obtain ⟨content, rfl, hempty, hbottle⟩ := storeBody_eq_ok hrun
    exact ⟨before_append_cons h0, content, after?_append_cons h0, hempty, hbottle⟩
  · rw [hbefore tr body hrun] at heq
    exact hne (utf8_injective heq).symm
  · exact (hbefore tr body hrun).symm

/-- A value that cannot be encrypted is not sent. -/
theorem safe_blobBottle_unencryptable (h : Unencryptable card value)
    {R : Asked (Reply B) → Prop} :
    (blobBottle acct card value).run.Safe (fun _ _ => True) R
      (fun tr r => (∃ e, r = .error e) ∧ pushed tr = []) [] := by
  refine Prog.safe_run_once_bind (G := fun _ _ => True) Ask.now trivial fun now _ => ?_
  refine Prog.safe_run_once_bind (G := fun _ _ => True) Ask.seeds trivial fun seeds _ => ?_
  obtain ⟨e, he⟩ := h.2 now seeds.encrypt
  rw [Prog.safe_run_bind, Prog.safe_run_except, he]
  exact ⟨⟨.bottle e, rfl⟩, rfl⟩

theorem addresses_of_unencryptable (h : Unencryptable card value) :
    Addresses t acct card key value := by
  have hfails : ∀ tr r, (storeBody acct card key value).run.Run tr r →
      (∃ e, r = .error e) ∧ pushed tr = [] := by
    intro tr r hrun
    rw [storeBody, if_neg h.1, buildStoreBlob, Prog.run_run_bind] at hrun
    have hblob : ∀ r', (blobBottle acct card value).run.Run tr r' →
        (∃ e, r' = .error e) ∧ pushed tr = [] := fun r' hr' =>
      ((safe_blobBottle_unencryptable h (R := fun _ => True)).run hr' fun _ _ => trivial).1
    rcases hrun with ⟨tr₁, buf, tr₂, rfl, hbuf, rfl, -⟩ | ⟨e, rfl, herr⟩
    · rw [List.append_nil] at hblob
      obtain ⟨⟨e, he⟩, -⟩ := hblob _ hbuf
      cases he
    · exact ⟨⟨e, rfl⟩, (hblob _ herr).2⟩
  have hno : ∀ tr body, ¬ (storeBody acct card key value).run.Run tr (.ok body) := by
    intro tr body hrun
    obtain ⟨⟨e, he⟩, -⟩ := hfails tr _ hrun
    cases he
  refine ⟨fun tr body hrun => absurd hrun (hno tr body), fun tr body hrun => absurd hrun (hno tr _),
    fun tr body hrun => absurd hrun (hno tr body), fun _ tr r hrun => ?_⟩
  rw [storeBlob, Prog.run_run_bind] at hrun
  rcases hrun with ⟨tr₁, body, tr₂, -, hbody, -⟩ | ⟨e, rfl, herr⟩
  · exact absurd hbody (hno tr₁ body)
  · exact ⟨⟨e, rfl⟩, (hfails tr _ herr).2⟩

/-- What stands before the first NUL byte has none. -/
theorem zero_notMem_before (body : Bytes) : 0 ∉ before 0 body := by
  intro h
  have hne := List.mem_takeWhile_imp h
  simp at hne

/-- A client that can encrypt the value has a request to send. -/
theorem exists_storeBody (hB : B.Lawful) (hready : acct.Ready card)
    (h : ¬ Unencryptable card value) :
    ∃ tr body, (storeBody acct card key value).run.Run tr (.ok body) := by
  by_cases hvalue : value = []
  · refine ⟨[], utf8 (key ++ [nul]), ?_⟩
    rw [storeBody, if_pos hvalue]
    exact ⟨rfl, rfl⟩
  · obtain ⟨now, seed, b, hb⟩ : ∃ now seed b,
        B.encrypt seed (B.keysFor card decryptPurpose now) (B.newBottle value) = .ok b := by
      by_contra hnone
      refine h ⟨hvalue, fun now seed => ?_⟩
      cases he : B.encrypt seed (B.keysFor card decryptPurpose now) (B.newBottle value) with
      | error e => exact ⟨e, rfl⟩
      | ok b => exact absurd ⟨now, seed, b, he⟩ hnone
    obtain ⟨tr, r, hrun, ho⟩ := Prog.exists_run
      (arrival card now ⟨seed, seed⟩ zeroId 0 (.panicked none) default)
      (blobBottle acct card value).run
    have hsafe : (blobBottle acct card value).run.Safe (fun _ _ => True)
        (fun e => e.2 = arrival card now ⟨seed, seed⟩ zeroId 0 (.panicked none) default e.1)
        (fun _ r => ∃ buf, r = .ok buf) [] := by
      refine (safe_blobBottle hB hready fun now' seeds hnow hseeds => ?_).post ?_
      · obtain rfl : now' = now := hnow
        obtain rfl : seeds = ⟨seed, seed⟩ := hseeds
        exact ⟨b, hb⟩
      · rintro _ r ⟨buf, -, -, -, rfl, -⟩
        exact ⟨buf, rfl⟩
    obtain ⟨⟨buf, rfl⟩, -⟩ := hsafe.run hrun ho
    refine ⟨tr ++ [], utf8 (key ++ [nul]) ++ buf, ?_⟩
    rw [storeBody, if_neg hvalue, buildStoreBlob, Prog.run_run_bind]
    exact .inl ⟨tr, buf, [], rfl, hrun, rfl, rfl⟩

end Requests

/-- The requests of a client are about their keys if and only if the key holds no NUL, or the value
cannot be encrypted and nothing is sent. -/
theorem storeBlob_addresses_iff (hB : B.Lawful) {env : BuildEnv B} {b : ClientBuilder B}
    {built : Built B} (h : b.build env = .ok built) {C : Ciborium} {card : B.Card}
    (hc : built.Current C card) (t : Platform) (key : Text) (value : Bytes) :
    Addresses t built.acct card key value ↔ nul ∉ key ∨ Unencryptable card value := by
  constructor
  · intro ha
    by_contra hno
    rw [not_or, not_not] at hno
    obtain ⟨hmem, henc⟩ := hno
    obtain ⟨tr, body, hrun⟩ := exists_storeBody hB (hc.ready hB h) henc
    obtain ⟨hbefore, -⟩ := ha.splits tr body hrun
    have h0 : 0 ∈ before 0 body := hbefore ▸ zero_mem_utf8.2 hmem
    exact zero_notMem_before body h0
  · rintro (hmem | henc)
    · exact addresses_of_notMem hmem
    · exact addresses_of_unencryptable henc

theorem storeBlob_addresses_a :
    Addresses .native (plainBuilt 5).acct (plainBuilt 5).st.card "a".toList [7] := by
  have hbuild : (oneKey 5).build plainEnv = .ok (plainBuilt 5) := rfl
  have hcurrent : (plainBuilt 5).Current sampleCiborium (plainBuilt 5).st.card := ⟨_, .refl, rfl⟩
  exact (storeBlob_addresses_iff plain_lawful hbuild hcurrent .native _ _).2 (.inl (by decide))

/-- The key `a`, a NUL and `b`. -/
def nulKey : Text := ['a', nul, 'b']

/-- Deleting under that key stores `b` and a NUL under the key `a`. -/
theorem storeBlob_nulKey :
    (∃ tr body,
      (storeBody (plainBuilt 5).acct (plainBuilt 5).st.card nulKey []).run.Run tr (.ok body) ∧
      before 0 body = utf8 "a".toList ∧ after? 0 body = some (utf8 ['b', nul])) ∧
    ¬ Addresses .native (plainBuilt 5).acct (plainBuilt 5).st.card nulKey [] := by
  have hrun : (storeBody (plainBuilt 5).acct (plainBuilt 5).st.card nulKey []).run.Run []
      (.ok (utf8 (nulKey ++ [nul]))) := ⟨rfl, rfl⟩
  refine ⟨⟨[], _, hrun, by decide, by decide⟩, fun h => ?_⟩
  obtain ⟨hbefore, -⟩ := h.splits [] _ hrun
  revert hbefore
  decide

/-! ## Opening what was stored -/

section Keys

variable {acct acct' : Account B} {card card' : B.Card}

/-- All keys of the first client are keys of the second. -/
def SharesKeys (acct acct' : Account B) : Prop :=
  ∀ key ∈ B.keys acct.kc, B.Holds acct'.kc key

/-- A key of the one client is listed on the card of the other with what it is for. -/
theorem Account.Ready.lists_shared (h : acct'.Ready card') (hshare : SharesKeys acct acct')
    {key : B.PrivateKey} (hkey : key ∈ B.keys acct.kc) :
    ∃ pkix, B.publicPkix key = .ok pkix ∧ Lists B card'.subkeys pkix (keyPurposes key.1) := by
  obtain ⟨copy, hcopy, hkind, hpkix⟩ := hshare key hkey
  obtain ⟨pkix, hok, hlists⟩ := h.listed copy hcopy
  rw [hkind] at hlists
  exact ⟨pkix, hpkix.symm.trans hok, hlists⟩

/-- The other client can sign with the key of the first. -/
theorem Account.Ready.signsFor_shared (h : acct.Ready card) (h' : acct'.Ready card')
    (hshare : SharesKeys acct acct') (now : ℤ) : SignsFor B card' now acct.signerPkix := by
  obtain ⟨pkix, hpkix, hlists⟩ := h'.lists_shared hshare h.main
  obtain rfl : pkix = acct.signerPkix := Except.ok.inj (hpkix.symm.trans h.pkix)
  exact h'.signsFor_of_lists hlists h.signs now

/-- The other client has a copy of the key to open with. -/
theorem Account.Ready.opens_shared (h' : acct'.Ready card') (hshare : SharesKeys acct acct')
    {key : B.PrivateKey} (hkey : key ∈ B.keys acct.kc) : B.Holds acct'.opener key := by
  obtain ⟨copy, hcopy, hsame⟩ := hshare key hkey
  obtain ⟨copy', hcopy', hsame'⟩ := h'.opens copy hcopy
  exact ⟨copy', hcopy', hsame'.trans hsame⟩

/-- What a client that can decrypt has sealed for itself, the other client opens. -/
theorem SealedBlob.authentic (hS : B.OpensSigned) (h : acct.Ready card) (h' : acct'.Ready card')
    (hshare : SharesKeys acct acct')
    (hdec : ∃ key ∈ B.keys acct.kc, decryptPurpose ∈ keyPurposes key.1) {value buf : Bytes}
    {now : ℤ} {seed : B.Seed} {signers : List B.PrivateKey}
    (hs : SealedBlob acct card value buf now seed signers) (now' : ℤ) :
    Authentic acct' card' now' buf value := by
  obtain ⟨key, hkey, hkdec⟩ := hdec
  obtain ⟨pkix, hpkix, sub, hsub, hsubkey, hps⟩ := h.listed key hkey
  obtain ⟨copy, hcopy, hkind, hsame⟩ := h'.opens_shared hshare hkey
  obtain ⟨b, b', b'', hb, hb', hb'', hbuf⟩ := hs.written
  obtain ⟨info, hopen, hd, hsigned⟩ := hS acct'.opener card sub copy signers value buf now seed b b'
    b'' hcopy (hkind ▸ hkdec) (by rw [hsame, hpkix, hsubkey]) hsub (hps _ hkdec)
    (h.sound sub hsub).1 hb hb' hb'' hbuf
  exact ⟨info, hopen, hd, acct.signerPkix, h.signsFor_shared h' hshare now',
    (hsigned _).2 ⟨acct.signer, hs.main, h.pkix⟩⟩

/-- A blob is opened exactly if it is authentic for the client's own card. -/
theorem openFetchedBlob_eq_ok {now : ℤ} {buf data : Bytes} :
    openFetchedBlob acct card now buf = .ok data ↔ Authentic acct card now buf data := by
  unfold openFetchedBlob Authentic
  simp only [← signedBy_iff]
  cases B.openCbor acct.opener buf with
  | error e => simp
  | ok r =>
    obtain ⟨plain, info⟩ := r
    by_cases hd : B.decryption info = 0
    · cases hs : signedBy B info card now <;> simp [hd, hs]
    · cases hs : signedBy B info card now <;> simp [hd, hs]

end Keys

theorem sharesKeys_of_build (hB : B.Lawful) {env env' : BuildEnv B} {b b' : ClientBuilder B}
    {built built' : Built B} (h : b.build env = .ok built) (h' : b'.build env' = .ok built')
    (hkeys : b.allKeys env ⊆ b'.allKeys env') : SharesKeys built.acct built'.acct := by
  intro key hkey
  obtain ⟨k, hk, hsame⟩ := (holds_build hB h key).1 ⟨key, hkey, .refl key⟩
  exact (holds_build hB h' key).2 ⟨k, hkeys hk, hsame⟩

/-- A client that can decrypt makes a request of every value, which holds it sealed. -/
theorem buildStoreBlob_sealed (hB : B.Lawful) {acct : Account B} {card : B.Card}
    (hready : acct.Ready card)
    (hdec : ∃ key ∈ B.keys acct.kc, decryptPurpose ∈ keyPurposes key.1) {key : Text}
    (hkey : nul ∉ key) {value : Bytes} {tr : Trace B} {r : Result Bytes}
    (hrun : (buildStoreBlob acct card key value).run.Run tr r) :
    ∃ body buf, r = .ok body ∧ after? 0 body = some buf ∧
      ∃ now seed signers, SealedBlob acct card value buf now seed signers := by
  obtain ⟨k, hk, hkdec⟩ := hdec
  obtain ⟨pkix, -, sub, hsub, -, hps⟩ := hready.listed k hk
  have hblob : (blobBottle acct card value).run.Safe (fun _ _ => True) (fun _ => True)
      (fun _ r => ∃ buf now seed signers, r = .ok buf ∧
        SealedBlob acct card value buf now seed signers) [] :=
    safe_blobBottle hB hready fun now seeds _ _ =>
      hB.encrypt_ok seeds.encrypt card now _ hready.sound ⟨sub, hsub, hps _ hkdec⟩
  rw [buildStoreBlob, Prog.run_run_bind] at hrun
  rcases hrun with ⟨tr₁, buf, tr₂, -, hbuf, -, rfl⟩ | ⟨e, -, herr⟩
  · obtain ⟨⟨buf', now, seed, signers, hok, hsealed⟩, -⟩ := hblob.run hbuf fun _ _ => trivial
    obtain rfl := Except.ok.inj hok
    have h0 : 0 ∉ utf8 key := fun hmem => hkey (zero_mem_utf8.1 hmem)
    refine ⟨_, buf, rfl, ?_, now, seed, signers, hsealed⟩
    rw [utf8_nul, List.append_assoc]
    exact after?_append_cons h0
  · obtain ⟨⟨buf, -, -, -, hok, -⟩, -⟩ := hblob.run herr fun _ _ => trivial
    cases hok

/-- A client that can decrypt builds a bottle of every value, which itself and all clients built
with the same keys open again; and a client opens nothing that is not encrypted, or not signed by a
subkey of its own card that is for signing and has not expired. -/
theorem open_stored (hB : B.Lawful) (hS : B.OpensSigned) {env env' : BuildEnv B}
    {b b' : ClientBuilder B} {built built' : Built B} (h : b.build env = .ok built)
    (h' : b'.build env' = .ok built') (hkeys : b.allKeys env ⊆ b'.allKeys env') {C : Ciborium}
    {card card' : B.Card} (hc : built.Current C card) (hc' : built'.Current C card') :
    ((∃ key ∈ b.allKeys env, decryptPurpose ∈ keyPurposes key.1) → ∀ key value, nul ∉ key →
      ∀ tr r, (buildStoreBlob built.acct card key value).run.Run tr r → ∃ body buf, r = .ok body ∧
        after? 0 body = some buf ∧ ∀ now, openFetchedBlob built'.acct card' now buf = .ok value) ∧
    ∀ now buf data, openFetchedBlob built.acct card now buf = .ok data →
      ∃ info, B.openCbor built.acct.opener buf = .ok (data, info) ∧ B.decryption info ≠ 0 ∧
        ∃ sub ∈ card.subkeys, B.hasPurpose sub signPurpose = true ∧
          (∀ exp, sub.expires = some exp → now < exp) ∧ B.signedByPkix info sub.key = true := by
  have hready := hc.ready hB h
  constructor
  · rintro ⟨k, hk, hkdec⟩ key value hkey tr r hrun
    obtain ⟨key₀, hkey₀, hsame⟩ := (holds_build hB h k).2 ⟨k, hk, .refl k⟩
    have hdec : ∃ key ∈ B.keys built.acct.kc, decryptPurpose ∈ keyPurposes key.1 :=
      ⟨key₀, hkey₀, hsame.1 ▸ hkdec⟩
    obtain ⟨body, buf, hok, hafter, now, seed, signers, hsealed⟩ :=
      buildStoreBlob_sealed hB hready hdec hkey hrun
    refine ⟨body, buf, hok, hafter, fun now' => openFetchedBlob_eq_ok.2 ?_⟩
    exact hsealed.authentic hS hready (hc'.ready hB h') (sharesKeys_of_build hB h h' hkeys) hdec
      now'
  · intro now buf data hdata
    obtain ⟨info, hopen, hd, key, ⟨sub, hsub, rfl, hp, hexp⟩, hsigned⟩ :=
      openFetchedBlob_eq_ok.1 hdata
    exact ⟨info, hopen, hd, sub, hsub, hp, hexp, hsigned⟩

/-- A builder with a key to sign and the key `[0, 5]`. -/
def moreKeys : ClientBuilder plain := { keys := [Plain.mk .ed25519 9, Plain.mk .ecdsa 5] }

theorem open_stored_moreKeys :
    ∃ built', moreKeys.build plainEnv = .ok built' ∧ ∀ tr r,
      (buildStoreBlob (plainBuilt 5).acct (plainBuilt 5).st.card "a".toList [7]).run.Run tr r →
        ∃ body buf, r = .ok body ∧ after? 0 body = some buf ∧
          ∀ now, openFetchedBlob built'.acct built'.st.card now buf = .ok [7] := by
  have hbuild : (oneKey 5).build plainEnv = .ok (plainBuilt 5) := rfl
  have hcurrent : (plainBuilt 5).Current sampleCiborium (plainBuilt 5).st.card := ⟨_, .refl, rfl⟩
  have hkeys : (oneKey 5).allKeys plainEnv ⊆ moreKeys.allKeys plainEnv :=
    List.subset_cons_self _ _
  have hdec : ∃ key ∈ (oneKey 5).allKeys plainEnv, decryptPurpose ∈ keyPurposes key.1 :=
    ⟨_, List.mem_cons_self, by decide⟩
  have hok : (moreKeys.build plainEnv).isOk = true := rfl
  cases hmore : moreKeys.build plainEnv with
  | error e =>
    rw [hmore] at hok
    cases hok
  | ok built' =>
    have hcurrent' : built'.Current sampleCiborium built'.st.card := ⟨_, .refl, rfl⟩
    exact ⟨built', rfl, (open_stored plain_lawful plain_opensSigned hbuild hmore hkeys hcurrent
      hcurrent').1 hdec "a".toList [7] (by decide)⟩

end Spot
