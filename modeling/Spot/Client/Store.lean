import Mathlib.Data.List.AList
import Spot.Client.Identity
import Spot.Client.Laws
import Spot.General.Runs

/-!
# Keys on disk

The keys of a client are kept in a directory, one file for each, and a store is opened by reading
all files whose names begin with `id_` and end with `.key`, in the order in which the system lists
them.  A key is added under the first free name for its type: `freeName_eq_some` says which,
`loadKey_written` that the loader takes the file and reads the same key from it, and
`reloads_addKey` is the step of a sequence of additions.  `storeSession_iff` says when such a
sequence loses nothing: whenever one of the names that the counter can produce is free.
-/

namespace Spot

/-! ## Formats -/

/-- The formats of private keys, PEM and DER. -/
structure PureCrypto where
  /-- An elliptic-curve key of any curve. -/
  Boxed : Type
  pemEncode : Text → Bytes → Text
  pemDecode : Text → Text → Except Text Bytes
  fromPkcs8Der : Bytes → Except Text Boxed
  toPkcs8Der : Boxed → Bytes
  fromBytes : Bytes → Except Text Boxed
  isP256 : Boxed → Bool
  toSec1Der : Boxed → Bytes
  readSequence : Bytes → Except Text Bytes
  /-- What is read, and what follows it. -/
  readInteger : Bytes → Except Text (Bytes × Bytes)
  readOctetString : Bytes → Except Text (Bytes × Bytes)

variable {B : Bottlers}

section Keys

variable (P : PureCrypto)

/-- Reads the scalar out of the SEC1 form of a key. -/
def readScalar (B : Bottlers) (sec1 : Bytes) : Except Text (B.Secret .ecdsa) := do
  let seq ← P.readSequence sec1
  let (_, seq) ← P.readInteger seq
  let (d, _) ← P.readOctetString seq
  if d.length = 32 then B.ecdsaFromBytes d else .error "bad scalar length".toList

def ecdsaFromBoxed (B : Bottlers) (boxed : P.Boxed) : Result (B.Secret .ecdsa) :=
  match readScalar P B (P.toSec1Der boxed) with
  | .ok sk => .ok sk
  | .error e => .error (.other ("failed to extract ecdsa scalar: ".toList ++ e))

def pemLabel : Text := "PRIVATE KEY".toList

/-- Parses a PEM-encoded PKCS#8 private key. -/
def parseKeyPem (B : Bottlers) (pem : Text) : Result B.PrivateKey :=
  match P.pemDecode pem pemLabel with
  | .error e => .error (.other ("failed to decode PEM block: ".toList ++ e))
  | .ok der =>
    match P.fromPkcs8Der der with
    | .ok boxed =>
      if !P.isP256 boxed then .error (.other "only P-256 ECDSA keys are supported".toList)
      else match ecdsaFromBoxed P B boxed with
        | .ok sk => .ok ⟨.ecdsa, sk⟩
        | .error e => .error e
    | .error _ =>
      match B.rsaFromPkcs8Der der with
      | .ok rsa => .ok ⟨.rsa, rsa⟩
      | .error _ => .error (.other "unsupported private key type".toList)

/-- Serializes a private key to PKCS#8 DER. -/
def privateKeyPkcs8 (B : Bottlers) : B.PrivateKey → Result Bytes
  | ⟨.ecdsa, sk⟩ =>
    match P.fromBytes (B.ecdsaToBytes sk) with
    | .ok boxed => .ok (P.toPkcs8Der boxed)
    | .error e => .error (.other ("bad ecdsa key: ".toList ++ e))
  | ⟨.rsa, sk⟩ => .ok (B.rsaToPkcs8Der sk)
  | _ => .error (.other "unsupported key type for disk storage".toList)

/-- What is relied on: the encodings of keys parse back to the same keys, and those of RSA keys not
as keys of a curve. -/
structure PureCrypto.Lawful (B : Bottlers) : Prop where
  pemDecode_pemEncode (label : Text) (der : Bytes) :
    P.pemDecode (P.pemEncode label der) label = .ok der
  ecdsa (sk : B.Secret .ecdsa) : ∃ boxed, P.fromBytes (B.ecdsaToBytes sk) = .ok boxed ∧
    ∃ boxed', P.fromPkcs8Der (P.toPkcs8Der boxed) = .ok boxed' ∧ P.isP256 boxed' = true ∧
      readScalar P B (P.toSec1Der boxed') = .ok sk
  rsa (sk : B.Secret .rsa) : (∃ e, P.fromPkcs8Der (B.rsaToPkcs8Der sk) = .error e) ∧
    B.rsaFromPkcs8Der (B.rsaToPkcs8Der sk) = .ok sk

end Keys

/-! ## The store -/

/-- The files of the store's directory, by name. -/
abbrev Dir := AList fun _ : Bytes => Bytes

abbrev DirEntry := (_ : Bytes) × Bytes

/-- A key type, which becomes a part of a file name. -/
structure KeyType where
  text : Text
  flat : '/' ∉ text

/-- The keys of a store, and its directory. -/
structure DiskStore (B : Bottlers) where
  dir : Dir
  keys : List B.PrivateKey

/-- `read_to_string`: nothing is read from a file that is not UTF-8. -/
def readToString (data : Bytes) : Option Text :=
  if utf8 (lossy data) = data then some (lossy data) else none

section Store

variable (P : PureCrypto)

/-- The key of a file, if its name is that of a key file and a key is read from it. -/
def loadKey (B : Bottlers) (file : DirEntry) : Option B.PrivateKey :=
  let name := lossy file.1
  if ¬ "id_".toList <+: name ∨ ¬ ".key".toList <:+ name then none
  else (readToString file.2).bind fun data => (parseKeyPem P B data).toOption

/-- The keys of the files, in the order in which the directory is read. -/
def loadKeys (B : Bottlers) (entries : List DirEntry) : List B.PrivateKey :=
  entries.filterMap (loadKey P B)

/-- The `n`-th name that is tried for a key. -/
def keyFileName (keyType : KeyType) (n : ℕ) : Text :=
  if n = 0 then "id_".toList ++ keyType.text ++ ".key".toList
  else "id_".toList ++ keyType.text ++ '_' :: (Nat.repr n).toList ++ ".key".toList

/-- The first of the next `k` names from the `n`-th on that no file has. -/
def searchName (dir : Dir) (keyType : KeyType) : ℕ → ℕ → Option Text
  | 0, _ => none
  | k + 1, n =>
    if utf8 (keyFileName keyType n) ∈ dir then searchName dir keyType k (n + 1)
    else some (keyFileName keyType n)

/-- The name a key is written under; the counter is an `i32`, and none is found if it overflows. -/
def freeName (dir : Dir) (keyType : KeyType) : Option Text := searchName dir keyType (2 ^ 31) 0

/-- A call that adds a key. -/
structure AddKey (B : Bottlers) where
  key : B.PrivateKey
  keyType : KeyType

/-- Adds a key to the store, and writes it to the directory. -/
def addKey (c : AddKey B) (s : DiskStore B) : Except (Fault Error) (DiskStore B) :=
  match privateKeyPkcs8 P B c.key with
  | .error e => .error (.err e)
  | .ok der =>
    match freeName s.dir c.keyType with
    | none => .error .panic
    | some name => .ok
      { dir := s.dir.insert (utf8 name) (utf8 (P.pemEncode pemLabel der))
        keys := s.keys ++ [c.key] }

def ecdsaType : KeyType := ⟨"ecdsa".toList, by decide⟩

/-- The key that is generated on first use. -/
def generatedKey (seed : B.Seed) : AddKey B := ⟨⟨.ecdsa, B.generate seed⟩, ecdsaType⟩

/-- Opens the store, whose directory is read in the order of `entries`. -/
def withPath (seed : B.Seed) (dir : Dir) (entries : List DirEntry) :
    Except (Fault Error) (DiskStore B) :=
  let store := { dir, keys := loadKeys P B entries }
  if store.keys.isEmpty then addKey P (generatedKey seed) store else .ok store

end Store

/-! ## Names -/

theorem keyFileName_prefix (keyType : KeyType) (n : ℕ) :
    "id_".toList <+: keyFileName keyType n ∧ ".key".toList <:+ keyFileName keyType n := by
  unfold keyFileName
  split
  · exact ⟨⟨_, (List.append_assoc _ _ _).symm⟩, List.suffix_append _ _⟩
  · refine ⟨⟨keyType.text ++ '_' :: (Nat.repr n).toList ++ ".key".toList, ?_⟩,
      List.suffix_append _ _⟩
    simp only [List.append_assoc]

/-- The names that are tried differ from each other. -/
theorem keyFileName_injective {keyType : KeyType} {m n : ℕ}
    (h : keyFileName keyType m = keyFileName keyType n) : m = n := by
  unfold keyFileName at h
  have hsuffix : ∀ k, "id_".toList ++ keyType.text ++ ".key".toList ≠
      "id_".toList ++ keyType.text ++ '_' :: (Nat.repr k).toList ++ ".key".toList := by
    intro k hk
    have hlen := congrArg List.length hk
    simp only [List.length_append, List.length_cons] at hlen
    omega
  split_ifs at h with hm hn hn
  · rw [hm, hn]
  · exact absurd h (hsuffix n)
  · exact absurd h.symm (hsuffix m)
  · have hdigits := List.append_cancel_left (List.append_cancel_right h)
    have hread (k : ℕ) : Nat.ofDigitChars 10 (Nat.repr k).toList 0 = k := by
      rw [Nat.toList_repr, Nat.ofDigitChars_toDigits (by decide) (by decide)]
    rw [← hread m, (List.cons.inj hdigits).2, hread n]

/-- One of the names that the counter can produce is free. -/
def Free (dir : Dir) (keyType : KeyType) : Prop :=
  ∃ n < 2 ^ 31, utf8 (keyFileName keyType n) ∉ dir

theorem searchName_spec (dir : Dir) (keyType : KeyType) (k n : ℕ) :
    match searchName dir keyType k n with
    | some name => utf8 name ∉ dir ∧ ∃ i, n ≤ i ∧ i < n + k ∧ name = keyFileName keyType i
    | none => ∀ i, n ≤ i → i < n + k → utf8 (keyFileName keyType i) ∈ dir := by
  induction k generalizing n with
  | zero =>
    intro i hi hlt
    omega
  | succ k ih =>
    rw [searchName]
    have hrest := ih (n + 1)
    by_cases hn : utf8 (keyFileName keyType n) ∈ dir
    · rw [if_pos hn]
      cases hs : searchName dir keyType k (n + 1) with
      | some name =>
        rw [hs] at hrest
        obtain ⟨hfree, i, hi, hlt, hname⟩ := hrest
        exact ⟨hfree, i, by omega, by omega, hname⟩
      | none =>
        rw [hs] at hrest
        intro i hi hlt
        rcases Nat.eq_or_lt_of_le hi with rfl | hi
        · exact hn
        · exact hrest i hi (by omega)
    · rw [if_neg hn]
      exact ⟨hn, n, le_rfl, by omega, rfl⟩

/-- A name that is found is no file's, and one of those of the type. -/
theorem freeName_eq_some {dir : Dir} {keyType : KeyType} {name : Text}
    (h : freeName dir keyType = some name) :
    utf8 name ∉ dir ∧ ∃ n < 2 ^ 31, name = keyFileName keyType n := by
  have hspec := searchName_spec dir keyType (2 ^ 31) 0
  rw [← freeName, h] at hspec
  obtain ⟨hfree, n, -, hn, hname⟩ := hspec
  exact ⟨hfree, n, by omega, hname⟩

/-- A name is found when one is free. -/
theorem exists_freeName_iff {dir : Dir} {keyType : KeyType} :
    (∃ name, freeName dir keyType = some name) ↔ Free dir keyType := by
  constructor
  · rintro ⟨name, h⟩
    obtain ⟨hfree, n, hn, rfl⟩ := freeName_eq_some h
    exact ⟨n, hn, hfree⟩
  · rintro ⟨n, hn, hfree⟩
    cases h : freeName dir keyType with
    | some name => exact ⟨name, rfl⟩
    | none =>
      have hspec := searchName_spec dir keyType (2 ^ 31) 0
      rw [← freeName, h] at hspec
      exact absurd (hspec n (Nat.zero_le n) (by omega)) hfree

/-- In a directory of fewer than `2 ^ 31` files a name is free. -/
theorem free_of_length_lt {dir : Dir} (h : dir.keys.length < 2 ^ 31) (keyType : KeyType) :
    Free dir keyType := by
  by_contra hnone
  have hall : ∀ n < 2 ^ 31, utf8 (keyFileName keyType n) ∈ dir := by
    intro n hn
    by_contra hfree
    exact hnone ⟨n, hn, hfree⟩
  have hnodup : ((List.range (2 ^ 31)).map fun n => utf8 (keyFileName keyType n)).Nodup := by
    refine List.nodup_range.map fun m n hmn => ?_
    have hname : keyFileName keyType m = keyFileName keyType n := by
      rw [← lossy_utf8 (keyFileName keyType m), hmn, lossy_utf8]
    exact keyFileName_injective hname
  have hsub : ((List.range (2 ^ 31)).map fun n => utf8 (keyFileName keyType n)) ⊆ dir.keys := by
    intro name hname
    obtain ⟨n, hn, rfl⟩ := List.mem_map.1 hname
    exact AList.mem_keys.1 (hall n (List.mem_range.1 hn))
  have hle := (List.subperm_of_subset hnodup hsub).length_le
  rw [List.length_map, List.length_range] at hle
  omega

/-! ## Additions -/

section Additions

variable {P : PureCrypto} {s s' : DiskStore B} {c : AddKey B}

/-- The key is of a kind that can be stored. -/
def AddKey.Storable (c : AddKey B) : Prop := c.key.1 = .ecdsa ∨ c.key.1 = .rsa

/-- What a key is written as is read as the same key. -/
theorem parseKeyPem_privateKeyPkcs8 (hP : P.Lawful B) {key : B.PrivateKey} {der : Bytes}
    (h : privateKeyPkcs8 P B key = .ok der) :
    parseKeyPem P B (P.pemEncode pemLabel der) = .ok key := by
  unfold parseKeyPem
  rw [hP.pemDecode_pemEncode]
  obtain ⟨kind, sk⟩ := key
  cases kind with
  | ecdsa =>
    obtain ⟨boxed, hboxed, boxed', hparse, hcurve, hscalar⟩ := hP.ecdsa sk
    simp only [privateKeyPkcs8, hboxed, Except.ok.injEq] at h
    subst h
    simp only [hparse, hcurve, ecdsaFromBoxed, hscalar]
    rfl
  | rsa =>
    obtain ⟨⟨e, hcurve⟩, hparse⟩ := hP.rsa sk
    simp only [privateKeyPkcs8, Except.ok.injEq] at h
    subst h
    simp only [hcurve, hparse]
  | _ => cases h

theorem exists_privateKeyPkcs8 (hP : P.Lawful B) (hc : c.Storable) :
    ∃ der, privateKeyPkcs8 P B c.key = .ok der := by
  obtain ⟨⟨kind, sk⟩, keyType⟩ := c
  rcases hc with rfl | rfl
  · obtain ⟨boxed, hboxed, -⟩ := hP.ecdsa sk
    exact ⟨P.toPkcs8Der boxed, by simp only [privateKeyPkcs8, hboxed]⟩
  · exact ⟨_, rfl⟩

/-- The loader takes the file of a key, and reads the key. -/
theorem loadKey_written (hP : P.Lawful B) {key : B.PrivateKey} {der : Bytes}
    (h : privateKeyPkcs8 P B key = .ok der) (keyType : KeyType) (n : ℕ) :
    loadKey P B ⟨utf8 (keyFileName keyType n), utf8 (P.pemEncode pemLabel der)⟩ = some key := by
  obtain ⟨hpre, hsuf⟩ := keyFileName_prefix keyType n
  have hread (t : Text) : readToString (utf8 t) = some t := by
    rw [readToString, lossy_utf8, if_pos rfl]
  rw [loadKey]
  simp only [lossy_utf8]
  rw [if_neg, hread, Option.bind_some, parseKeyPem_privateKeyPkcs8 hP h]
  · rfl
  · rintro (hno | hno)
    · exact hno hpre
    · exact hno hsuf

/-- An addition writes one file, under a free name of the type. -/
theorem addKey_eq_ok (h : addKey P c s = .ok s') : ∃ der, privateKeyPkcs8 P B c.key = .ok der ∧
    ∃ n < 2 ^ 31, utf8 (keyFileName c.keyType n) ∉ s.dir ∧
      s' = { dir := s.dir.insert (utf8 (keyFileName c.keyType n)) (utf8 (P.pemEncode pemLabel der))
             keys := s.keys ++ [c.key] } := by
  unfold addKey at h
  split at h
  · cases h
  · next der hder =>
    split at h
    · cases h
    · next name hname =>
      obtain ⟨hfree, n, hn, rfl⟩ := freeName_eq_some hname
      exact ⟨der, hder, n, hn, hfree, (Except.ok.inj h).symm⟩

/-- A key that can be stored is added when a name is free. -/
theorem exists_addKey_iff (hP : P.Lawful B) (hc : c.Storable) :
    (∃ s', addKey P c s = .ok s') ↔ Free s.dir c.keyType := by
  constructor
  · rintro ⟨s', h⟩
    obtain ⟨-, -, n, hn, hfree, -⟩ := addKey_eq_ok h
    exact ⟨n, hn, hfree⟩
  · intro hfree
    obtain ⟨der, hder⟩ := exists_privateKeyPkcs8 hP hc
    obtain ⟨name, hname⟩ := exists_freeName_iff.2 hfree
    unfold addKey
    rw [hder]
    simp only [hname]
    exact ⟨_, rfl⟩

/-- A file of a new name was written, and all others are as they were. -/
def Writes (s s' : DiskStore B) : Prop :=
  ∃ name, name ∉ s.dir ∧ name ∈ s'.dir ∧ ∀ n, n ≠ name → s'.dir.lookup n = s.dir.lookup n

theorem writes_addKey (h : addKey P c s = .ok s') : Writes s s' := by
  obtain ⟨der, -, n, -, hfree, rfl⟩ := addKey_eq_ok h
  exact ⟨_, hfree, (AList.mem_insert _).2 (.inl rfl), fun m hm => AList.lookup_insert_ne hm⟩

/-- However the directory is read, the keys loaded are those of a list, each as often. -/
def Reloads (P : PureCrypto) (s : DiskStore B) (keys : List B.PrivateKey) : Prop :=
  ∀ entries, entries.Perm s.dir.entries → (loadKeys P B entries).Perm keys

theorem loadKeys_perm {entries entries' : List DirEntry} (h : entries.Perm entries') :
    (loadKeys P B entries).Perm (loadKeys P B entries') := h.filterMap _

/-- An addition adds the key to those that are loaded. -/
theorem reloads_addKey (hP : P.Lawful B) (h : addKey P c s = .ok s') {keys : List B.PrivateKey}
    (hs : Reloads P s keys) : Reloads P s' (keys ++ [c.key]) := by
  obtain ⟨der, hder, n, -, hfree, rfl⟩ := addKey_eq_ok h
  intro entries hentries
  have hload := hs s.dir.entries (.refl _)
  rw [AList.entries_insert_of_notMem hfree] at hentries
  refine (loadKeys_perm hentries).trans ?_
  rw [loadKeys, List.filterMap_cons_some (loadKey_written hP hder c.keyType n)]
  exact (hload.cons c.key).trans (List.perm_append_singleton c.key keys).symm

/-! ## Sequences of additions -/

/-- Every call returns, with a file of a new name written, and the last state meets `Q`. -/
def AllWritten (P : PureCrypto) (Q : DiskStore B → Prop) : DiskStore B → List (AddKey B) → Prop
  | s, [] => Q s
  | s, c :: cs => ∃ s', addKey P c s = .ok s' ∧ Writes s s' ∧ AllWritten P Q s' cs

/-- The calls that return, as steps. -/
def addStep (P : PureCrypto) (s : DiskStore B) (c : AddKey B) : Option (DiskStore B) :=
  (addKey P c s).toOption

theorem addStep_eq_some : addStep P s c = some s' ↔ addKey P c s = .ok s' := by
  unfold addStep
  cases addKey P c s <;> simp [Except.toOption]

/-- Calls add their keys, each once, when and only when a name is free for each. -/
theorem allWritten_iff (hP : P.Lawful B) {calls : List (AddKey B)}
    (hcalls : ∀ c ∈ calls, c.Storable) {keys : List B.PrivateKey} (hs : Reloads P s keys) :
    AllWritten P (Reloads P · (keys ++ calls.map AddKey.key)) s calls ↔
      Guarded (addStep P) (fun s c => Free s.dir c.keyType) s calls := by
  induction calls generalizing s keys with
  | nil =>
    rw [List.map_nil, List.append_nil]
    exact iff_of_true hs trivial
  | cons c calls ih =>
    rw [List.forall_mem_cons] at hcalls
    have hkeys : keys ++ (c :: calls).map AddKey.key =
        keys ++ [c.key] ++ calls.map AddKey.key := by
      rw [List.map_cons, List.append_assoc, List.singleton_append]
    rw [hkeys]
    constructor
    · rintro ⟨s', h, -, hrest⟩
      refine ⟨(exists_addKey_iff hP hcalls.1).1 ⟨s', h⟩, fun s'' h' => ?_⟩
      obtain rfl := Except.ok.inj (h.symm.trans (addStep_eq_some.1 h'))
      exact (ih hcalls.2 (reloads_addKey hP h hs)).1 hrest
    · rintro ⟨hfree, hrest⟩
      obtain ⟨s', h⟩ := (exists_addKey_iff hP hcalls.1).2 hfree
      exact ⟨s', h, writes_addKey h,
        (ih hcalls.2 (reloads_addKey hP h hs)).2 (hrest s' (addStep_eq_some.2 h))⟩

/-- The key that opening the store generates, if none is loaded. -/
def newKeys (P : PureCrypto) (seed : B.Seed) (entries : List DirEntry) : List B.PrivateKey :=
  if (loadKeys P B entries).isEmpty then [(generatedKey seed).key] else []

/-- The store is opened, keys are added to it, and it is read again: every call returns, with a file
of a new name written, and the keys loaded in the end are those loaded first, the generated one and
those added, each as often. -/
def StoreSession (P : PureCrypto) (seed : B.Seed) (dir : Dir) (entries : List DirEntry)
    (calls : List (AddKey B)) : Prop :=
  ∃ s, withPath P seed dir entries = .ok s ∧
    (∀ name ∈ dir, s.dir.lookup name = dir.lookup name) ∧
    AllWritten P
      (Reloads P · (loadKeys P B entries ++ newKeys P seed entries ++ calls.map AddKey.key)) s calls

/-- A name is free for the generated key, if there is one, and for each key that is added. -/
def HasRoom (P : PureCrypto) (seed : B.Seed) (dir : Dir) (entries : List DirEntry)
    (calls : List (AddKey B)) : Prop :=
  (loadKeys P B entries = [] → Free dir ecdsaType) ∧
    ∀ s, withPath P seed dir entries = .ok s →
      Guarded (addStep P) (fun s c => Free s.dir c.keyType) s calls

/-- What opening the store does. -/
theorem withPath_spec (hP : P.Lawful B) {seed : B.Seed} {dir : Dir} {entries : List DirEntry}
    (hentries : entries.Perm dir.entries) {s : DiskStore B}
    (h : withPath P seed dir entries = .ok s) :
    (∀ name ∈ dir, s.dir.lookup name = dir.lookup name) ∧
      Reloads P s (loadKeys P B entries ++ newKeys P seed entries) ∧
      s.keys = loadKeys P B entries ++ newKeys P seed entries := by
  have hstart : Reloads P { dir, keys := loadKeys P B entries } (loadKeys P B entries) :=
    fun entries' h' => loadKeys_perm (h'.trans hentries.symm)
  unfold withPath at h
  simp only at h
  unfold newKeys
  by_cases hempty : (loadKeys P B entries).isEmpty = true
  · rw [if_pos hempty] at h ⊢
    refine ⟨fun name hname => ?_, reloads_addKey hP h hstart, ?_⟩
    · obtain ⟨new, hnew, -, hsame⟩ := writes_addKey h
      exact hsame name fun heq => hnew (heq ▸ hname)
    · obtain ⟨-, -, -, -, -, rfl⟩ := addKey_eq_ok h
      rfl
  · rw [if_neg hempty] at h ⊢
    obtain rfl := Except.ok.inj h
    rw [List.append_nil]
    exact ⟨fun _ _ => rfl, hstart, rfl⟩

theorem exists_withPath_iff (hP : P.Lawful B) {seed : B.Seed} {dir : Dir}
    {entries : List DirEntry} : (∃ s, withPath P seed dir entries = .ok s) ↔
      (loadKeys P B entries = [] → Free dir ecdsaType) := by
  unfold withPath
  simp only [List.isEmpty_iff]
  by_cases hempty : loadKeys P B entries = []
  · rw [if_pos hempty, exists_addKey_iff hP (.inl rfl)]
    exact ⟨fun h _ => h, fun h => h hempty⟩
  · rw [if_neg hempty]
    exact iff_of_true ⟨_, rfl⟩ fun h => absurd h hempty

/-- Nothing is lost exactly if one of the names that the counter can produce is free whenever a key
is written. -/
theorem storeSession_iff (hP : P.Lawful B) (seed : B.Seed) (dir : Dir) {entries : List DirEntry}
    (hentries : entries.Perm dir.entries) {calls : List (AddKey B)}
    (hcalls : ∀ c ∈ calls, c.Storable) :
    StoreSession P seed dir entries calls ↔ HasRoom P seed dir entries calls := by
  unfold HasRoom
  rw [← exists_withPath_iff hP]
  constructor
  · rintro ⟨s, h, -, hall⟩
    refine ⟨⟨s, h⟩, fun s' h' => ?_⟩
    obtain rfl := Except.ok.inj (h.symm.trans h')
    exact (allWritten_iff hP hcalls (withPath_spec hP hentries h).2.1).1 hall
  · rintro ⟨⟨s, h⟩, hguard⟩
    obtain ⟨hkept, hreloads, -⟩ := withPath_spec hP hentries h
    exact ⟨s, h, hkept, (allWritten_iff hP hcalls hreloads).2 (hguard s h)⟩

end Additions

/-! ## An example -/

/-- Formats in the open. -/
def plainCrypto : PureCrypto where
  Boxed := Bytes
  pemEncode _ der := der.map fun b => Char.ofNat b.toNat
  pemDecode pem _ := .ok (pem.map fun c => UInt8.ofNat c.toNat)
  fromPkcs8Der
    | _ :: a :: rest => .ok (a :: rest)
    | _ => .error "not a key of a curve".toList
  toPkcs8Der boxed := 0 :: boxed
  fromBytes b := .ok b
  isP256 _ := true
  toSec1Der boxed := boxed ++ List.replicate 31 0
  readSequence b := .ok b
  readInteger b := .ok ([], b)
  readOctetString b := .ok (b, [])

theorem byte_char : ∀ n < 256, UInt8.ofNat (Char.ofNat n).toNat = UInt8.ofNat n := by
  decide +kernel

theorem plainCrypto_lawful : plainCrypto.Lawful plain where
  pemDecode_pemEncode label der := by
    show Except.ok ((der.map fun b => Char.ofNat b.toNat).map fun c => UInt8.ofNat c.toNat) = _
    rw [List.map_map]
    congr 1
    refine (List.map_congr_left fun b _ => ?_).trans (List.map_id der)
    show UInt8.ofNat (Char.ofNat b.toNat).toNat = b
    rw [byte_char b.toNat b.toNat_lt, UInt8.ofNat_toNat]
  ecdsa sk := ⟨[sk], rfl, [sk], rfl, rfl, rfl⟩
  rsa sk := ⟨⟨_, rfl⟩, rfl⟩

/-- A key is added to a new store, under the type of the one that was generated. -/
theorem storeSession_plain : StoreSession plainCrypto () ∅ [] [⟨Plain.mk .rsa 7, ecdsaType⟩] := by
  have hstorable : ∀ c ∈ [(⟨Plain.mk .rsa 7, ecdsaType⟩ : AddKey plain)], c.Storable := by
    intro c hc
    obtain rfl := List.mem_singleton.1 hc
    exact .inr rfl
  refine (storeSession_iff plainCrypto_lawful () ∅ (.refl _) hstorable).2
    ⟨fun _ => ?_, fun s h => ?_⟩
  · exact ⟨0, by decide, AList.notMem_empty _⟩
  · refine ⟨free_of_length_lt ?_ _, fun _ _ => trivial⟩
    have hadd : addKey plainCrypto (generatedKey (B := plain) ()) ⟨∅, []⟩ = .ok s := h
    obtain ⟨der, -, n, -, hfree, rfl⟩ := addKey_eq_ok hadd
    rw [AList.keys, AList.entries_insert_of_notMem hfree]
    show 1 < 2 ^ 31
    decide

/-- A directory of any names. -/
theorem exists_dir (names : List Bytes) : ∃ dir : Dir, ∀ name ∈ names, name ∈ dir := by
  induction names with
  | nil => exact ⟨∅, by simp⟩
  | cons name names ih =>
    obtain ⟨dir, hdir⟩ := ih
    refine ⟨dir.insert name [], List.forall_mem_cons.2 ⟨?_, fun n hn => ?_⟩⟩
    · exact (AList.mem_insert dir).2 (.inl rfl)
    · exact (AList.mem_insert dir).2 (.inr (hdir n hn))

/-- No key can be added where all names are taken. -/
theorem not_storeSession_full :
    ¬ ∀ (dir : Dir) (entries : List DirEntry) (calls : List (AddKey plain)),
      entries.Perm dir.entries → (∀ c ∈ calls, c.Storable) →
        StoreSession plainCrypto () dir entries calls := by
  intro hall
  obtain ⟨dir, hdir⟩ :=
    exists_dir ((List.range (2 ^ 31)).map fun n => utf8 (keyFileName ecdsaType n))
  let c : AddKey plain := ⟨Plain.mk .rsa 7, ecdsaType⟩
  have hc : c.Storable := .inr rfl
  obtain ⟨s, -, hkept, s', hadd, -⟩ := hall dir dir.entries [c] (.refl _) (by simpa using hc)
  obtain ⟨n, hn, hfree⟩ := (exists_addKey_iff plainCrypto_lawful hc).1 ⟨s', hadd⟩
  have hmem := hdir _ (List.mem_map.2 ⟨n, List.mem_range.2 hn, rfl⟩)
  have hlookup := hkept _ hmem
  rw [AList.lookup_eq_none.2 hfree] at hlookup
  exact absurd hmem (AList.lookup_eq_none.1 hlookup.symm)

end Spot
