import Spot.Client.IdState
import Spot.General.Keyed

/-!
# What an update of the groups does

`updateGroups` edits the memberships of a card as a table with the group's key: each record about
the card's owner puts a row or removes one (`editOf`).  `updateGroups_semantics` says what a
successful update leaves: for each group the last such record counts.
-/

namespace Spot

/-- The status of a member. -/
abbrev validStatus : Text := "valid".toList

/-- The memberships on a card. -/
def IDCard.memberships {ρ : Type} (id : IDCard ρ) : List Membership := id.groups.getD []

/-- Each group has one membership, and it is valid. -/
structure IDCard.GroupsValid {ρ : Type} (id : IDCard ρ) : Prop where
  keys : (id.memberships.map Membership.key).Nodup
  status : ∀ g ∈ id.memberships, g.status = validStatus

/-- The record, if it is about the owner of the key. -/
def ownRecord (C : Ciborium) (selfKey : Bytes) (buf : Bytes) : Option Membership :=
  match parseMembership C buf with
  | .error _ => none
  | .ok m => if m.subject = some selfKey then some m else none

/-- The last record of a group about the owner of the key. -/
def lastRecord (C : Ciborium) (selfKey : Bytes) (data : List Bytes) (key : Bytes) :
    Option Membership :=
  ((data.filterMap (ownRecord C selfKey)).filter fun m => m.key = key).getLast?

/-- What a record does to the memberships. -/
def editOf (m : Membership) : Edit Membership Bytes :=
  if m.status ≠ validStatus then .remove m.key else .put { m with subject := none }

section

variable {B : Bottlers} {C : Ciborium} {id : B.Card} {data : List Bytes}

@[simp] theorem at_editOf (m : Membership) : (editOf m).at' Membership.key = m.key := by
  unfold editOf
  split_ifs <;> rfl

theorem row_editOf {m g : Membership} :
    (editOf m).row = some g ↔ m.status = validStatus ∧ g = { m with subject := none } := by
  unfold editOf
  split_ifs with h
  · exact iff_of_false (by simp [Edit.row]) fun hm => h hm.1
  · rw [Edit.row, Option.some.injEq, eq_comm, and_iff_right (not_not.1 h)]

theorem replaceOrPush_eq (m : Membership) (l : List Membership) :
    replaceOrPush m l = putRow Membership.key m l := by
  induction l with
  | nil => rfl
  | cons sub l ih => rw [replaceOrPush, putRow, ih]

/-- A record edits the memberships. -/
theorem memberships_applyMembership {ρ : Type} (id : IDCard ρ) (m : Membership) :
    (applyMembership id m).memberships = (editOf m).apply Membership.key id.memberships := by
  unfold applyMembership editOf
  by_cases h : m.status ≠ validStatus
  · rw [if_pos h, if_pos h]
    rfl
  · rw [if_neg h, if_neg h]
    exact replaceOrPush_eq _ _

theorem memberships_foldl {ρ : Type} (id : IDCard ρ) (ms : List Membership) :
    (ms.foldl applyMembership id).memberships =
      (ms.map editOf).foldl (Edit.apply Membership.key) id.memberships := by
  induction ms generalizing id with
  | nil => rfl
  | cons m ms ih => rw [List.foldl_cons, ih, memberships_applyMembership, List.map_cons,
      List.foldl_cons]

theorem selfKey_foldl {ρ : Type} (id : IDCard ρ) (ms : List Membership) :
    (ms.foldl applyMembership id).selfKey = id.selfKey := by
  induction ms generalizing id with
  | nil => rfl
  | cons m ms ih => rw [List.foldl_cons, ih, selfKey_applyMembership]

/-- What a record is to the owner, when it does not fail. -/
theorem readRecord_eq_ok {selfKey buf : Bytes} {m : Option Membership}
    (h : readRecord B C selfKey buf = .ok m) : ownRecord C selfKey buf = m := by
  unfold readRecord at h
  unfold ownRecord
  cases hm : parseMembership C buf with
  | error e => simp [hm] at h
  | ok r =>
    simp only [hm] at h ⊢
    by_cases hs : r.subject = some selfKey
    · rw [if_neg (not_not.2 hs)] at h
      rw [if_pos hs]
      cases hv : B.verifyMembership r with
      | error e => simp [hv] at h
      | ok u =>
        rw [hv] at h
        exact Except.ok.inj h
    · rw [if_pos hs] at h
      rw [if_neg hs]
      exact Except.ok.inj h

/-- When no record fails, all those about the owner are applied. -/
theorem appliedRecords_eq {selfKey : Bytes} (h : firstFailure B C selfKey data = none) :
    appliedRecords B C selfKey data = data.filterMap (ownRecord C selfKey) := by
  induction data with
  | nil => rfl
  | cons buf data ih =>
    rw [firstFailure] at h
    rw [appliedRecords, List.filterMap_cons]
    cases hr : readRecord B C selfKey buf with
    | error e => simp [hr] at h
    | ok m =>
      simp only [hr] at h ⊢
      rw [readRecord_eq_ok hr, ih h]
      cases m <;> rfl

/-- What a successful update does. -/
theorem updateGroups_eq_ok {id' : B.Card} :
    updateGroups B C id data = (id', .ok ()) ↔ firstFailure B C id.selfKey data = none ∧
      (data.filterMap (ownRecord C id.selfKey)).foldl applyMembership id = id' := by
  rw [updateGroups_eq]
  cases hf : firstFailure B C id.selfKey data with
  | none => rw [appliedRecords_eq hf]; simp
  | some e => simp

/-- A record about somebody else has no effect, signed or not. -/
theorem updateGroups_foreign {buf : Bytes} {m : Membership} (hm : parseMembership C buf = .ok m)
    (hs : m.subject ≠ some id.selfKey) (l₁ l₂ : List Bytes) :
    updateGroups B C id (l₁ ++ buf :: l₂) = updateGroups B C id (l₁ ++ l₂) := by
  induction l₁ generalizing id with
  | nil =>
    rw [List.nil_append, List.nil_append, updateGroups, hm]
    exact if_pos hs
  | cons b l₁ ih =>
    rw [List.cons_append, List.cons_append, updateGroups_cons, updateGroups_cons]
    cases readRecord B C id.selfKey b with
    | error e => rfl
    | ok r =>
      refine ih ?_
      rwa [selfKey_foldl]

theorem lastEdit_map_editOf (C : Ciborium) (selfKey : Bytes) (data : List Bytes) (key : Bytes) :
    lastEdit Membership.key ((data.filterMap (ownRecord C selfKey)).map editOf) key =
      (lastRecord C selfKey data key).map editOf := by
  rw [lastEdit, lastRecord, List.filter_map, List.getLast?_map]
  congr 2
  refine List.filter_congr fun m _ => ?_
  simp

theorem key_of_lastRecord {selfKey key : Bytes} {m : Membership}
    (h : lastRecord C selfKey data key = some m) : m.key = key := by
  have hm := (List.mem_filter.1 (List.mem_of_getLast? h)).2
  simpa using hm

/-- What the memberships of a card are after a successful update. -/
theorem mem_memberships_updateGroups {id' : B.Card} (hid : id.GroupsValid)
    (h : updateGroups B C id data = (id', .ok ())) (g : Membership) :
    g ∈ id'.memberships ↔
      (∃ m, lastRecord C id.selfKey data g.key = some m ∧ m.status = validStatus ∧
        g = { m with subject := none }) ∨
      lastRecord C id.selfKey data g.key = none ∧ g ∈ id.memberships := by
  obtain ⟨-, rfl⟩ := updateGroups_eq_ok.1 h
  rw [memberships_foldl, mem_edited_iff hid.keys, lastEdit_map_editOf]
  cases lastRecord C id.selfKey data g.key with
  | none => simp
  | some m => simp [row_editOf]

theorem groupsValid_updateGroups {id' : B.Card} (hid : id.GroupsValid)
    (h : updateGroups B C id data = (id', .ok ())) : id'.GroupsValid := by
  refine ⟨?_, fun g hg => ?_⟩
  · obtain ⟨-, rfl⟩ := updateGroups_eq_ok.1 h
    rw [memberships_foldl]
    exact nodup_edited hid.keys
  · obtain ⟨m, -, hm, rfl⟩ | ⟨-, hg⟩ := (mem_memberships_updateGroups hid h g).1 hg
    · exact hm
    · exact hid.status g hg

/-- The same records applied again succeed and leave the same memberships. -/
theorem updateGroups_twice {id' : B.Card} (hid : id.GroupsValid)
    (h : updateGroups B C id data = (id', .ok ())) :
    ∃ id'', updateGroups B C id' data = (id'', .ok ()) ∧
      ∀ g, g ∈ id''.memberships ↔ g ∈ id'.memberships := by
  obtain ⟨hf, rfl⟩ := updateGroups_eq_ok.1 h
  refine ⟨_, updateGroups_eq_ok.2 ⟨by rwa [selfKey_foldl], rfl⟩, fun g => ?_⟩
  rw [selfKey_foldl, memberships_foldl, memberships_foldl]
  exact mem_edited_twice hid.keys

/-- The semantics of a successful update of the groups. -/
theorem updateGroups_semantics {id' : B.Card} (hid : id.GroupsValid)
    (h : updateGroups B C id data = (id', .ok ())) :
    id'.GroupsValid ∧
      (∀ key m, lastRecord C id.selfKey data key = some m → ∀ g,
        g ∈ id'.memberships ∧ g.key = key ↔
          m.status = validStatus ∧ g = { m with subject := none }) ∧
      (∀ key, lastRecord C id.selfKey data key = none → ∀ g : Membership, g.key = key →
        (g ∈ id'.memberships ↔ g ∈ id.memberships)) ∧
      (∀ l₁ buf l₂ m, parseMembership C buf = .ok m → m.subject ≠ some id.selfKey →
        updateGroups B C id (l₁ ++ buf :: l₂) = updateGroups B C id (l₁ ++ l₂)) ∧
      ∃ id'', updateGroups B C id' data = (id'', .ok ()) ∧
        ∀ g, g ∈ id''.memberships ↔ g ∈ id'.memberships := by
  have hmem := mem_memberships_updateGroups hid h
  refine ⟨groupsValid_updateGroups hid h, fun key m hlast g => ?_, fun key hlast g hkey => ?_,
    fun l₁ buf l₂ m hm hs => updateGroups_foreign hm hs l₁ l₂, updateGroups_twice hid h⟩
  · constructor
    · rintro ⟨hg, rfl⟩
      obtain ⟨m', hm', hstatus, heq⟩ | ⟨hnone, -⟩ := (hmem g).1 hg
      · obtain rfl := Option.some.inj (hm'.symm.trans hlast)
        exact ⟨hstatus, heq⟩
      · rw [hnone] at hlast
        cases hlast
    · rintro ⟨hstatus, rfl⟩
      have hkey := key_of_lastRecord hlast
      exact ⟨(hmem _).2 (.inl ⟨m, by rw [← hkey] at hlast; exact hlast, hstatus, rfl⟩), hkey⟩
  · rw [hmem, hkey, hlast]
    simp

end

/-! ### A replacement, a removal and a record about somebody else -/

/-- A valid membership in the group `[k]`. -/
def membershipIn (k : UInt8) (issued : ℤ) : Membership :=
  { subject := none, key := [k], status := validStatus, issued, info := none, signKey := none
    signature := none }

/-- The owner of the key `[0, 5]`, in three groups. -/
def memberCard : plain.Card :=
  { Plain.cardOf [0, 5] 0 with
    groups := some [membershipIn 9 1, membershipIn 8 1, membershipIn 7 1] }

/-- The CBOR bytes of a record of the time `issued`, with a status of less than 24 letters. -/
def recordBytes (owner k : UInt8) (status : Text) (issued : UInt8) : Bytes :=
  [0xa4, 0x01, 0x42, 0x00, owner, 0x02, 0x41, k, 0x03, 0x60 + UInt8.ofNat status.length] ++
    utf8 status ++ [0x04, issued]

def recordValue (owner k : UInt8) (status : Str) (issued : UInt8) : Value :=
  .map [(.integer 1, .bytes [0, owner]), (.integer 2, .bytes [k]), (.integer 3, .text status),
    (.integer 4, .integer issued.toNat)]

def isValid : Str := ⟨validStatus, by decide⟩

def isRevoked : Str := ⟨"revoked".toList, by decide⟩

/-- Records of the owner: a newer membership, and the end of another one; and one of somebody
else. -/
def threeRecords : List Bytes :=
  [recordBytes 5 9 isValid.chars 2, recordBytes 5 8 isRevoked.chars 2,
    recordBytes 6 7 isRevoked.chars 2]

/-- CBOR as it is read from these records. -/
def recordCiborium : Ciborium where
  intoWriter _ := .error "unused".toList
  fromReader b :=
    if b = recordBytes 5 9 isValid.chars 2 then .ok (recordValue 5 9 isValid 2)
    else if b = recordBytes 5 8 isRevoked.chars 2 then .ok (recordValue 5 8 isRevoked 2)
    else if b = recordBytes 6 7 isRevoked.chars 2 then .ok (recordValue 6 7 isRevoked 2)
    else .error "eof".toList

theorem updateGroups_semantics_threeRecords :
    ∃ id', updateGroups plain recordCiborium memberCard threeRecords = (id', .ok ()) ∧
      id'.GroupsValid ∧
      (∀ g, g ∈ id'.memberships ∧ g.key = [9] ↔ g = membershipIn 9 2) ∧
      (∀ g ∈ id'.memberships, g.key ≠ [8]) ∧ membershipIn 7 1 ∈ id'.memberships := by
  have hvalid : memberCard.GroupsValid := by
    refine ⟨by decide, fun g hg => ?_⟩
    simp only [IDCard.memberships, memberCard, Option.getD_some, List.mem_cons,
      List.not_mem_nil, or_false] at hg
    rcases hg with rfl | rfl | rfl <;> rfl
  have hrun : updateGroups plain recordCiborium memberCard threeRecords = (_, .ok ()) := rfl
  have hjoined : lastRecord recordCiborium memberCard.selfKey threeRecords [9] =
      some { membershipIn 9 2 with subject := some [0, 5] } := by decide +kernel
  have hleft : lastRecord recordCiborium memberCard.selfKey threeRecords [8] =
      some { membershipIn 8 2 with subject := some [0, 5], status := isRevoked.chars } := by
    decide +kernel
  obtain ⟨hvalid', hlast, hkept, -, -⟩ := updateGroups_semantics hvalid hrun
  refine ⟨_, hrun, hvalid', fun g => ?_, fun g hg hkey => ?_, ?_⟩
  · rw [hlast [9] _ hjoined g]
    exact and_iff_right rfl
  · have hrevoked := ((hlast [8] _ hleft g).1 ⟨hg, hkey⟩).1
    exact absurd hrevoked (by decide)
  · exact (hkept [7] rfl _ rfl).2 (by simp [memberCard, IDCard.memberships])

end Spot
