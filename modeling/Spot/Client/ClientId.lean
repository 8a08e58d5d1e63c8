import Spot.Client.Inner

/-!
# Printed addresses

Key addresses are printed in four places (`ClientId.display`, `targetId`, `localAddr` and
`groupMembers`) and parsed in one, `recipientHash`.  All four print `k.`, possibly a server id and
a dot, and the base64url form of the hash, whose alphabet holds neither separator; `Prints` says
which address is printed for which hash, and `recipientHash_printed` that the hash comes back.
-/

namespace Spot

/-- A client identifier, `type.target` or `type.server_id.target`. -/
structure ClientId where
  typ : UInt8
  serverId : Text
  target : Text

namespace ClientId

/-- The identifier of the owner of a card. -/
def fromIdcard (B : Bottlers) (card : B.Card) : ClientId where
  typ := 107
  serverId := []
  target := base64urlEncode (B.sha256 card.selfKey).toList

/-- The canonical form of an identifier. -/
def display (id : ClientId) : Text :=
  if id.serverId = [] then Char.ofNat id.typ.toNat :: '.' :: id.target
  else Char.ofNat id.typ.toNat :: '.' :: (id.serverId ++ '.' :: id.target)

end ClientId

/-- The address of a packet connection. -/
def localAddr (B : Bottlers) (selfKey : Bytes) (name : Text) : Text :=
  targetId B selfKey ++ '/' :: name

/-- The addresses of the hashes in a reply. -/
def groupMembers (buf : Bytes) : List Text :=
  (chunks 32 buf).map fun h => 'k' :: '.' :: base64urlEncode h

/-- The target of the query for the members of a group. -/
def groupList : Str := ⟨"@/group_list".toList, by decide⟩

/-- Retrieves the addresses of the members of a group. -/
def getGroupMembers {B : Bottlers} (t : Platform) (acct : Account B) (groupKey : Bytes) :
    Client B (List Text) := do
  let buf ← query t acct groupList groupKey
  return groupMembers buf

/-- The key hash `h` is printed as the address. -/
inductive Prints (B : Bottlers) : List.Vector UInt8 32 → Text → Prop
  | clientId (h : List.Vector UInt8 32) (serverId : Text) (hs : '/' ∉ serverId) :
    Prints B h (ClientId.display ⟨107, serverId, base64urlEncode h.toList⟩)
  | targetId (selfKey : Bytes) : Prints B (B.sha256 selfKey) (targetId B selfKey)
  | localAddr (selfKey : Bytes) (name : Text) :
    Prints B (B.sha256 selfKey) (localAddr B selfKey name)
  | groupMember (hs : List (List.Vector UInt8 32)) (i : ℕ) (h : List.Vector UInt8 32) (addr : Text)
    (hi : hs[i]? = some h)
    (ha : (groupMembers (hs.map List.Vector.toList).flatten)[i]? = some addr) : Prints B h addr

/-- What may follow an address: nothing, or a slash and a name. -/
def IsEndpoint (suffix : Text) : Prop := suffix = [] ∨ ∃ name, suffix = '/' :: name

theorem before_append_endpoint {addr suffix : Text} (ha : '/' ∉ addr) (hs : IsEndpoint suffix) :
    before '/' (addr ++ suffix) = addr := by
  obtain rfl | ⟨name, rfl⟩ := hs
  · rw [List.append_nil, before_of_notMem ha]
  · exact before_append_cons ha

/-- The form without a server id. -/
theorem recipientHash_global (h : Bytes) {suffix : Text} (hs : IsEndpoint suffix) :
    recipientHash ('k' :: '.' :: base64urlEncode h ++ suffix) = .ok h :=
  recipientHash_of_before
    (before_append_endpoint (slash_notMem_key (slash_notMem_base64url h)) hs)

/-- The form with a server id, which may contain dots. -/
theorem recipientHash_local (h : Bytes) {serverId suffix : Text} (hid : '/' ∉ serverId)
    (hs : IsEndpoint suffix) :
    recipientHash ('k' :: '.' :: (serverId ++ '.' :: base64urlEncode h) ++ suffix) = .ok h := by
  refine recipientHash_of_last
    (before_append_endpoint (slash_notMem_key fun hm => ?_) hs) ?_
  · rcases List.mem_append.1 hm with hm | hm
    · exact hid hm
    rcases List.mem_cons.1 hm with hm | hm
    · cases hm
    · exact slash_notMem_base64url h hm
  · rw [split_append, split_of_notMem (dot_notMem_base64url h), List.getLast?_concat]

/-- A reply that is a list of hashes gives their addresses, in order. -/
theorem groupMembers_flatten (hs : List (List.Vector UInt8 32)) :
    groupMembers (hs.map List.Vector.toList).flatten =
      hs.map fun h => 'k' :: '.' :: base64urlEncode h.toList := by
  induction hs with
  | nil => rfl
  | cons h hs ih =>
    rw [List.map_cons, List.flatten_cons, groupMembers, chunks_append (by decide) h.toList_length,
      List.map_cons, List.map_cons]
    exact congrArg _ ih

theorem Prints.recipientHash {B : Bottlers} {h : List.Vector UInt8 32} {addr suffix : Text}
    (hp : Prints B h addr) (hs : IsEndpoint suffix) :
    recipientHash (addr ++ suffix) = .ok h.toList := by
  cases hp with
  | clientId h serverId hid =>
    by_cases hempty : serverId = []
    · rw [ClientId.display, if_pos hempty]
      exact recipientHash_global _ hs
    · rw [ClientId.display, if_neg hempty]
      exact recipientHash_local _ hid hs
  | targetId selfKey => exact recipientHash_global _ hs
  | localAddr selfKey name =>
    rw [Spot.localAddr, List.append_assoc]
    exact recipientHash_global _ (.inr ⟨_, rfl⟩)
  | groupMember hs' i h addr hi ha =>
    rw [groupMembers_flatten, List.getElem?_map, hi, Option.map_some] at ha
    obtain rfl := Option.some.inj ha
    exact recipientHash_global _ hs

/-- The hash comes back from every printed address, distinct hashes have distinct addresses, and
the two printers of the address of a card agree. -/
theorem recipientHash_printed (B : Bottlers) :
    (∀ h addr suffix, Prints B h addr → IsEndpoint suffix →
        recipientHash (addr ++ suffix) = .ok h.toList) ∧
      (∀ (hs : List (List.Vector UInt8 32)) suffix, IsEndpoint suffix →
        (groupMembers (hs.map List.Vector.toList).flatten).map
            (fun addr => recipientHash (addr ++ suffix)) = hs.map fun h => .ok h.toList) ∧
      (∀ h h' addr, Prints B h addr → Prints B h' addr → h = h') ∧
      ∀ card : B.Card, (ClientId.fromIdcard B card).display = targetId B card.selfKey := by
  refine ⟨fun h addr suffix hp hs => hp.recipientHash hs, fun hs suffix hsuf => ?_,
    fun h h' addr hp hp' => ?_, fun card => rfl⟩
  · rw [groupMembers_flatten, List.map_map]
    exact List.map_congr_left fun h _ => recipientHash_global _ hsuf
  · have hh : recipientHash (addr ++ []) = .ok h.toList := hp.recipientHash (.inl rfl)
    rw [hp'.recipientHash (.inl rfl)] at hh
    exact Subtype.ext (Except.ok.inj hh).symm

end Spot
