import Spot.Client.ClientId
import Spot.Client.Laws
import Spot.Client.State

/-!
# Where an endpoint is reached

An endpoint is registered under its name as it is, its address is the client's with a slash and the
name, and a message is routed by what its recipient has between the first slash and the second.
`RoutesTo` says which entry of the registry a message reaches, `routesTo_iff` that this is the one
under the routed name, and `routesTo_localAddr_iff` which names are reached at their own address.
-/

namespace Spot

variable {B : Bottlers}

/-- A registration of an endpoint: a packet connection, or a user's handler. -/
inductive Registration
  | listenPacket
  | setHandler (f : ℕ)

/-- What a registration does to the state. -/
def Registration.register (s : Shared B) (name : Text) : Registration → Shared B
  | listenPacket => s.listenPacket name
  | setHandler f => s.setHandler name (some f)

/-- The handler that a registration installs. -/
def Registration.installs (s : Shared B) : Registration → Handler
  | listenPacket => .packet s.conns.length
  | setHandler f => .user f

/-- The message is given to the handler `h`, registered under `name`, if no query of that name
waits. -/
def RoutesTo (t : Platform) (acct : Account B) (s : Shared B) (msg : Message) (name : Text)
    (h : Handler) : Prop :=
  ∃ k k', routeMessage t acct msg = .ask (.takeInQ name) k ∧
    k false = .ask (.getHandler name) k' ∧
    s.handlers.lookup name = some h ∧ k' (s.handlers.lookup name) = runHandler t acct msg h

variable {t : Platform} {acct : Account B} {s : Shared B} {msg : Message} {name : Text}
  {h : Handler}

/-- A message reaches the entry under the name it is routed by. -/
theorem routesTo_iff : RoutesTo t acct s msg name h ↔
    routeName msg.recipient.chars = some name ∧ s.handlers.lookup name = some h := by
  constructor
  · rintro ⟨k, k', hroute, -, hlookup, -⟩
    refine ⟨?_, hlookup⟩
    unfold routeMessage at hroute
    cases hname : routeName msg.recipient.chars with
    | none =>
      rw [hname] at hroute
      cases hroute
    | some name' =>
      rw [hname] at hroute
      obtain ⟨hask, -⟩ := Prog.ask.inj hroute
      rw [Ask.takeInQ.inj hask]
  · rintro ⟨hname, hlookup⟩
    -- The two continuations are those of `routeMessage`.
    have hroute : ∃ k k', routeMessage t acct msg = .ask (.takeInQ name) k ∧
        k false = .ask (.getHandler name) k' ∧ k' (some h) = runHandler t acct msg h := by
      rw [routeMessage, hname]
      exact ⟨_, _, rfl, rfl, rfl⟩
    obtain ⟨k, k', hask, hget, hrun⟩ := hroute
    exact ⟨k, k', hask, hget, hlookup, by rw [hlookup, hrun]⟩

/-- What a registration installs is stored under its name. -/
theorem lookup_register (s : Shared B) (name : Text) (reg : Registration) :
    (reg.register s name).handlers.lookup name = some (reg.installs s) := by
  cases reg <;> exact AList.lookup_insert _

/-- The name that the address of an endpoint is routed by. -/
theorem routeName_localAddr (selfKey : Bytes) (name : Text) :
    routeName (localAddr B selfKey name) = some (before '/' name) := by
  rw [routeName, localAddr, after?_append_cons slash_notMem_targetId]
  rfl

theorem before_eq_self_iff {name : Text} : before '/' name = name ↔ '/' ∉ name := by
  constructor
  · intro hname hslash
    rw [← hname] at hslash
    have hne := List.mem_takeWhile_imp hslash
    simp at hne
  · exact before_of_notMem

/-- After an endpoint was registered, and as long as its name is neither registered again nor
cleared, a message to its own address is given to the handler that was installed, if no query of the
name waits, exactly if there is no slash in the name. -/
theorem routesTo_localAddr_iff (t : Platform) (acct : Account B) (s : Shared B) (name : Text)
    (reg : Registration) (selfKey : Bytes) {addr : Str}
    (haddr : addr.chars = localAddr B selfKey name) :
    (∀ (s' : Shared B) (msg : Message),
      s'.handlers.lookup name = (reg.register s name).handlers.lookup name →
      msg.recipient = addr → RoutesTo t acct s' msg name (reg.installs s)) ↔ '/' ∉ name := by
  rw [← before_eq_self_iff]
  constructor
  · intro hall
    let msg : Message := { (default : Message) with recipient := addr }
    have hroute := (routesTo_iff.1 (hall _ msg rfl rfl)).1
    rw [show msg.recipient.chars = _ from haddr, routeName_localAddr] at hroute
    exact Option.some.inj hroute
  · intro hname s' msg hs' hmsg
    refine routesTo_iff.2 ⟨?_, hs'.trans (lookup_register s name reg)⟩
    rw [hmsg, haddr, routeName_localAddr, hname]

/-- The address of an endpoint of the example client. -/
def inAddr : Str := ⟨localAddr plain [0, 5] "in".toList, by decide +kernel⟩

/-- A message to a packet connection. -/
theorem routesTo_inAddr :
    RoutesTo .native .plainAccount (({} : Shared plain).listenPacket "in".toList)
      { (default : Message) with recipient := inAddr } "in".toList (.packet 0) := by
  have haddr : inAddr.chars = localAddr plain [0, 5] "in".toList := rfl
  exact (routesTo_localAddr_iff .native .plainAccount {} "in".toList .listenPacket [0, 5] haddr).2
    (by decide) _ _ rfl rfl

/-- A name with a slash, whose messages are routed by what is before it. -/
theorem not_routesTo_slash :
    ¬ ∀ (name : Text) (addr : Str), addr.chars = localAddr plain [0, 5] name →
      ∀ msg : Message, msg.recipient = addr →
        RoutesTo .native .plainAccount (({} : Shared plain).listenPacket name) msg name
          (.packet 0) := by
  intro hall
  let addr : Str := ⟨localAddr plain [0, 5] "a/b".toList, by decide +kernel⟩
  have hroute := hall "a/b".toList addr rfl { (default : Message) with recipient := addr } rfl
  have hname := (routesTo_iff.1 hroute).1
  rw [show ({ (default : Message) with recipient := addr } : Message).recipient.chars =
    localAddr plain [0, 5] "a/b".toList from rfl, routeName_localAddr] at hname
  exact absurd (Option.some.inj hname) (by decide)

end Spot
