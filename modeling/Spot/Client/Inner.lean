import Mathlib.Data.List.AList
import Spot.Client.Address
import Spot.Client.Envelope
import Spot.General.Prog

/-!
# Queries and handlers

The functions of the client that wait for others or touch what its threads share, as programs
(`Prog`) that ask for each such thing: for the clock and for random bytes, for an access to the card
cache, for the reply to a query, for the call of a handler.
-/

namespace Spot

/-! ## What the programs ask -/

/-- A registered handler: one of the default ones, that of a packet connection, or the user's. -/
inductive Handler
  | ping
  | version
  | finger
  | idcardUpdate
  | packet (chan : ℕ)
  | user (f : ℕ)
  deriving DecidableEq

/-- How the call of a handler ends; a panic has a text if its payload is a string. -/
inductive Outcome
  | returned (r : Except Text (Option Bytes))
  | panicked (text : Option Text)

/-- How the wait for a reply ends. -/
inductive Wait
  | message (msg : Message)
  /-- The time is over, before the wait begins or during it. -/
  | elapsed (begun closed : Bool)
  /-- The sender of the channel is gone. -/
  | disconnected (closed : Bool)

/-- A question of a client's program. -/
inductive Ask (B : Bottlers)
  | now
  | seeds
  | uuid
  | cached (h : Bytes)
  | insert (h : Bytes) (card : B.Card)
  | setCache (h : Bytes) (card : B.Card)
  | refresh
  | push (msg : Message)
  /-- The reply to the query with this id, which looks up the card of `find` if there is one. -/
  | wait (id : MessageId) (find : Option Bytes)
  | receive
  | takeInQ (name : Text)
  | getHandler (name : Text)
  | idBin
  | handle (f : ℕ) (msg : Message)
  | deliver (chan : ℕ) (payload : Bytes) (sender : Str)

/-- What a question is answered by. -/
@[reducible] def Reply (B : Bottlers) : Ask B → Type
  | .now => ℤ
  | .seeds => Seeds B
  | .uuid => MessageId
  | .cached _ => Option B.Card
  | .wait _ _ => Wait
  | .receive => Message
  | .takeInQ _ => Bool
  | .getHandler _ => Option Handler
  | .idBin => Bytes
  | .handle _ _ => Outcome
  | .insert _ _ | .setCache _ _ | .refresh | .push _ | .deliver _ _ _ => Unit

/-- Programs of the client. -/
abbrev Action (B : Bottlers) : Type → Type := Prog (Reply B)

/-- Programs of the client that may end with an error, as `?` does. -/
abbrev Client (B : Bottlers) : Type → Type := Prog.Fallible Error (Reply B)

section

variable (B : Bottlers)

/-- The program that asks one question. -/
abbrev ask (q : Ask B) : Action B (Reply B q) := Prog.once q

abbrev nowUnix : Action B ℤ := ask B .now

abbrev randomSeeds : Action B (Seeds B) := ask B .seeds

abbrev uuidV4 : Action B MessageId := ask B .uuid

abbrev getIdcardFromCache (h : Bytes) : Action B (Option B.Card) := ask B (.cached h)

abbrev insertIdcard (h : Bytes) (card : B.Card) : Action B Unit := ask B (.insert h card)

abbrev setIdcardCache (h : Bytes) (card : B.Card) : Action B Unit := ask B (.setCache h card)

abbrev needKeyRefresh : Action B Unit := ask B .refresh

/-- Queues a message to be sent. -/
abbrev push (msg : Message) : Action B Unit := ask B (.push msg)

abbrev waitReply (id : MessageId) (find : Option Bytes) : Action B Wait :=
  ask B (.wait id find)

abbrev receive : Action B Message := ask B .receive

/-- Whether a query waits under the name; if so the message is sent to it. -/
abbrev takeInQ (name : Text) : Action B Bool := ask B (.takeInQ name)

abbrev getHandler (name : Text) : Action B (Option Handler) := ask B (.getHandler name)

abbrev idBin : Action B Bytes := ask B .idBin

/-- Calls the user's handler `f`. -/
abbrev handle (f : ℕ) (msg : Message) : Action B Outcome := ask B (.handle f msg)

/-- Sends on the channel of a packet connection. -/
abbrev deliver (chan : ℕ) (payload : Bytes) (sender : Str) : Action B Unit :=
  ask B (.deliver chan payload sender)

end

variable {B : Bottlers}

/-! ## Queries -/

/-- What a query makes of the end of its wait. -/
def Wait.result (t : Platform) : Wait → Result Message
  | .message msg => .ok msg
  | .elapsed begun closed =>
    match t with
    | .native => if begun && closed then .error .closed else .error .timeout
    | .wasm => if closed then .error .closed else .error .timeout
  | .disconnected closed =>
    match t with
    | .native => if closed then .error .closed else .error .timeout
    | .wasm => .error .closed

/-- The body of a message, `prepare_message` at the current time. -/
def prepare (acct : Account B) (rid : Option B.Card) (payload : Bytes) : Client B Bytes := do
  let now ← nowUnix B
  let seeds ← randomSeeds B
  liftM (prepareMessage acct now seeds rid payload)

/-- Returns what was decoded, after emptying the cache if the signature did not match. -/
def Decoded.finish (d : Decoded) : Client B Bytes := do
  if d.refresh then needKeyRefresh B
  liftM d.body

/-- The part of `query` after the card of the recipient is known. -/
def exchange (t : Platform) (acct : Account B) (find : Option Bytes) (rid : Option B.Card)
    (target : Str) (body : Bytes) : Client B Bytes := do
  let body ← prepare acct rid body
  let id ← uuidV4 B
  push B { messageId := id, flags := 0, recipient := target, sender := replyAddress id, body }
  let wait ← waitReply B id find
  let obj ← liftM (wait.result t)
  let now ← nowUnix B
  (finishQuery acct now rid obj).finish

/-- The target of the query for a card. -/
def idcardFind : Str := ⟨"@/idcard_find".toList, by decide⟩

/-- Returns the card for the given key hash, from cache or the server. -/
def getIdcard (t : Platform) (acct : Account B) (h : Bytes) : Client B B.Card := do
  match ← getIdcardFromCache B h with
  | some card => return card
  | none =>
    let buf ← exchange t acct (some h) none idcardFind h
    let card ← liftM (wrapBottle (B.fromSigned buf))
    insertIdcard B h card
    return card

/-- Returns the card of a recipient like `k.<base64url hash>/<endpoint>`. -/
def getIdcardForRecipient (t : Platform) (acct : Account B) (rcv : Str) : Client B B.Card := do
  let h ← liftM (recipientHash rcv.chars)
  getIdcard t acct h

/-- Whether the target of a query is a key. -/
def isKeyTarget (target : Text) : Bool := target.head? == some 'k'

/-- Sends a request and waits for the response. -/
def query (t : Platform) (acct : Account B) (target : Str) (body : Bytes) : Client B Bytes :=
  if target.chars = [] then throw (.invalidTarget [])
  else if isKeyTarget target.chars then do
    let rid ← getIdcardForRecipient t acct target
    exchange t acct none (some rid) target body
  else exchange t acct none none target body

/-- The query for a card is this one; `find` marks its reply as one that a card is made of. -/
example (t : Platform) (acct : Account B) (h : Bytes) :
    query t acct idcardFind h = exchange t acct none none idcardFind h := rfl

/-- Encrypts and sends a payload with an explicit sender endpoint. -/
def sendToWithFrom (t : Platform) (acct : Account B) (target : Str) (payload : Bytes)
    (sender : Str) : Client B Unit := do
  let rid ← getIdcardForRecipient t acct target
  let body ← prepare acct (some rid) payload
  let id ← uuidV4 B
  if sender.chars = [] then
    push B { messageId := id, flags := 0, recipient := target, sender := replyAddress id, body }
  else if sender.chars.head? = some '/' then
    push B { messageId := id, flags := 0, recipient := target, sender, body }
  else throw (.invalidTarget sender.chars)

/-! ## Handlers -/

/-- Processes a card update notification. -/
def idcardUpdate (msg : Message) : Action B Outcome :=
  if msg.body = [] then return .returned (.error "empty ID card data received".toList)
  else match B.fromSigned msg.body with
    | .error e => return .returned (.error ("invalid ID card format: ".toList ++ e))
    | .ok idc => do
      setIdcardCache B (B.sha256 idc.selfKey).toList idc
      return .returned (.ok none)

/-- The handler of a packet connection. -/
def packetHandler (chan : ℕ) (msg : Message) : Action B Outcome :=
  if !msg.isEncrypted then
    return .returned (.error "invalid message: must be encrypted".toList)
  else do
    deliver B chan msg.body msg.sender
    return .returned (.ok none)

/-- Calls a handler. -/
def Handler.call (msg : Message) : Handler → Action B Outcome
  | ping => return .returned (.ok (some (msg.body.take 128)))
  | version => return .returned (.ok (some (utf8 "spotlib-rs/0.1.3".toList)))
  | finger => do
    let signed ← idBin B
    return .returned (.ok (some signed))
  | idcardUpdate => Spot.idcardUpdate msg
  | packet chan => packetHandler chan msg
  | user f => handle B f msg

/-- What a handler's call gives: on native a panic is an error; in the browser it ends the task. -/
def Outcome.result (t : Platform) : Outcome → Option (Except Text (Option Bytes))
  | .returned r => some r
  | .panicked text =>
    match t with
    | .native => some (.error ("panic in handler: ".toList ++ text.getD "unknown panic".toList))
    | .wasm => none

/-- The sender of responses. -/
def noreply : Str := ⟨"/noreply".toList, by decide⟩

/-- Opens an incoming message that is encrypted, with the card of its sender. -/
def openRequest (t : Platform) (acct : Account B) (msg : Message) :
    Client B (Option B.Card × Message) :=
  if msg.flags &&& msgFlagNotBottle = 0 then do
    let rid ← getIdcardForRecipient t acct msg.sender
    let now ← nowUnix B
    let body ← (decodeMessage acct now (some rid) msg.body).finish
    return (some rid, { msg with body })
  else return (none, msg)

/-- Sends the response to a message, as a bottle if it was one. -/
def sendResponse (acct : Account B) (rid : Option B.Card) (msg : Message) (flags : UInt64)
    (body : Bytes) : Action B Unit :=
  if msg.flags &&& msgFlagNotBottle = 0 then do
    match ← (prepare acct rid body).run with
    | .error _ => return
    | .ok body =>
      push B { messageId := msg.messageId, flags, recipient := msg.sender, sender := noreply, body }
  else
    push B { messageId := msg.messageId, flags := flags ||| msgFlagNotBottle,
             recipient := msg.sender, sender := noreply, body }

/-- Responds to a message with the result of its handler, unless it is itself a response. -/
def respond (acct : Account B) (rid : Option B.Card) (msg : Message) :
    Except Text (Option Bytes) → Action B Unit
  | res =>
    if msg.flags &&& msgFlagResponse = msgFlagResponse then return
    else match res with
      | .ok none => return
      | .ok (some body) => sendResponse acct rid msg msgFlagResponse body
      | .error e => sendResponse acct rid msg (msgFlagResponse ||| msgFlagError) (utf8 e)

/-- The part of `runHandler` after the message has been opened. -/
def runOpened (t : Platform) (acct : Account B) (rid : Option B.Card) (msg : Message)
    (h : Handler) : Action B Unit := do
  let out ← h.call msg
  match out.result t with
  | none => return
  | some res => respond acct rid msg res

/-- Processes an incoming message through a handler. -/
def runHandler (t : Platform) (acct : Account B) (msg : Message) (h : Handler) :
    Action B Unit := do
  match ← (openRequest t acct msg).run with
  | .error _ => return
  | .ok (rid, msg) => runOpened t acct rid msg h

/-- Routes an incoming message to a waiting query or a handler, which native runs in a new
thread. -/
def routeMessage (t : Platform) (acct : Account B) (msg : Message) : Action B Unit :=
  match routeName msg.recipient.chars with
  | none => return
  | some name => do
    if ← takeInQ B name then return
    match ← getHandler B name with
    | some h => runHandler t acct msg h
    | none => return

/-- Receives a message and routes it. -/
def incoming (t : Platform) (acct : Account B) : Action B Unit := do
  let msg ← receive B
  routeMessage t acct msg

end Spot
