import Spot.Client.Blob
import Spot.Client.ClientId
import Spot.Conn.Threshold
import Spot.General.Clock

/-!
# Timeouts and the time of the server

The functions of the native client that take a timeout add it to the current time before they do
anything that could fail, and `get_time` adds what the server says to the epoch; both additions
panic when the seconds overflow.  `timed_sound_iff` says for which timeouts and replies they do not,
and that `get_time` then returns exactly the time that the reply says.
-/

namespace Spot

variable {B : Bottlers}

/-- A program of the client that may also panic. -/
abbrev MayPanic (B : Bottlers) : Type → Type := Prog.Fallible (Fault Error) (Reply B)

/-! ## The time of the server -/

/-- The number that big-endian bytes stand for. -/
def fromBeBytes (b : Bytes) : ℕ := b.foldl (fun n x => n * 256 + x.toNat) 0

/-- The seconds in a reply. -/
def replySecs (res : Bytes) : UInt64 := UInt64.ofNat (fromBeBytes (res.take 8))

/-- The nanoseconds in a reply. -/
def replyNanos (res : Bytes) : UInt32 := UInt32.ofNat (fromBeBytes ((res.drop 8).take 4))

/-- `t + d`, which panics when the seconds overflow. -/
def addOrPanic (t : Timespec) (d : Duration) : Except (Fault Error) Timespec :=
  match t.checkedAdd d with
  | none => .error .panic
  | some t' => .ok t'

/-- Parses the 12-byte server time reply. -/
def parseServerTime (res : Bytes) : Except (Fault Error) Timespec :=
  if res.length < 12 then .error (.err (.other "unable to parse time from server".toList))
  else match Duration.new (replySecs res) (replyNanos res) with
    | none => .error .panic
    | some d => addOrPanic Timespec.zero d

/-- The nanoseconds between the epoch and the time in a reply. -/
def replyTotal (res : Bytes) : ℕ := (replySecs res).toNat * nanosPerSec + (replyNanos res).toNat

/-- The seconds of an instant that is so many nanoseconds after the epoch fit in 64 bits. -/
def Representable (total : ℤ) : Prop := total < 2 ^ 63 * nanosPerSec

instance : DecidablePred Representable := fun _ => inferInstanceAs (Decidable (_ < _))

theorem addOrPanic_cases (t : Timespec) (d : Duration) :
    (Representable (t.total + d.total) ∧
      ∃ t', addOrPanic t d = .ok t' ∧ t'.total = t.total + d.total) ∨
    ¬ Representable (t.total + d.total) ∧ addOrPanic t d = .error .panic := by
  unfold Representable addOrPanic
  rcases Timespec.checkedAdd_cases t d with ⟨t', ht, hsum⟩ | ⟨hnone, hle⟩
  · rw [ht, ← hsum]
    exact .inl ⟨t'.total_lt, t', rfl, rfl⟩
  · rw [hnone]
    exact .inr ⟨not_lt.2 hle, rfl⟩

/-- A reply is too short, or says a time, or makes the client panic. -/
theorem parseServerTime_cases (res : Bytes) :
    (res.length < 12 ∧ ∃ e, parseServerTime res = .error (.err e)) ∨
    (12 ≤ res.length ∧ Representable (replyTotal res) ∧
      ∃ t, parseServerTime res = .ok t ∧ t.total = replyTotal res) ∨
    12 ≤ res.length ∧ ¬ Representable (replyTotal res) ∧
      parseServerTime res = .error .panic := by
  unfold parseServerTime
  rcases lt_or_ge res.length 12 with hlen | hlen
  · rw [if_pos hlen]
    exact .inl ⟨hlen, _, rfl⟩
  rw [if_neg (not_lt.2 hlen)]
  rcases Duration.new_eq (replySecs res) (replyNanos res) with ⟨d, hd, htotal⟩ | ⟨hnone, hle⟩
  · have hsum : Timespec.zero.total + d.total = (replyTotal res : ℤ) := by
      rw [Timespec.total_zero, zero_add, htotal]
      rfl
    have hadd := addOrPanic_cases Timespec.zero d
    rw [hsum] at hadd
    rw [hd]
    rcases hadd with ⟨hrep, hok⟩ | ⟨hrep, hpanic⟩
    · exact .inr (.inl ⟨hlen, hrep, hok⟩)
    · exact .inr (.inr ⟨hlen, hrep, hpanic⟩)
  · rw [hnone]
    refine .inr (.inr ⟨hlen, ?_, rfl⟩)
    unfold Representable replyTotal
    omega

/-! ## Calls with a timeout -/

/-- The target of the query for the time. -/
def timeTarget : Str := ⟨"@/time".toList, by decide⟩

/-- What a pass through the loop of `wait_online` finds. -/
structure OnlinePass where
  onlineCnt : UInt32
  minConn : UInt32
  closed : Bool
  now : Timespec

/-- The loop of `wait_online`; `none` if it still waits after these passes. -/
def waitUntil (deadline : Timespec) : List OnlinePass → Option (Result Unit)
  | [] => none
  | p :: ps =>
    if want p.minConn ≤ p.onlineCnt then some (.ok ())
    else if p.closed then some (.error .closed)
    else if deadline.NotAfter p.now then some (.error .timeout)
    else waitUntil deadline ps

namespace NativeClient

section

variable (acct : Account B) (now : Timespec) (timeout : Duration)

/-- Computes the deadline `now + timeout` and goes on with a program that waits until then at most;
when its waits end is up to the outside. -/
def withDeadline {α : Type} (p : Client B α) : MayPanic B α := do
  let _deadline ← liftM (addOrPanic now timeout)
  ExceptT.adapt Fault.err p

/-- Waits until enough connections are online. -/
def waitOnline (passes : List OnlinePass) : Option (Except (Fault Error) Unit) :=
  match addOrPanic now timeout with
  | .error e => some (.error e)
  | .ok deadline => (waitUntil deadline passes).map (Except.mapError Fault.err)

def query (target : Str) (body : Bytes) : MayPanic B Bytes :=
  withDeadline now timeout (Spot.query .native acct target body)

def sendToWithFrom (target : Str) (payload : Bytes) (sender : Str) : MayPanic B Unit :=
  withDeadline now timeout (Spot.sendToWithFrom .native acct target payload sender)

def sendTo (target : Str) (payload : Bytes) : MayPanic B Unit :=
  sendToWithFrom acct now timeout target payload Str.empty

def getGroupMembers (groupKey : Bytes) : MayPanic B (List Text) := do
  let buf ← query acct now timeout groupList groupKey
  return groupMembers buf

def storeBlob (card : B.Card) (key : Text) (value : Bytes) : MayPanic B Unit := do
  let body ← ExceptT.adapt Fault.err (storeBody acct card key value)
  let _ ← query acct now timeout storeBlobTarget body
  return ()

def fetchBlob (card : B.Card) (key : Text) : MayPanic B Bytes := do
  let buf ← query acct now timeout fetchBlobTarget (fetchBody key)
  ExceptT.adapt Fault.err (openFetched acct card buf)

def getIdcardBin (h : Bytes) : MayPanic B Bytes := query acct now timeout idcardFind h

def getIdcard (h : Bytes) : MayPanic B B.Card :=
  withDeadline now timeout (Spot.getIdcard .native acct h)

def getIdcardForRecipient (rcv : Str) : MayPanic B B.Card :=
  withDeadline now timeout (Spot.getIdcardForRecipient .native acct rcv)

def getTime : MayPanic B Timespec := do
  let res ← query acct now timeout timeTarget []
  liftM (parseServerTime res)

/-- The `send_to` of a packet connection. -/
def packetSendTo (name : Text) (hname : (utf8 ('/' :: name)).length ≤ isizeMax) (addr : Str)
    (payload : Bytes) : MayPanic B Unit :=
  withDeadline now timeout
    (Spot.sendToWithFrom .native acct addr payload ⟨'/' :: name, hname⟩)

end

end NativeClient

/-- A call with a timeout, other than of `wait_online`. -/
inductive TimedCall (B : Bottlers)
  | query (target : Str) (body : Bytes)
  | sendTo (target : Str) (payload : Bytes)
  | sendToWithFrom (target : Str) (payload : Bytes) (sender : Str)
  | getGroupMembers (groupKey : Bytes)
  | storeBlob (card : B.Card) (key : Text) (value : Bytes)
  | fetchBlob (card : B.Card) (key : Text)
  | getIdcardBin (h : Bytes)
  | getIdcard (h : Bytes)
  | getIdcardForRecipient (rcv : Str)
  | getTime
  | packetSendTo (name : Text) (hname : (utf8 ('/' :: name)).length ≤ isizeMax) (addr : Str)
      (payload : Bytes)

namespace TimedCall

/-- What a call returns. -/
@[reducible] def Value : TimedCall B → Type
  | query _ _ | fetchBlob _ _ | getIdcardBin _ => Bytes
  | sendTo _ _ | sendToWithFrom _ _ _ | storeBlob _ _ _ | packetSendTo _ _ _ _ => Unit
  | getGroupMembers _ => List Text
  | getIdcard _ | getIdcardForRecipient _ => B.Card
  | getTime => Timespec

/-- What a call does, at the time `now`. -/
def program (acct : Account B) (now : Timespec) (timeout : Duration) :
    (c : TimedCall B) → MayPanic B c.Value
  | query target body => NativeClient.query acct now timeout target body
  | sendTo target payload => NativeClient.sendTo acct now timeout target payload
  | sendToWithFrom target payload sender =>
    NativeClient.sendToWithFrom acct now timeout target payload sender
  | getGroupMembers groupKey => NativeClient.getGroupMembers acct now timeout groupKey
  | storeBlob card key value => NativeClient.storeBlob acct now timeout card key value
  | fetchBlob card key => NativeClient.fetchBlob acct now timeout card key
  | getIdcardBin h => NativeClient.getIdcardBin acct now timeout h
  | getIdcard h => NativeClient.getIdcard acct now timeout h
  | getIdcardForRecipient rcv => NativeClient.getIdcardForRecipient acct now timeout rcv
  | getTime => NativeClient.getTime acct now timeout
  | packetSendTo name hname addr payload =>
    NativeClient.packetSendTo acct now timeout name hname addr payload

/-- What `get_time` makes of the end of its query: the time in a reply that says one, or an error of
the query. -/
def Exact (acct : Account B) (tr : Trace B) :
    (c : TimedCall B) → Except (Fault Error) c.Value → Prop
  | getTime, r =>
    (∀ buf, (Spot.query .native acct timeTarget []).run.Run tr (.ok buf) →
      ∀ t : Timespec, r = .ok t ↔ 12 ≤ buf.length ∧ t.total = replyTotal buf) ∧
    ∀ e, (Spot.query .native acct timeTarget []).run.Run tr (.error e) → r = .error (.err e)
  | _, _ => True

/-- The run does not panic, and `get_time` returns the time of the server. -/
def Sound (acct : Account B) (c : TimedCall B) (tr : Trace B) (r : Except (Fault Error) c.Value) :
    Prop :=
  r ≠ .error .panic ∧ c.Exact acct tr r

/-- The call ends before it adds the timeout: `store_blob` could not build a body. -/
def EndsEarly (acct : Account B) (tr : Trace B) : TimedCall B → Prop
  | storeBlob card key value => ∃ e, (storeBody acct card key value).run.Run tr (.error e)
  | _ => False

/-- The reply to `get_time` is too short, or says a time that can be represented. -/
def ReplyInRange (acct : Account B) (tr : Trace B) : TimedCall B → Prop
  | getTime => ∀ buf, (Spot.query .native acct timeTarget []).run.Run tr (.ok buf) →
    buf.length < 12 ∨ Representable (replyTotal buf)
  | _ => True

/-- The deadline can be represented, unless the call ends before, and so can the time of a reply. -/
def InRange (acct : Account B) (now : Timespec) (timeout : Duration) (tr : Trace B)
    (c : TimedCall B) : Prop :=
  (Representable (now.total + timeout.total) ∨ c.EndsEarly acct tr) ∧ c.ReplyInRange acct tr

end TimedCall

/-! ## Runs -/

section Runs

variable {acct : Account B} {now : Timespec} {timeout : Duration} {α β : Type} {tr : Trace B}

open NativeClient

/-- A program that never panics. -/
def Calm (p : MayPanic B α) : Prop := ∀ tr, ¬ p.run.Run tr (.error .panic)

theorem calm_pure (a : α) : Calm (pure a : MayPanic B α) := by
  rintro tr ⟨-, h⟩
  cases h

theorem calm_adapt (p : Client B α) : Calm (ExceptT.adapt Fault.err p : MayPanic B α) := by
  intro tr h
  obtain ⟨e, -, he⟩ := Prog.run_run_adapt_error.1 h
  cases he

/-- A program with a deadline panics at once, or runs. -/
theorem withDeadline_run {p : Client B α} {r : Except (Fault Error) α} :
    (withDeadline now timeout p).run.Run tr r ↔
      (Representable (now.total + timeout.total) ∧
        (ExceptT.adapt Fault.err p : MayPanic B α).run.Run tr r) ∨
      ¬ Representable (now.total + timeout.total) ∧ tr = [] ∧ r = .error .panic := by
  unfold withDeadline
  rw [Prog.run_run_bind]
  simp only [Prog.run_run_except]
  rcases addOrPanic_cases now timeout with ⟨hrep, t, hok, -⟩ | ⟨hrep, hpanic⟩
  · rw [hok]
    constructor
    · rintro (⟨tr₁, a, tr₂, rfl, ⟨rfl, -⟩, h⟩ | ⟨e, -, -, he⟩)
      · exact .inl ⟨hrep, h⟩
      · cases he
    · rintro (⟨-, h⟩ | ⟨hno, -⟩)
      · exact .inl ⟨[], t, tr, rfl, ⟨rfl, rfl⟩, h⟩
      · exact absurd hrep hno
  · rw [hpanic]
    constructor
    · rintro (⟨tr₁, a, tr₂, -, ⟨-, ha⟩, -⟩ | ⟨e, rfl, rfl, he⟩)
      · cases ha
      · cases he
        exact .inr ⟨hrep, rfl, rfl⟩
    · rintro (⟨hyes, -⟩ | ⟨-, rfl, rfl⟩)
      · exact absurd hyes hrep
      · exact .inr ⟨.panic, rfl, rfl, rfl⟩

/-- A program with a deadline panics exactly if the deadline cannot be represented. -/
theorem withDeadline_panics {p : Client B α} {r : Except (Fault Error) α}
    (h : (withDeadline now timeout p).run.Run tr r) :
    r ≠ .error .panic ↔ Representable (now.total + timeout.total) := by
  rcases withDeadline_run.1 h with ⟨hrep, hrun⟩ | ⟨hrep, -, rfl⟩
  · exact ⟨fun _ => hrep, fun _ hpanic => calm_adapt p tr (hpanic ▸ hrun)⟩
  · exact ⟨fun hne => absurd rfl hne, fun hyes => absurd hyes hrep⟩

/-- What follows without panics changes nothing. -/
theorem withDeadline_bind_panics {p : Client B α} {f : α → MayPanic B β} (hf : ∀ a, Calm (f a))
    {r : Except (Fault Error) β} (h : (withDeadline now timeout p >>= f).run.Run tr r) :
    r ≠ .error .panic ↔ Representable (now.total + timeout.total) := by
  rcases Prog.run_run_bind.1 h with ⟨tr₁, a, tr₂, rfl, h₁, h₂⟩ | ⟨e, rfl, he⟩
  · have hrep := (withDeadline_panics h₁).1 (fun hok => by cases hok)
    refine ⟨fun _ => hrep, fun _ hpanic => ?_⟩
    rw [hpanic] at h₂
    exact hf a tr₂ h₂
  · rw [← withDeadline_panics he, ne_eq, ne_eq, Except.error.injEq, Except.error.injEq]

theorem storeBlob_panics {card : B.Card} {key : Text} {value : Bytes}
    {r : Except (Fault Error) Unit}
    (h : (NativeClient.storeBlob acct now timeout card key value).run.Run tr r) :
    r ≠ .error .panic ↔ Representable (now.total + timeout.total) ∨
      ∃ e, (storeBody acct card key value).run.Run tr (.error e) := by
  rcases Prog.run_run_bind.1 h with ⟨tr₁, body, tr₂, rfl, h₁, h₂⟩ | ⟨e, rfl, he⟩
  · have hok := Prog.run_run_adapt_ok.1 h₁
    have hno : ¬ ∃ e, (storeBody acct card key value).run.Run (tr₁ ++ tr₂) (.error e) := by
      rintro ⟨e, he⟩
      obtain ⟨-, heq⟩ := hok.of_append he
      cases heq
    rw [or_iff_left hno]
    exact withDeadline_bind_panics (fun _ => calm_pure _) h₂
  · obtain ⟨e', hbody, rfl⟩ := Prog.run_run_adapt_error.1 he
    exact ⟨fun _ => .inr ⟨e', hbody⟩, fun _ hpanic => by cases hpanic⟩

/-- The runs of `get_time` with a deadline that can be represented. -/
theorem getTime_run (hrep : Representable (now.total + timeout.total))
    {r : Except (Fault Error) Timespec}
    (h : (NativeClient.getTime acct now timeout).run.Run tr r) :
    (∃ buf, (Spot.query .native acct timeTarget []).run.Run tr (.ok buf) ∧
      r = parseServerTime buf) ∨
    ∃ e, (Spot.query .native acct timeTarget []).run.Run tr (.error e) ∧ r = .error (.err e) := by
  have hquery : ∀ {tr : Trace B} {q : Except (Fault Error) Bytes},
      (NativeClient.query acct now timeout timeTarget []).run.Run tr q →
      (ExceptT.adapt Fault.err (Spot.query .native acct timeTarget []) :
        MayPanic B Bytes).run.Run tr q := by
    intro tr q hq
    rcases withDeadline_run.1 hq with ⟨-, hrun⟩ | ⟨hno, -⟩
    · exact hrun
    · exact absurd hrep hno
  rcases Prog.run_run_bind.1 h with ⟨tr₁, buf, tr₂, rfl, h₁, h₂⟩ | ⟨e, rfl, he⟩
  · obtain ⟨rfl, rfl⟩ := Prog.run_run_except.1 h₂
    rw [List.append_nil]
    exact .inl ⟨buf, Prog.run_run_adapt_ok.1 (hquery h₁), rfl⟩
  · obtain ⟨e', hrun, rfl⟩ := Prog.run_run_adapt_error.1 (hquery he)
    exact .inr ⟨e', hrun, rfl⟩

/-- What `get_time` returns for a reply, and when it does not panic. -/
theorem parseServerTime_sound {buf : Bytes}
    (hrun : (Spot.query .native acct timeTarget []).run.Run tr (.ok buf)) :
    TimedCall.Sound acct .getTime tr (parseServerTime buf) ↔
      buf.length < 12 ∨ Representable (replyTotal buf) := by
  have hexact : (∀ t, parseServerTime buf = .ok t ↔
      12 ≤ buf.length ∧ t.total = replyTotal buf) →
      TimedCall.Exact acct tr .getTime (parseServerTime buf) := by
    refine fun h => ⟨fun buf' hbuf' => ?_, fun e he => ?_⟩
    · obtain rfl := Except.ok.inj (hrun.unique hbuf')
      exact h
    · cases hrun.unique he
  rcases parseServerTime_cases buf with ⟨hlen, e, he⟩ | ⟨hlen, hrep, t, hok, ht⟩ |
    ⟨hlen, hrep, hpanic⟩
  · rw [he] at hexact ⊢
    refine ⟨fun _ => .inl hlen, fun _ => ⟨fun hp => ?_, hexact fun t => ⟨fun hok => ?_, ?_⟩⟩⟩
    · cases hp
    · cases hok
    · rintro ⟨hge, -⟩
      omega
  · rw [hok] at hexact ⊢
    refine ⟨fun _ => .inr hrep, fun _ => ⟨fun hp => ?_, hexact fun t' => ⟨fun heq => ?_, ?_⟩⟩⟩
    · cases hp
    · obtain rfl := Except.ok.inj heq
      exact ⟨hlen, ht⟩
    · rintro ⟨-, ht'⟩
      rw [Timespec.total_injective (ht.trans ht'.symm)]
  · refine ⟨fun hs => absurd hpanic hs.1, ?_⟩
    rintro (hlt | hyes)
    · omega
    · exact absurd hyes hrep

theorem getTime_sound_iff {r : Except (Fault Error) Timespec}
    (h : (NativeClient.getTime acct now timeout).run.Run tr r) :
    TimedCall.Sound acct .getTime tr r ↔ TimedCall.InRange acct now timeout tr .getTime := by
  by_cases hrep : Representable (now.total + timeout.total)
  swap
  · have hpanic : r = .error .panic := by
      rcases Prog.run_run_bind.1 h with ⟨tr₁, buf, tr₂, rfl, h₁, h₂⟩ | ⟨e, rfl, he⟩
      · exact absurd ((withDeadline_panics h₁).1 fun hok => by cases hok) hrep
      · have hnot := mt (withDeadline_panics he).1 hrep
        rw [ne_eq, not_not] at hnot
        cases hnot
        rfl
    constructor
    · exact fun hs => absurd hpanic hs.1
    · rintro ⟨hyes | hearly, -⟩
      · exact absurd hyes hrep
      · exact hearly.elim
  · rcases getTime_run hrep h with ⟨buf, hrun, rfl⟩ | ⟨e, hrun, rfl⟩
    · rw [parseServerTime_sound hrun]
      refine ⟨fun hbuf => ⟨.inl hrep, fun buf' hbuf' => ?_⟩, fun hin => hin.2 buf hrun⟩
      obtain rfl := Except.ok.inj (hrun.unique hbuf')
      exact hbuf
    · refine ⟨fun _ => ⟨.inl hrep, fun buf hbuf => ?_⟩,
        fun _ => ⟨fun hpanic => ?_, fun buf hbuf => ?_, fun e' he' => ?_⟩⟩
      · cases hrun.unique hbuf
      · cases hpanic
      · cases hrun.unique hbuf
      · cases hrun.unique he'
        rfl

/-- A call other than `get_time` returns a result exactly if it does not panic. -/
theorem TimedCall.sound_iff_of_panics {c : TimedCall B} {r : Except (Fault Error) c.Value}
    (hexact : c.Exact acct tr r) (hreply : c.ReplyInRange acct tr)
    (h : r ≠ .error .panic ↔ Representable (now.total + timeout.total) ∨ c.EndsEarly acct tr) :
    c.Sound acct tr r ↔ c.InRange acct now timeout tr := by
  rw [TimedCall.Sound, TimedCall.InRange, and_iff_left hexact, and_iff_left hreply]
  exact h

theorem TimedCall.sound_iff {c : TimedCall B} {r : Except (Fault Error) c.Value}
    (h : (c.program acct now timeout).run.Run tr r) :
    c.Sound acct tr r ↔ c.InRange acct now timeout tr := by
  have hnot : ∀ {P : Prop}, P ↔ P ∨ False := (or_false _).symm.to_iff
  cases c with
  | getTime => exact getTime_sound_iff h
  | storeBlob card key value =>
    exact TimedCall.sound_iff_of_panics trivial trivial (storeBlob_panics h)
  | getGroupMembers groupKey =>
    exact TimedCall.sound_iff_of_panics trivial trivial
      ((withDeadline_bind_panics (fun _ => calm_pure _) h).trans hnot)
  | fetchBlob card key =>
    exact TimedCall.sound_iff_of_panics trivial trivial
      ((withDeadline_bind_panics (fun _ => calm_adapt _) h).trans hnot)
  | _ =>
    exact TimedCall.sound_iff_of_panics trivial trivial ((withDeadline_panics h).trans hnot)

end Runs

/-! ## Waiting -/

/-- Waiting does not panic, and ends once a pass comes at the deadline or later. -/
def OnlineSound (now : Timespec) (timeout : Duration) (passes : List OnlinePass) : Prop :=
  NativeClient.waitOnline now timeout passes ≠ some (.error .panic) ∧
    ((∃ p ∈ passes, now.total + timeout.total ≤ p.now.total) →
      ∃ r, NativeClient.waitOnline now timeout passes = some r)

/-- A pass at the deadline or later ends the loop. -/
theorem exists_waitUntil {deadline : Timespec} {passes : List OnlinePass}
    (h : ∃ p ∈ passes, deadline.total ≤ p.now.total) :
    ∃ r, waitUntil deadline passes = some r := by
  induction passes with
  | nil =>
    obtain ⟨p, hp, -⟩ := h
    cases hp
  | cons q passes ih =>
    unfold waitUntil
    split_ifs with honline hclosed hafter
    · exact ⟨_, rfl⟩
    · exact ⟨_, rfl⟩
    · exact ⟨_, rfl⟩
    · obtain ⟨p, hp, hle⟩ := h
      rcases List.mem_cons.1 hp with rfl | hp
      · exact absurd (Timespec.notAfter_iff.2 hle) hafter
      · exact ih ⟨p, hp, hle⟩

theorem onlineSound_iff {now : Timespec} {timeout : Duration} {passes : List OnlinePass} :
    OnlineSound now timeout passes ↔ Representable (now.total + timeout.total) := by
  unfold OnlineSound NativeClient.waitOnline
  rcases addOrPanic_cases now timeout with ⟨hrep, t, hok, ht⟩ | ⟨hrep, hpanic⟩
  · rw [hok, ← ht]
    refine ⟨fun _ => ht ▸ hrep, fun _ => ⟨fun hp => ?_, fun hpass => ?_⟩⟩
    · obtain ⟨r, -, hr⟩ := Option.map_eq_some_iff.1 hp
      cases r <;> cases hr
    · obtain ⟨r, hr⟩ := exists_waitUntil hpass
      exact ⟨_, Option.map_eq_some_iff.2 ⟨r, hr, rfl⟩⟩
  · rw [hpanic]
    exact ⟨fun hs => absurd rfl hs.1, fun hyes => absurd hyes hrep⟩

/-- The calls with a timeout return, and they panic, or get the time of the server wrong, exactly if
the deadline cannot be represented, and they get to compute it, or if the time of a reply cannot. -/
theorem timed_sound_iff (acct : Account B) (now : Timespec) (timeout : Duration) :
    (∀ (c : TimedCall B) (tr : Trace B) (r : Except (Fault Error) c.Value),
      (c.program acct now timeout).run.Run tr r →
        (c.Sound acct tr r ↔ c.InRange acct now timeout tr)) ∧
    (∀ (c : TimedCall B) (o : ∀ q, Reply B q), ∃ tr r,
      (c.program acct now timeout).run.Run tr r ∧ ∀ e ∈ tr, e.2 = o e.1) ∧
    ∀ passes, OnlineSound now timeout passes ↔ Representable (now.total + timeout.total) :=
  ⟨fun _ _ _ => TimedCall.sound_iff, fun c o => Prog.exists_run o (c.program acct now timeout).run,
    fun _ => onlineSound_iff⟩

/-! ### Replies to `get_time` -/

open Account

/-- The query for the time, answered with the bytes. -/
def timeTrace (body : Bytes) : Trace plain :=
  sentTrace 0 ⟨(), ()⟩ (request zeroId timeTarget (Plain.write ⟨none, [(0, 5)], []⟩)) none
    (.message { (default : Message) with flags := msgFlagNotBottle, body }) ++ [⟨.now, 0⟩]

theorem run_timeTrace (body : Bytes) :
    (query .native plainAccount timeTarget []).run.Run (timeTrace body) (.ok body) := by
  have hfinish : finishQuery plainAccount 0 none
      { (default : Message) with flags := msgFlagNotBottle, body } = { body := .ok body } := by
    have hbottle : ¬ msgFlagNotBottle &&& msgFlagNotBottle = 0 := by decide
    have herror : ¬ msgFlagNotBottle &&& msgFlagError ≠ 0 := by decide
    simp only [finishQuery, conclude, if_neg hbottle, if_neg herror]
    rfl
  refine ⟨_, _, rfl, _, _, rfl, _, _, rfl, _, _, rfl, _, _, rfl, 0, [], rfl, ?_⟩
  show ((finishQuery plainAccount 0 none _).finish).run.Run [] _
  rw [hfinish]
  exact ⟨rfl, rfl⟩

/-- A timeout of half a minute, at the start of the clock. -/
theorem representable_fromSecs :
    Representable (Timespec.zero.total + (Duration.fromSecs 30).total) := by
  rw [Timespec.total_zero]
  decide

theorem getTime_timeTrace (body : Bytes) :
    (NativeClient.getTime plainAccount Timespec.zero (Duration.fromSecs 30)).run.Run
      (timeTrace body) (parseServerTime body) := by
  refine Prog.run_run_bind.2 (.inl ⟨timeTrace body, body, [], ?_, ?_, rfl, rfl⟩)
  · exact (List.append_nil _).symm
  · exact withDeadline_run.2
      (.inl ⟨representable_fromSecs, Prog.run_run_adapt_ok.2 (run_timeTrace body)⟩)

/-- The reply says one second and two nanoseconds after the epoch. -/
theorem timed_sound_reply :
    TimedCall.Sound plainAccount .getTime (timeTrace [0, 0, 0, 0, 0, 0, 0, 1, 0, 0, 0, 2])
      (parseServerTime [0, 0, 0, 0, 0, 0, 0, 1, 0, 0, 0, 2]) := by
  refine ((timed_sound_iff plainAccount Timespec.zero (Duration.fromSecs 30)).1 .getTime _ _
    (getTime_timeTrace _)).2 ⟨.inl representable_fromSecs, fun buf hbuf => .inr ?_⟩
  obtain rfl := Except.ok.inj ((run_timeTrace _).unique hbuf)
  decide

/-- The longest timeout, and a reply of twelve bytes 255. -/
theorem not_timed_sound :
    (((TimedCall.query timeTarget []).program plainAccount Timespec.zero Duration.max).run.Run []
        (.error .panic) ∧
      ¬ TimedCall.Sound plainAccount (.query timeTarget []) [] (.error .panic)) ∧
    (TimedCall.getTime.program plainAccount Timespec.zero (Duration.fromSecs 30)).run.Run
        (timeTrace (List.replicate 12 255)) (.error .panic) ∧
      ¬ TimedCall.Sound plainAccount .getTime (timeTrace (List.replicate 12 255))
        (.error .panic) := by
  have hmax : ¬ Representable (Timespec.zero.total + Duration.max.total) := by
    rw [Timespec.total_zero]
    decide
  have hparse : parseServerTime (List.replicate 12 255) = .error .panic := rfl
  refine ⟨⟨withDeadline_run.2 (.inr ⟨hmax, rfl, rfl⟩), fun h => h.1 rfl⟩, ?_, fun h => h.1 rfl⟩
  exact hparse ▸ getTime_timeTrace _

end Spot
