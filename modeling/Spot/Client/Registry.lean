import Spot.Client.Laws
import Spot.Client.State
import Spot.General.Registry
import Spot.General.Runs

/-!
# Who owns a handler

Handlers are stored by name, and the drop of a packet connection removes what is stored under the
connection's name.  `registry_iff`: along a run of registrations and drops, what is stored under
each name is the registration in force there (`Latest`), exactly if no packet connection is dropped
while another registration holds its name.
-/

namespace Spot

/-- What is done with handlers and packet connections. -/
inductive HandlerEvent
  | setHandler (name : Text) (f : Option ℕ)
  | listenPacket (name : Text)
  | dropConn (chan : ℕ)

/-- What is shared, and the history of what was done with it. -/
structure HandlerHistory (B : Bottlers) where
  shared : Shared B
  ops : List (RegistryOp Text Handler) := []

variable {B : Bottlers}

namespace HandlerHistory

/-- A client that was built with these handlers. -/
def fresh (B : Bottlers) (start : AList fun _ : Text => Handler) : HandlerHistory B :=
  { shared := { handlers := start } }

/-- One operation; a packet connection is dropped once. -/
def step (s : HandlerHistory B) : HandlerEvent → Option (HandlerHistory B)
  | .setHandler name f =>
    let op := match f with
      | some f => .put name (.user f)
      | none => .remove name
    some { shared := s.shared.setHandler name f, ops := s.ops ++ [op] }
  | .listenPacket name =>
    some { shared := s.shared.listenPacket name
           ops := s.ops ++ [.put name (.packet s.shared.conns.length)] }
  | .dropConn chan =>
    s.shared.conns[chan]?.bind fun c =>
      if c.live then (s.shared.dropConn chan).map fun shared =>
        { shared, ops := s.ops ++ [.retire c.name (.packet chan)] }
      else none

/-- Under each name the registration in force is stored, and under the others nothing. -/
def Agrees (start : AList fun _ : Text => Handler) (s : HandlerHistory B) : Prop :=
  ∀ name h, s.shared.handlers.lookup name = some h ↔ Latest start.lookup s.ops name h

/-- The packet connection that is dropped holds its name, or nothing does. -/
def DropsOwn (s : HandlerHistory B) : HandlerEvent → Prop
  | .dropConn chan => ∀ c ∈ s.shared.conns[chan]?, ∀ h ∈ s.shared.handlers.lookup c.name,
      h = .packet chan
  | _ => True

instance (s : HandlerHistory B) : DecidablePred s.DropsOwn
  | .dropConn _ => inferInstanceAs (Decidable (∀ c ∈ _, ∀ h ∈ _, _))
  | .setHandler _ _ | .listenPacket _ => inferInstanceAs (Decidable True)

section Steps

variable {start : AList fun _ : Text => Handler} {s s' : HandlerHistory B} {a : HandlerEvent}

theorem dropConn_eq_some {chan : ℕ} (h : s.step (.dropConn chan) = some s') :
    ∃ c, s.shared.conns[chan]? = some c ∧
      s'.shared.handlers = s.shared.handlers.erase c.name ∧
      s'.ops = s.ops ++ [.retire c.name (.packet chan)] := by
  obtain ⟨c, hc, h⟩ := Option.bind_eq_some_iff.1 h
  split at h
  · obtain ⟨shared, hdrop, rfl⟩ := Option.map_eq_some_iff.1 h
    obtain ⟨c', hc', rfl⟩ := Shared.dropConn_eq_some hdrop
    obtain rfl := Option.some.inj (hc.symm.trans hc')
    exact ⟨c, hc, rfl, rfl⟩
  · cases h

/-- A registration. -/
theorem agrees_put {name : Text} {h : Handler} (hs : s.Agrees start)
    (hhandlers : s'.shared.handlers = s.shared.handlers.insert name h)
    (hops : s'.ops = s.ops ++ [.put name h]) : s'.Agrees start := by
  intro n h'
  rw [hhandlers, hops, latest_put, ← hs]
  by_cases hn : name = n
  · subst hn
    rw [AList.lookup_insert]
    simp
  · rw [AList.lookup_insert_ne (Ne.symm hn)]
    simp [hn]

/-- The clearing of a name. -/
theorem agrees_remove {name : Text} (hs : s.Agrees start)
    (hhandlers : s'.shared.handlers = s.shared.handlers.erase name)
    (hops : s'.ops = s.ops ++ [.remove name]) : s'.Agrees start := by
  intro n h'
  rw [hhandlers, hops, latest_remove, ← hs]
  by_cases hn : name = n
  · subst hn
    rw [AList.lookup_erase]
    simp
  · rw [AList.lookup_erase_ne (Ne.symm hn)]
    simp [hn]

/-- The end of a registration, when the name is cleared. -/
theorem agrees_retire {name : Text} {h : Handler} (hs : s.Agrees start)
    (hhandlers : s'.shared.handlers = s.shared.handlers.erase name)
    (hops : s'.ops = s.ops ++ [.retire name h]) :
    s'.Agrees start ↔ ∀ h' ∈ s.shared.handlers.lookup name, h' = h := by
  constructor
  · intro hs' h' hh'
    by_contra hne
    have hlatest : Latest start.lookup s'.ops name h' := by
      rw [hops, latest_retire, ← hs]
      exact ⟨fun heq => hne heq.2.symm, hh'⟩
    rw [← hs', hhandlers, AList.lookup_erase] at hlatest
    cases hlatest
  · intro hown n h'
    rw [hhandlers, hops, latest_retire, ← hs]
    by_cases hn : name = n
    · subst hn
      rw [AList.lookup_erase]
      refine iff_of_false (fun hf => by cases hf) fun hf => hf.1 ⟨rfl, (hown h' hf.2).symm⟩
    · rw [AList.lookup_erase_ne (Ne.symm hn)]
      simp [hn]

/-- The agreement survives an operation exactly if it is not the drop of a packet connection whose
name another registration holds. -/
theorem agrees_step_iff (hs : s.Agrees start) (h : s.step a = some s') :
    s'.Agrees start ↔ s.DropsOwn a := by
  cases a with
  | setHandler name f =>
    obtain rfl := Option.some.inj h
    refine iff_of_true ?_ trivial
    cases f with
    | some f => exact agrees_put hs rfl rfl
    | none => exact agrees_remove hs rfl rfl
  | listenPacket name =>
    obtain rfl := Option.some.inj h
    exact iff_of_true (agrees_put hs rfl rfl) trivial
  | dropConn chan =>
    obtain ⟨c, hc, hhandlers, hops⟩ := dropConn_eq_some h
    rw [agrees_retire hs hhandlers hops, DropsOwn, hc]
    simp

end Steps

/-- Along a run of registrations and drops on a client built with any handlers, the handler stored
under each name is the last that was registered there and has been neither replaced, nor removed,
nor ended by the drop of its own packet connection, exactly if every packet connection that is
dropped holds its name or finds nothing there. -/
theorem registry_iff {start : AList fun _ : Text => Handler} {as : List HandlerEvent}
    {s : HandlerHistory B} (hr : run step (fresh B start) as = some s) :
    Throughout step (Agrees start) (fresh B start) as ↔
      Guarded step DropsOwn (fresh B start) as := by
  have hstart : (fresh B start).Agrees start := fun n h =>
    (latest_nil : Latest (fun n => start.lookup n) [] n h ↔ _).symm
  exact throughout_iff_guarded (fun _ _ _ hs hG h => (agrees_step_iff hs h).2 hG)
    (fun _ _ _ hs h hs' => (agrees_step_iff hs h).1 hs') hstart hr

/-- A packet connection is replaced by a handler, which is removed before the drop; another one is
dropped while it holds its name. -/
def orderlyRun : List HandlerEvent :=
  [.listenPacket "in".toList, .setHandler "in".toList (some 0), .setHandler "in".toList none,
    .dropConn 0, .listenPacket "in".toList, .dropConn 1]

theorem registry_iff_orderlyRun :
    Throughout step (Agrees ∅) (fresh plain ∅) orderlyRun := by
  have hr : run step (fresh plain ∅) orderlyRun = some _ := rfl
  exact (registry_iff hr).2 (by decide)

/-- A name is listened to again before the first connection is dropped: nothing is left of the
second. -/
theorem not_agrees_relisten :
    ¬ ∀ as s, run step (fresh plain ∅) as = some s → s.Agrees ∅ := by
  intro h
  let name := "in".toList
  have hagrees := h [.listenPacket name, .listenPacket name, .dropConn 0] _ rfl name (.packet 1)
  have hlatest : Latest (fun n => AList.lookup n (∅ : AList fun _ : Text => Handler))
      [.put name (.packet 0), .put name (.packet 1), .retire name (.packet 0)] name
      (.packet 1) := by
    refine .inl ⟨[.put name (.packet 0)], [.retire name (.packet 0)], rfl, fun op hop => ?_⟩
    obtain rfl := List.mem_singleton.1 hop
    rintro ⟨-, heq⟩
    cases heq
  cases hagrees.2 hlatest

end HandlerHistory

end Spot
