import Spot.Conn.WasmLoop
import Spot.General.Runs
import Spot.General.SharedSlot

/-!
# The slot of the browser client's sink

A connection is usable once its sink is installed, until a send on it fails or it reaches its
`drop_sink`.  The slot is one for all connections, and whoever empties it does not look at what it
holds: `step_move` says which events empty it and which connections each of them takes out of use,
and `hasSink_iff` that the client always has the sink of a usable connection, if there is one,
along exactly those runs in which no event empties the slot while another connection is usable.
-/

namespace Spot

namespace LoopState

variable {V : Uvarint} {C : Ciborium} {s s' : LoopState V C} {a : LoopEvent} {c d : ℕ}

/-- The sink of connection `c` is installed, no send on it has failed, and it is not dropped. -/
def usable (s : LoopState V C) (c : ℕ) : Bool :=
  s.conns[c]?.any fun x => x.task.online && !x.failed

/-- The slot and the usable connections. -/
def shared (s : LoopState V C) : SharedSlot ℕ := ⟨s.sink, {c | s.usable c}⟩

/-- If any connection is usable, the slot holds the sink of one. -/
def HasSink (s : LoopState V C) : Prop :=
  (∃ c, s.usable c = true) → ∃ c, s.usable c = true ∧ s.sink = some c

/-- The connections an event takes out of use when it empties the slot, if it does: the one that
drops its sink, and the one on whose sink a send fails. -/
def clears (s : LoopState V C) : LoopEvent → Option (List ℕ)
  | .recv c a response =>
    match s.task? c with
    | some .reading =>
      match readRound V C s.closed response a, s.sink with
      | some .leave, _ => some [c]
      | some (.answer _), none => some [c]
      | _, _ => none
    | _ => none
  | .done c ok =>
    match s.task? c with
    | some (.installing f) => if ok then none else some [f.on]
    | some (.challenged d) => if ok then if s.closed then some [c] else none else some [c, d]
    | _ => none
  | .pushDone i ok =>
    match s.pushes[i]? with
    | some (some f) => if ok then none else some [f.on]
    | _ => none
  | _ => none

/-- If the event empties the slot, no connection stays usable. -/
def ClearsAlone (s : LoopState V C) (a : LoopEvent) : Prop :=
  ∀ l, s.clears a = some l → ∀ d, s.usable d = true → d ∈ l

theorem lt_length_of_usable (h : s.usable c = true) : c < s.conns.length := by
  by_contra hc
  rw [usable, List.getElem?_eq_none (not_lt.1 hc)] at h
  cases h

instance : DecidablePred (HasSink (V := V) (C := C)) := fun s =>
  decidable_of_iff ((∃ c ∈ List.range s.conns.length, s.usable c = true) →
      ∃ c ∈ List.range s.conns.length, s.usable c = true ∧ s.sink = some c) <| by
    have hrange : ∀ c, s.usable c = true → c ∈ List.range s.conns.length :=
      fun c hc => List.mem_range.2 (lt_length_of_usable hc)
    constructor
    · rintro h ⟨c, hc⟩
      obtain ⟨d, -, hd⟩ := h ⟨c, hrange c hc, hc⟩
      exact ⟨d, hd⟩
    · rintro h ⟨c, -, hc⟩
      obtain ⟨d, hd⟩ := h ⟨c, hc⟩
      exact ⟨d, hrange d hd.1, hd⟩

instance (s : LoopState V C) : DecidablePred s.ClearsAlone := fun a =>
  decidable_of_iff (∀ l ∈ s.clears a, ∀ d ∈ List.range s.conns.length, s.usable d = true → d ∈ l)
    ⟨fun h l hl d hd => h l hl d (List.mem_range.2 (lt_length_of_usable hd)) hd,
      fun h l hl d _ hd => h l hl d hd⟩

/-! ## What the operations do to the usable connections -/

theorem usable_modify {f : WasmConn V C → WasmConn V C} :
    ({ s with conns := s.conns.modify c f } : LoopState V C).usable d =
      if c = d then s.conns[d]?.any (fun x => (f x).task.online && !(f x).failed)
      else s.usable d := by
  unfold usable
  rw [List.getElem?_modify]
  by_cases h : c = d
  · simp only [if_pos h]
    cases s.conns[d]? <;> rfl
  · simp only [if_neg h]
    cases s.conns[d]? <;> rfl

theorem usable_setTask_of_online {t t' : ConnTask V C} (h : s.task? c = some t)
    (ht : t'.online = t.online) : (s.setTask c t').usable d = s.usable d := by
  rw [setTask, usable_modify]
  by_cases hc : c = d
  · subst hc
    obtain ⟨x, hx, rfl⟩ := Option.map_eq_some_iff.1 h
    rw [if_pos rfl, usable, hx, Option.any_some, Option.any_some, ht]
  · rw [if_neg hc]

theorem usable_setTask_of_offline {t : ConnTask V C} (ht : t.online = false) :
    (s.setTask c t).usable d = (s.usable d && d != c) := by
  rw [setTask, usable_modify]
  by_cases hc : c = d
  · subst hc
    simp only [ht, if_pos, bne_self_eq_false, Bool.and_false, Bool.false_and]
    cases s.conns[c]? <;> rfl
  · rw [if_neg hc, (bne_iff_ne).2 (Ne.symm hc), Bool.and_true]

theorem usable_fail : (s.fail c).usable d = (s.usable d && d != c) := by
  rw [fail, usable_modify]
  by_cases hc : c = d
  · subst hc
    simp only [if_pos, bne_self_eq_false, Bool.and_false, Bool.not_true]
    cases s.conns[c]? <;> rfl
  · rw [if_neg hc, (bne_iff_ne).2 (Ne.symm hc), Bool.and_true]

theorem flushOut_conns : s.flushOut.1.conns = s.conns := by
  unfold flushOut
  split <;> rfl

theorem flushOut_sink : s.flushOut.1.sink = s.sink := by
  unfold flushOut
  split <;> simp [*]

theorem shared_flushOut : s.flushOut.1.shared = s.shared := by
  simp only [shared, usable, flushOut_conns, flushOut_sink]

theorem online_afterFlush (f : Option (Sending V C)) : (afterFlush f).online = true := by
  cases f <;> rfl

/-! ## The same, with the slot -/

theorem shared_setTask_of_online {t t' : ConnTask V C} (h : s.task? c = some t)
    (ht : t'.online = t.online) : (s.setTask c t').shared = s.shared := by
  simp only [shared, usable_setTask_of_online h ht]
  rfl

theorem shared_setSink (h : s.task? c = some .handshaking) :
    (s.setSink c).shared = ⟨some c, insert c s.shared.usable⟩ := by
  obtain ⟨x, hx, -⟩ := Option.map_eq_some_iff.1 h
  have hu : ∀ d, (s.setSink c).usable d = true ↔ d = c ∨ s.usable d = true := by
    intro d
    rw [setSink, usable_modify]
    have hs : ({ s with sink := some c } : LoopState V C).flushOut.1.usable d = s.usable d := by
      simp only [usable, flushOut_conns]
    by_cases hc : c = d
    · subst hc
      rw [if_pos rfl, flushOut_conns, hx]
      simp [online_afterFlush]
    · rw [if_neg hc, hs]
      simp [Ne.symm hc]
  have hslot : (s.setSink c).sink = some c := flushOut_sink
  rw [shared, hslot]
  congr 1
  ext d
  exact hu d

theorem shared_dropSink : (s.dropSink c).shared = ⟨none, s.shared.usable \ {c}⟩ := by
  have hu : ∀ d, (s.dropSink c).usable d = (s.usable d && d != c) :=
    fun d => usable_setTask_of_offline (s := { s with sink := none }) rfl
  rw [shared]
  congr 1
  ext d
  simp [hu, shared]

theorem shared_flushSent {f : Sending V C} {ok : Bool} :
    (s.flushSent f ok).1.shared =
      if ok then s.shared else ⟨none, s.shared.usable \ {f.on}⟩ := by
  cases ok with
  | true => exact shared_flushOut
  | false =>
    have hu : ∀ d, (s.flushSent f false).1.usable d = (s.usable d && d != f.on) :=
      fun d => usable_fail (s := { s with outq := f.packet.m :: s.outq, sink := none })
    rw [shared]
    congr 1
    ext d
    simp [hu, shared]

theorem shared_fail_dropSink :
    ((s.fail d).dropSink c).shared = ⟨none, s.shared.usable \ {c, d}⟩ := by
  rw [shared_dropSink]
  congr 1
  ext e
  simp [shared, usable_fail, and_assoc, not_or, and_comm]

theorem task?_fail : (s.fail d).task? c = s.task? c := by
  rw [task?, task?, fail, List.getElem?_modify]
  cases s.conns[c]? with
  | none => rfl
  | some x => by_cases hc : d = c <;> simp [hc]

theorem task?_flushSent {f : Sending V C} {ok : Bool} {t : ConnTask V C} (h : s.task? c = some t) :
    (s.flushSent f ok).1.task? c = some t := by
  cases ok with
  | true => rw [← h, task?, task?, flushSent, if_pos rfl, flushOut_conns]
  | false => exact (task?_fail (s := { s with outq := f.packet.m :: s.outq, sink := none })).trans h

/-! ## Events and runs -/

/-- The connections an event takes out of use, as a set. -/
def clearsSet (s : LoopState V C) (a : LoopEvent) : Option (Set ℕ) :=
  (s.clears a).map fun l => {d | d ∈ l}

/-- The slot is not emptied. -/
theorem move_of_shared_eq (hc : s.clears a = none) (h : s'.shared = s.shared) :
    SharedSlot.Move (s.clearsSet a) s.shared s'.shared := by
  rw [clearsSet, hc, h]
  exact .stay _

/-- The slot is emptied, and the connections in `l` are taken out of use. -/
theorem move_of_clears {l : List ℕ} (hc : s.clears a = some l)
    (h : s'.shared = ⟨none, s.shared.usable \ {d | d ∈ l}⟩) :
    SharedSlot.Move (s.clearsSet a) s.shared s'.shared := by
  rw [clearsSet, hc, h]
  exact .clear _ _

theorem shared_dial : ({ s with conns := s.conns ++ [{}] } : LoopState V C).shared = s.shared := by
  have hu : ∀ d, ({ s with conns := s.conns ++ [{}] } : LoopState V C).usable d = s.usable d := by
    intro d
    unfold usable
    rcases lt_trichotomy d s.conns.length with h | h | h
    · rw [List.getElem?_append_left h]
    · rw [List.getElem?_append_right h.ge, h, Nat.sub_self, List.getElem?_eq_none le_rfl]
      rfl
    · rw [List.getElem?_append_right h.le, List.getElem?_eq_none h.le, List.getElem?_eq_none]
      rw [List.length_singleton]
      omega
  simp only [shared, hu]

theorem recv_move {ar : Arrival} {response : Option Bytes}
    (h : s.step (.recv c ar response) = some s') :
    SharedSlot.Move (s.clearsSet (.recv c ar response)) s.shared s'.shared := by
  rcases step_recv h with ⟨ht, r, -, rfl⟩ | ⟨ht, r, hr, rfl⟩
  · have hc : s.clears (.recv c ar response) = none := by simp only [clears, ht]
    cases r with
    | stay => exact move_of_shared_eq hc rfl
    | ready =>
      rw [clearsSet, hc]
      show SharedSlot.Move none s.shared (s.setSink c).shared
      rw [shared_setSink ht]
      exact .install _ c
    | answer buf => exact move_of_shared_eq hc (shared_setTask_of_online (t := .handshaking) ht rfl)
    | leave => exact move_of_shared_eq hc (shared_setTask_of_online ht rfl)
  · cases r with
    | stay => exact move_of_shared_eq (by simp [clears, ht, hr]) rfl
    | ready => exact move_of_shared_eq (by simp [clears, ht, hr]) rfl
    | answer buf =>
      cases hs : s.sink with
      | some d =>
        apply move_of_shared_eq (by simp [clears, ht, hr, hs])
        rw [reactRead, hs]
        exact shared_setTask_of_online (s := s.logAnswer c (some d) buf) ht rfl
      | none =>
        apply move_of_clears (l := [c]) (by simp [clears, ht, hr, hs])
        rw [reactRead, hs]
        simp only [shared_dropSink, List.mem_singleton]
        rfl
    | leave =>
      apply move_of_clears (l := [c]) (by simp [clears, ht, hr])
      rw [reactRead, shared_dropSink]
      simp only [List.mem_singleton]
      rfl

theorem done_move {ok : Bool} (h : s.step (.done c ok) = some s') :
    SharedSlot.Move (s.clearsSet (.done c ok)) s.shared s'.shared := by
  rcases step_done h with ⟨ht, rfl⟩ | ⟨f, ht, rfl⟩ | ⟨d, ht, hd⟩
  · apply move_of_shared_eq (by simp only [clears, ht])
    apply shared_setTask_of_online ht
    cases ok <;> rfl
  · have hset : ((s.flushSent f ok).1.setTask c (afterFlush (s.flushSent f ok).2)).shared =
        (s.flushSent f ok).1.shared :=
      shared_setTask_of_online (task?_flushSent ht) (online_afterFlush _)
    cases ok with
    | true =>
      apply move_of_shared_eq (by simp [clears, ht])
      rw [hset, shared_flushSent, if_pos rfl]
    | false =>
      apply move_of_clears (l := [f.on]) (by simp [clears, ht])
      rw [hset, shared_flushSent]
      simp
  · rcases hd with ⟨rfl, hclosed, rfl⟩ | ⟨rfl, hclosed, rfl⟩ | ⟨rfl, rfl⟩
    · apply move_of_clears (l := [c]) (by simp [clears, ht, hclosed])
      rw [shared_dropSink]
      simp
    · exact move_of_shared_eq (by simp [clears, ht, hclosed]) (shared_setTask_of_online ht rfl)
    · apply move_of_clears (l := [c, d]) (by simp [clears, ht])
      rw [shared_fail_dropSink]
      congr 2
      ext e
      simp

/-- Each step is a move of the shared slot. -/
theorem step_move (h : s.step a = some s') :
    SharedSlot.Move (s.clearsSet a) s.shared s'.shared := by
  cases a with
  | dial =>
    obtain rfl := Option.some.inj h
    exact move_of_shared_eq rfl shared_dial
  | recv c ar response => exact recv_move h
  | done c ok => exact done_move h
  | push msg =>
    obtain rfl := Option.some.inj h
    exact move_of_shared_eq rfl shared_flushOut
  | pushDone i ok =>
    obtain ⟨f, hf, rfl⟩ := step_pushDone h
    have hs : (s.flushSent f ok).1.shared = _ := shared_flushSent
    cases ok with
    | true => exact move_of_shared_eq (by simp [clears, hf]) (hs.trans (if_pos rfl))
    | false =>
      apply move_of_clears (l := [f.on]) (by simp [clears, hf])
      refine hs.trans ?_
      simp
  | close =>
    obtain rfl := Option.some.inj h
    exact move_of_shared_eq rfl rfl

theorem hasSink_iff_held : s.HasSink ↔ s.shared.Held := Iff.rfl

theorem clearsAlone_iff : s.ClearsAlone a ↔ ∀ l, s.clearsSet a = some l → s.shared.usable ⊆ l := by
  unfold ClearsAlone clearsSet
  cases s.clears a with
  | none => simp
  | some l => simp [Set.subset_def, shared]

/-- Along a run of the event loop, the slot holds the sink of a usable connection whenever there is
one, exactly when no event of the run empties the slot while a connection stays usable. -/
theorem hasSink_iff {as : List LoopEvent} (hr : run step ({} : LoopState V C) as = some s) :
    Throughout step HasSink ({} : LoopState V C) as ↔
      Guarded step ClearsAlone ({} : LoopState V C) as := by
  have held : ∀ s a (s' : LoopState V C), HasSink s → step s a = some s' →
      (HasSink s' ↔ s.ClearsAlone a) := by
    intro s a s' hs hstep
    rw [hasSink_iff_held, clearsAlone_iff]
    exact (step_move hstep).held_iff hs
  have start : ({} : LoopState V C).HasSink := by
    rintro ⟨c, hc⟩
    simp [usable] at hc
  exact throughout_iff_guarded (fun s a s' hs hG hstep => (held s a s' hs hstep).2 hG)
    (fun s a s' hs hstep hs' => (held s a s' hs hstep).1 hs') start hr

/-- A connection comes and goes, a message is queued, and another connection sends it. -/
def successionRun : List LoopEvent :=
  [.dial, .recv 0 (.packet readyPacket) none, .recv 0 .closed none, .push default, .dial,
    .recv 1 (.packet readyPacket) none, .done 1 true]

theorem hasSink_iff_successionRun :
    Throughout step HasSink ({} : LoopState leb128 bareCiborium) successionRun := by
  have hr : run step ({} : LoopState leb128 bareCiborium) successionRun = some _ := rfl
  exact (hasSink_iff hr).2 (by decide)

/-- Two connections are online, and the older one is closed by the server. -/
def overlapRun : List LoopEvent :=
  [.dial, .dial, .recv 0 (.packet readyPacket) none, .recv 1 (.packet readyPacket) none,
    .recv 0 .closed none]

theorem not_hasSink_overlapRun :
    ¬ ∀ as (s : LoopState leb128 bareCiborium), run step {} as = some s → s.HasSink := by
  intro h
  exact absurd (h overlapRun _ rfl) (by decide)

end LoopState

end Spot
