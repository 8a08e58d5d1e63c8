import Spot.Conn.Threads

/-!
# Giving up on a host

What the attempts of one connection thread do to its failure counter.  Whether a session counts as
healthy is decided by the time from the end of the dial to the end of `handle`, which includes the
handshake; `Session.Lasted` is about the time from the end of the handshake.  `attempt` is one turn
of the loop, and `abandons_iff` says that a host is given up as it should if and only if no attempt
is measured as healthy whose session did not last.
-/

namespace Spot

/-- How long a connection must stay online, in seconds. -/
def connHealthyAfter : ℕ := 30

/-- The nanoseconds of a second. -/
def second : ℕ := 10 ^ 9

/-- A session: when the dial ended, the handshake was completed, the connection went offline and
`handle` returned, in nanoseconds, and the Unix time at the first and the last of these. -/
structure Session where
  start : ℕ
  ready : ℕ
  dropped : ℕ
  returned : ℕ
  startUnix : ℤ
  returnedUnix : ℤ
  start_le : start ≤ ready
  ready_le : ready ≤ dropped
  dropped_le : dropped ≤ returned

/-- The test of the loop after a session: the time elapsed on native, whole seconds of the clock in
the browser. -/
def Session.healthy (t : Platform) (x : Session) : Bool :=
  match t with
  | .native => connHealthyAfter * second ≤ x.returned - x.start
  | .wasm => (connHealthyAfter : ℤ) ≤ x.returnedUnix - x.startUnix

/-- The session stayed online long enough after its handshake. -/
def Session.Lasted (x : Session) : Prop := connHealthyAfter * second ≤ x.dropped - x.ready

/-- How an attempt ends: the dial fails, `handle` returns before the connection is online, or there
is a session. -/
inductive Attempt
  | dialFailed
  | handshakeFailed
  | session (x : Session)

/-- The attempt resets the counter. -/
def Attempt.healthy (t : Platform) : Attempt → Bool
  | session x => x.healthy t
  | _ => false

/-- The attempt is a session that lasted. -/
def Attempt.Lasted : Attempt → Prop
  | session x => x.Lasted
  | _ => False

/-- One turn of the loop. -/
def attempt (t : Platform) : ThreadPhase → Attempt → Option ThreadPhase
  | .looping fails, a =>
    some (if a.healthy t then .looping 0 else Lifecycle.afterFailure fails)
  | _, _ => none

/-- The counter is reset only by sessions that lasted; a host with no such session is given up
after at most `connMaxFail + 1` attempts. -/
structure Abandons (t : Platform) (as : List Attempt) : Prop where
  resets : Guarded (attempt t) (fun phase a => attempt t phase a = some (.looping 0) → a.Lasted)
    (.looping 0) as
  length_le : (∀ a ∈ as, ¬ a.Lasted) → as.length ≤ connMaxFail + 1
  left : (∀ a ∈ as, ¬ a.Lasted) → as.length = connMaxFail + 1 →
    run (attempt t) (.looping 0) as = some .left

section

variable {t : Platform} {as : List Attempt} {a : Attempt} {fails : ℕ} {phase : ThreadPhase}

theorem afterFailure_ne_zero (fails : ℕ) : Lifecycle.afterFailure fails ≠ .looping 0 := by
  unfold Lifecycle.afterFailure
  split_ifs <;> simp

/-- An attempt resets the counter if and only if it is measured as healthy. -/
theorem attempt_eq_reset : attempt t (.looping fails) a = some (.looping 0) ↔
    a.healthy t = true := by
  rw [attempt, Option.some.injEq]
  split_ifs with h
  · exact iff_of_true rfl h
  · exact iff_of_false (afterFailure_ne_zero fails) h

theorem attempt_eq_some (h : attempt t phase a = some phase') :
    ∃ fails, phase = .looping fails := by
  cases phase with
  | looping fails => exact ⟨fails, rfl⟩
  | _ => cases h

/-- As long as no attempt is healthy the counter counts them, up to the end of the loop. -/
theorem run_unhealthy (hfails : fails ≤ connMaxFail) (hun : ∀ a ∈ as, a.healthy t = false)
    (h : run (attempt t) (.looping fails) as = some phase) :
    fails + as.length ≤ connMaxFail + 1 ∧
      (fails + as.length = connMaxFail + 1 → phase = .left) := by
  induction as generalizing fails with
  | nil =>
    rw [List.length_nil]
    exact ⟨by omega, by omega⟩
  | cons a as ih =>
    obtain ⟨phase', ha, hrun⟩ := run_cons_eq_some.1 h
    rw [attempt, hun a List.mem_cons_self, Option.some.injEq] at ha
    have hun' : ∀ b ∈ as, b.healthy t = false := fun b hb => hun b (List.mem_cons_of_mem a hb)
    rw [List.length_cons]
    by_cases hlast : connMaxFail < fails + 1
    · -- the thread leaves its loop, and there is no further attempt
      rw [Lifecycle.afterFailure, if_pos hlast] at ha
      subst ha
      cases as with
      | nil =>
        obtain rfl := Option.some.inj hrun
        exact ⟨by simp; omega, fun _ => rfl⟩
      | cons b as => cases hrun
    · rw [Lifecycle.afterFailure, if_neg hlast] at ha
      subst ha
      have hih := ih (by omega) hun' hrun
      exact ⟨by omega, fun hlen => hih.2 (by omega)⟩

/-- In a run the counter is reset only by sessions that lasted if all that are measured as healthy
did. -/
theorem guarded_resets_iff (h : run (attempt t) phase as = some phase') :
    Guarded (attempt t) (fun phase a => attempt t phase a = some (.looping 0) → a.Lasted) phase as ↔
      ∀ a ∈ as, a.healthy t = true → a.Lasted := by
  constructor
  · intro hg
    induction as generalizing phase with
    | nil => exact fun a ha => absurd ha List.not_mem_nil
    | cons b as ih =>
      obtain ⟨phase₁, hb, hrun⟩ := run_cons_eq_some.1 h
      obtain ⟨fails, rfl⟩ := attempt_eq_some hb
      intro a ha hhealthy
      rcases List.mem_cons.1 ha with rfl | ha
      · exact hg.1 (attempt_eq_reset.2 hhealthy)
      · exact ih hrun (hg.2 phase₁ hb) a ha hhealthy
  · intro hall
    apply Guarded.of_forall
    intro a ha phase hreset
    obtain ⟨fails, rfl⟩ := attempt_eq_some hreset
    exact hall a ha (attempt_eq_reset.1 hreset)

/-- A host is given up as it should if and only if no attempt is measured as healthy whose session
did not last. -/
theorem abandons_iff (h : run (attempt t) (.looping 0) as = some phase) :
    Abandons t as ↔ ∀ a ∈ as, a.healthy t = true → a.Lasted := by
  constructor
  · exact fun hab => (guarded_resets_iff h).1 hab.resets
  · intro hall
    have hun : (∀ a ∈ as, ¬ a.Lasted) → ∀ a ∈ as, a.healthy t = false := fun hshort a ha => by
      by_contra hhealthy
      exact hshort a ha (hall a ha (by simpa using hhealthy))
    refine ⟨(guarded_resets_iff h).2 hall, fun hshort => ?_, fun hshort hlen => ?_⟩
    · have hle := (run_unhealthy (Nat.zero_le _) (hun hshort) h).1
      omega
    · have hleft := (run_unhealthy (Nat.zero_le _) (hun hshort) h).2 (by omega)
      rw [h, hleft]

end

/-! ## A host that is slow to authenticate -/

/-- A session of one second, after a handshake of 40. -/
def slowSession : Session where
  start := 0
  ready := 40 * second
  dropped := 41 * second
  returned := 41 * second
  startUnix := 0
  returnedUnix := 41
  start_le := by decide
  ready_le := by decide
  dropped_le := by decide

/-- A host with such sessions is never given up. -/
theorem run_slowSession (t : Platform) (n : ℕ) :
    run (attempt t) (.looping 0) (List.replicate n (.session slowSession)) =
      some (.looping 0) := by
  have hreset : attempt t (.looping 0) (.session slowSession) = some (.looping 0) :=
    attempt_eq_reset.2 (by cases t <;> decide)
  induction n with
  | zero => rfl
  | succ n ih => rw [List.replicate_succ, run_cons, hreset, Option.bind_some, ih]

/-- Neither loop gives up a host whose sessions of one second follow handshakes of 40. -/
theorem not_abandons_slowSession :
    ¬ ∀ (t : Platform) (as : List Attempt) (phase : ThreadPhase),
      run (attempt t) (.looping 0) as = some phase → Abandons t as := by
  intro h
  have hle := (h .native _ _ (run_slowSession .native 12)).length_le fun a ha => ?_
  · rw [List.length_replicate] at hle
    exact absurd hle (by decide)
  · obtain rfl := List.eq_of_mem_replicate ha
    show ¬ slowSession.Lasted
    unfold Session.Lasted
    decide

/-- A session of a minute, after a handshake of one second. -/
def longSession : Session where
  start := 0
  ready := second
  dropped := 61 * second
  returned := 61 * second
  startUnix := 0
  returnedUnix := 61
  start_le := by decide
  ready_le := by decide
  dropped_le := by decide

theorem abandons_longSession : Abandons .native [.dialFailed, .session longSession] := by
  have hrun : run (attempt .native) (.looping 0) [.dialFailed, .session longSession] =
      some (.looping 0) := rfl
  refine (abandons_iff hrun).2 fun a ha hhealthy => ?_
  rcases List.mem_cons.1 ha with rfl | ha
  · cases hhealthy
  · obtain rfl := List.mem_singleton.1 ha
    show longSession.Lasted
    unfold Session.Lasted
    decide

end Spot
