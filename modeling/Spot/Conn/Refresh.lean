import Spot.Conn.Bookkeeping

/-!
# Looking for servers again

The main thread compares `conn_cnt` with `min_conn`, which is taken from the last reply and clamped
to the number of its hosts.  `keeps_looking`: as long as every reply that is accepted names a host,
the test is true in every state without connection threads; after one that does not, the test is
false for good and `run_connect` is never called again.
-/

namespace Spot

namespace Lifecycle

/-- No connection thread exists and none is being started. -/
def NoThread (s : Lifecycle) : Prop := s.alive = 0 ∧ s.spawning = none

/-- Unless the client is closed, the test is true when there is no connection thread. -/
def KeepsLooking (s : Lifecycle) : Prop :=
  s.closed = false → s.NoThread → s.wantsMore = true

/-- A reply, if it is accepted, names a host. -/
def FindsHosts (J : SerdeJson) (_ : Lifecycle) : LifecycleEvent → Prop
  | .reply r => ∀ hosts minConn, getHosts J r = .ok (hosts, minConn) → hosts ≠ []
  | _ => True

/-- The main thread is in its maintenance loop. -/
def Waiting (s : Lifecycle) : Prop := ∃ tick, s.main = .checking tick ∨ s.main = .sleeping tick

section Steps

variable {t : Platform} {J : SerdeJson} {s s' : Lifecycle} {a : LifecycleEvent}

theorem storing_ne_of_idle {main : MainPhase} (h : main.Idle) (hosts : List Text)
    (minConn : UInt32) : main ≠ .storing hosts minConn := by
  rintro rfl
  exact h

/-- The main thread stores a threshold, or leaves it; it calls `run_connect` after a test that is
true. -/
theorem mainStep_minConn (h : s.mainStep t = some s') :
    (∃ hosts minConn, s.main = .storing hosts minConn ∧ s'.main = .connecting hosts ∧
        s'.minConn = minConn) ∨
      s'.minConn = s.minConn ∧ (∀ hosts minConn, s'.main ≠ .storing hosts minConn) ∧
        (s'.main = .fetching → s.wantsMore = true) := by
  rcases mainStep_eq_some h with ⟨hosts, minConn, hmain, rfl⟩ | ⟨host, hosts, -, -, rfl⟩ |
    ⟨host, hosts, -, -, rfl⟩ | ⟨main, rfl, -, hidle, hfetch⟩
  · exact .inl ⟨hosts, minConn, hmain, rfl, rfl⟩
  · exact .inr ⟨rfl, fun _ _ => MainPhase.noConfusion, MainPhase.noConfusion⟩
  · exact .inr ⟨rfl, fun _ _ => MainPhase.noConfusion, MainPhase.noConfusion⟩
  · exact .inr ⟨rfl, storing_ne_of_idle hidle, hfetch⟩

/-! ### Replies with hosts -/

/-- At least one connection is wanted, now and after the next store. -/
structure Wanting (s : Lifecycle) : Prop where
  minConn : 0 < s.minConn
  storing : ∀ hosts minConn, s.main = .storing hosts minConn → 0 < minConn

theorem Wanting.step (hw : s.Wanting) (ha : FindsHosts J s a) (h : s.step t J a = some s') :
    s'.Wanting := by
  cases a with
  | reply r =>
    obtain ⟨-, main, rfl, hcases⟩ := reply_eq_some h
    refine ⟨hw.minConn, fun hosts minConn hmain => ?_⟩
    rcases hcases with ⟨e, -, rfl⟩ | ⟨hosts', minConn', hok, rfl⟩
    · cases hmain
    · obtain ⟨-, rfl⟩ := MainPhase.storing.inj hmain
      exact clampMinConn_pos.2 (ha hosts' minConn' hok)
  | main =>
    rcases mainStep_minConn h with ⟨hosts, minConn, hmain, hmain', hmin⟩ | ⟨hmin, hst, -⟩
    · refine ⟨hmin ▸ hw.storing hosts minConn hmain, fun hosts' minConn' hst => ?_⟩
      rw [hmain'] at hst
      cases hst
    · exact ⟨hmin ▸ hw.minConn, fun hosts minConn hmain => absurd hmain (hst hosts minConn)⟩
  | turn i ok =>
    obtain ⟨x, -, ht⟩ := Option.bind_eq_some_iff.1 h
    obtain ⟨phase, hturned⟩ := turn_eq_some ht
    refine ⟨hturned.minConn ▸ hw.minConn, ?_⟩
    rw [hturned.main]
    exact hw.storing
  | close =>
    obtain rfl := Option.some.inj h
    exact ⟨hw.minConn, hw.storing⟩

theorem Wanting.keepsLooking (hw : s.Wanting) (hs : s.Sound) : s.KeepsLooking := by
  rintro - ⟨halive, -⟩
  have hcount : s.counted = 0 := Nat.le_zero.1 (halive ▸ counted_le_alive)
  have hconn : s.connCnt = 0 := by rw [hs.connCnt, hcount]; rfl
  rw [wantsMore, hconn]
  exact decide_eq_true hw.minConn

/-! ### A reply without hosts -/

/-- No connection is wanted, and `run_connect` is not about to change that. -/
def Stuck (s : Lifecycle) : Prop :=
  s.main = .storing [] 0 ∨
    s.minConn = 0 ∧ s.main ≠ .fetching ∧ ∀ hosts minConn, s.main ≠ .storing hosts minConn

theorem wantsMore_eq_false (h : s.minConn = 0) : s.wantsMore = false := by
  rw [wantsMore, h]
  exact decide_eq_false UInt32.not_lt_zero

theorem clampMinConn_nil (minConn : UInt32) : clampMinConn (dialled []) minConn = 0 := by
  by_contra hne
  exact clampMinConn_pos.1 (UInt32.pos_iff_ne_zero.2 hne) rfl

theorem Stuck.step (hs : s.Stuck) (h : s.step t J a = some s') : s'.Stuck := by
  cases a with
  | reply r =>
    obtain ⟨hmain, -⟩ := reply_eq_some h
    rcases hs with hs | ⟨-, hs, -⟩
    · rw [hs] at hmain
      cases hmain
    · exact absurd hmain hs
  | main =>
    rcases mainStep_minConn h with ⟨hosts, minConn, hmain, hmain', hmin⟩ | ⟨hmin, hst, hfetch⟩
    · rcases hs with hs | ⟨-, -, hs⟩
      · obtain ⟨-, rfl⟩ := MainPhase.storing.inj (hmain.symm.trans hs)
        refine .inr ⟨hmin, ?_, fun _ _ => ?_⟩ <;> rw [hmain'] <;> exact MainPhase.noConfusion
      · exact absurd hmain (hs hosts minConn)
    · rcases hs with hs | ⟨hs, -, -⟩
      · simp only [step, mainStep, hs] at h
        obtain rfl := Option.some.inj h
        exact .inr ⟨rfl, MainPhase.noConfusion, fun _ _ => MainPhase.noConfusion⟩
      · refine .inr ⟨hmin.trans hs, fun hf => ?_, hst⟩
        rw [wantsMore_eq_false hs] at hfetch
        cases hfetch hf
  | turn i ok =>
    obtain ⟨x, -, ht⟩ := Option.bind_eq_some_iff.1 h
    obtain ⟨phase, hturned⟩ := turn_eq_some ht
    unfold Stuck
    rw [hturned.main, hturned.minConn]
    exact hs
  | close =>
    obtain rfl := Option.some.inj h
    exact hs

/-! ### The next call -/

theorem step_checking {tick : ℕ} (hopen : s.closed = false) (hmain : s.main = .checking tick) :
    s.step t J .main = some { s with main := .sleeping tick } := by
  simp only [step, mainStep, hmain, hopen]
  rfl

/-- A sleep is followed by the test, or by another sleep if fewer than thirty are over. -/
theorem step_sleeping {tick : ℕ} (hopen : s.closed = false) (hmain : s.main = .sleeping tick) :
    s.step t J .main = some s.test ∨
      tick + 1 < 30 ∧ s.step t J .main = some { s with main := .checking (tick + 1) } := by
  simp only [step, mainStep, hmain, hopen]
  cases t with
  | native =>
    by_cases hlt : tick + 1 < 30
    · exact .inr ⟨hlt, if_pos hlt⟩
    · exact .inl (if_neg hlt)
  | wasm => exact .inl rfl

theorem exists_fetching_of_sleeping {k : ℕ} (tick : ℕ) (hk : 30 ≤ tick + k)
    (hopen : s.closed = false) (hwants : s.wantsMore = true) (hmain : s.main = .sleeping tick) :
    ∃ n s', run (step t J) s (List.replicate n .main) = some s' ∧ s'.main = .fetching := by
  -- the sleeps that are left are the measure
  induction k generalizing s tick with
  | zero =>
    rcases step_sleeping (t := t) (J := J) hopen hmain with h | ⟨hlt, -⟩
    · refine ⟨1, s.test, ?_, by rw [test_main, if_pos hwants]⟩
      rw [List.replicate_one, run_cons, h]
      rfl
    · omega
  | succ k ih =>
    rcases step_sleeping (t := t) (J := J) hopen hmain with h | ⟨-, h⟩
    · refine ⟨1, s.test, ?_, by rw [test_main, if_pos hwants]⟩
      rw [List.replicate_one, run_cons, h]
      rfl
    · have h' : ({ s with main := .checking (tick + 1) } : Lifecycle).step t J .main =
          some { s with main := .sleeping (tick + 1) } := step_checking hopen rfl
      obtain ⟨n, s', hr, hs'⟩ := ih (s := { s with main := .sleeping (tick + 1) }) (tick + 1)
        (by omega) hopen hwants rfl
      refine ⟨n + 2, s', ?_, hs'⟩
      rw [List.replicate_succ, List.replicate_succ, run_cons, h, Option.bind_some, run_cons, h',
        Option.bind_some, hr]

/-- From its maintenance loop the main thread comes to a test that is true, and asks again. -/
theorem exists_fetching (hopen : s.closed = false) (hwants : s.wantsMore = true)
    (hwait : s.Waiting) :
    ∃ n s', run (step t J) s (List.replicate n .main) = some s' ∧ s'.main = .fetching := by
  obtain ⟨tick, hmain | hmain⟩ := hwait
  · have h : s.step t J .main = some { s with main := .sleeping tick } := step_checking hopen hmain
    obtain ⟨n, s', hr, hs'⟩ := exists_fetching_of_sleeping (t := t) (J := J) (k := 30)
      (s := { s with main := .sleeping tick }) tick (Nat.le_add_left 30 tick) hopen hwants rfl
    refine ⟨n + 1, s', ?_, hs'⟩
    rw [List.replicate_succ, run_cons, h, Option.bind_some, hr]
  · exact exists_fetching_of_sleeping (k := 30) tick (Nat.le_add_left 30 tick) hopen hwants hmain

end Steps

/-- If every reply that is accepted names a host, then whenever the open client has no connection
thread the test of the maintenance tick is true; and whenever it is true in the maintenance loop of
an open client, the main thread comes to call `run_connect` again.  But once a reply without hosts
is accepted, the test is false as soon as its threshold is stored, and `run_connect` is never called
again. -/
theorem keeps_looking (t : Platform) (J : SerdeJson) :
    (∀ as, Guarded (step t J) (FindsHosts J) {} as → Throughout (step t J) KeepsLooking {} as) ∧
    (∀ s, s.closed = false → s.wantsMore = true → s.Waiting →
      ∃ n s', run (step t J) s (List.replicate n .main) = some s' ∧ s'.main = .fetching) ∧
    ∀ s r minConn as s', s.main = .fetching → getHosts J r = .ok ([], minConn) →
      run (step t J) s (.reply r :: as) = some s' →
        s'.main ≠ .fetching ∧ (s'.main = .storing [] 0 ∨ s'.wantsMore = false) := by
  refine ⟨fun as hg => ?_, fun s => exists_fetching, ?_⟩
  · have hboth : Throughout (step t J) (fun s => s.Sound ∧ s.Wanting) {} as := by
      refine hg.throughout (fun s a s' hs ha h => ⟨hs.1.step h, hs.2.step ha h⟩) ⟨sound_start, ?_⟩
      exact ⟨by decide, fun _ _ h => by cases h⟩
    exact hboth.mono fun s hs => hs.2.keepsLooking hs.1
  · intro s r minConn as s' hmain hok hr
    obtain ⟨s₁, h₁, hr⟩ := run_cons_eq_some.1 hr
    have hstuck : s₁.Stuck := by
      obtain ⟨-, main, rfl, ⟨e, he, -⟩ | ⟨hosts, minConn', hok', rfl⟩⟩ := reply_eq_some h₁
      · cases hok.symm.trans he
      · obtain ⟨rfl, rfl⟩ := Prod.mk.inj (Except.ok.inj (hok.symm.trans hok'))
        rw [clampMinConn_nil]
        exact .inl rfl
    rcases run_invariant (fun _ _ _ h hstep => Stuck.step h hstep) hstuck hr with h | ⟨h, hne, -⟩
    · exact ⟨by rw [h]; exact MainPhase.noConfusion, .inl h⟩
    · exact ⟨hne, .inr (wantsMore_eq_false h)⟩

theorem keeps_looking_onlineRun :
    Throughout (step .native sampleSerde) KeepsLooking {} onlineRun := by
  apply (keeps_looking .native sampleSerde).1
  refine ⟨?_, fun _ _ => ?_⟩
  · rintro hosts minConn hok rfl
    cases hok
  · exact Guarded.of_forall (by simp [FindsHosts])

/-- The first reply names no host. -/
theorem not_keepsLooking_noHostReply :
    ¬ ∀ as s, run (step .native sampleSerde) {} as = some s → s.KeepsLooking := by
  intro h
  have hbad := h [.reply (.ok (200, noHostReply)), .main] _ rfl rfl ⟨rfl, rfl⟩
  exact absurd hbad (by decide)

end Lifecycle

end Spot
