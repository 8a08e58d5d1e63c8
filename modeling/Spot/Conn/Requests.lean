import Spot.Conn.Bookkeeping
import Spot.General.Potential

/-!
# How often servers are asked for, and which are dialled

The list of servers is asked for once at the start and then at most once in thirty seconds of sleep,
however the connection threads fare (`request_rate`); and only the first ten hosts of a reply that
was accepted are ever dialled (`dials_named`).
-/

namespace Spot

/-- A reply to a request for the list of servers. -/
def LifecycleEvent.isReply : LifecycleEvent → Bool
  | .reply _ => true
  | _ => false

/-- The hosts that a reply gives to dial. -/
def LifecycleEvent.named (J : SerdeJson) : LifecycleEvent → List Text
  | .reply r =>
    match getHosts J r with
    | .ok (hosts, _) => dialled hosts
    | .error _ => []
  | _ => []

/-- The hosts that the main thread is still to look at. -/
def MainPhase.hosts : MainPhase → List Text
  | .storing hosts _ | .connecting hosts | .staggering hosts => hosts
  | .spawning host hosts => host :: hosts
  | _ => []

/-- What has been slept of the thirty seconds before the next request. -/
def MainPhase.slept : MainPhase → ℕ
  | .fetching => 30
  | .checking tick | .sleeping tick => tick
  | _ => 0

namespace Lifecycle

/-- The seconds that the main thread sleeps in a step of its maintenance loop. -/
def sleeps (t : Platform) (s : Lifecycle) : LifecycleEvent → ℕ
  | .main =>
    match s.main with
    | .sleeping _ =>
      match t with
      | .native => 1
      | .wasm => 30
    | _ => 0
  | _ => 0

section Steps

variable {t : Platform} {J : SerdeJson} {s s' : Lifecycle} {a : LifecycleEvent} {names : List Text}

/-! ## How often -/

theorem slept_test_le (s : Lifecycle) : s.test.main.slept ≤ 30 := by
  rw [test_main]
  split <;> decide

theorem mainStep_slept (h : s.mainStep t = some s') :
    s'.main.slept ≤ s.main.slept + s.sleeps t .main := by
  obtain ⟨closed, minConn, hosts, connCnt, onlineCnt, main, threads⟩ := s
  cases main with
  | fetching | returned => cases h
  | storing rest minConn =>
    obtain rfl := Option.some.inj h
    exact Nat.le_refl _
  | connecting rest =>
    cases rest with
    | nil =>
      obtain rfl := Option.some.inj h
      exact Nat.le_refl _
    | cons host rest =>
      simp only [mainStep] at h
      split at h
      · obtain rfl := Option.some.inj h
        exact Nat.le_refl _
      split at h <;> obtain rfl := Option.some.inj h <;> exact Nat.le_refl _
  | spawning host rest =>
    simp only [mainStep] at h
    split at h
    · obtain rfl := Option.some.inj h
      exact Nat.le_refl _
    · cases h
  | staggering rest =>
    obtain rfl := Option.some.inj h
    exact Nat.le_refl _
  | checking tick =>
    obtain rfl := Option.some.inj h
    cases closed with
    | true => exact Nat.zero_le _
    | false => exact Nat.le_refl _
  | sleeping tick =>
    cases t with
    | native =>
      simp only [mainStep] at h
      split at h <;> obtain rfl := Option.some.inj h
      · exact Nat.le_refl _
      · rename_i hlast
        exact (slept_test_le _).trans (Nat.le_of_not_lt hlast)
    | wasm =>
      simp only [mainStep] at h
      split at h <;> obtain rfl := Option.some.inj h
      · exact Nat.zero_le _
      · exact (slept_test_le _).trans (Nat.le_add_left 30 tick)

/-- A request uses up thirty seconds, which are slept one after the other. -/
theorem step_slept (h : s.step t J a = some s') :
    s'.main.slept + 30 * share LifecycleEvent.isReply a ≤ s.main.slept + s.sleeps t a := by
  cases a with
  | reply r =>
    obtain ⟨hmain, main, rfl, hcases⟩ := reply_eq_some h
    rw [hmain]
    rcases hcases with ⟨e, -, rfl⟩ | ⟨hosts, minConn, -, rfl⟩ <;> exact Nat.le_refl _
  | main => exact mainStep_slept h
  | turn i ok =>
    obtain ⟨x, -, ht⟩ := Option.bind_eq_some_iff.1 h
    obtain ⟨phase, hturned⟩ := turn_eq_some ht
    rw [hturned.main]
    exact Nat.le_refl _
  | close =>
    obtain rfl := Option.some.inj h
    exact Nat.le_refl _

/-! ## Which hosts -/

/-- All hosts of the connection threads, and all that the main thread is still to look at. -/
def mentioned (s : Lifecycle) : List Text := s.main.hosts ++ s.threads.map ConnThread.host

theorem mainStep_mentioned (h : s.mainStep t = some s') : s'.mentioned ⊆ s.mentioned := by
  obtain ⟨closed, minConn, hosts, connCnt, onlineCnt, main, threads⟩ := s
  have keep : ∀ (minConn' : UInt32) (hosts' : Finset Text) (main' : MainPhase),
      main'.hosts ⊆ main.hosts →
      (⟨closed, minConn', hosts', connCnt, onlineCnt, main', threads⟩ : Lifecycle).mentioned ⊆
        main.hosts ++ threads.map ConnThread.host :=
    fun _ _ _ hsub => List.append_subset.2
      ⟨List.Subset.trans hsub (List.subset_append_left ..), List.subset_append_right ..⟩
  cases main with
  | fetching | returned => cases h
  | storing rest minConn =>
    obtain rfl := Option.some.inj h
    exact keep _ _ _ (List.Subset.refl _)
  | connecting rest =>
    cases rest with
    | nil =>
      obtain rfl := Option.some.inj h
      exact keep _ _ _ (List.Subset.refl _)
    | cons host rest =>
      simp only [mainStep] at h
      split at h
      · obtain rfl := Option.some.inj h
        exact keep _ _ _ (List.nil_subset _)
      split at h <;> obtain rfl := Option.some.inj h
      · exact keep _ _ _ (List.subset_cons_self ..)
      · exact keep _ _ _ (List.Subset.refl _)
  | spawning host rest =>
    simp only [mainStep] at h
    split at h
    · obtain rfl := Option.some.inj h
      intro x hx
      simp only [mentioned, MainPhase.hosts, List.map_append, List.map_cons, List.map_nil,
        List.mem_append, List.mem_cons, List.not_mem_nil, or_false] at hx ⊢
      tauto
    · cases h
  | staggering rest =>
    obtain rfl := Option.some.inj h
    exact keep _ _ _ (List.Subset.refl _)
  | checking tick =>
    obtain rfl := Option.some.inj h
    refine keep _ _ _ ?_
    cases closed <;> exact List.nil_subset _
  | sleeping tick =>
    have htest : ∀ m : Lifecycle, m.test.main.hosts ⊆ [] := by
      intro m
      rw [test_main]
      split <;> exact List.nil_subset _
    cases t with
    | native =>
      simp only [mainStep] at h
      split at h <;> obtain rfl := Option.some.inj h
      · exact keep _ _ _ (List.nil_subset _)
      · exact keep _ _ _ (htest _)
    | wasm =>
      simp only [mainStep] at h
      split at h <;> obtain rfl := Option.some.inj h
      · exact keep _ _ _ (List.nil_subset _)
      · exact keep _ _ _ (htest _)

theorem registered_subset_mentioned : s.registered ⊆ s.mentioned := by
  refine List.append_subset.2 ⟨fun host hhost => List.mem_append_left _ ?_, fun host hhost =>
    List.mem_append_right _ ?_⟩
  · unfold spawning at hhost
    cases hmain : s.main with
    | spawning host' hosts =>
      rw [hmain] at hhost
      obtain rfl := List.mem_singleton.1 hhost
      exact List.mem_cons_self
    | _ =>
      rw [hmain] at hhost
      cases hhost
  · obtain ⟨x, hx, hreg⟩ := List.mem_filterMap.1 hhost
    obtain ⟨h, phase⟩ := x
    cases phase with
    | removed | finished => cases hreg
    | _ =>
      obtain rfl := Option.some.inj hreg
      exact List.mem_map_of_mem hx

theorem exists_of_mem_named {host : Text} (h : host ∈ a.named J) :
    ∃ r hosts minConn, a = .reply r ∧ getHosts J r = .ok (hosts, minConn) ∧
      host ∈ hosts.take 10 := by
  cases a with
  | reply r =>
    simp only [LifecycleEvent.named] at h
    cases hok : getHosts J r with
    | error e =>
      rw [hok] at h
      cases h
    | ok p =>
      rw [hok] at h
      exact ⟨r, p.1, p.2, rfl, hok, h⟩
  | _ => cases h

theorem length_named_le (as : List LifecycleEvent) :
    (as.flatMap (·.named J)).length ≤ 10 * as.countP LifecycleEvent.isReply := by
  have hone : ∀ a : LifecycleEvent,
      (a.named J).length ≤ 10 * share LifecycleEvent.isReply a := by
    intro a
    cases a with
    | reply r =>
      simp only [LifecycleEvent.named]
      cases getHosts J r with
      | error e => exact Nat.zero_le _
      | ok p => exact length_dialled p.1
    | _ => exact Nat.zero_le _
  induction as with
  | nil => exact Nat.zero_le _
  | cons a as ih =>
    have ha := hone a
    have hcons : (a :: as).countP LifecycleEvent.isReply =
        as.countP LifecycleEvent.isReply + share LifecycleEvent.isReply a := List.countP_cons
    rw [List.flatMap_cons, List.length_append, hcons]
    omega

/-- New hosts come from replies only. -/
theorem step_mentioned (hs : s.mentioned ⊆ names) (ha : a.named J ⊆ names)
    (h : s.step t J a = some s') : s'.mentioned ⊆ names := by
  cases a with
  | reply r =>
    obtain ⟨hmain, main, rfl, hcases⟩ := reply_eq_some h
    have hthreads := (List.append_subset.1 hs).2
    refine List.append_subset.2 ⟨?_, hthreads⟩
    rcases hcases with ⟨e, -, rfl⟩ | ⟨hosts, minConn, hok, rfl⟩
    · exact List.nil_subset _
    · rw [LifecycleEvent.named, hok] at ha
      exact ha
  | main => exact List.Subset.trans (mainStep_mentioned h) hs
  | turn i ok =>
    obtain ⟨x, hx, ht⟩ := Option.bind_eq_some_iff.1 h
    obtain ⟨phase, hturned⟩ := turn_eq_some ht
    have hhosts : s'.threads.map ConnThread.host = s.threads.map ConnThread.host := by
      obtain ⟨hi, rfl⟩ := List.getElem?_eq_some_iff.1 hx
      have hi' : i < (s.threads.map ConnThread.host).length := by rwa [List.length_map]
      have hsame : s.threads[i].host = (s.threads.map ConnThread.host)[i] :=
        (List.getElem_map ConnThread.host).symm
      rw [hturned.threads, List.map_set, hsame, List.set_getElem_self]
    rw [mentioned, hturned.main, hhosts]
    exact hs
  | close =>
    obtain rfl := Option.some.inj h
    exact hs

end Steps

/-- In every run, thirty seconds are slept in the maintenance loop for every request for the list of
servers, answered or waiting for its reply, except for one; and what has been slept towards the next
request is slept beyond that. -/
theorem request_rate {t : Platform} {J : SerdeJson} {as : List LifecycleEvent} {s : Lifecycle}
    (hr : run (step t J) {} as = some s) :
    s.main.slept + 30 * as.countP LifecycleEvent.isReply ≤
      30 + amount (step t J) (sleeps t) {} as := by
  have hpotential : s.main.slept +
      amount (step t J) (fun _ a => 30 * share LifecycleEvent.isReply a) {} as ≤
        30 + amount (step t J) (sleeps t) {} as :=
    run_potential (I := fun _ => True) (fun _ _ _ _ h => ⟨trivial, step_slept h⟩) trivial hr
  rwa [amount_kind 30 LifecycleEvent.isReply hr] at hpotential

/-- The first reply is no JSON, and the list is asked for again after thirty seconds. -/
def askedAgain : List LifecycleEvent := .reply (.ok (200, [])) :: List.replicate 60 .main

/-- With the second request pending, and again with its reply. -/
theorem request_rate_askedAgain :
    (∃ s, run (step .native sampleSerde) {} askedAgain = some s ∧ s.main = .fetching ∧
      s.main.slept + 30 * askedAgain.countP LifecycleEvent.isReply ≤
        30 + amount (step .native sampleSerde) (sleeps .native) {} askedAgain) ∧
    ∃ s as, as = askedAgain ++ [.reply (.ok (200, oneHostReply))] ∧
      run (step .native sampleSerde) {} as = some s ∧ as.countP LifecycleEvent.isReply = 2 ∧
      s.main.slept + 30 * as.countP LifecycleEvent.isReply ≤
        30 + amount (step .native sampleSerde) (sleeps .native) {} as := by
  have hr : run (step .native sampleSerde) {} askedAgain = some _ := rfl
  have hr' : run (step .native sampleSerde) {}
      (askedAgain ++ [.reply (.ok (200, oneHostReply))]) = some _ := rfl
  exact ⟨⟨_, hr, rfl, request_rate hr⟩, _, _, rfl, hr', rfl, request_rate hr'⟩

/-- In every run, connection threads are started only for hosts that are among the first ten of a
reply that was accepted, and the hosts that are registered are at most ten for each reply. -/
theorem dials_named {t : Platform} {J : SerdeJson} {as : List LifecycleEvent} {s : Lifecycle}
    (hr : run (step t J) {} as = some s) :
    (∀ x ∈ s.threads, ∃ r hosts minConn, .reply r ∈ as ∧ getHosts J r = .ok (hosts, minConn) ∧
      x.host ∈ hosts.take 10) ∧
    s.hosts.card ≤ 10 * as.countP LifecycleEvent.isReply := by
  have hguard : Guarded (step t J) (fun _ a => a.named J ⊆ as.flatMap (·.named J)) {} as :=
    Guarded.of_forall fun a ha _ _ hx => List.mem_flatMap.2 ⟨a, ha, hx⟩
  have hsub : s.mentioned ⊆ as.flatMap (·.named J) :=
    hguard.invariant (I := fun s => s.mentioned ⊆ as.flatMap (·.named J))
      (fun _ _ _ hs ha h => step_mentioned hs ha h) (List.nil_subset _) hr
  have hsound : s.Sound := run_invariant (fun _ _ _ h hstep => Sound.step h hstep) sound_start hr
  refine ⟨fun x hx => ?_, ?_⟩
  · have hmem : x.host ∈ as.flatMap (·.named J) :=
      hsub (List.mem_append_right _ (List.mem_map_of_mem hx))
    obtain ⟨a, ha, hx⟩ := List.mem_flatMap.1 hmem
    obtain ⟨r, hosts, minConn, rfl, hok, hhost⟩ := exists_of_mem_named hx
    exact ⟨r, hosts, minConn, ha, hok, hhost⟩
  · have hregistered : s.registered ⊆ as.flatMap (·.named J) :=
      List.Subset.trans registered_subset_mentioned hsub
    calc s.hosts.card = s.registered.length := congrArg Multiset.card hsound.hosts
      _ ≤ (as.flatMap (·.named J)).length := (hsound.nodup.subperm hregistered).length_le
      _ ≤ 10 * as.countP LifecycleEvent.isReply := length_named_le as

theorem dials_named_onlineRun :
    ∃ s, run (step .native sampleSerde) {} onlineRun = some s ∧ s.threads.length = 1 ∧
      s.hosts.card ≤ 10 * onlineRun.countP LifecycleEvent.isReply := by
  have hr : run (step .native sampleSerde) {} onlineRun = some _ := rfl
  exact ⟨_, hr, rfl, (dials_named hr).2⟩

end Lifecycle

end Spot
