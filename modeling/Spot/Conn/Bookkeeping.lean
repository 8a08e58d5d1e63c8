import Mathlib.Data.Finset.Insert
import Mathlib.Data.UInt
import Spot.Conn.Threads

/-!
# Hosts and counters

The host set, `conn_cnt` and `online_cnt` are changed by different threads at different points of
their lives.  `Lifecycle.Sound` relates them to where the threads stand, `Sound.step` says that
every step keeps the relation, and `bookkeeping` reads it off for every state of every run.
-/

namespace Spot

/-- A counter that is shifted as the number it counts still counts it. -/
theorem counter_eq_of_shift {c c' : UInt32} {n n' a b : ℕ}
    (hc : c' + UInt32.ofNat a = c + UInt32.ofNat b) (hn : n' + a = n + b)
    (h : c = UInt32.ofNat n) : c' = UInt32.ofNat n' := by
  have hsum : c' + UInt32.ofNat a = UInt32.ofNat n' + UInt32.ofNat a := by
    rw [hc, h, ← UInt32.ofNat_add, ← hn, UInt32.ofNat_add]
  exact add_right_cancel hsum

namespace Lifecycle

/-- The host set is the registered hosts, each of them once; the counters count the threads that
are counted and those that are online. -/
structure Sound (s : Lifecycle) : Prop where
  hosts : s.hosts.val = (s.registered : Multiset Text)
  connCnt : s.connCnt = UInt32.ofNat s.counted
  onlineCnt : s.onlineCnt = UInt32.ofNat s.online
  alive_le : s.alive ≤ threadLimit

section Steps

variable {t : Platform} {J : SerdeJson} {s s' : Lifecycle} {i : ℕ} {x y : ConnThread}

theorem sound_start : Sound {} := ⟨rfl, rfl, rfl, Nat.zero_le _⟩

theorem spawning_eq_of_main (h : s'.main = s.main) : s'.spawning = s.spawning := by
  unfold spawning
  rw [h]

theorem Turned.registered (h : Turned s s' i x y) (hi : s.threads[i]? = some x)
    (hs : s.hosts.val = (s.registered : Multiset Text)) :
    s'.hosts.val = (s'.registered : Multiset Text) := by
  obtain ⟨a, b, hl, hset⟩ := exists_filterMap_set hi ConnThread.registered
  unfold Lifecycle.registered at hs ⊢
  rw [spawning_eq_of_main h.main, h.threads, hset]
  rw [hl] at hs
  rcases h.hosts with ⟨hy, hhosts⟩ | ⟨hx, hy, hhosts⟩
  · rw [hhosts, hy, hs]
  · have hperm : List.Perm (s.spawning.toList ++ (a ++ ((some x.host).toList ++ b)))
        (x.host :: (s.spawning.toList ++ (a ++ (none.toList ++ b)))) := by
      simp only [← List.append_assoc s.spawning.toList, Option.toList_some, Option.toList_none,
        List.singleton_append, List.nil_append]
      exact List.perm_middle
    rw [hx, Multiset.coe_eq_coe.2 hperm] at hs
    rw [hhosts, hy, Finset.erase_val, hs, ← Multiset.cons_coe, Multiset.erase_cons_head]

theorem Turned.sound (h : Turned s s' i x y) (hi : s.threads[i]? = some x) (hs : s.Sound) :
    s'.Sound where
  hosts := h.registered hi hs.hosts
  connCnt := by
    refine counter_eq_of_shift h.connCnt ?_ hs.connCnt
    rw [counted, counted, h.threads, countP_set_add hi]
  onlineCnt := by
    refine counter_eq_of_shift h.onlineCnt ?_ hs.onlineCnt
    rw [online, online, h.threads, countP_set_add hi]
  alive_le := by
    have hadd := countP_set_add hi ConnThread.alive y
    have hx : share ConnThread.alive x = 1 := by rw [share, if_pos h.alive]
    have hy := share_le_one ConnThread.alive y
    have hle := hs.alive_le
    unfold Lifecycle.alive at hle ⊢
    rw [h.threads]
    omega

theorem spawning_of_idle (h : s.main.Idle) : s.spawning = none := by
  unfold spawning
  cases hmain : s.main with
  | spawning host hosts =>
    rw [hmain] at h
    exact h.elim
  | _ => rfl

theorem mainStep_sound (h : s.mainStep t = some s') (hs : s.Sound) : s'.Sound := by
  have hs' := hs.hosts
  unfold registered spawning at hs'
  rcases mainStep_eq_some h with ⟨hosts, minConn, hmain, rfl⟩ | ⟨host, hosts, hmain, hnew, rfl⟩ |
    ⟨host, hosts, hmain, hroom, rfl⟩ | ⟨main, rfl, hidle, hidle', -⟩
  · refine ⟨?_, hs.connCnt, hs.onlineCnt, hs.alive_le⟩
    rw [hmain] at hs'
    exact hs'
  · refine ⟨?_, hs.connCnt, hs.onlineCnt, hs.alive_le⟩
    rw [hmain] at hs'
    rw [Finset.insert_val_of_notMem hnew, hs']
    rfl
  · rw [hmain] at hs'
    refine ⟨?_, ?_, ?_, ?_⟩
    · rw [hs', registered, List.filterMap_append, Multiset.coe_eq_coe]
      exact List.perm_append_comm
    · rw [counted, countP_concat]
      exact hs.connCnt
    · rw [online, countP_concat]
      exact hs.onlineCnt
    · rw [alive, countP_concat]
      exact Nat.succ_le_of_lt hroom
  · refine ⟨?_, hs.connCnt, hs.onlineCnt, hs.alive_le⟩
    have hnone : ({ s with main } : Lifecycle).spawning = s.spawning :=
      (spawning_of_idle hidle').trans (spawning_of_idle hidle).symm
    rw [registered, hnone]
    exact hs.hosts

/-- Every step keeps the host set and the counters in order. -/
theorem Sound.step {a : LifecycleEvent} (hs : s.Sound) (h : s.step t J a = some s') :
    s'.Sound := by
  cases a with
  | reply r =>
    obtain ⟨hmain, main, rfl, hcases⟩ := reply_eq_some h
    refine ⟨?_, hs.connCnt, hs.onlineCnt, hs.alive_le⟩
    have hnone : ({ s with main } : Lifecycle).spawning = s.spawning := by
      rcases hcases with ⟨e, -, rfl⟩ | ⟨hosts, minConn, -, rfl⟩ <;>
      · unfold spawning
        rw [hmain]
    rw [registered, hnone]
    exact hs.hosts
  | main => exact mainStep_sound h hs
  | turn i ok =>
    obtain ⟨x, hx, ht⟩ := Option.bind_eq_some_iff.1 h
    obtain ⟨phase, hturned⟩ := turn_eq_some ht
    exact hturned.sound hx hs
  | close =>
    obtain rfl := Option.some.inj h
    exact ⟨hs.hosts, hs.connCnt, hs.onlineCnt, hs.alive_le⟩

end Steps

/-! ## What the relation says -/

section Sound

variable {s : Lifecycle}

theorem counted_le_alive : s.counted ≤ s.alive := by
  refine List.countP_mono_left fun x _ hx => ?_
  obtain ⟨host, phase⟩ := x
  cases phase with
  | finished => cases hx
  | _ => rfl

theorem online_le_counted : s.online ≤ s.counted := by
  refine List.countP_mono_left fun x _ hx => ?_
  obtain ⟨host, phase⟩ := x
  cases phase with
  | online fails => rfl
  | _ => cases hx

theorem Sound.toNat_connCnt (h : s.Sound) : s.connCnt.toNat = s.counted := by
  have hle := counted_le_alive.trans h.alive_le
  rw [h.connCnt, UInt32.toNat_ofNat_of_lt' (lt_of_le_of_lt hle (by decide))]

theorem Sound.toNat_onlineCnt (h : s.Sound) : s.onlineCnt.toNat = s.online := by
  have hle := (online_le_counted.trans counted_le_alive).trans h.alive_le
  rw [h.onlineCnt, UInt32.toNat_ofNat_of_lt' (lt_of_le_of_lt hle (by decide))]

theorem Sound.nodup (h : s.Sound) : s.registered.Nodup := by
  have hn := s.hosts.nodup
  rwa [h.hosts, Multiset.coe_nodup] at hn

theorem Sound.mem_hosts (h : s.Sound) (host : Text) :
    host ∈ s.hosts ↔
      s.spawning = some host ∨ ∃ x ∈ s.threads, x.registered = some host := by
  rw [Finset.mem_def, h.hosts, Multiset.mem_coe, registered, List.mem_append, Option.mem_toList,
    List.mem_filterMap]

end Sound

/-- In every state: a host has at most one connection thread that is started or in its loop;
`conn_cnt` is the number of threads between their `fetch_add` and their `fetch_sub`; `online_cnt` is
the number of connections that are online, and at most `conn_cnt`; a thread that is about to take
one from a counter finds at least one there; and the host set has the hosts of the threads that are
started or in their loops, and the one whose thread is about to be started, and no other. -/
theorem bookkeeping {t : Platform} {J : SerdeJson} {as : List LifecycleEvent} {s : Lifecycle}
    (hr : run (step t J) {} as = some s) :
    s.registered.Nodup ∧
      s.connCnt.toNat = s.counted ∧
      s.onlineCnt.toNat = s.online ∧ s.onlineCnt ≤ s.connCnt ∧
      (∀ x ∈ s.threads, (x.phase = .removed → 0 < s.connCnt) ∧
        (x.isOnline = true → 0 < s.onlineCnt)) ∧
      ∀ host, host ∈ s.hosts ↔
        s.spawning = some host ∨ ∃ x ∈ s.threads, x.registered = some host := by
  have hs : s.Sound := run_invariant (fun _ _ _ h hstep => Sound.step h hstep) sound_start hr
  have hconn := hs.toNat_connCnt
  have honline := hs.toNat_onlineCnt
  refine ⟨hs.nodup, hconn, honline, ?_, fun x hx => ⟨fun hp => ?_, fun ho => ?_⟩, hs.mem_hosts⟩
  · rw [UInt32.le_iff_toNat_le, hconn, honline]
    exact online_le_counted
  · have hpos : 0 < s.counted := List.countP_pos_iff.2 ⟨x, hx, by rw [ConnThread.counted, hp]⟩
    rw [UInt32.lt_iff_toNat_lt, hconn]
    exact hpos
  · have hpos : 0 < s.online := List.countP_pos_iff.2 ⟨x, hx, ho⟩
    rw [UInt32.lt_iff_toNat_lt, honline]
    exact hpos

/-- A host is named twice and gets one thread, which comes online; a second reply names it again. -/
def onlineRun : List LifecycleEvent :=
  [.reply (.ok (200, oneHostReply)), .main, .main, .main, .turn 0 true, .turn 0 true, .turn 0 true,
    .turn 0 true, .main, .main, .main]

theorem bookkeeping_onlineRun :
    ∃ s, run (step .native sampleSerde) {} onlineRun = some s ∧ s.online = 1 ∧
      s.onlineCnt.toNat = s.online ∧ s.connCnt.toNat = s.counted ∧ s.registered.Nodup := by
  have hr : run (step .native sampleSerde) {} onlineRun = some _ := rfl
  have h := bookkeeping hr
  exact ⟨_, hr, by decide, h.2.2.1, h.2.1, h.1⟩

end Lifecycle

end Spot
