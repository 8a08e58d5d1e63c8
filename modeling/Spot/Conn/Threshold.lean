import Mathlib.Data.Finset.Card
import Spot.Conn.Threads

/-!
# The online threshold

How many connections `wait_online` asks for after a reply of the platform.  The number in the reply
is cut to 32 bits, and clamped to the number of hosts that are dialled, which counts a host that the
reply names twice as two; the host set then dials it once.  `threshold_iff` says when the threshold
is nevertheless the one that the reply asks for, with as many connections as there are hosts at
most.
-/

namespace Spot

/-- The host list of a reply. -/
def Json.hostList (v : Json) : List Text :=
  (((v.index "data").index "hosts").asArray.map fun a => a.filterMap Json.asStr).getD []

/-- The minimum connection count of a reply, 0 where there is none. -/
def Json.minConn (v : Json) : UInt64 := ((v.index "data").index "min_conn").asU64.getD 0

/-- The connections `wait_online` asks for. -/
def want (minConn : UInt32) : UInt32 := max minConn 1

/-- The hosts a list makes the client dial, each once. -/
def distinctHosts (hosts : List Text) : ℕ := (dialled hosts).toFinset.card

/-- The threshold asked for with `m`, among `d` hosts. -/
def threshold (d : ℕ) (m : UInt64) : ℕ := if m = 0 ∨ d < m.toNat then d else m.toNat

/-- The stored threshold is the one the reply asks for, and can be reached. -/
def Faithful (hosts : List Text) (m : UInt64) (minConn : UInt32) : Prop :=
  minConn.toNat = threshold (distinctHosts hosts) m ∧
    (1 ≤ distinctHosts hosts → (want minConn).toNat ≤ distinctHosts hosts)

/-- The number asked for is within the distinct hosts, or its low 32 bits are their number, or no
host is repeated and those bits are 0 or beyond them. -/
def CleanReply (hosts : List Text) (m : UInt64) : Prop :=
  0 < m.toNat ∧ m.toNat ≤ distinctHosts hosts ∨ m.toUInt32.toNat = distinctHosts hosts ∨
    (dialled hosts).Nodup ∧ (m.toUInt32 = 0 ∨ distinctHosts hosts < m.toUInt32.toNat)

section

variable {J : SerdeJson} {status : UInt16} {body : Bytes} {hosts : List Text} {minConn : UInt32}
  {m : UInt64} {v : Json}

/-- What is taken from a reply that is accepted. -/
theorem parseHosts_eq_ok (hv : J.fromSlice body = .ok v)
    (h : parseHosts J status body = .ok (hosts, minConn)) :
    hosts = v.hostList ∧ minConn = v.minConn.toUInt32 := by
  unfold parseHosts at h
  by_cases hstatus : status ≠ 200
  · rw [if_pos hstatus] at h
    cases h
  · rw [if_neg hstatus, hv] at h
    by_cases hsuccess : (v.index "result").asStr ≠ some "success".toList
    · simp only [if_pos hsuccess] at h
      cases h
    · simp only [if_neg hsuccess] at h
      obtain ⟨rfl, rfl⟩ := Prod.mk.inj (Except.ok.inj h)
      exact ⟨rfl, rfl⟩

theorem distinctHosts_le (hosts : List Text) : distinctHosts hosts ≤ (dialled hosts).length :=
  List.toFinset_card_le _

theorem distinctHosts_eq_iff :
    distinctHosts hosts = (dialled hosts).length ↔ (dialled hosts).Nodup := by
  constructor
  · intro h
    rw [distinctHosts, List.card_toFinset] at h
    exact List.dedup_eq_self.1 ((List.dedup_sublist _).eq_of_length h)
  · exact List.toFinset_card_of_nodup

/-- The clamp, on numbers. -/
theorem toNat_clampMinConn (hosts : List Text) (minConn : UInt32) :
    (clampMinConn (dialled hosts) minConn).toNat =
      if minConn.toNat = 0 ∨ (dialled hosts).length < minConn.toNat then (dialled hosts).length
      else minConn.toNat := by
  have hlen : (UInt32.ofNat (dialled hosts).length).toNat = (dialled hosts).length :=
    UInt32.toNat_ofNat_of_lt' (lt_of_le_of_lt (length_dialled hosts) (by decide))
  have hzero : minConn = 0 ↔ minConn.toNat = 0 := by
    rw [← UInt32.toNat_inj]
    rfl
  rw [clampMinConn, apply_ite UInt32.toNat]
  simp only [hzero, UInt32.lt_iff_toNat_lt, hlen]

theorem dialled_nil_of_distinctHosts (h : distinctHosts hosts = 0) :
    (dialled hosts).length = 0 := by
  rw [distinctHosts, Finset.card_eq_zero, List.toFinset_eq_empty_iff] at h
  rw [h, List.length_nil]

/-- The clamped threshold is the one asked for exactly after a clean reply. -/
theorem clampMinConn_eq_threshold_iff :
    (clampMinConn (dialled hosts) m.toUInt32).toNat = threshold (distinctHosts hosts) m ↔
      CleanReply hosts m := by
  have hle := distinctHosts_le hosts
  have hten := length_dialled hosts
  have hnone : distinctHosts hosts = 0 → (dialled hosts).length = 0 := dialled_nil_of_distinctHosts
  have hmod : m.toUInt32.toNat = m.toNat % 2 ^ 32 := UInt64.toNat_toUInt32 m
  have hzero : m = 0 ↔ m.toNat = 0 := by
    rw [← UInt64.toNat_inj]
    rfl
  have hzero' : m.toUInt32 = 0 ↔ m.toUInt32.toNat = 0 := by
    rw [← UInt32.toNat_inj]
    rfl
  rw [toNat_clampMinConn, threshold, CleanReply, hzero', ← distinctHosts_eq_iff, hmod]
  simp only [hzero]
  split_ifs <;> omega

theorem toNat_want (minConn : UInt32) : (want minConn).toNat = max minConn.toNat 1 := by
  have hone : (1 : UInt32).toNat = 1 := rfl
  have hmax : want minConn = if minConn ≤ 1 then 1 else minConn := rfl
  rw [hmax, max_def, apply_ite UInt32.toNat, hone]
  simp only [UInt32.le_iff_toNat_le, hone]

theorem threshold_le (d : ℕ) (m : UInt64) : threshold d m ≤ d := by
  unfold threshold
  split_ifs <;> omega

/-- A threshold that is the one asked for can be reached. -/
theorem faithful_iff : Faithful hosts m minConn ↔
    minConn.toNat = threshold (distinctHosts hosts) m := by
  refine ⟨And.left, fun h => ⟨h, fun hpos => ?_⟩⟩
  have hle := threshold_le (distinctHosts hosts) m
  rw [toNat_want, h]
  omega

end

namespace Lifecycle

/-- After `run_connect` has stored its threshold, it is the one that the reply asks for, and can be
reached, if and only if the reply is clean. -/
theorem threshold_iff {t : Platform} {J : SerdeJson} {s s₁ s₂ : Lifecycle} {status : UInt16}
    {body : Bytes} {v : Json} {p : List Text × UInt32} (hv : J.fromSlice body = .ok v)
    (hp : getHosts J (.ok (status, body)) = .ok p)
    (h₁ : s.step t J (.reply (.ok (status, body))) = some s₁) (h₂ : s₁.step t J .main = some s₂) :
    Faithful v.hostList v.minConn s₂.minConn ↔ CleanReply v.hostList v.minConn := by
  obtain ⟨-, main, rfl, ⟨e, he, -⟩ | ⟨hosts, minConn, hok, rfl⟩⟩ := reply_eq_some h₁
  · rw [he] at hp
    cases hp
  · obtain rfl := Option.some.inj h₂
    obtain ⟨rfl, rfl⟩ := parseHosts_eq_ok hv hok
    rw [faithful_iff]
    exact clampMinConn_eq_threshold_iff

/-- The reply that names one host twice: two connections are asked for. -/
theorem not_faithful_oneHost :
    ¬ ∀ (t : Platform) (J : SerdeJson) (s s₁ s₂ : Lifecycle) (status : UInt16) (body : Bytes)
      (v : Json) (p : List Text × UInt32), J.fromSlice body = .ok v →
      getHosts J (.ok (status, body)) = .ok p → s.step t J (.reply (.ok (status, body))) = some s₁ →
      s₁.step t J .main = some s₂ → Faithful v.hostList v.minConn s₂.minConn := by
  intro h
  have hstored := (h .native sampleSerde {} _ _ 200 oneHostReply _ _ rfl rfl rfl rfl).1
  exact absurd hstored (by decide)

/-- A reply with two hosts, one connection to be kept. -/
def twoHostsReply : Bytes :=
  utf8 ("\x7b\"result\":\"success\",\"data\":\x7b\"hosts\":[\"a\",\"b\"],".toList ++
    "\"min_conn\":1\x7d\x7d".toList)

def twoHosts : Json :=
  .object [("result".toList, .string "success".toList),
    ("data".toList, .object [("hosts".toList, .array [.string "a".toList, .string "b".toList]),
      ("min_conn".toList, .number (.posInt 1))])]

def twoHostsSerde : SerdeJson where
  fromSlice b := if b = twoHostsReply then .ok twoHosts else .error "expected value".toList

theorem threshold_iff_twoHosts : Faithful twoHosts.hostList twoHosts.minConn 1 := by
  have hclean : CleanReply twoHosts.hostList twoHosts.minConn := .inl (by decide)
  have hfetch : getHosts twoHostsSerde (.ok (200, twoHostsReply)) =
      .ok (["a".toList, "b".toList], 1) := rfl
  have hreply : ({} : Lifecycle).step .native twoHostsSerde (.reply (.ok (200, twoHostsReply))) =
      some { main := .storing ["a".toList, "b".toList] 1 } := rfl
  exact (threshold_iff rfl hfetch hreply rfl).2 hclean

end Lifecycle

end Spot
