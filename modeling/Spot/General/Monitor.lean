import Mathlib.Data.List.Basic
import Spot.General.Census
import Spot.General.Runs

/-!
# Waiting on a condition variable

A shared state with a lock and a condition variable.  Waiters take the lock, test a list of
conditions one after another, and return at the first that holds; when none does they release the
lock and park, in one step, until they are woken.  Workers, of which there is a limited number at a
time, run straight-line programs that write to the state and notify the condition variable, under
the lock or not.

A waiter is lost (`Monitor.Lost`) if it is parked while one of its conditions holds and no worker
that has written is still about to notify.  `throughout_not_lost_iff`: when every write that can
make a condition hold is followed by a notification, and the conditions marked as `locked` are only
made to hold under the lock, no waiter is lost along a run if and only if no waiter parks while a
condition that is not `locked` holds and nobody is about to notify.  What a write can do may depend
on what it relies on (`MonitorCode.relies`); that this holds whenever the write is due is an
invariant of the instance.
-/

namespace Spot

/-- What a worker does in one step. -/
inductive MonitorOp (ω : Type*)
  | lock
  | write (w : ω)
  | notify
  | unlock
  deriving DecidableEq

/-- A condition a waiter tests; `locked` if it is only made to hold under the lock. -/
structure Condition (σ : Type*) where
  test : σ → Bool
  locked : Bool

/-- A worker with what is left of its program, whether it holds the lock and whether it has written
since it last notified; or a waiter, which has not started, tests the conditions that are left, is
parked, has been woken, or has returned. -/
inductive Party (σ ω : Type*)
  | worker (held written : Bool) (todo : List (MonitorOp ω))
  | entering
  | testing (rest : List (Condition σ))
  | parked
  | waking
  | returned

/-- The conditions of the waiters; what the writes do, and what they rely on in the state they find;
the programs of the workers, and how many workers there can be at a time. -/
structure MonitorCode (σ ω κ : Type*) where
  conditions : List (Condition σ)
  apply : ω → σ → σ
  relies : ω → σ → Prop
  program : κ → List (MonitorOp ω)
  limit : ℕ

/-- The shared state, the holder of the lock, and the parties. -/
structure Monitor (σ ω : Type*) where
  shared : σ
  holder : Option ℕ := none
  parties : List (Party σ ω) := []

/-- A waiter starts, or a worker if there is room, or party `i` takes a step; a waiter that has
tested all its conditions parks or, at its deadline, returns. -/
inductive MonitorEvent (κ : Type*)
  | wait
  | work (c : κ)
  | turn (i : ℕ) (parks : Bool)

variable {σ ω κ : Type*}

/-- Wakes a waiter that is parked. -/
def Party.wake : Party σ ω → Party σ ω
  | parked => waking
  | p => p

/-- The next step of the party notifies. -/
def Party.notifies : Party σ ω → Bool
  | worker _ _ (.notify :: _) => true
  | _ => false

/-- The party is a worker that has not finished. -/
def Party.busy : Party σ ω → Bool
  | worker _ _ (_ :: _) => true
  | _ => false

/-- The party holds the lock. -/
def Party.holds : Party σ ω → Bool
  | worker held _ _ => held
  | testing _ => true
  | _ => false

namespace Monitor

/-- The next step of party `i`, which stands as the argument. -/
def turn (D : MonitorCode σ ω κ) (s : Monitor σ ω) (i : ℕ) (parks : Bool) :
    Party σ ω → Option (Monitor σ ω)
  | .worker _ _ [] => none
  | .worker _ written (.lock :: todo) =>
    if s.holder.isNone then
      some { s with holder := some i, parties := s.parties.set i (.worker true written todo) }
    else none
  | .worker held _ (.write w :: todo) =>
    some { s with
      shared := D.apply w s.shared
      parties := s.parties.set i (.worker held true todo) }
  | .worker held _ (.notify :: todo) =>
    some { s with parties := (s.parties.set i (.worker held false todo)).map Party.wake }
  | .worker _ written (.unlock :: todo) =>
    some { s with holder := none, parties := s.parties.set i (.worker false written todo) }
  | .entering | .waking =>
    if s.holder.isNone then
      some { s with holder := some i, parties := s.parties.set i (.testing D.conditions) }
    else none
  | .testing (c :: rest) =>
    if c.test s.shared then some { s with holder := none, parties := s.parties.set i .returned }
    else some { s with parties := s.parties.set i (.testing rest) }
  | .testing [] =>
    some { s with
      holder := none
      parties := s.parties.set i (if parks then .parked else .returned) }
  -- its time is over, or it wakes up for no reason
  | .parked => some { s with parties := s.parties.set i .waking }
  | .returned => none

/-- The number of workers that have not finished. -/
def busy (s : Monitor σ ω) : ℕ := s.parties.countP Party.busy

/-- One event. -/
def step (D : MonitorCode σ ω κ) (s : Monitor σ ω) : MonitorEvent κ → Option (Monitor σ ω)
  | .wait => some { s with parties := s.parties ++ [.entering] }
  | .work c =>
    if s.busy < D.limit then
      some { s with parties := s.parties ++ [.worker false false (D.program c)] }
    else none
  | .turn i parks => s.parties[i]?.bind fun p => s.turn D i parks p

/-- Every write that is due finds what it relies on. -/
def Relied (D : MonitorCode σ ω κ) (s : Monitor σ ω) : Prop :=
  ∀ held written w todo, .worker held written (.write w :: todo) ∈ s.parties → D.relies w s.shared

/-- A worker has written and is about to notify. -/
def Pending (s : Monitor σ ω) : Prop :=
  ∃ held todo, .worker held true todo ∈ s.parties ∧ .notify ∈ todo

/-- A waiter is parked although one of its conditions holds, and nobody is about to notify. -/
def Lost (D : MonitorCode σ ω κ) (s : Monitor σ ω) : Prop :=
  .parked ∈ s.parties ∧ (∃ c ∈ D.conditions, c.test s.shared = true) ∧ ¬ s.Pending

/-- No waiter parks while a condition that is not `locked` holds, unless a worker is about to
notify. -/
def ParksInTime (D : MonitorCode σ ω κ) (s : Monitor σ ω) : MonitorEvent κ → Prop
  | .turn i true => s.parties[i]? = some (.testing []) →
    (∃ c ∈ D.conditions, c.locked = false ∧ c.test s.shared = true) → s.Pending
  | _ => True

end Monitor

namespace MonitorCode

variable (D : MonitorCode σ ω κ)

/-- Every write that can make a condition hold, when it finds what it relies on, is followed by a
notification. -/
def Announces : List (MonitorOp ω) → Prop
  | [] => True
  | .write w :: todo =>
    (.notify ∈ todo ∨ ∀ c ∈ D.conditions, ∀ x, D.relies w x →
      c.test (D.apply w x) = true → c.test x = true) ∧ Announces todo
  | _ :: todo => Announces todo

/-- The lock is released only by who holds it, and conditions that are `locked` are only made to
hold under it. -/
def Disciplined : Bool → List (MonitorOp ω) → Prop
  | _, [] => True
  | _, .lock :: todo => Disciplined true todo
  | held, .write w :: todo =>
    (held = true ∨ ∀ c ∈ D.conditions, c.locked = true →
      ∀ x, c.test (D.apply w x) = true → c.test x = true) ∧ Disciplined held todo
  | held, .notify :: todo => Disciplined held todo
  | held, .unlock :: todo => held = true ∧ Disciplined false todo

/-- All programs do both. -/
structure Lawful : Prop where
  announces : ∀ c, D.Announces (D.program c)
  disciplined : ∀ c, D.Disciplined false (D.program c)

end MonitorCode

namespace Monitor

/-! ## What a step can do -/

/-- Party `i` goes from one place to another; the state and the holder of the lock after it. -/
inductive Move (D : MonitorCode σ ω κ) (s : Monitor σ ω) (i : ℕ) (parks : Bool) :
    Party σ ω → Party σ ω → σ → Option ℕ → Prop
  | lock (held written : Bool) (todo : List (MonitorOp ω)) (hfree : s.holder = none) :
    Move D s i parks (.worker held written (.lock :: todo)) (.worker true written todo) s.shared
      (some i)
  | write (held written : Bool) (w : ω) (todo : List (MonitorOp ω)) :
    Move D s i parks (.worker held written (.write w :: todo)) (.worker held true todo)
      (D.apply w s.shared) s.holder
  | announce (held written : Bool) (todo : List (MonitorOp ω)) :
    Move D s i parks (.worker held written (.notify :: todo)) (.worker held false todo) s.shared
      s.holder
  | unlock (held written : Bool) (todo : List (MonitorOp ω)) :
    Move D s i parks (.worker held written (.unlock :: todo)) (.worker false written todo) s.shared
      none
  | enter (p : Party σ ω) (hp : p = .entering ∨ p = .waking) (hfree : s.holder = none) :
    Move D s i parks p (.testing D.conditions) s.shared (some i)
  | pass (c : Condition σ) (rest : List (Condition σ)) (hc : c.test s.shared = false) :
    Move D s i parks (.testing (c :: rest)) (.testing rest) s.shared s.holder
  | leave (rest : List (Condition σ)) : Move D s i parks (.testing rest) .returned s.shared none
  | park (hp : parks = true) : Move D s i parks (.testing []) .parked s.shared none
  | wake : Move D s i parks .parked .waking s.shared s.holder

section Steps

variable {D : MonitorCode σ ω κ} {s s' : Monitor σ ω} {i : ℕ} {parks : Bool} {p q : Party σ ω}
  {shared : σ} {holder : Option ℕ}

/-- A party moves; if it notifies, all waiters that are parked are woken. -/
theorem turn_eq_some (h : s.turn D i parks p = some s') :
    ∃ q, Move D s i parks p q s'.shared s'.holder ∧
      if p.notifies then s'.parties = (s.parties.set i q).map Party.wake
      else s'.parties = s.parties.set i q := by
  cases p with
  | worker held written todo =>
    cases todo with
    | nil => cases h
    | cons op todo =>
      cases op with
      | lock =>
        rw [turn, Option.ite_none_right_eq_some] at h
        obtain ⟨hfree, h⟩ := h
        obtain rfl := Option.some.inj h
        exact ⟨_, .lock held written todo (Option.isNone_iff_eq_none.1 hfree), rfl⟩
      | write w =>
        obtain rfl := Option.some.inj h
        exact ⟨_, .write held written w todo, rfl⟩
      | notify =>
        obtain rfl := Option.some.inj h
        exact ⟨_, .announce held written todo, rfl⟩
      | unlock =>
        obtain rfl := Option.some.inj h
        exact ⟨_, .unlock held written todo, rfl⟩
  | entering | waking =>
    rw [turn, Option.ite_none_right_eq_some] at h
    obtain ⟨hfree, h⟩ := h
    obtain rfl := Option.some.inj h
    exact ⟨_, .enter _ (by simp) (Option.isNone_iff_eq_none.1 hfree), rfl⟩
  | testing rest =>
    cases rest with
    | nil =>
      obtain rfl := Option.some.inj h
      cases parks with
      | true => exact ⟨_, .park rfl, rfl⟩
      | false => exact ⟨_, .leave [], rfl⟩
    | cons c rest =>
      rw [turn] at h
      split_ifs at h with hc
      · obtain rfl := Option.some.inj h
        exact ⟨_, .leave (c :: rest), rfl⟩
      · obtain rfl := Option.some.inj h
        exact ⟨_, .pass c rest (by simpa using hc), rfl⟩
  | parked =>
    obtain rfl := Option.some.inj h
    exact ⟨_, .wake, rfl⟩
  | returned => cases h

/-- What is counted of the parties changes by what the party that moves contributes. -/
theorem countP_turn {f : Party σ ω → Bool} (hwake : ∀ p, f p.wake = f p)
    (hi : s.parties[i]? = some p) (h : s.turn D i parks p = some s') :
    ∃ q, Move D s i parks p q s'.shared s'.holder ∧
      s'.parties.countP f + share f p = s.parties.countP f + share f q := by
  obtain ⟨q, hm, hset⟩ := turn_eq_some h
  refine ⟨q, hm, ?_⟩
  have hcount : s'.parties.countP f = (s.parties.set i q).countP f := by
    split_ifs at hset
    · rw [hset, List.countP_map]
      exact congrArg (List.countP · _) (funext hwake)
    · rw [hset]
  rw [hcount, countP_set_add hi]

theorem busy_wake (p : Party σ ω) : p.wake.busy = p.busy := by
  cases p <;> rfl

/-- A party that moves and has not finished then had not finished before. -/
theorem Move.busy (hm : Move D s i parks p q shared holder) :
    share Party.busy q ≤ share Party.busy p := by
  cases hm with
  | lock | write | announce | unlock => exact share_le_one Party.busy _
  | _ => exact Nat.zero_le _

/-- There are never more workers under way than there can be. -/
theorem busy_le_step (hs : s.busy ≤ D.limit) {a : MonitorEvent κ} (h : s.step D a = some s') :
    s'.busy ≤ D.limit := by
  unfold busy at hs ⊢
  cases a with
  | wait =>
    obtain rfl := Option.some.inj h
    rw [countP_concat]
    exact hs
  | work c =>
    rw [step, Option.ite_none_right_eq_some] at h
    obtain ⟨hlt, h⟩ := h
    obtain rfl := Option.some.inj h
    have hone := share_le_one Party.busy (.worker false false (D.program c) : Party σ ω)
    rw [countP_concat]
    unfold busy at hlt
    omega
  | turn i parks =>
    obtain ⟨p, hi, ht⟩ := Option.bind_eq_some_iff.1 h
    obtain ⟨q, hm, hadd⟩ := countP_turn busy_wake hi ht
    have hle := hm.busy
    omega

theorem Move.forall_todo {P : List (MonitorOp ω) → Prop} (hm : Move D s i parks p q shared holder)
    (htail : ∀ op todo, P (op :: todo) → P todo)
    (hp : ∀ held written todo, p = .worker held written todo → P todo) :
    ∀ held written todo, q = .worker held written todo → P todo := by
  cases hm with
  | lock _ _ todo | write _ _ _ todo | announce _ _ todo | unlock _ _ todo =>
    rintro _ _ _ ⟨⟩
    exact htail _ todo (hp _ _ _ rfl)
  | _ => rintro _ _ _ ⟨⟩

/-- What is left of a program keeps a property that every program has and that its tails inherit. -/
theorem forall_todo_step {P : List (MonitorOp ω) → Prop} (hprogram : ∀ c, P (D.program c))
    (htail : ∀ op todo, P (op :: todo) → P todo)
    (hs : ∀ held written todo, .worker held written todo ∈ s.parties → P todo)
    {a : MonitorEvent κ} (h : s.step D a = some s') :
    ∀ held written todo, .worker held written todo ∈ s'.parties → P todo := by
  cases a with
  | wait =>
    obtain rfl := Option.some.inj h
    intro held written todo hw
    exact hs held written todo (by simpa using hw)
  | work c =>
    rw [step, Option.ite_none_right_eq_some] at h
    obtain rfl := Option.some.inj h.2
    intro held written todo hw
    rcases List.mem_append.1 hw with hw | hw
    · exact hs held written todo hw
    · obtain ⟨-, -, rfl⟩ := Party.worker.inj (List.mem_singleton.1 hw)
      exact hprogram c
  | turn i parks =>
    obtain ⟨p, hi, ht⟩ := Option.bind_eq_some_iff.1 h
    obtain ⟨q, hm, hset⟩ := turn_eq_some ht
    have hp : ∀ held written todo, p = .worker held written todo → P todo :=
      fun held written todo e => hs held written todo (e ▸ List.mem_of_getElem? hi)
    have hq := hm.forall_todo htail hp
    intro held written todo hw
    have hmem : .worker held written todo ∈ s.parties.set i q := by
      split_ifs at hset
      · rw [hset] at hw
        obtain ⟨r, hr, hwake⟩ := List.mem_map.1 hw
        cases r with
        | worker => exact hwake ▸ hr
        | _ => cases hwake
      · exact hset ▸ hw
    rcases List.mem_or_eq_of_mem_set hmem with hmem | hmem
    · exact hs held written todo hmem
    · exact hq held written todo hmem.symm

end Steps

/-! ## The lock -/

/-- What holds in every state: the parties that hold the lock are its holder, the conditions a
waiter has passed and that are `locked` still do not hold, and what is left of every program is as
it should be. -/
structure Sound (D : MonitorCode σ ω κ) (s : Monitor σ ω) : Prop where
  holder_lt : ∀ i, s.holder = some i → i < s.parties.length
  holds : ∀ i p, s.parties[i]? = some p → (p.holds = true ↔ s.holder = some i)
  passed : ∀ rest, .testing rest ∈ s.parties → ∃ pre, D.conditions = pre ++ rest ∧
    ∀ c ∈ pre, c.locked = true → c.test s.shared = false
  lawful : ∀ held written todo, .worker held written todo ∈ s.parties →
    D.Announces todo ∧ D.Disciplined held todo

/-- A party's program is as it should be. -/
def ProgramLawful (D : MonitorCode σ ω κ) (p : Party σ ω) : Prop :=
  ∀ held written todo, p = .worker held written todo → D.Announces todo ∧ D.Disciplined held todo

section Keep

variable {D : MonitorCode σ ω κ} {s s' : Monitor σ ω} {i : ℕ} {parks : Bool} {p q : Party σ ω}
  {shared : σ} {h : Option ℕ} {a : MonitorEvent κ}

/-- A move keeps the holder of the lock right, for the party that moves and for all others. -/
theorem Move.holds (hm : Move D s i parks p q shared h) (hlaw : ProgramLawful D p)
    (hp : p.holds = true ↔ s.holder = some i) :
    (q.holds = true ↔ h = some i) ∧ ∀ j, j ≠ i → (h = some j ↔ s.holder = some j) := by
  cases hm with
  | lock held written todo hfree | enter _ _ hfree =>
    exact ⟨iff_of_true rfl rfl, fun j hj => by simp [hfree, hj.symm]⟩
  | write held written | announce held written => exact ⟨hp, fun j _ => Iff.rfl⟩
  | unlock held written todo =>
    have hheld := (hlaw _ _ _ rfl).2.1
    have hi := hp.1 hheld
    exact ⟨by simp [Party.holds], fun j hj => by simp [hi, hj.symm]⟩
  | pass c rest hc => exact ⟨hp, fun j _ => Iff.rfl⟩
  | leave rest | park =>
    have hi := hp.1 rfl
    exact ⟨by simp [Party.holds], fun j hj => by simp [hi, hj.symm]⟩
  | wake => exact ⟨hp, fun j _ => Iff.rfl⟩

theorem Move.lawful (hm : Move D s i parks p q shared h) (hlaw : ProgramLawful D p) :
    ProgramLawful D q := by
  cases hm with
  | lock held written todo =>
    rintro _ _ _ ⟨⟩
    exact hlaw held written (.lock :: todo) rfl
  | write held written w todo =>
    rintro _ _ _ ⟨⟩
    obtain ⟨hann, hdis⟩ := hlaw _ _ _ rfl
    exact ⟨hann.2, hdis.2⟩
  | announce held written todo =>
    rintro _ _ _ ⟨⟩
    exact hlaw held written (.notify :: todo) rfl
  | unlock held written todo =>
    rintro _ _ _ ⟨⟩
    obtain ⟨hann, hdis⟩ := hlaw _ _ _ rfl
    exact ⟨hann, hdis.2⟩
  | _ => rintro _ _ _ ⟨⟩

/-- A move makes no condition that is `locked` hold while another party holds the lock. -/
theorem Move.locked (hm : Move D s i parks p q shared h) (hlaw : ProgramLawful D p)
    (hp : p.holds = true ↔ s.holder = some i) {j : ℕ} (hj : s.holder = some j) (hij : j ≠ i)
    {c : Condition σ} (hc : c ∈ D.conditions) (hlocked : c.locked = true)
    (hno : c.test s.shared = false) : c.test shared = false := by
  cases hm with
  | write held written w todo =>
    obtain ⟨hheld | hkeep, -⟩ := (hlaw _ _ _ rfl).2
    · exact absurd (Option.some.inj ((hp.1 hheld).symm.trans hj)).symm hij
    · by_contra hyes
      rw [hkeep c hc hlocked _ (by simpa using hyes)] at hno
      cases hno
  | _ => exact hno

/-- The conditions that a waiter has passed when it gets to `rest`. -/
theorem Move.passed {rest : List (Condition σ)} (hm : Move D s i parks p (.testing rest) shared h)
    (hs : s.Sound D) (hp : p ∈ s.parties) : ∃ pre, D.conditions = pre ++ rest ∧
      ∀ c ∈ pre, c.locked = true → c.test shared = false := by
  cases hm with
  | enter => exact ⟨[], rfl, fun c hc => absurd hc List.not_mem_nil⟩
  | pass c rest hno =>
    obtain ⟨pre, hpre, hpassed⟩ := hs.passed _ hp
    refine ⟨pre ++ [c], by rw [hpre, List.append_assoc, List.singleton_append], ?_⟩
    intro c' hc' hlocked
    rcases List.mem_append.1 hc' with hc' | hc'
    · exact hpassed c' hc' hlocked
    · rw [List.mem_singleton.1 hc']
      exact hno

theorem getElem?_set_cases {l : List (Party σ ω)} {i j : ℕ} {p q : Party σ ω}
    (h : (l.set i q)[j]? = some p) : j = i ∧ p = q ∨ j ≠ i ∧ l[j]? = some p := by
  rw [List.getElem?_set] at h
  by_cases hij : i = j
  · rw [if_pos hij] at h
    split_ifs at h
    exact .inl ⟨hij.symm, (Option.some.inj h).symm⟩
  · rw [if_neg hij] at h
    exact .inr ⟨fun e => hij e.symm, h⟩

theorem Sound.move (hs : s.Sound D) (hi : s.parties[i]? = some p)
    (hm : Move D s i parks p q s'.shared s'.holder) (hset : s'.parties = s.parties.set i q) :
    s'.Sound D := by
  have hmem := List.mem_of_getElem? hi
  have hlaw : ProgramLawful D p := fun held written todo e => hs.lawful held written todo (e ▸ hmem)
  have hp := hs.holds i p hi
  obtain ⟨hq, hothers⟩ := hm.holds hlaw hp
  constructor
  · intro j hj
    rw [hset, List.length_set]
    by_cases hji : j = i
    · exact hji ▸ (List.getElem?_eq_some_iff.1 hi).1
    · exact hs.holder_lt j ((hothers j hji).1 hj)
  · intro j r hr
    rw [hset] at hr
    obtain ⟨rfl, rfl⟩ | ⟨hj, hr⟩ := getElem?_set_cases hr
    · exact hq
    · rw [hothers j hj]
      exact hs.holds j r hr
  · intro rest hrest
    rw [hset] at hrest
    obtain ⟨j, hr⟩ := List.mem_iff_getElem?.1 hrest
    obtain ⟨rfl, rfl⟩ | ⟨hj, hr⟩ := getElem?_set_cases hr
    · exact hm.passed hs hmem
    · -- another waiter tests, so it holds the lock
      have hjholds := (hs.holds j _ hr).1 rfl
      obtain ⟨pre, hpre, hpassed⟩ := hs.passed rest (List.mem_of_getElem? hr)
      refine ⟨pre, hpre, fun c hc hlocked => ?_⟩
      have hcmem : c ∈ D.conditions := hpre ▸ List.mem_append_left _ hc
      exact hm.locked hlaw hp hjholds hj hcmem hlocked (hpassed c hc hlocked)
  · intro held written todo hw
    rw [hset] at hw
    rcases List.mem_or_eq_of_mem_set hw with hw | hw
    · exact hs.lawful held written todo hw
    · exact hm.lawful hlaw held written todo hw.symm

theorem holds_wake (p : Party σ ω) : p.wake.holds = p.holds := by
  cases p <;> rfl

/-- Waking the waiters changes nothing else. -/
theorem Sound.wake (hs : s.Sound D) (hshared : s'.shared = s.shared)
    (hholder : s'.holder = s.holder) (hparties : s'.parties = s.parties.map Party.wake) :
    s'.Sound D := by
  have hmem : ∀ {p : Party σ ω}, p ∈ s'.parties → p ≠ .waking → p ∈ s.parties := by
    intro p hp hne
    rw [hparties] at hp
    obtain ⟨q, hq, rfl⟩ := List.mem_map.1 hp
    cases q with
    | parked => exact absurd rfl hne
    | _ => exact hq
  constructor
  · intro j hj
    rw [hparties, List.length_map]
    exact hs.holder_lt j (hholder ▸ hj)
  · intro j r hr
    rw [hparties, List.getElem?_map, Option.map_eq_some_iff] at hr
    obtain ⟨p, hp, rfl⟩ := hr
    rw [holds_wake, hholder]
    exact hs.holds j p hp
  · intro rest hrest
    rw [hshared]
    exact hs.passed rest (hmem hrest (by simp))
  · exact fun held written todo hw => hs.lawful held written todo (hmem hw (by simp))

/-- A party that has just started. -/
theorem Sound.start (hs : s.Sound D) {p : Party σ ω} (hp : p.holds = false)
    (hlaw : ProgramLawful D p) (htest : ∀ rest, p ≠ .testing rest) :
    ({ s with parties := s.parties ++ [p] } : Monitor σ ω).Sound D := by
  constructor
  · intro j hj
    have hlt := hs.holder_lt j hj
    rw [List.length_append]
    omega
  · intro j r hr
    by_cases hj : j < s.parties.length
    · rw [List.getElem?_append_left hj] at hr
      exact hs.holds j r hr
    · have hno : s.holder ≠ some j := fun h => hj (hs.holder_lt j h)
      rw [List.getElem?_append_right (Nat.le_of_not_lt hj)] at hr
      obtain rfl := List.mem_singleton.1 (List.mem_of_getElem? hr)
      exact iff_of_false (by simp [hp]) hno
  · intro rest hrest
    rcases List.mem_append.1 hrest with hrest | hrest
    · exact hs.passed rest hrest
    · exact absurd (List.mem_singleton.1 hrest).symm (htest rest)
  · intro held written todo hw
    rcases List.mem_append.1 hw with hw | hw
    · exact hs.lawful held written todo hw
    · exact hlaw held written todo (List.mem_singleton.1 hw).symm

theorem Sound.step (hD : D.Lawful) (hs : s.Sound D) (h : s.step D a = some s') : s'.Sound D := by
  cases a with
  | wait =>
    obtain rfl := Option.some.inj h
    exact hs.start rfl (by rintro _ _ _ ⟨⟩) (by simp)
  | work c =>
    rw [Monitor.step, Option.ite_none_right_eq_some] at h
    obtain rfl := Option.some.inj h.2
    refine hs.start rfl ?_ (by simp)
    rintro _ _ _ ⟨⟩
    exact ⟨hD.announces c, hD.disciplined c⟩
  | turn i parks =>
    obtain ⟨p, hi, ht⟩ := Option.bind_eq_some_iff.1 h
    obtain ⟨q, hm, hset⟩ := turn_eq_some ht
    split_ifs at hset
    · have hmoved : ({ s' with parties := s.parties.set i q } : Monitor σ ω).Sound D :=
        hs.move hi hm rfl
      exact hmoved.wake rfl rfl hset
    · exact hs.move hi hm hset

end Keep

/-! ## Lost waiters -/

section Lost

variable {D : MonitorCode σ ω κ} {s s' : Monitor σ ω} {i : ℕ} {parks : Bool} {p q : Party σ ω}
  {shared : σ} {h : Option ℕ} {a : MonitorEvent κ}

/-- A worker that is about to notify still is after a step that does not notify. -/
theorem Move.pending (hm : Move D s i parks p q shared h) (hno : p.notifies = false)
    {held : Bool} {todo : List (MonitorOp ω)} (hp : p = .worker held true todo)
    (htodo : .notify ∈ todo) : ∃ held' todo', q = .worker held' true todo' ∧ .notify ∈ todo' := by
  subst hp
  cases hm with
  | lock _ _ todo => exact ⟨_, todo, rfl, by simpa using htodo⟩
  | write _ _ w todo => exact ⟨_, todo, rfl, by simpa using htodo⟩
  | announce => cases hno
  | unlock _ _ todo => exact ⟨_, todo, rfl, by simpa using htodo⟩
  | enter _ hp => simp at hp

theorem Pending.move (hpending : s.Pending) (hi : s.parties[i]? = some p)
    (hm : Move D s i parks p q shared h) (hno : p.notifies = false)
    (hset : s'.parties = s.parties.set i q) : s'.Pending := by
  obtain ⟨held, todo, hw, htodo⟩ := hpending
  obtain ⟨hlt, -⟩ := List.getElem?_eq_some_iff.1 hi
  obtain ⟨j, hj⟩ := List.mem_iff_getElem?.1 hw
  by_cases hji : j = i
  · subst hji
    obtain ⟨held', todo', hq, htodo'⟩ := hm.pending hno (Option.some.inj (hi.symm.trans hj)) htodo
    refine ⟨held', todo', ?_, htodo'⟩
    rw [hset, ← hq]
    exact List.mem_set hlt q
  · refine ⟨held, todo, List.mem_iff_getElem?.2 ⟨j, ?_⟩, htodo⟩
    rw [hset, List.getElem?_set_ne (Ne.symm hji)]
    exact hj

/-- A condition that holds after a move held before it, or the party that moved has written and is
about to notify. -/
theorem Move.test (hm : Move D s i parks p q shared h) (hlaw : ProgramLawful D p)
    (hrelied : s.Relied D) (hp : p ∈ s.parties) {c : Condition σ} (hc : c ∈ D.conditions)
    (hyes : c.test shared = true) :
    c.test s.shared = true ∨ ∃ held todo, q = .worker held true todo ∧ .notify ∈ todo := by
  cases hm with
  | write held written w todo =>
    obtain ⟨hnotify | hkeep, -⟩ := (hlaw _ _ _ rfl).1
    · exact .inr ⟨held, todo, rfl, hnotify⟩
    · exact .inl (hkeep c hc _ (hrelied held written w todo hp) hyes)
  | _ => exact .inl hyes

theorem Move.of_parked (hm : Move D s i parks p .parked shared h) :
    p = .testing [] ∧ parks = true ∧ shared = s.shared := by
  cases hm with
  | park hp => exact ⟨rfl, hp, rfl⟩

/-- When a waiter parks, no condition that is `locked` holds. -/
theorem Sound.not_locked (hs : s.Sound D) (hi : s.parties[i]? = some (.testing []))
    {c : Condition σ} (hc : c ∈ D.conditions) (hyes : c.test s.shared = true) :
    c.locked = false := by
  obtain ⟨pre, hpre, hpassed⟩ := hs.passed [] (List.mem_of_getElem? hi)
  rw [List.append_nil] at hpre
  by_contra hlocked
  rw [hpassed c (hpre ▸ hc) (by simpa using hlocked)] at hyes
  cases hyes

theorem not_parked_map_wake (l : List (Party σ ω)) : .parked ∉ l.map Party.wake := by
  intro hm
  obtain ⟨p, -, hp⟩ := List.mem_map.1 hm
  cases p <;> cases hp

/-- A move makes no waiter lost, except one that parks too late. -/
theorem not_lost_move (hs : s.Sound D) (hrelied : s.Relied D) (hl : ¬ s.Lost D)
    (hi : s.parties[i]? = some p) (hm : Move D s i parks p q s'.shared s'.holder)
    (hno : p.notifies = false) (hset : s'.parties = s.parties.set i q)
    (hg : p = .testing [] → q = .parked →
      (∃ c ∈ D.conditions, c.locked = false ∧ c.test s.shared = true) → s.Pending) :
    ¬ s'.Lost D := by
  rintro ⟨hparked, ⟨c, hc, hyes⟩, hnone⟩
  have hmem := List.mem_of_getElem? hi
  have hlaw : ProgramLawful D p := fun held written todo e => hs.lawful held written todo (e ▸ hmem)
  have hpending : ¬ s.Pending := fun hp => hnone (hp.move hi hm hno hset)
  rw [hset] at hparked
  -- the condition held before, as nobody is about to notify
  have hbefore : c.test s.shared = true := by
    obtain hbefore | ⟨held, todo, hq, htodo⟩ := hm.test hlaw hrelied hmem hc hyes
    · exact hbefore
    · refine absurd ⟨held, todo, ?_, htodo⟩ hnone
      rw [hset, ← hq]
      exact List.mem_set (List.getElem?_eq_some_iff.1 hi).1 q
  rcases List.mem_or_eq_of_mem_set hparked with hparked | hparked
  · exact hl ⟨hparked, ⟨c, hc, hbefore⟩, hpending⟩
  · subst hparked
    obtain ⟨rfl, -⟩ := hm.of_parked
    exact hpending (hg rfl rfl ⟨c, hc, hs.not_locked hi hc hbefore, hbefore⟩)

theorem not_lost_start (hl : ¬ s.Lost D) (hp : p ≠ .parked) :
    ¬ ({ s with parties := s.parties ++ [p] } : Monitor σ ω).Lost D := by
  rintro ⟨hparked, hyes, hnone⟩
  rcases List.mem_append.1 hparked with hparked | hparked
  · refine hl ⟨hparked, hyes, ?_⟩
    rintro ⟨held, todo, hw, htodo⟩
    exact hnone ⟨held, todo, List.mem_append_left _ hw, htodo⟩
  · exact hp (List.mem_singleton.1 hparked).symm

/-- No step that is in time makes a waiter lost. -/
theorem not_lost_step (hs : s.Sound D) (hrelied : s.Relied D) (hl : ¬ s.Lost D)
    (hg : ParksInTime D s a) (h : s.step D a = some s') : ¬ s'.Lost D := by
  cases a with
  | wait =>
    obtain rfl := Option.some.inj h
    exact not_lost_start hl (by simp)
  | work c =>
    rw [step, Option.ite_none_right_eq_some] at h
    obtain rfl := Option.some.inj h.2
    exact not_lost_start hl (by simp)
  | turn i parks =>
    obtain ⟨p, hi, ht⟩ := Option.bind_eq_some_iff.1 h
    obtain ⟨q, hm, hset⟩ := turn_eq_some ht
    split_ifs at hset with hno
    · rintro ⟨hparked, -⟩
      rw [hset] at hparked
      exact not_parked_map_wake _ hparked
    · refine not_lost_move hs hrelied hl hi hm (by simpa using hno) hset fun hp hq => ?_
      subst hp hq
      obtain ⟨-, rfl, -⟩ := hm.of_parked
      exact hg hi

/-- A waiter that parks too late is lost at once. -/
theorem parksInTime_of_not_lost (h : s.step D a = some s') (hl : ¬ s'.Lost D) :
    ParksInTime D s a := by
  cases a with
  | turn i parks =>
    cases parks with
    | true =>
      rintro hi ⟨c, hc, -, hyes⟩
      by_contra hnone
      rw [step, hi, Option.bind_some] at h
      obtain rfl := Option.some.inj h
      refine hl ⟨List.mem_set (List.getElem?_eq_some_iff.1 hi).1 _, ⟨c, hc, hyes⟩, ?_⟩
      rintro ⟨held, todo, hw, htodo⟩
      rcases List.mem_or_eq_of_mem_set hw with hw | hw
      · exact hnone ⟨held, todo, hw, htodo⟩
      · cases hw
    | false => trivial
  | _ => trivial

/-- Where an invariant grants what the writes rely on, no waiter is lost along a run if and only if
none parks too late. -/
theorem throughout_not_lost_iff {I : Monitor σ ω → Prop} (hD : D.Lawful)
    (keep : ∀ s a s', I s → s.step D a = some s' → I s') (hrelied : ∀ s, I s → s.Relied D)
    (h₀ : I s) (hs : s.Sound D) (hl : ¬ s.Lost D) {as : List (MonitorEvent κ)}
    (hr : run (step D) s as = some s') :
    Throughout (step D) (fun s => ¬ s.Lost D) s as ↔ Guarded (step D) (ParksInTime D) s as :=
  throughout_iff_guarded_within (J := fun s => s.Sound D ∧ I s)
    (fun _ _ _ hs h => ⟨hs.1.step hD h, keep _ _ _ hs.2 h⟩)
    (fun _ _ _ hs hl hg h => not_lost_step hs.1 (hrelied _ hs.2) hl hg h)
    (fun _ _ _ _ _ h hl => parksInTime_of_not_lost h hl) ⟨hs, h₀⟩ hl hr

end Lost

end Monitor

end Spot
