import Spot.General.Prog
import Spot.General.Runs

/-!
# Programs that share a state

A `Pool` is a shared state and the programs that run on it, each answered one question at a time,
in any order.  `Pool.Contract` says that every program that is started is `Prog.Safe` and that the
state keeps an invariant when a question is answered that a safe program may ask; then the invariant
holds, and the programs stay safe, in every run of the pool (`Contract.invariant`).  Conversely
`reachable_of_act` gives runs of a pool: those in which a program is started and answered alone.
-/

namespace Spot

universe u v w

/-- A program on its way, with its trace so far. -/
structure Task {Q : Type u} (A : Q → Type v) (α : Type w) where
  trace : List (Asked A) := []
  prog : Prog A α

/-- A shared state, the questions answered so far, and the tasks. -/
structure Pool (σ : Type*) {Q : Type u} (A : Q → Type v) (α : Type w) where
  shared : σ
  log : List (Asked A) := []
  tasks : List (Task A α) := []

/-- What starts programs, and how the shared state answers their questions. -/
structure System (σ κ : Type*) {Q : Type u} (A : Q → Type v) (α : Type w) where
  /-- An event from outside changes the state and starts programs. -/
  act : σ → κ → Option (σ × List (Prog A α))
  /-- The answer to a question, when the outside would answer `a`. -/
  answer : σ → (q : Q) → A q → A q
  effect : σ → (q : Q) → A q → σ

namespace Pool

/-- An event from outside, or the answer to the question of a task. -/
inductive Event (κ : Type*) {Q : Type u} (A : Q → Type v)
  | act (c : κ)
  | answer (i : ℕ) (o : ∀ q, A q)

section

variable {σ κ : Type*} {Q : Type u} {A : Q → Type v} {α : Type w}

/-- Answers the question `q` of task `i`, which continues as `k`. -/
def reply (S : System σ κ A α) (s : Pool σ A α) (i : ℕ) (t : Task A α) (q : Q)
    (k : A q → Prog A α) (a : A q) : Pool σ A α where
  shared := S.effect s.shared q a
  log := s.log ++ [⟨q, a⟩]
  tasks := s.tasks.set i ⟨t.trace ++ [⟨q, a⟩], k a⟩

/-- One event. -/
def step (S : System σ κ A α) (s : Pool σ A α) : Event κ A → Option (Pool σ A α)
  | .act c => (S.act s.shared c).map fun r =>
    { s with shared := r.1, tasks := s.tasks ++ r.2.map fun prog => { prog } }
  | .answer i o => s.tasks[i]?.bind fun t =>
    match t.prog with
    | .ret _ => none
    | .ask q k => some (s.reply S i t q k (S.answer s.shared q (o q)))

/-- The answer of the event, if it is one, meets `H`. -/
def Meets (S : System σ κ A α) (H : Asked A → Prop) (s : Pool σ A α) : Event κ A → Prop
  | .act _ => True
  | .answer i o => ∀ t q k, s.tasks[i]? = some t → t.prog = .ask q k →
    H ⟨q, S.answer s.shared q (o q)⟩

/-- The state keeps the invariant `I`, and the programs that are started are safe: they ask what
meets `G`, if they are answered as in `R`, and end as in `P`. -/
structure Contract (S : System σ κ A α) (I : σ → List (Asked A) → Prop)
    (G : List (Asked A) → Q → Prop) (H R : Asked A → Prop) (P : List (Asked A) → α → Prop) :
    Prop where
  act {s s' : σ} {log : List (Asked A)} {c : κ} {ps : List (Prog A α)} :
    I s log → S.act s c = some (s', ps) → I s' log ∧ ∀ p ∈ ps, p.Safe G R P []
  answer {s : σ} {log tr : List (Asked A)} {q : Q} {a : A q} :
    I s log → (∀ e ∈ log, R e) → tr ⊆ log → G tr q → H ⟨q, S.answer s q a⟩ →
      R ⟨q, S.answer s q a⟩
  effect {s : σ} {log tr : List (Asked A)} {q : Q} {a : A q} :
    I s log → (∀ e ∈ log, R e) → tr ⊆ log → G tr q → R ⟨q, a⟩ →
      I (S.effect s q a) (log ++ [⟨q, a⟩])

/-- The invariant holds, what was asked and answered was as it should be, and the tasks are safe. -/
structure Sound (I : σ → List (Asked A) → Prop) (G : List (Asked A) → Q → Prop)
    (R : Asked A → Prop) (P : List (Asked A) → α → Prop) (s : Pool σ A α) : Prop where
  inv : I s.shared s.log
  log : ∀ e ∈ s.log, R e
  asked : ∀ e ∈ s.log, ∃ tr ⊆ s.log, G tr e.1
  trace : ∀ t ∈ s.tasks, t.trace ⊆ s.log
  safe : ∀ t ∈ s.tasks, t.prog.Safe G R P t.trace

variable {S : System σ κ A α} {I : σ → List (Asked A) → Prop} {G : List (Asked A) → Q → Prop}
  {H R : Asked A → Prop} {P : List (Asked A) → α → Prop} {s s' : Pool σ A α}

/-- An answer is given to a task that asks. -/
theorem step_answer_eq_some {i : ℕ} {o : ∀ q, A q} :
    step S s (.answer i o) = some s' ↔ ∃ t q k, s.tasks[i]? = some t ∧ t.prog = .ask q k ∧
      s' = s.reply S i t q k (S.answer s.shared q (o q)) := by
  rw [step, Option.bind_eq_some_iff]
  refine exists_congr fun t => ?_
  cases hq : t.prog with
  | ret r => simp
  | ask q k =>
    constructor
    · rintro ⟨ht, hs⟩
      exact ⟨q, k, ht, rfl, (Option.some.inj hs).symm⟩
    · rintro ⟨q', k', ht, hq', rfl⟩
      obtain ⟨rfl, hk⟩ := Prog.ask.inj hq'
      obtain rfl := eq_of_heq hk
      exact ⟨ht, rfl⟩

namespace Sound

theorem reply (h : s.Sound I G R P) (hS : Contract S I G H R P) {i : ℕ} {t : Task A α} {q : Q}
    {k : A q → Prog A α} {a : A q} (ht : t ∈ s.tasks) (hq : t.prog = .ask q k)
    (ha : R ⟨q, a⟩) : (s.reply S i t q k a).Sound I G R P := by
  have hsafe := h.safe t ht
  rw [hq] at hsafe
  constructor
  · exact hS.effect h.inv h.log (h.trace t ht) hsafe.1 ha
  · intro e he
    rcases List.mem_append.1 he with he | he
    · exact h.log e he
    · exact List.mem_singleton.1 he ▸ ha
  · intro e he
    rcases List.mem_append.1 he with he | he
    · obtain ⟨tr, hsub, htr⟩ := h.asked e he
      exact ⟨tr, List.subset_append_of_subset_left _ hsub, htr⟩
    · obtain rfl := List.mem_singleton.1 he
      exact ⟨t.trace, List.subset_append_of_subset_left _ (h.trace t ht), hsafe.1⟩
  · intro t' ht'
    rcases List.mem_or_eq_of_mem_set ht' with ht' | rfl
    · exact List.Subset.trans (h.trace t' ht') (List.subset_append_left _ _)
    · exact List.append_subset.2 ⟨List.Subset.trans (h.trace t ht) (List.subset_append_left _ _),
        List.subset_append_right _ _⟩
  · intro t' ht'
    rcases List.mem_or_eq_of_mem_set ht' with ht' | rfl
    · exact h.safe t' ht'
    · exact hsafe.2 a ha

theorem step (h : s.Sound I G R P) (hS : Contract S I G H R P) {e : Event κ A}
    (he : Meets S H s e) (hs : Pool.step S s e = some s') : s'.Sound I G R P := by
  cases e with
  | act c =>
    obtain ⟨⟨shared, ps⟩, hact, rfl⟩ := Option.map_eq_some_iff.1 hs
    obtain ⟨hinv, hsafe⟩ := hS.act h.inv hact
    constructor
    · exact hinv
    · exact h.log
    · exact h.asked
    · intro t ht
      rcases List.mem_append.1 ht with ht | ht
      · exact h.trace t ht
      · obtain ⟨p, -, rfl⟩ := List.mem_map.1 ht
        exact List.nil_subset _
    · intro t ht
      rcases List.mem_append.1 ht with ht | ht
      · exact h.safe t ht
      · obtain ⟨p, hp, rfl⟩ := List.mem_map.1 ht
        exact hsafe p hp
  | answer i o =>
    obtain ⟨t, q, k, ht, hq, rfl⟩ := step_answer_eq_some.1 hs
    have hmem := List.mem_of_getElem? ht
    have hsafe := h.safe t hmem
    rw [hq] at hsafe
    exact h.reply hS hmem hq
      (hS.answer h.inv h.log (h.trace t hmem) hsafe.1 (he t q k ht hq))

end Sound

theorem meets_of_forall {i : ℕ} {o : ∀ q, A q} (h : ∀ q, H ⟨q, S.answer s.shared q (o q)⟩) :
    Meets S H s (.answer i o) :=
  fun _ q _ _ _ => h q

/-- In a run whose answers meet `H`, a pool stays sound. -/
theorem Contract.invariant (hS : Contract S I G H R P) (h₀ : s.Sound I G R P)
    {es : List (Event κ A)} (hg : Guarded (step S) (Meets S H) s es)
    (hr : run (step S) s es = some s') : s'.Sound I G R P :=
  hg.invariant (fun _ _ _ h he hs => h.step hS he hs) h₀ hr

/-- In every run, if nothing is assumed of the answers. -/
theorem Contract.run (hS : Contract S I G (fun _ => True) R P) (h₀ : s.Sound I G R P)
    {es : List (Event κ A)} (hr : Spot.run (step S) s es = some s') : s'.Sound I G R P := by
  refine hS.invariant h₀ (Guarded.of_forall fun e _ s => ?_) hr
  cases e <;> simp [Meets]

/-- In every state of a run whose answers meet `H`, a pool is sound. -/
theorem Contract.throughout (hS : Contract S I G H R P) (h₀ : s.Sound I G R P)
    {es : List (Event κ A)} (hg : Guarded (step S) (Meets S H) s es) :
    Throughout (step S) (Sound I G R P) s es :=
  hg.throughout (fun _ _ _ h he hs => h.step hS he hs) h₀

/-- A pool without tasks and log is sound, if its state is. -/
theorem sound_start {shared : σ} (h : I shared []) :
    ({ shared } : Pool σ A α).Sound I G R P :=
  ⟨h, fun _ he => absurd he List.not_mem_nil, fun _ he => absurd he List.not_mem_nil,
    fun _ ht => absurd ht List.not_mem_nil, fun _ ht => absurd ht List.not_mem_nil⟩

end

end Pool

/-! ## A task that is answered alone -/

section Alone

variable {σ κ : Type*} {Q : Type u} {A : Q → Type v} {α : Type w}

/-- What the answers of a trace do to the state, one after the other. -/
def System.replay (S : System σ κ A α) (s : σ) (tr : List (Asked A)) : σ :=
  tr.foldl (fun s e => S.effect s e.1 e.2) s

/-- The state gives the answers of the trace, for some answers of the outside. -/
def System.Answers (S : System σ κ A α) : σ → List (Asked A) → Prop
  | _, [] => True
  | s, e :: tr => (∃ a, S.answer s e.1 a = e.2) ∧ S.Answers (S.effect s e.1 e.2) tr

namespace Pool

variable {S : System σ κ A α} {s : Pool σ A α} {p : Prog A α} {tr₀ tr : List (Asked A)} {r : α}

/-- A task can be answered up to the end of any run that the state allows. -/
theorem reachable_of_run (o : ∀ q, A q) {i : ℕ} (hi : s.tasks[i]? = some ⟨tr₀, p⟩)
    (hr : p.Run tr r) (hans : S.Answers s.shared tr) :
    ∃ s', Reachable (step S) s s' ∧ s'.shared = S.replay s.shared tr := by
  classical
  induction p generalizing s tr₀ tr with
  | ret a =>
    obtain ⟨rfl, -⟩ := hr
    exact ⟨s, .refl, rfl⟩
  | ask q k ih =>
    obtain ⟨a, tr', rfl, hr⟩ := hr
    obtain ⟨⟨a', ha'⟩, hans⟩ := hans
    have hstep : step S s (.answer i (Function.update o q a')) =
        some (s.reply S i ⟨tr₀, .ask q k⟩ q k a) :=
      step_answer_eq_some.2 ⟨_, q, k, hi, rfl, by rw [Function.update_self, ha']⟩
    have hnext : (s.reply S i ⟨tr₀, .ask q k⟩ q k a).tasks[i]? = some ⟨tr₀ ++ [⟨q, a⟩], k a⟩ :=
      List.getElem?_set_self (List.getElem?_eq_some_iff.1 hi).1
    obtain ⟨s', hreach, hshared⟩ := ih a hnext hr hans
    exact ⟨s', (Reachable.single hstep).trans hreach, hshared⟩

/-- So can the program that an event starts. -/
theorem reachable_of_act (o : ∀ q, A q) {c : κ} {shared : σ}
    (hact : S.act s.shared c = some (shared, [p])) (hr : p.Run tr r) (hans : S.Answers shared tr) :
    ∃ s', Reachable (step S) s s' ∧ s'.shared = S.replay shared tr := by
  have hstep : step S s (.act c) = some { s with shared, tasks := s.tasks ++ [{ prog := p }] } := by
    rw [step, hact]
    rfl
  obtain ⟨s', hreach, hshared⟩ := reachable_of_run
    (s := { s with shared, tasks := s.tasks ++ [{ prog := p }] }) o List.getElem?_concat_length hr
    hans
  exact ⟨s', (Reachable.single hstep).trans hreach, hshared⟩

end Pool

end Alone

end Spot
