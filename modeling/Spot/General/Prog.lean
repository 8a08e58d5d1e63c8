import Mathlib.Data.List.Basic
import Mathlib.Tactic.Common

/-!
# Programs that ask questions

A sequential program acts on its surroundings by asking questions: `Prog A α` is the type of
programs that ask questions `q`, are answered in `A q` and end with a value in `α`.  What is done to
the surroundings is a question with a trivial answer.

* `Prog.Run`: the complete runs of a program, with their traces of questions and answers;
* `Prog.Safe`: what may be asked after which trace, and what holds at the end, as long as all
  answers meet an assumption; `safe_bind` and the rules after it are those of a program logic, and
  `Safe.run` says what they mean for runs;
* the same for programs that may fail, `Prog.Fallible`.
-/

namespace Spot

universe u v w

/-- A program asking questions `q`, answered in `A q`. -/
inductive Prog {Q : Type u} (A : Q → Type v) (α : Type w) : Type (max u v w)
  | ret (a : α)
  | ask (q : Q) (k : A q → Prog A α)

/-- A question and its answer. -/
abbrev Asked {Q : Type u} (A : Q → Type v) : Type (max u v) := (q : Q) × A q

namespace Prog

section

variable {Q : Type u} {A : Q → Type v} {α β : Type w}

/-- Sequential composition. -/
protected def bind : Prog A α → (α → Prog A β) → Prog A β
  | ret a, f => f a
  | ask q k, f => ask q fun a => (k a).bind f

instance : Monad (Prog A) where
  pure := ret
  bind := Prog.bind

/-- The complete runs of a program. -/
def Run : Prog A α → List (Asked A) → α → Prop
  | ret a, tr, r => tr = [] ∧ a = r
  | ask q k, tr, r => ∃ a tr', tr = ⟨q, a⟩ :: tr' ∧ (k a).Run tr' r

theorem run_bind {p : Prog A α} {f : α → Prog A β} {tr : List (Asked A)} {r : β} :
    (p >>= f).Run tr r ↔ ∃ tr₁ a tr₂, tr = tr₁ ++ tr₂ ∧ p.Run tr₁ a ∧ (f a).Run tr₂ r := by
  induction p generalizing tr with
  | ret a =>
    constructor
    · intro h
      exact ⟨[], a, tr, rfl, ⟨rfl, rfl⟩, h⟩
    · rintro ⟨_, _, tr₂, rfl, ⟨rfl, rfl⟩, h⟩
      exact h
  | ask q k ih =>
    constructor
    · rintro ⟨a, tr', rfl, h⟩
      obtain ⟨tr₁, b, tr₂, rfl, h₁, h₂⟩ := (ih a).1 h
      exact ⟨⟨q, a⟩ :: tr₁, b, tr₂, rfl, ⟨a, tr₁, rfl, h₁⟩, h₂⟩
    · rintro ⟨_, b, tr₂, rfl, ⟨a, tr₁, rfl, h₁⟩, h₂⟩
      exact ⟨a, tr₁ ++ tr₂, rfl, (ih a).2 ⟨tr₁, b, tr₂, rfl, h₁, h₂⟩⟩

@[simp] theorem run_map {p : Prog A α} {g : α → β} {tr : List (Asked A)} {r : β} :
    (g <$> p).Run tr r ↔ ∃ a, p.Run tr a ∧ g a = r := by
  show (p >>= fun a => pure (g a)).Run tr r ↔ _
  rw [run_bind]
  constructor
  · rintro ⟨tr₁, a, tr₂, rfl, h, rfl, rfl⟩
    exact ⟨a, by rwa [List.append_nil], rfl⟩
  · rintro ⟨a, h, rfl⟩
    exact ⟨tr, a, [], (List.append_nil tr).symm, h, rfl, rfl⟩

/-- The answers determine how a run goes on and what it ends with. -/
theorem Run.of_append {p : Prog A α} {tr tr' : List (Asked A)} {r r' : α} (h : p.Run tr r)
    (h' : p.Run (tr ++ tr') r') : tr' = [] ∧ r = r' := by
  induction p generalizing tr with
  | ret a =>
    obtain ⟨rfl, rfl⟩ := h
    exact h'
  | ask q k ih =>
    obtain ⟨a, tr₁, rfl, h⟩ := h
    obtain ⟨a', tr₂, heq, h'⟩ := h'
    obtain ⟨hq, rfl⟩ := List.cons_eq_cons.1 heq
    obtain rfl := eq_of_heq (Sigma.mk.inj hq).2
    exact ih a h h'

theorem Run.unique {p : Prog A α} {tr : List (Asked A)} {r r' : α} (h : p.Run tr r)
    (h' : p.Run tr r') : r = r' := by
  rw [← List.append_nil tr] at h'
  exact (h.of_append h').2

/-- A program among others that ask more: its questions are those of the form `g q`. -/
def embed {Q' : Type*} {A' : Q' → Type*} (g : Q → Q') : Prog (fun q => A' (g q)) α → Prog A' α
  | ret a => ret a
  | ask q k => ask (g q) fun a => (k a).embed g

theorem run_embed {Q' : Type*} {A' : Q' → Type*} {g : Q → Q'} {p : Prog (fun q => A' (g q)) α}
    {tr : List (Asked A')} {r : α} :
    (p.embed g).Run tr r ↔ ∃ tr₀, p.Run tr₀ r ∧ tr = tr₀.map fun e => ⟨g e.1, e.2⟩ := by
  induction p generalizing tr with
  | ret a =>
    constructor
    · rintro ⟨rfl, rfl⟩
      exact ⟨[], ⟨rfl, rfl⟩, rfl⟩
    · rintro ⟨tr₀, ⟨rfl, rfl⟩, rfl⟩
      exact ⟨rfl, rfl⟩
  | ask q k ih =>
    constructor
    · rintro ⟨a, tr', rfl, h⟩
      obtain ⟨tr₀, hr, rfl⟩ := (ih a).1 h
      exact ⟨⟨q, a⟩ :: tr₀, ⟨a, tr₀, rfl, hr⟩, rfl⟩
    · rintro ⟨_, ⟨a, tr₀, rfl, hr⟩, rfl⟩
      exact ⟨a, _, rfl, (ih a).2 ⟨tr₀, hr, rfl⟩⟩

/-- Every question after a trace meets `G`, and every result `P`, if all answers meet `R`. -/
def Safe (G : List (Asked A) → Q → Prop) (R : Asked A → Prop) (P : List (Asked A) → α → Prop) :
    Prog A α → List (Asked A) → Prop
  | ret a, tr => P tr a
  | ask q k, tr => G tr q ∧ ∀ a, R ⟨q, a⟩ → (k a).Safe G R P (tr ++ [⟨q, a⟩])

variable {G G' : List (Asked A) → Q → Prop} {R R' : Asked A → Prop}
  {P P' : List (Asked A) → α → Prop} {P₂ : List (Asked A) → β → Prop} {p : Prog A α}
  {f : α → Prog A β} {tr : List (Asked A)}

@[simp] theorem safe_pure {a : α} : (pure a : Prog A α).Safe G R P tr ↔ P tr a := Iff.rfl

@[simp] theorem safe_bind :
    (p >>= f).Safe G R P₂ tr ↔ p.Safe G R (fun tr a => (f a).Safe G R P₂ tr) tr := by
  induction p generalizing tr with
  | ret a => exact Iff.rfl
  | ask q k ih => exact and_congr_right fun _ => forall₂_congr fun a _ => ih a

@[simp] theorem safe_map {g : α → β} :
    (g <$> p).Safe G R P₂ tr ↔ p.Safe G R (fun tr a => P₂ tr (g a)) tr := by
  show (p >>= fun a => pure (g a)).Safe G R P₂ tr ↔ _
  rw [safe_bind]
  exact Iff.rfl

/-- The rule of consequence. -/
theorem Safe.mono (h : p.Safe G R P tr) (hG : ∀ tr q, G tr q → G' tr q) (hR : ∀ e, R' e → R e)
    (hP : ∀ tr a, P tr a → P' tr a) : p.Safe G' R' P' tr := by
  induction p generalizing tr with
  | ret a => exact hP tr a h
  | ask q k ih => exact ⟨hG tr q h.1, fun a ha => ih a (h.2 a (hR _ ha))⟩

theorem Safe.post (h : p.Safe G R P tr) (hP : ∀ tr a, P tr a → P' tr a) : p.Safe G R P' tr :=
  h.mono (fun _ _ => id) (fun _ => id) hP

/-- A safe program, run with answers as assumed, ends as it should and has asked what it may. -/
theorem Safe.run {tr₀ : List (Asked A)} {r : α} (h : p.Safe G R P tr₀) (hr : p.Run tr r)
    (hR : ∀ e ∈ tr, R e) :
    P (tr₀ ++ tr) r ∧ ∀ tr₁ e tr₂, tr = tr₁ ++ e :: tr₂ → G (tr₀ ++ tr₁) e.1 := by
  induction p generalizing tr tr₀ with
  | ret a =>
    obtain ⟨rfl, rfl⟩ := hr
    rw [List.append_nil]
    refine ⟨h, fun tr₁ e tr₂ he => ?_⟩
    simp at he
  | ask q k ih =>
    obtain ⟨a, tr', rfl, hr⟩ := hr
    have hsafe := h.2 a (hR _ List.mem_cons_self)
    obtain ⟨hP, hG⟩ := ih a hsafe hr fun e he => hR e (List.mem_cons_of_mem _ he)
    rw [List.append_assoc] at hP
    refine ⟨hP, fun tr₁ e tr₂ he => ?_⟩
    cases tr₁ with
    | nil =>
      obtain ⟨rfl, -⟩ := List.cons_eq_cons.1 he
      rw [List.append_nil]
      exact h.1
    | cons e' tr₁ =>
      obtain ⟨rfl, htr⟩ := List.cons_eq_cons.1 he
      have hnext := hG tr₁ e tr₂ htr
      rwa [List.append_assoc] at hnext

/-- The questions of a safe program, if what may be asked does not depend on the trace. -/
theorem Safe.asked {G : Q → Prop} {tr₀ : List (Asked A)} {r : α} (h : p.Safe (fun _ => G) R P tr₀)
    (hr : p.Run tr r) (hR : ∀ e ∈ tr, R e) : ∀ e ∈ tr, G e.1 := by
  intro e he
  obtain ⟨tr₁, tr₂, htr⟩ := List.append_of_mem he
  exact (h.run hr hR).2 tr₁ e tr₂ htr

/-- A safe program, if what may be asked does not depend on the trace, ends after one of its own
runs, in which it asked what it may. -/
theorem Safe.history {G : Q → Prop} (h : p.Safe (fun _ => G) R P tr) :
    p.Safe (fun _ => G) R (fun tr' a => P tr' a ∧
      ∃ tr₁, tr' = tr ++ tr₁ ∧ p.Run tr₁ a ∧ ∀ e ∈ tr₁, G e.1) tr := by
  induction p generalizing tr with
  | ret a =>
    exact ⟨h, [], (List.append_nil tr).symm, ⟨rfl, rfl⟩, fun _ he => absurd he List.not_mem_nil⟩
  | ask q k ih =>
    refine ⟨h.1, fun a ha => (ih a (h.2 a ha)).post ?_⟩
    rintro tr' b ⟨hP, tr₁, rfl, hrun, hG⟩
    refine ⟨hP, ⟨q, a⟩ :: tr₁, by rw [List.append_assoc]; rfl, ⟨a, tr₁, rfl, hrun⟩, ?_⟩
    rintro e he
    rcases List.mem_cons.1 he with rfl | he
    · exact h.1
    · exact hG e he

/-- Whatever the answers, a program has a run. -/
theorem exists_run (o : ∀ q, A q) (p : Prog A α) :
    ∃ tr r, p.Run tr r ∧ ∀ e ∈ tr, e.2 = o e.1 := by
  induction p with
  | ret a => exact ⟨[], a, ⟨rfl, rfl⟩, fun e he => absurd he List.not_mem_nil⟩
  | ask q k ih =>
    obtain ⟨tr, r, hr, ho⟩ := ih (o q)
    refine ⟨⟨q, o q⟩ :: tr, r, ⟨o q, tr, rfl, hr⟩, fun e he => ?_⟩
    rcases List.mem_cons.1 he with rfl | he
    · rfl
    · exact ho e he

end

/-! ## Programs that may fail -/

/-- A program that ends with a value or with an error. -/
abbrev Fallible (ε : Type w) {Q : Type u} (A : Q → Type v) (α : Type w) : Type (max u v w) :=
  ExceptT ε (Prog A) α

section

variable {Q : Type u} {A : Q → Type w} {ε α β : Type w} {G : List (Asked A) → Q → Prop}
  {R : Asked A → Prop} {tr : List (Asked A)}

/-- The program that asks one question. -/
def once (q : Q) : Prog A (A q) := ask q ret

@[simp] theorem safe_once {q : Q} {P : List (Asked A) → A q → Prop} :
    (once q).Safe G R P tr ↔ G tr q ∧ ∀ a, R ⟨q, a⟩ → P (tr ++ [⟨q, a⟩]) a := Iff.rfl

@[simp] theorem safe_run_liftM {p : Prog A α} {P : List (Asked A) → Except ε α → Prop} :
    (liftM p : Fallible ε A α).run.Safe G R P tr ↔ p.Safe G R (fun tr a => P tr (.ok a)) tr := by
  exact @safe_map _ _ _ _ G R (fun tr r => P tr r) p tr Except.ok

@[simp] theorem safe_run_except {x : Except ε α} {P : List (Asked A) → Except ε α → Prop} :
    (liftM x : Fallible ε A α).run.Safe G R P tr ↔ P tr x := Iff.rfl

@[simp] theorem safe_run_pure {a : α} {P : List (Asked A) → Except ε α → Prop} :
    (pure a : Fallible ε A α).run.Safe G R P tr ↔ P tr (.ok a) := Iff.rfl

@[simp] theorem safe_run_throw {e : ε} {P : List (Asked A) → Except ε α → Prop} :
    (throw e : Fallible ε A α).run.Safe G R P tr ↔ P tr (.error e) := Iff.rfl

/-- An error ends the program. -/
@[simp] theorem safe_run_bind {x : Fallible ε A α} {f : α → Fallible ε A β}
    {P : List (Asked A) → Except ε β → Prop} :
    (x >>= f).run.Safe G R P tr ↔
      x.run.Safe G R (fun tr r => match r with
        | .ok a => (f a).run.Safe G R P tr
        | .error e => P tr (.error e)) tr := by
  rw [ExceptT.run_bind, safe_bind]
  refine iff_of_eq (congrArg (fun P => Safe G R P x.run tr) (funext₂ fun tr r => ?_))
  cases r <;> rfl

/-- The runs of a sequence: of both programs, or of the first up to its error. -/
theorem run_run_bind {x : Fallible ε A α} {f : α → Fallible ε A β} {r : Except ε β} :
    (x >>= f).run.Run tr r ↔
      (∃ tr₁ a tr₂, tr = tr₁ ++ tr₂ ∧ x.run.Run tr₁ (.ok a) ∧ (f a).run.Run tr₂ r) ∨
        ∃ e, r = .error e ∧ x.run.Run tr (.error e) := by
  rw [ExceptT.run_bind, run_bind]
  constructor
  · rintro ⟨tr₁, a | a, tr₂, rfl, h₁, h₂⟩
    · obtain ⟨rfl, rfl⟩ := h₂
      rw [List.append_nil]
      exact .inr ⟨a, rfl, h₁⟩
    · exact .inl ⟨tr₁, a, tr₂, rfl, h₁, h₂⟩
  · rintro (⟨tr₁, a, tr₂, rfl, h₁, h₂⟩ | ⟨e, rfl, h⟩)
    · exact ⟨tr₁, .ok a, tr₂, rfl, h₁, h₂⟩
    · exact ⟨tr, .error e, [], (List.append_nil tr).symm, h, rfl, rfl⟩

/-- A question, and what follows it. -/
theorem run_run_once_bind {q : Q} {f : A q → Fallible ε A β} {r : Except ε β} :
    ((liftM (once q) : Fallible ε A (A q)) >>= f).run.Run tr r ↔
      ∃ a tr', tr = ⟨q, a⟩ :: tr' ∧ (f a).run.Run tr' r := Iff.rfl

/-- A program that does not fail, and what follows it. -/
theorem run_run_liftM_bind {p : Prog A α} {f : α → Fallible ε A β} {r : Except ε β} :
    ((liftM p : Fallible ε A α) >>= f).run.Run tr r ↔
      ∃ tr₁ a tr₂, tr = tr₁ ++ tr₂ ∧ p.Run tr₁ a ∧ (f a).run.Run tr₂ r := by
  rw [run_run_bind]
  constructor
  · rintro (⟨tr₁, a, tr₂, rfl, h, h'⟩ | ⟨e, -, h⟩)
    · obtain ⟨b, hb, hba⟩ := run_map.1 h
      obtain rfl := Except.ok.inj hba
      exact ⟨tr₁, b, tr₂, rfl, hb, h'⟩
    · obtain ⟨b, -, hba⟩ := run_map.1 h
      cases hba
  · rintro ⟨tr₁, a, tr₂, rfl, h, h'⟩
    exact .inl ⟨tr₁, a, tr₂, rfl, run_map.2 ⟨a, h, rfl⟩, h'⟩

/-- A result, and what follows it. -/
theorem run_run_except_bind {x : Except ε α} {f : α → Fallible ε A β} {b : β} :
    ((liftM x : Fallible ε A α) >>= f).run.Run tr (.ok b) ↔
      ∃ a, x = .ok a ∧ (f a).run.Run tr (.ok b) := by
  cases x with
  | ok a => exact ⟨fun h => ⟨a, rfl, h⟩, fun ⟨_, ha, h⟩ => Except.ok.inj ha ▸ h⟩
  | error e =>
    refine ⟨fun h => ?_, ?_⟩
    · obtain ⟨-, h⟩ := h
      cases h
    · rintro ⟨a, ⟨⟩, -⟩

@[simp] theorem run_run_pure {a : α} {r : Except ε α} :
    (pure a : Fallible ε A α).run.Run tr r ↔ tr = [] ∧ Except.ok a = r := Iff.rfl

@[simp] theorem run_run_except {x : Except ε α} {r : Except ε α} :
    (liftM x : Fallible ε A α).run.Run tr r ↔ tr = [] ∧ x = r := Iff.rfl

/-- A program with its errors changed. -/
@[simp] theorem run_run_adapt {ε' : Type w} {x : Fallible ε A α} {g : ε → ε'}
    {r : Except ε' α} :
    (ExceptT.adapt g x : Fallible ε' A α).run.Run tr r ↔
      ∃ r', x.run.Run tr r' ∧ r'.mapError g = r :=
  run_map

theorem run_run_adapt_ok {ε' : Type w} {x : Fallible ε A α} {g : ε → ε'} {a : α} :
    (ExceptT.adapt g x : Fallible ε' A α).run.Run tr (.ok a) ↔ x.run.Run tr (.ok a) := by
  rw [run_run_adapt]
  constructor
  · rintro ⟨r', h, heq⟩
    cases r' with
    | ok b =>
      obtain rfl := Except.ok.inj heq
      exact h
    | error e => cases heq
  · exact fun h => ⟨_, h, rfl⟩

theorem run_run_adapt_error {ε' : Type w} {x : Fallible ε A α} {g : ε → ε'} {e' : ε'} :
    (ExceptT.adapt g x : Fallible ε' A α).run.Run tr (.error e') ↔
      ∃ e, x.run.Run tr (.error e) ∧ g e = e' := by
  rw [run_run_adapt]
  constructor
  · rintro ⟨r', h, heq⟩
    cases r' with
    | ok b => cases heq
    | error e => exact ⟨e, h, Except.error.inj heq⟩
  · rintro ⟨e, h, rfl⟩
    exact ⟨_, h, rfl⟩

/-- The rule for a question and what follows it. -/
theorem safe_run_once_bind (q : Q) {f : A q → Fallible ε A β}
    {P : List (Asked A) → Except ε β → Prop} (hq : G tr q)
    (h : ∀ a, R ⟨q, a⟩ → (f a).run.Safe G R P (tr ++ [⟨q, a⟩])) :
    ((liftM (once q) : Fallible ε A (A q)) >>= f).run.Safe G R P tr := by
  rw [safe_run_bind, safe_run_liftM, safe_once]
  exact ⟨hq, h⟩

end

end Prog

end Spot
