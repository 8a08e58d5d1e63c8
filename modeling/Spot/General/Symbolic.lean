import Mathlib.Data.Set.Basic
import Mathlib.Tactic.Common

/-!
# Signed and encrypted envelopes

Symbolic cryptography of a payload in layers, each a signature or an encryption.  An adversary takes
envelopes apart and builds new ones, and can only sign with keys of its own: `Derives.origin` says
that every layer with another signature comes, with all that is under it, from an envelope that was
seen.
-/

namespace Spot

/-- A payload in layers, signed by signers in `σ` and encrypted for keys in `κ`. -/
inductive Envelope (κ σ π : Type*)
  | plain (p : π)
  | signed (s : σ) (e : Envelope κ σ π)
  | encrypted (ks : List κ) (e : Envelope κ σ π)

namespace Envelope

section

variable {κ σ π : Type*}

def payload : Envelope κ σ π → π
  | plain p => p
  | signed _ e | encrypted _ e => e.payload

/-- The number of layers of encryption. -/
def layers : Envelope κ σ π → ℕ
  | plain _ => 0
  | signed _ e => e.layers
  | encrypted _ e => e.layers + 1

def signers : Envelope κ σ π → List σ
  | plain _ => []
  | signed s e => s :: e.signers
  | encrypted _ e => e.signers

/-- Each layer of encryption is for some key that is held. -/
def Opens (held : κ → Prop) : Envelope κ σ π → Prop
  | plain _ => True
  | signed _ e => e.Opens held
  | encrypted ks e => (∃ k ∈ ks, held k) ∧ e.Opens held

instance Opens.decidable (held : κ → Prop) [DecidablePred held] :
    ∀ e : Envelope κ σ π, Decidable (e.Opens held)
  | plain _ => inferInstanceAs (Decidable True)
  | signed _ e => Opens.decidable held e
  | encrypted ks e =>
    have := Opens.decidable held e
    inferInstanceAs (Decidable ((∃ k ∈ ks, held k) ∧ e.Opens held))

/-- The envelope `u` is what some layers of another one are around. -/
inductive Within (u : Envelope κ σ π) : Envelope κ σ π → Prop
  | refl : Within u u
  | signed {s : σ} {e : Envelope κ σ π} : Within u e → Within u (.signed s e)
  | encrypted {ks : List κ} {e : Envelope κ σ π} : Within u e → Within u (.encrypted ks e)

/-- The second envelope is the first one with some signatures around it. -/
inductive Around (e : Envelope κ σ π) : Envelope κ σ π → Prop
  | refl : Around e e
  | signed {s : σ} {e' : Envelope κ σ π} : Around e e' → Around e (.signed s e')

/-- What an adversary can build from the envelopes in `seen`, with the keys in `forge` to sign and
those in `secret` to decrypt. -/
inductive Derives (forge : σ → Prop) (secret : κ → Prop) (seen : Set (Envelope κ σ π)) :
    Envelope κ σ π → Prop
  | seen {e : Envelope κ σ π} : e ∈ seen → Derives forge secret seen e
  | plain (p : π) : Derives forge secret seen (.plain p)
  | sign {s : σ} {e : Envelope κ σ π} : forge s → Derives forge secret seen e →
      Derives forge secret seen (.signed s e)
  | wrap (ks : List κ) {e : Envelope κ σ π} : Derives forge secret seen e →
      Derives forge secret seen (.encrypted ks e)
  | strip {s : σ} {e : Envelope κ σ π} : Derives forge secret seen (.signed s e) →
      Derives forge secret seen e
  | decrypt {ks : List κ} {k : κ} {e : Envelope κ σ π} : k ∈ ks → secret k →
      Derives forge secret seen (.encrypted ks e) → Derives forge secret seen e

variable {held : κ → Prop} {forge : σ → Prop} {secret : κ → Prop} {seen : Set (Envelope κ σ π)}
  {s : σ} {u e e' : Envelope κ σ π}

theorem Within.payload_eq (h : Within u e) : u.payload = e.payload := by
  induction h with
  | refl => rfl
  | signed _ ih | encrypted _ ih => exact ih

/-- What opens an envelope opens what is within. -/
theorem Within.opens (h : Within u e) (ho : e.Opens held) : u.Opens held := by
  induction h with
  | refl => exact ho
  | signed _ ih => exact ih ho
  | encrypted _ ih => exact ih ho.2

theorem mem_signers_iff : s ∈ e.signers ↔ ∃ u, Within (.signed s u) e := by
  induction e with
  | plain p =>
    refine ⟨fun h => absurd h List.not_mem_nil, ?_⟩
    rintro ⟨u, ⟨⟩⟩
  | signed s' e ih =>
    rw [signers, List.mem_cons, ih]
    constructor
    · rintro (rfl | ⟨u, hu⟩)
      · exact ⟨e, .refl⟩
      · exact ⟨u, .signed hu⟩
    · rintro ⟨u, hu⟩
      cases hu with
      | refl => exact .inl rfl
      | signed hu => exact .inr ⟨u, hu⟩
  | encrypted ks e ih =>
    rw [signers, ih]
    constructor
    · rintro ⟨u, hu⟩
      exact ⟨u, .encrypted hu⟩
    · rintro ⟨u, ⟨⟩⟩
      exact ⟨u, ‹_›⟩

/-- An envelope with layers of encryption is only opened with some key. -/
theorem exists_held (ho : e.Opens held) (hl : e.layers ≠ 0) : ∃ k, held k := by
  induction e with
  | plain p => exact absurd rfl hl
  | signed s e ih => exact ih ho hl
  | encrypted ks e ih =>
    obtain ⟨⟨k, -, hk⟩, -⟩ := ho
    exact ⟨k, hk⟩

theorem Around.opens_iff (h : Around e e') : e'.Opens held ↔ e.Opens held := by
  induction h with
  | refl => exact Iff.rfl
  | signed _ ih => exact ih

theorem Around.layers_eq (h : Around e e') : e'.layers = e.layers := by
  induction h with
  | refl => rfl
  | signed _ ih => exact ih

theorem Around.payload_eq (h : Around e e') : e'.payload = e.payload := by
  induction h with
  | refl => rfl
  | signed _ ih => exact ih

/-- A signature is one of those around an envelope, or within it. -/
theorem Around.within_signed (h : Around e e') (hu : Within (.signed s u) e') :
    Around e u ∨ Within (.signed s u) e := by
  induction h with
  | refl => exact .inr hu
  | signed h ih =>
    cases hu with
    | refl => exact .inl h
    | signed hu => exact ih hu

/-- A layer signed with a key that the adversary does not have comes from an envelope that was
seen. -/
theorem Derives.origin (h : Derives forge secret seen e) (hs : ¬ forge s)
    (hu : Within (.signed s u) e) : ∃ e' ∈ seen, Within (.signed s u) e' := by
  induction h with
  | seen he => exact ⟨_, he, hu⟩
  | plain p => cases hu
  | sign hforge _ ih =>
    cases hu with
    | refl => exact absurd hforge hs
    | signed hu => exact ih hu
  | wrap ks _ ih =>
    cases hu with
    | encrypted hu => exact ih hu
  | strip _ ih => exact ih (.signed hu)
  | decrypt _ _ _ ih => exact ih (.encrypted hu)

end

end Envelope

end Spot
