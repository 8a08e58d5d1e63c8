import Mathlib.Algebra.Group.Int.Defs
import Mathlib.Algebra.Group.Nat.Defs
import Mathlib.Tactic.Common

/-!
# Durations and instants

Times in whole seconds and nanoseconds below a second: the seconds of a duration are an unsigned
number of 64 bits, those of an instant a signed one.  Adding carries the nanoseconds over and gives
nothing when the seconds overflow; `checkedAdd_cases` says that it otherwise adds numbers of
nanoseconds.
-/

namespace Spot

/-- The nanoseconds of a second. -/
abbrev nanosPerSec : ℕ := 1000000000

/-- A span of time. -/
structure Duration where
  secs : UInt64
  nanos : ℕ
  nanos_lt : nanos < nanosPerSec

namespace Duration

/-- The number of nanoseconds. -/
def total (d : Duration) : ℕ := d.secs.toNat * nanosPerSec + d.nanos

/-- The longest span. -/
def max : Duration := ⟨UInt64.ofNat (2 ^ 64 - 1), 999999999, by decide⟩

def fromSecs (secs : UInt64) : Duration := ⟨secs, 0, by decide⟩

/-- The span of some seconds and some nanoseconds, which may be more than a second. -/
def new (secs : UInt64) (nanos : UInt32) : Option Duration :=
  if h : nanos.toNat < nanosPerSec then some ⟨secs, nanos.toNat, h⟩
  else if secs.toNat + nanos.toNat / nanosPerSec < 2 ^ 64 then
    some ⟨UInt64.ofNat (secs.toNat + nanos.toNat / nanosPerSec), nanos.toNat % nanosPerSec,
      Nat.mod_lt _ (by decide)⟩
  else none

/-- The carry of the nanoseconds overflows the seconds, or the span is the sum of both. -/
theorem new_eq (secs : UInt64) (nanos : UInt32) :
    (∃ d, new secs nanos = some d ∧ d.total = secs.toNat * nanosPerSec + nanos.toNat) ∨
      new secs nanos = none ∧ 2 ^ 64 * nanosPerSec ≤ secs.toNat * nanosPerSec + nanos.toNat := by
  have hsecs := secs.toNat_lt
  unfold new
  split_ifs with hnanos hcarry
  · exact .inl ⟨_, rfl, rfl⟩
  · refine .inl ⟨_, rfl, ?_⟩
    have hmod : (UInt64.ofNat (secs.toNat + nanos.toNat / nanosPerSec)).toNat =
        secs.toNat + nanos.toNat / nanosPerSec := by
      rw [UInt64.toNat_ofNat', Nat.mod_eq_of_lt hcarry]
    simp only [total, hmod, nanosPerSec]
    omega
  · refine .inr ⟨rfl, ?_⟩
    simp only [nanosPerSec] at *
    omega

end Duration

/-- A point in time, counted from some fixed one. -/
structure Timespec where
  secs : ℤ
  nanos : ℕ
  secs_ge : -2 ^ 63 ≤ secs
  secs_lt : secs < 2 ^ 63
  nanos_lt : nanos < nanosPerSec

namespace Timespec

/-- The number of nanoseconds. -/
def total (t : Timespec) : ℤ := t.secs * nanosPerSec + t.nanos

/-- The point in time that others are counted from. -/
def zero : Timespec := ⟨0, 0, by decide, by decide, by decide⟩

/-- The first is not later than the second: the seconds are compared before the nanoseconds. -/
def NotAfter (t t' : Timespec) : Prop := t.secs < t'.secs ∨ t.secs = t'.secs ∧ t.nanos ≤ t'.nanos

instance : DecidableRel NotAfter := fun _ _ => inferInstanceAs (Decidable (_ ∨ _ ∧ _))

/-- Adds a span to an instant, unless the seconds overflow. -/
def checkedAdd (t : Timespec) (d : Duration) : Option Timespec :=
  if h : t.secs + d.secs.toNat < 2 ^ 63 then
    if hn : t.nanos + d.nanos < nanosPerSec then
      some
        { secs := t.secs + d.secs.toNat
          nanos := t.nanos + d.nanos
          secs_ge := by
            have hge := t.secs_ge
            omega
          secs_lt := h
          nanos_lt := hn }
    else if hc : t.secs + d.secs.toNat + 1 < 2 ^ 63 then
      some
        { secs := t.secs + d.secs.toNat + 1
          nanos := t.nanos + d.nanos - nanosPerSec
          secs_ge := by
            have hge := t.secs_ge
            omega
          secs_lt := hc
          nanos_lt := by
            have hlt := t.nanos_lt
            have hlt' := d.nanos_lt
            omega }
    else none
  else none

variable {t t' : Timespec}

@[simp] theorem total_zero : zero.total = 0 := by simp [total, zero]

theorem total_lt (t : Timespec) : t.total < 2 ^ 63 * nanosPerSec := by
  have hsecs := t.secs_lt
  have hnanos := t.nanos_lt
  unfold total nanosPerSec at *
  omega

theorem total_injective (h : t.total = t'.total) : t = t' := by
  obtain ⟨secs, nanos, _, _, hnanos⟩ := t
  obtain ⟨secs', nanos', _, _, hnanos'⟩ := t'
  simp only [total, nanosPerSec] at h hnanos hnanos'
  obtain rfl : secs = secs' := by omega
  obtain rfl : nanos = nanos' := by omega
  rfl

theorem notAfter_iff : t.NotAfter t' ↔ t.total ≤ t'.total := by
  have hlt := t.nanos_lt
  have hlt' := t'.nanos_lt
  unfold NotAfter total nanosPerSec at *
  omega

/-- The seconds of the sum overflow, or it is the sum. -/
theorem checkedAdd_cases (t : Timespec) (d : Duration) :
    (∃ t', t.checkedAdd d = some t' ∧ t'.total = t.total + d.total) ∨
      t.checkedAdd d = none ∧ 2 ^ 63 * nanosPerSec ≤ t.total + d.total := by
  have hlt := t.nanos_lt
  have hlt' := d.nanos_lt
  unfold checkedAdd
  split_ifs with hsecs hnanos hcarry
  · refine .inl ⟨_, rfl, ?_⟩
    simp only [total, Duration.total, nanosPerSec]
    omega
  · refine .inl ⟨_, rfl, ?_⟩
    show (t.secs + d.secs.toNat + 1) * 1000000000 + ((t.nanos + d.nanos - 1000000000 : ℕ) : ℤ) =
      t.secs * 1000000000 + t.nanos + ((d.secs.toNat * 1000000000 + d.nanos : ℕ) : ℤ)
    simp only [nanosPerSec] at hnanos
    omega
  · refine .inr ⟨rfl, ?_⟩
    simp only [total, Duration.total, nanosPerSec] at *
    omega
  · refine .inr ⟨rfl, ?_⟩
    simp only [total, Duration.total, nanosPerSec] at *
    omega

end Timespec

end Spot
