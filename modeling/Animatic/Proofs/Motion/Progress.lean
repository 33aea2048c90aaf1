import Animatic.Motion.ShapeTween
import Animatic.Proofs.Number.Comparison

/-!
# Progress

The progress of a motion is a number and no more than one, whatever its times are. It is one from the
moment on that the motion is at its end.

* `AtEnd`: when a motion is at its end.
* `one_le_progressAt_iff`, `progressAt_eq_one`: what the progress tells of it.
* `atEnd_iff`: among finite times it is the elapsed time that decides.
-/

namespace Animatic

open Number
open Float.Model (Format UnpackedFloat)
open Float.Model.UnpackedFloat

/-- Whether a motion is at its end: its duration is not positive, or the share of it that has elapsed
is not below one. -/
def AtEnd (elapsed duration : Float) : Prop := ¬ (0 < duration ∧ elapsed / duration < 1)

instance (elapsed duration : Float) : Decidable (AtEnd elapsed duration) :=
  inferInstanceAs (Decidable (¬ _))

variable {elapsed duration : Float}

theorem isNaN_zero : (0 : Float).isNaN = false := by decide

theorem isNaN_one : (1 : Float).isNaN = false := by decide

private theorem isNaN_div_of_isNaN (x : Float) {y : Float} (hy : y.isNaN = true) :
    (x / y).isNaN = true := by
  rw [← isNaN_exact, exact_div, isNaN_unpack_pack, Number.isNaN_iff.mp hy]
  cases exact x <;> rfl

/-- What is not below one is cut to it, as is what is not a number. -/
private theorem least_one (x : Float) : ¬ x < 1 ∧ least x 1 = 1 ∨ x < 1 ∧ least x 1 = x := by
  rw [least]
  cases hx : x.isNaN with
  | true =>
    refine .inl ⟨fun h => ?_, rfl⟩
    rw [(numbers_of_lt h).1] at hx
    cases hx
  | false =>
    rw [if_neg Bool.false_ne_true]
    by_cases hbelow : x < 1
    · refine .inr ⟨hbelow, if_neg fun habove => ?_⟩
      rw [lt_iff_rank isNaN_one hx] at habove
      rw [lt_iff_rank hx isNaN_one] at hbelow
      omega
    · refine .inl ⟨hbelow, ?_⟩
      split
      · rfl
      · rename_i habove
        have hone : rank 1 ≠ 0 := by decide
        rw [lt_iff_rank isNaN_one hx] at habove
        rw [lt_iff_rank hx isNaN_one] at hbelow
        exact eq_of_rank_eq (by omega) hone

/-- The progress of a motion that is not at its end is the share that has elapsed. -/
private theorem progressAt_cases (elapsed duration : Float) :
    AtEnd elapsed duration ∧ progressAt elapsed duration = 1 ∨
      ¬ AtEnd elapsed duration ∧ progressAt elapsed duration = elapsed / duration := by
  rw [progressAt, AtEnd, not_not]
  by_cases hduration : duration ≤ 0
  · obtain ⟨hnumber, -⟩ := numbers_of_le hduration
    exact .inl ⟨fun h => (not_le_iff hnumber isNaN_zero).mpr h.1 hduration, if_pos hduration⟩
  rw [if_neg hduration]
  rcases least_one (elapsed / duration) with ⟨hlt, hleast⟩ | ⟨hlt, hleast⟩
  · exact .inl ⟨fun h => hlt h.2, hleast⟩
  · have hnumber : duration.isNaN = false := by
      by_contra h
      have hquotient := isNaN_div_of_isNaN elapsed (Bool.not_eq_false _ ▸ h)
      rw [(numbers_of_lt hlt).1] at hquotient
      cases hquotient
    exact .inr ⟨⟨(not_le_iff hnumber isNaN_zero).mp hduration, hlt⟩, hleast⟩

theorem progressAt_eq_one (h : AtEnd elapsed duration) : progressAt elapsed duration = 1 :=
  (progressAt_cases elapsed duration).resolve_right (fun hcase => hcase.1 h) |>.2

/-- A motion is complete when it is at its end. -/
theorem one_le_progressAt_iff : 1 ≤ progressAt elapsed duration ↔ AtEnd elapsed duration := by
  have hone : (1 : Float) ≤ 1 := by decide
  rcases progressAt_cases elapsed duration with ⟨hend, h⟩ | ⟨hend, h⟩
  · rw [h]
    exact iff_of_true hone hend
  · refine iff_of_false (fun hle => ?_) hend
    rw [h] at hle
    have hlt := (not_not.mp hend).2
    exact (not_le_iff isNaN_one (numbers_of_lt hlt).1).mpr hlt hle

/-- The progress is a number, even if the times are not. -/
theorem isNaN_progressAt (elapsed duration : Float) :
    (progressAt elapsed duration).isNaN = false := by
  rcases progressAt_cases elapsed duration with ⟨-, h⟩ | ⟨hend, h⟩
  · rw [h]
    exact isNaN_one
  · rw [h]
    exact (numbers_of_lt (not_not.mp hend).2).1

/-- With a finite duration, and unless the elapsed time is infinite downwards, a motion is at its end
once its duration has elapsed. -/
theorem atEnd_iff (hduration : (exact duration).isFinite = true) (helapsed : elapsed.isNaN = false)
    (hdown : exact elapsed ≠ .infinity .negative) :
    AtEnd elapsed duration ↔ duration ≤ 0 ∨ duration ≤ elapsed := by
  have hnumber := isNaN_eq_false_of_isFinite hduration
  by_cases hle : duration ≤ 0
  · exact iff_of_true (fun h => (not_le_iff hnumber isNaN_zero).mpr h.1 hle) (.inl hle)
  · have hpos := (not_le_iff hnumber isNaN_zero).mp hle
    have hvalue : 0 < value (exact duration) := (lt_iff_value rfl hduration).mp hpos
    have hquotient := isNaN_div_of_pos helapsed hdown hduration hvalue
    rw [AtEnd, and_iff_right hpos, or_iff_right hle,
      ← one_le_div_iff helapsed hdown hduration hvalue, ← not_le_iff isNaN_one hquotient, not_not]

end Animatic
