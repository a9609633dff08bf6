import Mathlib

/-!
# Latches over a History

A latch is set by some samples of a history and reset by others; whether a sample does
either may depend on all the samples before it.

- `Latched`: some sample set the latch and none has reset it since
- `latched_concat`: what one more sample does to the latch
-/

namespace QModem.Lib

variable {α : Type}

/-- Some sample of the history set the latch, and no later one has reset it. -/
def Latched (sets resets : List α → α → Prop) (xs : List α) : Prop :=
  ∃ past x later, xs = past ++ x :: later ∧ sets past x ∧
    ∀ mid y rest, later = mid ++ y :: rest → ¬ resets (past ++ x :: mid) y

variable {sets resets : List α → α → Prop}

theorem not_latched_nil : ¬ Latched sets resets [] := by
  rintro ⟨past, x, later, h, _⟩
  simp at h

/-- A split of a history with one more sample is at that sample, or a split of the history. -/
theorem concat_eq_split {xs past later : List α} {x y : α} :
    xs ++ [x] = past ++ y :: later ↔
      later = [] ∧ xs = past ∧ x = y ∨ ∃ later', later = later' ++ [x] ∧ xs = past ++ y :: later' := by
  constructor
  · intro h
    -- the split is at the last element or before it
    rcases List.eq_nil_or_concat later with rfl | ⟨later', z, rfl⟩
    · obtain ⟨rfl, rfl⟩ : xs = past ∧ x = y := by simpa using h
      exact .inl ⟨rfl, rfl, rfl⟩
    · have h' : xs ++ [x] = (past ++ y :: later') ++ [z] := by simpa using h
      obtain ⟨hxs, hz⟩ := List.append_inj' h' rfl
      obtain rfl := List.singleton_inj.1 hz
      exact .inr ⟨later', by simp, hxs⟩
  · rintro (⟨rfl, rfl, rfl⟩ | ⟨later', rfl, rfl⟩)
    · rfl
    · simp

/-- After one more sample the latch is on if that sample set it, or if it was on and that sample
did not reset it. -/
theorem latched_concat (xs : List α) (x : α) :
    Latched sets resets (xs ++ [x]) ↔ sets xs x ∨ Latched sets resets xs ∧ ¬ resets xs x := by
  constructor
  · rintro ⟨past, y, later, hsplit, hset, hkept⟩
    -- the latch is set by the last element or stays set over it
    rcases concat_eq_split.1 hsplit with ⟨rfl, rfl, rfl⟩ | ⟨later', rfl, rfl⟩
    · exact .inl hset
    · refine .inr ⟨⟨past, y, later', rfl, hset, fun mid w rest hlater => ?_⟩, ?_⟩
      · exact hkept mid w (rest ++ [x]) (by simp [hlater])
      · exact hkept later' x [] rfl
  · rintro (hset | ⟨⟨past, y, later, rfl, hset, hkept⟩, hlast⟩)
    · exact ⟨xs, x, [], rfl, hset, by simp⟩
    · refine ⟨past, y, later ++ [x], by simp, hset, fun mid w rest hlater => ?_⟩
      rcases concat_eq_split.1 hlater with ⟨rfl, rfl, rfl⟩ | ⟨rest', rfl, rfl⟩
      · exact hlast
      · exact hkept mid w rest' rfl

end QModem.Lib
