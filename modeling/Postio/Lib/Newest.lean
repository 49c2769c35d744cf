import Mathlib.Data.Finset.Max

set_option autoImplicit false

namespace Postio.Newest

variable {Entry : Type} [LinearOrder Entry]

/-! The greatest few of a finite set, kept as entries come in. -/

variable (count : Nat) (entries : Finset Entry) (entry : Entry)

def newest : Finset Entry :=
  entries.filter (fun entry => (entries.filter (fun other => entry < other)).card < count)

theorem mem_newest :
    entry ∈ newest count entries <-> entry ∈ entries ∧ (entries.filter (fun other => entry < other)).card < count := by
  simp [newest]

theorem newest_subset : newest count entries ⊆ entries := Finset.filter_subset _ _

theorem above_mono (first second : Finset Entry) (sub : first ⊆ second) (entry : Entry) :
    (first.filter (fun other => entry < other)).card ≤ (second.filter (fun other => entry < other)).card :=
  Finset.card_le_card (Finset.filter_subset_filter _ sub)

theorem count_le_above (dropped : Entry) (inside : dropped ∈ entries)
    (above : entry < dropped) (lost : dropped ∉ newest count entries) :
    count ≤ ((newest count entries).filter (fun other => entry < other)).card := by
  -- The greatest of those that were dropped has none but kept ones above it.
  let gone := entries.filter (fun other => entry < other ∧ other ∉ newest count entries)
  obtain ⟨greatest, member, last⟩ := gone.exists_max_image id ⟨dropped, by simp [gone, inside, above, lost]⟩
  simp only [gone, Finset.mem_filter, id] at member last
  have many : count ≤ (entries.filter (fun other => greatest < other)).card := by
    by_contra few
    exact member.2.2 ((mem_newest count entries greatest).mpr ⟨member.1, Nat.lt_of_not_le few⟩)
  refine many.trans (Finset.card_le_card (fun other higher => ?_))
  simp only [Finset.mem_filter] at higher ⊢
  have beyond := member.2.1.trans higher.2
  refine ⟨?_, beyond⟩
  by_contra missing
  exact absurd (last other ⟨higher.1, beyond, missing⟩) (not_le.mpr higher.2)

theorem newest_union (first second : Finset Entry) :
    newest count (newest count first ∪ second) = newest count (first ∪ second) := by
  have sub : newest count first ∪ second ⊆ first ∪ second := Finset.union_subset_union_left (newest_subset count first)
  ext entry
  simp only [mem_newest]
  constructor
  next =>
    rintro ⟨member, few⟩
    refine ⟨sub member, Nat.lt_of_not_le (fun many => ?_)⟩
    by_cases kept : ∀ other ∈ first, entry < other -> other ∈ newest count first
    case pos =>
      refine absurd (many.trans (Finset.card_le_card (fun other higher => ?_))) (not_le.mpr few)
      simp only [Finset.mem_filter, Finset.mem_union] at higher ⊢
      exact ⟨higher.1.imp_left (fun there => kept other there higher.2), higher.2⟩
    case neg =>
      push Not at kept
      obtain ⟨dropped, inside, above, lost⟩ := kept
      have full := count_le_above count first entry dropped inside above lost
      exact absurd (full.trans (above_mono _ _ Finset.subset_union_left entry)) (not_le.mpr few)
  next =>
    rintro ⟨member, few⟩
    refine ⟨?_, Nat.lt_of_le_of_lt (above_mono _ _ sub entry) few⟩
    rw [Finset.mem_union] at member ⊢
    refine member.imp_left (fun there => (mem_newest count first entry).mpr ⟨there, ?_⟩)
    exact Nat.lt_of_le_of_lt (above_mono _ _ Finset.subset_union_left entry) few

theorem newest_insert (entries : Finset Entry) :
    newest count (insert entry (newest count entries)) = newest count (insert entry entries) := by
  rw [← Finset.union_singleton, ← Finset.union_singleton]
  exact newest_union count entries {entry}

end Postio.Newest
