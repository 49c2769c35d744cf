import Mathlib.Data.Finset.Card

set_option autoImplicit false

namespace Postio

/-! How many of a type have a property, for a counter kept beside the property. -/

def Counted {Item : Type} (has : Item -> Prop) (count : Nat) : Prop :=
  ∃ items : Finset Item, (∀ item, item ∈ items <-> has item) ∧ items.card = count

namespace Counted

variable {Item : Type}

variable (has now : Item -> Prop) (count : Nat)

theorem none (nobody : ∀ item, ¬ has item) : Counted has 0 :=
  ⟨∅, fun item => by simp [nobody item], rfl⟩

theorem unique (first second : Nat) (one : Counted has first) (other : Counted has second) :
    first = second := by
  obtain ⟨items, mem, rfl⟩ := one
  obtain ⟨others, mem', rfl⟩ := other
  have same : items = others := Finset.ext (fun item => (mem item).trans (mem' item).symm)
  rw [same]

theorem congr (counted : Counted has count) (same : ∀ item, now item <-> has item) : Counted now count:= by
  obtain ⟨items, mem, card⟩ := counted
  exact ⟨items, fun item => (mem item).trans (same item).symm, card⟩

theorem positive (counted : Counted has count) (item : Item) (there : has item) :
    0 < count := by
  obtain ⟨items, mem, rfl⟩ := counted
  exact Finset.card_pos.mpr ⟨item, (mem item).mpr there⟩

theorem insert (counted : Counted has count) (more : Item) (fresh : ¬ has more)
    (grown : ∀ item, now item <-> has item ∨ item = more) : Counted now (count + 1) := by
  classical
  obtain ⟨items, mem, rfl⟩ := counted
  refine ⟨items.cons more (fun there => fresh ((mem more).mp there)), fun item => ?_, Finset.card_cons _⟩
  rw [Finset.mem_cons, grown, mem, or_comm]

theorem erase (counted : Counted has count) (less : Item) (there : has less)
    (shrunk : ∀ item, now item <-> has item ∧ item ≠ less) : Counted now (count - 1) := by
  classical
  obtain ⟨items, mem, rfl⟩ := counted
  refine ⟨items.erase less, fun item => ?_, Finset.card_erase_of_mem ((mem less).mpr there)⟩
  rw [Finset.mem_erase, shrunk, mem, and_comm]

end Counted

end Postio
