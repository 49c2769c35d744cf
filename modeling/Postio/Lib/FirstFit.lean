import Mathlib.Data.List.Basic
import Mathlib.Data.List.Nodup

set_option autoImplicit false

namespace Postio.FirstFit

variable {Item Key : Type} [BEq Key] (keys : Item -> List Key)

/-! Items taken in order, each unless it shares a key with one taken before it. -/

def taken : List Key -> List Item -> List Item
  | _, [] => []
  | claimed, item :: rest =>
    if (keys item).any (fun key => claimed.contains key) then taken claimed rest
    else item :: taken (keys item ++ claimed) rest

theorem taken_cons (claimed : List Key) (item : Item) (rest : List Item) :
    taken keys claimed (item :: rest) =
      if (keys item).any (fun key => claimed.contains key) then taken keys claimed rest
      else item :: taken keys (keys item ++ claimed) rest := rfl

def Claims (claimed : List Key) (item : Item) : Prop := ∃ key ∈ keys item, key ∈ claimed

theorem taken_sublist (claimed : List Key) (items : List Item) : (taken keys claimed items).Sublist items := by
  induction items generalizing claimed with
  | nil => exact List.Sublist.refl _
  | cons item rest ih =>
    unfold taken
    split
    next => exact (ih claimed).cons item
    next => exact (ih _).cons_cons item

theorem taken_append (claimed : List Key) (first second : List Item) :
    ∃ after, taken keys claimed (first ++ second) = taken keys claimed first ++ taken keys after second ∧
      ∀ key, key ∈ after <-> key ∈ claimed ∨ ∃ item ∈ taken keys claimed first, key ∈ keys item := by
  induction first generalizing claimed with
  | nil => exact ⟨claimed, rfl, by simp [taken]⟩
  | cons item rest ih =>
    by_cases blocked : (keys item).any (fun key => claimed.contains key) = true
    · obtain ⟨after, same, named⟩ := ih claimed
      refine ⟨after, ?_, ?_⟩
      · simp only [List.cons_append, taken, if_pos blocked]
        exact same
      · simp only [taken, if_pos blocked]
        exact named
    · obtain ⟨after, same, named⟩ := ih (keys item ++ claimed)
      refine ⟨after, ?_, ?_⟩
      · simp only [List.cons_append, taken, if_neg blocked, same]
      · intro key
        rw [named]
        simp only [taken, if_neg blocked, List.mem_append, List.mem_cons, exists_eq_or_imp]
        constructor
        · rintro ((own | before) | ⟨other, there, holds⟩)
          · exact .inr (.inl own)
          · exact .inl before
          · exact .inr (.inr ⟨other, there, holds⟩)
        · rintro (before | own | ⟨other, there, holds⟩)
          · exact .inl (.inr before)
          · exact .inl (.inl own)
          · exact .inr ⟨other, there, holds⟩

def HeldBack (items : List Item) (item : Item) : Prop :=
  ∃ before after, items = before ++ item :: after ∧ ∃ first ∈ taken keys [] before, ∃ key ∈ keys item, key ∈ keys first

variable [LawfulBEq Key]

theorem claims_iff (claimed : List Key) (item : Item) :
    (keys item).any (fun key => claimed.contains key) = true <-> Claims keys claimed item := by
  simp [Claims, List.any_eq_true]

theorem taken_iff (items : List Item) (distinct : items.Nodup) (item : Item) (there : item ∈ items) :
    item ∈ taken keys [] items <-> ¬ HeldBack keys items item := by
  obtain ⟨before, after, split⟩ := List.append_of_mem there
  obtain ⟨claimed, same, named⟩ := taken_append keys [] before (item :: after)
  have none_claimed : ∀ key, key ∈ claimed <-> ∃ first ∈ taken keys [] before, key ∈ keys first := by
    simpa using named
  have apart := List.nodup_append.mp (split ▸ distinct)
  have first_absent : item ∉ taken keys [] before := by
    intro early
    exact apart.2.2 item ((taken_sublist keys [] before).subset early) item List.mem_cons_self rfl
  have later_absent (keyed : List Key) : item ∉ taken keys keyed after := by
    intro late
    exact (List.nodup_cons.mp apart.2.1).1 ((taken_sublist keys keyed after).subset late)
  have decided : item ∈ taken keys [] items <-> ¬ Claims keys claimed item := by
    rw [split, same, ← claims_iff, List.mem_append, taken_cons]
    by_cases blocked : (keys item).any (fun key => claimed.contains key) = true
    · rw [if_pos blocked]
      exact iff_of_false (not_or.mpr ⟨first_absent, later_absent claimed⟩) (not_not.mpr blocked)
    · rw [if_neg blocked]
      exact iff_of_true (.inr List.mem_cons_self) blocked
  rw [decided, not_iff_not]
  constructor
  · rintro ⟨key, own, held⟩
    obtain ⟨first, early, shared⟩ := (none_claimed key).mp held
    exact ⟨before, after, split, first, early, key, own, shared⟩
  · rintro ⟨earlier, later, again, first, early, key, own, shared⟩
    have same_place : earlier = before := by
      have apart' := List.nodup_append.mp (again ▸ distinct)
      have outside : item ∉ earlier := fun inside => apart'.2.2 item inside item List.mem_cons_self rfl
      have ended : item ∉ later := (List.nodup_cons.mp apart'.2.1).1
      exact ((List.append_cons_inj_of_notMem outside ended).mp (again.symm.trans split)).1
    subst same_place
    exact ⟨key, own, (none_claimed key).mpr ⟨first, early, shared⟩⟩

theorem taken_all_iff (claimed : List Key) (items : List Item) :
    taken keys claimed items = items <->
      (∀ item ∈ items, ¬ Claims keys claimed item) ∧
        items.Pairwise (fun first second => ¬ ∃ key ∈ keys second, key ∈ keys first) := by
  induction items generalizing claimed with
  | nil => simp [taken]
  | cons item rest ih =>
    unfold taken
    split
    next blocked =>
      constructor
      · intro same
        have shorter := (taken_sublist keys claimed rest).length_le
        rw [same] at shorter
        exact absurd shorter (by simp)
      · rintro ⟨free, -⟩
        exact absurd ((claims_iff keys claimed item).mp blocked) (free item List.mem_cons_self)
    next free =>
      rw [List.cons.injEq, List.pairwise_cons, List.forall_mem_cons, ih]
      have open_now : ¬ Claims keys claimed item := fun claims => free ((claims_iff keys claimed item).mpr claims)
      have apart : ∀ other, ¬ Claims keys (keys item ++ claimed) other <->
          ¬ Claims keys claimed other ∧ ¬ ∃ key ∈ keys other, key ∈ keys item := by
        intro other
        simp only [Claims, List.mem_append]
        constructor
        · intro clear
          refine ⟨?_, ?_⟩
          · rintro ⟨key, own, held⟩
            exact clear ⟨key, own, .inr held⟩
          · rintro ⟨key, own, held⟩
            exact clear ⟨key, own, .inl held⟩
        · rintro ⟨clear, other_clear⟩ ⟨key, own, shared | held⟩
          · exact other_clear ⟨key, own, shared⟩
          · exact clear ⟨key, own, held⟩
      simp only [apart]
      constructor
      · rintro ⟨-, clear, pairwise⟩
        exact ⟨⟨open_now, fun other there => (clear other there).1⟩, fun other there => (clear other there).2, pairwise⟩
      · rintro ⟨⟨-, clear⟩, first, pairwise⟩
        exact ⟨trivial, fun other there => ⟨clear other there, first other there⟩, pairwise⟩

theorem taken_nil_iff (items : List Item) : taken keys [] items = [] <-> items = [] := by
  cases items with
  | nil => simp [taken]
  | cons item rest => simp [taken]

end Postio.FirstFit
