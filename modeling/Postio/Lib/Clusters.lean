import Mathlib.Logic.Relation

set_option autoImplicit false

namespace Postio.Clusters

/-! Clusters grown one item at a time. An item names labels, a label is claimed by at most one cluster, and an item joins
every cluster that claims a label of its own. -/

variable {Item Label Cluster : Type} (labels : Item -> List Label)

def Touches (items : Item -> Prop) (first second : Item) : Prop :=
  items first ∧ items second ∧ ∃ label ∈ labels first, label ∈ labels second

def Connected (items : Item -> Prop) : Item -> Item -> Prop := Relation.ReflTransGen (Touches labels items)

theorem touches_symm (items : Item -> Prop) (first second : Item) (touch : Touches labels items first second) :
    Touches labels items second first := by
  obtain ⟨here, there, label, one, other⟩ := touch
  exact ⟨there, here, label, other, one⟩

theorem connected_symm (items : Item -> Prop) (first second : Item) (connected : Connected labels items first second) :
    Connected labels items second first := by
  induction connected with
  | refl => exact Relation.ReflTransGen.refl
  | @tail middle last _ touch ih => exact Relation.ReflTransGen.head (touches_symm labels items middle last touch) ih

theorem connected_mono (items more : Item -> Prop) (wider : ∀ item, items item -> more item) (first second : Item)
    (connected : Connected labels items first second) : Connected labels more first second := by
  induction connected with
  | refl => exact Relation.ReflTransGen.refl
  | @tail middle last _ touch ih => exact ih.tail ⟨wider middle touch.1, wider last touch.2.1, touch.2.2⟩

/-- Every item is in a cluster, a label is claimed by the cluster of the items that name it, and what is together is
connected. -/
structure Clustered (items : Item -> Prop) (cluster : Item -> Option Cluster) (claim : Label -> Option Cluster) :
    Prop where
  placed : ∀ item, items item -> ∃ into, cluster item = some into
  claimed : ∀ label into, claim label = some into <->
    ∃ item, items item ∧ label ∈ labels item ∧ cluster item = some into
  joined : ∀ first second, items first -> items second -> cluster first = cluster second ->
    Connected labels items first second

theorem nothing_clustered (cluster : Item -> Option Cluster) (claim : Label -> Option Cluster)
    (items : Item -> Prop) (none : ∀ item, ¬ items item) (unclaimed : ∀ label, claim label = .none) :
    Clustered labels items cluster claim := by
  refine ⟨fun item there => absurd there (none item), ?_, fun first _ there => absurd there (none first)⟩
  intro label into
  rw [unclaimed]
  constructor
  next => exact fun impossible => by cases impossible
  next => exact fun ⟨item, there, _⟩ => absurd there (none item)

theorem Clustered.same_iff (items : Item -> Prop) (cluster : Item -> Option Cluster) (claim : Label -> Option Cluster)
    (clustered : Clustered labels items cluster claim) (first second : Item) (one : items first) (other : items second) :
    cluster first = cluster second <-> Connected labels items first second := by
  constructor
  next => exact clustered.joined first second one other
  next =>
    intro connected
    clear other
    induction connected with
    | refl => rfl
    | @tail middle last _ touch ih =>
      obtain ⟨here, there, label, mine, yours⟩ := touch
      obtain ⟨into, placed⟩ := clustered.placed middle here
      obtain ⟨next, beside⟩ := clustered.placed last there
      have claims := (clustered.claimed label into).mpr ⟨middle, here, mine, placed⟩
      have again := (clustered.claimed label next).mpr ⟨last, there, yours, beside⟩
      cases claims.symm.trans again
      exact ih.trans (placed.trans beside.symm)

def Found (claim : Label -> Option Cluster) (item : Item) (into : Cluster) : Prop :=
  ∃ label ∈ labels item, claim label = some into

/-- An item is added: what it finds is folded into one cluster, itself with it. -/
structure Adds (items : Item -> Prop) (cluster : Item -> Option Cluster) (claim : Label -> Option Cluster) (item : Item)
    (target : Cluster) (after : Item -> Option Cluster) (claims : Label -> Option Cluster) : Prop where
  aimed : Found labels claim item target ∨
    (∀ into, ¬ Found labels claim item into) ∧ ∀ other, items other -> cluster other ≠ some target
  own : after item = some target
  folded : ∀ other into, items other -> other ≠ item -> cluster other = some into -> Found labels claim item into ->
    after other = some target
  kept : ∀ other into, items other -> other ≠ item -> cluster other = some into -> ¬ Found labels claim item into ->
    after other = some into
  named : ∀ label ∈ labels item, claims label = some target
  unclaimed : ∀ label, label ∉ labels item -> claim label = none -> claims label = none
  passed : ∀ label into, label ∉ labels item -> claim label = some into -> Found labels claim item into ->
    claims label = some target
  left : ∀ label into, label ∉ labels item -> claim label = some into -> ¬ Found labels claim item into ->
    claims label = some into

variable (items : Item -> Prop) (cluster : Item -> Option Cluster) (claim : Label -> Option Cluster) (item : Item)
  (target : Cluster) (after : Item -> Option Cluster) (claims : Label -> Option Cluster)

theorem Adds.placed (clustered : Clustered labels items cluster claim)
    (adds : Adds labels items cluster claim item target after claims) (other : Item) (there : items other ∨ other = item) :
    ∃ into, after other = some into := by
  by_cases own : other = item
  next => exact ⟨target, own ▸ adds.own⟩
  next =>
    have old := there.resolve_right own
    obtain ⟨into, placed⟩ := clustered.placed other old
    by_cases found : Found labels claim item into
    next => exact ⟨target, adds.folded other into old own placed found⟩
    next => exact ⟨into, adds.kept other into old own placed found⟩

theorem Adds.claimed (clustered : Clustered labels items cluster claim)
    (adds : Adds labels items cluster claim item target after claims) (label : Label) (into : Cluster) :
    claims label = some into <->
      ∃ other, (items other ∨ other = item) ∧ label ∈ labels other ∧ after other = some into := by
  constructor
  next =>
    intro held
    by_cases mine : label ∈ labels item
    next =>
      cases (adds.named label mine).symm.trans held
      exact ⟨item, .inr rfl, mine, adds.own⟩
    next =>
      cases before : claim label with
      | none => cases (adds.unclaimed label mine before).symm.trans held
      | some old =>
        obtain ⟨other, there, names, placed⟩ := (clustered.claimed label old).mp before
        have apart : other ≠ item := fun same => mine (same ▸ names)
        by_cases found : Found labels claim item old
        next =>
          cases (adds.passed label old mine before found).symm.trans held
          exact ⟨other, .inl there, names, adds.folded other old there apart placed found⟩
        next =>
          have same := (adds.left label old mine before found).symm.trans held
          exact ⟨other, .inl there, names, (adds.kept other old there apart placed found).trans same⟩
  next =>
    rintro ⟨other, there, names, held⟩
    by_cases own : other = item
    next =>
      subst own
      rw [adds.named label names, ← held, adds.own]
    next =>
      have old := there.resolve_right own
      obtain ⟨before, placed⟩ := clustered.placed other old
      have claimed := (clustered.claimed label before).mpr ⟨other, old, names, placed⟩
      by_cases found : Found labels claim item before
      next =>
        cases (adds.folded other before old own placed found).symm.trans held
        by_cases mine : label ∈ labels item
        next => exact adds.named label mine
        next => exact adds.passed label before mine claimed found
      next =>
        have same := (adds.kept other before old own placed found).symm.trans held
        have mine : label ∉ labels item := fun mine => found ⟨label, mine, claimed⟩
        exact (adds.left label before mine claimed found).trans same

theorem Adds.reached (clustered : Clustered labels items cluster claim)
    (adds : Adds labels items cluster claim item target after claims) (other : Item) (there : items other ∨ other = item)
    (held : after other = some target) : Connected labels (fun one => items one ∨ one = item) other item := by
  by_cases own : other = item
  next =>
    rw [own]
    exact Relation.ReflTransGen.refl
  next =>
    have old := there.resolve_right own
    obtain ⟨before, placed⟩ := clustered.placed other old
    by_cases found : Found labels claim item before
    next =>
      obtain ⟨label, mine, claimed⟩ := found
      obtain ⟨middle, here, names, beside⟩ := (clustered.claimed label before).mp claimed
      have reaches := clustered.joined other middle old here (placed.trans beside.symm)
      exact (connected_mono labels items _ (fun _ inside => .inl inside) other middle reaches).tail
        ⟨.inl here, .inr rfl, label, names, mine⟩
    next =>
      cases (adds.kept other before old own placed found).symm.trans held
      rcases adds.aimed with taken | ⟨-, unused⟩
      next => exact absurd taken found
      next => exact absurd placed (unused other old)

theorem Adds.clustered (clustered : Clustered labels items cluster claim)
    (adds : Adds labels items cluster claim item target after claims) :
    Clustered labels (fun one => items one ∨ one = item) after claims := by
  refine ⟨adds.placed labels items cluster claim item target after claims clustered,
    adds.claimed labels items cluster claim item target after claims clustered, ?_⟩
  intro first second one other same
  have reached := adds.reached labels items cluster claim item target after claims clustered
  by_cases held : after first = some target
  next =>
    exact (reached first one held).trans
      (connected_symm labels _ second item (reached second other (same.symm.trans held)))
  next =>
    -- neither was folded, so they were together before
    have before : ∀ one, items one ∨ one = item -> after one ≠ some target -> items one ∧ after one = cluster one := by
      intro one there apart
      have own : one ≠ item := fun same => apart (same ▸ adds.own)
      have old := there.resolve_right own
      obtain ⟨into, placed⟩ := clustered.placed one old
      have found : ¬ Found labels claim item into := fun found => apart (adds.folded one into old own placed found)
      exact ⟨old, (adds.kept one into old own placed found).trans placed.symm⟩
    obtain ⟨here, was⟩ := before first one held
    obtain ⟨there, also⟩ := before second other (fun target => held (same.trans target))
    exact connected_mono labels items _ (fun _ inside => .inl inside) first second
      (clustered.joined first second here there (was.symm.trans (same.trans also)))

end Postio.Clusters
