set_option autoImplicit false

namespace Postio

/-- Named once, so that every `∈` on text is decided by the same instance. -/
instance textLawful : LawfulBEq (List Char) := List.instLawfulBEq

structure AccountId where
  get : Nat
  deriving DecidableEq, Repr

structure MailboxId where
  get : Nat
  deriving DecidableEq, Repr

structure MessageId where
  get : Nat
  deriving DecidableEq, Repr

structure ThreadId where
  get : Nat
  deriving DecidableEq, Repr

structure DraftId where
  get : Nat
  deriving DecidableEq, Repr

structure LabelId where
  get : Nat
  deriving DecidableEq, Repr

structure OperationId where
  get : Nat
  deriving DecidableEq, Repr

structure BlobId where
  get : Nat
  deriving DecidableEq, Repr

structure CrossAccountMoveId where
  get : Nat
  deriving DecidableEq, Repr

structure DeliveryId where
  get : Nat
  deriving DecidableEq, Repr

structure RemoteId where
  get : Nat
  deriving DecidableEq, Repr

instance : LE OperationId := ⟨fun first second => first.get ≤ second.get⟩

instance : LT OperationId := ⟨fun first second => first.get < second.get⟩

instance (first second : OperationId) : Decidable (first ≤ second) :=
  inferInstanceAs (Decidable (first.get ≤ second.get))

instance (first second : OperationId) : Decidable (first < second) :=
  inferInstanceAs (Decidable (first.get < second.get))

theorem OperationId.le_def (first second : OperationId) : first ≤ second <-> first.get ≤ second.get := Iff.rfl

theorem OperationId.lt_def (first second : OperationId) : first < second <-> first.get < second.get := Iff.rfl

theorem OperationId.get_injective {first second : OperationId} (same : first.get = second.get) :
    first = second := by
  cases first
  cases second
  simpa using same

theorem MessageId.get_injective {first second : MessageId} (same : first.get = second.get) : first = second := by
  cases first
  cases second
  simpa using same

theorem DraftId.get_injective {first second : DraftId} (same : first.get = second.get) : first = second := by
  cases first
  cases second
  simpa using same

theorem ThreadId.get_injective {first second : ThreadId} (same : first.get = second.get) : first = second := by
  cases first
  cases second
  simpa using same

end Postio
