import MeterRadio.Bits.Basic

/-!
# Accesses to storage

What an operation does to the storage of a ring is more than its result shows: which bytes it looks
at and which ones it overwrites decides whether it stays inside the storage and out of the way of
the other side. `Traced` is a result together with the accesses that were made on the way to it.
-/

namespace MeterRadio

/-- An access to the storage of a ring. -/
inductive Access
  /-- Reads `len` bytes from `pos` on. -/
  | read (pos len : Nat)
  /-- Overwrites the bytes from `pos` on with `d`. -/
  | write (pos : Nat) (d : Bytes)
  deriving DecidableEq, Repr

namespace Access

/-- The first byte of an access. -/
def pos : Access → Nat
  | read pos _ => pos
  | write pos _ => pos

/-- The number of bytes of an access. -/
def len : Access → Nat
  | read _ len => len
  | write _ d => d.length

/-- Whether an access stays inside `size` bytes of storage. -/
def InBounds (size : Nat) (a : Access) : Prop :=
  a.pos + a.len ≤ size

/-- Whether an access changes byte `i`. -/
def Writes (i : Nat) : Access → Prop
  | read _ _ => False
  | write pos d => pos ≤ i ∧ i < pos + d.length

end Access

/-- A result and the accesses that led to it, in order. -/
structure Traced (α : Type) where
  value : α
  accesses : List Access

namespace Traced

variable {α β : Type}

instance : Monad Traced where
  pure a := ⟨a, []⟩
  bind t f :=
    let u := f t.value
    ⟨u.value, t.accesses ++ u.accesses⟩

@[simp] theorem value_pure (a : α) : (pure a : Traced α).value = a := rfl

@[simp] theorem accesses_pure (a : α) : (pure a : Traced α).accesses = [] := rfl

@[simp] theorem value_bind (t : Traced α) (f : α → Traced β) :
    (t >>= f).value = (f t.value).value := rfl

@[simp] theorem accesses_bind (t : Traced α) (f : α → Traced β) :
    (t >>= f).accesses = t.accesses ++ (f t.value).accesses := rfl

end Traced

end MeterRadio
