import Std.Data.HashMap

/-!
# Laying out machines

The states of a machine are laid out one after the other and numbered from zero on. Every state takes some of a room
that is limited, and laying out fails when the room does not suffice.

States that are alike can be shared. A memory finds the states that have been laid out before by their keys. It has a
fixed number of slots and a slot for every key; a new entry takes the place of the one that is in its slot, so a state
can be forgotten and be laid out again.
-/

namespace Lexeme.Pattern

/-- How far a machine has been laid out: the number of its states and the room that is left. -/
structure Layout where
  states : Nat
  room : Nat
deriving DecidableEq, Repr

/-- Work that lays out states as long as there is room. -/
abbrev Laying := StateT Layout Option

/-- Lays out states that take `size` each, and gives the number of the first. -/
def layStates (count size : Nat) : Laying Nat := fun layout =>
  if count * size ≤ layout.room then some (layout.states, ⟨layout.states + count, layout.room - count * size⟩)
  else none

/-- Lays out a state that takes `size`, and gives its number. -/
def layState (size : Nat) : Laying Nat := layStates 1 size

/-! ## Shared states -/

/-- What a state is known by. -/
abbrev StateKey := List Nat

/-- The keys and the numbers of states, by slot. -/
structure StateMemory where
  slots : Nat
  entries : Std.HashMap Nat (StateKey × Nat)

namespace StateMemory

/-- A memory with nothing in it. -/
def empty (slots : Nat) : StateMemory := ⟨slots, ∅⟩

/-- The word that a hash begins with. -/
def hashStart : UInt64 := 14695981039346656037

/-- The factor that a hash is multiplied by for each number. -/
def hashFactor : UInt64 := 1099511628211

/-- The hash of a key: its numbers are mixed into a word of 64 bits, each by an exclusive or and a product. -/
def hash (key : StateKey) : UInt64 :=
  key.foldl (fun word n => (word ^^^ n.toUInt64) * hashFactor) hashStart

/-- The slot of a key. -/
def slot (m : StateMemory) (key : StateKey) : Nat := (hash key).toNat % m.slots

/-- The state with a key, unless it has been forgotten. -/
def find? (m : StateMemory) (key : StateKey) : Option Nat :=
  match m.entries[m.slot key]? with
  | some (found, state) => if found = key then some state else none
  | none => none

/-- Remembers the state with a key. -/
def insert (m : StateMemory) (key : StateKey) (state : Nat) : StateMemory :=
  { m with entries := m.entries.insert (m.slot key) (key, state) }

end StateMemory

/-- Laying out with a memory. -/
abbrev SharedLaying := StateT StateMemory Laying

/-- Lays out a state that takes `size`, unless one with the same key is remembered, and gives its number. -/
def layShared (key : StateKey) (size : Nat) : SharedLaying Nat := do
  match (← get).find? key with
  | some state => return state
  | none =>
    let state ← layState size
    modify (·.insert key state)
    return state

end Lexeme.Pattern
