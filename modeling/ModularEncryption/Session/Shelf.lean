import ModularEncryption.Table

/-! # Shelves of objects

Objects that others may refer to stand on a shelf, each in a place of its own that it keeps. A name
leads to a place; when an object is made under a name that is taken, the name leads to the new
object, and whoever refers to the old one still finds that. -/

namespace ModularEncryption

/-- Objects in numbered places, some of them named. -/
structure Shelf (α : Type) where
  objects : List α := []
  names : Table String Nat := .empty

namespace Shelf

variable {α : Type}

/-- The object in a place. -/
def get? (s : Shelf α) (place : Nat) : Option α := s.objects[place]?

/-- The place that a name leads to. -/
def place? (s : Shelf α) (name : String) : Option Nat := s.names.get? name

/-- The shelf with the object in a place exchanged. -/
def set (s : Shelf α) (place : Nat) (a : α) : Shelf α :=
  { s with objects := s.objects.set place a }

/-- The shelf with one more object, to which a name leads. -/
def put (s : Shelf α) (name : String) (a : α) : Shelf α :=
  { objects := s.objects ++ [a], names := s.names.insert name s.objects.length }

end Shelf

end ModularEncryption
