import Mathlib.Algebra.Group.Int.Defs
import Mathlib.Algebra.GroupWithZero.Nat
import Mathlib.Data.List.Basic

/-!
# Instances at the types of the code

A list is gone through as it stands, not as a part of the values of its type.
-/

namespace Bmx

instance (priority := 1100) decidableForallMember {α : Type} (p : α → Prop) [DecidablePred p] (members : List α) :
    Decidable (∀ member ∈ members, p member) := List.decidableBAll p members

instance (priority := 1100) decidableExistsMember {α : Type} (p : α → Prop) [DecidablePred p] (members : List α) :
    Decidable (∃ member ∈ members, p member) := List.decidableBEx p members

instance (priority := 1100) decidableForallOption {α : Type} (p : α → Prop) [DecidablePred p] (value : Option α) :
    Decidable (∀ member ∈ value, p member) := Option.decidableForallMem value

instance lawfulBEqBytes : LawfulBEq (List UInt8) := inferInstance

instance lawfulBEqText : LawfulBEq (List Char) := inferInstance

end Bmx
