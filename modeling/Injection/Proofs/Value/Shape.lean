import Injection.Arguments

/-!
# Values up to identity

The shape of a value is its data, at every depth, without the identities of instances.  The identities of functions
are renamed by a map `ρ`: an injective one keeps them apart, a constant one forgets them.  Two values of one shape have
the same type and the same data; which instances they are is left open.
-/

namespace Injection

variable {γ : Type} (ρ : Nat → Nat)

def Function.shape (f : Function γ) : Function γ :=
  { f with id := ρ f.id }

mutual

def Value.shape : Value γ → Value γ
  | ⟨_, data⟩ => ⟨0, Data.shape data⟩

def Data.shape : Data γ (Value γ) → Data γ (Value γ)
  | .int n => .int n
  | .byte n => .byte n
  | .bool b => .bool b
  | .unit => .unit
  | .string s => .string s
  | .str s => .str s
  | .list elements => .list (Value.shapes elements)
  | .function f => .function (f.shape ρ)
  | .constructible c => .constructible c
  | .registry r => .registry r
  | .object typeName fields => .object typeName (Value.shapes fields)

def Value.shapes : List (Value γ) → List (Value γ)
  | [] => []
  | v :: vs => Value.shape v :: Value.shapes vs

end

def Arguments.shape (a : Arguments γ) : Arguments γ :=
  ⟨a.receiver.map (Value.shape ρ), a.values.map (Value.shape ρ)⟩

variable {ρ}

@[simp] theorem Data.type_shape (d : Data γ (Value γ)) : (d.shape ρ).type = d.type := by
  cases d <;> rfl

@[simp] theorem Value.type_shape (v : Value γ) : (v.shape ρ).type = v.type := by
  cases v
  exact Data.type_shape _

end Injection
