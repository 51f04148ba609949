import Injection.Value.Basic

/-!
# Bindings

How a registry produces the value of a key.
-/

namespace Injection

inductive Binding (γ : Type)
  /-- A value computed already. -/
  | constant (v : Value γ)
  /-- An instance built when it was bound. -/
  | singleton (v : Value γ)
  /-- A class constructed anew by every lookup. -/
  | transient (c : Class γ)
  /-- A function invoked by a lookup.  If `cached` holds, its first result replaces the binding as a constant. -/
  | provider (f : Function γ) (cached : Bool)

def Binding.kind : Binding γ → String
  | .constant _ => "constant"
  | .singleton _ => "singleton"
  | .transient _ => "transient"
  | .provider _ _ => "provider"

end Injection
