import Watershed.Fault
import Watershed.Value

/-!
# Environments

Variables live in nested scopes. A name means what the innermost scope that binds it says.
-/

set_option autoImplicit false

namespace Watershed

/-- The bindings of one scope. -/
def Scope : Type :=
  String → Option Value

namespace Scope

/-- A scope without bindings. -/
def empty : Scope :=
  fun _ => none

/-- Binds a name, replacing an earlier binding of it in the same scope. -/
def bind (s : Scope) (name : String) (value : Value) : Scope :=
  fun n => if n = name then some value else s n

end Scope

/-- The scopes open at some point: the innermost one and those around it, from the inside out.
There is always at least one, the root. -/
structure Environment where
  innermost : Scope
  enclosing : List Scope

namespace Environment

/-- The environment with nothing but an empty root scope. -/
def root : Environment :=
  ⟨Scope.empty, []⟩

/-- Binds a name in the innermost scope. -/
def define (env : Environment) (name : String) (value : Value) : Environment :=
  { env with innermost := env.innermost.bind name value }

/-- What a name means, if any open scope binds it. -/
def lookup (env : Environment) (name : String) : Option Value :=
  (env.innermost :: env.enclosing).findSome? (· name)

/-- What a name used on a line means. -/
def get (env : Environment) (name : String) (line : Nat) : Except Fault Value :=
  match env.lookup name with
  | some value => .ok value
  | none => .error (.undefinedName name line)

/-- Opens a new scope. -/
def push (env : Environment) : Environment :=
  ⟨Scope.empty, env.innermost :: env.enclosing⟩

/-- Closes the innermost scope; the root scope stays. -/
def pop (env : Environment) : Environment :=
  match env.enclosing with
  | [] => env
  | s :: ss => ⟨s, ss⟩

/-- The number of open scopes. -/
def depth (env : Environment) : Nat :=
  env.enclosing.length + 1

/-- Closing the scope just opened gives back the environment before. -/
theorem pop_push (env : Environment) : env.push.pop = env :=
  rfl

/-- A binding in the innermost scope decides its own name, and no other. -/
theorem lookup_define (env : Environment) (name n : String) (value : Value) :
    (env.define name value).lookup n = if n = name then some value else env.lookup n := by
  by_cases h : n = name <;> simp [lookup, define, Scope.bind, List.findSome?_cons, h]

/-- An empty scope changes the meaning of no name. -/
theorem lookup_push (env : Environment) (name : String) : env.push.lookup name = env.lookup name :=
  rfl

end Environment

end Watershed
