import TemplateCompiler.Text.Basic

/-!
# Scopes

The names bound by the blocks and functions around an expression, as a stack of layers with the
innermost one first. Entering a block gives a new stack; the old one is still there when the block
is left.

## What this module delivers

* `Scope`, `Scope.root`, `Scope.push`: stacks of layers.
* `Scope.contains`, `Scope.depth`: what a stack binds and how many layers it has.
-/

set_option autoImplicit false

namespace TemplateCompiler

/-- Layers of bound names, innermost first. -/
structure Scope where
  layers : List (List Text)
deriving DecidableEq, Repr

namespace Scope

/-- One empty layer: every name is free. -/
def root : Scope := ⟨[[]]⟩

/-- A stack with one more innermost layer. -/
def push (s : Scope) (names : List Text) : Scope := ⟨names :: s.layers⟩

/-- Whether some layer binds a name. -/
def contains (s : Scope) (name : Text) : Bool :=
  s.layers.any fun layer => layer.contains name

/-- Number of layers. -/
def depth (s : Scope) : Nat := s.layers.length

@[simp] theorem contains_push (s : Scope) (names : List Text) (name : Text) :
    (s.push names).contains name = (names.contains name || s.contains name) := rfl

@[simp] theorem contains_root (name : Text) : root.contains name = false := by
  simp [contains, root]

end Scope

end TemplateCompiler
