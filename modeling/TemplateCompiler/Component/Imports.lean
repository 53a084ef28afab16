import TemplateCompiler.Edit.Buffer
import TemplateCompiler.Script.Spelling
import TemplateCompiler.Script.Tree

/-!
# Imports

The imports of a script are removed from it, and what they import is loaded in front of it instead.

## What this module delivers

* `ImportRecord`: what one import declaration imports.
* `hoistedStatements`: the statements that load it.
* `removalRange`: an import together with the blanks around it and one end of a line.
* `removeImports`: the records of all the imports, and the script without them.
-/

set_option autoImplicit false

namespace TemplateCompiler

open Script

/-- What one import declaration imports. -/
structure ImportRecord where
  /-- The variable that holds the loaded module. -/
  moduleBinding : Text
  /-- The module to load. -/
  source : Text
  defaultLocal : Option Text
  namespaceLocal : Option Text
  /-- Local names with the names they are exported under. -/
  named : List (Text × Text)
deriving DecidableEq, Repr

/-! ## Loading a module -/

/-- Whether a module is loaded for its effects only. -/
def ImportRecord.isSideEffectOnly (r : ImportRecord) : Bool :=
  r.defaultLocal.isNone && r.namespaceLocal.isNone && r.named.isEmpty

/-- A declaration of a variable. -/
def varStatement (name value : Text) : Text :=
  "var ".toList ++ name ++ " = ".toList ++ value ++ ";".toList

/-- The expression that loads a module. -/
def requireCall (source : Text) : Text :=
  "require( ".toList ++ quoteString source ++ " )".toList

/-- The value that a module exports by default: the module itself if it names none. -/
def defaultOf (binding : Text) : Text :=
  binding ++ " && 'default' in Object( ".toList ++ binding ++ " ) ? ".toList ++ binding
    ++ "['default'] : ".toList ++ binding

/-- The statements that stand for an import. -/
def hoistedStatements (r : ImportRecord) : List Text :=
  if r.isSideEffectOnly then [requireCall r.source ++ ";".toList]
  else
    let binding := r.moduleBinding
    varStatement binding (requireCall r.source)
      :: (r.defaultLocal.toList.map fun name => varStatement name (defaultOf binding))
      ++ (r.namespaceLocal.toList.map fun name => varStatement name binding)
      ++ (r.named.map fun p => varStatement p.1 (binding ++ propertyAccess p.2))

/-! ## Records -/

/-- A record with one more specifier. -/
def ImportRecord.add (r : ImportRecord) : ImportSpecifier → ImportRecord
  | .default id => { r with defaultLocal := some id.name }
  | .namespaced id => { r with namespaceLocal := some id.name }
  | .named id imported => { r with named := r.named ++ [(id.name, imported)] }

/-- The record of the import declaration with a given number. -/
def importRecord (number : Nat) (specifiers : List ImportSpecifier) (source : Text) :
    ImportRecord :=
  specifiers.foldl ImportRecord.add
    ⟨"__import".toList ++ Text.ofNat number, source, none, none, []⟩

/-! ## Removal -/

/-- Number of bytes of the blanks that a text ends with. -/
def trailingBlanks (t : Text) : Nat :=
  Text.byteLength (t.reverse.takeWhile Text.isLineBlank)

/-- Number of bytes of the blanks, and of one end of a line, that a text starts with. -/
def leadingBlanks (t : Text) : Nat :=
  let blanks := Text.byteLength (t.takeWhile Text.isLineBlank)
  match t.dropWhile Text.isLineBlank with
  | '\r' :: '\n' :: _ => blanks + 2
  | '\n' :: _ => blanks + 1
  | _ => blanks

/-- The range of an import together with the blanks around it and one end of a line, inside of the
range from `lower` to `upper`. -/
def removalRange (source : Text) (span : Span) (lower upper : Nat) : Except EditFault Span :=
  let start := max span.start lower
  match Text.slice? lower start source, Text.slice? span.stop upper source with
  | some before, some after =>
    .ok ⟨start - trailingBlanks before, span.stop + leadingBlanks after⟩
  | _, _ => .error .outOfRange

/-- The records of the imports among some items, numbered from `number` on, and the buffer without
them. What comes before `lower` is left alone. -/
def removeImportsFrom (upper : Nat) :
    Nat → Nat → List ModuleItem → EditBuffer → Except EditFault (List ImportRecord × EditBuffer)
  | _, _, [], edits => .ok ([], edits)
  | number, lower, .imports span specifiers source :: items, edits => do
    let range ← removalRange edits.source span lower upper
    let edits ← edits.remove range.start range.stop
    let (records, edits) ← removeImportsFrom upper (number + 1) range.stop items edits
    return (importRecord number specifiers source :: records, edits)
  | number, lower, _ :: items, edits => removeImportsFrom upper number lower items edits

/-- The records of the imports of a module whose text has a given span, and the buffer without
them. -/
def removeImports (m : Module) (bounds : Span) (edits : EditBuffer) :
    Except EditFault (List ImportRecord × EditBuffer) :=
  removeImportsFrom bounds.stop 0 bounds.start m.items edits

end TemplateCompiler
