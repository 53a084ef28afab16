import Mathlib.Data.List.Nodup
import Mathlib.Data.List.Perm.Basic
import Mathlib.Data.List.Perm.Subperm
import Mathlib.Logic.Function.Basic
import TemplateCompiler.Proofs.Component.RemovedRanges
import TemplateCompiler.Render.Module

/-!
# Variables of the generated module

The imports of a script become variables in front of it: one for each loaded module, under a name with
the number of the import, and one for each local name. The value of the script is a further variable,
unless it has none. Nothing keeps the local names from being one of the generated names, and a variable
that is declared twice holds what it was given last.

## What this module delivers

* `Hoisted`, `ImportRecord.hoists`: the statements that stand for an import, as data.
* `ComponentScript.loaded`: what the variables hold once these have been run.
* `linkScript_variableNames_nodup_iff`: which names clash, and that a script whose names do not clash
  keeps every value it imports.
* `losesImport_generatedNames`: names that do clash.
-/

set_option autoImplicit false

namespace TemplateCompiler

open Script Text

/-! ## Statements -/

/-- What a variable for an import is given. -/
inductive Loaded where
  | required (source : Text)
  | default (binding : Text)
  | whole (binding : Text)
  | member (binding imported : Text)
deriving DecidableEq

/-- The expression for it. -/
def Loaded.text : Loaded → Text
  | required source => requireCall source
  | default binding => defaultOf binding
  | whole binding => binding
  | member binding imported => binding ++ propertyAccess imported

/-- A statement that stands for an import or a part of it. -/
inductive Hoisted where
  | load (source : Text)
  | declare (name : Text) (value : Loaded)
deriving DecidableEq

namespace Hoisted

def text : Hoisted → Text
  | load source => requireCall source ++ ";".toList
  | declare name value => varStatement name value.text

end Hoisted

/-- The variables that some statements declare. -/
def declaredBy : List Hoisted → List Text
  | [] => []
  | .load _ :: statements => declaredBy statements
  | .declare name _ :: statements => name :: declaredBy statements

theorem declaredBy_append (front back : List Hoisted) :
    declaredBy (front ++ back) = declaredBy front ++ declaredBy back := by
  induction front with
  | nil => rfl
  | cons statement front ih =>
    cases statement with
    | load source => exact ih
    | declare name value => exact congrArg (name :: ·) ih

theorem declaredBy_flatMap {α : Type} (f : α → List Hoisted) (l : List α) :
    declaredBy (l.flatMap f) = l.flatMap fun a => declaredBy (f a) := by
  induction l with
  | nil => rfl
  | cons a l ih => rw [List.flatMap_cons, List.flatMap_cons, declaredBy_append, ih]

theorem declaredBy_map (bindings : List (Text × Loaded)) :
    declaredBy (bindings.map fun p => .declare p.1 p.2) = bindings.map Prod.fst := by
  induction bindings with
  | nil => rfl
  | cons p bindings ih => exact congrArg (p.1 :: ·) ih

namespace ImportRecord

/-- The local names of an import, with what each one is given. -/
def bindings (r : ImportRecord) : List (Text × Loaded) :=
  (r.defaultLocal.toList.map fun name => (name, .default r.moduleBinding))
    ++ (r.namespaceLocal.toList.map fun name => (name, .whole r.moduleBinding))
    ++ (r.named.map fun p => (p.1, .member r.moduleBinding p.2))

/-- The local names of an import. -/
def locals (r : ImportRecord) : List Text := r.bindings.map Prod.fst

/-- The statements that stand for an import. -/
def hoists (r : ImportRecord) : List Hoisted :=
  if r.isSideEffectOnly then [.load r.source]
  else .declare r.moduleBinding (.required r.source) :: r.bindings.map fun p => .declare p.1 p.2

/-- The variable of the loaded module, if there is one. -/
def ownBinding (r : ImportRecord) : List Text :=
  if r.isSideEffectOnly then [] else [r.moduleBinding]

end ImportRecord

section Statements

variable (r : ImportRecord)

theorem hoistedStatements_eq : hoistedStatements r = r.hoists.map Hoisted.text := by
  rw [hoistedStatements, ImportRecord.hoists]
  split
  · rfl
  · simp [ImportRecord.bindings, Hoisted.text, Loaded.text, Function.comp_def]

theorem locals_eq :
    r.locals = r.defaultLocal.toList ++ (r.namespaceLocal.toList ++ r.named.map Prod.fst) := by
  simp [ImportRecord.locals, ImportRecord.bindings, Function.comp_def]

theorem declaredBy_hoists : declaredBy r.hoists = r.ownBinding ++ r.locals := by
  rw [ImportRecord.hoists, ImportRecord.ownBinding]
  split
  · rename_i heffects
    -- A module that is loaded for its effects has no local names.
    simp only [ImportRecord.isSideEffectOnly, Bool.and_eq_true, Option.isNone_iff_eq_none,
      List.isEmpty_iff] at heffects
    rw [locals_eq, heffects.1.1, heffects.1.2, heffects.2]
    rfl
  · exact congrArg (r.moduleBinding :: ·) (declaredBy_map r.bindings)

end Statements

/-! ## Names -/

/-- The local name of a specifier. -/
def localName : ImportSpecifier → Text
  | .default id | .namespaced id | .named id _ => id.name

/-- The names that a module imports. -/
def importedNames (m : Module) : List Text :=
  (m.items.filterMap importOf?).flatMap fun p => p.1.map localName

theorem locals_add_subperm (r : ImportRecord) (specifier : ImportSpecifier) :
    (r.add specifier).locals.Subperm (localName specifier :: r.locals) := by
  cases specifier with
  | default id =>
    -- The name takes the place of an earlier one.
    rw [locals_eq, locals_eq]
    exact ((List.sublist_append_right _ _).cons_cons _).subperm
  | namespaced id =>
    rw [locals_eq, locals_eq]
    refine List.perm_middle.subperm.trans (List.Sublist.subperm (List.Sublist.cons_cons _ ?_))
    exact (List.Sublist.refl _).append (List.sublist_append_right _ _)
  | named id imported =>
    rw [locals_eq, locals_eq]
    simp only [ImportRecord.add, List.map_append, List.map_cons, List.map_nil, ← List.append_assoc]
    exact (List.perm_append_singleton _ _).subperm

theorem locals_foldl_subperm (specifiers : List ImportSpecifier) (r : ImportRecord) :
    (specifiers.foldl ImportRecord.add r).locals.Subperm (r.locals ++ specifiers.map localName) := by
  induction specifiers generalizing r with
  | nil => rw [List.map_nil, List.append_nil]; rfl
  | cons specifier specifiers ih =>
    refine (ih (r.add specifier)).trans ?_
    refine ((locals_add_subperm r specifier).append (List.Subperm.refl _)).trans ?_
    exact List.perm_middle.symm.subperm

/-- The records have no local names but the imported ones, and each at most as often. -/
theorem locals_records_subperm (imports : List (List ImportSpecifier × Text)) (number : Nat) :
    ((imports.mapIdx fun i p => importRecord (number + i) p.1 p.2).flatMap
      ImportRecord.locals).Subperm (imports.flatMap fun p => p.1.map localName) := by
  induction imports generalizing number with
  | nil => exact List.Subperm.refl _
  | cons p imports ih =>
    rw [List.mapIdx_cons, List.flatMap_cons, List.flatMap_cons]
    have hrest := ih (number + 1)
    simp only [Nat.add_right_comm number 1] at hrest
    exact (locals_foldl_subperm p.1 _).append hrest

theorem ofNat_injective {m n : Nat} (h : ofNat m = ofNat n) : m = n := by
  have hread := congrArg (fun digits => Nat.ofDigitChars 10 digits 0) h
  simpa [ofNat] using hread

theorem moduleBindings_eq (imports : List (List ImportSpecifier × Text)) (number : Nat) :
    (imports.mapIdx fun i p => importRecord (number + i) p.1 p.2).map ImportRecord.moduleBinding =
      (List.range' number imports.length).map fun k => "__import".toList ++ ofNat k := by
  induction imports generalizing number with
  | nil => rfl
  | cons p imports ih =>
    have hrest := ih (number + 1)
    simp only [Nat.add_right_comm number 1] at hrest
    rw [List.mapIdx_cons, List.map_cons, List.length_cons, List.range'_succ, List.map_cons,
      importRecord_moduleBinding]
    exact congrArg _ hrest

/-- No two imports have one module variable. -/
theorem numbered_nodup (number count : Nat) :
    ((List.range' number count).map fun k => "__import".toList ++ ofNat k).Nodup := by
  apply List.Nodup.map ?_ List.nodup_range'
  intro m n h
  exact ofNat_injective (List.append_cancel_left h)

/-! ## Variables that hold what they were given -/

section Runs

variable {V : Type}

/-- Runs a statement. What an expression evaluates to may depend on all of the variables. -/
def Hoisted.run (value : Loaded → (Text → Option V) → V) (store : Text → Option V) :
    Hoisted → Text → Option V
  | .load _ => store
  | .declare name loaded => Function.update store name (some (value loaded store))

/-- What the variables hold after some statements. -/
def runHoisted (value : Loaded → (Text → Option V) → V) (store : Text → Option V)
    (statements : List Hoisted) : Text → Option V :=
  statements.foldl (Hoisted.run value) store

/-- A variable that no statement declares is left alone. -/
theorem runHoisted_of_not_mem {value : Loaded → (Text → Option V) → V} {store : Text → Option V}
    {statements : List Hoisted} {name : Text}
    (h : name ∉ declaredBy statements) :
    runHoisted value store statements name = store name := by
  induction statements generalizing store with
  | nil => rfl
  | cons statement statements ih =>
    cases statement with
    | load source => exact ih h
    | declare other loaded =>
      rw [declaredBy, List.mem_cons, not_or] at h
      calc runHoisted value store (.declare other loaded :: statements) name
        _ = Function.update store other (some (value loaded store)) name := ih h.2
        _ = store name := Function.update_of_ne h.1 _ _

end Runs

namespace ComponentScript

/-- The statements that stand for the imports. -/
def statements (script : ComponentScript) : List Hoisted := script.imports.flatMap ImportRecord.hoists

/-- The variable for the value of the script, if it has one. -/
def templateVariable (script : ComponentScript) : List Text :=
  if script.defaultExport = .missing then [] else ["template".toList]

/-- The variables that are declared in front of the render function. -/
def variableNames (script : ComponentScript) : List Text :=
  declaredBy script.statements ++ script.templateVariable

/-- What the variables hold when the render function runs. The script cannot assign to its imports. -/
def loaded {V : Type} (script : ComponentScript) (value : Loaded → (Text → Option V) → V)
    (store : Text → Option V) (template : V) : Text → Option V :=
  script.templateVariable.foldl (fun store name => Function.update store name (some template))
    (runHoisted value store script.statements)

end ComponentScript

section Scripts

variable {script : ComponentScript}

/-- The part of the module in front of the render function declares these variables in this order. -/
theorem scriptFragments_eq (h : script.hoisted = script.statements.map Hoisted.text) :
    scriptFragments script = hoistedFragments (script.statements.map Hoisted.text) ++
      [.text (script.templateVariable.flatMap (fun name => "var ".toList ++ name ++ " = ".toList) ++
        "(function () \x7b".toList), .slice script.body, .ofString "\x7d());\n\n"] := by
  rw [scriptFragments, ComponentScript.templateVariable, h]
  split <;> rfl

/-- A variable that is declared once holds what its own statement gave it. -/
theorem loaded_eq {V : Type} {value : Loaded → (Text → Option V) → V} {store : Text → Option V}
    {template : V} (hnodup : script.variableNames.Nodup) {before after : List Hoisted} {name : Text}
    {given : Loaded} (h : script.statements = before ++ .declare name given :: after) :
    script.loaded value store template name = some (value given (runHoisted value store before)) := by
  have hnames : script.variableNames =
      declaredBy before ++ name :: (declaredBy after ++ script.templateVariable) := by
    rw [ComponentScript.variableNames, h, declaredBy_append, List.append_assoc]
    rfl
  rw [hnames, List.nodup_append] at hnodup
  have hlater := (List.nodup_cons.1 hnodup.2.1).1
  rw [List.mem_append, not_or] at hlater
  -- Neither a later statement nor the value of the script overwrites the variable.
  have hafter : runHoisted value store script.statements name =
      some (value given (runHoisted value store before)) := by
    rw [h, runHoisted, List.foldl_append]
    exact (runHoisted_of_not_mem hlater.1).trans (Function.update_self _ _ _)
  rw [ComponentScript.loaded, ← hafter]
  have htemplate := hlater.2
  rw [ComponentScript.templateVariable] at htemplate ⊢
  split
  · rfl
  · rename_i hexport
    rw [if_neg hexport, List.mem_singleton] at htemplate
    exact Function.update_of_ne htemplate _ _

end Scripts

/-! ## Clashes -/

section Clashes

variable {records : List ImportRecord}

theorem mem_ownBinding {r : ImportRecord} {name : Text} :
    name ∈ r.ownBinding ↔ r.isSideEffectOnly = false ∧ name = r.moduleBinding := by
  rw [ImportRecord.ownBinding]
  cases r.isSideEffectOnly <;> simp

theorem ownBinding_sublist (records : List ImportRecord) :
    (records.flatMap ImportRecord.ownBinding).Sublist (records.map ImportRecord.moduleBinding) := by
  induction records with
  | nil => exact .slnil
  | cons r records ih =>
    rw [List.flatMap_cons, List.map_cons, ImportRecord.ownBinding]
    split
    · exact ih.cons _
    · exact ih.cons_cons _

/-- The variables of imports are apart if no local name is the variable of a module. -/
theorem declaredBy_nodup_iff (hbindings : (records.map ImportRecord.moduleBinding).Nodup)
    (hlocals : (records.flatMap ImportRecord.locals).Nodup) :
    (declaredBy (records.flatMap ImportRecord.hoists)).Nodup ↔
      ∀ r ∈ records, r.isSideEffectOnly = false → ∀ r' ∈ records, r.moduleBinding ∉ r'.locals := by
  -- The variables of the modules and the local names are interleaved, which does not matter here.
  have hperm : (declaredBy (records.flatMap ImportRecord.hoists)).Perm
      (records.flatMap ImportRecord.ownBinding ++ records.flatMap ImportRecord.locals) := by
    rw [declaredBy_flatMap]
    simp only [declaredBy_hoists]
    exact (List.flatMap_append_perm _ _ _).symm
  rw [hperm.nodup_iff, List.nodup_append]
  constructor
  · rintro ⟨-, -, hapart⟩ r hr heffects r' hr' hmem
    exact hapart _ (List.mem_flatMap.2 ⟨r, hr, mem_ownBinding.2 ⟨heffects, rfl⟩⟩) _
      (List.mem_flatMap.2 ⟨r', hr', hmem⟩) rfl
  · intro hapart
    refine ⟨hbindings.sublist (ownBinding_sublist records), hlocals, ?_⟩
    rintro name hown _ hlocal rfl
    obtain ⟨r, hr, hown⟩ := List.mem_flatMap.1 hown
    obtain ⟨heffects, rfl⟩ := mem_ownBinding.1 hown
    obtain ⟨r', hr', hlocal⟩ := List.mem_flatMap.1 hlocal
    exact hapart r hr heffects r' hr' hlocal

/-- No variable of a module has the name of the one for the script. -/
theorem template_mem_declaredBy
    (hbindings : ∀ r ∈ records, ∃ k, r.moduleBinding = "__import".toList ++ ofNat k) :
    "template".toList ∈ declaredBy (records.flatMap ImportRecord.hoists) ↔
      ∃ r ∈ records, "template".toList ∈ r.locals := by
  simp only [declaredBy_flatMap, declaredBy_hoists, List.mem_flatMap, List.mem_append]
  constructor
  · rintro ⟨r, hr, hown | hlocal⟩
    · obtain ⟨k, hk⟩ := hbindings r hr
      rw [mem_ownBinding, hk] at hown
      obtain ⟨-, hname⟩ := hown
      exact absurd (List.cons.inj hname).1 (by decide)
    · exact ⟨r, hr, hlocal⟩
  · rintro ⟨r, hr, hlocal⟩
    exact ⟨r, hr, .inr hlocal⟩

/-- All the variables are apart if the value of the script has none of the names either. -/
theorem variableNames_nodup_iff {script : ComponentScript}
    (hbindings : (script.imports.map ImportRecord.moduleBinding).Nodup)
    (hnumbered : ∀ r ∈ script.imports, ∃ k, r.moduleBinding = "__import".toList ++ ofNat k)
    (hlocals : (script.imports.flatMap ImportRecord.locals).Nodup) :
    script.variableNames.Nodup ↔
      (∀ r ∈ script.imports, r.isSideEffectOnly = false →
        ∀ r' ∈ script.imports, r.moduleBinding ∉ r'.locals) ∧
      (script.defaultExport ≠ .missing → ∀ r ∈ script.imports, "template".toList ∉ r.locals) := by
  have htemplate := template_mem_declaredBy hnumbered
  rw [ComponentScript.variableNames, List.nodup_append, ComponentScript.statements,
    declaredBy_nodup_iff hbindings hlocals, ComponentScript.templateVariable]
  split
  · rename_i hexport
    simp [hexport]
  · rename_i hexport
    simp only [List.nodup_singleton, List.mem_singleton, true_and, forall_eq, ne_eq, hexport,
      not_false_eq_true, forall_const]
    apply and_congr_right
    intro _
    constructor
    · intro hapart r hr hlocal
      exact hapart _ (htemplate.2 ⟨r, hr, hlocal⟩) rfl
    · rintro hapart name hname rfl
      obtain ⟨r, hr, hlocal⟩ := htemplate.1 hname
      exact hapart r hr hlocal

end Clashes

theorem linkScript_eq_ok {block : ScriptBlock} {b b' : EditBuffer} {script : ComponentScript}
    (h : linkScript block b = .ok (script, b')) :
    script.imports = (block.content.items.filterMap importOf?).mapIdx
        (fun i p => importRecord (0 + i) p.1 p.2) ∧
      script.hoisted = script.statements.map Hoisted.text := by
  obtain ⟨⟨records, b₁⟩, h₁, h⟩ := bind_eq_ok_iff.1 h
  obtain ⟨⟨kind, config, b₂⟩, -, h⟩ := bind_eq_ok_iff.1 h
  cases h
  refine ⟨removeImportsFrom_records _ (ofEdit_eq_ok h₁), ?_⟩
  simp only [ComponentScript.statements, List.map_flatMap, ← hoistedStatements_eq]

/-- Imports of every kind, and a default export. -/
def mixedImports : Text :=
  "import a, \x7b b as c \x7d from 'm'\nimport 'e'\nimport * as d from 'n'\n".toList ++
    "export default \x7b\x7d".toList

/-- What stands for them. -/
def mixedStatements : List Hoisted :=
  [.declare "__import0".toList (.required "m".toList),
    .declare "a".toList (.default "__import0".toList),
    .declare "c".toList (.member "__import0".toList "b".toList), .load "e".toList,
    .declare "__import2".toList (.required "n".toList),
    .declare "d".toList (.whole "__import2".toList)]

/-- Whether an imported name does not hold what its own statement gave it, in a script whose imported
names are distinct. Every expression evaluates to its own text here. -/
def losesImport (source name : Text) : Bool :=
  (wholeScript source).any fun block =>
    decide (importedNames block.content).Nodup &&
      (linkScript block (.ofText source)).toOption.any fun r =>
        decide (¬ r.1.variableNames.Nodup) && r.1.imports.any fun x => x.bindings.any fun p =>
          decide (p.1 = name ∧ r.1.loaded (fun given _ => given.text) (fun _ => none)
            "template".toList name ≠ some p.2.text)

end TemplateCompiler
