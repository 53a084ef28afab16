import Mathlib.Data.List.Induction
import TemplateCompiler.Component.Config
import TemplateCompiler.Proofs.FirstFault
import TemplateCompiler.Proofs.Outcome
import TemplateCompiler.Script.Grammar

/-!
# Which default exports configure a component

A default export is read in two rounds. The first one goes over all the properties and stops at one
without a name, a spread or a computed key; the second one looks at the values of the properties
that configure something. So a property without a name is reported before any value of a wrong
shape, wherever it stands. A later definition of a name replaces an earlier one, also where a whole
object of helpers is defined twice.

## What this module delivers

* `ObjectWith`, `FunctionShaped`: shapes of values, under any number of parentheses.
* `Defines`, `Unnamed`, `LastDefines`: what the properties of an object define.
* `ConfigShaped`, `Refused`: the default exports that are accepted, and why the others are not.
* `extractConfig_outcome`: what becomes of every default export.
-/

set_option autoImplicit false

namespace TemplateCompiler

open Script

variable {props : List Property} {e value : Expr} {name : Text}

/-! ## Shapes -/

/-- An object literal with some properties, under any number of parentheses. -/
inductive ObjectWith : Expr → List Property → Prop where
  | object {span : Span} {props : List Property} {trailingComma : Bool} :
    ObjectWith (.object span props trailingComma) props
  | paren {span : Span} {inner : Expr} {props : List Property} (h : ObjectWith inner props) :
    ObjectWith (.paren span inner) props

/-- A function, with or without an arrow, under any number of parentheses. -/
inductive FunctionShaped : Expr → Prop where
  | function {span : Span} {name : Option Ident} {params : List Pat} {body : List Stmt} :
    FunctionShaped (.function span name params body)
  | arrow {span : Span} {params : List Pat} {body : List Stmt} :
    FunctionShaped (.arrow span params body)
  | arrowExpr {span : Span} {params : List Pat} {body : Expr} :
    FunctionShaped (.arrowExpr span params body)
  | paren {span : Span} {inner : Expr} (h : FunctionShaped inner) :
    FunctionShaped (.paren span inner)

/-- The name of a key that is written out. -/
inductive Spells : Key → Text → Prop where
  | named {name : Text} {span : Span} : Spells (.named name span) name
  | privateName {name : Text} {span : Span} : Spells (.privateName name span) name

/-- The key in front of a property or accessor. -/
def keyOf? : Property → Option Key
  | .keyValue key _ | .method key _ _ _ | .getter key _ _ | .setter key _ _ _ => some key
  | .shorthand _ | .shorthandDefault _ _ | .spread _ _ => none

/-- A property gives a name a value. Accessors, and shorthands with a default, give none. -/
inductive Defines : Property → Text → Expr → Prop where
  | shorthand {id : Ident} : Defines (.shorthand id) id.name (.ident id)
  | keyValue {key : Key} {name : Text} {value : Expr} (hkey : Spells key name) :
    Defines (.keyValue key value) name value
  | method {key : Key} {name : Text} {span : Span} {params : List Pat} {body : List Stmt}
    (hkey : Spells key name) :
    Defines (.method key span params body) name (.function span none params body)

/-- A property whose name cannot be told: a spread, or a property or accessor with a computed key.
The span is that of what is spread, or of the key. -/
inductive Unnamed : Property → Span → Prop where
  | spread {span : Span} {arg : Expr} : Unnamed (.spread span arg) arg.span
  | computed {p : Property} {span : Span} {e : Expr} (hkey : keyOf? p = some (.computed span e)) :
    Unnamed p span

/-- Properties whose names can all be told. -/
def AllNamed (props : List Property) : Prop :=
  ∀ p ∈ props, ∀ span, ¬ Unnamed p span

/-- The last property that gives a name a value gives it this one. -/
def LastDefines (props : List Property) (name : Text) (value : Expr) : Prop :=
  ∃ before p after, props = before ++ p :: after ∧ Defines p name value ∧
    ∀ q ∈ after, ∀ other, ¬ Defines q name other

/-- The names of the properties that hold further definitions. -/
def mapNames : List Text := ["helpers".toList, "components".toList]

/-- A default export of the documented shape. -/
structure ConfigShaped (props : List Property) : Prop where
  named : AllNamed props
  data : ∀ p ∈ props, ∀ value, Defines p "data".toList value → FunctionShaped value
  maps : ∀ p ∈ props, ∀ name ∈ mapNames, ∀ value, Defines p name value →
    ∃ inner, ObjectWith value inner ∧ AllNamed inner

/-- Why an expression is no object literal whose properties all have names. What is no object
literal at all gets an error of its own. -/
inductive NoPlainObject (e : Expr) (otherwise : ScriptError) : ScriptError → Prop where
  | noObject (h : ∀ props, ¬ ObjectWith e props) : NoPlainObject e otherwise otherwise
  | unnamed {props : List Property} {span : Span} (h : ObjectWith e props)
    (hprops : FirstFault Unnamed props span) :
    NoPlainObject e otherwise ⟨.invalidDefaultExport, span⟩

/-- The error for a value that does not have the shape that the name of its property asks for. -/
inductive Misshapen : Text → Expr → Span → ScriptError → Prop where
  | data {value : Expr} {span : Span} (hvalue : ¬ FunctionShaped value) :
    Misshapen "data".toList value span ⟨.invalidProperty "data".toList, span⟩
  | map {name : Text} {value : Expr} {span : Span} {err : ScriptError} (hname : name ∈ mapNames)
    (hvalue : NoPlainObject value ⟨.invalidProperty name, span⟩ err) :
    Misshapen name value span err

/-- The error for a property whose value is misshapen. -/
def PropertyFault (p : Property) (err : ScriptError) : Prop :=
  ∃ name value, Defines p name value ∧ Misshapen name value p.span err

/-- Why a default export is refused. -/
inductive Refused (e : Expr) : ScriptError → Prop where
  | noPlainObject {err : ScriptError} (h : NoPlainObject e ⟨.invalidDefaultExport, e.span⟩ err) :
    Refused e err
  /-- Values are looked at only if all the properties have names. -/
  | misshapen {props : List Property} {err : ScriptError} (h : ObjectWith e props)
    (hnamed : AllNamed props) (hprops : FirstFault PropertyFault props err) : Refused e err

/-- What a component knows by name is what stands in the last object that a property was given: no
other name is known, and of several definitions of a name in that object the last one counts. -/
structure MapsLast (props : List Property) (property : Text) (known : Text → Bool)
    (find : Text → Option Expr) : Prop where
  known_iff : ∀ name, known name = true ↔ ∃ object inner, LastDefines props property object ∧
    ObjectWith object inner ∧ ∃ p ∈ inner, ∃ value, Defines p name value
  find_iff : ∀ name value, find name = some value ↔ ∃ object inner,
    LastDefines props property object ∧ ObjectWith object inner ∧ LastDefines inner name value

/-! ## Parentheses -/

theorem objectWith_iff {props : List Property} :
    ObjectWith e props ↔ ∃ span comma, withoutParens e = .object span props comma := by
  fun_induction withoutParens e with
  | case1 span inner ih =>
    rw [← ih]
    constructor
    · intro h
      cases h with
      | paren h => exact h
    · exact .paren
  | case2 e hparen =>
    constructor
    · intro h
      cases h with
      | object => exact ⟨_, _, rfl⟩
      | paren => exact absurd rfl (hparen _ _)
    · rintro ⟨span, comma, rfl⟩
      exact .object

/-- An expression is an object literal with one list of properties at most. -/
theorem ObjectWith.unique {props props' : List Property} (h : ObjectWith e props)
    (h' : ObjectWith e props') : props = props' := by
  obtain ⟨span, comma, heq⟩ := objectWith_iff.1 h
  obtain ⟨span', comma', heq'⟩ := objectWith_iff.1 h'
  cases heq.symm.trans heq'
  rfl

theorem functionShaped_iff : FunctionShaped e ↔ isFunction (withoutParens e) = true := by
  fun_induction withoutParens e with
  | case1 span inner ih =>
    rw [← ih]
    constructor
    · intro h
      cases h with
      | paren h => exact h
    · exact .paren
  | case2 e hparen =>
    constructor
    · intro h
      cases h with
      | function | arrow | arrowExpr => rfl
      | paren => exact absurd rfl (hparen _ _)
    · intro h
      unfold isFunction at h
      split at h
      · exact .function
      · exact .arrow
      · exact .arrowExpr
      · cases h

/-! ## Entries -/

/-- The error for a property without a name. -/
def UnnamedFault (p : Property) (err : ScriptError) : Prop :=
  ∃ span, Unnamed p span ∧ err = ⟨.invalidDefaultExport, span⟩

theorem firstFault_unnamedFault_iff {err : ScriptError} :
    FirstFault UnnamedFault props err ↔
      ∃ span, FirstFault Unnamed props span ∧ err = ⟨.invalidDefaultExport, span⟩ := by
  have hnone : ∀ p, (∀ err, ¬ UnnamedFault p err) ↔ ∀ span, ¬ Unnamed p span := by
    intro p
    constructor
    · intro h span hspan
      exact h _ ⟨span, hspan, rfl⟩
    · rintro h err ⟨span, hspan, -⟩
      exact h span hspan
  constructor
  · rintro ⟨before, p, after, hprops, hbefore, span, hspan, herr⟩
    exact ⟨span, ⟨before, p, after, hprops, fun q hq => (hnone q).1 (hbefore q hq), hspan⟩, herr⟩
  · rintro ⟨span, ⟨before, p, after, hprops, hbefore, hspan⟩, herr⟩
    exact ⟨before, p, after, hprops, fun q hq => (hnone q).2 (hbefore q hq), span, hspan, herr⟩

/-- The entry of a property with a name and a value. -/
def entryOf? (p : Property) : Option Entry :=
  (propertyEntry p).toOption.join

theorem entryOf?_eq_some_iff {p : Property} {name : Text} {span : Span} :
    entryOf? p = some ⟨name, value, span⟩ ↔ Defines p name value ∧ span = p.span := by
  constructor
  · intro h
    cases p with
    | shorthand id =>
      cases h
      exact ⟨.shorthand, rfl⟩
    | keyValue key _ =>
      cases key with
      | named | privateName =>
        cases h
        exact ⟨.keyValue (by constructor), rfl⟩
      | computed => cases h
    | method key _ _ _ =>
      cases key with
      | named | privateName =>
        cases h
        exact ⟨.method (by constructor), rfl⟩
      | computed => cases h
    | getter key | setter key => cases key <;> cases h
    | shorthandDefault | spread => cases h
  · rintro ⟨hdefines, rfl⟩
    cases hdefines with
    | shorthand => rfl
    | keyValue hkey | method hkey => cases hkey <;> rfl

/-- A property defines one name at most, with one value. -/
theorem Defines.unique {p : Property} {name name' : Text} {value' : Expr}
    (h : Defines p name value) (h' : Defines p name' value') : name = name' ∧ value = value' := by
  have hentry := entryOf?_eq_some_iff.2 ⟨h, rfl⟩
  rw [entryOf?_eq_some_iff.2 ⟨h', rfl⟩] at hentry
  cases hentry
  exact ⟨rfl, rfl⟩

theorem propertyEntry_reports (p : Property) : Reports (propertyEntry p) (UnnamedFault p) := by
  intro err
  constructor
  · intro h
    cases p with
    | shorthand | shorthandDefault => cases h
    | spread span arg =>
      cases h
      exact ⟨arg.span, .spread, rfl⟩
    | keyValue key | method key | getter key | setter key =>
      cases key with
      | named | privateName => cases h
      | computed span e =>
        cases h
        exact ⟨span, .computed rfl, rfl⟩
  · rintro ⟨span, hunnamed, rfl⟩
    cases hunnamed with
    | spread => rfl
    | computed hkey =>
      cases p with
      | keyValue | method | getter | setter =>
        cases hkey
        rfl
      | shorthand | shorthandDefault | spread => cases hkey

/-- Reading the entries of an object stops at the first property without a name. -/
theorem objectEntries_reports (props : List Property) :
    Reports (objectEntries props) (FirstFault UnnamedFault props) := by
  induction props with
  | nil => exact (Reports.ok _).congr fun err => ⟨False.elim, fun h => not_firstFault_nil h⟩
  | cons p props ih =>
    exact ((propertyEntry_reports p).bind fun entry _ => ih.bind_ok).congr
      fun err => firstFault_cons_iff.symm

theorem objectEntries_eq_ok {entries : List Entry}
    (h : objectEntries props = .ok entries) : entries = props.filterMap entryOf? := by
  induction props generalizing entries with
  | nil =>
    cases h
    rfl
  | cons p props ih =>
    obtain ⟨entry, hentry, h⟩ := bind_eq_ok_iff.1 h
    obtain ⟨rest, hrest, h⟩ := bind_eq_ok_iff.1 h
    cases h
    have hp : entryOf? p = entry := by rw [entryOf?, hentry]; rfl
    rw [List.filterMap_cons, hp, ih hrest]
    cases entry <;> rfl

/-! ## The last definition -/

/-- The value of the last entry with a name. -/
def lastValue (name : Text) (entries : List Entry) : Option Expr :=
  (entries.reverse.find? fun entry => entry.name = name).map Entry.value

theorem lastValue_concat (name : Text) (entries : List Entry) (entry : Entry) :
    lastValue name (entries ++ [entry]) =
      if entry.name = name then some entry.value else lastValue name entries := by
  rw [lastValue, List.reverse_append, List.reverse_singleton, List.singleton_append,
    List.find?_cons]
  by_cases hname : entry.name = name <;> simp [hname, lastValue]

/-- One more property hides the definitions of its name before it. -/
theorem lastDefines_concat_iff {p : Property} {value : Expr} :
    LastDefines (props ++ [p]) name value ↔
      Defines p name value ∨ (∀ other, ¬ Defines p name other) ∧ LastDefines props name value := by
  constructor
  · rintro ⟨before, q, after, hprops, hq, hafter⟩
    rcases List.eq_nil_or_concat after with rfl | ⟨after, r, rfl⟩
    · obtain ⟨-, hpq⟩ := List.append_inj' hprops rfl
      cases hpq
      exact .inl hq
    · rw [List.concat_eq_append, ← List.cons_append, ← List.append_assoc] at hprops
      obtain ⟨rfl, hpr⟩ := List.append_inj' hprops rfl
      cases hpr
      exact .inr ⟨hafter p (by simp), before, q, after, rfl, hq,
        fun s hs => hafter s (by simp [hs])⟩
  · rintro (hp | ⟨hp, before, q, after, rfl, hq, hafter⟩)
    · exact ⟨props, p, [], rfl, hp, nofun⟩
    · refine ⟨before, q, after ++ [p], by simp, hq, ?_⟩
      intro s hs
      rcases List.mem_append.1 hs with hs | hs
      · exact hafter s hs
      · rw [List.mem_singleton.1 hs]
        exact hp

/-- Some property defines a name exactly if a last one does. -/
theorem exists_lastDefines_iff {name : Text} :
    (∃ value, LastDefines props name value) ↔ ∃ p ∈ props, ∃ value, Defines p name value := by
  constructor
  · rintro ⟨value, before, p, after, rfl, hp, -⟩
    exact ⟨p, by simp, value, hp⟩
  · induction props using List.reverseRecOn with
    | nil =>
      rintro ⟨p, hp, -⟩
      cases hp
    | append_singleton props q ih =>
      rintro ⟨p, hp, value, hvalue⟩
      simp only [lastDefines_concat_iff]
      by_cases hq : ∃ other, Defines q name other
      · obtain ⟨other, hother⟩ := hq
        exact ⟨other, .inl hother⟩
      · rw [not_exists] at hq
        rcases List.mem_append.1 hp with hp | hp
        · obtain ⟨value, hlast⟩ := ih ⟨p, hp, value, hvalue⟩
          exact ⟨value, .inr ⟨hq, hlast⟩⟩
        · rw [List.mem_singleton.1 hp] at hvalue
          exact absurd hvalue (hq value)

theorem lastValue_eq_some_iff {name : Text} :
    lastValue name (props.filterMap entryOf?) = some value ↔ LastDefines props name value := by
  induction props using List.reverseRecOn with
  | nil =>
    constructor
    · intro h
      cases h
    · rintro ⟨before, p, after, hprops, -⟩
      cases before <;> cases hprops
  | append_singleton props p ih =>
    rw [List.filterMap_append, lastDefines_concat_iff, ← ih]
    cases hentry : entryOf? p with
    | none =>
      have hnone : ∀ value, ¬ Defines p name value := by
        intro value hp
        rw [entryOf?_eq_some_iff.2 ⟨hp, rfl⟩] at hentry
        cases hentry
      simp [hentry, hnone]
    | some entry =>
      obtain ⟨hp, -⟩ := entryOf?_eq_some_iff.1 hentry
      rw [List.filterMap_cons, hentry, List.filterMap_nil, lastValue_concat]
      split
      · rename_i hname
        subst hname
        constructor
        · intro h
          cases h
          exact .inl hp
        · rintro (h | ⟨h, -⟩)
          · rw [(hp.unique h).2]
          · exact absurd hp (h _)
      · rename_i hname
        have hother : ∀ value, ¬ Defines p name value := fun value h => hname (hp.unique h).1
        simp [hother]

/-! ## Definitions by name -/

namespace ConfigMap

theorem find?_define (m : ConfigMap) (name key : Text) (value : Expr) :
    (m.define name value).find? key = if name = key then some value else m.find? key := by
  induction m with
  | nil => rfl
  | cons p rest ih =>
    obtain ⟨k, v⟩ := p
    rw [define]
    split
    · rename_i hk
      subst hk
      rw [find?, find?]
      split <;> rfl
    · rename_i hk
      rw [find?, find?, ih]
      by_cases hkey : k = key
      · have hname : name ≠ key := fun h => hk (hkey.trans h.symm)
        simp [hkey, hname]
      · simp [hkey]

/-- The definitions of some entries, one after the other. -/
def ofEntries (entries : List Entry) : ConfigMap :=
  entries.foldl (fun m entry => m.define entry.name entry.value) []

/-- Of several definitions of a name the last one is found. -/
theorem find?_ofEntries (entries : List Entry) (key : Text) :
    (ofEntries entries).find? key = lastValue key entries := by
  induction entries using List.reverseRecOn with
  | nil => rfl
  | append_singleton entries entry ih =>
    have hconcat : ofEntries (entries ++ [entry]) =
        (ofEntries entries).define entry.name entry.value := by
      simp only [ofEntries, List.foldl_append, List.foldl_cons, List.foldl_nil]
    rw [hconcat, find?_define, lastValue_concat, ih]

end ConfigMap

/-! ## Objects whose properties have names -/

/-- The entries of an object literal. What is none gets an error of its own. -/
def plainEntries (e : Expr) (otherwise : ScriptError) : Except ScriptError (List Entry) :=
  match withoutParens e with
  | .object _ props _ => objectEntries props
  | _ => .error otherwise

theorem plainEntries_of_objectWith {props : List Property} (h : ObjectWith e props)
    (otherwise : ScriptError) : plainEntries e otherwise = objectEntries props := by
  obtain ⟨span, comma, heq⟩ := objectWith_iff.1 h
  rw [plainEntries, heq]

theorem plainEntries_of_not_objectWith (h : ∀ props, ¬ ObjectWith e props)
    (otherwise : ScriptError) : plainEntries e otherwise = .error otherwise := by
  rw [plainEntries]
  split
  · rename_i heq
    exact absurd (objectWith_iff.2 ⟨_, _, heq⟩) (h _)
  · rfl

theorem plainEntries_reports (e : Expr) (otherwise : ScriptError) :
    Reports (plainEntries e otherwise) (NoPlainObject e otherwise) := by
  by_cases he : ∃ props, ObjectWith e props
  · obtain ⟨props, hprops⟩ := he
    rw [plainEntries_of_objectWith hprops]
    refine (objectEntries_reports props).congr fun err => ?_
    rw [firstFault_unnamedFault_iff]
    constructor
    · rintro ⟨span, hspan, rfl⟩
      exact .unnamed hprops hspan
    · intro h
      cases h with
      | noObject h => exact absurd hprops (h props)
      | unnamed h hspan => exact ⟨_, h.unique hprops ▸ hspan, rfl⟩
  · rw [not_exists] at he
    rw [plainEntries_of_not_objectWith he]
    refine (Reports.error otherwise).congr fun err => ?_
    constructor
    · rintro rfl
      exact .noObject he
    · intro h
      cases h with
      | noObject => rfl
      | unnamed h => exact absurd h (he _)

/-- An expression is a plain object exactly if nothing speaks against it. -/
theorem forall_not_noPlainObject_iff {otherwise : ScriptError} :
    (∀ err, ¬ NoPlainObject e otherwise err) ↔ ∃ props, ObjectWith e props ∧ AllNamed props := by
  constructor
  · intro h
    by_cases he : ∃ props, ObjectWith e props
    · obtain ⟨props, hprops⟩ := he
      exact ⟨props, hprops, forall_not_firstFault_iff.1 fun span hspan =>
        h _ (.unnamed hprops hspan)⟩
    · exact absurd (.noObject (not_exists.1 he)) (h otherwise)
  · rintro ⟨props, hprops, hnamed⟩ err herr
    cases herr with
    | noObject h => exact h props hprops
    | unnamed h hspan =>
      obtain rfl := h.unique hprops
      exact forall_not_firstFault_iff.2 hnamed _ hspan

/-! ## The second round -/

theorem entryMap_eq (entry : Entry) :
    entryMap entry = plainEntries entry.value ⟨.invalidProperty entry.name, entry.span⟩ >>=
      fun entries => .ok (.ofEntries entries) := by
  unfold entryMap plainEntries
  cases withoutParens entry.value <;> rfl

theorem entryMap_reports (entry : Entry) :
    Reports (entryMap entry)
      (NoPlainObject entry.value ⟨.invalidProperty entry.name, entry.span⟩) := by
  rw [entryMap_eq]
  exact (plainEntries_reports _ _).bind_ok

theorem misshapen_data_iff {span : Span} {err : ScriptError} :
    Misshapen "data".toList value span err ↔
      ¬ FunctionShaped value ∧ err = ⟨.invalidProperty "data".toList, span⟩ := by
  constructor
  · intro h
    cases h with
    | data hvalue => exact ⟨hvalue, rfl⟩
    | map hname => exact absurd hname (by decide)
  · rintro ⟨hvalue, rfl⟩
    exact .data hvalue

theorem misshapen_map_iff (hname : name ∈ mapNames) {span : Span}
    {err : ScriptError} :
    Misshapen name value span err ↔ NoPlainObject value ⟨.invalidProperty name, span⟩ err := by
  constructor
  · intro h
    cases h with
    | data => exact absurd hname (by decide)
    | map _ hvalue => exact hvalue
  · exact .map hname

theorem Misshapen.configures {value : Expr} {span : Span} {err : ScriptError}
    (h : Misshapen name value span err) : name = "data".toList ∨ name ∈ mapNames := by
  cases h with
  | data => exact .inl rfl
  | map hname => exact .inr hname

theorem mem_mapNames_iff :
    name ∈ mapNames ↔ name = "helpers".toList ∨ name = "components".toList := by
  rw [mapNames, List.mem_cons, List.mem_singleton]

/-- What is wrong with an entry does not depend on the entries before it. -/
theorem Config.apply_reports (c : Config) (entry : Entry) :
    Reports (c.apply entry) (Misshapen entry.name entry.value entry.span) := by
  unfold Config.apply
  split
  · rename_i hname
    rw [hname]
    split
    · rename_i hvalue
      refine (Reports.ok _).congr fun err => ?_
      rw [misshapen_data_iff, functionShaped_iff]
      exact ⟨False.elim, fun h => h.1 hvalue⟩
    · rename_i hvalue
      refine (Reports.error _).congr fun err => ?_
      rw [misshapen_data_iff, functionShaped_iff]
      exact ⟨fun h => ⟨hvalue, h⟩, fun h => h.2⟩
  · rename_i hdata
    split
    · rename_i hname
      refine ((entryMap_reports entry).bind_ok).congr fun err => ?_
      exact (misshapen_map_iff (mem_mapNames_iff.2 (.inl hname))).symm
    · rename_i hhelpers
      split
      · rename_i hname
        refine ((entryMap_reports entry).bind_ok).congr fun err => ?_
        exact (misshapen_map_iff (mem_mapNames_iff.2 (.inr hname))).symm
      · rename_i hcomponents
        refine (Reports.ok _).congr fun err => ⟨False.elim, fun h => ?_⟩
        rcases h.configures with hname | hname
        · exact hdata hname
        · rcases mem_mapNames_iff.1 hname with hname | hname
          · exact hhelpers hname
          · exact hcomponents hname

/-- The definitions in the object that a name was given last, if it was given one. -/
inductive MapFrom : Option Expr → ConfigMap → Prop where
  | missing : MapFrom none []
  | object {value : Expr} {props : List Property} (h : ObjectWith value props) :
    MapFrom (some value) (.ofEntries (props.filterMap entryOf?))

theorem mapFrom_of_entryMap {entry : Entry} {m : ConfigMap} (h : entryMap entry = .ok m) :
    MapFrom (some entry.value) m := by
  rw [entryMap_eq] at h
  obtain ⟨entries, hentries, h⟩ := bind_eq_ok_iff.1 h
  cases h
  by_cases hvalue : ∃ props, ObjectWith entry.value props
  · obtain ⟨props, hprops⟩ := hvalue
    rw [plainEntries_of_objectWith hprops] at hentries
    rw [objectEntries_eq_ok hentries]
    exact .object hprops
  · rw [plainEntries_of_not_objectWith (not_exists.1 hvalue)] at hentries
    cases hentries

/-- What a configuration holds after some entries: for each name the value that it was given last.
-/
structure Gathers (entries : List Entry) (c : Config) : Prop where
  data : c.data = lastValue "data".toList entries
  helpers : MapFrom (lastValue "helpers".toList entries) c.helpers
  components : MapFrom (lastValue "components".toList entries) c.components

/-- One more entry replaces what its name had before, and leaves the other names alone. -/
theorem Gathers.apply {entries : List Entry} {entry : Entry} {c c' : Config}
    (hc : Gathers entries c) (h : c.apply entry = .ok c') : Gathers (entries ++ [entry]) c' := by
  unfold Config.apply at h
  split at h
  · rename_i hname
    split at h
    · cases h
      refine ⟨?_, ?_, ?_⟩
      · rw [lastValue_concat, if_pos hname]
      · rw [lastValue_concat, if_neg (by rw [hname]; decide)]
        exact hc.helpers
      · rw [lastValue_concat, if_neg (by rw [hname]; decide)]
        exact hc.components
    · cases h
  · rename_i hdata
    split at h
    · rename_i hname
      obtain ⟨m, hm, h⟩ := bind_eq_ok_iff.1 h
      cases h
      refine ⟨?_, ?_, ?_⟩
      · rw [lastValue_concat, if_neg hdata]
        exact hc.data
      · rw [lastValue_concat, if_pos hname]
        exact mapFrom_of_entryMap hm
      · rw [lastValue_concat, if_neg (by rw [hname]; decide)]
        exact hc.components
    · rename_i hhelpers
      split at h
      · rename_i hname
        obtain ⟨m, hm, h⟩ := bind_eq_ok_iff.1 h
        cases h
        refine ⟨?_, ?_, ?_⟩
        · rw [lastValue_concat, if_neg hdata]
          exact hc.data
        · rw [lastValue_concat, if_neg hhelpers]
          exact hc.helpers
        · rw [lastValue_concat, if_pos hname]
          exact mapFrom_of_entryMap hm
      · rename_i hcomponents
        cases h
        refine ⟨?_, ?_, ?_⟩
        · rw [lastValue_concat, if_neg hdata]
          exact hc.data
        · rw [lastValue_concat, if_neg hhelpers]
          exact hc.helpers
        · rw [lastValue_concat, if_neg hcomponents]
          exact hc.components

theorem gathers_of_foldlM {entries : List Entry} {c : Config}
    (h : entries.foldlM Config.apply Config.empty = .ok c) : Gathers entries c := by
  induction entries using List.reverseRecOn generalizing c with
  | nil =>
    cases h
    exact ⟨rfl, .missing, .missing⟩
  | append_singleton entries entry ih =>
    rw [List.foldlM_append] at h
    obtain ⟨mid, hmid, h⟩ := bind_eq_ok_iff.1 h
    rw [List.foldlM_cons] at h
    obtain ⟨last, hlast, h⟩ := bind_eq_ok_iff.1 h
    cases h
    exact (ih hmid).apply hlast

theorem MapFrom.mapsLast {property : Text} {m : ConfigMap}
    (h : MapFrom (lastValue property (props.filterMap entryOf?)) m) :
    MapsLast props property m.contains m.find? := by
  have hfind : ∀ name value, m.find? name = some value ↔ ∃ object inner,
      LastDefines props property object ∧ ObjectWith object inner ∧
        LastDefines inner name value := by
    intro name value
    simp only [← lastValue_eq_some_iff]
    generalize lastValue property (props.filterMap entryOf?) = last at h
    cases h with
    | missing =>
      constructor
      · intro hvalue
        cases hvalue
      · rintro ⟨object, inner, hobject, -⟩
        cases hobject
    | @object object inner hinner =>
      rw [ConfigMap.find?_ofEntries]
      constructor
      · intro hvalue
        exact ⟨object, inner, rfl, hinner, hvalue⟩
      · rintro ⟨object', inner', hobject, hinner', hvalue⟩
        cases hobject
        rw [hinner.unique hinner']
        exact hvalue
  refine ⟨fun name => ?_, hfind⟩
  rw [ConfigMap.contains, Option.isSome_iff_exists]
  simp only [hfind, ← exists_lastDefines_iff]
  constructor
  · rintro ⟨value, object, inner, hobject, hinner, hvalue⟩
    exact ⟨object, inner, hobject, hinner, value, hvalue⟩
  · rintro ⟨object, inner, hobject, hinner, value, hvalue⟩
    exact ⟨value, object, inner, hobject, hinner, hvalue⟩

/-! ## Default exports -/

theorem extractConfig_eq (e : Expr) :
    extractConfig e = plainEntries e ⟨.invalidDefaultExport, e.span⟩ >>=
      fun entries => entries.foldlM Config.apply Config.empty := by
  unfold extractConfig plainEntries
  cases withoutParens e <;> rfl

theorem propertyFault_iff {p : Property} {err : ScriptError} :
    PropertyFault p err ↔
      ∃ entry, entryOf? p = some entry ∧ Misshapen entry.name entry.value entry.span err := by
  constructor
  · rintro ⟨name, value, hdefines, herr⟩
    exact ⟨⟨name, value, p.span⟩, entryOf?_eq_some_iff.2 ⟨hdefines, rfl⟩, herr⟩
  · rintro ⟨⟨name, value, span⟩, hentry, herr⟩
    obtain ⟨hdefines, rfl⟩ := entryOf?_eq_some_iff.1 hentry
    exact ⟨name, value, hdefines, herr⟩

/-- A default export is refused for the first property without a name or else for the first
misshapen value. -/
theorem extractConfig_reports (e : Expr) : Reports (extractConfig e) (Refused e) := by
  rw [extractConfig_eq]
  have hround : ∀ entries, plainEntries e ⟨.invalidDefaultExport, e.span⟩ = .ok entries →
      Reports (entries.foldlM Config.apply Config.empty) fun err =>
        ∃ props, ObjectWith e props ∧ FirstFault PropertyFault props err := by
    intro entries hentries
    obtain ⟨props, hprops, -⟩ :=
      forall_not_noPlainObject_iff.1 ((plainEntries_reports e _).exists_ok_iff.1 ⟨_, hentries⟩)
    rw [plainEntries_of_objectWith hprops] at hentries
    rw [objectEntries_eq_ok hentries]
    refine (Reports.foldlM Config.apply_reports _ _).congr fun err => ?_
    simp only [firstFault_filterMap_iff, ← propertyFault_iff]
    constructor
    · intro h
      exact ⟨props, hprops, h⟩
    · rintro ⟨props', hprops', h⟩
      exact hprops.unique hprops' ▸ h
  refine ((plainEntries_reports e _).bind hround).congr fun err => ?_
  constructor
  · rintro (h | ⟨hplain, props, hprops, h⟩)
    · exact .noPlainObject h
    · obtain ⟨props', hprops', hnamed⟩ := forall_not_noPlainObject_iff.1 hplain
      obtain rfl := hprops.unique hprops'
      exact .misshapen hprops hnamed h
  · intro h
    cases h with
    | noPlainObject h => exact .inl h
    | misshapen hprops hnamed h =>
      exact .inr ⟨forall_not_noPlainObject_iff.2 ⟨_, hprops, hnamed⟩, _, hprops, h⟩

/-- A default export is accepted exactly if it has the documented shape. -/
theorem forall_not_refused_iff :
    (∀ err, ¬ Refused e err) ↔ ∃ props, ObjectWith e props ∧ ConfigShaped props := by
  constructor
  · intro h
    obtain ⟨props, hprops, hnamed⟩ :=
      forall_not_noPlainObject_iff.1 fun err herr => h err (.noPlainObject herr)
    have hfaults : ∀ p ∈ props, ∀ err, ¬ PropertyFault p err :=
      forall_not_firstFault_iff.1 fun err herr => h err (.misshapen hprops hnamed herr)
    refine ⟨props, hprops, hnamed, ?_, ?_⟩
    · intro p hp value hdefines
      by_contra hvalue
      exact hfaults p hp _ ⟨_, _, hdefines, .data hvalue⟩
    · intro p hp name hname value hdefines
      exact forall_not_noPlainObject_iff.1 fun err herr =>
        hfaults p hp err ⟨_, _, hdefines, .map hname herr⟩
  · rintro ⟨props, hprops, hshaped⟩ err herr
    cases herr with
    | noPlainObject herr =>
      exact forall_not_noPlainObject_iff.2 ⟨props, hprops, hshaped.named⟩ err herr
    | misshapen hprops' _ herr =>
      obtain rfl := hprops'.unique hprops
      refine forall_not_firstFault_iff.2 (fun p hp err => ?_) err herr
      rintro ⟨name, value, hdefines, hvalue⟩
      cases hvalue with
      | data hvalue => exact hvalue (hshaped.data p hp value hdefines)
      | map hname hvalue =>
        exact forall_not_noPlainObject_iff.2 (hshaped.maps p hp name hname value hdefines) _ hvalue

theorem extractConfig_gathers {c : Config} (h : extractConfig e = .ok c) :
    ∃ props, ObjectWith e props ∧ Gathers (props.filterMap entryOf?) c := by
  rw [extractConfig_eq] at h
  obtain ⟨entries, hentries, h⟩ := bind_eq_ok_iff.1 h
  obtain ⟨props, hprops, -⟩ :=
    forall_not_noPlainObject_iff.1 ((plainEntries_reports e _).exists_ok_iff.1 ⟨_, hentries⟩)
  rw [plainEntries_of_objectWith hprops] at hentries
  rw [objectEntries_eq_ok hentries] at h
  exact ⟨props, hprops, gathers_of_foldlM h⟩

/-- Two objects of helpers under parentheses, the second one with two definitions of one name, and
an accessor between them. -/
def repeatedHelpers : Text :=
  ("((\x7b helpers: \x7b a \x7d, data() \x7b\x7d, get x() \x7b return 1 \x7d, " ++
    "'helpers': (\x7b b, 'b': c \x7d) \x7d))").toList

/-- A value of a wrong shape, and behind it a spread. -/
def spreadBehind : Text := "\x7b data: 1, ...rest \x7d".toList

end TemplateCompiler
