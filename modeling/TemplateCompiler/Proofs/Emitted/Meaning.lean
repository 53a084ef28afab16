import TemplateCompiler.Proofs.Compilation
import TemplateCompiler.Proofs.Emitted.Evaluation
import TemplateCompiler.Proofs.Emitted.Markup
import TemplateCompiler.Proofs.Emitted.Parsing

/-!
# The meaning of emitted code

Running the statements of a template gives the text of its nodes: the code of every node is parsed as a
program whose value, as a text, is the text of the node, whatever the each blocks around it bind.

## What this module delivers

* `TargetMeans`, `PartsMean`: atoms whose programs evaluate to a text.
* `nodeShape_means`: the atoms of a node mean its text.
* `expressionWith_eq`: the expressions of a template are told apart by their spans.
-/

set_option autoImplicit false

namespace TemplateCompiler.Emitted

open Script

variable {V : Type} {lookup : Span → Option Expr} {ev : Evaluator V}

attribute [local simp] eval evalTexts

/-! ## Texts -/

theorem evalTexts_append {p q : List Target} {env : Env V} {s t : Text}
    (hp : evalTexts ev p env = some s) (hq : evalTexts ev q env = some t) :
    evalTexts ev (p ++ q) env = some (s ++ t) := by
  induction p generalizing s with
  | nil =>
    cases hp
    exact hq
  | cons a p ih =>
    rw [evalTexts] at hp
    obtain ⟨v, hv, hp⟩ := Option.bind_eq_some_iff.1 hp
    obtain ⟨text, htext, hp⟩ := Option.bind_eq_some_iff.1 hp
    obtain ⟨more, hmore, hp⟩ := Option.bind_eq_some_iff.1 hp
    cases hp
    simp [hv, htext, ih hmore]

theorem evalTexts_quoted (t : Text) (env : Env V) :
    evalTexts ev (t.map fun c => .quoted [c]) env = some t := by
  induction t with
  | nil => rfl
  | cons c t ih => simp [Value.toText, ih]

theorem eval_exprTarget (e : Expr) (env : Env V) :
    eval ev (exprTarget e) env = some (.source e env) := by
  unfold exprTarget
  split <;> simp

theorem eval_iterableTarget (e : Expr) (env : Env V) :
    eval ev (iterableTarget e) env = some (.source e env) := by
  unfold iterableTarget
  split <;> simp

theorem evalTexts_parts (value : Text → Text) (parts : List AttributePart) (env : Env V) :
    evalTexts ev (parts.flatMap (partTargets value)) env =
      some (parts.flatMap (interpretPart ev value env)) := by
  induction parts with
  | nil => rfl
  | cons part parts ih =>
    rw [List.flatMap_cons, List.flatMap_cons]
    refine evalTexts_append ?_ ih
    cases part with
    | text data => exact evalTexts_quoted (value data) env
    | expr e => simp [partTargets, eval_exprTarget, Value.toText, interpretPart]

/-! ## Atoms that mean a text -/

/-- Atoms that are parsed as a program of a level whose value, as a text, is given by `f`. -/
def TargetMeans (lookup : Span → Option Expr) (ev : Evaluator V) (least : Nat) (x : List Atom)
    (f : Env V → Text) : Prop :=
  ∃ t, TargetRead lookup least x t ∧ ∀ env, (eval ev t env).bind (Value.toText ev) = some (f env)

/-- Atoms that are parsed as parts of a template literal whose text is given by `f`. -/
def PartsMean (lookup : Span → Option Expr) (ev : Evaluator V) (x : List Atom)
    (f : Env V → Text) : Prop :=
  ∃ parts, PartsRead lookup x parts ∧ ∀ env, evalTexts ev parts env = some (f env)

theorem TargetMeans.congr {least : Nat} {x : List Atom} {f h : Env V → Text}
    (hx : TargetMeans lookup ev least x f) (hf : ∀ env, f env = h env) :
    TargetMeans lookup ev least x h := by
  obtain ⟨t, ht, hvalue⟩ := hx
  exact ⟨t, ht, fun env => hf env ▸ hvalue env⟩

namespace PartsMean

variable {x y : List Atom} {f h : Env V → Text}

theorem nil : PartsMean lookup ev [] fun _ => [] :=
  ⟨[], .nil, fun _ => rfl⟩

theorem append (hx : PartsMean lookup ev x f) (hy : PartsMean lookup ev y h) :
    PartsMean lookup ev (x ++ y) fun env => f env ++ h env := by
  obtain ⟨p, hp, hf⟩ := hx
  obtain ⟨q, hq, hh⟩ := hy
  exact ⟨p ++ q, hp.append hq, fun env => evalTexts_append (hf env) (hh env)⟩

theorem congr (hx : PartsMean lookup ev x f) (hf : ∀ env, f env = h env) :
    PartsMean lookup ev x h := by
  obtain ⟨p, hp, hvalue⟩ := hx
  exact ⟨p, hp, fun env => hf env ▸ hvalue env⟩

theorem cooked (t : Text) : PartsMean lookup ev (cooked t) fun _ => t :=
  ⟨_, partsRead_cooked t, evalTexts_quoted t⟩

theorem hole (hx : TargetMeans lookup ev 0 x f) : PartsMean lookup ev (holeAtoms x) f := by
  obtain ⟨t, ht, hf⟩ := hx
  refine ⟨[t], partsRead_hole ht, fun env => ?_⟩
  have hvalue := hf env
  obtain ⟨v, hv, htext⟩ := Option.bind_eq_some_iff.1 hvalue
  simp [hv, htext]

theorem literal (hx : PartsMean lookup ev x f) {least : Nat} (hleast : least ≤ 3) :
    TargetMeans lookup ev least (literalAtoms x) f := by
  obtain ⟨parts, hparts, hf⟩ := hx
  refine ⟨.literal parts, (primaryRead_literal hparts).target hleast (literalAtoms_ne_nil x),
    fun env => ?_⟩
  simp [hf env, Value.toText]

end PartsMean

/-- The atoms of a shape mean a text, in a literal and as an expression. -/
def ShapeMeans (lookup : Span → Option Expr) (ev : Evaluator V) : Shape → (Env V → Text) → Prop
  | .expression atoms, f => ∀ least ≤ 1, TargetMeans lookup ev least atoms f
  | .literal atoms, f => PartsMean lookup ev atoms f

theorem ShapeMeans.inLiteral {s : Shape} {f : Env V → Text} (h : ShapeMeans lookup ev s f) :
    PartsMean lookup ev s.inLiteral f := by
  cases s with
  | expression atoms => exact .hole (h 0 (Nat.zero_le 1))
  | literal atoms => exact h

theorem ShapeMeans.asExpression {s : Shape} {f : Env V → Text} (h : ShapeMeans lookup ev s f) :
    TargetMeans lookup ev 1 s.asExpression f := by
  cases s with
  | expression atoms => exact h 1 (Nat.le_refl 1)
  | literal atoms => exact PartsMean.literal h (Nat.le_add_left 1 2)

/-! ## Attributes and components -/

/-- Every expression of an attribute is found by its span. -/
def AttributeFound (lookup : Span → Option Expr) (a : Attribute) : Prop :=
  ∀ e, .expr e ∈ a.value.getD [] → lookup e.span = some e

theorem partsMean_parts {value : Text → Text} {parts : List AttributePart}
    (h : ∀ e, .expr e ∈ parts → lookup e.span = some e) :
    PartsMean lookup ev (parts.flatMap (partAtoms value)) fun env =>
      parts.flatMap (interpretPart ev value env) :=
  ⟨_, partsRead_parts h, evalTexts_parts value parts⟩

theorem partsMean_attribute {a : Attribute} (h : AttributeFound lookup a) :
    PartsMean lookup ev (attributeAtoms a) fun env => interpretAttribute ev env a := by
  unfold attributeAtoms interpretAttribute
  cases hvalue : a.value with
  | none => exact (PartsMean.cooked (' ' :: a.name)).congr fun env => by simp
  | some parts =>
    rw [AttributeFound, hvalue] at h
    have hopen := @PartsMean.cooked V lookup ev (' ' :: a.name ++ "=\"".toList)
    have hclose := @PartsMean.cooked V lookup ev "\"".toList
    have hall := (hopen.append (@partsMean_parts V lookup ev referenced parts h)).append hclose
    exact hall.congr fun env => by simp

theorem partsMean_tag {name : Text} {attrs : List Attribute}
    (h : ∀ a ∈ attrs, AttributeFound lookup a) :
    PartsMean lookup ev (tagAtoms name attrs) fun env =>
      '<' :: name ++ attrs.flatMap (interpretAttribute ev env) := by
  have hattrs : PartsMean lookup ev (attrs.flatMap attributeAtoms) fun env =>
      attrs.flatMap (interpretAttribute ev env) := by
    induction attrs with
    | nil => exact .nil
    | cons a attrs ih =>
      rw [List.forall_mem_cons] at h
      exact (partsMean_attribute h.1).append (ih h.2)
  exact (PartsMean.cooked ('<' :: name)).append hattrs

theorem eval_propTarget (a : Attribute) (env : Env V) :
    (eval ev (propTarget a.value) env).bind (Value.toArgument ev) =
      some (interpretArgument ev env a).2 := by
  unfold interpretArgument
  cases a.value with
  | none => rfl
  | some parts =>
    have hliteral : (eval ev (.literal (parts.flatMap (partTargets id))) env).bind
        (Value.toArgument ev) = some (.text (parts.flatMap (interpretPart ev id env))) := by
      simp [evalTexts_parts, Value.toArgument]
    rcases parts with - | ⟨⟨data⟩ | ⟨e⟩, - | ⟨part, parts⟩⟩
    · exact hliteral
    · exact hliteral
    · exact hliteral
    · simp [propTarget, eval_exprTarget, Value.toArgument]
    · exact hliteral

theorem evalArguments_props (attrs : List Attribute) (env : Env V) :
    evalArguments ev (attrs.map fun a => propTarget a.value) env =
      some (attrs.map fun a => (interpretArgument ev env a).2) := by
  induction attrs with
  | nil => rfl
  | cons a attrs ih =>
    obtain ⟨v, hv, hargument⟩ := Option.bind_eq_some_iff.1 (@eval_propTarget V ev a env)
    simp [evalArguments, hv, hargument, ih]

theorem targetMeans_component {name : Text} {attrs : List Attribute}
    (h : ∀ a ∈ attrs, AttributeFound lookup a) {least : Nat} (hleast : least ≤ 3) :
    TargetMeans lookup ev least (componentAtoms name attrs) fun env =>
      ev.component env name (attrs.map (interpretArgument ev env)) := by
  have hne : componentAtoms name attrs ≠ [] := by
    have hatoms := componentAtoms_append name attrs []
    rw [List.append_nil] at hatoms
    rw [hatoms]
    simp
  refine ⟨_, (primaryRead_component h).target hleast hne, fun env => ?_⟩
  have hzip : (attrs.map Attribute.name).zip (attrs.map fun a => (interpretArgument ev env a).2) =
      attrs.map (interpretArgument ev env) := by
    rw [List.zip_map']
    rfl
  simp [evalArguments_props, hzip, Value.toText]

/-! ## Lists -/

theorem mapM_eq_some {α β : Type} {f : α → Option β} {k : α → β} (h : ∀ a, f a = some (k a))
    (l : List α) : l.mapM f = some (l.map k) := by
  induction l with
  | nil => rfl
  | cons a l ih => simp [List.mapM_cons, h, ih]

theorem intercalate_nil {α : Type} (l : List (List α)) : ([] : List α).intercalate l = l.flatten := by
  rw [List.intercalate]
  induction l with
  | nil => rfl
  | cons a l ih =>
    cases l with
    | nil => rfl
    | cons b l =>
      rw [List.intersperse_cons_cons, List.flatten_cons, List.flatten_cons, ih]
      rfl

/-- The mapping and joining of a list means the texts of its items, one after another. -/
theorem targetMeans_loop {iterable : Expr} {item : BlockBinding} {index : Option BlockBinding}
    {x : List Atom} {f : Env V → Text} {least : Nat} (hleast : least ≤ 3)
    (hiterable : lookup iterable.span = some iterable) (hitem : isIdentifier item.name = true)
    (hindex : ∀ i ∈ index, isIdentifier i.name = true) (hx : PartsMean lookup ev x f) :
    TargetMeans lookup ev least (iterableAtoms iterable ++ coded (".map( ".toList
      ++ itemParams item index ++ " => ".toList) ++ literalAtoms x ++ coded " ).join( ".toList
      ++ stringAtoms [] ++ coded " )".toList) fun env =>
      (ev.items iterable env).zipIdx.flatMap fun p =>
        f (bindItem (itemNames item index) p.1 p.2 env) := by
  obtain ⟨body, hbody, hf⟩ := hx
  refine ⟨_, targetRead_loop hleast hiterable hitem hindex hbody, fun env => ?_⟩
  have hitems : (ev.items iterable env).zipIdx.mapM (fun p : V × Nat => (eval ev (.literal body)
      (bindItem (itemNames item index) p.1 p.2 env)).bind (Value.toText ev)) =
      some ((ev.items iterable env).zipIdx.map fun p =>
        f (bindItem (itemNames item index) p.1 p.2 env)) :=
    mapM_eq_some (fun p => by simp [hf, Value.toText]) _
  have hmapped : eval ev (.mapped (iterableTarget iterable) (itemNames item index) (.literal body))
      env = some (.list ((ev.items iterable env).zipIdx.map fun p =>
        f (bindItem (itemNames item index) p.1 p.2 env))) := by
    rw [eval, eval_iterableTarget]
    simp only [Option.bind_eq_bind, Option.bind_some]
    rw [hitems]
    rfl
  rw [eval, hmapped]
  simp [Value.toText, intercalate_nil, List.flatMap_def]

/-- A conditional means the text of the branch that is taken. -/
theorem targetMeans_conditional {test : Expr} {x y : List Atom} {f h : Env V → Text} {least : Nat}
    (htest : lookup test.span = some test) (hx : PartsMean lookup ev x f)
    (hy : PartsMean lookup ev y h) :
    TargetMeans lookup ev least (parenAtoms [.source test.span] ++ coded " ? ".toList
      ++ literalAtoms x ++ coded " : ".toList ++ literalAtoms y) fun env =>
      if ev.truth test env then f env else h env := by
  obtain ⟨yes, hyes, hf⟩ := hx
  obtain ⟨no, hno, hh⟩ := hy
  refine ⟨_, targetRead_conditional htest hyes hno, fun env => ?_⟩
  have htruth : eval ev (.grouped (.source test)) env = some (.source test env) := by
    simp
  rw [eval, htruth]
  cases hb : ev.truth test env with
  | true => simp [Value.toTruth, hb, hf, Value.toText]
  | false => simp [Value.toTruth, hb, hh, Value.toText]

/-! ## Nodes -/

/-- Every one of some expressions is found by its span. -/
def ExprsFound (lookup : Span → Option Expr) (exprs : List ScopedExpr) : Prop :=
  ∀ s ∈ exprs, lookup s.expr.span = some s.expr

theorem attributesFound {scope : Scope} {attrs : List Attribute}
    (h : ExprsFound lookup ((attrs.flatMap attributeExpressions).map (ScopedExpr.mk scope))) :
    ∀ a ∈ attrs, AttributeFound lookup a := by
  intro a ha e he
  refine h ⟨scope, e⟩ (List.mem_map.2 ⟨e, List.mem_flatMap.2 ⟨a, ha, ?_⟩, rfl⟩)
  exact List.mem_filterMap.2 ⟨.expr e, he, rfl⟩

mutual

/-- The atoms of a node mean its text. -/
theorem nodeShape_means (config : Config) :
    (n : Node) → (scope : Scope) → NodeFormed n → ExprsFound lookup (nodeExpressions scope n) →
      ShapeMeans lookup ev (nodeShape config n) (interpretNode config ev n)
  | .element name attrs children span, scope, hn, hfound => by
    obtain ⟨-, -, hchildren, -, -⟩ := hn
    rw [nodeExpressions, ExprsFound, List.forall_mem_append] at hfound
    have hattrs := attributesFound hfound.1
    have htag := @partsMean_tag V lookup ev name attrs hattrs
    rw [nodeShape]
    split
    · rename_i hcomponent
      intro least hleast
      have hcall := @targetMeans_component V lookup ev name attrs hattrs least (by omega)
      exact hcall.congr fun env => by simp [interpretNode, hcomponent]
    · rename_i hcomponent
      split
      · rename_i hvoid
        exact (htag.append (.cooked _)).congr fun env => by
          simp [interpretNode, hcomponent, hvoid]
      · rename_i hvoid
        rw [if_neg hvoid] at hfound
        split
        · rename_i hempty
          exact (htag.append (.cooked _)).congr fun env => by
            simp [interpretNode, hcomponent, hvoid, hempty]
        · rename_i hempty
          have hinner := nodesAtoms_mean config children scope hchildren hfound.2
          exact (((htag.append (.cooked _)).append hinner).append (.cooked _)).congr fun env => by
            simp [interpretNode, hcomponent, hvoid, hempty]
  | .text data span, scope, hn, hfound => .cooked data
  | .mustache e span, scope, hn, hfound => by
    intro least hleast
    have he := hfound ⟨scope, e⟩ (List.mem_singleton_self _)
    refine ⟨_, targetRead_expr he hleast, fun env => ?_⟩
    simp [eval_exprTarget, Value.toText, interpretNode]
  | .ifBlock test children alternative span, scope, hn, hfound => by
    obtain ⟨hchildren, -, halternative⟩ := hn
    rw [nodeExpressions, ExprsFound, List.cons_append, List.forall_mem_cons,
      List.forall_mem_append] at hfound
    obtain ⟨htest, hyes, hno⟩ := hfound
    intro least hleast
    have hthen := nodesAtoms_mean config children scope hchildren hyes
    have helse := alternativeAtoms_mean config alternative scope halternative hno
    exact (targetMeans_conditional htest hthen helse).congr fun env => by rw [interpretNode]
  | .eachBlock iterable item index children span, scope, hn, hfound => by
    obtain ⟨hitem, hindex, hchildren, -⟩ := hn
    rw [nodeExpressions, ExprsFound, List.forall_mem_cons] at hfound
    obtain ⟨hiterable, hbody⟩ := hfound
    intro least hleast
    have hinner := nodesAtoms_mean config children (scope.push (itemNames item index)) hchildren hbody
    exact (targetMeans_loop (by omega) hiterable hitem hindex hinner).congr fun env => by
      rw [interpretNode]

/-- The atoms of some nodes in a literal mean their text. -/
theorem nodesAtoms_mean (config : Config) :
    (nodes : List Node) → (scope : Scope) → NodesFormed nodes →
      ExprsFound lookup (scopedExpressions scope nodes) →
      PartsMean lookup ev (nodesAtoms config nodes) (interpretNodes config ev nodes)
  | [], scope, hn, hfound => PartsMean.nil.congr fun env => by rw [interpretNodes]
  | n :: rest, scope, hn, hfound => by
    rw [scopedExpressions, ExprsFound, List.forall_mem_append] at hfound
    have hfirst := nodeShape_means config n scope hn.1 hfound.1
    have hrest := nodesAtoms_mean config rest scope hn.2 hfound.2
    rw [nodesAtoms]
    exact (hfirst.inLiteral.append hrest).congr fun env => by rw [interpretNodes]

/-- The atoms of an alternative in a literal mean its text. -/
theorem alternativeAtoms_mean (config : Config) :
    (alternative : Option (List Node)) → (scope : Scope) → AlternativeFormed alternative →
      ExprsFound lookup (alternativeExpressions scope alternative) →
      PartsMean lookup ev (alternativeAtoms config alternative)
        (interpretAlternative config ev alternative)
  | none, scope, hn, hfound => PartsMean.nil.congr fun env => by rw [interpretAlternative]
  | some nodes, scope, hn, hfound =>
    (nodesAtoms_mean config nodes scope hn.1 hfound).congr fun env => by rw [interpretAlternative]

end

/-! ## Statements -/

/-- A statement is parsed as the program it adds. -/
theorem parseStatement_of_read {x : List Atom} {t : Target} (h : TargetRead lookup 1 x t) :
    parseStatement lookup (coded "rendered += ".toList ++ x ++ coded ";".toList) = some t := by
  have hatoms : ∀ (s u : Text) (a : List Atom), coded s = a ++ [.code ' ', .code '+', .code '=',
      .code ' '] → coded u = [.code ';'] → coded s ++ x ++ coded u =
        a ++ .code ' ' :: .code '+' :: .code '=' :: .code ' ' :: (x ++ [.code ';']) := by
    intro s u a hs hu
    rw [hs, hu]
    simp
  have hword : ∀ more, word "rendered".toList (coded "rendered".toList ++ .code ' ' :: more) =
      some (.code ' ' :: more) := fun more => word_coded (by decide) rfl
  have hparse := h.space [.code ';'] rfl _ (Nat.le_refl _)
  have hskip : ∀ more, skipBlanks (.code ' ' :: .code '+' :: .code '=' :: more) =
      .code '+' :: .code '=' :: more := fun _ => rfl
  rw [List.cons_append] at hparse
  rw [hatoms _ _ (coded "rendered".toList) (by decide) (by decide), parseStatement, hword]
  simp only [Option.bind_eq_bind, Option.bind_some, hskip, hparse]
  rfl

/-- Running the statement of a node adds the text of the node. -/
theorem runBlock_eq {config : Config} {n : Node} {block : List Fragment} {scope : Scope}
    {rendered : Text} (hn : NodeFormed n) (hfound : ExprsFound lookup (nodeExpressions scope n))
    (hlex : lex block = some (blockAtoms config n)) :
    runBlock ev lookup rendered block = some (rendered ++ interpretNode config ev n []) := by
  obtain ⟨t, ht, hvalue⟩ :=
    (@nodeShape_means V lookup ev config n scope hn hfound).asExpression
  obtain ⟨v, hv, htext⟩ := Option.bind_eq_some_iff.1 (hvalue [])
  have hparse : parseStatement lookup (blockAtoms config n) = some t := parseStatement_of_read ht
  simp [runBlock, hlex, hparse, hv, htext]

theorem runBlocks_eq {config : Config} {nodes : List Node} {blocks : List (List Fragment)}
    {scope : Scope} {rendered : Text} (hn : NodesFormed nodes)
    (hfound : ExprsFound lookup (scopedExpressions scope nodes))
    (hlex : blocks.map lex = nodes.map fun n => some (blockAtoms config n)) :
    runBlocks ev lookup rendered blocks = some (rendered ++ interpretNodes config ev nodes []) := by
  induction nodes generalizing blocks rendered with
  | nil =>
    have hnil : blocks = [] := by simpa using hlex
    subst hnil
    simp [runBlocks, interpretNodes]
  | cons n nodes ih =>
    cases blocks with
    | nil => cases hlex
    | cons block blocks =>
      rw [List.map_cons, List.map_cons, List.cons.injEq] at hlex
      rw [scopedExpressions, ExprsFound, List.forall_mem_append] at hfound
      have hfirst := @runBlock_eq V lookup ev config n block scope rendered hn.1 hfound.1 hlex.1
      have hrest := @ih blocks (rendered ++ interpretNode config ev n []) hn.2 hfound.2 hlex.2
      rw [runBlocks, List.foldlM_cons, hfirst]
      rw [interpretNodes, ← List.append_assoc]
      exact hrest

/-! ## Expressions by their spans -/

/-- Expressions that are read one after the other have spans one after the other. -/
theorem ExprsRead.pairwise {g : Grammar} (hg : g.Sound) {source : Text} {lo hi : Nat}
    {es : List Expr} (h : ExprsRead g source lo hi es) :
    (∀ e ∈ es, lo ≤ e.span.start) ∧ es.Pairwise fun a b => a.span.start < b.span.start := by
  induction h with
  | nil => exact ⟨nofun, .nil⟩
  | @cons lo mid hi c e es hc hlo hmid he hes ih =>
    obtain ⟨hstart, hpairs⟩ := ih
    obtain ⟨body, hbody⟩ := (hg.expression _ _ _ (expressionAt_eq_ok he)).span
    have hfirst := hbody.pos_le_start
    have hstop := Nat.le_trans hbody.start_le_stop hbody.stop_le
    have hend : c.stop = c.pos + Text.byteLength c.rest := rfl
    refine ⟨?_, List.pairwise_cons.2 ⟨fun b hb => ?_, hpairs⟩⟩
    · intro b hb
      rcases List.mem_cons.1 hb with rfl | hb
      · omega
      · have hb := hstart b hb
        omega
    · have hb := hstart b hb
      omega

theorem find?_span {es : List Expr} (h : es.Pairwise fun a b => a.span.start < b.span.start)
    {e : Expr} (he : e ∈ es) : es.find? (fun a => a.span = e.span) = some e := by
  induction es with
  | nil => cases he
  | cons a es ih =>
    obtain ⟨hfirst, hrest⟩ := List.pairwise_cons.1 h
    rcases List.mem_cons.1 he with rfl | he
    · simp
    · have hlt := hfirst e he
      have hne : a.span ≠ e.span := fun heq => by
        rw [heq] at hlt
        exact Nat.lt_irrefl _ hlt
      rw [List.find?_cons_of_neg (by simpa using hne)]
      exact ih hrest he

/-- The expressions of a template are told apart by their spans. -/
theorem expressionWith_found {g : Grammar} (hg : g.Sound) {source : Text} {t : Template}
    (h : readTemplate g source = .ok t) :
    ExprsFound (expressionWith t) (scopedExpressions .root t.nodes) := by
  intro s hs
  have hpairs := (ExprsRead.pairwise hg (readTemplate_exprs h .root).1).2
  exact find?_span hpairs (List.mem_map_of_mem hs)

/-- Blocks one in the other, an attribute with an expression between quotes, and an alternative. -/
def blocksInBlocks : Text :=
  ("<ul id=\"a`\x7b\x7bk\x7d\x7d\">\x7b\x7b#each rows as row, i\x7d\x7d\x7b\x7b#if row.ok\x7d\x7d" ++
    "<li>\x7b\x7brow.name + i\x7d\x7d</li>\x7b\x7belse\x7d\x7d<br>\x7b\x7b/if\x7d\x7d" ++
    "\x7b\x7b/each\x7d\x7d</ul>").toList

end TemplateCompiler.Emitted
