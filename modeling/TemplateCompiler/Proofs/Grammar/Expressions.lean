import TemplateCompiler.Proofs.Grammar.Functions
import TemplateCompiler.Script.Grammar.Expression

/-!
# Expressions in their text

A rule either consumes tokens and answers an expression that lies where they stood, or it is given the
expression before the current token and answers a longer one, which starts where the given one does.

## What this module delivers

* `objectLiteral_lays`, `templateRest_lays`, `regexLiteral_gives`: literals.
* `primary_lays`, `subscripts_gives`, `leftHandSide_lays`: expressions without operators.
* `unaryExpression_lays`, `binaryTail_gives`, `assignment_lays`, `expression_lays`: the others.
-/

set_option autoImplicit false

namespace TemplateCompiler.Script

open Text Reader Resolve

namespace Excerpt

variable {x : Excerpt} {s s₀ s' : ReaderState} {d : Deeper} {ctx : Context}

variable (hd : d.LaysOut x)

include hd

theorem expression_lays : x.Lays (expression d ctx) fun e => [.expr e] := by
  intro s hs
  simp only [expression, gives_bind]
  refine hs.read ((hd.assignment ctx).listOf _).each fun items s₁ h₁ => ?_
  split
  · exact gives_pure.2 h₁
  · simp only [gives_bind, gives_spanFrom, gives_pure]
    exact h₁.extend rfl rfl
  · exact .fail

/-! ## Arguments and literals -/

theorem spreadable_lays : x.Lays (spreadable d ctx) fun e => [.expr e] := by
  intro s hs
  simp only [spreadable, gives_bind, gives_offset, gives_ite, gives_pure, gives_spanFrom]
  refine hs.accept (by simp) (fun s₁ h₁ => ?_) (hd.assignment _ s hs)
  exact h₁.read (hd.assignment _) fun e s₂ h₂ => h₂.expr rfl

theorem arguments_lays :
    x.Lays (arguments d ctx) fun args => args.map .expr := by
  intro s hs
  simp only [arguments, gives_bind]
  refine hs.expect (by simp) fun s₁ h₁ => ?_
  exact h₁.read ((spreadable_lays hd).listUntil (by simp) _).each fun args s₂ h₂ => h₂

theorem arrayItems_lays (n : Nat) :
    x.Lays (arrayItems d ctx n) fun r => r.1.map .expr := by
  induction n with
  | zero => exact fun s hs => .fail
  | succ n ih =>
    intro s hs
    simp only [arrayItems, gives_bind, gives_lexeme, gives_ite, gives_pure]
    refine hs.accept (by simp) (fun s₁ h₁ => h₁) ?_
    refine hs.accept (by simp) (fun s₁ h₁ => ?_) ?_
    · have hhole : x.Past s [.expr (.omitted s.current.span)] s₁ := h₁.leaf hs.ready rfl rfl
      exact hhole.read ih fun r s₂ h₂ => h₂
    refine hs.read (spreadable_lays hd) fun e s₁ h₁ => ?_
    refine h₁.accept (by simp) (fun s₂ h₂ => h₂) (h₁.expect (by simp) fun s₂ h₂ => ?_)
    exact h₂.accept (by simp) (fun s₃ h₃ => h₃) (h₂.read ih fun r s₃ h₃ => h₃)

theorem arrayLiteral_lays :
    x.Lays (arrayLiteral d ctx) fun e => [.expr e] := by
  intro s hs
  simp only [arrayLiteral, gives_bind, gives_offset, gives_pure, gives_spanFrom]
  refine hs.expect (by simp) fun s₁ h₁ => ?_
  exact h₁.read (arrayItems_lays hd _) fun r s₂ h₂ => h₂.expr rfl

omit hd in
theorem Past.prop {p : Property} (h : x.Past s (Snippet.prop p).row s')
    (hspans : ∀ span ∈ (Snippet.prop p).ownSpans, x.Spans s.current.start s'.lastStop span) :
    x.Past s [.prop p] s' :=
  h.took.past (h.laid.close trivial hspans)

omit hd in
/-- A property with a key, from the key to where its last piece ends. -/
theorem Keyed.prop {key : Key} {p : Property} {s₁ : ReaderState} {stop : Nat} (hkey : x.Keyed s key s₁)
    (hle : s₁.lastStop ≤ stop) (hstop : x.Mark stop) (hhi : stop ≤ s'.lastStop)
    (hspans : (Snippet.prop p).ownSpans = [⟨key.span.start, stop⟩, key.span])
    (h : x.Past s (Snippet.prop p).row s') : x.Past s [.prop p] s' := by
  have hspan := hkey.spans
  refine h.prop ?_
  rw [hspans]
  refine List.forall_mem_cons.2 ⟨⟨hspan.start, hstop, hspan.lo_le, by grind, hhi⟩, ?_⟩
  exact List.forall_mem_singleton.2 (hspan.mono (Nat.le_refl _) (Nat.le_trans hle hhi))

theorem objectMethod_gives {start : Nat} {key : Key} (async generator : Bool)
    (h : x.Keyed s₀ key s) :
    Gives s (objectMethod d ctx start key async generator) fun p s' => x.Past s₀ [.prop p] s' := by
  simp only [objectMethod, gives_bind, gives_spanFrom, gives_pure]
  refine (methodRest_lays hd _ _ s h.ready.along).mono fun f s₁ h₁ => ?_
  exact h.prop (by grind) h₁.took.ends.mark (Nat.le_refl _) rfl (h.then h₁)

theorem objectProperty_lays :
    x.Lays (objectProperty d ctx) fun p => [.prop p] := by
  intro s hs
  simp only [objectProperty, gives_bind, gives_lexeme, gives_token, gives_ite, gives_pure,
    gives_spanFrom]
  -- A key behind words, and what follows it.
  have hkeyed : ∀ {s₁ : ReaderState}, x.Past s [] s₁ →
      Gives s₁ (propertyKey d ctx) fun key s₂ => x.Keyed s key s₂ := fun h₁ =>
    (propertyKey_gives hd h₁.ready.along).mono fun key s₂ h₂ => h₁.thenKey h₂
  refine hs.accept (by simp) (fun s₁ h₁ => h₁.read (hd.assignment _) fun e s₂ h₂ => ?_) ?_
  · exact h₂.prop (List.forall_mem_singleton.2 h₂.took.spans)
  refine hs.accept (by simp) (fun s₁ h₁ => ?_) ?_
  · exact (hkeyed h₁).mono fun key s₂ h₂ => objectMethod_gives hd _ _ h₂
  refine (propertyKey_gives hd hs).mono fun key s₁ h₁ => ?_
  -- A word that stands alone is a name.
  have hname : ∀ name, x.Past s [.pat (.ident ⟨name, s.current.span⟩)] s₁ :=
    fun name => h₁.skip.name hs.ready
  have hspan := hs.ready.spans h₁.took.far
  have hshorthand : ∀ name, x.Past s [.prop (.shorthand ⟨name, s.current.span⟩)] s₁ :=
    fun name => (hname name).prop (List.forall_mem_singleton.2 hspan)
  split
  · rename_i htoken
    simp only [gives_bind, gives_pure]
    refine h₁.ready.along.advance (by simp [htoken]) fun s₂ h₂ => ?_
    refine (hd.assignment _ s₂ h₂.ready.along).mono fun e s₃ h₃ => ?_
    have hvalue := h₃.laid.of_expr.1
    exact h₁.prop (by grind) hvalue.stop hvalue.le_hi rfl ((h₁.then h₂).then h₃)
  · exact objectMethod_gives hd _ _ h₁
  · rename_i name _ _ _
    simp only [gives_bind, gives_get, gives_require, gives_pure]
    exact fun _ => hshorthand name
  · rename_i name _ _ _
    simp only [gives_bind, gives_get, gives_require, gives_pure]
    exact fun _ => hshorthand name
  · rename_i name _ htoken _
    simp only [gives_bind, gives_get, gives_require, gives_pure]
    intro _
    refine (hname name).advance (by simp [htoken]) fun s₂ h₂ => ?_
    refine (hd.assignment _ s₂ h₂.ready.along).mono fun e s₃ h₃ => ?_
    have hvalue := h₃.laid.of_expr.1
    refine (h₂.then h₃).prop (List.forall_mem_singleton.2 ?_)
    refine ⟨hspan.start, hvalue.stop, hspan.lo_le, ?_, hvalue.le_hi⟩
    show s.current.start ≤ e.span.stop
    grind
  · simp only [gives_bind, gives_ite, gives_pure, gives_spanFrom]
    split
    · refine (hkeyed h₁.skip).mono fun key s₂ h₂ => ?_
      refine (getterRest_lays hd s₂ h₂.ready.along).mono fun body s₃ h₃ => ?_
      exact h₂.prop (by grind) h₃.took.ends.mark (Nat.le_refl _) rfl (h₂.then h₃)
    split
    · refine (hkeyed h₁.skip).mono fun key s₂ h₂ => ?_
      refine (setterRest_lays hd s₂ h₂.ready.along).mono fun f s₃ h₃ => ?_
      exact h₂.prop (by grind) h₃.took.ends.mark (Nat.le_refl _) rfl (h₂.then h₃)
    split
    · refine h₁.skip.optional (by simp) fun generator s₂ h₂ => ?_
      exact (hkeyed h₂).mono fun key s₃ h₃ => objectMethod_gives hd _ _ h₃
    · exact .fail

theorem objectItems_lays (n : Nat) :
    x.Lays (objectItems d ctx n) fun r => r.1.map .prop := by
  induction n with
  | zero => exact fun s hs => .fail
  | succ n ih =>
    intro s hs
    simp only [objectItems, gives_bind, gives_ite, gives_pure]
    refine hs.accept (by simp) (fun s₁ h₁ => h₁) ?_
    refine hs.read (objectProperty_lays hd) fun p s₁ h₁ => ?_
    refine h₁.accept (by simp) (fun s₂ h₂ => h₂) (h₁.expect (by simp) fun s₂ h₂ => ?_)
    exact h₂.accept (by simp) (fun s₃ h₃ => h₃) (h₂.read ih fun r s₃ h₃ => h₃)

theorem objectLiteral_lays :
    x.Lays (objectLiteral d ctx) fun e => [.expr e] := by
  intro s hs
  simp only [objectLiteral, gives_bind, gives_offset, gives_pure, gives_spanFrom]
  refine hs.expect (by simp) fun s₁ h₁ => ?_
  exact h₁.read (objectItems_lays hd _) fun r s₂ h₂ => h₂.expr rfl

omit hd in
/-- The first slash of a literal, and the equals sign that may be read with it. -/
theorem Stands.slash_stop {l : Lexeme} (h : x.Stands l) (hslash : l.token.isSlash = true) :
    l.stop ≤ l.start + 2 := by
  have hon := h.slash hslash
  unfold Token.afterSlash at hon
  split at hon
  · have hlen : byteLength ['='] = 1 := by decide
    have := (hon.append (a := ['='])).unique h.after
    omega
  · have := hon.unique h.after
    omega

omit hd in
/-- A literal goes on behind the slash that it starts with. -/
theorem regexLiteral_gives (hs : x.Ready s) (hslash : s.current.token.isSlash = true) :
    Gives s regexLiteral fun e s' => x.Past s [.expr e] s' := by
  simp only [regexLiteral, gives_bind, gives_lexeme]
  have hafter : s.current.token.afterSlash s.current.after =
      if (s.current.token == .divEquals) = true then '=' :: s.current.after else s.current.after := by
    unfold Token.afterSlash
    split <;> simp_all
  have hon := hs.current.slash hslash
  have hstop := hs.current.slash_stop hslash
  have heof : s.current.token ≠ .eof := by
    intro heof
    simp [heof, Token.isSlash] at hslash
  obtain ⟨hbegins, hlt⟩ := hs.current.begins heof
  rw [hafter] at hon
  split
  · rename_i rest hrest
    simp only [gives_bind, gives_spanFrom, gives_pure]
    have heats := readRegex_eats hrest
    obtain ⟨hgoes, hends⟩ := hon.eats heats
    refine resumeAt_gives hgoes fun s₁ hs₁ hlast => ?_
    have hfar : s.current.stop ≤ s₁.lastStop := by
      have := heats.byteLength_lt
      omega
    have htook : x.Took s s₁ := ⟨hs₁, hbegins, hlt, hfar, hlast ▸ hends⟩
    exact (hs.along.take htook).expr rfl
  · exact .fail

/-- The holes of a template lie behind the part before them. -/
theorem templateHoles_gives (tagged : Bool) (n : Nat) {pos : Nat} {t : Text}
    (ht : x.GoesOn pos t) :
    Gives s (templateHoles d ctx tagged n pos t) fun holes s' =>
      x.Ready s' ∧ x.Ends s'.lastStop ∧ x.Laid pos s'.lastStop (holes.map .expr) := by
  induction n generalizing s pos t with
  | zero => exact .fail
  | succ n ih =>
    simp only [templateHoles]
    split
    · exact .fail
    · rename_i part hpart
      simp only [gives_bind, gives_require, gives_ite, gives_lexeme, gives_pure]
      intro _
      obtain ⟨hgoes, hends⟩ := ht.eats (readTemplatePart_eats hpart)
      refine resumeAt_gives hgoes fun s₁ hs₁ hlast => ?_
      split
      · refine (expression_lays hd s₁ hs₁.along).mono fun e s₂ h₂ hclose => ?_
        refine (ih h₂.ready.current.after).mono fun holes s₃ h₃ => ?_
        obtain ⟨hs₃, hends₃, hholes⟩ := h₃
        exact ⟨hs₃, hends₃, (h₂.laid.mono (by grind) (Nat.le_refl _)).append hholes (by grind)⟩
      · exact ⟨hs₁, hlast ▸ hends, .nil (by grind)⟩

theorem templateRest_lays (tagged : Bool) :
    x.Lays (templateRest d ctx tagged) fun holes => holes.map .expr := by
  intro s hs
  simp only [templateRest, gives_bind, gives_lexeme, gives_require]
  intro hquote
  have htoken : s.current.token = .backquote := by simpa using hquote
  have hcurrent := hs.ready.current
  obtain ⟨hbegins, hlt⟩ := hcurrent.begins (by simp [htoken])
  refine (templateHoles_gives hd tagged _ hcurrent.after).mono fun holes s₁ h₁ => ?_
  obtain ⟨hs₁, hends, hholes⟩ := h₁
  have htook : x.Took s s₁ := ⟨hs₁, hbegins, hlt, hholes.le, hends⟩
  exact htook.past (hholes.mono (Nat.le_of_lt hlt) (Nat.le_refl _))

/-! ## Primary expressions -/

theorem parenItems_lays (n : Nat) :
    x.Lays (parenItems d ctx n) fun r => r.1.map .expr := by
  induction n with
  | zero => exact fun s hs => .fail
  | succ n ih =>
    intro s hs
    simp only [parenItems, gives_bind, gives_ite, gives_pure]
    refine hs.accept (by simp) (fun s₁ h₁ => h₁) ?_
    refine hs.read (spreadable_lays hd) fun e s₁ h₁ => ?_
    refine h₁.accept (by simp) (fun s₂ h₂ => h₂) (h₁.expect (by simp) fun s₂ h₂ => ?_)
    exact h₂.accept (by simp) (fun s₃ h₃ => h₃) (h₂.read ih fun r s₃ h₃ => h₃)

omit hd in
/-- What a parenthesis stands for lies between its ends. -/
theorem parenthesized_gives {items : List Expr} (h : x.Past s₀ (items.map .expr) s) :
    Gives s (parenthesized s₀.current.start items) fun e s' => x.Past s₀ [.expr e] s' := by
  simp only [parenthesized, gives_bind, gives_require]
  intro _
  split
  · exact .fail
  · simp only [gives_bind, gives_spanFrom, gives_pure]
    exact h.expr rfl
  · rename_i first rest _ _
    simp only [gives_bind, gives_spanFrom, gives_pure]
    obtain ⟨hspans, hrow⟩ := h.laid.to_last
    have hsequence : x.Laid _ _ [.expr (.sequence ⟨first.span.start, _⟩ (first :: rest))] :=
      hrow.extend hspans.stop rfl rfl
    exact (h.took.past (hsequence.mono (Nat.le_refl _) hspans.le_hi)).expr rfl

/-- A parenthesis, with the word `async` before it or not. -/
theorem parenOrArrow_gives (async : Option Ident)
    (h : x.Along s₀ (async.toList.map fun id => .expr (.ident id)) s) :
    Gives s (parenOrArrow d ctx s₀.current.start async) fun e s' => x.Past s₀ [.expr e] s' := by
  simp only [parenOrArrow, gives_bind, gives_offset, gives_sees, gives_newlineBefore, gives_require,
    gives_ite]
  -- The items stand behind the parenthesis, and the parenthesis behind the word.
  have hitems : Gives s (expect .parenOpen) fun _ s₁ => Gives s₁ (parenItems d ctx d.budget)
      fun r s₂ => x.Past s (r.1.map .expr) s₂ :=
    h.ready.along.expect (by simp) fun s₁ h₁ => h₁.read (parenItems_lays hd _) fun r s₂ h₂ => h₂
  refine hitems.mono fun _ s₁ h₁ => h₁.mono fun r s₂ h₂ => ?_
  split
  · rename_i harrow
    intro _ _
    have hrow : x.Past s₀ (r.1.map .expr) s₂ :=
      (h.then h₂).took.past (h₂.laid.mono h.before.le (Nat.le_refl _))
    refine hrow.advance (by simp [beq_iff_eq.1 harrow]) fun s₃ h₃ => ?_
    split
    · exact .fail
    · rename_i params hparams
      simp only [gives_bind, gives_token]
      refine (arrowRest_gives hd _ (h₃.stays (arrowParameters?_stays _ hparams))).mono
        fun e s₄ h₄ => ?_
      split
      · exact .fail
      · exact gives_pure.2 h₄
  · split
    · simp only [gives_bind, gives_spanFrom, gives_pure]
      exact (h.then h₂).expr rfl
    · exact (parenthesized_gives h₂).mono fun e s₃ h₃ => h.then h₃

theorem nameOrArrow_lays : x.Lays (nameOrArrow d ctx) fun e => [.expr e] := by
  intro s hs
  simp only [nameOrArrow, gives_bind, gives_newlineBefore, gives_require, gives_token, gives_ite,
    gives_pure]
  -- The name is the first token.
  have hname : Gives s (identifierReference ctx) fun id s₁ =>
      x.Past s [.pat (.ident id)] s₁ ∧ id.span.start = s.current.start := by
    simp only [identifierReference, identifierName, gives_bind, gives_lexeme]
    split
    · rename_i htoken
      simp only [gives_bind, gives_get, gives_require, gives_pure]
      exact hs.advance (by simp [htoken]) fun s₁ h₁ _ => ⟨h₁.name hs.ready, rfl⟩
    · exact .fail
  refine hname.mono fun id s₁ hid => ?_
  obtain ⟨h₁, hstart⟩ := hid
  rw [hstart]
  split
  · exact h₁.exprIdent
  refine h₁.accept (by simp) (fun s₂ h₂ _ => arrowRest_gives hd _ h₂) ?_
  split
  · simp only [gives_bind, gives_get, gives_ite, gives_pure]
    split
    · refine h₁.skip.read (bindingIdentifier_lays ctx) fun param s₂ h₂ => ?_
      exact h₂.expect (by simp) fun s₃ h₃ => arrowRest_gives hd _ h₃
    · exact h₁.exprIdent
  · exact gives_pure.2 h₁.exprIdent

theorem primaryWord_gives {name : Text} {escaped : Bool} (hs : x.Along s [] s)
    (htoken : s.current.token = .word name escaped) :
    Gives s (primaryWord d ctx s.current name) fun e s' => x.Past s [.expr e] s' := by
  simp only [primaryWord, gives_bind, gives_ite, gives_pure]
  have heof : s.current.token ≠ .eof := by simp [htoken]
  split
  · exact hs.advance heof fun s₁ h₁ => h₁.leaf hs.ready rfl rfl
  split
  · exact hs.advance heof fun s₁ h₁ => h₁.leaf hs.ready rfl rfl
  split
  · exact functionExpression_gives hd false hs
  split
  · exact classExpression_lays hd s hs
  split
  · refine peek_gives fun next _ => ?_
    split
    · exact hs.advance heof fun s₁ h₁ => functionExpression_gives hd true h₁.toAlong
    split
    · refine hs.advance heof fun s₁ h₁ => ?_
      exact parenOrArrow_gives hd (some _) (h₁.name hs.ready).exprIdent.toAlong
    · exact nameOrArrow_lays hd s hs
  · exact nameOrArrow_lays hd s hs

theorem primary_lays : x.Lays (primary d ctx) fun e => [.expr e] := by
  intro s hs
  simp only [primary, gives_bind, gives_lexeme]
  have hliteral : s.current.token ≠ .eof → Gives s advance fun _ s₁ =>
      x.Past s [.expr (.literal s.current.span)] s₁ :=
    fun heof => hs.advance heof fun s₁ h₁ => h₁.leaf hs.ready rfl rfl
  split
  · rename_i htoken
    exact primaryWord_gives hd hs htoken
  · rename_i htoken
    simp only [gives_bind, gives_require, gives_pure]
    exact fun _ => hliteral (by simp [htoken])
  · rename_i htoken
    simp only [gives_bind, gives_require, gives_pure]
    exact fun _ => hliteral (by simp [htoken])
  · rename_i htoken
    simp only [gives_bind, gives_pure]
    exact hliteral (by simp [htoken])
  · rename_i htoken
    exact regexLiteral_gives hs.ready (by rw [htoken]; rfl)
  · rename_i htoken
    exact regexLiteral_gives hs.ready (by rw [htoken]; rfl)
  · exact arrayLiteral_lays hd s hs
  · exact objectLiteral_lays hd s hs
  · exact parenOrArrow_gives hd none hs
  · simp only [gives_bind, gives_spanFrom, gives_pure]
    exact hs.read (templateRest_lays hd _) fun holes s₁ h₁ => h₁.expr rfl
  · rename_i htoken
    simp only [gives_bind, gives_pure]
    refine hs.advance (by simp [htoken]) fun s₁ h₁ => ?_
    refine (identifierName_lays s₁ h₁.ready.along).mono fun id s₂ h₂ => ?_
    have hid := h₂.laid.of_name.1
    have hnil : x.Laid s.current.start id.span.stop [] := .nil (by grind)
    have hexpr := hnil.expr (e := .privateName ⟨_, _⟩) hs.ready.current.mark hid.stop rfl
    exact (h₁.then h₂).took.past (hexpr.mono (Nat.le_refl _) hid.le_hi)
  · exact .fail

/-! ## Member accesses and calls -/

theorem accessKey_lays : x.Lays (accessKey d ctx) fun key => [.key key] := by
  intro s hs
  simp only [accessKey, gives_bind, gives_offset, gives_ite, gives_pure, gives_spanFrom]
  refine hs.accept (by simp) (fun s₁ h₁ => h₁.read (expression_lays hd) fun e s₂ h₂ => ?_) ?_
  · exact h₂.expect (by simp) fun s₃ h₃ => h₃.free rfl
  refine hs.accept (by simp) (fun s₁ h₁ => ?_) ?_
  · exact h₁.read identifierName_lays fun id s₂ h₂ => h₂.skip.free rfl
  · exact hs.read identifierName_lays fun id s₁ h₁ => h₁.skip.free rfl

/-- One more link makes a longer expression, and none changes nothing. -/
theorem subscript_gives (noCall : Bool) {e : Expr} (h : x.Past s₀ [.expr e] s) :
    Gives s (subscript d ctx noCall e) fun o s' =>
      match o with
      | some longer => x.Past s₀ [.expr longer] s'
      | none => s' = s := by
  simp only [subscript, gives_bind, gives_token]
  split
  · rename_i htoken
    simp only [gives_bind, gives_ite, gives_sees, gives_spanFrom, gives_pure]
    refine peek_gives fun next hnext => ?_
    split
    · rename_i hdot
      have hquestion : Gives s advance fun _ s₁ => x.Past s₀ [.expr e] s₁ :=
        h.advance (by simp [htoken]) fun s₁ h₁ => h₁
      refine (hquestion.and hnext).mono fun _ s₁ h => ?_
      obtain ⟨h₁, hcurrent⟩ := h
      refine h₁.advance (by simp [hcurrent, beq_iff_eq.1 hdot]) fun s₂ h₂ => ?_
      split
      · exact h₂.read (arguments_lays hd) fun args s₃ h₃ => h₃.extend rfl rfl
      · exact h₂.read (accessKey_lays hd) fun key s₃ h₃ => h₃.extend rfl rfl
    · trivial
  · simp only [gives_bind, gives_spanFrom, gives_pure]
    refine h.read (accessKey_lays hd) fun key s₁ h₁ => ?_
    split <;> exact h₁.extend rfl rfl
  · rename_i htoken
    simp only [gives_bind, gives_sees, gives_require, gives_spanFrom, gives_pure]
    refine h.advance (by simp [htoken]) fun s₁ h₁ _ => h₁.read (accessKey_lays hd) fun key s₂ h₂ => ?_
    split <;> exact h₂.extend rfl rfl
  · simp only [gives_bind, gives_ite, gives_spanFrom, gives_pure]
    split
    · trivial
    · refine h.read (arguments_lays hd) fun args s₁ h₁ => ?_
      split <;> exact h₁.extend rfl rfl
  · simp only [gives_bind, gives_require, gives_spanFrom, gives_pure]
    exact fun _ => h.read (templateRest_lays hd _) fun holes s₁ h₁ => h₁.extend rfl rfl
  · exact gives_pure.2 rfl

theorem subscripts_gives (noCall : Bool) (n : Nat) {e : Expr}
    (h : x.Past s₀ [.expr e] s) :
    Gives s (subscripts d ctx noCall n e) fun e' s' => x.Past s₀ [.expr e'] s' := by
  induction n generalizing s e with
  | zero => exact .fail
  | succ n ih =>
    simp only [subscripts, gives_bind]
    refine (subscript_gives hd noCall h).mono fun o s₁ ho => ?_
    split
    · exact ih ho
    · cases ho
      exact gives_pure.2 h

/-- What follows the word `super`, which is part of the expression. -/
theorem superRest_gives (noCall : Bool) (h : x.Past s₀ [] s) :
    Gives s (superRest d ctx s₀.current.start noCall) fun e s' => x.Past s₀ [.expr e] s' := by
  simp only [superRest, gives_bind, gives_sees, gives_require, gives_ite, gives_spanFrom, gives_pure]
  split
  · exact fun _ => h.read (arguments_lays hd) fun args s₁ h₁ => h₁.expr rfl
  · intro _
    split
    · exact h.read (accessKey_lays hd) fun key s₁ h₁ => h₁.expr rfl
    · refine h.expect (by simp) fun s₁ h₁ _ => ?_
      exact h₁.read (accessKey_lays hd) fun key s₂ h₂ => h₂.expr rfl

/-- What follows the word `import`, which is part of the expression. -/
theorem importRest_gives (noCall : Bool) (h : x.Past s₀ [] s) :
    Gives s (importRest d ctx s₀.current.start noCall) fun e s' => x.Past s₀ [.expr e] s' := by
  simp only [importRest, gives_bind, gives_get, gives_require, gives_ite, gives_spanFrom, gives_pure]
  refine h.accept (by simp) (fun s₁ h₁ => ?_) fun _ => ?_
  · exact h₁.expectWord fun s₂ h₂ _ => h₂.expr rfl
  · refine h.expect (by simp) fun s₁ h₁ => h₁.read (hd.assignment _) fun e s₂ h₂ => ?_
    exact h₂.expect (by simp) fun s₃ h₃ => h₃.expr rfl

theorem memberOrNew_lays : x.Lays (memberOrNew d ctx) fun e => [.expr e] := by
  intro s hs
  simp only [memberOrNew, gives_bind, gives_offset, gives_sees, gives_require, gives_ite,
    gives_spanFrom, gives_pure]
  refine hs.acceptWord (fun s₁ h₁ => h₁.accept (by simp) (fun s₂ h₂ => ?_) ?_) ?_
  · exact h₂.expectWord fun s₃ h₃ _ => subscripts_gives hd _ _ (h₃.expr rfl)
  · refine h₁.read (hd.constructed _) fun e s₂ h₂ _ => ?_
    split
    · exact h₂
    split
    · exact h₂.read (arguments_lays hd) fun args s₃ h₃ => subscripts_gives hd _ _ (h₃.expr rfl)
    · exact h₂.expr rfl
  refine hs.acceptWord (fun s₁ h₁ => ?_) (hs.acceptWord (fun s₁ h₁ => ?_) ?_)
  · exact (superRest_gives hd _ h₁).mono fun e s₂ h₂ => subscripts_gives hd _ _ h₂
  · exact (importRest_gives hd _ h₁).mono fun e s₂ h₂ => subscripts_gives hd _ _ h₂
  refine hs.read (primary_lays hd) fun e s₁ h₁ => ?_
  split
  · exact h₁
  · exact subscripts_gives hd _ _ h₁

theorem leftHandSide_lays : x.Lays (leftHandSide d ctx) fun e => [.expr e] := by
  intro s hs
  simp only [leftHandSide, gives_bind, gives_offset, gives_ite, gives_pure]
  refine hs.acceptWord (fun s₁ h₁ => ?_) (hs.acceptWord (fun s₁ h₁ => ?_) ?_)
  · exact (superRest_gives hd _ h₁).mono fun e s₂ h₂ => subscripts_gives hd _ _ h₂
  · exact (importRest_gives hd _ h₁).mono fun e s₂ h₂ => subscripts_gives hd _ _ h₂
  refine hs.read (memberOrNew_lays hd) fun e s₁ h₁ => ?_
  split
  · exact h₁
  · exact subscripts_gives hd _ _ h₁

/-! ## Operators -/

theorem awaitExpression_lays :
    x.Lays (awaitExpression d ctx) fun e => [.expr e] := by
  intro s hs
  simp only [awaitExpression, gives_bind, gives_lexeme, gives_token]
  refine hs.expectWord fun s₁ h₁ => ?_
  split
  · exact .fail
  · simp only [gives_bind, gives_get, gives_require, gives_ite, gives_spanFrom, gives_pure]
    split
    · exact fun _ => (h₁.name hs.ready).exprIdent
    · exact fun _ _ => h₁.read (hd.unary ctx) fun e s₂ h₂ => h₂.expr rfl

theorem unaryExpression_lays :
    x.Lays (unaryExpression d ctx) fun e => [.expr e] := by
  intro s hs
  simp only [unaryExpression, gives_bind, gives_lexeme]
  -- The operand lies behind its operator.
  have hoperand : s.current.token ≠ .eof → Gives s advance fun _ s₁ =>
      Gives s₁ (d.unary ctx) fun e s₂ => x.Past s [.expr e] s₂ := fun heof =>
    hs.advance heof fun s₁ h₁ => h₁.read (hd.unary ctx) fun e s₂ h₂ => h₂
  split
  · rename_i htoken
    simp only [gives_bind, gives_require, gives_spanFrom, gives_pure]
    exact (hoperand (by simp [htoken])).mono fun _ s₁ h₁ => h₁.mono fun e s₂ h₂ _ => h₂.expr rfl
  · rename_i htoken
    simp only [gives_bind, gives_require, gives_spanFrom, gives_pure]
    exact (hoperand (by simp [htoken])).mono fun _ s₁ h₁ => h₁.mono fun e s₂ h₂ _ => h₂.expr rfl
  · rename_i op hop _ _
    have heof : s.current.token ≠ .eof := by
      intro heof
      simp [heof, unaryOperator?, isWord] at hop
    simp only [gives_bind]
    refine (hoperand heof).mono fun _ s₁ h₁ => h₁.mono fun e s₂ h₂ => ?_
    split
    · simp only [gives_bind, gives_require, gives_spanFrom, gives_pure]
      exact fun _ => h₂.expr rfl
    · simp only [gives_bind, gives_spanFrom, gives_pure]
      exact h₂.expr rfl
  · simp only [gives_bind, gives_newlineBefore, gives_token, gives_ite]
    split
    · exact awaitExpression_lays hd s hs
    refine hs.read (leftHandSide_lays hd) fun e s₁ h₁ => ?_
    -- An operator behind its operand.
    have hupdate : s₁.current.token ≠ .eof → Gives s₁
        (do
          require (isSimpleTarget ctx e)
          advance
          return .update (← spanFrom s.current.start) e)
        fun e s' => x.Past s [.expr e] s' := by
      intro heof
      simp only [gives_bind, gives_require, gives_spanFrom, gives_pure]
      exact fun _ => h₁.advance heof fun s₂ h₂ => h₂.expr rfl
    split
    · exact hupdate (by simp [*])
    · exact hupdate (by simp [*])
    · exact gives_pure.2 h₁

/-- The operators behind an operand make a longer expression. -/
theorem binaryTail_gives (n least : Nat) {left : Expr}
    (h : x.Past s₀ [.expr left] s) :
    Gives s (binaryTail d ctx n least left) fun e s' => x.Past s₀ [.expr e] s' := by
  induction n generalizing s s₀ least left with
  | zero => exact .fail
  | succ n ih =>
    simp only [binaryTail, gives_bind, gives_token]
    split
    · exact gives_pure.2 h
    · rename_i op hop
      have heof : s.current.token ≠ .eof := by
        intro heof
        simp [heof, binaryOperator?, isWord] at hop
      simp only [gives_bind, gives_ite, gives_require, gives_pure]
      split
      · exact h
      · intro _
        refine h.advance heof fun s₁ h₁ => ?_
        refine (hd.unary _ s₁ h₁.ready.along).mono fun operand s₂ h₂ => ?_
        refine (ih _ h₂).mono fun right s₃ h₃ _ => ?_
        obtain ⟨hspans, htight⟩ := h₃.laid.of_expr
        have hrow : x.Laid s₀.current.start right.span.stop [.expr left, .expr right] :=
          h₁.laid.append htight (by grind)
        have hbinary : x.Laid _ _ [.expr (.binary ⟨left.span.start, right.span.stop⟩ op left right)] :=
          hrow.extend hspans.stop rfl rfl
        exact ih _ ((h₁.then h₃).took.past (hbinary.mono (Nat.le_refl _) hspans.le_hi))

theorem binaryExpression_lays :
    x.Lays (binaryExpression d ctx) fun e => [.expr e] := by
  intro s hs
  simp only [binaryExpression, gives_bind, gives_ite, gives_pure]
  refine hs.read (unaryExpression_lays hd) fun left s₁ h₁ => ?_
  split
  · exact h₁
  · exact binaryTail_gives hd _ _ h₁

/-! ## Conditionals and assignments -/

theorem conditional_lays : x.Lays (conditional d ctx) fun e => [.expr e] := by
  intro s hs
  simp only [conditional, gives_bind, gives_ite, gives_spanFrom, gives_pure]
  refine hs.read (binaryExpression_lays hd) fun test s₁ h₁ => ?_
  split
  · exact h₁
  refine h₁.accept (by simp) (fun s₂ h₂ => h₂.read (hd.assignment _) fun yes s₃ h₃ => ?_) h₁
  refine h₃.expect (by simp) fun s₄ h₄ => h₄.read (hd.assignment _) fun no s₅ h₅ => ?_
  exact h₅.extend rfl rfl

theorem yieldExpression_lays :
    x.Lays (yieldExpression d ctx) fun e => [.expr e] := by
  intro s hs
  simp only [yieldExpression, gives_bind, gives_offset, gives_sees, gives_token, gives_require,
    gives_ite, gives_spanFrom, gives_pure]
  refine hs.expectWord fun s₁ h₁ _ => seesEnd_gives fun ends => ?_
  split
  · exact h₁.expr rfl
  · refine h₁.optional (by simp) fun _ s₂ h₂ => ?_
    exact h₂.read (hd.assignment _) fun e s₃ h₃ => h₃.expr rfl

theorem assignmentRest_gives {e : Expr} (h : x.Past s₀ [.expr e] s) :
    Gives s (assignmentRest d ctx e) fun e' s' => x.Past s₀ [.expr e'] s' := by
  simp only [assignmentRest, gives_bind, gives_token]
  -- An operator that updates its target.
  have hupdate : s.current.token ≠ .eof → Gives s
      (do
        require (isSimpleTarget ctx e)
        advance
        let value ← d.assignment ctx
        return .assignUpdate (← spanFrom e.span.start) e value)
      fun e' s' => x.Past s₀ [.expr e'] s' := by
    intro heof
    simp only [gives_bind, gives_require, gives_spanFrom, gives_pure]
    intro _
    exact h.advance heof fun s₁ h₁ => h₁.read (hd.assignment _) fun value s₂ h₂ => h₂.extend rfl rfl
  split
  · rename_i htoken
    split
    · exact .fail
    · rename_i target htarget
      simp only [gives_bind, gives_spanFrom, gives_pure]
      refine h.advance (by simp [htoken]) fun s₁ h₁ => ?_
      refine (hd.assignment _ s₁ h₁.ready.along).mono fun value s₂ h₂ => ?_
      -- The pattern lies in the span of the expression that it was taken from.
      obtain ⟨hspans, htight⟩ := h₁.laid.of_expr
      have hrow : x.Laid e.span.start s₂.lastStop [.pat target, .expr value] :=
        (assignmentTarget?_stays htarget _ _ htight).append h₂.laid (by grind)
      have hassign : x.Laid _ _ [.expr (.assign ⟨e.span.start, s₂.lastStop⟩ target value)] :=
        hrow.expr hspans.start h₂.took.ends.mark rfl
      exact (h₁.then h₂).took.past (hassign.mono hspans.lo_le (Nat.le_refl _))
  · exact hupdate (by simp [*])
  · exact hupdate (by simp [*])
  · exact gives_pure.2 h

theorem assignment_lays : x.Lays (assignment d ctx) fun e => [.expr e] := by
  intro s hs
  simp only [assignment, gives_bind, gives_lexeme, gives_seesWord, gives_ite]
  split
  · exact yieldExpression_lays hd s hs
  refine hs.read (conditional_lays hd) fun e s₁ h₁ => ?_
  split
  case h_7 => exact assignmentRest_gives hd h₁
  all_goals exact gives_pure.2 h₁

end Excerpt

end TemplateCompiler.Script
