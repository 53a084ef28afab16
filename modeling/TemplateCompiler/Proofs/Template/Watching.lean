import TemplateCompiler.Proofs.Template.Invariants

/-!
# Watching the reader

The readers of a template return where they end only if they succeed. Here the same steps are taken
by readers that are watched: they end at a cursor also if they fail, and they keep a record of their
calls, with the offsets at which each starts and ends, and of the rounds in which children are read.
Without the record, a watched reader is the reader.

## What this module delivers

* `Watch`: an outcome, the cursor that was reached, and the record.
* `watchAttributes`, `watchPiece`, `watchChildren`, `watchTemplate`: the watched readers.
* `watchChildren_result`, `watchTemplate_outcome`: without the record they are the readers.
-/

set_option autoImplicit false

namespace TemplateCompiler

open Script Text

/-! ## Records -/

/-- The readers whose calls are recorded. -/
inductive ReaderKind where
  | children | element | ifBlock | eachBlock | attributeList | attributeValue
deriving DecidableEq, Repr

/-- A call of a reader, with the offsets at which it started and ended. -/
structure ReaderCall where
  kind : ReaderKind
  entry : Nat
  exit : Nat
deriving DecidableEq, Repr

/-- What is seen of a reader: its outcome, the cursor where it ended, its calls in the order in
which they ended, and the offsets of the rounds in which children were read, in order. -/
structure Watch (α : Type) where
  outcome : Except TemplateError α
  cursor : Cursor
  calls : List ReaderCall
  rounds : List Nat

namespace Watch

variable {α β : Type}

/-- A step that reads nothing. -/
def lift (x : Except TemplateError α) (c : Cursor) : Watch α := ⟨x, c, [], []⟩

/-- A reader without calls of its own. If it fails, it ends at `failed`. -/
def ofRead (x : Except TemplateError (α × Cursor)) (failed : Cursor) : Watch α :=
  match x with
  | .ok (a, after) => .lift (.ok a) after
  | .error e => .lift (.error e) failed

/-- One reader behind the other, which goes on where the first one ended. -/
def bind (w : Watch α) (f : α → Cursor → Watch β) : Watch β :=
  match w.outcome with
  | .error e => ⟨.error e, w.cursor, w.calls, w.rounds⟩
  | .ok a =>
    let next := f a w.cursor
    ⟨next.outcome, next.cursor, w.calls ++ next.calls, w.rounds ++ next.rounds⟩

/-- The outcome changed by a function. -/
def map (f : α → β) (w : Watch α) : Watch β := w.bind fun a c => .lift (.ok (f a)) c

/-- Records a call that started at an offset. -/
def call (kind : ReaderKind) (entry : Nat) (w : Watch α) : Watch α :=
  { w with calls := w.calls ++ [⟨kind, entry, w.cursor.pos⟩] }

/-- Records a call if there is one. -/
def callIf (b : Bool) (kind : ReaderKind) (entry : Nat) (w : Watch α) : Watch α :=
  if b then w.call kind entry else w

/-- Records a round at an offset, before everything in it. -/
def round (entry : Nat) (w : Watch α) : Watch α := { w with rounds := entry :: w.rounds }

theorem bind_of_error {w : Watch α} {e : TemplateError} (f : α → Cursor → Watch β)
    (h : w.outcome = .error e) : w.bind f = ⟨.error e, w.cursor, w.calls, w.rounds⟩ := by
  rw [bind, h]

theorem bind_of_ok {w : Watch α} {a : α} (f : α → Cursor → Watch β) (h : w.outcome = .ok a) :
    w.bind f = ⟨(f a w.cursor).outcome, (f a w.cursor).cursor, w.calls ++ (f a w.cursor).calls,
      w.rounds ++ (f a w.cursor).rounds⟩ := by
  rw [bind, h]

/-- Two readers succeed only if both do. -/
theorem ok_of_bind {w : Watch α} {f : α → Cursor → Watch β} {b : β}
    (h : (w.bind f).outcome = .ok b) :
    ∃ a, w.outcome = .ok a ∧ (f a w.cursor).outcome = .ok b := by
  cases ha : w.outcome with
  | error e =>
    rw [bind_of_error f ha] at h
    cases h
  | ok a =>
    rw [bind_of_ok f ha] at h
    exact ⟨a, rfl, h⟩

@[simp] theorem map_cursor (f : α → β) (w : Watch α) : (w.map f).cursor = w.cursor := by
  obtain ⟨outcome, cursor, calls, rounds⟩ := w
  cases outcome <;> rfl

theorem callIf_outcome (b : Bool) (kind : ReaderKind) (entry : Nat) (w : Watch α) :
    (w.callIf b kind entry).outcome = w.outcome := by
  cases b <;> rfl

/-- What a reader that is not watched returns. -/
def result (w : Watch α) : Except TemplateError (α × Cursor) := do
  let a ← w.outcome
  return (a, w.cursor)

theorem result_lift (x : Except TemplateError α) (c : Cursor) :
    (lift x c).result = do return (← x, c) := rfl

theorem result_ofRead (x : Except TemplateError (α × Cursor)) (failed : Cursor) :
    (ofRead x failed).result = x := by
  cases x <;> rfl

theorem result_bind (w : Watch α) (f : α → Cursor → Watch β) :
    (w.bind f).result = w.result >>= fun p => (f p.1 p.2).result := by
  obtain ⟨outcome, cursor, calls, rounds⟩ := w
  cases outcome <;> rfl

theorem result_map (f : α → β) (w : Watch α) :
    (w.map f).result = w.result >>= fun p => .ok (f p.1, p.2) :=
  result_bind w _

theorem result_call (kind : ReaderKind) (entry : Nat) (w : Watch α) :
    (w.call kind entry).result = w.result := rfl

theorem result_callIf (b : Bool) (kind : ReaderKind) (entry : Nat) (w : Watch α) :
    (w.callIf b kind entry).result = w.result := by
  cases b <;> rfl

theorem result_round (entry : Nat) (w : Watch α) : (w.round entry).result = w.result := rfl

/-- The outcome of a watched reader, from what it returns. -/
theorem outcome_eq {w : Watch α} {x : Except TemplateError (α × Cursor)} (h : w.result = x) :
    w.outcome = do return (← x).1 := by
  obtain ⟨outcome, cursor, calls, rounds⟩ := w
  subst h
  cases outcome <;> rfl

theorem result_eq_ok_iff {w : Watch α} {a : α} {c : Cursor} :
    w.result = .ok (a, c) ↔ w.outcome = .ok a ∧ w.cursor = c := by
  obtain ⟨outcome, cursor, calls, rounds⟩ := w
  cases outcome with
  | error e => exact ⟨nofun, nofun⟩
  | ok b =>
    constructor
    · intro h
      cases h
      exact ⟨rfl, rfl⟩
    · rintro ⟨h, rfl⟩
      cases h
      rfl

end Watch

/-! ## Attributes -/

/-- The parts of a value, watched. -/
def watchParts (g : Grammar) (quote : Option Char) (start : Nat) :
    Nat → Cursor → Watch (List AttributePart)
  | 0, c => .lift (.ok []) c
  | n + 1, c =>
    match c.rest with
    | [] =>
      .lift (if quote.isSome then faultAt .unclosedAttributeValue start c.pos else .ok []) c
    | x :: t =>
      if endsValue quote c.rest then .lift (.ok []) c
      else if startsWith c.rest "\x7b\x7b".toList then
        (Watch.ofRead (takeMustache c) c).bind fun content after =>
          (Watch.lift (expressionAt g content) after).bind fun e after =>
            (watchParts g quote start n after).map (.expr e :: ·)
      else (watchParts g quote start n ⟨c.pos + x.utf8Size, t⟩).map (consPart x)

/-- A quoted or bare value, watched. -/
def watchValue (g : Grammar) (c : Cursor) : Watch (List AttributePart) :=
  match c.rest with
  | q :: t =>
    if q = '"' || q = '\'' then
      (watchParts g (some q) c.pos (t.length + 1) ⟨c.pos + 1, t⟩).bind fun parts stop =>
        .lift (.ok parts) ⟨stop.pos + 1, stop.rest.drop 1⟩
    else watchParts g none c.pos (c.rest.length + 1) c
  | [] => .lift (.ok []) c

/-- The value behind the name of an attribute, watched. -/
def watchRest (g : Grammar) (c : Cursor) : Watch (Option (List AttributePart)) :=
  let c := c.skipBlanks
  match c.rest with
  | '=' :: t =>
    let start := Cursor.skipBlanks ⟨c.pos + 1, t⟩
    ((watchValue g start).call .attributeValue start.pos).map some
  | _ => .lift (.ok none) c

/-- The attributes of a tag, watched. -/
def watchAttributes (g : Grammar) : Nat → Cursor → Watch (List Attribute)
  | 0, c => .lift (.ok []) c
  | n + 1, c =>
    let c := c.skipBlanks
    if endsTag c.rest then .lift (.ok []) c
    else
      let (name, afterName) := c.span isAttributeNameChar
      if name.isEmpty then .lift (faultAt .malformedTag c.pos (c.pos + 1)) c
      else
        (watchRest g afterName).bind fun value after =>
          (watchAttributes g n after).map (⟨name, value, ⟨c.pos, after.pos⟩⟩ :: ·)

/-- The end of an opening tag, behind its attributes. -/
def endTag (start : Nat) (name : Text) (attrs : List Attribute) (stop : Cursor) :
    Except TemplateError OpeningTag :=
  match stop.rest with
  | '/' :: '>' :: t => .ok ⟨name, attrs, true, ⟨stop.pos + 2, t⟩⟩
  | '>' :: t => .ok ⟨name, attrs, false, ⟨stop.pos + 1, t⟩⟩
  | _ => faultAt .malformedTag start stop.pos

/-- The opening tag at a cursor, watched. -/
def watchOpeningTag (g : Grammar) (c : Cursor) : Watch OpeningTag :=
  let (name, afterName) := Cursor.span ⟨c.pos + 1, c.rest.drop 1⟩ isTagNameChar
  if name.isEmpty then .lift (faultAt .malformedTag c.pos afterName.pos) afterName
  else
    let tagAttributes := watchAttributes g (afterName.rest.length + 1) afterName
    (tagAttributes.call .attributeList afterName.pos).bind fun attrs stop =>
      .ofRead (do let tag ← endTag c.pos name attrs stop; return (tag, tag.after)) stop

/-! ## Nodes -/

/-- Whether an element starts at the start of a text. -/
def opensElement : Text → Bool
  | '<' :: x :: _ => isAsciiLetter x
  | _ => false

/-- The cursor where a piece ends that is no opening tag and cannot be read: behind a mustache with
a content that is none, behind what was read of a closing tag, or where the piece starts. -/
def failedPiece (c : Cursor) : Cursor :=
  match c.rest with
  | '\x7b' :: '\x7b' :: _ =>
    match takeMustache c with
    | .ok (_, after) => after
    | .error _ => c
  | '<' :: '/' :: _ => (Cursor.span ⟨c.pos + 2, c.rest.drop 2⟩ isTagNameChar).2.skipBlanks
  | _ => c

/-- The next piece of the source, watched. -/
def watchPiece (g : Grammar) (c : Cursor) : Watch Piece :=
  if opensElement c.rest then (watchOpeningTag g c).map .opens
  else .ofRead (nextPiece g c) (failedPiece c)

/-- A script or style, watched. If it is refused, it has been read. -/
def watchRaw (g : Grammar) (name : Text) (start : Nat) (selfClosing : Bool) (found : Found)
    (c : Cursor) : Watch Found :=
  .ofRead (rawBlock g name start selfClosing found c)
    (match rawContent name start selfClosing c with
    | .ok (_, after) => after
    | .error _ => c)

/-- What a round of reading children finds: what stops it, or a node, unless it is a script or
style, and the script and style found so far. -/
inductive RoundResult where
  | stop (s : Stop)
  | node (node : Option Node) (found : Found)

/-- The node that a piece starts, watched. The readers of children and of conditional blocks are
given. -/
def watchNode (g : Grammar) (readChildren : Nat → Found → Cursor → Watch Children)
    (readIf : Nat → Expr → Nat → Found → Cursor → Watch (Node × Found)) (depth : Nat)
    (found : Found) (start : Nat) (piece : Piece) (c : Cursor) : Watch RoundResult :=
  match piece with
  | .stop s => .lift (.ok (.stop s)) c
  | .text data => .lift (.ok (.node (some (.text data ⟨start, c.pos⟩)) found)) c
  | .tag e => .lift (.ok (.node (some (.mustache e ⟨start, c.pos⟩)) found)) c
  | .opensIf test =>
    ((readIf depth test start found c).call .ifBlock c.pos).map fun p => .node (some p.1) p.2
  | .opensEach iterable item index =>
    (((readChildren (depth + 1) found c).call .children c.pos).bind fun body after =>
      (Watch.lift (expectClose "each".toList start body) after).map fun _ =>
        .node (some (.eachBlock iterable item index body.nodes ⟨start, after.pos⟩)) body.found).call
      .eachBlock c.pos
  | .opens tag =>
    if isRawElement tag.name then
      if depth = 0 then (watchRaw g tag.name start tag.selfClosing found c).map (.node none)
      else .lift (faultAt (.nestedRawElement tag.name) start c.pos) c
    else if tag.selfClosing || isVoidElement tag.name then
      .lift (.ok (.node (some (.element tag.name tag.attributes [] ⟨start, c.pos⟩)) found)) c
    else
      ((readChildren (depth + 1) found c).call .children c.pos).bind fun body after =>
        (Watch.lift (expectClosingTag tag.name start body) after).map fun _ =>
          .node (some (.element tag.name tag.attributes body.nodes ⟨start, after.pos⟩)) body.found

/-- One round of reading children, watched. What starts with an opening tag is a call of the reader
of elements, which reads the tag too. -/
def watchRound (g : Grammar) (readChildren : Nat → Found → Cursor → Watch Children)
    (readIf : Nat → Expr → Nat → Found → Cursor → Watch (Node × Found)) (depth : Nat)
    (found : Found) (c : Cursor) : Watch RoundResult :=
  ((watchPiece g c).bind fun piece after =>
    watchNode g readChildren readIf depth found c.pos piece after).callIf
    (opensElement c.rest) .element c.pos

mutual

/-- The children at a cursor, watched. -/
def watchChildren (g : Grammar) : Nat → Nat → Found → Cursor → Watch Children
  | 0, _, found, c => (Watch.lift (.ok ⟨[], .endOfSource, c.pos, found, c⟩) c).round c.pos
  | n + 1, depth, found, c =>
    ((watchRound g (watchChildren g n) (watchIf g n) depth found c).bind fun r after =>
      match r with
      | .stop s => .lift (.ok ⟨[], s, c.pos, found, after⟩) after
      | .node (some node) found => (watchChildren g n depth found after).map (Children.cons node)
      | .node none found => watchChildren g n depth found after).round c.pos

/-- A conditional block, watched. -/
def watchIf (g : Grammar) : Nat → Nat → Expr → Nat → Found → Cursor → Watch (Node × Found)
  | 0, _, test, start, found, c => .lift (.ok (.ifBlock test [] none ⟨start, c.pos⟩, found)) c
  | n + 1, depth, test, start, found, c =>
    ((watchChildren g n (depth + 1) found c).call .children c.pos).bind fun body after =>
      match body.stop with
      | .alternative =>
        ((watchChildren g n (depth + 1) body.found after).call .children after.pos).bind
          fun other after =>
            (Watch.lift (expectClose "if".toList start other) after).map fun _ =>
              (.ifBlock test body.nodes (some other.nodes) ⟨start, after.pos⟩, other.found)
      | .alternativeIf test' =>
        ((watchIf g n depth test' body.stopStart body.found after).call .ifBlock after.pos).bind
          fun nested after =>
            .lift (.ok (.ifBlock test body.nodes (some [nested.1]) ⟨start, after.pos⟩, nested.2))
              after
      | _ =>
        (Watch.lift (expectClose "if".toList start body) after).map fun _ =>
          (.ifBlock test body.nodes none ⟨start, after.pos⟩, body.found)

end

/-- A whole template, watched. -/
def watchTemplate (g : Grammar) (source : Text) : Watch Template :=
  ((watchChildren g (source.length + 2) 0 ⟨none, none⟩ ⟨0, source⟩).call .children 0).bind
    fun top after =>
      .lift (match top.stop.fault? with
        | some fault => faultAt fault top.stopStart after.pos
        | none => .ok ⟨top.nodes, top.found.script, top.found.style⟩) after

/-! ## Without the record -/

section Results

open Watch

variable {g : Grammar}

theorem watchParts_result (quote : Option Char) (start n : Nat) (c : Cursor) :
    (watchParts g quote start n c).result = attributeParts g quote start n c := by
  induction n generalizing c with
  | zero => rfl
  | succ n ih =>
    obtain ⟨pos, rest⟩ := c
    cases rest with
    | nil => cases quote <;> rfl
    | cons x t =>
      rw [watchParts, attributeParts]
      dsimp only
      split
      · rfl
      split
      · rw [result_bind, result_ofRead]
        refine congrArg (takeMustache ⟨pos, x :: t⟩ >>= ·) (funext fun p => ?_)
        rw [result_bind, result_lift]
        cases expressionAt g p.1 with
        | error e => rfl
        | ok e =>
          show (map _ _).result = _
          rw [result_map, ih]
          rfl
      · rw [result_map, ih]
        rfl

theorem watchValue_result (c : Cursor) : (watchValue g c).result = attributeValue g c := by
  obtain ⟨pos, rest⟩ := c
  cases rest with
  | nil => rfl
  | cons q t =>
    rw [watchValue, attributeValue]
    dsimp only
    split
    · rw [result_bind, watchParts_result]
      rfl
    · exact watchParts_result ..

theorem attributeRest_equals {c : Cursor} {t : Text} (h : c.skipBlanks.rest = '=' :: t) :
    attributeRest g c = do
      let p ← attributeValue g (Cursor.skipBlanks ⟨c.skipBlanks.pos + 1, t⟩)
      return (some p.1, p.2) := by
  unfold attributeRest
  dsimp only
  rw [h]
  rfl

theorem attributeRest_bare {c : Cursor} (h : ∀ t, c.skipBlanks.rest = '=' :: t → False) :
    attributeRest g c = .ok (none, c.skipBlanks) := by
  unfold attributeRest
  dsimp only
  split
  · rename_i t hequals
    exact absurd hequals (h t)
  · rfl

theorem watchRest_result (c : Cursor) : (watchRest g c).result = attributeRest g c := by
  unfold watchRest
  dsimp only
  split
  · rename_i t hequals
    rw [result_map, result_call, watchValue_result, attributeRest_equals hequals]
    rfl
  · rename_i hequals
    rw [attributeRest_bare hequals]
    rfl

theorem watchAttributes_result (n : Nat) (c : Cursor) :
    (watchAttributes g n c).result = attributes g n c := by
  induction n generalizing c with
  | zero => rfl
  | succ n ih =>
    unfold watchAttributes attributes
    dsimp only
    split
    · rfl
    · split
      · rfl
      · rw [result_bind, watchRest_result]
        refine congrArg (attributeRest g _ >>= ·) (funext fun p => ?_)
        rw [result_map, ih]
        rfl

theorem watchOpeningTag_result (c : Cursor) :
    (watchOpeningTag g c).result = do
      let tag ← openingTag g c
      return (tag, tag.after) := by
  unfold watchOpeningTag openingTag
  dsimp only
  split
  · rfl
  · rw [result_bind, result_call, watchAttributes_result, bind_assoc]
    refine congrArg (attributes g _ _ >>= ·) (funext fun p => ?_)
    rw [result_ofRead]
    rfl

theorem watchPiece_result (c : Cursor) : (watchPiece g c).result = nextPiece g c := by
  unfold watchPiece
  split
  · rename_i hopens
    unfold opensElement at hopens
    split at hopens
    · rename_i x t hrest
      rw [result_map, watchOpeningTag_result, nextPiece_opening hrest hopens, bind_assoc]
      rfl
    · cases hopens
  · exact result_ofRead ..

/-- What a round goes on with, as the reader does it. -/
def continueRound (g : Grammar) (n depth : Nat) (found : Found) (start : Nat) :
    RoundResult → Cursor → Except TemplateError Children
  | .stop s, after => .ok ⟨[], s, start, found, after⟩
  | .node (some node) found, after => do
    let rest ← children g n depth found after
    return rest.cons node
  | .node none found, after => children g n depth found after

/-- A reader of children or of a conditional block and the watched one return the same. -/
structure SameReaders (g : Grammar) (n : Nat)
    (readChildren : Nat → Found → Cursor → Watch Children)
    (readIf : Nat → Expr → Nat → Found → Cursor → Watch (Node × Found)) : Prop where
  childrenSame : ∀ depth found c, (readChildren depth found c).result = do
    let r ← children g n depth found c
    return (r, r.after)
  ifSame : ∀ depth test start found c, (readIf depth test start found c).result = do
    let r ← ifBlock g n depth test start found c
    return ((r.1, r.2.1), r.2.2)

/-- A round and what follows it make the reader of children. -/
theorem watchRound_result {n : Nat} {readChildren : Nat → Found → Cursor → Watch Children}
    {readIf : Nat → Expr → Nat → Found → Cursor → Watch (Node × Found)}
    (hsame : SameReaders g n readChildren readIf) (depth : Nat) (found : Found) (c : Cursor) :
    ((watchRound g readChildren readIf depth found c).result >>= fun p =>
      continueRound g n depth found c.pos p.1 p.2) = children g (n + 1) depth found c := by
  unfold watchRound children
  rw [result_callIf, result_bind, watchPiece_result, bind_assoc]
  refine congrArg (nextPiece g c >>= ·) (funext fun p => ?_)
  obtain ⟨piece, after⟩ := p
  unfold watchNode
  cases piece with
  | stop s | text data | tag e => rfl
  | opensIf test =>
    dsimp only
    rw [result_map, result_call, hsame.ifSame]
    simp only [bind_assoc]
    rfl
  | opensEach iterable item index =>
    dsimp only
    rw [result_call, result_bind, result_call, hsame.childrenSame]
    simp only [bind_assoc]
    refine congrArg (children g n (depth + 1) found after >>= ·) (funext fun body => ?_)
    show (Watch.map _ (lift _ _)).result >>= _ = _
    generalize expectClose "each".toList c.pos body = closed
    cases closed <;> rfl
  | opens tag =>
    dsimp only
    split
    · split
      · rw [result_map, watchRaw, result_ofRead]
        simp only [bind_assoc]
        rfl
      · rfl
    · split
      · rfl
      · rw [result_bind, result_call, hsame.childrenSame]
        simp only [bind_assoc]
        refine congrArg (children g n (depth + 1) found after >>= ·) (funext fun body => ?_)
        show (Watch.map _ (lift _ _)).result >>= _ = _
        generalize expectClosingTag tag.name c.pos body = closed
        cases closed <;> rfl

mutual

/-- Without the record, the watched reader of children is the reader. -/
theorem watchChildren_result : (n depth : Nat) → (found : Found) → (c : Cursor) →
    (watchChildren g n depth found c).result = do
      let r ← children g n depth found c
      return (r, r.after)
  | 0, _, _, _ => rfl
  | n + 1, depth, found, c => by
    have hsame : SameReaders g n (watchChildren g n) (watchIf g n) :=
      ⟨watchChildren_result n, watchIf_result n⟩
    rw [← watchRound_result hsame depth found c, watchChildren, result_round, result_bind,
      bind_assoc]
    refine congrArg (Watch.result _ >>= ·) (funext fun p => ?_)
    obtain ⟨r, after⟩ := p
    rcases r with s | ⟨node | node, found'⟩
    · rfl
    · exact watchChildren_result n depth found' after
    · show (Watch.map _ _).result = _
      rw [result_map, watchChildren_result n depth found' after, continueRound]
      simp only [bind_assoc]
      rfl

/-- Without the record, the watched reader of conditional blocks is the reader. -/
theorem watchIf_result : (n depth : Nat) → (test : Expr) → (start : Nat) → (found : Found) →
    (c : Cursor) → (watchIf g n depth test start found c).result = do
      let r ← ifBlock g n depth test start found c
      return ((r.1, r.2.1), r.2.2)
  | 0, _, _, _, _, _ => rfl
  | n + 1, depth, test, start, found, c => by
    rw [watchIf, ifBlock, result_bind, result_call, watchChildren_result n (depth + 1) found c]
    simp only [bind_assoc]
    refine congrArg (children g n (depth + 1) found c >>= ·) (funext fun body => ?_)
    cases hstop : body.stop with
    | alternative =>
      simp only [pure_bind, hstop]
      rw [result_bind, result_call, watchChildren_result n (depth + 1) body.found body.after]
      simp only [bind_assoc]
      refine congrArg (children g n (depth + 1) body.found body.after >>= ·)
        (funext fun other => ?_)
      show (Watch.map _ (lift _ _)).result = _
      generalize expectClose "if".toList start other = closed
      cases closed <;> rfl
    | alternativeIf test' =>
      simp only [pure_bind, hstop]
      rw [result_bind, result_call,
        watchIf_result n depth test' body.stopStart body.found body.after]
      simp only [bind_assoc]
      rfl
    | endOfSource | closingTag | closes =>
      simp only [pure_bind, hstop]
      generalize expectClose "if".toList start body = closed
      cases closed <;> rfl

end

/-- Without the record, the watched reader of templates is the reader. -/
theorem watchTemplate_outcome (g : Grammar) (source : Text) :
    (watchTemplate g source).outcome = readTemplate g source := by
  rw [watchTemplate, outcome_eq (result_bind _ _), result_call, watchChildren_result, readTemplate]
  simp only [bind_assoc]
  refine congrArg (children g _ 0 _ _ >>= ·) (funext fun r => ?_)
  simp only [pure_bind]
  cases r.stop.fault? <;> rfl

end Results

end TemplateCompiler
