import Mathlib.Data.List.Induction
import TemplateCompiler.Loader.Load
import TemplateCompiler.Proofs.Outcome

/-!
# The cache of compiled code

While files come, change and go, loaders of any extensions share one cache. A load compiles only where
the cache has nothing yet, and puts in only what it compiled. So an entry stays as it was put in, and
it is what every later load for its place hands over.

## What this module delivers

* `LoaderEvent`, `Session`: what may happen while loaders are in use, and what it happens to.
* `Loads`, `Loader.loads`: all that a load can do.
* `Session.step_keeps`, `Session.run_keeps`: entries are kept by one event, and by all.
* `CompiledDuring`: an entry together with the load that put it in.
* `cache_sound_and_monotone`: what is known of the cache after any events.
-/

set_option autoImplicit false

namespace TemplateCompiler

/-! ## Sessions -/

/-- What may happen while loaders for the files of a directory are in use. -/
inductive LoaderEvent where
  | write (name : Text) (bytes : List UInt8)
  | makeDirectory (name : Text)
  | delete (name : Text)
  /-- A load by a loader with some extension, for some host. -/
  | load (extension : Text) (host : Host) (name : Text)

/-- The files of a directory, and the code that has been compiled. -/
structure Session where
  tree : FileTree
  cache : CodeCache

namespace Session

/-- Loads a file by a loader with some extension. -/
def load (s : Session) (directory extension : Text) (host : Host) (name : Text) : LoadOutcome :=
  Loader.load ⟨extension, directory⟩ s.tree s.cache host name

/-- What an event makes of a session. A file that cannot be written leaves the files as they are. -/
def step (directory : Text) (s : Session) : LoaderEvent → Session
  | .write name bytes =>
    match s.tree.write (pathNames name) bytes with
    | .ok tree => { s with tree := tree }
    | .error _ => s
  | .makeDirectory name => { s with tree := s.tree.makeDirectory [] (pathNames name) }
  | .delete name => { s with tree := s.tree.delete (pathNames name) }
  | .load extension host name => { s with cache := (s.load directory extension host name).cache }

/-- What some events make of a session, one after the other. -/
def run (directory : Text) (s : Session) (events : List LoaderEvent) : Session :=
  events.foldl (step directory) s

/-- The place that a name leads to: where the code of the file is looked for. -/
def placeOf (s : Session) (name : Text) : Place := cacheKey (lookupNames s.tree name)

/-- The path of the file that a name leads to, as a host is told it. -/
def filenameOf (s : Session) (directory extension name : Text) : Text :=
  Loader.filename ⟨extension, directory⟩ (lookupNames s.tree name)

end Session

/-! ## The entries of a cache -/

namespace CodeCache

theorem find?_append (c c' : CodeCache) (place : Place) :
    find? place (c ++ c') = (c.find? place).or (find? place c') := by
  induction c with
  | nil => rfl
  | cons e rest ih =>
    obtain ⟨k, code⟩ := e
    rw [List.cons_append, find?, find?]
    split
    · rfl
    · exact ih

theorem find?_insert (c : CodeCache) (place : Place) (code : Text) (k : Place) :
    (c.insert place code).find? k = (c.find? k).or (if place = k then some code else none) := by
  rw [CodeCache.insert, find?_append]
  rfl

end CodeCache

/-! ## One load -/

/-- All that a load can do: refuse the extension, hand over what the cache has, fail to read or to
compile, or compile, keep the code and hand it over. -/
inductive Loads (l : Loader) (tree : FileTree) (cache : CodeCache) (host : Host) (name : Text) :
    LoadOutcome → Prop where
  | refused (hhandles : l.handles (l.pathOf name) = false) :
    Loads l tree cache host name
      ⟨.error (.unsupportedExtension (l.pathOf name) l.extension), cache, []⟩
  | served {code : Text} (hhandles : l.handles (l.pathOf name) = true)
      (hfound : cache.find? (cacheKey (lookupNames tree name)) = some code) :
    Loads l tree cache host name (l.handOver host (lookupNames tree name) code cache)
  | unread {fault : IoFault} (hhandles : l.handles (l.pathOf name) = true)
      (hfound : cache.find? (cacheKey (lookupNames tree name)) = none)
      (hread : tree.read (lookupNames tree name) = .error fault) :
    Loads l tree cache host name ⟨.error (.io (l.pathOf name) fault), cache, []⟩
  | uncompiled {source : Text} {cause : CompileError}
      (hhandles : l.handles (l.pathOf name) = true)
      (hfound : cache.find? (cacheKey (lookupNames tree name)) = none)
      (hread : tree.read (lookupNames tree name) = .ok source)
      (hcompile : compile source = .error cause) :
    Loads l tree cache host name
      ⟨.error (.compile (l.filename (lookupNames tree name)) cause), cache, []⟩
  | compiled {source : Text} {out : Composed} (hhandles : l.handles (l.pathOf name) = true)
      (hfound : cache.find? (cacheKey (lookupNames tree name)) = none)
      (hread : tree.read (lookupNames tree name) = .ok source)
      (hcompile : compile source = .ok out) :
    Loads l tree cache host name (l.handOver host (lookupNames tree name) out.code
      (cache.insert (cacheKey (lookupNames tree name)) out.code))

theorem Loader.loads (l : Loader) (tree : FileTree) (cache : CodeCache) (host : Host) (name : Text) :
    Loads l tree cache host name (l.load tree cache host name) := by
  unfold load
  cases hhandles : l.handles (l.pathOf name) with
  | false =>
    simp only [hhandles]
    exact .refused hhandles
  | true =>
    simp only [hhandles, if_true]
    cases hfound : cache.find? (cacheKey (lookupNames tree name)) with
    | some code => exact .served hhandles hfound
    | none =>
      unfold compileFile
      cases hread : tree.read (lookupNames tree name) with
      | error fault => exact .unread hhandles hfound hread
      | ok source =>
        simp only
        cases hcompile : TemplateCompiler.compile source with
        | error cause => exact .uncompiled hhandles hfound hread hcompile
        | ok out => exact .compiled hhandles hfound hread hcompile

section

variable {l : Loader} {tree : FileTree} {cache : CodeCache} {host : Host} {name : Text}
  {out : LoadOutcome}

/-- A load changes no entry. -/
theorem Loads.keeps (h : Loads l tree cache host name out) {place : Place} {code : Text}
    (hplace : cache.find? place = some code) : out.cache.find? place = some code := by
  cases h with
  | refused | served | unread | uncompiled => exact hplace
  | compiled =>
    change (cache.insert _ _).find? place = some code
    rw [CodeCache.find?_insert, hplace, Option.some_or]

/-- A load that the cache has an entry for hands it over, and answers it if the host accepts it. -/
theorem Loads.served_of_find? (h : Loads l tree cache host name out) {code : Text}
    (hhandles : l.handles (l.pathOf name) = true)
    (hplace : cache.find? (cacheKey (lookupNames tree name)) = some code) :
    out = l.handOver host (lookupNames tree name) code cache := by
  cases h with
  | refused hno =>
    rw [hhandles] at hno
    cases hno
  | served _ hfound =>
    rw [hplace] at hfound
    cases hfound
    rfl
  | unread _ hfound | uncompiled _ hfound | compiled _ hfound =>
    rw [hplace] at hfound
    cases hfound

/-- An entry that a load puts in is what the file compiles to. -/
theorem Loads.compiles (h : Loads l tree cache host name out) {place : Place} {code : Text}
    (hbefore : cache.find? place = none) (hafter : out.cache.find? place = some code) :
    l.handles (l.pathOf name) = true ∧ cacheKey (lookupNames tree name) = place ∧
      ∃ source composed, tree.read (lookupNames tree name) = .ok source ∧
        compile source = .ok composed ∧ code = composed.code := by
  cases h with
  | refused | served | unread | uncompiled =>
    change cache.find? place = some code at hafter
    rw [hbefore] at hafter
    cases hafter
  | @compiled source composed hhandles hfound hread hcompile =>
    change (cache.insert _ _).find? place = some code at hafter
    rw [CodeCache.find?_insert, hbefore, Option.none_or] at hafter
    split at hafter
    · rename_i hkey
      exact ⟨hhandles, hkey, source, composed, hread, hcompile, (Option.some.inj hafter).symm⟩
    · cases hafter

/-- What a failed load leaves behind: the cache as it was and a host that was not called, unless the
host itself failed, with code that is kept. -/
def FailsCleanly (cache : CodeCache) (place : Place) (out : LoadOutcome) : LoadError → Prop
  | .host path _ => ∃ code, out.cache.find? place = some code ∧ out.calls = [(code, path)]
  | .unsupportedExtension .. | .io .. | .compile .. => out.cache = cache ∧ out.calls = []

theorem Loader.handOver_failsCleanly {names : List Text} {code : Text} {c c' : CodeCache}
    {e : LoadError} (hfound : c'.find? (cacheKey names) = some code)
    (he : (l.handOver host names code c').result = .error e) :
    FailsCleanly c (cacheKey names) (l.handOver host names code c') e := by
  unfold handOver at he
  simp only at he
  split at he
  · cases he
    exact ⟨code, hfound, rfl⟩
  · cases he

theorem Loads.failsCleanly (h : Loads l tree cache host name out) {e : LoadError}
    (he : out.result = .error e) :
    FailsCleanly cache (cacheKey (lookupNames tree name)) out e := by
  cases h with
  | refused | unread | uncompiled =>
    cases he
    exact ⟨rfl, rfl⟩
  | served _ hfound => exact Loader.handOver_failsCleanly hfound he
  | compiled _ hfound =>
    refine Loader.handOver_failsCleanly ?_ he
    rw [CodeCache.find?_insert, hfound, Option.none_or, if_pos rfl]

end

/-! ## Whole sessions -/

namespace Session

variable (directory : Text) {s : Session} {place : Place} {code : Text}

/-- No event changes an entry. -/
theorem step_keeps (h : s.cache.find? place = some code) (event : LoaderEvent) :
    (s.step directory event).cache.find? place = some code := by
  cases event with
  | write name bytes =>
    rw [step]
    split <;> exact h
  | makeDirectory | delete => exact h
  | load extension host name => exact (Loader.loads ..).keeps h

/-- No succession of events changes an entry. -/
theorem run_keeps (h : s.cache.find? place = some code) (events : List LoaderEvent) :
    (s.run directory events).cache.find? place = some code := by
  induction events generalizing s with
  | nil => exact h
  | cons event events ih => exact ih (step_keeps directory h event)

theorem run_concat (events : List LoaderEvent) (event : LoaderEvent) :
    s.run directory (events ++ [event]) = (s.run directory events).step directory event := by
  simp [run]

end Session

/-- A place got its code by a load among some events, from what its file held at that time. -/
def CompiledDuring (directory : Text) (tree : FileTree) (events : List LoaderEvent) (place : Place)
    (code : Text) : Prop :=
  ∃ earlier extension host name later source out,
    events = earlier ++ .load extension host name :: later ∧
    Loader.handles ⟨extension, directory⟩ (Loader.pathOf ⟨extension, directory⟩ name) = true ∧
    (Session.run directory ⟨tree, []⟩ earlier).placeOf name = place ∧
    (Session.run directory ⟨tree, []⟩ earlier).tree.read
      (lookupNames (Session.run directory ⟨tree, []⟩ earlier).tree name) = .ok source ∧
    compile source = .ok out ∧ code = out.code

theorem CompiledDuring.concat {directory : Text} {tree : FileTree} {events : List LoaderEvent}
    {place : Place} {code : Text} (h : CompiledDuring directory tree events place code)
    (event : LoaderEvent) : CompiledDuring directory tree (events ++ [event]) place code := by
  obtain ⟨earlier, extension, host, name, later, source, out, rfl, h⟩ := h
  exact ⟨earlier, extension, host, name, later ++ [event], source, out, by simp, h⟩

/-- Every entry was compiled by a load during the session. -/
theorem compiledDuring_of_find? {directory : Text} {tree : FileTree} {events : List LoaderEvent}
    {place : Place} {code : Text}
    (h : (Session.run directory ⟨tree, []⟩ events).cache.find? place = some code) :
    CompiledDuring directory tree events place code := by
  induction events using List.reverseRecOn with
  | nil => cases h
  | append_singleton events event ih =>
    cases hbefore : (Session.run directory ⟨tree, []⟩ events).cache.find? place with
    | some code' =>
      rw [Session.run_concat, Session.step_keeps directory hbefore event] at h
      cases h
      exact (ih hbefore).concat event
    | none =>
      rw [Session.run_concat] at h
      cases event with
      | write name bytes =>
        rw [Session.step] at h
        split at h <;> (rw [hbefore] at h; cases h)
      | makeDirectory | delete =>
        change CodeCache.find? place _ = some code at h
        rw [Session.step, hbefore] at h
        cases h
      | load extension host name =>
        obtain ⟨hhandles, hplace, source, out, hread, hcompile, hcode⟩ :=
          (Loader.loads ..).compiles hbefore h
        exact ⟨events, extension, host, name, [], source, out, rfl, hhandles, hplace, hread, hcompile,
          hcode⟩

/-- The cache is sound and monotone. Whatever happened in a session that started with nothing compiled,
every entry is what its file compiled to when some load put it in. Whatever happens afterwards, the entry
stays, and every load that leads to its place hands exactly its code to the host, and answers as the host
does. A load that fails leaves the cache as it was and calls no host, unless it is the host that fails. Then
the code is kept. -/
theorem cache_sound_and_monotone (directory : Text) (tree : FileTree) (events : List LoaderEvent) :
    let s := Session.run directory ⟨tree, []⟩ events
    (∀ place code, s.cache.find? place = some code →
      CompiledDuring directory tree events place code ∧
      ∀ later, let s' := s.run directory later
        s'.cache.find? place = some code ∧
        ∀ extension host name,
          Loader.handles ⟨extension, directory⟩ (Loader.pathOf ⟨extension, directory⟩ name) = true →
          s'.placeOf name = place →
          let filename := s'.filenameOf directory extension name
          let out := s'.load directory extension host name
          out.cache = s'.cache ∧ out.calls = [(code, filename)] ∧
            out.result = match host code filename with
              | some message => .error (.host filename message)
              | none => .ok ⟨place, code⟩) ∧
    ∀ extension host name e, (s.load directory extension host name).result = .error e →
      FailsCleanly s.cache (s.placeOf name) (s.load directory extension host name) e := by
  intro s
  refine ⟨fun place code hplace => ⟨compiledDuring_of_find? hplace, fun later => ?_⟩,
    fun extension host name e he => (Loader.loads ..).failsCleanly he⟩
  have hlater := Session.run_keeps directory hplace later
  refine ⟨hlater, fun extension host name hhandles hname => ?_⟩
  subst hname
  have hserved := (Loader.loads _ _ _ host name).served_of_find? hhandles hlater
  exact ⟨congrArg LoadOutcome.cache hserved, congrArg LoadOutcome.calls hserved,
    congrArg LoadOutcome.result hserved⟩

/-- A file is written and loaded for a host that fails. -/
def failedFirstLoad : List LoaderEvent :=
  [.write "a.html".toList (Text.encode "one".toList),
    .load ".html".toList (fun _ _ => some "no".toList) "a.html".toList]

/-- Then it is written anew, loaded once more, and deleted. -/
def changedAfterwards : List LoaderEvent :=
  [.write "a.html".toList (Text.encode "two".toList),
    .load ".html".toList (fun _ _ => none) "a.html".toList, .delete "a.html".toList]

/-- What was compiled for the host that failed is handed over when the file is gone. -/
theorem cache_sound_and_monotone_changedAfterwards :
    let s := Session.run "t".toList ⟨.empty, []⟩ failedFirstLoad
    let s' := s.run "t".toList changedAfterwards
    ∃ out, compile "one".toList = .ok out ∧ s.cache.find? ["a.html".toList] = some out.code ∧
      s'.cache.find? ["a.html".toList] = some out.code ∧
      (s'.load "t".toList "l".toList (fun _ _ => none) "./a.html".toList).calls =
        [(out.code, "t/a.html".toList)] := by
  intro s s'
  have hcompiles : (compile "one".toList).toOption.isSome = true := by decide +kernel
  obtain ⟨out, hout⟩ := Option.isSome_iff_exists.1 hcompiles
  have hs : s.cache.find? ["a.html".toList] = some out.code := by
    have hfound : s.cache.find? ["a.html".toList] =
        (compile "one".toList).toOption.map Composed.code := by
      decide +kernel
    rw [hfound, hout, Option.map_some]
  obtain ⟨hkept, hserved⟩ :=
    ((cache_sound_and_monotone "t".toList .empty failedFirstLoad).1 _ _ hs).2 changedAfterwards
  obtain ⟨-, hcalls, -⟩ :=
    hserved "l".toList (fun _ _ => none) "./a.html".toList (by decide) (by decide +kernel)
  exact ⟨out, toOption_eq_some_iff.1 hout, hs, hkept, hcalls⟩

end TemplateCompiler
