import Hoist.Proofs.Scope.Numbered
import Hoist.Proofs.Scope.Scoped

/-!
Scope resolution is lexical.  A program is read from front to back, and what stands before a name
tells what it means: the variable of the nearest scope around it that has come to have one by then,
where nothing beyond a method is seen.  The table of scopes is a record of what has been read: a
scope has the variables that were created in it, each with the assignments that lead to it.
-/

namespace Hoist

open List

open Resolve

namespace Event

/-- The variable that a scope comes to have by an event, if it does not have it yet. -/
def created? (scope : ScopeId) (word : String) : Event Occurrence ScopeId → Option Binding
  | .declare inner other loc =>
    if other = word ∧ inner = scope then some { name := other, kind := .parameter, loc := some loc }
    else none
  | .name true inner loc occurrence =>
    if inner = scope ∧ occurrence = ⟨word, some (.variable scope)⟩ then
      some { name := word, kind := .localVariable, loc := some loc }
    else none
  | _ => none

/-- Whether an event is an assignment to the variable of a scope. -/
def assigns (scope : ScopeId) (word : String) : Event Occurrence ScopeId → Bool
  | .name true _ _ occurrence => occurrence = ⟨word, some (.variable scope)⟩
  | _ => false

/-- Whether it is one that stands in another scope. -/
def assignsInside (scope : ScopeId) (word : String) : Event Occurrence ScopeId → Bool
  | .name true inner _ occurrence =>
    inner != scope && decide (occurrence = ⟨word, some (.variable scope)⟩)
  | _ => false

/-- The global that is mentioned for the first time by an event, if it has not been before. -/
def global? (word : String) : Event Occurrence ScopeId → Option Binding
  | .global _ loc other =>
    if other = word then some { name := other, kind := .global, loc := some loc } else none
  | _ => none

def assignsGlobal (word : String) : Event Occurrence ScopeId → Bool
  | .global true _ other => other = word
  | _ => false

/-- The scopes around what follows an event, the innermost first. -/
def around (scopes : List (ScopeKind × ScopeId)) :
    Event Occurrence ScopeId → List (ScopeKind × ScopeId)
  | .enter kind scope => (kind, scope) :: scopes
  | .leave => scopes.tail
  | _ => scopes

/-- An event without what resolution adds to it. -/
def erase : Event Occurrence ScopeId → Event String Unit
  | .name written _ loc occurrence => .name written () loc occurrence.name
  | .global written loc word => .global written loc word
  | .meet _ word loc => .meet () word loc
  | .declare _ word loc => .declare () word loc
  | .enter kind _ => .enter kind ()
  | .leave => .leave
  | .fault error => .fault error

end Event

/-- The scopes around the place that some events lead to, the innermost first. -/
def scopesAfter (events : List (Event Occurrence ScopeId)) : List (ScopeKind × ScopeId) :=
  events.foldl Event.around [(.top, 0)]

/-- The innermost scope at the place that some events lead to. -/
def scopeAfter (events : List (Event Occurrence ScopeId)) : ScopeId :=
  innermost ((scopesAfter events).map Prod.snd)

/-- The variable that a scope has come to have by some events, as it is created. -/
def createdBy (events : List (Event Occurrence ScopeId)) (scope : ScopeId) (word : String) :
    Option Binding := events.findSome? (Event.created? scope word)

/-- The nearest of some scopes, the innermost first, that has something; what is no closure hides
all beyond it. -/
def nearest? (has : ScopeId → Bool) : List (ScopeKind × ScopeId) → Option ScopeId
  | [] => none
  | (kind, scope) :: outer =>
    if has scope then some scope else if kind.isClosure then nearest? has outer else none

/-- The scope whose variable a name means after some events. -/
def meaning? (before : List (Event Occurrence ScopeId)) (word : String) : Option ScopeId :=
  nearest? (fun scope => (createdBy before scope word).isSome) (scopesAfter before)

/-- What the lexical rule says of an event, given those before it: a name means the variable that is
seen, or else a new one where it is assigned to, or else a method that can be called. -/
def Event.Lawful (callable : String → Prop) (before : List (Event Occurrence ScopeId)) :
    Event Occurrence ScopeId → Prop
  | .name written scope _ occurrence => scope = scopeAfter before ∧
    match meaning? before occurrence.name with
    | some owner => occurrence.target = some (.variable owner)
    | none =>
      if written then occurrence.target = some (.variable scope)
      else occurrence.target = some .method ∧ callable occurrence.name
  | .meet scope _ _ => scope = scopeAfter before
  | .declare scope word _ => scope = scopeAfter before ∧ createdBy before scope word = none
  | .enter _ scope => scope = (before.filterMap Event.entered?).length + 1
  | .global .. | .leave => True
  | .fault _ => False

/-- Each of some events keeps to the lexical rule, given those before it. -/
def Lawful (callable : String → Prop) (before : List (Event Occurrence ScopeId)) :
    List (Event Occurrence ScopeId) → Prop
  | [] => True
  | event :: after => event.Lawful callable before ∧ Lawful callable (before ++ [event]) after

theorem Lawful.split {callable : String → Prop} {event : Event Occurrence ScopeId}
    {start before after : List (Event Occurrence ScopeId)}
    (lawful : Lawful callable start (before ++ event :: after)) :
    event.Lawful callable (start ++ before) := by
  induction before generalizing start with
  | nil => exact (append_nil start).symm ▸ lawful.1
  | cons first rest ih =>
    rw [append_cons]
    exact ih lawful.2

/-- The variable that a scope has after some events, with the assignments to it. -/
def recorded? (events : List (Event Occurrence ScopeId)) (scope : ScopeId) (word : String) :
    Option Binding :=
  (createdBy events scope word).map fun binding =>
    { binding with
      assignments := events.countP (Event.assigns scope word)
      writtenInClosure := events.any (Event.assignsInside scope word) }

/-- The global of a name after some events.  Globals have no scope, so none of their assignments
counts as one in a closure. -/
def recordedGlobal? (events : List (Event Occurrence ScopeId)) (word : String) : Option Binding :=
  (events.findSome? (Event.global? word)).map fun binding =>
    { binding with assignments := events.countP (Event.assignsGlobal word) }

namespace Bindings

variable (bindings : Bindings) (name other : String)

theorem find?_concat (binding : Binding) : Bindings.find? (bindings ++ [binding]) name =
    (bindings.find? name).or (if binding.name = name then some binding else none) := by
  rw [find?, find?_append, List.find?_singleton]
  simp [find?]

theorem name_of_find? {bindings : Bindings} {name : String} {binding : Binding}
    (found : bindings.find? name = some binding) : binding.name = name := by
  simpa using List.find?_some found

theorem find?_update (inClosure : Bool) :
    (bindings.update other (·.written inClosure)).find? name =
      if other = name then (bindings.find? name).map (·.written inClosure)
      else bindings.find? name := by
  induction bindings with
  | nil => simp [find?, update]
  | cons first rest ih =>
    simp only [find?, update, map_cons, find?_cons] at ih ⊢
    grind [Binding.written]

end Bindings

namespace ScopeTable

variable {table : ScopeTable} {id scope : ScopeId} {name other : String}

theorem binding?_addBinding (there : id < table.nextId) {binding : Binding} :
    (table.addBinding id binding).binding? scope other = (table.binding? scope other).or
      (if binding.name = other ∧ id = scope then some binding else none) := by
  rw [binding?, addBinding, scope?_updateScope, binding?]
  by_cases same : id = scope
  · subst same
    have found : table.scope? id = some table.scopes[id] := getElem?_eq_getElem there
    simp [found, Bindings.find?_concat]
  · simp [same]

theorem binding?_updateBinding {inClosure : Bool} :
    (table.updateBinding id name (·.written inClosure)).binding? scope other =
      if name = other ∧ id = scope then (table.binding? scope other).map (·.written inClosure)
      else table.binding? scope other := by
  rw [binding?, updateBinding, scope?_updateScope, binding?]
  by_cases same : id = scope
  · cases table.scope? scope <;> simp [same, Bindings.find?_update]
  · simp [same]

theorem binding?_openScope (table : ScopeTable) (kind : ScopeKind) (path : List ScopeId) :
    (table.openScope kind path).binding? scope other = table.binding? scope other := by
  rw [binding?, scope?_openScope, binding?]
  split
  · next new =>
    have none : table.scope? scope = none := getElem?_eq_none (Nat.le_of_eq new.symm)
    rw [none]
    rfl
  · rfl

theorem isClosure_updateScope {change : Scope → Scope}
    (kept : ∀ scope, (change scope).kind = scope.kind) :
    (table.updateScope id change).isClosure scope = table.isClosure scope := by
  rw [isClosure, scope?_updateScope, isClosure]
  by_cases same : id = scope
  · cases table.scope? scope <;> simp [same, kept]
  · simp [same]

/-- A variable that is seen belongs to the innermost scope or lies beyond a closure. -/
theorem throughClosure_eq {path : List ScopeId} (seen : table.lookup? name path = some scope) :
    table.throughClosure path scope = (innermost path != scope) := by
  cases path with
  | nil => cases seen
  | cons id rest =>
    rw [throughClosure, innermost, headD_cons]
    by_cases same : id = scope
    · simp [same]
    · have closure : table.isClosure id = true := by
        rw [lookup?] at seen
        grind
      simp [same, closure]

theorem binding?_of_lookup? {path : List ScopeId} (seen : table.lookup? name path = some scope) :
    (table.binding? scope name).isSome = true := by
  induction path with
  | nil => cases seen
  | cons id rest ih =>
    rw [lookup?] at seen
    grind

theorem binding?_of_unseen {path : List ScopeId} (inside : path ≠ [])
    (unseen : table.lookup? name path = none) : table.binding? (innermost path) name = none := by
  cases path with
  | nil => exact absurd rfl inside
  | cons id rest =>
    cases found : table.binding? id name with
    | none => exact found
    | some binding => simp [lookup?, found] at unseen

theorem Knows.there {defined : String → Bool} (knows : table.Knows defined)
    (isDefined : defined name = true) : (table.methods.find? name).isSome = true := by
  rw [← knows.defines, Plan.definesMethod] at isDefined
  cases found : table.methods.find? name with
  | some binding => rfl
  | none =>
    rw [found] at isDefined
    cases isDefined

end ScopeTable

/-- What an occurrence leads to in a table. -/
def ScopeTable.meant? (table : ScopeTable) (occurrence : Occurrence) : Option Binding :=
  match occurrence.target with
  | some (.variable scope) => table.binding? scope occurrence.name
  | some .method => table.methods.find? occurrence.name
  | none => none

/-- No assignment leads to any of some bindings. -/
def Bindings.Unassigned (bindings : Bindings) : Prop :=
  ∀ binding ∈ bindings, binding.assignments = 0 ∧ binding.writtenInClosure = false

/-- A table is a record of what has been read. -/
structure Resolve.Reading.Records (state : Reading) (defined : String → Bool)
    (made : List (Event Occurrence ScopeId)) : Prop where
  path : state.path = (scopesAfter made).map Prod.snd
  /-- The scopes around are in the table. -/
  around : ∀ entry ∈ scopesAfter made,
    entry.2 < state.table.nextId ∧ state.table.isClosure entry.2 = entry.1.isClosure
  entered : state.table.nextId = (made.filterMap Event.entered?).length + 1
  bindings : ∀ scope word, state.table.binding? scope word = recorded? made scope word
  globals : ∀ word, state.table.globals.find? word = recordedGlobal? made word
  knows : state.table.Knows defined
  unassigned : state.table.methods.Unassigned
  meant : ∀ written scope loc occurrence, .name written scope loc occurrence ∈ made →
    (state.table.meant? occurrence).isSome = true

section Append

variable {made : List (Event Occurrence ScopeId)} {event : Event Occurrence ScopeId}
  {scope : ScopeId} {word : String}

theorem scopesAfter_concat (made : List (Event Occurrence ScopeId))
    (event : Event Occurrence ScopeId) :
    scopesAfter (made ++ [event]) = event.around (scopesAfter made) := foldl_concat ..

theorem createdBy_concat : createdBy (made ++ [event]) scope word =
    (createdBy made scope word).or (event.created? scope word) := by
  simp [createdBy, findSome?_append]

theorem Event.assignsInside_eq_false (other : event.assigns scope word = false) :
    event.assignsInside scope word = false := by
  unfold assignsInside
  split
  · exact Bool.and_eq_false_iff.2 (.inr other)
  · rfl

theorem Event.created?_fresh {binding : Binding}
    (created : event.created? scope word = some binding) :
    ∃ name kind loc, binding = { name, kind, loc } := by
  unfold created? at created
  split at created
  case h_3 => cases created
  all_goals
    split at created <;> cases created
    exact ⟨_, _, _, rfl⟩

/-- What an event makes of the variable that a scope has before it. -/
def Event.record (event : Event Occurrence ScopeId) (scope : ScopeId) (word : String)
    (known : Option Binding) : Option Binding :=
  (known.or (event.created? scope word)).map fun binding =>
    if event.assigns scope word then binding.written (event.assignsInside scope word) else binding

theorem recorded?_concat (targets : made.any (Event.assigns scope word) = true →
      (createdBy made scope word).isSome = true) :
    recorded? (made ++ [event]) scope word = event.record scope word
      (recorded? made scope word) := by
  rw [recorded?, createdBy_concat, recorded?, Event.record]
  cases known : createdBy made scope word with
  | some binding =>
    cases assigned : event.assigns scope word with
    | true => simp [assigned, Binding.written]
    | false => simp [assigned, Event.assignsInside_eq_false]
  | none =>
    have none : ∀ earlier ∈ made, earlier.assigns scope word = false := by
      simpa [known] using targets
    have uncounted : made.countP (Event.assigns scope word) = 0 := by
      simpa [countP_eq_zero] using none
    have unwritten : made.any (Event.assignsInside scope word) = false := by
      rw [any_eq_false]
      intro earlier member
      rw [Event.assignsInside_eq_false (none earlier member)]
      exact Bool.false_ne_true
    cases created : event.created? scope word with
    | none => rfl
    | some binding =>
      obtain ⟨name, kind, loc, rfl⟩ := Event.created?_fresh created
      cases assigned : event.assigns scope word with
      | true => simp [uncounted, unwritten, assigned, Binding.written]
      | false => simp [uncounted, unwritten, assigned, Event.assignsInside_eq_false]

theorem Event.global?_of_assigns (assigned : event.assignsGlobal word = true) :
    event.global? word ≠ none := by
  unfold assignsGlobal at assigned
  split at assigned
  · simp [global?, of_decide_eq_true assigned]
  · cases assigned

theorem Event.global?_fresh {binding : Binding} (first : event.global? word = some binding) :
    binding.writtenInClosure = false := by
  unfold global? at first
  split at first
  · split at first <;> cases first
    rfl
  · cases first

theorem recordedGlobal?_concat : recordedGlobal? (made ++ [event]) word =
    ((recordedGlobal? made word).or (event.global? word)).map fun binding =>
      if event.assignsGlobal word then binding.written false else binding := by
  rw [recordedGlobal?, recordedGlobal?, findSome?_append]
  cases known : made.findSome? (Event.global? word) with
  | some binding =>
    cases assigned : event.assignsGlobal word <;> simp [assigned, Binding.written]
  | none =>
    have uncounted : made.countP (Event.assignsGlobal word) = 0 := countP_eq_zero.2
      fun earlier member assigned =>
        Event.global?_of_assigns assigned (findSome?_eq_none_iff.1 known earlier member)
    cases event with
    | global written loc name =>
      by_cases same : name = word <;> cases written <;>
        simp [Event.global?, Event.assignsGlobal, Binding.written, uncounted, same]
    | _ => rfl

end Append

namespace Resolve.Reading.Records

variable {state next : Reading} {defined : String → Bool} {made : List (Event Occurrence ScopeId)}
  {event : Event String Unit} {result : Event Occurrence ScopeId}

theorem created (records : state.Records defined made) (scope : ScopeId) (word : String) :
    (state.table.binding? scope word).isSome = (createdBy made scope word).isSome := by
  rw [records.bindings, recorded?, Option.isSome_map]

/-- What is assigned to is there. -/
theorem targets (records : state.Records defined made) {scope : ScopeId} {word : String}
    (assigned : made.any (Event.assigns scope word) = true) :
    (createdBy made scope word).isSome = true := by
  obtain ⟨event, member, assigns⟩ := any_eq_true.1 assigned
  unfold Event.assigns at assigns
  split at assigns
  · cases of_decide_eq_true assigns
    rw [← records.created]
    exact records.meant _ _ _ _ member
  · cases assigns

theorem innermost_eq (records : state.Records defined made) :
    innermost state.path = scopeAfter made := by
  rw [scopeAfter, records.path]

theorem lookup? (records : state.Records defined made) (word : String) :
    state.table.lookup? word state.path = meaning? made word := by
  rw [meaning?, records.path]
  have around := records.around
  generalize scopesAfter made = scopes at around ⊢
  induction scopes with
  | nil => rfl
  | cons entry outer ih =>
    obtain ⟨here, around⟩ := forall_mem_cons.1 around
    rw [map_cons, ScopeTable.lookup?, nearest?, ih around, records.created, here.2]

theorem innermost_lt (records : state.Records defined made) (inside : state.path ≠ []) :
    innermost state.path < state.table.nextId := by
  have around := records.around
  have isPath := records.path
  cases scopes : scopesAfter made with
  | nil =>
    rw [scopes] at isPath
    exact absurd isPath inside
  | cons entry outer =>
    rw [scopes] at isPath around
    rw [isPath]
    exact (around entry mem_cons_self).1

end Resolve.Reading.Records

theorem Event.read_of_takes {state : Reading} {event : Event String Unit}
    {result : Event Occurrence ScopeId} {next : Reading}
    (takes : event.Takes state.path state.table result next) :
    event.read state = .ok (result, next) := by
  obtain ⟨path, table⟩ := state
  cases takes with
  | found seen => simp [read, reference_seen seen]
  | method unseen there => simp [read, reference_method unseen there]
  | kernel unseen new kernel => simp [read, reference_kernel unseen new kernel]
  | write seen => simp [read, assignment_seen seen]
  | create unseen => simp [read, assignment_new unseen]
  | declare new => simp [read, declareParameter_new new]
  | _ => rfl

namespace Event.Takes

variable {path : List ScopeId} {table : ScopeTable} {event : Event String Unit}
  {result : Event Occurrence ScopeId} {next : Reading}

theorem erase_eq (takes : event.Takes path table result next) : result.erase = event := by
  cases takes <;> rfl

theorem isClosure (takes : event.Takes path table result next) {id : ScopeId}
    (old : id < table.nextId) :
    next.table.isClosure id = table.isClosure id := by
  cases takes with
  | write | create | declare => exact ScopeTable.isClosure_updateScope fun _ => rfl
  | enter kind =>
    dsimp only
    rw [ScopeTable.isClosure, ScopeTable.scope?_openScope, if_neg (Nat.ne_of_lt old)]
    rfl
  | _ => rfl

theorem binding? (takes : event.Takes path table result next) (here : innermost path < table.nextId)
    (inside : path ≠ []) (scope : ScopeId) (word : String) :
    next.table.binding? scope word = result.record scope word (table.binding? scope word) := by
  cases takes with
  | @write loc name owner seen =>
    have there := ScopeTable.binding?_of_lookup? seen
    rw [ScopeTable.binding?_updateBinding, ScopeTable.throughClosure_eq seen]
    by_cases same : name = word ∧ owner = scope
    · obtain ⟨rfl, rfl⟩ := same
      obtain ⟨binding, found⟩ := Option.isSome_iff_exists.1 there
      simp [record, assigns, assignsInside, found]
    · have silent : ¬ (innermost path = scope ∧ name = word ∧ owner = scope) :=
        fun both => same both.2
      simp [record, assigns, created?, if_neg same, if_neg silent]
  | @create loc name unseen =>
    rw [ScopeTable.binding?_addBinding here]
    by_cases same : name = word ∧ innermost path = scope
    · obtain ⟨rfl, rfl⟩ := same
      have new := ScopeTable.binding?_of_unseen inside unseen
      simp [record, assigns, assignsInside, created?, new, Binding.written]
    · have silent : ¬ (innermost path = scope ∧ name = word ∧ innermost path = scope) :=
        fun both => same both.2
      simp [record, assigns, created?, if_neg same, if_neg silent, Binding.written]
  | @declare loc name new =>
    rw [ScopeTable.binding?_addBinding here]
    simp [record, assigns, created?]
  | enter kind => simp [ScopeTable.binding?_openScope, record, created?, assigns]
  | _ => simp [record, created?, assigns, ScopeTable.binding?, ScopeTable.scope?]

theorem binding?_isSome (takes : event.Takes path table result next)
    (here : innermost path < table.nextId) (inside : path ≠ []) {scope : ScopeId} {word : String}
    (there : (table.binding? scope word).isSome = true) :
    (next.table.binding? scope word).isSome = true := by
  rw [takes.binding? here inside, record, Option.isSome_map, Option.isSome_or, there, Bool.true_or]

/-- What a name leads to stays in the table. -/
theorem keeps_meant (takes : event.Takes path table result next)
    (here : innermost path < table.nextId) (inside : path ≠ []) {occurrence : Occurrence}
    (there : (table.meant? occurrence).isSome = true) :
    (next.table.meant? occurrence).isSome = true := by
  unfold ScopeTable.meant? at there ⊢
  split at there
  · exact takes.binding?_isSome here inside there
  · cases takes with
    | kernel => simp [Bindings.find?_concat, there]
    | _ => exact there
  · cases there

theorem meant (takes : event.Takes path table result next) (here : innermost path < table.nextId)
    (inside : path ≠ []) {written : Bool} {scope : ScopeId} {loc : Loc} {occurrence : Occurrence}
    (isName : result = .name written scope loc occurrence) :
    (next.table.meant? occurrence).isSome = true := by
  have stays {scope : ScopeId} {word : String} : (table.binding? scope word).isSome = true → _ :=
    takes.binding?_isSome here inside
  cases takes with
  | found seen | write seen =>
    cases isName
    exact stays (ScopeTable.binding?_of_lookup? seen)
  | create =>
    cases isName
    simp [ScopeTable.meant?, ScopeTable.binding?_addBinding here, Binding.written]
  | method unseen there =>
    cases isName
    exact there
  | kernel =>
    cases isName
    simp [ScopeTable.meant?, Bindings.find?_concat]
  | _ => cases isName

theorem globals (takes : event.Takes path table result next) (word : String) :
    next.table.globals.find? word =
      ((table.globals.find? word).or (result.global? word)).map fun binding =>
        if result.assignsGlobal word then binding.written false else binding := by
  cases takes with
  | global written loc name =>
    by_cases there : (table.globals.find? name).isSome = true <;>
      by_cases same : name = word <;> cases written <;>
      simp_all [globalsAfter, global?, assignsGlobal, Bindings.find?_update, Bindings.find?_concat,
        Option.or_of_isSome]
  | _ =>
    show table.globals.find? word = _
    cases table.globals.find? word <;> rfl

variable {defined : String → Bool} {made : List (Event Occurrence ScopeId)}

theorem lawful (takes : event.Takes path table result next)
    (records : Reading.Records ⟨path, table⟩ defined made) :
    result.Lawful (Callable defined) made := by
  have meaning := records.lookup?
  have here := records.innermost_eq
  dsimp only at meaning here
  cases takes with
  | found seen | write seen | create seen => simp [Lawful, ← meaning, seen, here]
  | method unseen there =>
    have callable : Callable defined _ := records.knows.found _ there
    simpa [Lawful, ← meaning, unseen, here] using callable
  | kernel unseen new kernel =>
    have callable : Callable defined _ := .inr kernel
    simpa [Lawful, ← meaning, unseen, here] using callable
  | @declare loc word new =>
    refine ⟨here, ?_⟩
    rw [← Option.not_isSome_iff_eq_none, ← records.created]
    exact new
  | enter => exact records.entered
  | meet => exact here
  | global | leave => trivial

theorem of_lawful (lawful : result.Lawful (Callable defined) made)
    (records : Reading.Records ⟨path, table⟩ defined made) :
    ∃ next, result.erase.Takes path table result next := by
  have meaning := records.lookup?
  have here := records.innermost_eq
  dsimp only at meaning here
  cases result with
  | name written scope loc occurrence =>
    obtain ⟨word, target⟩ := occurrence
    obtain ⟨rfl, leads⟩ := lawful
    dsimp only at leads
    rw [← here, erase]
    rw [← meaning] at leads
    split at leads
    · next owner seen =>
      cases leads
      cases written with
      | true => exact ⟨_, .write seen⟩
      | false => exact ⟨_, .found seen⟩
    · next unseen =>
      split at leads
      · next isWritten =>
        cases isWritten
        cases leads
        rw [← here]
        exact ⟨_, .create unseen⟩
      · next isRead =>
        cases Bool.eq_false_iff.2 isRead
        obtain ⟨⟨⟩, callable⟩ := leads
        by_cases there : (table.methods.find? word).isSome = true
        · exact ⟨_, .method unseen there⟩
        · refine ⟨_, .kernel unseen there (callable.resolve_left fun isDefined => there ?_)⟩
          exact records.knows.there isDefined
  | global => exact ⟨_, .global ..⟩
  | meet scope word loc =>
    cases (show scope = _ from lawful).trans here.symm
    exact ⟨_, .meet ..⟩
  | declare scope word loc => 
    obtain ⟨rfl, new⟩ := lawful
    rw [← Option.not_isSome_iff_eq_none, ← records.created, ← here] at new
    rw [← here]
    exact ⟨_, .declare new⟩
  | enter kind scope => 
    cases (show scope = _ from lawful).trans records.entered.symm
    exact ⟨_, .enter kind⟩
  | leave => exact ⟨_, .leave⟩
  | fault => exact lawful.elim

theorem records (takes : event.Takes path table result next) (inside : path ≠ [])
    (records : Reading.Records ⟨path, table⟩ defined made) :
    next.Records defined (made ++ [result]) := by
  have isPath := records.path
  obtain ⟨count, counted, entered⟩ := takes.numbered
  have here := records.innermost_lt inside
  constructor
  · rw [scopesAfter_concat]
    cases takes with
    | enter => exact congrArg _ isPath
    | leave => exact (congrArg tail isPath).trans map_tail.symm
    | _ => exact isPath
  · intro entry member
    rw [scopesAfter_concat] at member
    have old (there : entry ∈ scopesAfter made) : entry.2 < next.table.nextId ∧
        next.table.isClosure entry.2 = entry.1.isClosure := by
      obtain ⟨below, closure⟩ := records.around entry there
      exact ⟨counted ▸ Nat.lt_add_right _ below, (takes.isClosure below).trans closure⟩
    cases takes with
    | enter kind =>
      rcases mem_cons.1 member with rfl | there
      · simp [ScopeTable.isClosure]
      · exact old there
    | leave => exact old (mem_of_mem_tail member)
    | _ => exact old member
  · have known := records.entered
    have length := congrArg length entered
    dsimp only at known
    rw [length_range'] at length
    rw [counted, known, filterMap_append, length_append, ← length]
    cases shown : result.entered? <;> simp [shown]
  · intro scope word
    rw [takes.binding? here inside, recorded?_concat records.targets,
      ← records.bindings]
  · intro word
    rw [takes.globals, recordedGlobal?_concat, ← records.globals]
  · cases takes with
    | kernel unseen new kernel => exact records.knows.add new kernel
    | _ => exact records.knows.of_methods rfl
  · cases takes with
    | kernel => exact forall_mem_append.2 ⟨records.unassigned, forall_mem_singleton.2 ⟨rfl, rfl⟩⟩
    | _ => exact records.unassigned
  · intro written scope loc occurrence member
    rcases mem_append.1 member with earlier | now
    · exact takes.keeps_meant here inside (records.meant written scope loc occurrence earlier)
    · exact takes.meant here inside (mem_singleton.1 now).symm

end Event.Takes

/-- Whether events that follow on `depth` scopes that are entered leave no more than these and those
entered on the way. -/
def Inside : Nat → List (Event String Unit) → Prop
  | _, [] => True
  | depth, .enter .. :: rest => Inside (depth + 1) rest
  | 0, .leave :: _ => False
  | depth + 1, .leave :: rest => Inside depth rest
  | depth, _ :: rest => Inside depth rest

theorem Node.Balanced.inside {within : Bool} {events rest : List (Event String Unit)}
    (balanced : Balanced within events) {depth : Nat} (more : Inside depth rest) :
    Inside depth (events ++ rest) := by
  induction balanced generalizing depth rest with
  | nil => exact more
  | append _ _ ih ihRight =>
    rw [append_assoc]
    exact ih (ihRight more)
  | @one _ event stays =>
    cases event with
    | enter | leave => cases stays
    | _ => cases depth <;> exact more
  | scope _ _ _ ih =>
    rw [cons_append, append_assoc]
    exact ih more

section Runs

variable {defined : String → Bool} {event : Event String Unit}
    {events rest : List (Event String Unit)}
  {state next : Reading} {depth : Nat} {made more : List (Event Occurrence ScopeId)}
  {result : Event Occurrence ScopeId}

theorem Inside.left (inside : Inside depth (events ++ rest)) : Inside depth events := by
  induction events generalizing depth with
  | nil => trivial
  | cons event events ih =>
    cases event with
    | leave => cases depth <;> first | exact inside.elim | exact ih inside
    | _ => cases depth <;> exact ih inside

theorem Inside.step (inside : Inside depth (event :: rest)) {path : List ScopeId}
    {table : ScopeTable} (takes : event.Takes path table result next)
    (isPath : path.length = depth + 1) :
    ∃ depth, next.path.length = depth + 1 ∧ Inside depth rest := by
  cases takes with
  | enter => exact ⟨depth + 1, congrArg (· + 1) isPath, inside⟩
  | leave =>
    cases depth with
    | zero => exact inside.elim
    | succ depth => exact ⟨depth, by simp [isPath], inside⟩
  | _ => cases depth <;> exact ⟨_, isPath, inside⟩

theorem readAll_lawful {last : Reading} (inside : Inside depth events)
    (isPath : state.path.length = depth + 1) (records : state.Records defined made)
    (ran : readAll events state = .ok (more, last)) :
    more.map Event.erase = events ∧ Lawful (Callable defined) made more ∧
      last.Records defined (made ++ more) := by
  induction events generalizing depth state made more with
  | nil =>
    cases ran
    exact ⟨rfl, trivial, (append_nil made).symm ▸ records⟩
  | cons event rest ih =>
    obtain ⟨⟨result, next⟩, read, ran⟩ := bind_eq_ok.1 ran
    obtain ⟨⟨others, _⟩, readOthers, ⟨⟩⟩ := bind_eq_ok.1 ran
    have takes := Event.takes_of_read read
    obtain ⟨depth, isPathNext, insideNext⟩ := inside.step takes isPath
    have entered : state.path ≠ [] := ne_nil_of_length_eq_add_one isPath
    obtain ⟨erased, lawful, recordsLast⟩ :=
      ih insideNext isPathNext (takes.records entered records) readOthers
    rw [append_assoc] at recordsLast
    exact ⟨congrArg₂ cons takes.erase_eq erased, ⟨takes.lawful records, lawful⟩, recordsLast⟩

theorem readAll_of_lawful (inside : Inside depth (more.map Event.erase))
    (isPath : state.path.length = depth + 1) (records : state.Records defined made)
    (lawful : Lawful (Callable defined) made more) :
    ∃ last, readAll (more.map Event.erase) state = .ok (more, last) := by
  induction more generalizing depth state made with
  | nil => exact ⟨state, rfl⟩
  | cons result more ih =>
    obtain ⟨here, lawful⟩ := lawful
    obtain ⟨next, takes⟩ := Event.Takes.of_lawful here records
    obtain ⟨depth, isPathNext, insideNext⟩ := inside.step takes isPath
    have entered : state.path ≠ [] := ne_nil_of_length_eq_add_one isPath
    obtain ⟨last, ran⟩ := ih insideNext isPathNext (takes.records entered records) lawful
    refine ⟨last, ?_⟩
    rw [map_cons, readAll, Event.read_of_takes takes]
    simp [ran]

theorem readAll_eq_error_iff {error : ScopeError} : readAll events state = .error error ↔
    ∃ before event after made next, events = before ++ event :: after ∧
      readAll before state = .ok (made, next) ∧ event.read next = .error error := by
  constructor
  · intro failed
    induction events generalizing state with
    | nil => cases failed
    | cons event rest ih =>
      rw [readAll] at failed
      cases read : event.read state with
      | error other =>
        rw [read] at failed
        cases failed
        exact ⟨[], event, rest, [], state, rfl, rfl, read⟩
      | ok first =>
        cases readRest : readAll rest first.2 with
        | ok others => simp [read, readRest] at failed
        | error other =>
          rw [read, ok_bind, readRest] at failed
          cases failed
          obtain ⟨before, fault, after, made, next, rfl, ran, failed⟩ := ih readRest
          refine ⟨event :: before, fault, after, first.1 :: made, next, rfl, ?_, failed⟩
          simp [readAll, read, ran]
  · rintro ⟨before, event, after, made, next, rfl, ran, failed⟩
    rw [readAll_append, ran]
    simp [readAll, failed]

end Runs

/-- A misplaced part is not reported as an undefined name. -/
theorem Node.ne_undefinedName_of_fault {ν σ : Type} {node : Node ν σ} {scope : σ} {written : Bool}
    {error : ScopeError} (fault : .fault error ∈ node.events scope written) (word : String)
    (loc : Loc) : error ≠ .undefinedName word loc := by
  induction node using Node.induct generalizing scope written with
  | step node ih =>
    by_cases stands : node.stands written
    · rw [events_eq scope stands, mem_append, mem_append, mem_flatMap] at fault
      rcases fault with (opening | ⟨child, member, inside⟩) | closing
      · unfold Node.opening at opening
        split at opening <;> simp at opening
      · exact ih child member inside
      · unfold Node.closing at closing
        split at closing <;> simp at closing
    · obtain ⟨_, only, kind⟩ := fault_of_not_stands scope stands
      rw [only] at fault
      cases mem_singleton.1 fault
      exact kind word loc

/-- A name, a global or a parameter, with the scope where it stands. -/
def Event.mention? : Event Occurrence ScopeId → Option (Option ScopeId × ResolvedNode)
  | .name _ scope loc occurrence => some (scope, .expr (.name loc occurrence))
  | .global _ loc word => some (none, .expr (.global loc word))
  | .meet scope word loc => some (scope, .param (.mk word loc none))
  | _ => none

def Node.mention? (scope : ScopeId) : ResolvedNode → Option (Option ScopeId × ResolvedNode)
  | .expr (.name loc occurrence) => some (scope, .expr (.name loc occurrence))
  | .expr (.global loc word) => some (none, .expr (.global loc word))
  | .param (.mk word loc _) => some (scope, .param (.mk word loc none))
  | _ => none

/-- Names, globals and parameters are read in the order of a walk. -/
theorem mentions_eq {trees : List ResolvedStmt} {scope : ScopeId}
    (faultless : ∀ error, .fault error ∉ stmtsEvents scope trees) :
    (stmtsEvents scope trees).filterMap Event.mention? =
      (walkStmtsIn scope trees).filterMap fun part => part.2.mention? part.1 := by
  refine Node.filterMap_stmtsEvents (fun scope node => ?_) (fun scope written node => ?_) faultless
  · unfold Node.closing
    split <;> rfl
  · rcases node with tree | ⟨_, _, _⟩ | ⟨_, _, _, _⟩ | tree
    case expr | stmt => cases tree <;> rfl
    all_goals rfl

section Lexical

variable {program : PlainProgram} {resolution : Resolution}

theorem definedMethods_unassigned (program : PlainProgram) :
    (definedMethods program).Unassigned := by
  rw [definedMethods_eq]
  refine foldlRecOn (motive := Bindings.Unassigned) _ _ (fun _ => nofun)
    fun methods unassigned node _ => ?_
  unfold collectMethod
  split
  · split
    · exact unassigned
    · exact forall_mem_append.2 ⟨unassigned, forall_mem_singleton.2 ⟨rfl, rfl⟩⟩
  · exact unassigned

theorem records_initial (program : PlainProgram) :
    Reading.Records ⟨[0], .initial (definedMethods program)⟩ (definesIn program) [] where
  path := rfl
  around := forall_mem_singleton.2 ⟨Nat.zero_lt_one, rfl⟩
  entered := rfl
  bindings scope word := by cases scope <;> rfl
  globals _ := rfl
  knows := knows_initial program
  unassigned := definedMethods_unassigned program
  meant := nofun

theorem inside_program (program : PlainProgram) : Inside 0 (stmtsEvents () program) := by
  rw [← append_nil (stmtsEvents () program)]
  exact (Node.stmts_balanced program).inside trivial

theorem resolve_records (resolved : resolve program = .ok resolution) :
    Lawful (Callable (definesIn program)) [] (stmtsEvents 0 resolution.program) ∧
      Reading.Records ⟨[0], resolution.table⟩ (definesIn program)
        (stmtsEvents 0 resolution.program) :=
  (readAll_lawful (inside_program program) rfl (records_initial program) (resolve_ok resolved).1).2

theorem name_of_meant? {table : ScopeTable} {occurrence : Occurrence} {binding : Binding}
    (found : table.meant? occurrence = some binding) : binding.name = occurrence.name := by
  unfold ScopeTable.meant? at found
  split at found
  · obtain ⟨scope, -, found⟩ := Option.bind_eq_some_iff.1 found
    exact Bindings.name_of_find? found
  · exact Bindings.name_of_find? found
  · cases found

section Undefined

variable {defined : String → Bool} {made : List (Event Occurrence ScopeId)} {state : Reading}
  {word : String} {loc : Loc}

theorem reference_undefined (records : state.Records defined made)
    (unseen : meaning? made word = none)
    (unknown : ¬ Callable defined word) : Event.read (.name false () loc word) state =
      .error (.undefinedName word loc) := by
  have noMethod : ¬ (state.table.methods.find? word).isSome = true :=
    fun there => unknown (records.knows.found word there)
  have noKernel : ¬ kernelMethods.contains word = true := fun kernel => unknown (.inr kernel)
  rw [← records.lookup?] at unseen
  dsimp only [Event.read]
  rw [if_neg Bool.false_ne_true, reference_eq, unseen]
  simp only [if_neg noMethod, if_neg noKernel]
  rfl

theorem undefined_of_read (records : state.Records defined made) {event : Event String Unit}
    (placed : event ≠ .fault (.undefinedName word loc))
    (failed : event.read state = .error (.undefinedName word loc)) :
    event = .name false () loc word ∧ meaning? made word = none ∧ ¬ Callable defined word := by
  cases event with
  | name written scope place name =>
    cases seen : state.table.lookup? name state.path with
    | some owner => 
      cases written <;> simp [Event.read, assignment_seen seen, reference_seen seen] at failed
    | none =>
      cases written with
      | true => simp [Event.read, assignment_new seen] at failed
      | false =>
        dsimp only [Event.read] at failed
        rw [if_neg Bool.false_ne_true, reference_eq, seen] at failed
        simp only at failed
        split at failed
        · cases failed
        · next noMethod =>
          split at failed
          · cases failed
          · next noKernel => 
            cases failed
            rw [← records.lookup?]
            exact ⟨rfl, seen, fun callable =>
              callable.elim (noMethod ∘ records.knows.there) noKernel⟩
  | declare scope name place =>
    simp only [Event.read, declareParameter_eq] at failed
    split at failed <;> cases failed
  | fault error =>
    cases failed
    exact absurd rfl placed
  | _ => cases failed

end Undefined

/-- A program is resolved by the lexical rule, and it is refused for an undefined name exactly if
the events before some name that is read keep to the rule, and by then the name means nothing. -/
theorem resolve_lexical (program : PlainProgram) :
    (∀ resolution, resolve program = .ok resolution →
      relabelStmts erasing resolution.program = program ∧
      (stmtsEvents 0 resolution.program).filterMap Event.mention? =
        ((walkStmtsIn 0 resolution.program).filterMap fun part => part.2.mention? part.1) ∧
      Lawful (Callable (definesIn program)) [] (stmtsEvents 0 resolution.program) ∧
      (∀ written scope loc occurrence,
        .name written scope loc occurrence ∈ stmtsEvents 0 resolution.program →
          ∃ binding, resolution.table.meant? occurrence = some binding ∧
            binding.name = occurrence.name) ∧
      ∀ written loc word, .global written loc word ∈ stmtsEvents 0 resolution.program →
        ∃ binding, resolution.table.globals.find? word = some binding ∧ binding.name = word) ∧
    ∀ word loc, resolve program = .error (.undefinedName word loc) ↔ ∃ before after made,
      stmtsEvents () program = before ++ .name false () loc word :: after ∧
      made.map Event.erase = before ∧ Lawful (Callable (definesIn program)) [] made ∧
      meaning? made word = none ∧ ¬ Callable (definesIn program) word := by
  have inside := inside_program program
  have start := records_initial program
  refine ⟨fun resolution resolved => ?_, fun word loc => ?_⟩
  · obtain ⟨lawful, records⟩ := resolve_records resolved
    refine ⟨(resolve_ok resolved).2, mentions_eq (resolve_faultless resolved), lawful, ?_, ?_⟩
    · intro written scope loc occurrence member
      obtain ⟨binding, found⟩ := Option.isSome_iff_exists.1 (records.meant _ _ _ _ member)
      exact ⟨binding, found, name_of_meant? found⟩
    · intro written loc word member
      have known : (resolution.table.globals.find? word).isSome = true := by
        rw [records.globals, recordedGlobal?, Option.isSome_map, findSome?_isSome_iff]
        exact ⟨_, member, by simp [Event.global?]⟩
      obtain ⟨binding, found⟩ := Option.isSome_iff_exists.1 known
      exact ⟨binding, found, Bindings.name_of_find? found⟩
  · rw [resolve_eq_error_iff, readAll_eq_error_iff]
    constructor
    · rintro ⟨before, event, after, made, next, split, ran, failed⟩
      rw [split] at inside
      obtain ⟨erased, lawful, records⟩ := readAll_lawful inside.left rfl start ran
      have placed : event ≠ .fault (.undefinedName word loc) := by
        rintro rfl
        have member : .fault (.undefinedName word loc) ∈ stmtsEvents () program :=
          split ▸ mem_append_right _ mem_cons_self
        rw [Node.stmtsEvents_eq] at member
        obtain ⟨tree, -, fault⟩ := mem_flatMap.1 member
        exact @Node.ne_undefinedName_of_fault _ _ (.stmt tree) () false _ fault word loc rfl
      obtain ⟨rfl, unseen, unknown⟩ := undefined_of_read records placed failed
      exact ⟨before, after, made, split, erased, lawful, unseen, unknown⟩
    · rintro ⟨before, after, made, split, erased, lawful, unseen, unknown⟩
      rw [split] at inside
      obtain ⟨last, ran⟩ := readAll_of_lawful (erased ▸ inside.left) rfl start lawful
      rw [erased] at ran
      have records := (readAll_lawful inside.left rfl start ran).2.2
      refine ⟨before, _, after, made, last, split, ran, ?_⟩
      exact reference_undefined records unseen unknown

theorem resolve_lexical_shadowed : ∃ program resolution,
    parse (.ofString "x = 1\n[2].map \x7b |a = x| [3].map \x7b |x| x + a \x7d \x7d\n") =
    .ok program ∧
      resolve program = .ok resolution ∧
      Lawful (Callable (definesIn program)) [] (stmtsEvents 0 resolution.program) ∧
      .name false 2 ⟨2, 33⟩ ⟨"x", some (.variable 2)⟩ ∈ stmtsEvents 0 resolution.program := by
  have facts : (parse (.ofString
      "x = 1\n[2].map \x7b |a = x| [3].map \x7b |x| x + a \x7d \x7d\n")).toOption.any
        (fun program => (resolve program).toOption.any fun resolution =>
          .name false 2 ⟨2, 33⟩ ⟨"x", some (.variable 2)⟩ ∈ stmtsEvents 0 resolution.program) =
          true := by
    decide +kernel
  obtain ⟨program, parsed, facts⟩ := exists_ok_of_any facts
  obtain ⟨resolution, resolved, facts⟩ := exists_ok_of_any facts
  obtain ⟨-, -, lawful, -⟩ := (resolve_lexical program).1 resolution resolved
  exact ⟨program, resolution, parsed, resolved, lawful, of_decide_eq_true facts⟩

/-- The first fault is the only one that is reported. -/
theorem undefined_after_duplicate : ∃ program,
    parse (.ofString "def f(a, a)\nend\nx\n") = .ok program ∧
      stmtsEvents () program = [.enter .function (), .meet () "a" ⟨1, 7⟩, .declare () "a" ⟨1, 7⟩,
        .meet () "a" ⟨1, 10⟩, .declare () "a" ⟨1, 10⟩, .leave, .name false () ⟨3, 1⟩ "x"] ∧
      ¬ Callable (definesIn program) "x" ∧
      resolve program = .error (.duplicateParameter "a" ⟨1, 10⟩) := by
  have facts : (parse (.ofString "def f(a, a)\nend\nx\n")).toOption.any (fun program =>
      decide (stmtsEvents () program = [.enter .function (), .meet () "a" ⟨1, 7⟩,
        .declare () "a" ⟨1, 7⟩, .meet () "a" ⟨1, 10⟩, .declare () "a" ⟨1, 10⟩, .leave,
        .name false () ⟨3, 1⟩ "x"]) && !definesIn program "x") = true := by
    decide +kernel
  obtain ⟨program, parsed, facts⟩ := exists_ok_of_any facts
  obtain ⟨read, undefined⟩ := (Bool.and_eq_true _ _).mp facts
  refine ⟨program, parsed, of_decide_eq_true read, ?_, ?_⟩
  · rintro (defined | kernel)
    · rw [defined] at undefined
      cases undefined
    · exact absurd kernel (by decide)
  · rw [resolve_eq_error_iff, of_decide_eq_true read]
    rfl

end Lexical

end Hoist
