import Hoist.Proofs.Conversion.TakenNames
import Hoist.Proofs.Transform.Rewriting

/-!
Runs of a transformer.  A run starts by resetting the supply of names to what the program spells,
and then only asks it for names.  So the generated names never collide, under any configuration, and
a run depends on nothing that earlier runs have left behind.
-/

namespace Hoist

/-- A part of a program spells a name as a variable, parameter, method, symbol, global or constant.
-/
inductive Node.Spells : Node String Unit → String → Prop
  | variable (loc : Loc) (name : String) : Spells (.expr (.name loc name)) name
  | parameter (name : String) (loc : Loc) (default : Option PlainExpr) :
    Spells (.param (.mk name loc default)) name
  | definition (loc : Loc) (name : String) (params : List PlainParam) (body : List PlainStmt) :
    Spells (.stmt (.define loc () name params body)) name
  | call (loc : Loc) (receiver : Option PlainExpr) (method : String) (args : List PlainExpr)
    (block : Option PlainBlock) (parens : Bool) :
    Spells (.expr (.call loc receiver method args block parens)) method
  | symbol (loc : Loc) (name : String) : Spells (.expr (.symbol loc name)) name
  | global (loc : Loc) (name : String) : Spells (.expr (.global loc name)) name
  | constant (loc : Loc) (name : String) : Spells (.expr (.constant loc name)) name

theorem Node.Spells.mem_identifiers {program : PlainProgram} {node : PlainNode} {name : String}
    (spells : node.Spells name) (member : node ∈ walkStmts program) :
    name ∈ identifiers program :=
  Hoist.mem_identifiers member (by cases spells <;> rfl)

/-- A supply with a start that has issued sound names and keeps off some others. -/
structure NameSupply.KeepsOff (start : String) (reserved : List String) (supply : NameSupply) :
    Prop where
  start : supply.start = start
  reserved : supply.reserved = reserved
  sound : supply.Sound

theorem NameSupply.KeepsOff.serve {start : String} {reserved : List String} {supply : NameSupply}
    (keepsOff : supply.KeepsOff start reserved) (requests : List NameRequest) :
    (supply.serve requests).2.KeepsOff start reserved where
  start := (supply.serve_start requests).trans keepsOff.start
  reserved := (supply.serve_reserved requests).trans keepsOff.reserved
  sound := keepsOff.sound.serve requests

namespace Transforming

variable {α β ε : Type}

/-- A run from a transformer leaves names of a kind, does not end in a collision, and gives a result
that fits the names. -/
structure SafeAt (kind : NameSupply → Prop) (post : α → NameSupply → Prop)
    (transformer : Transformer) (run : Transforming α) : Prop where
  names : kind (run transformer).2.names
  noCollision : ∀ collision, (run transformer).1 ≠ .error (.collision collision)
  result : ∀ value, (run transformer).1 = .ok value → post value (run transformer).2.names

/-- A run that is safe wherever it finds names of the kind that it leaves. -/
abbrev Safe (kind : NameSupply → Prop) (post : α → NameSupply → Prop) (run : Transforming α) :
    Prop :=
  ∀ transformer : Transformer, kind transformer.names → SafeAt kind post transformer run

variable {kind : NameSupply → Prop} {post : α → NameSupply → Prop} {after : β → NameSupply → Prop}

theorem safe_pure {value : α} (holds : ∀ names, kind names → post value names) :
    Safe kind post (pure value) :=
  fun _ names => ⟨names, nofun, by rintro _ ⟨⟩; exact holds _ names⟩

theorem SafeAt.bind {transformer : Transformer} {first : Transforming α} {next : α → Transforming β}
    (safe : SafeAt kind (fun _ _ => True) transformer first)
    (step : ∀ value middle, first transformer = (.ok value, middle) → kind middle.names →
      SafeAt kind after middle (next value)) : SafeAt kind after transformer (first >>= next) := by
  obtain ⟨names, noCollision, -⟩ := safe
  rcases ran : first transformer with ⟨error | value, middle⟩
  · rw [ran] at names noCollision
    constructor <;> rw [steps_bind_error ran]
    · exact names
    · exact fun collision same => noCollision collision (by rw [Except.error.inj same])
    · exact nofun
  · rw [ran] at names
    obtain ⟨namesAfter, noCollisionAfter, result⟩ := step value middle ran names
    constructor <;> rw [steps_bind ran]
    · exact namesAfter
    · exact noCollisionAfter
    · exact result

theorem Safe.bind {first : Transforming α} {next : α → Transforming β}
    (safe : Safe kind (fun _ _ => True) first) (step : ∀ value, Safe kind after (next value)) :
    Safe kind after (first >>= next) :=
  fun transformer names => (safe transformer names).bind fun value middle _ => step value middle

theorem safe_report (events : List LogEvent) : Safe kind (fun _ _ => True) (report events) :=
  fun _ names => ⟨names, nofun, fun _ _ => trivial⟩

theorem safe_settle {wrap : ε → TransformError}
    (apart : ∀ error collision, wrap error ≠ .collision collision) (result : Except ε α) :
    Safe kind (fun _ _ => True) (settle wrap result) := by
  intro transformer names
  cases result with
  | ok value => exact ⟨names, nofun, fun _ _ => trivial⟩
  | error error =>
    exact ⟨names, fun collision same => apart error collision (Except.error.inj same),
      fun _ _ => trivial⟩

section Converting

variable {start : String} {reserved : List String}

theorem safe_convert (input : ConversionInput) (program : ResolvedProgram)
    {next : PlainProgram × ConversionState → Transforming β}
    (step : ∀ body state, state.names.KeepsOff start reserved →
      state.generated ⊆ state.names.issued → Safe (· = state.names) after (next (body, state))) :
    Safe (·.KeepsOff start reserved) after (convert input program >>= next) := by
  intro transformer keepsOff
  obtain ⟨⟨⟨requests, served⟩, named⟩, noCollision⟩ :=
    Conversion.asks_program input program { names := transformer.names }
  rcases ran : Conversion.program input program { names := transformer.names } with ⟨body, state⟩
  have converted := run_convert input program transformer ran
  rw [ran] at served named noCollision
  have stateKeepsOff : state.names.KeepsOff start reserved := served ▸ keepsOff.serve requests
  cases body with
  | error error =>
    constructor <;> rw [steps_bind_error converted]
    · exact stateKeepsOff
    · exact fun collision same => noCollision collision (by rw [Except.error.inj same])
    · exact nofun
  | ok body =>
    obtain ⟨names, noCollisionAfter, result⟩ := step body state stateKeepsOff (named nofun)
      ⟨state.names, transformer.log ++ state.log⟩ rfl
    constructor <;> rw [steps_bind converted]
    · rw [names]
      exact stateKeepsOff
    · exact noCollisionAfter
    · exact result

end Converting

theorem safeAt_reset (transformer : Transformer) (reserved : List String)
    {next : Unit → Transforming β}
    (safe : Safe (·.KeepsOff transformer.names.start reserved) after (next ())) :
    SafeAt (·.KeepsOff transformer.names.start reserved) after transformer
      ((modify fun transformer => { transformer with
        names := transformer.names.reset reserved }) >>= next) := by
  obtain ⟨names, noCollision, result⟩ := safe
    { transformer with names := transformer.names.reset reserved }
    ⟨rfl, rfl, NameSupply.sound_reset _ _⟩
  exact ⟨names, noCollision, result⟩

theorem safeAt_transformProgram (config : TransformConfig) (program : PlainProgram)
    (transformer : Transformer) :
    SafeAt (·.KeepsOff transformer.names.start (identifiers program))
      (fun result names => ∀ name ∈ result.hoisted, name ∈ names.issued) transformer
      (transformProgram config program) := by
  refine safeAt_reset transformer _ ((safe_report _).bind fun _ => ?_)
  refine (safe_settle nofun _).bind fun resolution => (safe_report _).bind fun _ => ?_
  refine (safe_report _).bind fun _ => (safe_report _).bind fun _ =>
    (safe_report _).bind fun _ => ?_
  refine (safe_settle nofun _).bind fun analysis => (safe_report _).bind fun _ => ?_
  refine (safe_report _).bind fun _ => safe_convert _ _ fun body state keepsOff named => ?_
  have verified := keepsOff.sound.verified
  rw [keepsOff.reserved] at verified
  refine (safe_report _).bind fun _ => ?_
  rw [verified]
  refine (safe_pure fun _ _ => trivial).bind fun _ => (safe_report _).bind fun _ => ?_
  refine (safe_settle nofun _).bind fun text => (safe_report _).bind fun _ => safe_pure ?_
  rintro _ rfl
  exact fun _ member => named (List.mem_append_left _ (List.mem_append_left _ member))

/-- What a run gives and the names it leaves depend on the names it finds, and on nothing else that
the transformer keeps. -/
def Blind (run : Transforming α) : Prop :=
  ∀ first second : Transformer, first.names = second.names →
    (run first).1 = (run second).1 ∧ (run first).2.names = (run second).2.names

theorem blind_pure (value : α) : Blind (pure value) := fun _ _ same => ⟨rfl, same⟩

theorem Blind.bind {first : Transforming α} {next : α → Transforming β} (blind : Blind first)
    (step : ∀ value, Blind (next value)) : Blind (first >>= next) := by
  intro left right same
  obtain ⟨outcome, names⟩ := blind left right same
  rcases ranLeft : first left with ⟨error | value, leftAfter⟩ <;>
    rcases ranRight : first right with ⟨error' | value', rightAfter⟩ <;>
    rw [ranLeft, ranRight] at outcome names <;> cases outcome
  · rw [steps_bind_error ranLeft, steps_bind_error ranRight]
    exact ⟨rfl, names⟩
  · rw [steps_bind ranLeft, steps_bind ranRight]
    exact step value leftAfter rightAfter names

theorem blind_report (events : List LogEvent) : Blind (report events) := fun _ _ same => ⟨rfl, same⟩

theorem blind_settle (wrap : ε → TransformError) (result : Except ε α) :
    Blind (settle wrap result) := by
  cases result with
  | ok value => exact fun _ _ same => ⟨rfl, same⟩
  | error error => exact fun _ _ same => ⟨rfl, same⟩

theorem blind_convert (input : ConversionInput) (program : ResolvedProgram) :
    Blind (convert input program) := by
  intro left right same
  rcases ran : (Conversion.program input program).run.run { names := left.names } with ⟨body, state⟩
  rw [run_convert input program left ran, run_convert input program right (same ▸ ran)]
  exact ⟨rfl, rfl⟩

theorem Blind.reset {next : Unit → Transforming β} (blind : Blind (next ()))
    (reserved : List String) {first second : Transformer}
    (same : first.names.start = second.names.start) :
    let run : Transforming β := (modify fun transformer => { transformer with
      names := transformer.names.reset reserved }) >>= next
    (run first).1 = (run second).1 ∧ (run first).2.names = (run second).2.names :=
  blind { first with names := first.names.reset reserved }
    { second with names := second.names.reset reserved } (by simp only [NameSupply.reset, same])

theorem transformProgram_eq (config : TransformConfig) (program : PlainProgram)
    {first second : Transformer} (same : first.names.start = second.names.start) :
    (transformProgram config program first).1 = (transformProgram config program second).1 ∧
      (transformProgram config program first).2.names =
        (transformProgram config program second).2.names := by
  refine Blind.reset ?_ _ same
  refine (blind_report _).bind fun _ => (blind_settle _ _).bind fun resolution => ?_
  refine (blind_report _).bind fun _ => (blind_report _).bind fun _ =>
    (blind_report _).bind fun _ => ?_
  refine (blind_report _).bind fun _ => (blind_settle _ _).bind fun analysis => ?_
  refine (blind_report _).bind fun _ => (blind_report _).bind fun _ => (blind_convert _ _).bind ?_
  rintro ⟨body, state⟩
  refine (blind_report _).bind fun _ => (blind_settle _ _).bind fun _ => (blind_report _).bind ?_
  exact fun _ => (blind_settle _ _).bind fun text => (blind_report _).bind fun _ => blind_pure _

theorem transformText_start (config : TransformConfig) (text : Text) (transformer : Transformer) :
    (transformText config text transformer).2.names.start = transformer.names.start := by
  unfold transformText
  cases parse text with
  | error error => rfl
  | ok program => exact (safeAt_transformProgram config program _).names.start

theorem transformText_eq (config : TransformConfig) (text : Text) {first second : Transformer}
    (same : first.names.start = second.names.start) :
    (transformText config text first).1 = (transformText config text second).1 ∧
      ∀ program, parse text = .ok program →
        (transformText config text first).2.names = (transformText config text second).2.names := by
  unfold transformText
  cases parsed : parse text with
  | error error => exact ⟨rfl, nofun⟩
  | ok program =>
    let reported (transformer : Transformer) : Transformer :=
      { transformer with log := transformer.log ++ [.reading text.length] }
    obtain ⟨outcome, names⟩ :=
      @transformProgram_eq config program (reported first) (reported second) same
    exact ⟨outcome, fun _ _ => names⟩

end Transforming

/-- One transformer runs texts in turn: what each run gives, and the transformer after it. -/
def Transformer.runAll (config : TransformConfig) :
    Transformer → List Text → List (Except TransformError TransformResult × Transformer)
  | _, [] => []
  | transformer, text :: rest =>
    let (outcome, after) := (Transforming.transformText config text).run.run transformer
    (outcome, after) :: after.runAll config rest

theorem Transformer.runAll_get (config : TransformConfig) (transformer : Transformer)
    (texts : List Text) (position : Fin texts.length) :
    ∃ before : Transformer, before.names.start = transformer.names.start ∧
      (transformer.runAll config texts)[position.val]? =
        some (Transforming.transformText config (texts.get position) before) := by
  induction texts generalizing transformer with
  | nil => exact position.elim0
  | cons text rest ih =>
    cases position using Fin.cases with
    | zero => exact ⟨transformer, rfl, rfl⟩
    | succ position =>
      obtain ⟨before, same, found⟩ := ih
        (Transforming.transformText config text transformer).2 position
      exact ⟨before, same.trans (Transforming.transformText_start config text transformer), found⟩

/-- Generated names are fresh.  Whatever names a supply is asked for after a reset, those it gives
differ from each other and from the reserved ones, so they pass the check.  No run of a transformer
ends in a collision, and the program spells none of the names that a run issues.  The closures, the
helpers and the stop marker have issued names, also when conversion fails halfway, and so has the
parameter of a closure's lambda that is none of the block's. -/
theorem generated_names_fresh :
    (∀ (supply : NameSupply) (reserved : List String) (requests : List NameRequest),
      let served := (supply.reset reserved).serve requests
      served.1.Nodup ∧ (∀ name ∈ served.1, name ∉ reserved) ∧ served.2.issued = served.1 ∧
        verifyNames [] reserved served.2.issued = .ok ()) ∧
    (∀ (config : TransformConfig) (program : PlainProgram) (transformer : Transformer),
      let run := Transforming.transformProgram config program transformer
      (∀ collision, run.1 ≠ .error (.collision collision)) ∧
        (∀ result, run.1 = .ok result → result.hoisted ⊆ run.2.names.issued) ∧
        run.2.names.issued.Nodup ∧
        ∀ name ∈ run.2.names.issued, ∀ node ∈ walkStmts program, ¬ node.Spells name) ∧
    (∀ (input : ConversionInput) (program : ResolvedProgram) (names : NameSupply),
      let state := (Conversion.program input program { names }).2
      state.generated ⊆ state.names.issued) ∧
    ∀ (names : NameSupply) (loc : Loc) (captures : CaptureSet) (params : List PlainParam)
      (body : List PlainStmt) (arity : Nat) (isCell : ScopeId → String → Bool),
      let built := HoistedClosure.build names loc captures params body arity isCell
      ∃ inner front, built.1.1.definition = .define loc () built.1.1.name
          (captures.map fun capture => .mk capture.name loc none)
          [.expression loc (.lambda loc () inner (front ++ body))] ∧
        ∀ param ∈ inner, param ∈ params ∨ param.name ∈ built.2.issued := by
  refine ⟨fun supply reserved requests => ?_, fun config program transformer => ?_,
    fun input program names => (Conversion.asks_program input program _).leads.named nofun,
    fun names loc captures params body arity isCell =>
      (Conversion.build_serves names loc captures params body arity isCell).2⟩
  · have sound := (supply.sound_reset reserved).serve requests
    have issued : ((supply.reset reserved).serve requests).2.issued = _ :=
      NameSupply.serve_issued _ requests
    have kept : ((supply.reset reserved).serve requests).2.reserved = reserved :=
      NameSupply.serve_reserved _ requests
    have verified := sound.verified
    obtain ⟨unreserved, distinct⟩ := sound
    rw [issued] at unreserved distinct
    rw [kept] at unreserved verified
    exact ⟨distinct, unreserved, issued, verified⟩
  · obtain ⟨⟨-, reserved, sound⟩, noCollision, hoisted⟩ :=
      Transforming.safeAt_transformProgram config program transformer
    refine ⟨noCollision, hoisted, sound.distinct, fun name member node met spells => ?_⟩
    have unreserved := sound.unreserved name member
    rw [reserved] at unreserved
    exact unreserved (spells.mem_identifiers met)

/-- A transformer that is used again gives for each text what a new one gives, and issues the same
names for each text that can be read, whatever it was used for before. -/
theorem runAll_independent (config : TransformConfig) (texts : List Text)
    (position : Fin texts.length) :
    ∃ after : Transformer,
      (Transformer.runAll config (.new config) texts)[position.val]? =
        some (transform config (texts.get position), after) ∧
      ∀ program, parse (texts.get position) = .ok program →
        after.names.issued =
          (Transforming.transformText config (texts.get position)
            (.new config)).2.names.issued := by
  obtain ⟨before, same, found⟩ := (Transformer.new config).runAll_get config texts position
  obtain ⟨outcome, names⟩ := Transforming.transformText_eq config (texts.get position) same
  refine ⟨(Transforming.transformText config (texts.get position) before).2, ?_,
    fun program parsed => by rw [names program parsed]⟩
  rw [found]
  exact congrArg some (Prod.ext outcome rfl)

end Hoist
