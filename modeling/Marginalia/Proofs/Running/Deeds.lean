import Marginalia.Proofs.Running.Changes

/-!
# Runs as deeds

A step of a run does one deed to its store at most, and one that is allowed: the scopes and values
that a run speaks of on its way are known to the store (`Moment.Step.sound`). So whatever a run does
to its store it does by deeds, whether it ends well or not (`Program.exists_does_runUnder`), and a
property of stores that every allowed deed keeps is kept by every run.

`Store.Reached` are the stores that any number of deeds, directives and whole runs lead to, in any
order. Deeds alone lead to all of them (`Store.Reached.exists_does`).
-/

namespace Marginalia

/-! ## What is done by several deeds -/

namespace Store

variable {store : Store} {scope : ScopeId}

theorem exists_does_assignAll (there : scope < store.scopes.size) {value : Value}
    (known : value.Known store) (names : List String) :
    ∃ deeds, store.Does deeds (store.assignAll scope names value) := by
  induction names generalizing store with
  | nil => exact ⟨[], .nil⟩
  | cons name names ih =>
    have allowed : (Deed.assign scope name value).Allowed store := ⟨there, known⟩
    have grows := Deed.grows allowed
    obtain ⟨deeds, does⟩ := ih (Nat.lt_of_lt_of_le there grows.scopes) (known.mono grows)
    exact ⟨_, .cons allowed does⟩

/-- A new function is made and bound to its names. -/
theorem exists_does_install (there : scope < store.scopes.size) (function : Function)
    (known : function.Known store) (names : List String) :
    ∃ deeds, store.Does deeds
      ((store.newFunction function).2.assignAll scope names (store.newFunction function).1) := by
  have allowed : (Deed.makeFunction function).Allowed store := known
  have made : (store.newFunction function).1.Known (store.newFunction function).2 :=
    Heap.size_lt_alloc _ _
  obtain ⟨deeds, does⟩ := exists_does_assignAll
    (Nat.lt_of_lt_of_le there (Deed.grows allowed).scopes) made names
  exact ⟨_, .cons allowed does⟩

theorem exists_does_direct (there : scope < store.scopes.size) (name value : String) :
    ∃ deeds, store.Does deeds (store.direct scope name value) := by
  unfold direct
  split
  · exact ⟨_, .single (.settle { store.settings with palimpsest := true }) trivial⟩
  split
  · unfold installListener
    split
    · exact ⟨[], .nil⟩
    next dialogue _ =>
      exact exists_does_install there (.listener dialogue) trivial listenerNames
  · exact ⟨_, .single (.assign scope name (.text value)) ⟨there, trivial⟩⟩

theorem exists_does_start (there : scope < store.scopes.size) (settings : Settings)
    (text : List Char) :
    ∃ deeds, store.Does deeds (Machine.start store scope settings text).store := by
  have settled : scope < ({ store with settings } : Store).scopes.size := there
  obtain ⟨deeds, does⟩ := exists_does_install settled .printer trivial printerNames
  exact ⟨.settle settings :: deeds, .cons trivial does⟩

theorem exists_does_answering (store : Store) (answers : Option (List String)) :
    ∃ deeds, store.Does deeds (store.answering answers).2 := by
  cases answers with
  | none => exact ⟨[], .nil⟩
  | some answers => exact ⟨_, .single (.makeDialogue answers) trivial⟩

theorem Sound.lookup (sound : store.Sound) (scope : ScopeId) (name : String) :
    (store.lookup scope name).Known store := by
  cases resolved : store.resolve? scope name with
  | none =>
    rw [lookup_of_resolve?_none resolved]
    trivial
  | some slot =>
    obtain ⟨binding, here, _⟩ := exists_of_resolve? resolved
    rw [lookup_of_resolve? resolved here]
    exact sound.bindings here

end Store

/-! ## Steps that do deeds -/

theorem Function.Known.scopes {store : Store} {function : Function} (known : function.Known store) :
    ∀ scope ∈ function.scopes, scope < store.scopes.size := by
  cases function with
  | declared name params body home => exact List.forall_mem_singleton.mpr known
  | printer | listener _ => exact List.forall_mem_nil _

namespace Moment

/-- Neither the store nor what is on its way speaks of what the store has not made. -/
structure Sound (moment : Moment) : Prop where
  store : moment.machine.store.Sound
  scopes : ∀ scope ∈ moment.scopes, scope < moment.machine.store.scopes.size
  values : ∀ value ∈ moment.values, value.Known moment.machine.store

variable {depth : Nat} {moment next : Moment}

namespace Sound

theorem scope (sound : moment.Sound) :
    moment.machine.scope < moment.machine.store.scopes.size :=
  sound.scopes _ List.mem_cons_self

theorem focus_scopes (sound : moment.Sound) :
    ∀ scope ∈ moment.focus.scopes, scope < moment.machine.store.scopes.size :=
  fun scope mem => sound.scopes scope (List.mem_cons_of_mem _ (List.mem_append_left _ mem))

/-- At a sound moment no deed is done that is not allowed. -/
theorem allowed (sound : moment.Sound) {deed : Deed} (does : moment.Does deed) :
    deed.Allowed moment.machine.store := by
  have scopes := sound.focus_scopes
  have written := does.forall_values (Value.Known moment.machine.store) sound.values trivial
  cases does with
  | enterBlock _ => exact sound.scope
  | call focus =>
    rw [focus] at scopes
    exact scopes _ List.mem_cons_self
  | define focus =>
    rw [focus] at scopes
    exact ⟨scopes _ List.mem_cons_self, written _ List.mem_cons_self⟩
  | assign _ => exact ⟨sound.scope, written _ List.mem_cons_self⟩
  | declare _ => exact sound.scope
  | palimpsest _ _ | dialogue _ _ | answer _ => trivial

theorem brings (sound : moment.Sound) (grows : moment.machine.store.Grows next.machine.store)
    {value : Value} (brings : moment.Brings next value) : value.Known next.machine.store := by
  cases brings with
  | nothing | truth _ | answer _ | directive _ => trivial
  | @constant span constant _ => cases constant <;> trivial
  | lookup _ => exact (sound.store.lookup _ _).mono grows
  | function more => exact more

end Sound

/-- A step from a sound moment does an allowed deed at most. -/
theorem Step.does (step : Step depth moment next) (sound : moment.Sound) :
    ∃ deeds, moment.machine.store.Does deeds next.machine.store := by
  rcases step.store with same | ⟨deed, does, same⟩
  · rw [same]
    exact ⟨[], .nil⟩
  · rw [same]
    exact ⟨[deed], .single deed (sound.allowed does)⟩

/-- A step from a sound moment leads to one that is sound. -/
theorem Step.sound (step : Step depth moment next) (sound : moment.Sound) : next.Sound := by
  obtain ⟨deeds, does⟩ := step.does sound
  have grows := does.grows
  refine ⟨does.sound sound.store, fun scope mem => ?_, ?_⟩
  · rcases step.scopes scope mem with old | ⟨_, made⟩ | ⟨value, function, called, home⟩
    · exact Nat.lt_of_lt_of_le (sound.scopes scope old) grows.scopes
    · exact made
    · obtain ⟨address, _, found⟩ := Option.bind_eq_some_iff.mp called
      exact Nat.lt_of_lt_of_le ((sound.store.functions found).scopes scope home) grows.scopes
  · apply step.forall_values (Value.Known next.machine.store)
    · exact fun value mem => (sound.values value mem).mono grows
    · exact fun value => sound.brings grows

theorem Reaches.does {origin : Moment} (reached : origin.Reaches depth moment)
    (sound : origin.Sound) :
    ∃ deeds, origin.machine.store.Does deeds moment.machine.store := by
  induction reached with
  | refl => exact ⟨[], .nil⟩
  | tail before step ih =>
    obtain ⟨deeds, does⟩ := ih
    have here := Reaches.keeps Sound before (fun _ _ => Step.sound) sound
    obtain ⟨more, later⟩ := step.does here
    exact ⟨_, does.append later⟩

end Moment

/-- A whole program does deeds. -/
theorem Program.exists_does_runUnder (limits : Limits) (program : Program) {machine : Machine}
    (sound : machine.store.Sound) (there : machine.scope < machine.store.scopes.size) :
    ∃ deeds, machine.store.Does deeds (program.runUnder limits machine).machine.store := by
  have begins : (Moment.top program machine).Sound :=
    ⟨sound, List.forall_mem_singleton.mpr there, List.forall_mem_nil _⟩
  have begun : (Moment.top program machine).Reaches limits.depth (.top program machine) := .refl
  obtain ⟨last, reached, same⟩ := program.leaves_runUnder begun
  rw [same]
  exact reached.does begins

/-! ## Reached stores -/

namespace Store

variable {store : Store} {scope : ScopeId}

/-- A run of a program in a scope of a store does deeds. -/
theorem exists_does_run (limits : Limits) (sound : store.Sound) (there : scope < store.scopes.size)
    (settings : Settings) (text : List Char) (program : Program) :
    ∃ deeds, store.Does deeds
      (program.runUnder limits (.start store scope settings text)).machine.store := by
  obtain ⟨deeds, opened⟩ := exists_does_start there settings text
  obtain ⟨more, does⟩ := program.exists_does_runUnder limits (opened.sound sound)
    (Nat.lt_of_lt_of_le there opened.grows.scopes)
  exact ⟨_, opened.append does⟩

theorem exists_does_runIn {limits : Limits} (sound : store.Sound)
    (there : scope < store.scopes.size) {source : Source} {answers : Option (List String)}
    {parsed : Parsed} {run : Run}
    (ran : source.runInUnder limits store scope answers = .ok (parsed, run)) :
    ∃ deeds, store.Does deeds run.machine.store := by
  obtain ⟨deeds, answered⟩ := exists_does_answering store answers
  obtain ⟨_, rfl⟩ := Source.runInUnder_eq_ok_iff.mp ran
  obtain ⟨more, does⟩ := exists_does_run limits (answered.sound sound)
    (Nat.lt_of_lt_of_le there answered.grows.scopes) (store.answering answers).1
    source.text.toList parsed.program
  exact ⟨_, answered.append does⟩

/-- A store that deeds, directives and whole runs lead to, from the fresh one and in any order. A
run is one of a source or one of any program, under whatever limits, and counts whether it succeeds
or not. -/
inductive Reached : Store → Prop
  | fresh : Reached .fresh
  | deed {store : Store} (deed : Deed) :
    Reached store → deed.Allowed store → Reached (deed.apply store)
  | direct {store : Store} {scope : ScopeId} (name value : String) :
    Reached store → scope < store.scopes.size → Reached (store.direct scope name value)
  | interpret {store : Store} {scope : ScopeId} (limits : Limits) (settings : Settings)
    (text : List Char) (program : Program) : Reached store → scope < store.scopes.size →
    Reached (program.runUnder limits (.start store scope settings text)).machine.store
  | run {store : Store} {scope : ScopeId} {limits : Limits} {source : Source}
    {answers : Option (List String)} {parsed : Parsed} {run : Run} :
    Reached store → scope < store.scopes.size →
    source.runInUnder limits store scope answers = .ok (parsed, run) → Reached run.machine.store

theorem Reached.of_does {deeds : List Deed} {after : Store} (reached : Reached store)
    (does : store.Does deeds after) : Reached after := by
  induction does with
  | nil => exact reached
  | cons allowed _ ih => exact ih (.deed _ reached allowed)

/-- Deeds alone lead to every reached store. -/
theorem Reached.exists_does (reached : Reached store) : ∃ deeds, Store.fresh.Does deeds store := by
  induction reached with
  | fresh => exact ⟨[], .nil⟩
  | deed _ _ allowed ih =>
    obtain ⟨deeds, does⟩ := ih
    exact ⟨_, does.concat allowed⟩
  | direct name value _ there ih =>
    obtain ⟨deeds, does⟩ := ih
    obtain ⟨more, later⟩ := exists_does_direct there name value
    exact ⟨_, does.append later⟩
  | interpret limits settings text program _ there ih =>
    obtain ⟨deeds, does⟩ := ih
    obtain ⟨more, later⟩ :=
      exists_does_run limits (does.sound sound_fresh) there settings text program
    exact ⟨_, does.append later⟩
  | run _ there ran ih =>
    obtain ⟨deeds, does⟩ := ih
    obtain ⟨more, later⟩ := exists_does_runIn (does.sound sound_fresh) there ran
    exact ⟨_, does.append later⟩

/-- What the fresh store has and every allowed deed keeps, every reached store has. -/
theorem Reached.of_keeps {holds : Store → Prop} (reached : Reached store)
    (begins : holds Store.fresh)
    (keeps : ∀ (store : Store) (deed : Deed), deed.Allowed store → holds store →
      holds (deed.apply store)) :
    holds store := by
  obtain ⟨deeds, does⟩ := reached.exists_does
  exact does.of_keeps begins keeps

theorem Reached.sound (reached : Reached store) : store.Sound :=
  reached.of_keeps sound_fresh fun _ _ => Deed.sound

end Store

end Marginalia
