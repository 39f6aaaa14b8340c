import Marginalia.Eval

/-!
# What an action comes to

`x.after machine` is the machine that the action `x` leaves behind, whether it succeeds or not.

`x.Meets machine ends stops` says how the action may come out on the machine: it ends well with a
result and a machine that `ends` admits, or it stops with a fault and a machine that `stops` admits.
The rules below follow the ways in which actions are put together.
-/

namespace Marginalia

namespace Action

variable {α β : Type} {machine : Machine}

/-- The machine that an action leaves behind, whether it succeeds or not. -/
def after (action : Action α) (machine : Machine) : Machine :=
  match action machine with
  | .ok _ after | .error _ after => after

section Bind

variable {x : Action α} {f : α → Action β} {a : α} {b : β} {fault : Fault} {middle last : Machine}

theorem bind_of_ok (run : x machine = .ok a middle) : (x >>= f) machine = f a middle := by
  change EStateM.bind x f machine = _
  rw [EStateM.bind, run]

theorem bind_of_error (run : x machine = .error fault middle) :
    (x >>= f) machine = .error fault middle := by
  change EStateM.bind x f machine = _
  rw [EStateM.bind, run]

theorem exists_of_bind (run : (x >>= f) machine = .ok b last) :
    ∃ a middle, x machine = .ok a middle ∧ f a middle = .ok b last := by
  cases first : x machine with
  | error fault middle =>
    rw [bind_of_error first] at run
    cases run
  | ok a middle =>
    rw [bind_of_ok first] at run
    exact ⟨a, middle, rfl, run⟩

end Bind

theorem consult_of_ok {query : Store → Except Fault α} {a : α}
    (found : query machine.store = .ok a) : consult query machine = .ok a machine := by
  have looked : (get : Action Machine) machine = .ok machine machine := rfl
  rw [consult, bind_of_ok looked]
  simp only [found]
  rfl

theorem consult_of_error {query : Store → Except Fault α} {fault : Fault}
    (failed : query machine.store = .error fault) :
    consult query machine = .error fault machine := by
  have looked : (get : Action Machine) machine = .ok machine machine := rfl
  rw [consult, bind_of_ok looked]
  simp only [failed]
  rfl

/-! ## Results and faults -/

variable {ends : α → Machine → Prop} {finishes : β → Machine → Prop}
  {stops : Fault → Machine → Prop}

/-- On the machine the action ends well as `ends` says, or it stops as `stops` says. -/
def Meets (action : Action α) (machine : Machine) (ends : α → Machine → Prop)
    (stops : Fault → Machine → Prop) : Prop :=
  match action machine with
  | .ok result last => ends result last
  | .error fault last => stops fault last

theorem meets_pure {a : α} (holds : ends a machine) : Meets (pure a) machine ends stops :=
  holds

theorem meets_throw {fault : Fault} (holds : stops fault machine) :
    Meets (throw fault) machine ends stops :=
  holds

theorem Meets.bind {x : Action α} {f : α → Action β} (first : Meets x machine ends stops)
    (next : ∀ a middle, ends a middle → Meets (f a) middle finishes stops) :
    Meets (x >>= f) machine finishes stops := by
  unfold Meets at first ⊢
  cases run : x machine with
  | error fault middle =>
    rw [run] at first
    rw [bind_of_error run]
    exact first
  | ok a middle =>
    rw [run] at first
    rw [bind_of_ok run]
    exact next a middle first

theorem Meets.mono {x : Action α} {ends' : α → Machine → Prop} {stops' : Fault → Machine → Prop}
    (meets : Meets x machine ends stops) (ended : ∀ a last, ends a last → ends' a last)
    (stopped : ∀ fault last, stops fault last → stops' fault last) :
    Meets x machine ends' stops' := by
  unfold Meets at meets ⊢
  cases run : x machine with
  | error fault last =>
    rw [run] at meets
    exact stopped fault last meets
  | ok a last =>
    rw [run] at meets
    exact ended a last meets

theorem Meets.of_ok {x : Action α} {a : α} {last : Machine} (meets : Meets x machine ends stops)
    (ran : x machine = .ok a last) : ends a last := by
  rwa [Meets, ran] at meets

theorem Meets.of_error {x : Action α} {fault : Fault} {last : Machine}
    (meets : Meets x machine ends stops) (ran : x machine = .error fault last) :
    stops fault last := by
  rwa [Meets, ran] at meets

/-- An action in another scope comes back to the one it left. -/
theorem meets_within {scope : ScopeId} {action : Action α}
    (inside : Meets action { machine with scope }
      (fun a last => ends a { last with scope := machine.scope })
      (fun fault last => stops fault { last with scope := machine.scope })) :
    Meets (within scope action) machine ends stops := by
  unfold Meets within at *
  cases run : action { machine with scope } with
  | error fault last =>
    rw [run] at inside
    exact inside
  | ok a last =>
    rw [run] at inside
    exact inside

/-- A question to the store leaves the machine alone. -/
theorem meets_consult {query : Store → Except Fault α}
    (found : ∀ a, query machine.store = .ok a → ends a machine)
    (failed : ∀ fault, query machine.store = .error fault → stops fault machine) :
    Meets (consult query) machine ends stops := by
  unfold Meets
  cases answer : query machine.store with
  | ok a =>
    rw [consult_of_ok answer]
    exact found a answer
  | error fault =>
    rw [consult_of_error answer]
    exact failed fault answer

/-- A name is read, or it is too deep. -/
theorem meets_checkName (limits : Limits) (name : String) {ends : Unit → Machine → Prop}
    (holds : ends () machine) (deep : stops .tooDeep machine) :
    Meets (limits.checkName name) machine ends stops := by
  unfold Limits.checkName Limits.checkSpelling
  cases Pattern.read limits.depth name.toList with
  | ok pattern => exact holds
  | error fault =>
    cases fault with
    | tooDeep => exact deep
    | malformed => exact holds

/-- What holds of the machine however the action comes out holds of the machine it leaves. -/
theorem Meets.after {x : Action α} {holds : Machine → Prop}
    (meets : Meets x machine (fun _ => holds) fun _ => holds) : holds (x.after machine) := by
  unfold Meets at meets
  unfold Action.after
  cases run : x machine with
  | error fault last =>
    rw [run] at meets
    exact meets
  | ok a last =>
    rw [run] at meets
    exact meets

end Action

end Marginalia
