import Mathlib.Tactic

/-!
# Generators as context managers

Code that may suspend itself: it runs in a world `W`, yields values `Y`, and is resumed with
nothing or with an exception. A generator is such code, and a `with` statement enters one, runs its
block, and leaves it by the rules of `contextlib.contextmanager`: an exception of the block is
thrown into the generator, and a `StopIteration` that leaves a generator is wrapped.

* `Once`: **the code yields once, and ends as it is resumed**, and what it does to a view of the
  world it takes back.
* `Once.andThen`: what comes after such code, if it ends as the code did.
* `with_once`: **a `with` statement over such a generator does what its block does.**
-/

namespace Generators

/-! ## Exceptions -/

/-- Exceptions, told apart by their identity. -/
inductive Exn
  /-- an `Exception` of this class -/
  | exception (className : String) (object : ℕ)
  /-- a `BaseException` that is no `Exception` -/
  | baseException (className : String) (object : ℕ)
  | stopIteration (object : ℕ)
  /-- the `RuntimeError` that a generator raises from a `StopIteration` -/
  | raisedStopIteration (cause : Exn)
  /-- a `RuntimeError` of `contextlib` -/
  | runtimeError (message : String)
  deriving DecidableEq, Repr

/-- `isinstance(error, Exception)` -/
def Exn.isException : Exn → Bool
  | .baseException .. => false
  | _ => true

/-- `type(error).__name__` -/
def Exn.className : Exn → String
  | .exception className _ => className
  | .baseException className _ => className
  | .stopIteration _ => "StopIteration"
  | .raisedStopIteration _ => "RuntimeError"
  | .runtimeError _ => "RuntimeError"

/-- `isinstance(error, StopIteration)` -/
def Exn.isStop : Exn → Bool
  | .stopIteration _ => true
  | _ => false

/-- An exception as it leaves the frame of a generator. -/
def Exn.leave : Exn → Exn
  | .stopIteration object => .raisedStopIteration (.stopIteration object)
  | error => error

/-! ## Code that suspends itself -/

/-- Where code stands: at its end, or at a `yield`. -/
inductive Stage (W Y A : Type)
  | finished (result : Except Exn A) (world : W)
  | suspended (value : Y) (world : W) (resume : Option Exn → W → Stage W Y A)

/-- Code that ends with a value `A` or an exception. -/
def Code (W Y A : Type) := W → Stage W Y A

variable {W Y Z A B V : Type}

/-- Go on where the code ends. -/
def Stage.andThen : Stage W Y A → (Except Exn A → W → Stage W Y B) → Stage W Y B
  | .finished result world, next => next result world
  | .suspended value world resume, next =>
    .suspended value world fun sent world => (resume sent world).andThen next

namespace Code

/-- What runs without a `yield`. -/
def act (f : W → Except Exn A × W) : Code W Y A := fun world =>
  let (result, world) := f world
  .finished result world

def read (f : W → A) : Code W Y A := act fun world => (.ok (f world), world)

def modify (f : W → W) : Code W Y Unit := act fun world => (.ok (), f world)

def raise (error : Exn) : Code W Y A := fun world => .finished (.error error) world

/-- `yield value` -/
def yield (value : Y) : Code W Y Unit := fun world =>
  .suspended value world fun sent world =>
    match sent with
    | none => .finished (.ok ()) world
    | some error => .finished (.error error) world

instance : Monad (Code W Y) where
  pure a := fun world => .finished (.ok a) world
  bind m f := fun world => (m world).andThen fun result world =>
    match result with
    | .ok a => f a world
    | .error error => .finished (.error error) world

/-- `try: m except: h` for the exceptions that are caught -/
def tryExcept (m : Code W Y A) (catches : Exn → Bool) (h : Exn → Code W Y A) : Code W Y A :=
  fun world => (m world).andThen fun result world =>
    match result with
    | .ok a => .finished (.ok a) world
    | .error error => if catches error then h error world else .finished (.error error) world

/-- `try: m finally: f`, where `f` sees the exception that is propagating, if there is one. -/
def tryFinally (m : Code W Y A) (f : Option Exn → Code W Y Unit) : Code W Y A :=
  fun world => (m world).andThen fun result world =>
    let propagating := match result with
      | .ok _ => none
      | .error error => some error
    (f propagating world).andThen fun ended world =>
      match ended with
      | .ok _ => .finished result world
      | .error error => .finished (.error error) world

/-- The exception of `m` as a value. -/
def result (m : Code W Y A) : Code W Y (Except Exn A) := fun world =>
  (m world).andThen fun result world => .finished (.ok result) world

end Code

/-! ## Context managers -/

/-- `__exit__` of a generator that stands at its `yield`: whether it suppresses the exception. -/
def exit (resume : Option Exn → W → Stage W Y Unit) (value : Option Exn) (world : W) :
    Except Exn Bool × W :=
  match value, resume value world with
  | none, .finished (.ok _) world => (.ok false, world)
  | none, .finished (.error error) world => (.error error.leave, world)
  | none, .suspended _ world _ => (.error (.runtimeError "generator didn't stop"), world)
  | some _, .finished (.ok _) world => (.ok true, world)
  | some value, .finished (.error error) world =>
    -- the same exception, or the wrapper of the `StopIteration` that was thrown in
    if error.leave = value ∨ value.isStop ∧ error.leave = .raisedStopIteration value then
      (.ok false, world)
    else (.error error.leave, world)
  | some _, .suspended _ world _ =>
    (.error (.runtimeError "generator didn't stop after throw()"), world)

/-- `with generator() as value: block`; `none` is a block whose exception is suppressed. -/
def Code.within (generator : Code W Y Unit) (block : Y → Code W Z A) : Code W Z (Option A) :=
  fun world =>
    match generator world with
    | .finished (.ok _) world => .finished (.error (.runtimeError "generator didn't yield")) world
    | .finished (.error error) world => .finished (.error error.leave) world
    | .suspended value world resume =>
      (block value world).andThen fun result world =>
        match result with
        | .ok a =>
          match exit resume none world with
          | (.ok _, world) => .finished (.ok (some a)) world
          | (.error error, world) => .finished (.error error) world
        | .error error =>
          match exit resume (some error) world with
          | (.ok true, world) => .finished (.ok none) world
          | (.ok false, world) => .finished (.error error) world
          | (.error error, world) => .finished (.error error) world

/-! ## Code that yields once -/

/-- The end of code that was resumed with `sent`. -/
def ended (a : A) : Option Exn → Except Exn A
  | none => .ok a
  | some error => .error error

variable (view : W → V)

/-- **The stage is the only `yield`**: resumed with nothing the code ends with `a`, and resumed with
an exception it raises that; if the view of the world is again what it was at the `yield`, it is `v`
at the end. -/
def Once (v : V) (a : A) (stage : Stage W Y A) : Prop :=
  ∃ value world resume, stage = .suspended value world resume ∧
    ∀ sent world', ∃ world'', resume sent world' = .finished (ended a sent) world'' ∧
      (view world' = view world → view world'' = v)

/-- The code neither yields nor raises, and leaves the view alone. -/
def Quiet (m : Code W Y A) : Prop :=
  ∀ world, ∃ a world', m world = .finished (.ok a) world' ∧ view world' = view world

/-- The code does not yield, raises only what is caught, and leaves the view alone. -/
def Contained (catches : Exn → Bool) (m : Code W Y A) : Prop :=
  ∀ world, ∃ result world', m world = .finished result world' ∧ view world' = view world ∧
    ∀ error, result = .error error → catches error = true

/-- The code does not yield, raises `error`, and leaves the view alone. -/
def Raises (error : Exn) (m : Code W Y A) : Prop :=
  ∀ world, ∃ world', m world = .finished (.error error) world' ∧ view world' = view world

variable {view} {catches : Exn → Bool} {v v' : V} {a : A} {b : B} {stage : Stage W Y A} {world : W}

theorem quiet_pure : Quiet view (pure a : Code W Y A) := fun world => ⟨a, world, rfl, rfl⟩

theorem quiet_read {f : W → A} : Quiet view (Code.read f : Code W Y A) :=
  fun world => ⟨f world, world, rfl, rfl⟩

theorem quiet_modify {f : W → W} (h : ∀ world, view (f world) = view world) :
    Quiet view (Code.modify f : Code W Y Unit) :=
  fun world => ⟨(), f world, rfl, h world⟩

theorem Code.bind_of_finished {m : Code W Y A} {f : A → Code W Y B} {world' : W}
    (h : m world = .finished (.ok a) world') : (m >>= f) world = f a world' := by
  have hbind : (m >>= f) world = (m world).andThen fun result world =>
      match result with
      | .ok a => f a world
      | .error error => .finished (.error error) world := rfl
  rw [hbind, h]
  rfl

theorem Quiet.bind {m : Code W Y A} {f : A → Code W Y B} (hm : Quiet view m)
    (hf : ∀ a, Quiet view (f a)) : Quiet view (m >>= f) := by
  intro world
  obtain ⟨a, world₁, hrun, hview⟩ := hm world
  obtain ⟨b, world₂, hrun', hview'⟩ := hf a world₁
  refine ⟨b, world₂, ?_, hview'.trans hview⟩
  rw [Code.bind_of_finished hrun, hrun']

theorem raises_raise {error : Exn} : Raises view error (Code.raise error : Code W Y A) :=
  fun world => ⟨world, rfl, rfl⟩

theorem Raises.after {error : Exn} {m : Code W Y A} {f : A → Code W Y B} (hm : Quiet view m)
    (hf : ∀ a, Raises view error (f a)) : Raises view error (m >>= f) := by
  intro world
  obtain ⟨a, world₁, hrun, hview⟩ := hm world
  obtain ⟨world₂, hrun', hview'⟩ := hf a world₁
  refine ⟨world₂, ?_, hview'.trans hview⟩
  rw [Code.bind_of_finished hrun, hrun']

theorem Quiet.contained {m : Code W Y A} (hm : Quiet view m) : Contained view catches m := by
  intro world
  obtain ⟨a, world', hrun, hview⟩ := hm world
  exact ⟨.ok a, world', hrun, hview, fun error h => nomatch h⟩

theorem Contained.bind {m : Code W Y A} {f : A → Code W Y B} (hm : Contained view catches m)
    (hf : ∀ a, Contained view catches (f a)) : Contained view catches (m >>= f) := by
  intro world
  obtain ⟨result, world₁, hrun, hview, hcaught⟩ := hm world
  cases result with
  | ok a =>
    obtain ⟨result', world₂, hrun', hview', hcaught'⟩ := hf a world₁
    refine ⟨result', world₂, ?_, hview'.trans hview, hcaught'⟩
    rw [Code.bind_of_finished hrun, hrun']
  | error error =>
    refine ⟨.error error, world₁, ?_, hview, fun error' h => ?_⟩
    · have hbind : (m >>= f) world = (m world).andThen fun result world =>
          match result with
          | .ok a => f a world
          | .error error => .finished (.error error) world := rfl
      rw [hbind, hrun]
      rfl
    · cases h
      exact hcaught error rfl

/-- What is caught and handled in silence is not heard of. -/
theorem Contained.tryExcept {m : Code W Y A} {h : Exn → Code W Y A} (hm : Contained view catches m)
    (hh : ∀ error, Quiet view (h error)) : Quiet view (m.tryExcept catches h) := by
  intro world
  obtain ⟨result, world₁, hrun, hview, hcaught⟩ := hm world
  have htry : m.tryExcept catches h world = (m world).andThen fun result world =>
      match result with
      | .ok a => .finished (.ok a) world
      | .error error => if catches error then h error world else .finished (.error error) world := rfl
  cases result with
  | ok a =>
    refine ⟨a, world₁, ?_, hview⟩
    rw [htry, hrun]
    rfl
  | error error =>
    obtain ⟨a, world₂, hrun', hview'⟩ := hh error world₁
    refine ⟨a, world₂, ?_, hview'.trans hview⟩
    rw [htry, hrun, Stage.andThen]
    dsimp only
    rw [if_pos (hcaught error rfl), hrun']

/-- What comes after the code, if it ends as the code did. -/
theorem Once.andThen {next : Except Exn A → W → Stage W Y B} (h : Once view v a stage)
    (hnext : ∀ sent world, ∃ world', next (ended a sent) world = .finished (ended b sent) world' ∧
      (view world = v → view world' = v')) : Once view v' b (stage.andThen next) := by
  obtain ⟨value, world, resume, rfl, hresume⟩ := h
  refine ⟨value, world, _, rfl, fun sent world' => ?_⟩
  obtain ⟨world₁, hend, hview⟩ := hresume sent world'
  obtain ⟨world₂, hend', hview'⟩ := hnext sent world₁
  refine ⟨world₂, ?_, fun hsame => hview' (hview hsame)⟩
  rw [hend]
  exact hend'

theorem once_yield {value : Y} : Once view (view world) () (Code.yield value world) := by
  refine ⟨value, world, _, rfl, fun sent world' => ⟨world', ?_, id⟩⟩
  cases sent with
  | none => rfl
  | some error => rfl

/-- Quiet code before the one that yields. -/
theorem Once.after {m : Code W Y A} {f : A → Code W Y B} (hm : Quiet view m)
    (hf : ∀ a world', view world' = view world → Once view v b (f a world')) :
    Once view v b ((m >>= f) world) := by
  obtain ⟨a, world', hrun, hview⟩ := hm world
  rw [Code.bind_of_finished hrun]
  exact hf a world' hview

/-- Code whose value is another. -/
theorem Once.map {m : Code W Y A} {f : A → B} (h : Once view v a (m world)) :
    Once view v (f a) ((m >>= fun a => pure (f a)) world) := by
  refine h.andThen fun sent world => ⟨world, ?_, id⟩
  cases sent with
  | none => rfl
  | some error => rfl

/-- A handler that raises what it caught. -/
theorem Once.tryExcept {m : Code W Y A} {h : Exn → Code W Y A}
    (hm : Once view v a (m world)) (hh : ∀ error, Raises view error (h error)) :
    Once view v a (m.tryExcept catches h world) := by
  refine hm.andThen fun sent world => ?_
  cases sent with
  | none => exact ⟨world, rfl, id⟩
  | some error =>
    dsimp only [ended]
    split
    · obtain ⟨world', hrun, hview⟩ := hh error world
      exact ⟨world', hrun, hview.trans⟩
    · exact ⟨world, rfl, id⟩

/-- A final block that does not raise. -/
theorem Once.tryFinally {m : Code W Y A} {f : Option Exn → Code W Y Unit}
    (hm : Once view v a (m world))
    (hf : ∀ propagating world, ∃ world', f propagating world = .finished (.ok ()) world' ∧
      (view world = v → view world' = v')) : Once view v' a (m.tryFinally f world) := by
  refine hm.andThen fun sent world => ?_
  cases sent with
  | none =>
    obtain ⟨world', hrun, hview⟩ := hf none world
    refine ⟨world', ?_, hview⟩
    dsimp only [ended]
    rw [hrun]
    rfl
  | some error =>
    obtain ⟨world', hrun, hview⟩ := hf (some error) world
    refine ⟨world', ?_, hview⟩
    dsimp only [ended]
    rw [hrun]
    rfl

/-- A final block that is quiet. -/
theorem Once.tryQuietly {m : Code W Y A} {f : Option Exn → Code W Y Unit}
    (hm : Once view v a (m world)) (hf : ∀ propagating, Quiet view (f propagating)) :
    Once view v a (m.tryFinally f world) := by
  refine hm.tryFinally fun propagating world => ?_
  obtain ⟨_, world', hrun, hview⟩ := hf propagating world
  exact ⟨world', hrun, hview.trans⟩

/-! ## `with` over such a generator -/

/-- Its `__exit__` neither raises nor suppresses. -/
theorem exit_of_ended {resume : Option Exn → W → Stage W Y Unit} {sent : Option Exn} {world' : W}
    (h : resume sent world = .finished (ended () sent) world') :
    exit resume sent world = (.ok false, world') := by
  unfold exit
  rw [h]
  cases sent with
  | none => rfl
  | some error =>
    have hsame : error.leave = error ∨ error.isStop ∧ error.leave = .raisedStopIteration error := by
      cases error with
      | stopIteration object => exact Or.inr ⟨rfl, rfl⟩
      | exception className object => exact Or.inl rfl
      | baseException className object => exact Or.inl rfl
      | raisedStopIteration cause => exact Or.inl rfl
      | runtimeError message => exact Or.inl rfl
    exact if_pos hsame

section Within

variable {generator : Code W Y Unit} (hgenerator : Once view v () (generator world))
include hgenerator

/-- **A `with` statement does what its block does**: the block runs once, the statement ends as it
does, and the view of the world is what the generator leaves. -/
theorem within_finished {block : Y → Code W Z A}
    (hblock : ∀ value world, ∃ result world', block value world = .finished result world' ∧
      view world' = view world) :
    ∃ value world₁ result world₂ world₃, block value world₁ = .finished result world₂ ∧
      Code.within generator block world = .finished (result.map some) world₃ ∧ view world₃ = v := by
  obtain ⟨value, world₁, resume, hstage, hresume⟩ := hgenerator
  obtain ⟨result, world₂, hrun, hview⟩ := hblock value world₁
  unfold Code.within
  rw [hstage]
  dsimp only
  rw [hrun, Stage.andThen]
  cases result with
  | ok a =>
    obtain ⟨world₃, hend, hafter⟩ := hresume none world₂
    refine ⟨value, world₁, .ok a, world₂, world₃, hrun, ?_, hafter hview⟩
    dsimp only
    rw [exit_of_ended hend]
    rfl
  | error error =>
    obtain ⟨world₃, hend, hafter⟩ := hresume (some error) world₂
    refine ⟨value, world₁, .error error, world₂, world₃, hrun, ?_, hafter hview⟩
    dsimp only
    rw [exit_of_ended hend]
    rfl

/-- A block that yields once makes the statement yield once. -/
theorem Once.within {block : Y → Code W Z A}
    (hblock : ∀ value world, Once view (view world) a (block value world)) :
    Once view v (some a) (Code.within generator block world) := by
  obtain ⟨value, world₁, resume, hstage, hresume⟩ := hgenerator
  unfold Code.within
  rw [hstage]
  refine (hblock value world₁).andThen fun sent world => ?_
  obtain ⟨world', hend, hafter⟩ := hresume sent world
  refine ⟨world', ?_, hafter⟩
  cases sent with
  | none =>
    dsimp only [ended]
    rw [exit_of_ended hend]
  | some error =>
    dsimp only [ended]
    rw [exit_of_ended hend]

end Within

end Generators
