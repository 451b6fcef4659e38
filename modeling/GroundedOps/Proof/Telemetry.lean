import GroundedOps.Spec.Telemetry

/-!
# Telemetry is transparent

* `quiet_bestEffort`, `quiet_openSpan`: what raises is caught where it is called.
* `safeSpan_once`, `operation_once`: each of the two generators yields once, ends as it is resumed,
  and takes back what it does to the current context.
* `operation_transparent`: **a body does inside an operation what it does without telemetry**, and
  the current context afterwards is the one before.
-/

namespace GroundedOps

open Generators

namespace Telemetry

variable {telemetry : Telemetry} {call : OperationCall} {context : TelemetryContext}
  {world : TelemetryWorld} {observation : ℕ} {span : Option ℕ} {started : ℚ} {Y : Type}

/-- The code leaves the current context alone, and neither yields nor raises. -/
abbrev Silent {A : Type} (m : Code TelemetryWorld Y A) : Prop := Quiet TelemetryWorld.current m

/-- The code yields once, and the current context is the same at its end as at its start. -/
abbrev Restores (m : Code TelemetryWorld Y Unit) : Prop :=
  ∀ world, Once TelemetryWorld.current world.current () (m world)

/-! ## What is caught -/

theorem contained_call (c : TelemetryCall) :
    Contained TelemetryWorld.current Exn.isException
      (telemetry.call c : Code TelemetryWorld Y Unit) := by
  intro world
  unfold call Code.act
  dsimp only
  cases hraises : telemetry.raises (world.calls ++ [c]) with
  | none => exact ⟨_, _, rfl, rfl, fun error h => nomatch h⟩
  | some error =>
    refine ⟨_, _, rfl, rfl, fun error' h => ?_⟩
    cases h
    exact telemetry.raises_exception _ _ hraises

theorem quiet_bestEffort (c : TelemetryCall) :
    Silent (bestEffort (telemetry.call c) : Code TelemetryWorld Y Unit) :=
  (contained_call c).tryExcept fun _ => quiet_pure

theorem quiet_openSpan {operation : TelemetryOperation} :
    Silent (telemetry.openSpan operation : Code TelemetryWorld Y (Option (ℕ × Option ℕ))) := by
  refine Contained.tryExcept ?_ fun _ => quiet_pure
  refine quiet_read.contained.bind fun manager => ?_
  refine (contained_call _).bind fun _ => ?_
  refine (contained_call _).bind fun _ => ?_
  exact (quiet_read.bind fun _ => quiet_pure).contained

theorem quiet_spanAttribute {name value : String} :
    Silent (telemetry.spanAttribute span name value : Code TelemetryWorld Y Unit) := by
  cases span with
  | none => exact quiet_pure
  | some span => exact quiet_bestEffort _

theorem quiet_spanStatus : Silent (telemetry.spanStatus span : Code TelemetryWorld Y Unit) := by
  cases span with
  | none => exact quiet_pure
  | some span => exact quiet_bestEffort _

theorem quiet_readClock : Silent (telemetry.readClock : Code TelemetryWorld Y ℚ) :=
  fun _ => ⟨_, _, rfl, rfl⟩

theorem quiet_newObservation : Silent (newObservation : Code TelemetryWorld Y ℕ) :=
  fun _ => ⟨_, _, rfl, rfl⟩

theorem quiet_observe {f : ObservationCell → ObservationCell} :
    Silent (observe observation f : Code TelemetryWorld Y Unit) :=
  quiet_modify fun _ => rfl

theorem quiet_emit :
    Silent (telemetry.emit call context observation started : Code TelemetryWorld Y Unit) := by
  refine quiet_readClock.bind fun ended => ?_
  refine quiet_read.bind fun cell => ?_
  refine (quiet_bestEffort _).bind fun _ => ?_
  exact (quiet_bestEffort _).bind fun _ => quiet_bestEffort _

/-! ## The generators -/

/-- **`_safe_span` yields once**, whether the span is there or not. -/
theorem safeSpan_once (operation : TelemetryOperation) : Restores (telemetry.safeSpan operation) := by
  intro world
  refine Once.after quiet_openSpan fun opened world₁ hcurrent => ?_
  rw [← hcurrent]
  cases opened with
  | none => exact once_yield
  | some opened =>
    -- closing the span raises nothing, whatever is propagating
    exact once_yield.tryQuietly fun businessError => quiet_bestEffort _

/-- The block inside the span yields once: what it catches it raises again. -/
theorem observing_once (span : Option ℕ) :
    Restores (telemetry.observing call context observation span) := by
  intro world
  refine Once.after quiet_spanAttribute fun _ world₁ h₁ => ?_
  refine Once.after quiet_spanAttribute fun _ world₂ h₂ => ?_
  refine Once.after quiet_spanAttribute fun _ world₃ h₃ => ?_
  rw [← h₁, ← h₂, ← h₃]
  refine Once.tryQuietly (once_yield.tryExcept fun error => ?_) fun _ => ?_
  · refine Raises.after quiet_observe fun _ => ?_
    refine Raises.after quiet_spanStatus fun _ => ?_
    exact Raises.after quiet_spanAttribute fun _ => raises_raise
  · refine quiet_read.bind fun cell => quiet_spanAttribute.bind fun _ => ?_
    split
    · exact quiet_spanStatus
    · exact quiet_pure

/-- What is between the start of an operation and its end. -/
theorem spanned_once {current : Option TelemetryContext} (hcurrent : world.current = current) :
    Once TelemetryWorld.current current () ((do
      let _ ← Code.within (telemetry.safeSpan call.operation)
        (telemetry.observing call context observation)
      return () : Code TelemetryWorld ℕ Unit) world) := by
  have hwithin : Once TelemetryWorld.current world.current (some ())
      (Code.within (telemetry.safeSpan call.operation)
        (telemetry.observing call context observation) world) :=
    Once.within (safeSpan_once call.operation world) fun span world => observing_once span world
  rw [hcurrent] at hwithin
  exact hwithin.map

/-- A new context becomes the current one. -/
theorem bindNew_run (call : OperationCall) (world : TelemetryWorld) :
    ∃ context world', (telemetry.bindNew call : Code TelemetryWorld Y TelemetryContext) world =
      .finished (.ok context) world' ∧ world'.current = some context :=
  ⟨_, _, rfl, rfl⟩

/-- **`operation` yields once**, and the current context is in the end what it was. -/
theorem operation_once (call : OperationCall) : Restores (telemetry.operation call) := by
  intro world
  unfold operation
  have hread : (Code.read TelemetryWorld.current : Code TelemetryWorld ℕ _) world =
    .finished (.ok world.current) world := rfl
  rw [Code.bind_of_finished hread]
  cases hcurrent : world.current with
  | some context =>
    -- the operation runs in the context it finds, and leaves it alone
    refine Once.after quiet_pure fun context world₁ h₁ => ?_
    refine Once.after quiet_newObservation fun observation world₂ h₂ => ?_
    refine Once.after quiet_readClock fun started world₃ h₃ => ?_
    have hbefore : world₃.current = some _ := h₃.trans (h₂.trans (h₁.trans hcurrent))
    exact (spanned_once hbefore).tryQuietly fun _ => quiet_emit.bind fun _ => quiet_pure
  | none =>
    -- the operation binds a context of its own, and takes it back in the end
    obtain ⟨context, world₀, hbind, -⟩ : ∃ context world₀,
        (telemetry.bindNew call : Code TelemetryWorld ℕ _) world = .finished (.ok context) world₀ ∧ _ :=
      bindNew_run call world
    dsimp only
    rw [Code.bind_of_finished hbind]
    refine Once.after quiet_newObservation fun observation world₂ h₂ => ?_
    refine Once.after quiet_readClock fun started world₃ h₃ => ?_
    refine (spanned_once rfl).tryFinally fun _ world' => ?_
    obtain ⟨_, world₄, hrun, -⟩ :=
      (quiet_emit : Silent (telemetry.emit call context observation started : Code _ ℕ _)) world'
    refine ⟨{ world₄ with current := none }, ?_, fun _ => rfl⟩
    rw [Code.bind_of_finished hrun]
    rfl

theorem bind_once (context : TelemetryContext) : Restores (bind context) := by
  intro world
  unfold bind
  have hread : (Code.read TelemetryWorld.current : Code TelemetryWorld TelemetryContext _) world =
    .finished (.ok world.current) world := rfl
  have hset : (setCurrent (some context) : Code TelemetryWorld TelemetryContext Unit) world =
    .finished (.ok ()) { world with current := some context } := rfl
  rw [Code.bind_of_finished hread, Code.bind_of_finished hset]
  refine Once.tryFinally once_yield fun _ world' => ?_
  exact ⟨{ world' with current := world.current }, rfl, fun _ => rfl⟩

end Telemetry

/-! ## Bodies -/

section Bodies

variable {A : Type} {telemetry : Telemetry}

/-- A `with` statement as a value, over a generator that restores the context and a block that
does. -/
theorem within_plain {Y : Type} {generator : Code TelemetryWorld Y Unit}
    (hgenerator : Telemetry.Restores generator) {block : Y → Code TelemetryWorld Empty A}
    {plain : Except Exn A}
    (hblock : ∀ value world, ∃ world', block value world = .finished plain world' ∧
      world'.current = world.current) (world : TelemetryWorld) :
    ∃ world', Code.within generator block world = .finished (plain.map some) world' ∧
      world'.current = world.current := by
  have hfinished : ∀ value world, ∃ result world', block value world = .finished result world' ∧
      world'.current = world.current := by
    intro value world
    obtain ⟨world', hrun, hcurrent⟩ := hblock value world
    exact ⟨plain, world', hrun, hcurrent⟩
  obtain ⟨value, world₁, result, world₂, world₃, hrun, hwithin, hcurrent⟩ :=
    within_finished (hgenerator world) hfinished
  obtain ⟨world', hrun', -⟩ := hblock value world₁
  rw [hrun] at hrun'
  cases hrun'
  exact ⟨world₃, hwithin, hcurrent⟩

/-- What goes on after a `with` statement goes on after what its block ended with. -/
theorem within_then {Y : Type} {generator : Code TelemetryWorld Y Unit}
    (hgenerator : Telemetry.Restores generator) {block : Y → Code TelemetryWorld Empty A}
    {plain ending : Except Exn A} {rest : Except Exn (Option A) → Code TelemetryWorld Empty A}
    (hblock : ∀ value world, ∃ world', block value world = .finished plain world' ∧
      world'.current = world.current)
    (hrest : ∀ world, ∃ world', rest (plain.map some) world = .finished ending world' ∧
      world'.current = world.current) (world : TelemetryWorld) :
    ∃ world', ((Code.within generator block).result >>= rest) world = .finished ending world' ∧
      world'.current = world.current := by
  obtain ⟨world₁, hrun, hcurrent⟩ := within_plain hgenerator hblock world
  obtain ⟨world₂, hrun', hcurrent'⟩ := hrest world₁
  have hresult : (Code.within generator block).result world = .finished (.ok (plain.map some)) world₁ := by
    unfold Code.result
    rw [hrun]
    rfl
  refine ⟨world₂, ?_, hcurrent'.trans hcurrent⟩
  rw [Code.bind_of_finished hresult, hrun']

theorem quiet_assign {observations : List ℕ} {depth : ℕ} {outcome : TelemetryOutcome} :
    Telemetry.Silent (Body.assign observations depth outcome) := by
  unfold Body.assign
  split
  · exact Telemetry.quiet_observe
  · exact quiet_pure

/-- **A body does what it does without telemetry**, and leaves the current context as it was. -/
theorem body_plain (body : Body A) : ∀ (observations : List ℕ) (world : TelemetryWorld),
    ∃ world', body.code telemetry observations world = .finished body.plain world' ∧
      world'.current = world.current := by
  induction body with
  | done result => exact fun _ world => ⟨world, rfl, rfl⟩
  | setOutcome depth outcome rest ih =>
    intro observations world
    obtain ⟨_, world₁, hrun, hcurrent⟩ := quiet_assign world
    obtain ⟨world₂, hrun', hcurrent'⟩ := ih observations world₁
    refine ⟨world₂, ?_, hcurrent'.trans hcurrent⟩
    have hcode : (Body.setOutcome depth outcome rest).code telemetry observations =
      Body.assign observations depth outcome >>= fun _ => rest.code telemetry observations := rfl
    rw [hcode, Code.bind_of_finished hrun, hrun']
    rfl
  | operation call inner rest ih ihrest =>
    intro observations world
    exact within_then (Telemetry.operation_once call) (fun observation => ih _)
      (ihrest _ observations) world
  | bind context inner rest ih ihrest =>
    intro observations world
    exact within_then (Telemetry.bind_once context) (fun _ => ih observations)
      (ihrest _ observations) world

/-- **Telemetry is transparent.** Whatever the calls of a telemetry raise, `operation` yields once
and ends as it is resumed, a body inside it ends as it does without telemetry, and the current
context afterwards is the one before. -/
theorem operation_transparent (telemetry : Telemetry) (call : OperationCall) (body : Body A)
    (observations : List ℕ) (world : TelemetryWorld) :
    Once TelemetryWorld.current world.current () (telemetry.operation call world) ∧
      ∃ world', Code.within (telemetry.operation call)
          (fun observation => body.code telemetry (observation :: observations)) world =
            .finished (body.plain.map some) world' ∧
        world'.current = world.current :=
  ⟨Telemetry.operation_once call world,
    within_plain (Telemetry.operation_once call) (fun _ => body_plain body _) world⟩

end Bodies

end GroundedOps
