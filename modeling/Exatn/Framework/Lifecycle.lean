import Mathlib.Data.List.Basic

/-!
# The lifecycle of the framework

`exatn::initialize` and `exatn::finalize` bring up and shut down the process's
single numerical server. The state is three globals: whether the framework is
initialised, whether it initialised MPI itself, and the server handle. The
build flag `MPI_ENABLED` is a parameter: with it, `initialize` calls
`MPI_Init_thread` and builds the server on `MPI_COMM_WORLD`, and a second
overload, declared only in this build, builds it on a communicator the caller
brings, leaving MPI to the caller; `finalize` calls `MPI_Finalize` only when the framework initialised MPI.
Without it, the server is built without a communicator and MPI is never
touched.

Each call is modelled with the external calls it makes, in program order, as
an effect trace. The asserted results (MPI's error codes, the provided thread
level, the server's `sync`) are taken to hold. Over every sequence of calls,
the framework's own `MPI_Init_thread` and `MPI_Finalize` calls alternate,
starting with an initialisation, and so do the server's creations and resets;
MPI is left initialised by the framework exactly when the alternation ends on an
initialisation. An initialise after a finalise calls `MPI_Init_thread` again.
-/

namespace Exatn

/-- The communicator a numerical server is built on. -/
inductive ServerComm
  /-- The `MPICommProxy` the caller passes. -/
  | given
  /-- `MPICommProxy(MPI_COMM_WORLD)`. -/
  | world
  /-- No communicator: the build without MPI. -/
  | serial
  deriving DecidableEq, Repr

/-- The external calls of the lifecycle functions. -/
inductive Effect
  /-- `serviceRegistry->initialize()`. -/
  | serviceRegistryInit
  /-- `MPI_Init_thread(NULL, NULL, MPI_THREAD_MULTIPLE, ...)`. -/
  | mpiInitThread
  /-- `std::make_shared<NumServer>(...)` on the given communicator. -/
  | makeNumServer (comm : ServerComm)
  /-- `numericalServer->sync()`. -/
  | sync
  /-- `numericalServer->sync(true, true)`. -/
  | syncAll
  /-- `numericalServer.reset()`. -/
  | resetNumServer
  /-- `MPI_Finalize()`. -/
  | mpiFinalize
  deriving DecidableEq, Repr

/-- Modelled from the spec: the globals are declared in a header that is not
among the sources. A process starts with a single empty server handle and the
framework not initialised. -/
structure Framework where
  exatnFrameworkInitialized : Bool
  exatnInitializedMPI : Bool
  numericalServer : Option ServerComm
  deriving DecidableEq, Repr

/-- The public lifecycle calls of a build with or without `MPI_ENABLED`:
`exatn::initialize` without a communicator and `exatn::finalize`, and, only in a
build with `MPI_ENABLED`, `exatn::initialize` with a communicator. -/
inductive LifecycleCall : Bool → Type
  | exatnInitializeWithCommunicator : LifecycleCall true
  | exatnInitialize {mpiEnabled : Bool} : LifecycleCall mpiEnabled
  | finalize {mpiEnabled : Bool} : LifecycleCall mpiEnabled

/-- Whether a call asks for the framework to be up: every call but `finalize`. -/
def LifecycleCall.initializes {mpiEnabled : Bool} : LifecycleCall mpiEnabled → Bool
  | .exatnInitializeWithCommunicator => true
  | .exatnInitialize => true
  | .finalize => false

/-- A call asks for the framework to be up exactly when it is not `finalize`. -/
theorem LifecycleCall.initializes_iff {mpiEnabled : Bool} (call : LifecycleCall mpiEnabled) :
    call.initializes = true ↔ call ≠ .finalize := by
  cases call <;> simp [initializes]

namespace Framework

/-- The state of a process before any lifecycle call. -/
def start : Framework := ⟨false, false, none⟩

/-- `isInitialized()`. -/
def isInitialized (s : Framework) : Bool := s.exatnFrameworkInitialized

/-- `exatn::initialize(communicator, parameters, ...)`: the server runs on the
caller's communicator, and MPI stays the caller's. -/
def exatnInitializeWithCommunicator (s : Framework) : Framework × List Effect :=
  if !s.exatnFrameworkInitialized then
    (⟨true, false, some .given⟩, [.serviceRegistryInit, .makeNumServer .given, .sync])
  else (s, [])

/-- `exatn::initialize(parameters, ...)`: with MPI, the framework initialises MPI
itself and runs the server on `MPI_COMM_WORLD`. -/
def exatnInitialize (mpiEnabled : Bool) (s : Framework) : Framework × List Effect :=
  if !s.exatnFrameworkInitialized then
    if mpiEnabled then
      (⟨true, true, some .world⟩, [.serviceRegistryInit, .mpiInitThread, .makeNumServer .world, .sync])
    else (⟨true, false, some .serial⟩, [.serviceRegistryInit, .makeNumServer .serial, .sync])
  else (s, [])

/-- `exatn::finalize()`: synchronise and drop the server, and finalise MPI when
the framework initialised it. -/
def finalize (mpiEnabled : Bool) (s : Framework) : Framework × List Effect :=
  if s.exatnFrameworkInitialized then
    if mpiEnabled && s.exatnInitializedMPI then
      (⟨false, false, none⟩, [.syncAll, .resetNumServer, .mpiFinalize])
    else (⟨false, s.exatnInitializedMPI, none⟩, [.syncAll, .resetNumServer])
  else (s, [])

/-- One lifecycle call: the next state and the external calls it makes. -/
def step (mpiEnabled : Bool) (s : Framework) : LifecycleCall mpiEnabled → Framework × List Effect
  | .exatnInitializeWithCommunicator => s.exatnInitializeWithCommunicator
  | .exatnInitialize => s.exatnInitialize mpiEnabled
  | .finalize => s.finalize mpiEnabled

/-- A sequence of lifecycle calls from `start`: the final state and the trace of
every external call. -/
def run (mpiEnabled : Bool) (calls : List (LifecycleCall mpiEnabled)) : Framework × List Effect :=
  calls.foldl (fun current call =>
    ((current.1.step mpiEnabled call).1, current.2 ++ (current.1.step mpiEnabled call).2))
    (start, [])

/-- A run with one more call steps once more from where the run ended, appending that call's effects. -/
theorem run_append_singleton (mpiEnabled : Bool) (calls : List (LifecycleCall mpiEnabled))
    (call : LifecycleCall mpiEnabled) :
    run mpiEnabled (calls ++ [call]) =
      (((run mpiEnabled calls).1.step mpiEnabled call).1,
        (run mpiEnabled calls).2 ++ ((run mpiEnabled calls).1.step mpiEnabled call).2) := by
  simp [run, List.foldl_append]

end Framework

/-- The role of an effect in a pair of calls that must come in turn: `true` opens,
`false` closes, `none` is unrelated. -/
def Effect.mpiRole : Effect → Option Bool
  | .mpiInitThread => some true
  | .mpiFinalize => some false
  | _ => none

/-- The server's creation opens its lifetime and its reset closes it. -/
def Effect.serverRole : Effect → Option Bool
  | .makeNumServer _ => some true
  | .resetNumServer => some false
  | _ => none

/-- `n` calls in turn, starting with an opening one. -/
def alternating (n : Nat) : List Bool := (List.range n).map fun i => i % 2 = 0

/-- The calls of a role in a trace come in turn, opening first, and the last one
left the role open exactly when `isOpen`. -/
def Alternates (role : Effect → Option Bool) (trace : List Effect) (isOpen : Bool) : Prop :=
  ∃ n, trace.filterMap role = alternating n ∧ decide (n % 2 = 1) = isOpen

section Alternation

variable {role : Effect → Option Bool} {trace : List Effect} {isOpen : Bool}

/-- The empty trace alternates, ending closed. -/
theorem alternates_nil : Alternates role [] false := ⟨0, rfl, rfl⟩

/-- Appending calls that leave the role as it was, or that switch it once. -/
theorem Alternates.append (alternates : Alternates role trace isOpen) (effects : List Effect)
    (after : Bool) (switched : effects.filterMap role = if after = isOpen then [] else [after]) :
    Alternates role (trace ++ effects) after := by
  obtain ⟨n, calls, parity⟩ := alternates
  unfold Alternates
  rw [List.filterMap_append, calls, switched]
  by_cases same : after = isOpen
  · exact ⟨n, by simp [same], by rw [same, parity]⟩
  · have flipped : after = decide (n % 2 = 0) := by
      rw [← parity] at same
      rcases Nat.mod_two_eq_zero_or_one n with even | odd <;> cases after <;> simp_all
    refine ⟨n + 1, by rw [if_neg same, flipped]; simp [alternating, List.range_succ], ?_⟩
    rw [flipped]
    exact decide_eq_decide.mpr (by omega)

end Alternation

namespace Framework

/-- What every reachable state keeps: the framework is initialised exactly while
the handle holds a server, and it has initialised MPI only in a build with MPI,
with the server on `MPI_COMM_WORLD`. -/
structure Consistent (mpiEnabled : Bool) (s : Framework) : Prop where
  initialized_server : s.exatnFrameworkInitialized = s.numericalServer.isSome
  mpi_world : s.exatnInitializedMPI = true → mpiEnabled = true ∧ s.numericalServer = some .world

/-- A process starts consistent. -/
theorem consistent_start (mpiEnabled : Bool) : start.Consistent mpiEnabled :=
  ⟨rfl, fun initialized => nomatch initialized⟩

variable {mpiEnabled : Bool} {s : Framework}

/-- Everything one lifecycle call can do: bring the framework up on the caller's
communicator, on `MPI_COMM_WORLD` after initialising MPI, or without MPI; bring
it down, finalising MPI or not; or nothing, when it is already in the state the
call asks for. -/
theorem step_cases (call : LifecycleCall mpiEnabled) :
    (s.exatnFrameworkInitialized = false ∧ call.initializes = true ∧ mpiEnabled = true ∧
      s.step mpiEnabled call =
        (⟨true, false, some .given⟩, [.serviceRegistryInit, .makeNumServer .given, .sync])) ∨
    (s.exatnFrameworkInitialized = false ∧ call.initializes = true ∧ mpiEnabled = true ∧
      s.step mpiEnabled call = (⟨true, true, some .world⟩,
        [.serviceRegistryInit, .mpiInitThread, .makeNumServer .world, .sync])) ∨
    (s.exatnFrameworkInitialized = false ∧ call.initializes = true ∧ mpiEnabled = false ∧
      s.step mpiEnabled call =
        (⟨true, false, some .serial⟩, [.serviceRegistryInit, .makeNumServer .serial, .sync])) ∨
    (s.exatnFrameworkInitialized = true ∧ call.initializes = false ∧
      (mpiEnabled && s.exatnInitializedMPI) = true ∧
      s.step mpiEnabled call = (⟨false, false, none⟩, [.syncAll, .resetNumServer, .mpiFinalize])) ∨
    (s.exatnFrameworkInitialized = true ∧ call.initializes = false ∧
      (mpiEnabled && s.exatnInitializedMPI) = false ∧
      s.step mpiEnabled call = (⟨false, s.exatnInitializedMPI, none⟩, [.syncAll, .resetNumServer])) ∨
    (s.exatnFrameworkInitialized = call.initializes ∧ s.step mpiEnabled call = (s, [])) := by
  cases call <;> cases initialized : s.exatnFrameworkInitialized <;>
    simp [step, exatnInitializeWithCommunicator, exatnInitialize, finalize, initialized,
      LifecycleCall.initializes]

/-- Every lifecycle call keeps the state consistent. -/
theorem Consistent.next (consistent : s.Consistent mpiEnabled) (call : LifecycleCall mpiEnabled) :
    (s.step mpiEnabled call).1.Consistent mpiEnabled := by
  obtain ⟨initializedServer, mpiWorld⟩ := consistent
  rcases step_cases call with ⟨-, -, -, moved⟩ | ⟨-, -, enabled, moved⟩ | ⟨-, -, -, moved⟩ |
    ⟨-, -, -, moved⟩ | ⟨-, -, kept, moved⟩ | ⟨-, moved⟩ <;> rw [moved]
  · exact ⟨rfl, fun initialized => nomatch initialized⟩
  · exact ⟨rfl, fun _ => ⟨enabled, rfl⟩⟩
  · exact ⟨rfl, fun initialized => nomatch initialized⟩
  · exact ⟨rfl, fun initialized => nomatch initialized⟩
  · refine ⟨rfl, fun initialized => absurd kept ?_⟩
    simp [(mpiWorld initialized).1, show s.exatnInitializedMPI = true from initialized]
  · exact ⟨initializedServer, mpiWorld⟩

/-- Only `exatn::initialize` without a communicator starts MPI, when it finds
the framework down in a build with MPI; only `finalize` stops it, when the
framework started it. -/
theorem mpiRole_step (consistent : s.Consistent mpiEnabled) (call : LifecycleCall mpiEnabled) :
    (s.step mpiEnabled call).2.filterMap Effect.mpiRole =
      if (s.step mpiEnabled call).1.exatnInitializedMPI = s.exatnInitializedMPI then []
      else [(s.step mpiEnabled call).1.exatnInitializedMPI] := by
  have down : s.exatnFrameworkInitialized = false → s.exatnInitializedMPI = false :=
    fun down => by
      cases mpi : s.exatnInitializedMPI
      · rfl
      · simp [consistent.initialized_server, (consistent.mpi_world mpi).2] at down
  rcases step_cases call with ⟨initialized, -, -, moved⟩ | ⟨initialized, -, -, moved⟩ |
    ⟨initialized, -, -, moved⟩ | ⟨-, -, finalized, moved⟩ | ⟨-, -, -, moved⟩ | ⟨-, moved⟩ <;>
    rw [moved] <;> simp_all [Effect.mpiRole]

/-- A server is made exactly when the framework comes up, and reset exactly when
it goes down. -/
theorem serverRole_step (consistent : s.Consistent mpiEnabled) (call : LifecycleCall mpiEnabled) :
    (s.step mpiEnabled call).2.filterMap Effect.serverRole =
      if (s.step mpiEnabled call).1.numericalServer.isSome = s.numericalServer.isSome then []
      else [(s.step mpiEnabled call).1.numericalServer.isSome] := by
  have server := consistent.initialized_server
  rcases step_cases call with ⟨initialized, -, -, moved⟩ | ⟨initialized, -, -, moved⟩ |
    ⟨initialized, -, -, moved⟩ | ⟨initialized, -, -, moved⟩ | ⟨initialized, -, -, moved⟩ |
    ⟨-, moved⟩ <;> rw [moved] <;> simp_all [Effect.serverRole]

/-- Every initialisation leaves the framework up and `finalize` leaves it down. -/
theorem isInitialized_step (call : LifecycleCall mpiEnabled) :
    (s.step mpiEnabled call).1.isInitialized = call.initializes := by
  rcases step_cases call with ⟨-, asked, -, moved⟩ | ⟨-, asked, -, moved⟩ | ⟨-, asked, -, moved⟩ |
    ⟨-, asked, -, moved⟩ | ⟨-, asked, -, moved⟩ | ⟨initialized, moved⟩ <;>
    rw [moved] <;> simp [isInitialized, *]

/-- Every run from the start keeps the state consistent, and its effects alternate for MPI and for the server. -/
theorem run_invariant (mpiEnabled : Bool) (calls : List (LifecycleCall mpiEnabled)) :
    (run mpiEnabled calls).1.Consistent mpiEnabled ∧
      Alternates Effect.mpiRole (run mpiEnabled calls).2 (run mpiEnabled calls).1.exatnInitializedMPI ∧
      Alternates Effect.serverRole (run mpiEnabled calls).2
        (run mpiEnabled calls).1.numericalServer.isSome := by
  induction calls using List.reverseRecOn with
  | nil => exact ⟨consistent_start mpiEnabled, alternates_nil, alternates_nil⟩
  | append_singleton calls call inductionHypothesis =>
    obtain ⟨consistent, mpiCalls, serverCalls⟩ := inductionHypothesis
    rw [run_append_singleton]
    exact ⟨consistent.next call, mpiCalls.append _ _ (mpiRole_step consistent call),
      serverCalls.append _ _ (serverRole_step consistent call)⟩

/-- Over every sequence of lifecycle calls, in a build with or without MPI, the
framework's own `MPI_Init_thread` and `MPI_Finalize` calls come in turn,
starting with an initialisation. MPI is left initialised by the framework
exactly when the last of them initialised it, which needs a build with MPI; the
framework never finalises an MPI it did not initialise. The server's creations
and resets come in turn too, a server is live exactly while `isInitialized()`
holds, and `isInitialized()` holds exactly when the last call initialised. -/
theorem lifecycle_calls_alternate (mpiEnabled : Bool) (calls : List (LifecycleCall mpiEnabled)) :
    Alternates Effect.mpiRole (run mpiEnabled calls).2
        (run mpiEnabled calls).1.exatnInitializedMPI ∧
      ((run mpiEnabled calls).1.exatnInitializedMPI = true → mpiEnabled = true) ∧
      Alternates Effect.serverRole (run mpiEnabled calls).2 (run mpiEnabled calls).1.isInitialized ∧
      ((run mpiEnabled calls).1.isInitialized = true ↔ ∃ call ∈ calls.getLast?, call ≠ .finalize) := by
  obtain ⟨consistent, mpiCalls, serverCalls⟩ := run_invariant mpiEnabled calls
  refine ⟨mpiCalls, fun initialized => (consistent.mpi_world initialized).1,
    by rw [isInitialized, consistent.initialized_server]; exact serverCalls, ?_⟩
  rcases List.eq_nil_or_concat calls with rfl | ⟨earlier, call, rfl⟩
  · simp [run, start, isInitialized]
  · simp [run_append_singleton, isInitialized_step, LifecycleCall.initializes_iff]

example : (run true [.exatnInitialize, .finalize, .exatnInitialize]).2.filterMap Effect.mpiRole =
    [true, false, true] := by decide

end Framework

end Exatn
