import Behh.Interfaces.ScyllaDb
import Behh.Library.Runs
import Mathlib.Data.List.TakeWhile

/-!
# Several ScyllaDB objects in one process

Every object has its own handles, but all share the static `m_connection`, which each
initialisation overwrites. The getters read the static record, and so does the callback that
answers an authentication request, whichever session it is for; the pointer that was handed over
with the callback is not looked at.

So an object keeps its own data exactly as long as the objects initialised after it are given the
same.

## Main definitions

* `Instances`, `Event`, `step`: the objects of a process and what can happen to them.
* `Isolated`: every object reports, and authenticates with, what it was initialised with.
* `Agrees`: an initialisation that changes nothing for the other objects.

## Main results

* `isolated_step_iff`: when one step keeps the objects isolated.
* `isolated_iff`: the runs in which the objects stay isolated.
-/

namespace Behh.ScyllaIsolation

variable {ι : Type} [DecidableEq ι]

/-- The objects derived from `IScyllaDbCoreInterface` in a process. -/
structure Instances (ι : Type) where
  /-- The static `m_connection`. -/
  connection : ScylladbConnection := {}
  /-- The members of each object. -/
  objects : ι → CassHandles := fun _ => {}
  /-- The number of the next handle. -/
  next : ℕ := 0
  /-- The calls of the driver so far. -/
  calls : List CassCall := []
  /-- What each object was last initialised with; no code reads it. -/
  given : ι → Option ScylladbConnection := fun _ => none

/-- The process as an object sees it. -/
def Instances.view (w : Instances ι) (o : ι) : Scylla where
  connection := w.connection
  self := w.objects o
  next := w.next
  calls := w.calls

/-- What can happen. -/
inductive Event (ι : Type) where
  /-- `initialize_constructor` of an object, with what `cass_future_error_code` returns. -/
  | initializeConstructor (o : ι) (connection : ScylladbConnection) (code : ℤ)
  /-- `get_keyspace` of an object. -/
  | getKeyspace (o : ι)
  /-- `get_auth_mode` of an object. -/
  | getAuthMode (o : ι)
  /-- `get_topology_strat` of an object. -/
  | getTopologyStrat (o : ι)
  /-- The driver has the session of an object authenticated. -/
  | authenticate (o : ι)

/-- The process after an object has been initialised and its members and the shared data are those
of `s`. -/
def Instances.initialised (w : Instances ι) (o : ι) (connection : ScylladbConnection)
    (s : Scylla) : Instances ι where
  connection := s.connection
  objects := Function.update w.objects o s.self
  next := s.next
  calls := s.calls
  given := Function.update w.given o (some connection)

/-- One event. Getters and the callback change nothing. -/
def step (w : Instances ι) : Event ι → Instances ι
  | .initializeConstructor o connection code =>
    match Scylla.initializeConstructor connection code (w.view o) with
    | some (_, s) => w.initialised o connection s
    | none => w
  | .getKeyspace _ | .getAuthMode _ | .getTopologyStrat _ | .authenticate _ => w

/-! ### Isolation -/

/-- An object that sees the process as `s` reports the data in `connection`, and answers with the
credentials in it when its session has been connected. -/
structure Reports (buffer : ResponseBuffer) (s : Scylla) (connection : ScylladbConnection) :
    Prop where
  /-- The keyspace. -/
  keyspace : s.getKeyspace = connection.keyspace
  /-- The authentication mode. -/
  authMode : s.getAuthMode = connection.authMode
  /-- The replication strategy. -/
  topologyStrat : s.getTopologyStrat = connection.strategy
  /-- The answer to an authentication request. -/
  answer : s.self.cassFuture ≠ none → (onAuthInitialize buffer s.connection : Prog Unit Bytes) =
    pure (plainResponse connection.username connection.password)

/-- Every object reports what it was initialised with. -/
def Isolated (buffer : ResponseBuffer) (w : Instances ι) : Prop :=
  ∀ o connection, w.given o = some connection → Reports buffer (w.view o) connection

/-- An initialisation agrees with the data of all other objects: the keyspace, the modes, and the
credentials of those whose session has been connected. -/
def Agrees (w : Instances ι) : Event ι → Prop
  | .initializeConstructor o c _ => ∀ o' ≠ o, ∀ c', w.given o' = some c' →
      c.keyspace = c'.keyspace ∧ c.authMode = c'.authMode ∧ c.strategy = c'.strategy ∧
        ((w.objects o').cassFuture ≠ none →
          cString c.username = cString c'.username ∧ cString c.password = cString c'.password)
  | .getKeyspace _ | .getAuthMode _ | .getTopologyStrat _ | .authenticate _ => True

/-- What an object reports is in the static record. -/
theorem reports_iff {buffer : ResponseBuffer} {s : Scylla} {c : ScylladbConnection} :
    Reports buffer s c ↔ s.connection.keyspace = c.keyspace ∧
      s.connection.authMode = c.authMode ∧ s.connection.strategy = c.strategy ∧
        (s.self.cassFuture ≠ none → cString s.connection.username = cString c.username ∧
          cString s.connection.password = cString c.password) := by
  have hanswer : (onAuthInitialize buffer s.connection : Prog Unit Bytes) =
      pure (plainResponse c.username c.password) ↔
        cString s.connection.username = cString c.username ∧
          cString s.connection.password = cString c.password := by
    rw [onAuthInitialize_eq, ← plainResponse_inj]
    constructor
    · intro h
      have hpair := congrFun h ()
      simpa using hpair
    · intro h
      rw [h]
  constructor
  · intro h
    exact ⟨h.keyspace, h.authMode, h.topologyStrat, fun hc => hanswer.1 (h.answer hc)⟩
  · rintro ⟨hkeyspace, hauthMode, hstrategy, hcredentials⟩
    exact ⟨hkeyspace, hauthMode, hstrategy, fun hc => hanswer.2 (hcredentials hc)⟩

theorem connection_initializeConstructor (connection : ScylladbConnection) (code : ℤ)
    (s : Scylla) : ∃ r s', Scylla.initializeConstructor connection code s = some (r, s') ∧
      s'.connection = connection := by
  have hhandles : ∀ s : Scylla, s.withHandles.connection = s.connection := by
    intro s
    simp only [Scylla.withHandles]
    cases s.self.cassCluster <;> cases hsession : s.self.cassSession <;> simp
  refine ⟨_, _, Scylla.initializeConstructor_apply connection code s, ?_⟩
  cases connection.authMode
  · exact hhandles _
  · exact hhandles _
  · exact hhandles _
  · exact hhandles _

/-- **One step.** Isolated objects stay isolated exactly when the step agrees with them. -/
theorem isolated_step_iff (buffer : ResponseBuffer) (w : Instances ι) (e : Event ι)
    (h : Isolated buffer w) : Isolated buffer (step w e) ↔ Agrees w e := by
  cases e with
  | initializeConstructor o c code =>
    obtain ⟨r, s, hs, hconnection⟩ := connection_initializeConstructor c code (w.view o)
    have hstep : step w (.initializeConstructor o c code) = w.initialised o c s := by
      simp only [step, hs]
    have hgiven : ∀ o', (w.initialised o c s).given o' =
        if o' = o then some c else w.given o' := fun o' => Function.update_apply ..
    have hothers : ∀ o' ≠ o, ∀ c', Reports buffer ((w.initialised o c s).view o') c' ↔
        c.keyspace = c'.keyspace ∧ c.authMode = c'.authMode ∧ c.strategy = c'.strategy ∧
          ((w.objects o').cassFuture ≠ none →
            cString c.username = cString c'.username ∧
              cString c.password = cString c'.password) := by
      intro o' ho' c'
      have hself : ((w.initialised o c s).view o').self = w.objects o' :=
        Function.update_of_ne ho' ..
      have hshared : ((w.initialised o c s).view o').connection = c := hconnection
      rw [reports_iff, hself, hshared]
    rw [hstep]
    constructor
    · intro hisolated o' ho' c' hc'
      exact (hothers o' ho' c').1 (hisolated o' c' (by rw [hgiven, if_neg ho', hc']))
    · intro hagrees o' c' hc'
      rw [hgiven] at hc'
      by_cases ho' : o' = o
      · rw [if_pos ho', Option.some_inj] at hc'
        have hshared : ((w.initialised o c s).view o').connection = c := hconnection
        rw [reports_iff, hshared, hc']
        exact ⟨rfl, rfl, rfl, fun _ => ⟨rfl, rfl⟩⟩
      · rw [if_neg ho'] at hc'
        exact (hothers o' ho' c').2 (hagrees o' ho' c' hc')
  | getKeyspace o => exact iff_of_true h trivial
  | getAuthMode o => exact iff_of_true h trivial
  | getTopologyStrat o => exact iff_of_true h trivial
  | authenticate o => exact iff_of_true h trivial

/-- **Isolation.** In every run of any number of objects, with initialisations, getters and
authentication requests in any order, the objects are isolated in every state exactly when every
initialisation agrees with the data of all objects initialised before. -/
theorem isolated_iff (buffer : ResponseBuffer) (events : List (Event ι)) :
    AllStates step (Isolated buffer) {} events ↔ AllSteps step Agrees {} events := by
  have hinitial : Isolated buffer ({} : Instances ι) := by
    intro o c hc
    simp at hc
  exact allStates_iff_allSteps (isolated_step_iff buffer) hinitial events

/-- Two objects are initialised, and the session of the first one is authenticated again. -/
def twoObjects : List (Event Bool) :=
  [.initializeConstructor false
      { username := str "alice", password := str "a", keyspace := str "one",
        authMode := .passwordAuthenticator } 0,
    .initializeConstructor true
      { username := str "bob", password := str "b", keyspace := str "two",
        authMode := .passwordAuthenticator } 0,
    .getKeyspace false, .authenticate false]

/-- A driver that hands out buffers of zero bytes. -/
def zeroBuffer : ResponseBuffer := ⟨fun size => List.replicate size 0, by simp⟩

/-- The first object reports the keyspace of the second one, and its session is authenticated with
the second one's credentials. -/
theorem not_isolated_twoObjects : ¬AllStates step (Isolated zeroBuffer) {} twoObjects := by
  intro h
  have hboth := h.2.2.first false
    { username := str "alice", password := str "a", keyspace := str "one",
      authMode := .passwordAuthenticator } rfl
  exact absurd hboth.keyspace (by decide)

end Behh.ScyllaIsolation
