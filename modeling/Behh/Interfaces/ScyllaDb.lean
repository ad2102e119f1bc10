import Behh.Std.Text

/-!
# The ScyllaDB interface

`IScyllaDbCoreInterface` keeps the connection data of all objects in one static record,
`m_connection`, and the handles of the driver in each object. The functions of the driver create,
use and free handles; what they do besides is not modelled. Every call of one is recorded, and what
`cass_future_error_code` returns, also for a null pointer, is a parameter.

`OnAuth::initialize` is called by the driver whenever a session authenticates. It gets a buffer of
the length it asks for, with any contents.

## Main definitions

* `ScylladbConnection`, `CassHandles`, `Scylla`: the data of a connection, of an object, and of the
  process as the functions of one object see it.
* `CassCall`: the calls of the driver.
* `initializeConstructor`, `executeCqlsh`, `destructor`: the functions that use handles.
* `onAuthInitialize`: the answer to an authentication request.

## Main results

* `initializeConstructor_apply`, `executeCqlsh_apply`, `destructor_apply`: what each function does.
* `onAuthInitialize_eq`: the answer consists of the two texts, each behind a NUL.
* `plainResponse_inj`: an answer tells the two texts.
-/

namespace Behh

/-! ### Connection data -/

/-- `scylladb_auth_mode_e`. -/
inductive ScylladbAuthMode where
  | undefined
  | allowAllAuthenticator
  | passwordAuthenticator
  | comScylladbAuthTransitionalAuthenticator
  deriving DecidableEq

/-- `scylladb_topology_strat_e`. -/
inductive ScylladbTopologyStrat where
  | undefined
  | simpleStrategy
  | networkTopologyStrategy
  | localStrategy
  | everywhereStrategy
  deriving DecidableEq

/-- `scylladb_connection_t`. -/
structure ScylladbConnection where
  /-- The contact points. -/
  host : Bytes := []
  /-- The name to authenticate with. -/
  username : Bytes := []
  /-- The password to authenticate with. -/
  password : Bytes := []
  /-- The keyspace. -/
  keyspace : Bytes := []
  /-- How the cluster authenticates. -/
  authMode : ScylladbAuthMode := .undefined
  /-- How the keyspace is replicated. -/
  strategy : ScylladbTopologyStrat := .undefined
  /-- Whether there are several data centers. -/
  multipleDatacenters : Bool := false
  /-- The replication factors. -/
  factorsConfigs : Bytes := []
  /-- More replication factors. -/
  factorsConfigsExtra : Bytes := []
  deriving DecidableEq

/-! ### The driver -/

/-- A call of a function of the driver. Handles are numbered in the order in which they are
created; `none` is the null pointer. -/
inductive CassCall where
  /-- `cass_cluster_new`. -/
  | clusterNew (cluster : ℕ)
  /-- `cass_session_new`. -/
  | sessionNew (session : ℕ)
  /-- `cass_cluster_set_contact_points`. -/
  | clusterSetContactPoints (cluster : Option ℕ) (host : Bytes)
  /-- `cass_cluster_set_authenticator_callbacks`, with the two texts of `pAuth`. -/
  | clusterSetAuthenticatorCallbacks (cluster : Option ℕ) (username password : Bytes)
  /-- `cass_session_connect`. -/
  | sessionConnect (session cluster : Option ℕ) (future : ℕ)
  /-- `cass_statement_new`. -/
  | statementNew (query : Bytes) (statement : ℕ)
  /-- `cass_session_execute`. -/
  | sessionExecute (session : Option ℕ) (statement future : ℕ)
  /-- `cass_future_wait`. -/
  | futureWait (future : ℕ)
  /-- `cass_future_error_code`. -/
  | futureErrorCode (future : Option ℕ)
  /-- `cass_future_error_message`. -/
  | futureErrorMessage (future : Option ℕ)
  /-- `cass_future_free`. -/
  | futureFree (future : Option ℕ)
  /-- `cass_statement_free`. -/
  | statementFree (statement : ℕ)
  /-- `cass_cluster_free`. -/
  | clusterFree (cluster : Option ℕ)
  /-- `cass_session_free`. -/
  | sessionFree (session : Option ℕ)
  deriving DecidableEq

/-- The members of `_IScyllaDb`. -/
structure CassHandles where
  /-- `m_pCassFuture`. -/
  cassFuture : Option ℕ := none
  /-- `m_pCassCluster`. -/
  cassCluster : Option ℕ := none
  /-- `m_pCassSession`. -/
  cassSession : Option ℕ := none
  deriving DecidableEq

/-- The process, as the functions of one object see it. -/
structure Scylla where
  /-- The static `m_connection`. -/
  connection : ScylladbConnection := {}
  /-- The object. -/
  self : CassHandles := {}
  /-- The number of the next handle. -/
  next : ℕ := 0
  /-- The calls of the driver so far. -/
  calls : List CassCall := []
  deriving DecidableEq

namespace Scylla

/-- The error code that stands for success. -/
def cassOk : ℤ := 0

/-- A call that creates no handle. -/
def cass (c : CassCall) : Prog Scylla Unit :=
  Prog.call fun s => ((), { s with calls := s.calls ++ [c] })

/-- A call that creates a handle. -/
def cassNew (c : ℕ → CassCall) : Prog Scylla ℕ :=
  Prog.call fun s => (s.next, { s with next := s.next + 1, calls := s.calls ++ [c s.next] })

/-- Reading the members of the object. -/
def getThis : Prog Scylla CassHandles := Prog.call fun s => (s.self, s)

/-- Writing the members of the object. -/
def setThis (f : CassHandles → CassHandles) : Prog Scylla Unit :=
  Prog.call fun s => ((), { s with self := f s.self })

/-- Writing the static record. -/
def setConnection (f : ScylladbConnection → ScylladbConnection) : Prog Scylla Unit :=
  Prog.call fun s => ((), { s with connection := f s.connection })

/-- Reading the static record. -/
def connectionData : Prog Scylla ScylladbConnection := Prog.call fun s => (s.connection, s)

/-! ### The functions of an object -/

/-- `print_error`. -/
def printError (future : Option ℕ) : Prog Scylla Unit := cass (.futureErrorMessage future)

/-- Contact points and authenticator callbacks are set for the cluster of the object. -/
def setUpCluster : Prog Scylla Unit := do
  let self ← getThis
  let connection ← connectionData
  cass (.clusterSetContactPoints self.cassCluster connection.host)
  cass (.clusterSetAuthenticatorCallbacks self.cassCluster connection.username
    connection.password)

/-- The end of `initialize_constructor`, behind the `switch`. -/
def checkFuture (code : ℤ) : Prog Scylla ℤ := do
  let self ← getThis
  cass (.futureErrorCode self.cassFuture)
  if code ≠ cassOk then
    printError self.cassFuture
    pure (-2)
  else
    pure 1

/-- `initialize_constructor`, where `cass_future_error_code` returns `code`. -/
def initializeConstructor (connection : ScylladbConnection) (code : ℤ) : Prog Scylla ℤ := do
  setConnection fun c => { c with
    host := connection.host
    username := connection.username
    password := connection.password
    keyspace := connection.keyspace
    strategy := connection.strategy
    multipleDatacenters := connection.multipleDatacenters
    factorsConfigs := connection.factorsConfigs
    factorsConfigsExtra := connection.factorsConfigsExtra }
  let self ← getThis
  if self.cassCluster = none then
    let cluster ← cassNew .clusterNew
    setThis fun h => { h with cassCluster := some cluster }
  if self.cassSession = none then
    let session ← cassNew .sessionNew
    setThis fun h => { h with cassSession := some session }
  setConnection fun c => { c with authMode := connection.authMode }
  match (← connectionData).authMode with
  | .allowAllAuthenticator =>
    setUpCluster
    checkFuture code
  | .passwordAuthenticator =>
    setUpCluster
    let self ← getThis
    let future ← cassNew (.sessionConnect self.cassSession self.cassCluster)
    setThis fun h => { h with cassFuture := some future }
    checkFuture code
  | _ => pure (-1)

/-- `execute_cqlsh`, where `cass_future_error_code` returns `status`. -/
def executeCqlsh (cassSession : Option ℕ) (query : Bytes) (status : ℤ) : Prog Scylla ℤ := do
  let statement ← cassNew (.statementNew query)
  let future ← cassNew (.sessionExecute cassSession statement)
  cass (.futureWait future)
  cass (.futureErrorCode (some future))
  if status ≠ cassOk then
    printError (some future)
    pure status
  else
    cass (.futureFree (some future))
    cass (.statementFree statement)
    pure status

/-- `~_IScyllaDb`. -/
def destructor : Prog Scylla Unit := do
  let self ← getThis
  cass (.futureFree self.cassFuture)
  cass (.clusterFree self.cassCluster)
  cass (.sessionFree self.cassSession)

/-- `get_keyspace`. -/
def getKeyspace (s : Scylla) : Bytes := s.connection.keyspace

/-- `get_auth_mode`. -/
def getAuthMode (s : Scylla) : ScylladbAuthMode := s.connection.authMode

/-- `get_topology_strat`. -/
def getTopologyStrat (s : Scylla) : ScylladbTopologyStrat := s.connection.strategy

/-! ### What the functions do -/

/-- The process with a cluster and a session for the object. -/
def withHandles (s : Scylla) : Scylla :=
  let s := match s.self.cassCluster with
    | none => { s with
        self := { s.self with cassCluster := some s.next }
        next := s.next + 1
        calls := s.calls ++ [CassCall.clusterNew s.next] }
    | some _ => s
  match s.self.cassSession with
  | none => { s with
      self := { s.self with cassSession := some s.next }
      next := s.next + 1
      calls := s.calls ++ [CassCall.sessionNew s.next] }
  | some _ => s

/-- The process after the cluster of the object has been set up. -/
def withSetUp (s : Scylla) : Scylla :=
  { s with calls := s.calls ++ [
      .clusterSetContactPoints s.self.cassCluster s.connection.host,
      .clusterSetAuthenticatorCallbacks s.self.cassCluster s.connection.username
        s.connection.password] }

/-- The process after the session of the object has been connected. -/
def withConnect (s : Scylla) : Scylla :=
  { s with
    self := { s.self with cassFuture := some s.next }
    next := s.next + 1
    calls := s.calls ++ [.sessionConnect s.self.cassSession s.self.cassCluster s.next] }

/-- The process after the future of the object has been checked. -/
def withCheck (code : ℤ) (s : Scylla) : Scylla :=
  { s with calls := s.calls ++ .futureErrorCode s.self.cassFuture ::
      if code ≠ cassOk then [.futureErrorMessage s.self.cassFuture] else [] }

/-- What a check of the future returns. -/
def checked (code : ℤ) : ℤ := if code ≠ cassOk then -2 else 1

theorem checkFuture_apply (code : ℤ) (s : Scylla) :
    checkFuture code s = some (checked code, s.withCheck code) := by
  by_cases h : code = cassOk
  · simp [checkFuture, getThis, cass, checked, withCheck, h]
  · simp [checkFuture, getThis, cass, printError, checked, withCheck, h]

/-- **Initialisation.** The static record is overwritten; what else happens depends on the
authentication mode. -/
theorem initializeConstructor_apply (connection : ScylladbConnection) (code : ℤ) (s : Scylla) :
    initializeConstructor connection code s = some (match connection.authMode with
      | .allowAllAuthenticator =>
        (checked code, (withSetUp (withHandles { s with connection := connection })).withCheck code)
      | .passwordAuthenticator =>
        (checked code,
          (withConnect (withSetUp (withHandles { s with connection := connection }))).withCheck
            code)
      | _ => (-1, withHandles { s with connection := connection })) := by
  obtain ⟨shared, ⟨future, cluster, session⟩, next, calls⟩ := s
  obtain ⟨_, _, _, _, mode, _, _, _, _⟩ := connection
  cases cluster <;> cases session <;> cases mode <;>
    simp [initializeConstructor, setConnection, setThis, getThis, connectionData, cassNew, cass,
      setUpCluster, checkFuture_apply, withHandles, withSetUp, withConnect]

/-- **Execution.** A statement and a future are created; they are freed when the status is
success. -/
theorem executeCqlsh_apply (cassSession : Option ℕ) (query : Bytes) (status : ℤ) (s : Scylla) :
    executeCqlsh cassSession query status s = some (status, { s with
      next := s.next + 2
      calls := s.calls ++ [.statementNew query s.next,
          .sessionExecute cassSession s.next (s.next + 1), .futureWait (s.next + 1),
          .futureErrorCode (some (s.next + 1))] ++
        if status ≠ cassOk then [.futureErrorMessage (some (s.next + 1))]
        else [.futureFree (some (s.next + 1)), .statementFree s.next] }) := by
  by_cases h : status = cassOk
  · simp [executeCqlsh, cassNew, cass, h]
  · simp [executeCqlsh, cassNew, cass, printError, h]

/-- **Destruction** frees what the three members hold, null pointers too. -/
theorem destructor_apply (s : Scylla) :
    destructor s = some ((), { s with calls := s.calls ++ [.futureFree s.self.cassFuture,
      .clusterFree s.self.cassCluster, .sessionFree s.self.cassSession] }) := by
  simp [destructor, getThis, cass]

end Scylla

/-! ### Authentication -/

/-- What `cass_authenticator_response` returns for each length: a buffer of this length. -/
abbrev ResponseBuffer : Type := { buffer : ℕ → Bytes // ∀ size, (buffer size).length = size }

/-- The answer of SASL PLAIN with an empty authorisation identity. -/
def plainResponse (username password : Bytes) : Bytes :=
  0 :: cString username ++ 0 :: cString password

/-- An answer tells the two texts. -/
theorem plainResponse_inj {u p u' p' : Bytes} :
    plainResponse u p = plainResponse u' p' ↔ cString u = cString u' ∧ cString p = cString p' := by
  rw [plainResponse, plainResponse, List.cons_append, List.cons_append, List.cons_inj_right,
    List.append_cons_inj_of_notMem (zero_notMem_cString u) (zero_notMem_cString p)]
  simp

/-- `OnAuth::initialize`: the answer that is in the driver's buffer at the end. -/
def onAuthInitialize {W : Type} (buffer : ResponseBuffer) (connection : ScylladbConnection) :
    Prog W Bytes := do
  let username := cString connection.username
  let password := cString connection.password
  let size := username.length + password.length + 2
  let response := buffer.1 size
  let response ← writeOut response 0 [0]
  let response ← writeOut response 1 username
  let response ← writeOut response (username.length + 1) [0]
  writeOut response (username.length + 2) password

/-- The four writes into a buffer of the length that they need: each stands behind the one before,
and the last ends where the buffer does. -/
theorem plain_writes {u p b : Bytes} (hlength : b.length = u.length + p.length + 2) :
    ∃ b₁ b₂ b₃ : Bytes,
      (∀ W : Type, (writeOut b 0 [0] : Prog W Bytes) = pure b₁) ∧
      (∀ W : Type, (writeOut b₁ 1 u : Prog W Bytes) = pure b₂) ∧
      (∀ W : Type, (writeOut b₂ (u.length + 1) [0] : Prog W Bytes) = pure b₃) ∧
      ∀ W : Type, (writeOut b₃ (u.length + 2) p : Prog W Bytes) = pure (0 :: u ++ 0 :: p) := by
  have hfirst : ([0] ++ u : Bytes).length = u.length + 1 := by simp
  have hthird : ([0] ++ u ++ [0] : Bytes).length = u.length + 2 := by simp
  refine ⟨[0] ++ b.drop 1, ([0] ++ u) ++ (b.drop 1).drop u.length,
    ([0] ++ u ++ [0]) ++ ((b.drop 1).drop u.length).drop 1, ?_, ?_, ?_, ?_⟩
  · intro W
    exact @writeOut_append W [] b [0] (by rw [hlength]; simp)
  · intro W
    exact @writeOut_append W [0] (b.drop 1) u (by rw [List.length_drop]; omega)
  · intro W
    rw [← hfirst]
    exact writeOut_append (by
      simp only [List.length_drop, hlength, List.length_singleton]
      omega)
  · intro W
    have hrest : (((b.drop 1).drop u.length).drop 1).drop p.length = [] := by
      apply List.eq_nil_of_length_eq_zero
      simp only [List.length_drop, hlength]
      omega
    rw [← hthird, writeOut_append (by simp only [List.length_drop, hlength]; omega), hrest]
    simp

/-- **The answer** consists of the two texts, each behind a NUL, whatever was in the buffer. -/
theorem onAuthInitialize_eq {W : Type} (buffer : ResponseBuffer)
    (connection : ScylladbConnection) :
    (onAuthInitialize buffer connection : Prog W Bytes) =
      pure (plainResponse connection.username connection.password) := by
  obtain ⟨b₁, b₂, b₃, h₁, h₂, h₃, h₄⟩ := plain_writes (buffer.2
    ((cString connection.username).length + (cString connection.password).length + 2))
  simp only [onAuthInitialize, h₁, h₂, h₃, h₄, pure_bind, plainResponse]

end Behh
