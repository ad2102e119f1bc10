import Behh.Interfaces.Postgresql
import Mathlib.Data.List.Nodup

/-!
# The handles of one PostgreSQL object

A run of an object is its construction, any calls of `initialize_database`,
`generate_uuid_v1_as_string` and `generate_uuid_v4_as_string`, and its destruction. Every connection
that is opened takes the place of the one before in `m_pConn`, and the destructor closes the one
that is there. A connection that cannot be opened aborts the process.

What the client library answers in a call is a parameter of the call. A `std::string` made of a null
pointer is no outcome: it is made when a query on an open connection yields no value.

## Main definitions

* `PqCall`, `PgObject`: the calls of the client library, and an object with a record of them.
* `PgObject.initializeDatabase`, `generateUuidV1AsString`, `generateUuidV4AsString`,
  `PgObject.destructor`: the functions.
* `pgLifetime`: the calls of the client library in a run.

`PqClient.step` is the discipline of the client library: a query is sent over the connection that is
held and yields a result, which is read and freed before the next one.

## Main results

* `initializeDatabase_apply`: the function of `Behh.Interfaces.Postgresql`, with handles.
* `op_spec`: one call keeps to the discipline.
* `pgLifetime_accepted`: a run does, and what it leaves open.
* `pgLifetime_eq_none_iff`: when a run has no outcome.
-/

namespace Behh

/-! ### The client library -/

/-- A call of a function of the client library. Handles are numbered in the order in which they are
created; `none` is the null pointer. -/
inductive PqCall where
  /-- `PQconnectdb`. -/
  | connectdb (text : Bytes) (conn : ℕ)
  /-- `PQstatus`. -/
  | status (conn : Option ℕ)
  /-- `PQexec`. -/
  | exec (conn : Option ℕ) (query : Bytes) (result : Option ℕ)
  /-- `PQresultStatus`. -/
  | resultStatus (result : Option ℕ)
  /-- `PQgetvalue(result, 0, 0)`. -/
  | getvalue (result : Option ℕ)
  /-- `PQerrorMessage`. -/
  | errorMessage (conn : Option ℕ)
  /-- `PQclear`. -/
  | clear (result : Option ℕ)
  /-- `PQfinish`. -/
  | finish (conn : ℕ)
  deriving DecidableEq

/-- An object, with the calls of the client library. -/
structure PgObject where
  /-- The static `m_connection`. -/
  connection : PostgresqlConnection := {}
  /-- `m_pConn`. -/
  pConn : Option ℕ := none
  /-- The number of the next handle. -/
  next : ℕ := 0
  /-- The calls so far. -/
  calls : List PqCall := []
  deriving DecidableEq

/-- What the client library answers in `initialize_database`. -/
structure CreateAnswer where
  /-- `PQstatus` is `CONNECTION_OK`. -/
  connected : Bool
  /-- The result of the query, if there is one, and whether its status is `PGRES_COMMAND_OK`. -/
  result : Option Bool

/-- What the client library answers in a function that makes an identifier. -/
structure UuidAnswer where
  /-- `PQstatus` of a connection is `CONNECTION_OK`. -/
  connected : Bool
  /-- The result of the query, if there is one, and its value, if it has one. -/
  result : Option (Option Bytes)

namespace PgObject

/-- A call that creates no handle. -/
def pq (c : PqCall) : Prog PgObject Unit :=
  Prog.call fun s => ((), { s with calls := s.calls ++ [c] })

/-- `m_pConn`. -/
def getConn : Prog PgObject (Option ℕ) := Prog.call fun s => (s.pConn, s)

/-- `m_pConn = PQconnectdb(conninfo.c_str());`. -/
def connectdb (text : Bytes) : Prog PgObject Unit := Prog.call fun s =>
  ((), { s with
    pConn := some s.next, next := s.next + 1, calls := s.calls ++ [.connectdb text s.next] })

/-- `PQstatus(m_pConn) == CONNECTION_OK`. The status of the null pointer is another one. -/
def isConnected (connected : Bool) : Prog PgObject Bool := do
  let conn ← getConn
  pq (.status conn)
  return conn.isSome && connected

/-- `PQexec(m_pConn, query)`, which may yield the null pointer. -/
def exec (query : Bytes) (yields : Bool) : Prog PgObject (Option ℕ) := Prog.call fun s =>
  if yields then
    (some s.next, { s with
      next := s.next + 1, calls := s.calls ++ [.exec s.pConn query (some s.next)] })
  else (none, { s with calls := s.calls ++ [.exec s.pConn query none] })

/-! ### The functions of an object -/

/-- `initialize_database`: the code returned, or `abort()`. -/
def initializeDatabase (conn : PostgresqlConnection) (createDb : Bool) (answer : CreateAnswer) :
    Prog PgObject (Except Unit ℤ) := do
  Prog.call fun s => ((), { s with connection := conn })
  if createDb then
    connectdb (cString (conninfo conn))
    if !(← isConnected answer.connected) then
      return .error ()
    let pRes ← exec (cString (str "create database " ++ conn.dbname ++ str ";"))
      answer.result.isSome
    pq (.resultStatus pRes)
    if answer.result ≠ some true then
      pq (.errorMessage (← getConn))
    if pRes ≠ none then
      pq (.clear pRes)
    return .ok 1
  return .ok 1

/-- The body of the two functions that make an identifier. -/
def generateUuid (query : Bytes) (answer : UuidAnswer) : Prog PgObject Bytes := do
  if ← isConnected answer.connected then
    let pPgRes ← exec query answer.result.isSome
    pq (.getvalue pPgRes)
    let result ← Prog.lift answer.result.join
    pq (.clear pPgRes)
    return result
  else
    pq (.errorMessage (← getConn))
    pq (.clear none)
    return []

/-- `generate_uuid_v1_as_string`. -/
def generateUuidV1AsString (answer : UuidAnswer) : Prog PgObject Bytes :=
  generateUuid (str "SELECT uuid_generate_v1();") answer

/-- `generate_uuid_v4_as_string`. -/
def generateUuidV4AsString (answer : UuidAnswer) : Prog PgObject Bytes :=
  generateUuid (str "SELECT uuid_generate_v4();") answer

/-- `~_IPostgreSQL`. -/
def destructor : Prog PgObject Unit := do
  match ← getConn with
  | none => return ()
  | some conn => pq (.finish conn)

end PgObject

/-! ### Runs -/

/-- A call of a function of an object. -/
inductive PgOp where
  /-- `initialize_database`. -/
  | initializeDatabase (conn : PostgresqlConnection) (createDb : Bool) (answer : CreateAnswer)
  /-- `generate_uuid_v1_as_string`. -/
  | generateUuidV1AsString (answer : UuidAnswer)
  /-- `generate_uuid_v4_as_string`. -/
  | generateUuidV4AsString (answer : UuidAnswer)

/-- The program of a call; `false` when the process is aborted. -/
def PgOp.run : PgOp → Prog PgObject Bool
  | .initializeDatabase conn createDb answer =>
    Except.toBool <$> PgObject.initializeDatabase conn createDb answer
  | .generateUuidV1AsString answer => (fun _ => true) <$> PgObject.generateUuidV1AsString answer
  | .generateUuidV4AsString answer => (fun _ => true) <$> PgObject.generateUuidV4AsString answer

/-- The rest of an object's life: calls of its functions, and its destruction. -/
def pgRestOfLife : List PgOp → Prog PgObject Bool
  | [] => (fun _ => true) <$> PgObject.destructor
  | op :: ops => do
    if ← op.run then pgRestOfLife ops else return false

/-- A run, from the construction on: whether the object is destroyed, and the calls of the client
library. -/
def pgLifetime (ops : List PgOp) : Option (Bool × List PqCall) :=
  (pgRestOfLife ops {}).map fun r => (r.1, r.2.calls)

/-! ### The discipline of the client library -/

/-- What the client library holds. -/
structure PqClient where
  /-- The connection that is held. -/
  conn : Option ℕ := none
  /-- The result that is held. -/
  result : Option ℕ := none
  /-- The connections that are open and no longer held. -/
  lost : List ℕ := []
  deriving DecidableEq

/-- One call; `none` when it is against the discipline. -/
def PqClient.step (s : PqClient) : PqCall → Option PqClient
  | .connectdb _ conn =>
    if s.result = none then some { s with conn := some conn, lost := s.lost ++ s.conn.toList }
    else none
  | .status conn => if conn = s.conn then some s else none
  | .exec conn _ result =>
    if conn = s.conn ∧ conn ≠ none ∧ s.result = none then some { s with result := result } else none
  | .resultStatus result => if result = s.result then some s else none
  | .getvalue result => if result = s.result then some s else none
  | .errorMessage conn => if conn = s.conn then some s else none
  | .clear result => if result = s.result then some { s with result := none } else none
  | .finish conn =>
    if s.conn = some conn ∧ s.result = none then some { s with conn := none } else none

namespace PqCall

/-- The handle that a call creates. -/
def created : PqCall → Option ℕ
  | connectdb _ conn => some conn
  | exec _ _ result => result
  | _ => none

/-- The connection that a call opens. -/
def opened : PqCall → Option ℕ
  | connectdb _ conn => some conn
  | _ => none

/-- The connection string of a call. -/
def conninfo : PqCall → Option Bytes
  | connectdb text _ => some text
  | _ => none

end PqCall

/-- The state of the client library after some calls that leave `conn` held. -/
def pqClient (conn : Option ℕ) (calls : List PqCall) : PqClient :=
  { conn := conn, lost := (calls.filterMap PqCall.opened).dropLast }

/-- Between two calls of an object's functions: no result is held, the connection that is held is
the last one, and handles are numbered without a gap. -/
structure PgObject.Between (s : PgObject) : Prop where
  accepted : s.calls.foldlM PqClient.step {} = some (pqClient s.pConn s.calls)
  held : (s.calls.filterMap PqCall.opened).getLast? = s.pConn
  numbered : s.calls.filterMap PqCall.created = List.range s.next

namespace PgObject

theorem between_default : Between {} := ⟨rfl, rfl, rfl⟩

/-- Calls that open no connection and end with the client library as it was. -/
theorem Between.append {s s' : PgObject} {new : List PqCall} (h : s.Between)
    (hcalls : s'.calls = s.calls ++ new) (hconn : s'.pConn = s.pConn)
    (hopened : new.filterMap PqCall.opened = [])
    (hcreated : List.range s.next ++ new.filterMap PqCall.created = List.range s'.next)
    (hrun : ∀ lost, new.foldlM PqClient.step ⟨s.pConn, none, lost⟩ =
      some ⟨s.pConn, none, lost⟩) : s'.Between := by
  have hsame : s'.calls.filterMap PqCall.opened = s.calls.filterMap PqCall.opened := by
    rw [hcalls, List.filterMap_append, hopened, List.append_nil]
  refine ⟨?_, ?_, ?_⟩
  · have hclient : pqClient s'.pConn s'.calls = pqClient s.pConn s.calls := by
      simp only [pqClient, hconn, hsame]
    rw [hclient, hcalls, List.foldlM_append, h.accepted]
    exact hrun _
  · rw [hsame, hconn, h.held]
  · rw [hcalls, List.filterMap_append, h.numbered, hcreated]

/-- Opening a connection. The one that was held is lost. -/
theorem Between.connectdb {s : PgObject} (h : s.Between) (text : Bytes) : Between
    { s with
      pConn := some s.next, next := s.next + 1, calls := s.calls ++ [.connectdb text s.next] } := by
  have hopened : (s.calls ++ [PqCall.connectdb text s.next]).filterMap PqCall.opened =
      s.calls.filterMap PqCall.opened ++ [s.next] := by
    rw [List.filterMap_append]
    rfl
  have hlost : (s.calls.filterMap PqCall.opened).dropLast ++ s.pConn.toList =
      s.calls.filterMap PqCall.opened := by
    rw [← h.held]
    cases hlast : (s.calls.filterMap PqCall.opened).getLast? with
    | none => rw [List.getLast?_eq_none_iff.1 hlast]; rfl
    | some c => exact List.dropLast_append_getLast? c hlast
  refine ⟨?_, ?_, ?_⟩
  · rw [List.foldlM_append, h.accepted]
    simp only [pqClient, hopened, List.dropLast_concat]
    simp [PqClient.step, hlost]
  · simp only [hopened, List.getLast?_concat]
  · rw [List.filterMap_append, h.numbered, List.range_succ]
    rfl

/-! ### One call -/

/-- A query, when there is one to send: its calls after the connection was found to be open. -/
def queryCalls (conn : Option ℕ) (next : ℕ) (query : Bytes) (answer : Option Bool) : List PqCall :=
  let result := if answer.isSome then some next else none
  [.exec conn query result, .resultStatus result] ++
    (if answer ≠ some true then [.errorMessage conn] else []) ++
    if answer.isSome then [.clear result] else []

/-- `initialize_database` when it opens a connection. -/
theorem initializeDatabase_create (conn : PostgresqlConnection) (answer : CreateAnswer)
    (s : PgObject) : initializeDatabase conn true answer s =
      let calls := s.calls ++ [.connectdb (cString (conninfo conn)) s.next, .status (some s.next)]
      if answer.connected then
        some (.ok 1, {
          connection := conn
          pConn := some s.next
          next := if answer.result.isSome then s.next + 2 else s.next + 1
          calls := calls ++ queryCalls (some s.next) (s.next + 1)
            (cString (str "create database " ++ conn.dbname ++ str ";")) answer.result })
      else some (.error (), ⟨conn, some s.next, s.next + 1, calls⟩) := by
  obtain ⟨connected, result⟩ := answer
  cases connected with
  | false => simp [initializeDatabase, connectdb, isConnected, getConn, pq]
  | true =>
    cases result with
    | none => simp [initializeDatabase, connectdb, isConnected, getConn, pq, exec, queryCalls]
    | some ok =>
      cases ok <;> simp [initializeDatabase, connectdb, isConnected, getConn, pq, exec, queryCalls]

theorem initializeDatabase_keep (conn : PostgresqlConnection) (answer : CreateAnswer)
    (s : PgObject) :
    initializeDatabase conn false answer s = some (.ok 1, { s with connection := conn }) := by
  simp [initializeDatabase]

/-- **The function of `Behh.Interfaces.Postgresql`.** It returns the same code, stores the same
settings and opens connections with the same texts, whatever the client library does. -/
theorem initializeDatabase_apply (conn : PostgresqlConnection) (createDb : Bool)
    (answer : CreateAnswer) (s : PgObject) {W : Type} (exec : Bytes → W → W) (w : W) :
    (initializeDatabase conn createDb answer s).map (fun r =>
      (r.1, r.2.connection, r.2.calls.filterMap PqCall.conninfo)) =
    let r := Behh.initializeDatabase ⟨fun _ w => (answer.connected, w), exec⟩ conn createDb
      ⟨w, s.connection, s.calls.filterMap PqCall.conninfo⟩
    some (r.1, r.2.connection, r.2.conninfos) := by
  cases createDb with
  | false => simp [initializeDatabase_keep, Behh.initializeDatabase]
  | true =>
    rw [initializeDatabase_create]
    obtain ⟨connected, result⟩ := answer
    cases connected with
    | false => simp [Behh.initializeDatabase, PqCall.conninfo]
    | true =>
      cases result with
      | none => simp [Behh.initializeDatabase, PqCall.conninfo, queryCalls]
      | some ok => cases ok <;> simp [Behh.initializeDatabase, PqCall.conninfo, queryCalls]

/-- The process goes on unless a connection cannot be opened, whatever the handles are. -/
theorem toBool_initializeDatabase {conn : PostgresqlConnection} {createDb : Bool}
    {answer : CreateAnswer} {code : Except Unit ℤ} {s s' : PgObject}
    (hrun : initializeDatabase conn createDb answer s = some (code, s')) :
    code.toBool = !(createDb && !answer.connected) := by
  have hsame := initializeDatabase_apply conn createDb answer s (fun _ w => w) ()
  rw [hrun, Option.map_some, Option.some.injEq] at hsame
  obtain ⟨rfl, -⟩ := Prod.mk.inj hsame
  cases createDb with
  | false => rfl
  | true =>
    rw [Behh.initializeDatabase]
    cases answer.connected <;> rfl

/-- The functions that make an identifier, on an open connection. -/
theorem generateUuid_connected (query : Bytes) (answer : UuidAnswer) {s : PgObject} {c : ℕ}
    (hconn : s.pConn = some c) (hanswer : answer.connected = true) :
    generateUuid query answer s = answer.result.join.map fun value =>
      (value, { s with next := s.next + 1, calls := s.calls ++
        [.status (some c), .exec (some c) query (some s.next), .getvalue (some s.next),
          .clear (some s.next)] }) := by
  obtain ⟨connected, result⟩ := answer
  obtain rfl : connected = true := hanswer
  cases result with
  | none => simp [generateUuid, isConnected, getConn, pq, exec, hconn]
  | some value =>
    cases value with
    | none => simp [generateUuid, isConnected, getConn, pq, exec, hconn]
    | some value => simp [generateUuid, isConnected, getConn, pq, exec, hconn]

/-- The functions that make an identifier, without an open connection. -/
theorem generateUuid_unconnected (query : Bytes) (answer : UuidAnswer) {s : PgObject}
    (h : (s.pConn.isSome && answer.connected) = false) :
    generateUuid query answer s = some ([], { s with
      calls := s.calls ++ [.status s.pConn, .errorMessage s.pConn, .clear none] }) := by
  simp [generateUuid, isConnected, getConn, pq, h]

theorem Between.generateUuid {s s' : PgObject} (h : s.Between) {query value : Bytes}
    {answer : UuidAnswer} (hrun : generateUuid query answer s = some (value, s')) :
    s'.Between ∧ s'.pConn = s.pConn := by
  by_cases hopen : (s.pConn.isSome && answer.connected) = true
  · obtain ⟨hsome, hconnected⟩ := Bool.and_eq_true_iff.1 hopen
    obtain ⟨c, hconn⟩ := Option.isSome_iff_exists.1 hsome
    rw [generateUuid_connected query answer hconn hconnected] at hrun
    obtain ⟨v, -, hrun⟩ := Option.map_eq_some_iff.1 hrun
    obtain ⟨-, rfl⟩ := Prod.mk.inj hrun
    refine ⟨h.append rfl rfl rfl ?_ fun lost => ?_, rfl⟩
    · exact List.range_succ.symm
    · simp [PqClient.step, hconn]
  · rw [generateUuid_unconnected query answer (Bool.eq_false_iff.2 hopen)] at hrun
    obtain ⟨-, rfl⟩ := Prod.mk.inj (Option.some.inj hrun)
    refine ⟨h.append rfl rfl rfl ?_ fun lost => ?_, rfl⟩
    · simp [PqCall.created]
    · simp [PqClient.step]

/-- Sending a query over the connection that is held. -/
theorem Between.query {s : PgObject} (h : s.Between) {c : ℕ} (hconn : s.pConn = some c)
    (conn : PostgresqlConnection) (query : Bytes) (answer : Option Bool) : Between
      { connection := conn
        pConn := some c
        next := if answer.isSome then s.next + 1 else s.next
        calls := s.calls ++ .status (some c) :: queryCalls (some c) s.next query answer } := by
  cases answer with
  | none =>
    refine h.append rfl hconn.symm rfl ?_ fun lost => ?_
    · simp [queryCalls, PqCall.created]
    · simp [queryCalls, PqClient.step, hconn]
  | some ok =>
    cases ok with
    | false =>
      refine h.append rfl hconn.symm rfl ?_ fun lost => ?_
      · exact List.range_succ.symm
      · simp [queryCalls, PqClient.step, hconn]
    | true =>
      refine h.append rfl hconn.symm rfl ?_ fun lost => ?_
      · exact List.range_succ.symm
      · simp [queryCalls, PqClient.step, hconn]

/-- Opening a connection and sending the query that creates a database keeps to the discipline. -/
theorem Between.initializeDatabase {s s' : PgObject} (h : s.Between) {conn : PostgresqlConnection}
    {createDb : Bool} {answer : CreateAnswer} {code : Except Unit ℤ}
    (hrun : initializeDatabase conn createDb answer s = some (code, s')) :
    s'.Between ∧ s'.pConn.isSome = (s.pConn.isSome || createDb) := by
  cases createDb with
  | false =>
    rw [initializeDatabase_keep] at hrun
    obtain ⟨rfl, rfl⟩ := Prod.mk.inj (Option.some.inj hrun)
    exact ⟨⟨h.accepted, h.held, h.numbered⟩, by simp⟩
  | true =>
    have hopened := h.connectdb (cString (conninfo conn))
    rw [initializeDatabase_create] at hrun
    cases hconnected : answer.connected with
    | false =>
      simp only [hconnected, Bool.false_eq_true, if_false, Option.some.injEq,
        Prod.mk.injEq] at hrun
      obtain ⟨rfl, rfl⟩ := hrun
      refine ⟨Between.append hopened (List.append_cons _ _ _) rfl rfl ?_ fun lost => ?_, ?_⟩
      · simp [PqCall.created]
      · simp [PqClient.step]
      · simp
    | true =>
      simp only [hconnected, if_true, Option.some.injEq, Prod.mk.injEq] at hrun
      obtain ⟨rfl, rfl⟩ := hrun
      refine ⟨?_, by simp⟩
      have hquery := hopened.query rfl conn (cString (str "create database " ++ conn.dbname ++
        str ";")) answer.result
      simpa using hquery

end PgObject

/-! ### All calls -/

namespace PgOp

/-- The call opens a connection. -/
def opens : PgOp → Bool
  | initializeDatabase _ createDb _ => createDb
  | _ => false

/-- The call opens a connection, and that fails. -/
def aborts : PgOp → Bool
  | initializeDatabase _ createDb answer => createDb && !answer.connected
  | _ => false

/-- The call sends a query over an open connection, and that yields no value. -/
def valueless : PgOp → Bool
  | initializeDatabase .. => false
  | generateUuidV1AsString answer => answer.connected && answer.result.join.isNone
  | generateUuidV4AsString answer => answer.connected && answer.result.join.isNone

/-- When the functions that make an identifier have no outcome. -/
theorem generateUuid_eq_none_iff (query : Bytes) (answer : UuidAnswer) (s : PgObject) :
    PgObject.generateUuid query answer s = none ↔
      s.pConn.isSome = true ∧ (answer.connected && answer.result.join.isNone) = true := by
  cases hconn : s.pConn with
  | none =>
    rw [PgObject.generateUuid_unconnected query answer (by simp [hconn])]
    simp
  | some c =>
    cases hconnected : answer.connected with
    | false =>
      rw [PgObject.generateUuid_unconnected query answer (by simp [hconnected])]
      simp
    | true =>
      rw [PgObject.generateUuid_connected query answer hconn hconnected]
      simp

theorem run_eq_none_iff (op : PgOp) (s : PgObject) :
    op.run s = none ↔ s.pConn.isSome = true ∧ op.valueless = true := by
  cases op with
  | initializeDatabase conn createDb answer =>
    cases createDb with
    | false => simp [run, PgObject.initializeDatabase_keep, valueless]
    | true =>
      rw [run, Prog.map_apply, PgObject.initializeDatabase_create]
      cases answer.connected <;> simp [valueless]
  | generateUuidV1AsString answer =>
    rw [run, Prog.map_apply, Option.map_eq_none_iff]
    exact generateUuid_eq_none_iff _ answer s
  | generateUuidV4AsString answer =>
    rw [run, Prog.map_apply, Option.map_eq_none_iff]
    exact generateUuid_eq_none_iff _ answer s

/-- **One call.** It keeps to the discipline; the process goes on unless a connection could not be
opened, and a connection is held afterwards if one was or if the call opens one. -/
theorem op_spec {op : PgOp} {s s' : PgObject} {alive : Bool} (h : s.Between)
    (hrun : op.run s = some (alive, s')) :
    s'.Between ∧ alive = !op.aborts ∧ s'.pConn.isSome = (s.pConn.isSome || op.opens) := by
  cases op with
  | initializeDatabase conn createDb answer =>
    rw [run, Prog.map_apply] at hrun
    obtain ⟨⟨code, s₁⟩, hrun₁, heq⟩ := Option.map_eq_some_iff.1 hrun
    obtain ⟨rfl, rfl⟩ := Prod.mk.inj heq
    obtain ⟨hbetween, hconn⟩ := h.initializeDatabase hrun₁
    exact ⟨hbetween, PgObject.toBool_initializeDatabase hrun₁, hconn⟩
  | generateUuidV1AsString answer =>
    rw [run, Prog.map_apply] at hrun
    obtain ⟨⟨value, s₁⟩, hrun₁, heq⟩ := Option.map_eq_some_iff.1 hrun
    obtain ⟨rfl, rfl⟩ := Prod.mk.inj heq
    obtain ⟨hbetween, hconn⟩ := h.generateUuid hrun₁
    exact ⟨hbetween, rfl, by simp [hconn, opens]⟩
  | generateUuidV4AsString answer =>
    rw [run, Prog.map_apply] at hrun
    obtain ⟨⟨value, s₁⟩, hrun₁, heq⟩ := Option.map_eq_some_iff.1 hrun
    obtain ⟨rfl, rfl⟩ := Prod.mk.inj heq
    obtain ⟨hbetween, hconn⟩ := h.generateUuid hrun₁
    exact ⟨hbetween, rfl, by simp [hconn, opens]⟩

end PgOp

/-! ### All runs -/

/-- What a run leaves open: the connection that is held, unless the object is destroyed, and all
connections before it. -/
def pqLeft (destroyed : Bool) (calls : List PqCall) : PqClient :=
  pqClient (if destroyed then none else (calls.filterMap PqCall.opened).getLast?) calls

theorem pgRestOfLife_accepted (ops : List PgOp) {s s' : PgObject} {destroyed : Bool}
    (h : s.Between) (hrun : pgRestOfLife ops s = some (destroyed, s')) :
    s'.calls.foldlM PqClient.step {} = some (pqLeft destroyed s'.calls) ∧
      s'.calls.filterMap PqCall.created = List.range s'.next := by
  induction ops generalizing s with
  | nil =>
    cases hconn : s.pConn with
    | none =>
      simp only [pgRestOfLife, PgObject.destructor, PgObject.getConn, Prog.map_apply,
        Prog.bind_apply, Prog.call_apply, Option.bind_some, hconn, Prog.pure_apply,
        Option.map_some, Option.some.injEq, Prod.mk.injEq] at hrun
      obtain ⟨rfl, rfl⟩ := hrun
      refine ⟨?_, h.numbered⟩
      rw [h.accepted, hconn]
      rfl
    | some c =>
      simp only [pgRestOfLife, PgObject.destructor, PgObject.getConn, PgObject.pq, Prog.map_apply,
        Prog.bind_apply, Prog.call_apply, Option.bind_some, hconn, Option.map_some,
        Option.some.injEq, Prod.mk.injEq] at hrun
      obtain ⟨rfl, rfl⟩ := hrun
      have hopened : (s.calls ++ [PqCall.finish c]).filterMap PqCall.opened =
          s.calls.filterMap PqCall.opened := by
        simp [PqCall.opened]
      refine ⟨?_, ?_⟩
      · rw [List.foldlM_append, h.accepted]
        simp [pqLeft, pqClient, hopened, PqClient.step, hconn]
      · rw [List.filterMap_append, h.numbered]
        exact List.append_nil _
  | cons op ops ih =>
    obtain ⟨alive, s₁, hop, hrest⟩ := Prog.bind_eq_some_iff.1 hrun
    obtain ⟨hbetween, -, -⟩ := PgOp.op_spec h hop
    cases alive with
    | true => exact ih hbetween hrest
    | false =>
      obtain ⟨rfl, rfl⟩ := Prod.mk.inj (Option.some.inj hrest)
      refine ⟨?_, hbetween.numbered⟩
      rw [hbetween.accepted, pqLeft, hbetween.held]
      rfl

/-- **The discipline, over all runs.** Whatever the client library answers, a run keeps to the
discipline: every result is read while it is held and freed before the next query, every query goes
over the connection that was opened last. No handle is used twice, no result is left, and the
connections that are left open are those that another one took the place of, and the last one too
when the process is aborted. -/
theorem pgLifetime_accepted {ops : List PgOp} {destroyed : Bool} {calls : List PqCall}
    (h : pgLifetime ops = some (destroyed, calls)) :
    calls.foldlM PqClient.step {} = some (pqLeft destroyed calls) ∧
      (calls.filterMap PqCall.created).Nodup := by
  obtain ⟨⟨destroyed', s'⟩, hrun, heq⟩ := Option.map_eq_some_iff.1 h
  obtain ⟨rfl, rfl⟩ := Prod.mk.inj heq
  obtain ⟨haccepted, hnumbered⟩ := pgRestOfLife_accepted ops PgObject.between_default hrun
  refine ⟨haccepted, ?_⟩
  rw [hnumbered]
  exact List.nodup_range

/-- An object that opens two connections and makes an identifier closes the second one. -/
theorem pgLifetime_accepted_two :
    ∃ calls, pgLifetime [.initializeDatabase {} true ⟨true, some true⟩,
        .initializeDatabase {} true ⟨true, none⟩,
        .generateUuidV4AsString ⟨true, some (some [56])⟩] = some (true, calls) ∧
      calls.foldlM PqClient.step {} = some ⟨none, none, [0]⟩ := by
  have hlife : (pgLifetime [.initializeDatabase {} true ⟨true, some true⟩,
      .initializeDatabase {} true ⟨true, none⟩,
      .generateUuidV4AsString ⟨true, some (some [56])⟩]).map
      (fun r => (r.1, r.2.filterMap PqCall.opened)) = some (true, [0, 2]) := by
    decide +kernel
  obtain ⟨⟨destroyed, calls⟩, hrun, heq⟩ := Option.map_eq_some_iff.1 hlife
  obtain ⟨rfl, hopened⟩ := Prod.mk.inj heq
  refine ⟨calls, hrun, ?_⟩
  rw [(pgLifetime_accepted hrun).1, pqLeft, pqClient, hopened]
  rfl

theorem pgRestOfLife_eq_none_iff (ops : List PgOp) {s : PgObject} (h : s.Between) :
    pgRestOfLife ops s = none ↔ ∃ before op after, ops = before ++ op :: after ∧
      op.valueless = true ∧ (s.pConn.isSome = true ∨ ∃ o ∈ before, o.opens = true) ∧
      ∀ o ∈ before, o.aborts = false := by
  induction ops generalizing s with
  | nil =>
    have hrun : pgRestOfLife [] s ≠ none := by
      cases hconn : s.pConn <;>
        simp [pgRestOfLife, PgObject.destructor, PgObject.getConn, PgObject.pq, hconn]
    simp [hrun]
  | cons op ops ih =>
    cases hop : op.run s with
    | none =>
      obtain ⟨hsome, hvalueless⟩ := (op.run_eq_none_iff s).1 hop
      refine iff_of_true ?_ ⟨[], op, ops, rfl, hvalueless, .inl hsome, by simp⟩
      rw [pgRestOfLife, Prog.bind_apply, hop]
      rfl
    | some r =>
      obtain ⟨alive, s₁⟩ := r
      obtain ⟨hbetween, halive, hconn⟩ := PgOp.op_spec h hop
      have hnone : ¬(s.pConn.isSome = true ∧ op.valueless = true) := by
        rw [← op.run_eq_none_iff s, hop]
        exact Option.some_ne_none _
      have hrest : pgRestOfLife (op :: ops) s =
          if alive then pgRestOfLife ops s₁ else some (false, s₁) := by
        rw [pgRestOfLife, Prog.bind_apply, hop]
        cases alive <;> rfl
      rw [hrest]
      cases haborts : op.aborts with
      | true =>
        rw [halive, haborts]
        refine iff_of_false (by simp) ?_
        rintro ⟨before, op', after, heq, hvalueless, hopen, hgo⟩
        cases before with
        | nil =>
          obtain ⟨rfl, rfl⟩ := List.cons.inj heq
          exact hnone ⟨hopen.resolve_right (by simp), hvalueless⟩
        | cons o before =>
          obtain ⟨rfl, -⟩ := List.cons.inj heq
          rw [hgo op List.mem_cons_self] at haborts
          exact Bool.noConfusion haborts
      | false =>
        rw [halive, haborts, Bool.not_false, if_pos rfl, ih hbetween, hconn]
        constructor
        · rintro ⟨before, op', after, rfl, hvalueless, hopen, hgo⟩
          refine ⟨op :: before, op', after, rfl, hvalueless, ?_, ?_⟩
          · rw [Bool.or_eq_true, or_assoc] at hopen
            simpa using hopen
          · simpa [haborts] using hgo
        · rintro ⟨before, op', after, heq, hvalueless, hopen, hgo⟩
          cases before with
          | nil =>
            obtain ⟨rfl, rfl⟩ := List.cons.inj heq
            exact absurd ⟨hopen.resolve_right (by simp), hvalueless⟩ hnone
          | cons o before =>
            obtain ⟨rfl, rfl⟩ := List.cons.inj heq
            refine ⟨before, op', after, rfl, hvalueless, ?_, fun o ho =>
              hgo o (List.mem_cons_of_mem _ ho)⟩
            rw [Bool.or_eq_true, or_assoc]
            simpa using hopen

/-- **When a run has no outcome**: a query for an identifier is sent over an open connection and
yields no value, after a call that opens a connection and no failure to open one. -/
theorem pgLifetime_eq_none_iff (ops : List PgOp) :
    pgLifetime ops = none ↔ ∃ before op after, ops = before ++ op :: after ∧
      op.valueless = true ∧ (∃ o ∈ before, o.opens = true) ∧ ∀ o ∈ before, o.aborts = false := by
  rw [pgLifetime, Option.map_eq_none_iff,
    pgRestOfLife_eq_none_iff ops PgObject.between_default]
  simp

end Behh
