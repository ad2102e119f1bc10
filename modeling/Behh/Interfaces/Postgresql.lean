import Behh.Library.KeywordValue
import Behh.Std.Text

/-!
# The PostgreSQL interface

`_IPostgreSQL::initialize_database` of `src/ipostgresql_core_interface.cc` writes the connection
data into a connection string, without quotes and escapes, and creates a database over the
connection. The client library reads the string, up to the first NUL, as settings of keywords and
values. A field comes back exactly when there is nothing in it that the grammar treats in a special
way; an empty field in front of another one swallows it.

## Main definitions

* `PostgresqlConnection`, `conninfo`: the connection data and the connection string.
* `initializeDatabase`: the function, with the texts that are given to `PQconnectdb`.
* `ConninfoRoundTrip`: the connection string yields the connection data.
* `PlainConnection`: the connection data can be written as they are.

## Main results

* `conninfo_eq_text`: the connection string writes its fields one after the other.
* `conninfoRoundTrip_iff`: the connection data that come back.
-/

namespace Behh

open KeywordValue

/-- `postgresql_connection_t`. -/
structure PostgresqlConnection where
  /-- The database. -/
  dbname : Bytes := []
  /-- The server. -/
  host : Bytes := []
  /-- The port of the server. -/
  port : Bytes := []
  /-- The name to authenticate with. -/
  username : Bytes := []
  /-- The password to authenticate with. -/
  password : Bytes := []
  deriving DecidableEq

/-- The connection string. -/
def conninfo (conn : PostgresqlConnection) : Bytes :=
  if conn.password.length ≤ 0 then
    str "user=" ++ conn.username ++ str " host=" ++ conn.host ++ str " port=" ++ conn.port
  else
    str "user=" ++ conn.username ++ str " host=" ++ conn.host ++ str " port=" ++ conn.port ++
      str " password=" ++ conn.password

/-! ### The function -/

/-- The functions of the client library. -/
structure Libpq (W : Type) where
  /-- `PQconnectdb`, and whether `PQstatus` is `CONNECTION_OK` then. -/
  connectdb : Bytes → W → Bool × W
  /-- `PQexec`. -/
  exec : Bytes → W → W

/-- The process, as the function sees it. -/
structure Postgresql (W : Type) where
  /-- The state of the client library and of the servers. -/
  lib : W
  /-- The static `m_connection`. -/
  connection : PostgresqlConnection
  /-- The texts given to `PQconnectdb`. -/
  conninfos : List Bytes

/-- `_IPostgreSQL::initialize_database`: the code returned, or `abort()`. -/
def initializeDatabase {W : Type} (libpq : Libpq W) (conn : PostgresqlConnection)
    (createDb : Bool) (s : Postgresql W) : Except Unit ℤ × Postgresql W :=
  let s := { s with connection := conn }
  if createDb then
    let text := cString (conninfo conn)
    let r := libpq.connectdb text s.lib
    let s := { s with lib := r.2, conninfos := s.conninfos ++ [text] }
    if r.1 then
      let query := cString (str "create database " ++ conn.dbname ++ str ";")
      (.ok 1, { s with lib := libpq.exec query s.lib })
    else (.error (), s)
  else (.ok 1, s)

/-- The connection is tried with the connection string, whatever comes of it. -/
theorem conninfos_initializeDatabase {W : Type} (libpq : Libpq W) (conn : PostgresqlConnection)
    (s : Postgresql W) :
    (initializeDatabase libpq conn true s).2.conninfos =
      s.conninfos ++ [cString (conninfo conn)] := by
  rw [initializeDatabase]
  by_cases h : (libpq.connectdb (cString (conninfo conn)) s.lib).1 = true
  · simp [h]
  · simp [h]

/-! ### The round trip -/

variable {conn : PostgresqlConnection}

/-- What the connection string is to say: the user, the host, the port, and the password unless it
is empty. -/
def conninfoFields (conn : PostgresqlConnection) : List Setting :=
  [(str "user", conn.username), (str "host", conn.host), (str "port", conn.port)] ++
    if conn.password = [] then [] else [(str "password", conn.password)]

/-- In every run that creates a database, one connection string is given to the client library,
and it has exactly the settings that it is to say. -/
def ConninfoRoundTrip (conn : PostgresqlConnection) : Prop :=
  ∀ (W : Type) (libpq : Libpq W) (s : Postgresql W), ∃ text settings,
    (initializeDatabase libpq conn true s).2.conninfos = s.conninfos ++ [text] ∧
      parse text = some settings ∧
      ∀ keyword, lastValue settings keyword = (conninfoFields conn).lookup keyword

/-- No field has a NUL, a blank or a backslash in it or a quote in front, the user and the host
are given, and the port if there is a password. -/
structure PlainConnection (conn : PostgresqlConnection) : Prop where
  plain : ∀ v ∈ [conn.username, conn.host, conn.port, conn.password], Plain v ∧ 0 ∉ v
  username_ne : conn.username ≠ []
  host_ne : conn.host ≠ []
  password_eq : conn.port = [] → conn.password = []

theorem conninfo_eq_text (conn : PostgresqlConnection) :
    conninfo conn = text (conninfoFields conn) := by
  by_cases h : conn.password = []
  · simp [conninfo, conninfoFields, text, h, str]
  · simp [conninfo, conninfoFields, text, h, str]

theorem keywords_conninfoFields (conn : PostgresqlConnection) : Keywords (conninfoFields conn) := by
  have hnames : ∀ k ∈ [str "user", str "host", str "port", str "password"],
      ∀ c ∈ k, isName c = true := by
    decide +kernel
  by_cases h : conn.password = []
  · constructor
    · rw [conninfoFields, if_pos h]
      exact (by decide : [str "user", str "host", str "port"].Nodup)
    · intro x hx
      refine hnames x.1 ?_
      rw [conninfoFields, if_pos h, List.append_nil] at hx
      exact List.mem_append_left [str "password"] (List.mem_map_of_mem hx)
  · constructor
    · rw [conninfoFields, if_neg h]
      exact (by decide : [str "user", str "host", str "port", str "password"].Nodup)
    · intro x hx
      refine hnames x.1 ?_
      rw [conninfoFields, if_neg h] at hx
      exact List.mem_map_of_mem hx

theorem zero_notMem_conninfo : 0 ∉ conninfo conn ↔
    ∀ v ∈ [conn.username, conn.host, conn.port, conn.password], 0 ∉ v := by
  have hkeys : ∀ k ∈ [str "user=", str " host=", str " port=", str " password="], 0 ∉ k := by
    decide
  simp only [List.forall_mem_cons] at hkeys
  rw [conninfo]
  by_cases h : conn.password = []
  · simp [h, hkeys]
  · simp [h, hkeys]

theorem plainConnection_iff : PlainConnection conn ↔
    ((∀ x ∈ conninfoFields conn, Plain x.2) ∧ ∀ x ∈ (conninfoFields conn).dropLast, x.2 ≠ []) ∧
      0 ∉ conninfo conn := by
  rw [zero_notMem_conninfo]
  have hempty : Plain [] := ⟨by simp, by simp, by simp⟩
  have hfields : ((∀ x ∈ conninfoFields conn, Plain x.2) ∧
      ∀ x ∈ (conninfoFields conn).dropLast, x.2 ≠ []) ↔
      (∀ v ∈ [conn.username, conn.host, conn.port, conn.password], Plain v) ∧
        conn.username ≠ [] ∧ conn.host ≠ [] ∧ (conn.port = [] → conn.password = []) := by
    by_cases h : conn.password = []
    · simp [conninfoFields, h, hempty]
    · simp [conninfoFields, h]
  rw [hfields]
  constructor
  · intro h
    exact ⟨⟨fun v hv => (h.plain v hv).1, h.username_ne, h.host_ne, h.password_eq⟩,
      fun v hv => (h.plain v hv).2⟩
  · rintro ⟨⟨hplain, husername, hhost, hpassword⟩, hzero⟩
    exact ⟨fun v hv => ⟨hplain v hv, hzero v hv⟩, husername, hhost, hpassword⟩

/-- **The round trip of the connection data.** For every connection record: the connection string
yields the user, the host, the port and the password, and nothing else, exactly when the record is
plain. -/
theorem conninfoRoundTrip_iff (conn : PostgresqlConnection) :
    ConninfoRoundTrip conn ↔ PlainConnection conn := by
  have hkeys := keywords_conninfoFields conn
  rw [plainConnection_iff]
  constructor
  · intro h
    obtain ⟨s, settings, hinfos, hparse, hvalues⟩ :=
      h Unit ⟨fun _ w => (true, w), fun _ w => w⟩ ⟨(), {}, []⟩
    rw [conninfos_initializeDatabase, List.nil_append, List.nil_append] at hinfos
    obtain rfl := List.singleton_injective hinfos
    rw [conninfo_eq_text] at hparse ⊢
    obtain ⟨hperm, hlen⟩ := perm_of_lastValue hkeys (by simp [conninfoFields])
      (List.takeWhile_prefix _).length_le hparse hvalues
    have hzero := length_cString_eq_iff.1 hlen
    rw [cString_eq_self hzero] at hparse
    exact ⟨plain_of_parse_text hkeys hparse hperm, hzero⟩
  · rintro ⟨⟨hplain, hne⟩, hzero⟩ W libpq s
    refine ⟨_, conninfoFields conn, conninfos_initializeDatabase libpq conn s, ?_,
      lastValue_of_nodup hkeys.nodup⟩
    rw [cString_eq_self hzero, conninfo_eq_text]
    exact parse_text hkeys hplain hne

/-- A password with a blank in it is cut off, and the rest is no setting. -/
theorem not_conninfoRoundTrip_blank :
    ¬ ConninfoRoundTrip
      ⟨str "shop", str "localhost", str "5432", str "postgres", str "my secret"⟩ := by
  rw [conninfoRoundTrip_iff]
  intro h
  have hpassword := (h.plain (str "my secret") (by simp)).1
  have hblank := hpassword.not_space 0x20 (by decide)
  revert hblank
  decide

end Behh
