import Behh.Interfaces.CouchbaseTruth

/-!
# Calling a failed Couchbase initialization again

`initialize_constructor` takes the connection data by reference and moves them into the object
before it connects. A release build checks the fields before that, and leaves the data where they
are when it refuses one. Behind the moves the caller's record is empty and the object holds the
data; this is so when the connection fails, which returns -9, and when the bucket cannot be created,
which returns -69.

A caller who tries again takes the data from where they are: from the record that was passed, or
from the object when the code is one of these two. The cluster can be any other at each call.

## Main definitions

* `connectArguments`: what a call connects with.
* `Settles`: what all endings behind the moves have in common.
* `Attempt`, `retry`: one call of a caller who tries again.
* `AllFail`: every call of a run returns a negative code.

## Main results

* `couchbaseInitialize_negative`: what a negative code says about the data.
* `couchbaseInitialize_retried`: every call of a run of failures attempts the same connection.
-/

namespace Behh

variable {build : Build} {calls : ClusterCalls}

/-- The host, the name and the password that `couchbase::cluster::connect` is called with; nothing
when a field is refused. -/
def connectArguments (build : Build) (s : CouchbaseSite) : Option (Bytes × Bytes × Bytes) :=
  match if build = .release then s.conn.emptyField else none with
  | some _ => none
  | none =>
    let connection := s.moveConnection.this.connection
    some (connection.host, connection.username, connection.password)

/-! ### Behind the moves -/

/-- The call ends with these two records in the caller's argument and in the object, and returns
only 1 or -69. -/
structure Settles (conn connection : CouchbaseConnection) (r : Except Unit ℤ × CouchbaseSite) :
    Prop where
  conn_eq : r.2.conn = conn
  connection_eq : r.2.this.connection = connection
  code_eq : ∀ code, r.1 = .ok code → code = 1 ∨ code = -69

namespace Settles

variable {conn connection : CouchbaseConnection} {s : CouchbaseSite}

theorem throw (hconn : s.conn = conn) (hconnection : s.this.connection = connection) :
    Settles conn connection (.error (), s) :=
  ⟨hconn, hconnection, fun code hcode => by cases hcode⟩

theorem return_one (hconn : s.conn = conn) (hconnection : s.this.connection = connection) :
    Settles conn connection (.ok 1, s) :=
  ⟨hconn, hconnection, fun code hcode => by
    cases hcode
    exact Or.inl rfl⟩

theorem return_neg (hconn : s.conn = conn) (hconnection : s.this.connection = connection) :
    Settles conn connection (.ok (-69), s) :=
  ⟨hconn, hconnection, fun code hcode => by
    cases hcode
    exact Or.inr rfl⟩

theorem createCollection (hconn : s.conn = conn) (hconnection : s.this.connection = connection) :
    Settles conn connection (s.createCollection calls) := by
  rw [CouchbaseSite.createCollection]
  split_ifs with hflag hthrows
  · exact throw hconn hconnection
  · exact return_one hconn hconnection
  · exact return_one hconn hconnection

theorem createScope (hconn : s.conn = conn) (hconnection : s.this.connection = connection) :
    Settles conn connection (s.createScope calls) := by
  rw [CouchbaseSite.createScope]
  split_ifs with hflag hthrows
  · exact throw hconn hconnection
  · exact createCollection hconn hconnection
  · exact createCollection hconn hconnection

theorem searchScope (hconn : s.conn = conn) (hconnection : s.this.connection = connection) :
    Settles conn connection (s.searchScope calls) := by
  rw [CouchbaseSite.searchScope]
  split_ifs with hthrows
  · exact throw hconn hconnection
  · exact createScope hconn (by rw [ICouchbase.noteScope_eq, hconnection])

theorem createBucket (hconn : s.conn = conn) (hconnection : s.this.connection = connection) :
    Settles conn connection (s.createBucket calls) := by
  rw [CouchbaseSite.createBucket]
  split_ifs with hflag hthrows
  · exact return_neg hconn hconnection
  · exact searchScope hconn hconnection
  · exact searchScope hconn hconnection

theorem searchBucket (hconn : s.conn = conn) (hconnection : s.this.connection = connection) :
    Settles conn connection (s.searchBucket calls) := by
  rw [CouchbaseSite.searchBucket]
  split_ifs with hthrows
  · exact throw hconn hconnection
  · exact createBucket hconn (by rw [ICouchbase.connection_noteBucket, hconnection])

end Settles

/-! ### One call -/

/-- The codes that are returned behind the moves. -/
def IsMoved (code : ℤ) : Prop := code = -9 ∨ code = -69

instance (code : ℤ) : Decidable (IsMoved code) :=
  inferInstanceAs (Decidable (_ ∨ _))

theorem CouchbaseConnection.not_isMoved_of_emptyField {conn : CouchbaseConnection} {code : ℤ}
    (h : conn.emptyField = some code) : ¬ IsMoved code := by
  rw [emptyField] at h
  split_ifs at h <;> cases h <;> decide

/-- **A negative code.** Either a field was refused, by a release build, and nothing has changed, or
the data have been moved from the caller's record into the object. -/
theorem couchbaseInitialize_negative {s s' : CouchbaseSite} {code : ℤ}
    (h : couchbaseInitialize build calls s = (.ok code, s')) (hcode : code < 0) :
    (build = .release ∧ s.conn.emptyField = some code ∧ ¬ IsMoved code ∧ s' = s) ∨
      (IsMoved code ∧ s'.conn = {} ∧ s'.this.connection = s.conn) := by
  rw [couchbaseInitialize] at h
  cases hguard : (if build = .release then s.conn.emptyField else none) with
  | some code₀ =>
    rw [hguard] at h
    cases h
    by_cases hbuild : build = .release
    · rw [if_pos hbuild] at hguard
      exact Or.inl ⟨hbuild, hguard, CouchbaseConnection.not_isMoved_of_emptyField hguard, rfl⟩
    · rw [if_neg hbuild] at hguard
      cases hguard
  | none =>
    rw [hguard] at h
    right
    cases hconnect : calls.connect with
    | exception =>
      rw [hconnect] at h
      cases h
    | error =>
      rw [hconnect] at h
      cases h
      exact ⟨Or.inl rfl, rfl, rfl⟩
    | success =>
      simp only [hconnect] at h
      have hsettles : Settles {} s.conn (CouchbaseSite.searchBucket calls
          { s.moveConnection with this := s.moveConnection.this.clear }) :=
        Settles.searchBucket rfl rfl
      rw [h] at hsettles
      refine ⟨Or.inr ?_, hsettles.conn_eq, hsettles.connection_eq⟩
      obtain hone | hneg := hsettles.code_eq code rfl
      · omega
      · exact hneg

/-! ### Any number of calls -/

/-- A call of a caller who tries again: the cluster that it meets and how its calls turn out. -/
structure Attempt where
  /-- The cluster at the time of the call. -/
  cluster : Cluster
  /-- How the calls of the cluster turn out. -/
  calls : ClusterCalls
  deriving DecidableEq

/-- What the call returns, and the state that it leaves. -/
def Attempt.result (build : Build) (s : CouchbaseSite) (a : Attempt) :
    Except Unit ℤ × CouchbaseSite :=
  couchbaseInitialize build a.calls { s with cluster := a.cluster }

/-- `get_connection_data`. -/
def ICouchbase.getConnectionData (this : ICouchbase) : CouchbaseConnection := this.connection

/-- The call, and the caller's record for the next one, which is taken from the object behind the
moves. -/
def retry (build : Build) (s : CouchbaseSite) (a : Attempt) : CouchbaseSite :=
  match a.result build s with
  | (.ok code, s') => if IsMoved code then { s' with conn := s'.this.getConnectionData } else s'
  | (.error _, s') => s'

/-- Every call of the run returns a negative code. -/
def AllFail (build : Build) (s : CouchbaseSite) : List Attempt → Prop
  | [] => True
  | a :: attempts =>
    (∃ code < 0, (a.result build s).1 = .ok code) ∧ AllFail build (retry build s a) attempts

/-- A call that fails leaves the record as it was. -/
theorem conn_retry {s : CouchbaseSite} {a : Attempt}
    (h : ∃ code < 0, (a.result build s).1 = .ok code) : (retry build s a).conn = s.conn := by
  obtain ⟨code, hcode, hresult⟩ := h
  have hpair : a.result build s = (.ok code, (a.result build s).2) := by rw [← hresult]
  rw [retry, hpair]
  obtain ⟨-, -, hstays, hsame⟩ | ⟨hmoved, -, hconnection⟩ :=
    couchbaseInitialize_negative hpair hcode
  · simp only [if_neg hstays, hsame]
  · simp only [if_pos hmoved, ICouchbase.getConnectionData, hconnection]

/-- A run of failures leaves the record as it was. -/
theorem conn_foldl_retry {s : CouchbaseSite} {attempts : List Attempt}
    (h : AllFail build s attempts) : (attempts.foldl (retry build) s).conn = s.conn := by
  induction attempts generalizing s with
  | nil => rfl
  | cons a attempts ih =>
    calc ((a :: attempts).foldl (retry build) s).conn
        = (retry build s a).conn := ih h.2
      _ = s.conn := conn_retry h.1

theorem connectArguments_congr {s s' : CouchbaseSite} (h : s.conn = s'.conn) :
    connectArguments build s = connectArguments build s' := by
  simp only [connectArguments, CouchbaseSite.moveConnection, h]

/-- **Retries.** For both builds, every connection record and all outcomes of the calls. A negative
code is that of an empty field, and then the record is what it was before, or it is -9 or -69, and
then the record is empty and the object holds what was in it. After any number of failures a caller
who takes the data from where they are has the same record and attempts the same connection. -/
theorem couchbaseInitialize_retried (build : Build) (s : CouchbaseSite) :
    (∀ (calls : ClusterCalls) (s' : CouchbaseSite) (code : ℤ),
      couchbaseInitialize build calls s = (.ok code, s') → code < 0 →
        (build = .release ∧ s.conn.emptyField = some code ∧ s'.conn = s.conn) ∨
          (IsMoved code ∧ s'.conn = {} ∧ s'.this.getConnectionData = s.conn)) ∧
      ∀ attempts : List Attempt, AllFail build s attempts →
        (attempts.foldl (retry build) s).conn = s.conn ∧
          connectArguments build (attempts.foldl (retry build) s) = connectArguments build s := by
  constructor
  · intro calls s' code h hcode
    obtain ⟨hbuild, hfield, -, hsame⟩ | hmoved := couchbaseInitialize_negative h hcode
    · exact Or.inl ⟨hbuild, hfield, by rw [hsame]⟩
    · exact Or.inr hmoved
  · intro attempts hfail
    have hconn := conn_foldl_retry hfail
    exact ⟨hconn, connectArguments_congr hconn⟩

/-- An object that was never initialised, and a record without empty fields. -/
def filledSite : CouchbaseSite :=
  ⟨⟨str "127.0.0.1", str "user", str "secret", str "scope", str "table", str "bucket"⟩, {}, []⟩

/-- The server does not answer. -/
def unreachable : Attempt := ⟨[], ⟨.error, .error, .exception [], .error, .error [], .error []⟩⟩

/-- The bucket is not listed, and its creation throws. -/
def uncreatable : Attempt :=
  ⟨[], ⟨.success, .success, .exception [], .error, .error [], .error []⟩⟩

/-- After a failed connection and a failed creation the third call connects as the first did. -/
theorem couchbaseInitialize_retried_twice :
    connectArguments .release ([unreachable, uncreatable].foldl (retry .release) filledSite) =
      some (str "127.0.0.1", str "user", str "secret") :=
  ((couchbaseInitialize_retried .release filledSite).2 [unreachable, uncreatable]
    ⟨⟨-9, by decide, rfl⟩, ⟨-69, by decide, rfl⟩, trivial⟩).2

/-- The code -9 leaves the caller's record empty: the next call with it is refused by a release
build, and connects with empty texts in a debug build. -/
theorem not_kept_unreachable :
    ¬ (∀ (build : Build) (calls : ClusterCalls) (s s' : CouchbaseSite) (code : ℤ),
        couchbaseInitialize build calls s = (.ok code, s') → code < 0 → s'.conn = s.conn) ∧
      connectArguments .release (unreachable.result .release filledSite).2 = none ∧
      connectArguments .debug (unreachable.result .debug filledSite).2 = some ([], [], []) := by
  refine ⟨?_, rfl, rfl⟩
  intro h
  have hconn := h .release unreachable.calls filledSite _ (-9) rfl (by decide)
  revert hconn
  decide

end Behh
