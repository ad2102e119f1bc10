import Behh.Std.Bytes

/-!
# The Couchbase interface

`_ICouchbase::initialize_constructor` of `src/icouchbase_core_interface.cc` connects to a cluster,
looks for the configured bucket, scope and collection, and creates what it has not found. Every call
of the cluster can succeed, yield an error value or throw; how each of them turns out is a
parameter. A call that creates something and does not succeed may leave any cluster behind, since
the request may have been carried out.

The function is compiled in two ways: a debug build only warns of empty fields, a release build
returns an error for them.

## Main definitions

* `CouchbaseConnection`, `ICouchbase`: the data of a connection and of an object.
* `Cluster`: buckets, scopes and collections.
* `ClusterCalls`: how the calls turn out.
* `CouchbaseConnection.emptyField`, `ICouchbase.noteBucket`, `ICouchbase.noteScope`: the check of
  the fields and the two searches.
* `couchbaseInitialize`: `initialize_constructor`.
-/

namespace Behh

/-! ### Data -/

/-- `couchbase_connection_t`. -/
structure CouchbaseConnection where
  /-- The contact point. -/
  host : Bytes := []
  /-- The name to authenticate with. -/
  username : Bytes := []
  /-- The password to authenticate with. -/
  password : Bytes := []
  /-- The scope. -/
  scopeName : Bytes := []
  /-- The collection. -/
  collectionName : Bytes := []
  /-- The bucket. -/
  clusterBucketName : Bytes := []
  deriving DecidableEq

/-- The error code of the first field that is empty, in a release build. -/
def CouchbaseConnection.emptyField (conn : CouchbaseConnection) : Option ℤ :=
  if conn.host = [] then some (-1)
  else if conn.username = [] then some (-2)
  else if conn.password = [] then some (-3)
  else if conn.scopeName = [] then some (-4)
  else if conn.clusterBucketName = [] then some (-5)
  else if conn.collectionName = [] then some (-7)
  else none

/-- A scope of a bucket, with the names of its collections. -/
structure ScopeSpec where
  /-- The name of the scope. -/
  name : Bytes
  /-- The collections in the scope. -/
  collections : List Bytes
  deriving DecidableEq

/-- A bucket with its scopes. -/
structure BucketSpec where
  /-- The name of the bucket. -/
  name : Bytes
  /-- The scopes in the bucket. -/
  scopes : List ScopeSpec
  deriving DecidableEq

/-- The buckets of a cluster. -/
abbrev Cluster : Type := List BucketSpec

namespace Cluster

/-- The scopes of a bucket; none if there is no such bucket. -/
def scopes (cluster : Cluster) (bucket : Bytes) : List ScopeSpec :=
  ((cluster.find? fun b => b.name = bucket).map BucketSpec.scopes).getD []

/-- The bucket exists. -/
def HasBucket (cluster : Cluster) (bucket : Bytes) : Prop := ∃ b ∈ cluster, b.name = bucket

/-- The scope exists in the bucket. -/
def HasScope (cluster : Cluster) (bucket scope : Bytes) : Prop :=
  ∃ b ∈ cluster, b.name = bucket ∧ ∃ s ∈ b.scopes, s.name = scope

/-- The collection exists in the scope of the bucket. -/
def HasCollection (cluster : Cluster) (bucket scope collection : Bytes) : Prop :=
  ∃ b ∈ cluster, b.name = bucket ∧ ∃ s ∈ b.scopes, s.name = scope ∧ collection ∈ s.collections

/-- A new bucket, which has a default scope with a default collection. -/
def addBucket (cluster : Cluster) (bucket : Bytes) : Cluster :=
  cluster ++ [⟨bucket, [⟨str "_default", [str "_default"]⟩]⟩]

/-- A new scope in a bucket. -/
def addScope (cluster : Cluster) (bucket scope : Bytes) : Cluster :=
  cluster.map fun b =>
    if b.name = bucket then { b with scopes := b.scopes ++ [⟨scope, []⟩] } else b

/-- A new collection in a scope of a bucket. -/
def addCollection (cluster : Cluster) (bucket scope collection : Bytes) : Cluster :=
  cluster.map fun b =>
    if b.name = bucket then
      { b with scopes := b.scopes.map fun s =>
        if s.name = scope then { s with collections := s.collections ++ [collection] } else s }
    else b

end Cluster

/-- How a call turns out that does not change the cluster. -/
inductive Outcome where
  | success
  | error
  | exception
  deriving DecidableEq

/-- How a call turns out that creates something. -/
inductive Creation where
  | success
  | error (after : Cluster)
  | exception (after : Cluster)
  deriving DecidableEq

/-- The call throws. -/
def Creation.Throws : Creation → Prop
  | .exception _ => True
  | _ => False

instance (c : Creation) : Decidable c.Throws :=
  match c with
  | .success => isFalse id
  | .error _ => isFalse id
  | .exception _ => isTrue trivial

/-- The cluster after a call that makes `done` of it when it succeeds. -/
def Creation.cluster (done : Cluster) : Creation → Cluster
  | .success => done
  | .error after => after
  | .exception after => after

/-- How the calls of `initialize_constructor` turn out, if they are made. -/
structure ClusterCalls where
  /-- `couchbase::cluster::connect(..).get()`. -/
  connect : Outcome
  /-- `get_all_buckets().get()`. -/
  getAllBuckets : Outcome
  /-- `create_bucket(..).get()`. -/
  createBucket : Creation
  /-- `get_all_scopes().get()`. -/
  getAllScopes : Outcome
  /-- `create_scope(..).get()`. -/
  createScope : Creation
  /-- `create_collection(..).get()`. -/
  createCollection : Creation
  deriving DecidableEq

/-- The names that `get_all_buckets` yields when it does not throw; none with an error. -/
def ClusterCalls.buckets (calls : ClusterCalls) (cluster : Cluster) : List Bytes :=
  if calls.getAllBuckets = .success then cluster.map BucketSpec.name else []

/-- The scopes that `get_all_scopes` yields when it does not throw; none with an error. -/
def ClusterCalls.scopes (calls : ClusterCalls) (cluster : Cluster) (bucket : Bytes) :
    List ScopeSpec :=
  if calls.getAllScopes = .success then cluster.scopes bucket else []

/-- `_ICouchbase`. -/
structure ICouchbase where
  /-- `m_connection`. -/
  connection : CouchbaseConnection := {}
  /-- `m_current_bucket_exists`. -/
  currentBucketExists : ℤ := 0
  /-- `m_current_bucket_scope_exists`. -/
  currentBucketScopeExists : ℤ := 0
  /-- `m_current_bucket_scope_collection_exists`. -/
  currentBucketScopeCollectionExists : ℤ := 0
  deriving DecidableEq

namespace ICouchbase

/-- `get_current_bucket_is_exists`. -/
def getCurrentBucketIsExists (this : ICouchbase) : ℤ := this.currentBucketExists

/-- `get_current_bucket_scope_is_exists`. -/
def getCurrentBucketScopeIsExists (this : ICouchbase) : ℤ := this.currentBucketScopeExists

/-- `get_current_bucket_scope_collection_is_exists`. -/
def getCurrentBucketScopeCollectionIsExists (this : ICouchbase) : ℤ :=
  this.currentBucketScopeCollectionExists

/-- The three members are set to `false`. -/
def clear (this : ICouchbase) : ICouchbase :=
  { this with
    currentBucketExists := 0
    currentBucketScopeExists := 0
    currentBucketScopeCollectionExists := 0 }

/-- The loop over the buckets. -/
def noteBucket (this : ICouchbase) (allBuckets : List Bytes) : ICouchbase :=
  if allBuckets.any fun name => name = this.connection.clusterBucketName then
    { this with currentBucketExists := 1 }
  else this

/-- The loop over the scopes, which ends at the first scope with the configured name. -/
def noteScope (this : ICouchbase) (allScopes : List ScopeSpec) : ICouchbase :=
  match allScopes.find? fun s => s.name = this.connection.scopeName with
  | none => this
  | some scope =>
    let this := { this with currentBucketScopeExists := 1 }
    if scope.collections.any fun name => name = this.connection.collectionName then
      { this with currentBucketScopeCollectionExists := 1 }
    else this

end ICouchbase

/-! ### Initialization -/

/-- How the program is compiled. -/
inductive Build where
  | debug
  | release
  deriving DecidableEq

/-- The caller's connection data, the object, and the cluster. -/
structure CouchbaseSite where
  /-- The argument `conn`. -/
  conn : CouchbaseConnection
  /-- The object. -/
  this : ICouchbase
  /-- The cluster. -/
  cluster : Cluster
  deriving DecidableEq

namespace CouchbaseSite

/-- The fields of `conn` are moved into the object. A string that is moved from is empty. -/
def moveConnection (s : CouchbaseSite) : CouchbaseSite :=
  { s with conn := {}, this := { s.this with connection := s.conn } }

/-- From the creation of the collection on. -/
def createCollection (calls : ClusterCalls) (s : CouchbaseSite) : Except Unit ℤ × CouchbaseSite :=
  let conn := s.this.connection
  if s.this.currentBucketScopeCollectionExists = 0 then
    let done := s.cluster.addCollection conn.clusterBucketName conn.scopeName conn.collectionName
    let s := { s with cluster := calls.createCollection.cluster done }
    if calls.createCollection.Throws then (.error (), s) else (.ok 1, s)
  else (.ok 1, s)

/-- From the creation of the scope on. -/
def createScope (calls : ClusterCalls) (s : CouchbaseSite) : Except Unit ℤ × CouchbaseSite :=
  let conn := s.this.connection
  if s.this.currentBucketScopeExists = 0 then
    let done := s.cluster.addScope conn.clusterBucketName conn.scopeName
    let s := { s with cluster := calls.createScope.cluster done }
    if calls.createScope.Throws then (.error (), s) else s.createCollection calls
  else s.createCollection calls

/-- From the search for the scope on. -/
def searchScope (calls : ClusterCalls) (s : CouchbaseSite) : Except Unit ℤ × CouchbaseSite :=
  if calls.getAllScopes = .exception then (.error (), s)
  else
    let allScopes := calls.scopes s.cluster s.this.connection.clusterBucketName
    createScope calls { s with this := s.this.noteScope allScopes }

/-- From the creation of the bucket on. An exception is caught here. An empty name is replaced; a
release build does not get here with one. -/
def createBucket (calls : ClusterCalls) (s : CouchbaseSite) : Except Unit ℤ × CouchbaseSite :=
  if s.this.currentBucketExists = 0 then
    let name := s.this.connection.clusterBucketName
    let done := s.cluster.addBucket (if name = [] then str "bucket_default" else name)
    let s := { s with cluster := calls.createBucket.cluster done }
    if calls.createBucket.Throws then (.ok (-69), s) else s.searchScope calls
  else s.searchScope calls

/-- From the search for the bucket on. -/
def searchBucket (calls : ClusterCalls) (s : CouchbaseSite) : Except Unit ℤ × CouchbaseSite :=
  if calls.getAllBuckets = .exception then (.error (), s)
  else createBucket calls { s with this := s.this.noteBucket (calls.buckets s.cluster) }

end CouchbaseSite

/-- `_ICouchbase::initialize_constructor`: the code returned, or an exception. -/
def couchbaseInitialize (build : Build) (calls : ClusterCalls) (s : CouchbaseSite) :
    Except Unit ℤ × CouchbaseSite :=
  match if build = .release then s.conn.emptyField else none with
  | some code => (.ok code, s)
  | none =>
    match calls.connect with
    | .exception => (.error (), s.moveConnection)
    | .error => (.ok (-9), s.moveConnection)
    | .success =>
      let s := s.moveConnection
      CouchbaseSite.searchBucket calls { s with this := s.this.clear }

end Behh
