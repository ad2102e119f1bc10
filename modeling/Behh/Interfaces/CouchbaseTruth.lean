import Behh.Interfaces.Couchbase

/-!
# What a Couchbase initialization reports

`initialize_constructor` returns 1 when the connection has been made and no call has thrown that it
has to make. The three members that the getters return are set in the searches only: after an object
has been created, or its creation has failed with an error value, the member is 0. So what is
reported is the truth exactly when nothing had to be created, since a listing that fails is one
without anything in it.

## Main definitions

* `CouchbaseSite.Completes`: the condition on which 1 is returned.
* `CouchbaseSite.final`: the state that is left then.
* `CouchbaseSite.Found`: the bucket, the scope and the collection are listed.
* `ReportsTruth`: if 1 is returned, the configured objects exist and the getters say so.

## Main results

* `couchbaseInitialize_eq_one_iff`: when 1 is returned, and what is left.
* `reportsTruth_iff`: when what is reported is the truth.
-/

namespace Behh

variable {build : Build} {calls : ClusterCalls}

/-! ### The searches -/

namespace ICouchbase

variable {this : ICouchbase} {names : List Bytes}

theorem any_eq_iff {name : Bytes} : (names.any fun n => n = name) = true ↔ name ∈ names := by
  simp

@[simp] theorem connection_noteBucket :
    (this.noteBucket names).connection = this.connection := by
  rw [noteBucket]
  split_ifs <;> rfl

@[simp] theorem currentBucketExists_noteBucket :
    (this.noteBucket names).currentBucketExists =
      if this.connection.clusterBucketName ∈ names then 1 else this.currentBucketExists := by
  rw [noteBucket]
  simp only [any_eq_iff]
  split_ifs <;> rfl

@[simp] theorem currentBucketScopeExists_noteBucket :
    (this.noteBucket names).currentBucketScopeExists = this.currentBucketScopeExists := by
  rw [noteBucket]
  split_ifs <;> rfl

@[simp] theorem currentBucketScopeCollectionExists_noteBucket :
    (this.noteBucket names).currentBucketScopeCollectionExists =
      this.currentBucketScopeCollectionExists := by
  rw [noteBucket]
  split_ifs <;> rfl

end ICouchbase

/-- The scope is listed. -/
def ListsScope (specs : List ScopeSpec) (scope : Bytes) : Prop := ∃ s ∈ specs, s.name = scope

/-- The collection is listed in the first scope with the name. -/
def ListsCollection (specs : List ScopeSpec) (scope collection : Bytes) : Prop :=
  ∃ s ∈ specs.find? fun s => s.name = scope, collection ∈ s.collections

instance (specs : List ScopeSpec) (scope : Bytes) : Decidable (ListsScope specs scope) :=
  inferInstanceAs (Decidable (∃ s ∈ specs, s.name = scope))

instance (specs : List ScopeSpec) (scope collection : Bytes) :
    Decidable (ListsCollection specs scope collection) :=
  inferInstanceAs (Decidable (∃ s ∈ specs.find? fun s => s.name = scope,
    collection ∈ s.collections))

theorem listsScope_of_listsCollection {specs : List ScopeSpec} {scope collection : Bytes}
    (h : ListsCollection specs scope collection) : ListsScope specs scope := by
  obtain ⟨s, hs, -⟩ := h
  exact ⟨s, List.mem_of_find?_eq_some hs, by simpa using List.find?_some hs⟩

theorem ICouchbase.noteScope_eq (this : ICouchbase) (specs : List ScopeSpec) :
    this.noteScope specs =
      { this with
        currentBucketScopeExists :=
          if ListsScope specs this.connection.scopeName then 1 else this.currentBucketScopeExists
        currentBucketScopeCollectionExists :=
          if ListsCollection specs this.connection.scopeName this.connection.collectionName then 1
          else this.currentBucketScopeCollectionExists } := by
  rw [noteScope]
  cases hfind : specs.find? fun s => s.name = this.connection.scopeName with
  | none =>
    have hscope : ¬ ListsScope specs this.connection.scopeName := by
      rintro ⟨s, hs, hname⟩
      exact List.find?_eq_none.1 hfind s hs (by simpa using hname)
    rw [if_neg hscope, if_neg fun h => hscope (listsScope_of_listsCollection h)]
  | some s =>
    have hscope : ListsScope specs this.connection.scopeName :=
      ⟨s, List.mem_of_find?_eq_some hfind, by simpa using List.find?_some hfind⟩
    have hcollection : ListsCollection specs this.connection.scopeName
        this.connection.collectionName ↔ this.connection.collectionName ∈ s.collections := by
      simp [ListsCollection, hfind]
    simp only [if_pos hscope, hcollection, any_eq_iff]
    split_ifs <;> rfl

/-! ### The run -/

namespace CouchbaseSite

variable {s s' : CouchbaseSite}

theorem createCollection_eq_one_iff : s.createCollection calls = (.ok 1, s') ↔
    (s.this.currentBucketScopeCollectionExists = 0 → ¬ calls.createCollection.Throws) ∧
      s' = { s with
        cluster := if s.this.currentBucketScopeCollectionExists = 0 then
            calls.createCollection.cluster (s.cluster.addCollection
              s.this.connection.clusterBucketName s.this.connection.scopeName
              s.this.connection.collectionName)
          else s.cluster } := by
  rw [createCollection]
  by_cases hflag : s.this.currentBucketScopeCollectionExists = 0
  · by_cases hthrows : calls.createCollection.Throws
    · simp [hflag, hthrows]
    · simp [hflag, hthrows, eq_comm]
  · simp only [hflag, if_false, false_implies, true_and, Prod.mk.injEq]
    exact eq_comm

theorem createScope_eq_one_iff : s.createScope calls = (.ok 1, s') ↔
    (s.this.currentBucketScopeExists = 0 → ¬ calls.createScope.Throws) ∧
      createCollection calls { s with
        cluster := if s.this.currentBucketScopeExists = 0 then
            calls.createScope.cluster (s.cluster.addScope s.this.connection.clusterBucketName
              s.this.connection.scopeName)
          else s.cluster } = (.ok 1, s') := by
  rw [createScope]
  by_cases hflag : s.this.currentBucketScopeExists = 0
  · by_cases hthrows : calls.createScope.Throws
    · simp [hflag, hthrows]
    · simp [hflag, hthrows]
  · simp [hflag]

theorem searchScope_eq_one_iff : s.searchScope calls = (.ok 1, s') ↔
    calls.getAllScopes ≠ .exception ∧
      createScope calls { s with
        this := s.this.noteScope
          (calls.scopes s.cluster s.this.connection.clusterBucketName) } = (.ok 1, s') := by
  rw [searchScope]
  by_cases hthrows : calls.getAllScopes = .exception
  · simp [hthrows]
  · simp [hthrows]

theorem createBucket_eq_one_iff : s.createBucket calls = (.ok 1, s') ↔
    (s.this.currentBucketExists = 0 → ¬ calls.createBucket.Throws) ∧
      searchScope calls { s with
        cluster := if s.this.currentBucketExists = 0 then
            calls.createBucket.cluster (s.cluster.addBucket
              (if s.this.connection.clusterBucketName = [] then str "bucket_default"
                else s.this.connection.clusterBucketName))
          else s.cluster } = (.ok 1, s') := by
  rw [createBucket]
  by_cases hflag : s.this.currentBucketExists = 0
  · by_cases hthrows : calls.createBucket.Throws
    · simp [hflag, hthrows]
    · simp [hflag, hthrows]
  · simp [hflag]

theorem searchBucket_eq_one_iff : s.searchBucket calls = (.ok 1, s') ↔
    calls.getAllBuckets ≠ .exception ∧
      createBucket calls { s with this := s.this.noteBucket (calls.buckets s.cluster) } =
        (.ok 1, s') := by
  rw [searchBucket]
  by_cases hthrows : calls.getAllBuckets = .exception
  · simp [hthrows]
  · simp [hthrows]

end CouchbaseSite

theorem CouchbaseConnection.emptyField_ne_one (conn : CouchbaseConnection) :
    conn.emptyField ≠ some 1 := by
  rw [emptyField]
  split_ifs <;> simp

theorem couchbaseInitialize_eq_one {s s' : CouchbaseSite} :
    couchbaseInitialize build calls s = (.ok 1, s') ↔
      (build = .release → s.conn.emptyField = none) ∧ calls.connect = .success ∧
        CouchbaseSite.searchBucket calls
          ⟨{}, { connection := s.conn }, s.cluster⟩ = (.ok 1, s') := by
  have hne := s.conn.emptyField_ne_one
  rw [couchbaseInitialize]
  cases hguard : (if build = .release then s.conn.emptyField else none) with
  | some code =>
    have hbuild : build = .release := by
      by_contra hdebug
      rw [if_neg hdebug] at hguard
      cases hguard
    rw [if_pos hbuild] at hguard
    rw [hguard, Ne, Option.some_inj] at hne
    simp [hbuild, hguard, hne]
  | none =>
    have hfields : build = .release → s.conn.emptyField = none := fun hbuild => by
      rwa [if_pos hbuild] at hguard
    cases hconnect : calls.connect with
    | success =>
      simp only [CouchbaseSite.moveConnection, ICouchbase.clear, true_and]
      exact (and_iff_right hfields).symm
    | error => simp
    | exception => simp

namespace CouchbaseSite

/-- The bucket is listed. -/
def ListsBucket (calls : ClusterCalls) (s : CouchbaseSite) : Prop :=
  s.conn.clusterBucketName ∈ calls.buckets s.cluster

instance (calls : ClusterCalls) (s : CouchbaseSite) : Decidable (s.ListsBucket calls) :=
  inferInstanceAs (Decidable (_ ∈ _))

/-- The cluster when the scopes are listed. -/
def clusterForScopes (calls : ClusterCalls) (s : CouchbaseSite) : Cluster :=
  if s.ListsBucket calls then s.cluster
  else calls.createBucket.cluster (s.cluster.addBucket
    (if s.conn.clusterBucketName = [] then str "bucket_default" else s.conn.clusterBucketName))

/-- The scopes that are listed. -/
def listedScopes (calls : ClusterCalls) (s : CouchbaseSite) : List ScopeSpec :=
  calls.scopes (s.clusterForScopes calls) s.conn.clusterBucketName

/-- No field is empty in a release build, the connection is made, and no call that has to be made
throws: the listings are always made, and what is not listed is created. -/
structure Completes (build : Build) (calls : ClusterCalls) (s : CouchbaseSite) : Prop where
  fields : build = .release → s.conn.emptyField = none
  connect : calls.connect = .success
  getAllBuckets : calls.getAllBuckets ≠ .exception
  createBucket : ¬ s.ListsBucket calls → ¬ calls.createBucket.Throws
  getAllScopes : calls.getAllScopes ≠ .exception
  createScope : ¬ ListsScope (s.listedScopes calls) s.conn.scopeName → ¬ calls.createScope.Throws
  createCollection :
    ¬ ListsCollection (s.listedScopes calls) s.conn.scopeName s.conn.collectionName →
      ¬ calls.createCollection.Throws

/-- The cluster when the collection is created. -/
def clusterForCollection (calls : ClusterCalls) (s : CouchbaseSite) : Cluster :=
  if ListsScope (s.listedScopes calls) s.conn.scopeName then s.clusterForScopes calls
  else calls.createScope.cluster
    ((s.clusterForScopes calls).addScope s.conn.clusterBucketName s.conn.scopeName)

/-- The state that is left when 1 is returned. -/
def final (calls : ClusterCalls) (s : CouchbaseSite) : CouchbaseSite where
  conn := {}
  this :=
    { connection := s.conn
      currentBucketExists := if s.ListsBucket calls then 1 else 0
      currentBucketScopeExists :=
        if ListsScope (s.listedScopes calls) s.conn.scopeName then 1 else 0
      currentBucketScopeCollectionExists :=
        if ListsCollection (s.listedScopes calls) s.conn.scopeName s.conn.collectionName then 1
        else 0 }
  cluster :=
    if ListsCollection (s.listedScopes calls) s.conn.scopeName s.conn.collectionName then
      s.clusterForCollection calls
    else calls.createCollection.cluster ((s.clusterForCollection calls).addCollection
      s.conn.clusterBucketName s.conn.scopeName s.conn.collectionName)

end CouchbaseSite

theorem ite_one_zero_eq_zero_iff {p : Prop} [Decidable p] :
    (if p then (1 : ℤ) else 0) = 0 ↔ ¬ p := by
  by_cases hp : p <;> simp [hp]

/-- **The outcome.** `initialize_constructor` returns 1 exactly when it completes. -/
theorem couchbaseInitialize_eq_one_iff {s s' : CouchbaseSite} :
    couchbaseInitialize build calls s = (.ok 1, s') ↔
      s.Completes build calls ∧ s' = s.final calls := by
  have hcluster : ∀ {p : Prop} [Decidable p] {a b : Cluster},
      (if ¬ p then a else b) = if p then b else a := fun {p} _ _ _ => by
    by_cases hp : p <;> simp [hp]
  rw [couchbaseInitialize_eq_one, CouchbaseSite.searchBucket_eq_one_iff,
    CouchbaseSite.createBucket_eq_one_iff, CouchbaseSite.searchScope_eq_one_iff,
    CouchbaseSite.createScope_eq_one_iff, CouchbaseSite.createCollection_eq_one_iff]
  simp only [ICouchbase.noteScope_eq, ICouchbase.connection_noteBucket,
    ICouchbase.currentBucketExists_noteBucket, ICouchbase.currentBucketScopeExists_noteBucket,
    ICouchbase.currentBucketScopeCollectionExists_noteBucket, ite_one_zero_eq_zero_iff, hcluster]
  constructor
  · rintro ⟨hfields, hconnect, hbuckets, hbucket, hscopes, hscope, hcollection, rfl⟩
    exact ⟨⟨hfields, hconnect, hbuckets, hbucket, hscopes, hscope, hcollection⟩, rfl⟩
  · rintro ⟨h, rfl⟩
    exact ⟨h.fields, h.connect, h.getAllBuckets, h.createBucket, h.getAllScopes, h.createScope,
      h.createCollection, rfl⟩

/-! ### The report -/

/-- If `initialize_constructor` returns 1, the configured bucket, scope and collection exist, and
the getters return 1. -/
def ReportsTruth (build : Build) (calls : ClusterCalls) (s : CouchbaseSite) : Prop :=
  ∀ s', couchbaseInitialize build calls s = (.ok 1, s') →
    (s'.cluster.HasBucket s.conn.clusterBucketName ∧
      s'.cluster.HasScope s.conn.clusterBucketName s.conn.scopeName ∧
      s'.cluster.HasCollection s.conn.clusterBucketName s.conn.scopeName s.conn.collectionName) ∧
    s'.this.getCurrentBucketIsExists = 1 ∧ s'.this.getCurrentBucketScopeIsExists = 1 ∧
      s'.this.getCurrentBucketScopeCollectionIsExists = 1

namespace CouchbaseSite

variable {s : CouchbaseSite}

/-- Both listings succeed, and the bucket, the scope and the collection are in them. -/
structure Found (calls : ClusterCalls) (s : CouchbaseSite) : Prop where
  getAllBuckets : calls.getAllBuckets = .success
  bucket : s.cluster.HasBucket s.conn.clusterBucketName
  getAllScopes : calls.getAllScopes = .success
  collection : ListsCollection (s.cluster.scopes s.conn.clusterBucketName) s.conn.scopeName
    s.conn.collectionName

theorem listsBucket_iff : s.ListsBucket calls ↔
    calls.getAllBuckets = .success ∧ s.cluster.HasBucket s.conn.clusterBucketName := by
  rw [ListsBucket, ClusterCalls.buckets]
  split_ifs with hcall
  · simp [hcall, Cluster.HasBucket]
  · simp [hcall]

theorem not_listsCollection_nil (scope collection : Bytes) :
    ¬ ListsCollection [] scope collection := by
  rintro ⟨s, hs, -⟩
  cases hs

theorem found_iff : s.Found calls ↔ s.ListsBucket calls ∧
    ListsCollection (s.listedScopes calls) s.conn.scopeName s.conn.collectionName := by
  constructor
  · intro h
    have hbucket := listsBucket_iff.2 ⟨h.getAllBuckets, h.bucket⟩
    refine ⟨hbucket, ?_⟩
    rw [listedScopes, clusterForScopes, if_pos hbucket, ClusterCalls.scopes, if_pos h.getAllScopes]
    exact h.collection
  · rintro ⟨hbucket, hcollection⟩
    obtain ⟨hcall, hexists⟩ := listsBucket_iff.1 hbucket
    rw [listedScopes, clusterForScopes, if_pos hbucket, ClusterCalls.scopes] at hcollection
    split_ifs at hcollection with hscopes
    · exact ⟨hcall, hexists, hscopes, hcollection⟩
    · exact absurd hcollection (not_listsCollection_nil _ _)

end CouchbaseSite

theorem Cluster.hasCollection_of_lists {cluster : Cluster} {bucket scope collection : Bytes}
    (h : ListsCollection (cluster.scopes bucket) scope collection) :
    cluster.HasCollection bucket scope collection := by
  obtain ⟨s, hs, hcollection⟩ := h
  rw [scopes] at hs
  cases hfind : cluster.find? fun b => b.name = bucket with
  | none =>
    rw [hfind] at hs
    cases hs
  | some b =>
    rw [hfind, Option.map_some, Option.getD_some] at hs
    exact ⟨b, List.mem_of_find?_eq_some hfind, by simpa using List.find?_some hfind, s,
      List.mem_of_find?_eq_some hs, by simpa using List.find?_some hs, hcollection⟩

/-- **The truth.** For every build, every connection record, every cluster and all outcomes of the
calls: what `initialize_constructor` reports is the truth exactly when it does not complete, or has
found the bucket, the scope and the collection. -/
theorem reportsTruth_iff (build : Build) (calls : ClusterCalls) (s : CouchbaseSite) :
    ReportsTruth build calls s ↔ (s.Completes build calls → s.Found calls) := by
  constructor
  · intro h hcompletes
    obtain ⟨-, hbucket, -, hcollection⟩ :=
      h _ (couchbaseInitialize_eq_one_iff.2 ⟨hcompletes, rfl⟩)
    rw [CouchbaseSite.found_iff]
    constructor
    · by_contra hnot
      rw [ICouchbase.getCurrentBucketIsExists, CouchbaseSite.final, if_neg hnot] at hbucket
      cases hbucket
    · by_contra hnot
      rw [ICouchbase.getCurrentBucketScopeCollectionIsExists, CouchbaseSite.final,
        if_neg hnot] at hcollection
      cases hcollection
  · intro h s' hone
    obtain ⟨hcompletes, rfl⟩ := couchbaseInitialize_eq_one_iff.1 hone
    have hfound := h hcompletes
    obtain ⟨hbucket, hcollection⟩ := CouchbaseSite.found_iff.1 hfound
    have hscope := listsScope_of_listsCollection hcollection
    have hcluster : (s.final calls).cluster = s.cluster := by
      simp only [CouchbaseSite.final, if_pos hcollection, CouchbaseSite.clusterForCollection,
        if_pos hscope, CouchbaseSite.clusterForScopes, if_pos hbucket]
    rw [hcluster]
    have hexists := Cluster.hasCollection_of_lists hfound.collection
    refine ⟨⟨hfound.bucket, ?_, hexists⟩, if_pos hbucket, if_pos hscope, if_pos hcollection⟩
    obtain ⟨b, hb, hname, s, hs, hscopeName, -⟩ := hexists
    exact ⟨b, hb, hname, s, hs, hscopeName⟩

/-- On an empty cluster, with all calls successful, 1 is returned and the getters return 0. -/
theorem not_reportsTruth_empty :
    ¬ ReportsTruth .release ⟨.success, .success, .success, .success, .success, .success⟩
      ⟨⟨str "127.0.0.1", str "user", str "secret", str "scope", str "table", str "bucket"⟩, {},
        []⟩ := by
  intro h
  have hbucket := (h _ rfl).2.1
  revert hbucket
  decide

end Behh
