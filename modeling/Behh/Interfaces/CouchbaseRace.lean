import Behh.Interfaces.CouchbaseTruth
import Behh.Library.Runs
import Mathlib.Logic.Function.Iterate

/-!
# Clients that set up one Couchbase cluster at the same time

Several programs run `initialize_constructor` against one cluster. A step is one call of the
cluster by one of the clients, with the code that follows it up to the next call; the calls of the
clients come in any order. A client that looks for a bucket and then creates it may find that
another one has created it in between, which the server reports as an error, and the function does
not look at the errors of the calls that create something.

`CouchbaseSite.step` is the function cut at its calls. What a call does to the cluster is limited by
two assumptions on the server only: it is carried out or not (`CouchbaseRace.Atomic`), and an error
without effect means that the thing is there (`CouchbaseRace.Answered`).

## Main definitions

* `CouchbaseStage`, `CouchbaseSite.step`: the call that a client makes next, and one step.
* `CouchbaseRace`, `raceStep`: the clients and their cluster.
* `Cluster.Within`: everything in one cluster is in another one.

## Main results

* `iterate_step`: a client that is not interrupted runs `couchbaseInitialize`.
* `race_flags`: a flag that is set stays true, in all runs.
* `race_done_one`: a client that returns 1 has its collection, in all runs.
-/

namespace Behh

/-! ### One client -/

/-- The call of the cluster that a client makes next, or what the function has returned. -/
inductive CouchbaseStage where
  | connect
  | getAllBuckets
  | createBucket
  | getAllScopes
  | createScope
  | createCollection
  | done (result : Except Unit ℤ)
  deriving DecidableEq

/-- How the call that a client makes next turns out, if it creates something. -/
def ClusterCalls.creation (calls : ClusterCalls) : CouchbaseStage → Creation
  | .createBucket => calls.createBucket
  | .createScope => calls.createScope
  | .createCollection => calls.createCollection
  | _ => .success

/-- An error is reported only when the thing was created, which leads to `done`, or is there. -/
def Creation.Answers (done : Cluster) (present : Prop) : Creation → Prop
  | .error after => after = done ∨ present
  | _ => True

instance (done : Cluster) (present : Prop) [Decidable present] (c : Creation) :
    Decidable (c.Answers done present) :=
  match c with
  | .success => isTrue trivial
  | .error _ => inferInstanceAs (Decidable (_ = _ ∨ present))
  | .exception _ => isTrue trivial

namespace CouchbaseSite

/-- The cluster when the next call is carried out. -/
def created (s : CouchbaseSite) : CouchbaseStage → Cluster
  | .createBucket =>
    let name := s.this.connection.clusterBucketName
    s.cluster.addBucket (if name = [] then str "bucket_default" else name)
  | .createScope =>
    s.cluster.addScope s.this.connection.clusterBucketName s.this.connection.scopeName
  | .createCollection =>
    s.cluster.addCollection s.this.connection.clusterBucketName s.this.connection.scopeName
      s.this.connection.collectionName
  | _ => s.cluster

/-- What the next call is to create is there. -/
def Present (s : CouchbaseSite) : CouchbaseStage → Prop
  | .createBucket => s.cluster.HasBucket s.this.connection.clusterBucketName
  | .createScope =>
    s.cluster.HasScope s.this.connection.clusterBucketName s.this.connection.scopeName
  | .createCollection =>
    s.cluster.HasCollection s.this.connection.clusterBucketName s.this.connection.scopeName
      s.this.connection.collectionName
  | _ => True

instance (s : CouchbaseSite) (stage : CouchbaseStage) : Decidable (s.Present stage) :=
  match stage with
  | .createBucket => inferInstanceAs (Decidable (∃ b ∈ s.cluster, b.name = _))
  | .createScope =>
    inferInstanceAs (Decidable (∃ b ∈ s.cluster, b.name = _ ∧ ∃ sc ∈ b.scopes, sc.name = _))
  | .createCollection =>
    inferInstanceAs (Decidable (∃ b ∈ s.cluster, b.name = _ ∧
      ∃ sc ∈ b.scopes, sc.name = _ ∧ _ ∈ sc.collections))
  | .connect | .getAllBuckets | .getAllScopes | .done _ => .isTrue trivial

/-- The call after the one that creates the scope. -/
def afterScope (s : CouchbaseSite) : CouchbaseStage :=
  if s.this.currentBucketScopeCollectionExists = 0 then .createCollection else .done (.ok 1)

/-- The call after the search for the scope. -/
def afterScopes (s : CouchbaseSite) : CouchbaseStage :=
  if s.this.currentBucketScopeExists = 0 then .createScope else s.afterScope

/-- One call of the cluster, and the code up to the next one. -/
def step (build : Build) (calls : ClusterCalls) (s : CouchbaseSite) :
    CouchbaseStage → CouchbaseStage × CouchbaseSite
  | .connect =>
    match if build = .release then s.conn.emptyField else none with
    | some code => (.done (.ok code), s)
    | none =>
      match calls.connect with
      | .exception => (.done (.error ()), s.moveConnection)
      | .error => (.done (.ok (-9)), s.moveConnection)
      | .success =>
        (.getAllBuckets, { s.moveConnection with this := s.moveConnection.this.clear })
  | .getAllBuckets =>
    if calls.getAllBuckets = .exception then (.done (.error ()), s)
    else
      let this := s.this.noteBucket (calls.buckets s.cluster)
      (if this.currentBucketExists = 0 then .createBucket else .getAllScopes,
        { s with this := this })
  | .createBucket =>
    (if calls.createBucket.Throws then .done (.ok (-69)) else .getAllScopes,
      { s with cluster := calls.createBucket.cluster (s.created .createBucket) })
  | .getAllScopes =>
    if calls.getAllScopes = .exception then (.done (.error ()), s)
    else
      let s := { s with
        this := s.this.noteScope (calls.scopes s.cluster s.this.connection.clusterBucketName) }
      (s.afterScopes, s)
  | .createScope =>
    (if calls.createScope.Throws then .done (.error ()) else s.afterScope,
      { s with cluster := calls.createScope.cluster (s.created .createScope) })
  | .createCollection =>
    (.done (if calls.createCollection.Throws then .error () else .ok 1),
      { s with cluster := calls.createCollection.cluster (s.created .createCollection) })
  | .done result => (.done result, s)

/-! ### A client that is not interrupted -/

/-- One call after the other, without any of another client in between. -/
def next (build : Build) (calls : ClusterCalls) (p : CouchbaseStage × CouchbaseSite) :
    CouchbaseStage × CouchbaseSite := p.2.step build calls p.1

variable {build : Build} {calls : ClusterCalls}

theorem iterate_done (n : ℕ) (result : Except Unit ℤ) (s : CouchbaseSite) :
    (next build calls)^[n] (.done result, s) = (.done result, s) :=
  Function.iterate_fixed rfl n

theorem iterate_createCollection (s : CouchbaseSite) :
    (next build calls) (s.afterScope, s) =
      (.done (s.createCollection calls).1, (s.createCollection calls).2) := by
  rw [afterScope, createCollection]
  by_cases h : s.this.currentBucketScopeCollectionExists = 0
  · by_cases hthrows : calls.createCollection.Throws <;> simp [h, hthrows, next, step, created]
  · simp [h, next, step]

theorem iterate_createScope (s : CouchbaseSite) :
    (next build calls)^[2] (s.afterScopes, s) =
      (.done (s.createScope calls).1, (s.createScope calls).2) := by
  rw [afterScopes, createScope]
  by_cases h : s.this.currentBucketScopeExists = 0
  · simp only [if_pos h]
    rw [Function.iterate_succ_apply, next, step]
    by_cases hthrows : calls.createScope.Throws
    · simp only [if_pos hthrows]
      exact iterate_done 1 _ _
    · simp only [if_neg hthrows]
      exact iterate_createCollection
        { s with cluster := calls.createScope.cluster (s.created .createScope) }
  · simp only [if_neg h]
    rw [Function.iterate_succ_apply', Function.iterate_one, iterate_createCollection]
    rfl

theorem iterate_searchScope (s : CouchbaseSite) :
    (next build calls)^[3] (.getAllScopes, s) =
      (.done (s.searchScope calls).1, (s.searchScope calls).2) := by
  rw [searchScope, Function.iterate_succ_apply, next, step]
  by_cases h : calls.getAllScopes = .exception
  · simp only [if_pos h]
    exact iterate_done 2 _ s
  · simp only [if_neg h]
    exact iterate_createScope _

theorem iterate_createBucket (s : CouchbaseSite) :
    (next build calls)^[4]
        (if s.this.currentBucketExists = 0 then .createBucket else .getAllScopes, s) =
      (.done (s.createBucket calls).1, (s.createBucket calls).2) := by
  rw [createBucket]
  by_cases h : s.this.currentBucketExists = 0
  · simp only [if_pos h]
    rw [Function.iterate_succ_apply, next, step]
    by_cases hthrows : calls.createBucket.Throws
    · simp only [if_pos hthrows]
      exact iterate_done 3 _ _
    · simp only [if_neg hthrows]
      exact iterate_searchScope _
  · simp only [if_neg h]
    rw [Function.iterate_succ_apply', iterate_searchScope]
    rfl

/-- **A client that is not interrupted** runs `initialize_constructor`. -/
theorem iterate_step (build : Build) (calls : ClusterCalls) (s : CouchbaseSite) :
    (next build calls)^[6] (.connect, s) =
      (.done (couchbaseInitialize build calls s).1, (couchbaseInitialize build calls s).2) := by
  rw [couchbaseInitialize, Function.iterate_succ_apply, next, step]
  cases hfield : (if build = .release then s.conn.emptyField else none) with
  | some code => exact iterate_done 5 _ s
  | none =>
    cases hconnect : calls.connect with
    | exception => exact iterate_done 5 _ _
    | error => exact iterate_done 5 _ _
    | success =>
      rw [Function.iterate_succ_apply, next, step, searchBucket]
      by_cases h : calls.getAllBuckets = .exception
      · simp only [if_pos h]
        exact iterate_done 4 _ _
      · simp only [if_neg h]
        exact iterate_createBucket _

end CouchbaseSite

/-! ### Clusters that grow -/

namespace Cluster

/-- Every bucket, scope and collection of `c` is in `c'`. -/
structure Within (c c' : Cluster) : Prop where
  bucket : ∀ {b}, c.HasBucket b → c'.HasBucket b
  scope : ∀ {b s}, c.HasScope b s → c'.HasScope b s
  collection : ∀ {b s n}, c.HasCollection b s n → c'.HasCollection b s n

theorem Within.refl (c : Cluster) : c.Within c := ⟨id, id, id⟩

/-- A bucket that is changed in place keeps what it has, if its name and its scopes stay. -/
theorem within_map {f : BucketSpec → BucketSpec} (hname : ∀ b, (f b).name = b.name)
    (hscope : ∀ b, ∀ s ∈ b.scopes, ∃ s' ∈ (f b).scopes, s'.name = s.name ∧
      s.collections ⊆ s'.collections) (c : Cluster) : c.Within (c.map f) where
  bucket := by
    rintro _ ⟨b, hb, rfl⟩
    exact ⟨f b, List.mem_map_of_mem hb, hname b⟩
  scope := by
    rintro _ _ ⟨b, hb, rfl, s, hs, rfl⟩
    obtain ⟨s', hs', hname', -⟩ := hscope b s hs
    exact ⟨f b, List.mem_map_of_mem hb, hname b, s', hs', hname'⟩
  collection := by
    rintro _ _ n ⟨b, hb, rfl, s, hs, rfl, hn⟩
    obtain ⟨s', hs', hname', hcollections⟩ := hscope b s hs
    exact ⟨f b, List.mem_map_of_mem hb, hname b, s', hs', hname', hcollections hn⟩

theorem within_addBucket (c : Cluster) (bucket : Bytes) : c.Within (c.addBucket bucket) where
  bucket := fun ⟨b, hb, hname⟩ => ⟨b, List.mem_append_left _ hb, hname⟩
  scope := fun ⟨b, hb, hrest⟩ => ⟨b, List.mem_append_left _ hb, hrest⟩
  collection := fun ⟨b, hb, hrest⟩ => ⟨b, List.mem_append_left _ hb, hrest⟩

theorem within_addScope (c : Cluster) (bucket scope : Bytes) :
    c.Within (c.addScope bucket scope) := by
  refine within_map (fun b => ?_) (fun b s hs => ?_) c
  · split_ifs <;> rfl
  · split_ifs
    · exact ⟨s, List.mem_append_left _ hs, rfl, List.Subset.refl _⟩
    · exact ⟨s, hs, rfl, List.Subset.refl _⟩

theorem within_addCollection (c : Cluster) (bucket scope collection : Bytes) :
    c.Within (c.addCollection bucket scope collection) := by
  refine within_map (fun b => ?_) (fun b s hs => ?_) c
  · split_ifs <;> rfl
  · split_ifs
    · refine ⟨_, List.mem_map_of_mem hs, ?_⟩
      split_ifs
      · exact ⟨rfl, List.subset_append_left _ _⟩
      · exact ⟨rfl, List.Subset.refl _⟩
    · exact ⟨s, hs, rfl, List.Subset.refl _⟩

variable {c : Cluster} {bucket scope collection : Bytes}

theorem hasBucket_addBucket : (c.addBucket bucket).HasBucket bucket :=
  ⟨_, List.mem_append_right _ List.mem_cons_self, rfl⟩

theorem HasBucket.addScope (h : c.HasBucket bucket) :
    (c.addScope bucket scope).HasScope bucket scope := by
  obtain ⟨b, hb, rfl⟩ := h
  refine ⟨_, List.mem_map_of_mem hb, ?_⟩
  rw [if_pos rfl]
  exact ⟨rfl, _, List.mem_append_right _ List.mem_cons_self, rfl⟩

theorem HasScope.addCollection (h : c.HasScope bucket scope) :
    (c.addCollection bucket scope collection).HasCollection bucket scope collection := by
  obtain ⟨b, hb, rfl, s, hs, rfl⟩ := h
  refine ⟨_, List.mem_map_of_mem hb, ?_⟩
  rw [if_pos rfl]
  refine ⟨rfl, _, List.mem_map_of_mem hs, ?_⟩
  rw [if_pos rfl]
  exact ⟨rfl, List.mem_append_right _ List.mem_cons_self⟩

theorem hasScope_of_listsScope (h : ListsScope (c.scopes bucket) scope) :
    c.HasScope bucket scope := by
  obtain ⟨s, hs, hname⟩ := h
  rw [scopes] at hs
  cases hfind : c.find? fun b => b.name = bucket with
  | none => simp [hfind] at hs
  | some b =>
    rw [hfind] at hs
    exact ⟨b, List.mem_of_find?_eq_some hfind, by simpa using List.find?_some hfind, s, hs, hname⟩

end Cluster

/-! ### Many clients -/

/-- A client: how it is compiled, what it calls next, its connection record and its object. -/
structure CouchbaseClient where
  /-- How the client is compiled. -/
  build : Build
  /-- The call that comes next. -/
  stage : CouchbaseStage
  /-- The argument `conn`. -/
  conn : CouchbaseConnection
  /-- The object. -/
  this : ICouchbase
  deriving DecidableEq

/-- The clients, and their cluster. -/
structure CouchbaseRace (ι : Type) where
  /-- The cluster. -/
  cluster : Cluster
  /-- The clients. -/
  clients : ι → CouchbaseClient

variable {ι : Type}

/-- What one client sees. -/
def CouchbaseRace.site (r : CouchbaseRace ι) (i : ι) : CouchbaseSite :=
  ⟨(r.clients i).conn, (r.clients i).this, r.cluster⟩

/-- One step: a client makes its next call. The calls of the event that are not the next one do not
matter. -/
def raceStep [DecidableEq ι] (r : CouchbaseRace ι) (e : ι × ClusterCalls) : CouchbaseRace ι :=
  let client := r.clients e.1
  let out := (r.site e.1).step client.build e.2 client.stage
  { cluster := out.2.cluster
    clients := Function.update r.clients e.1
      { client with stage := out.1, conn := out.2.conn, this := out.2.this } }

/-- The call is carried out or not, whatever is reported. -/
def CouchbaseRace.Atomic (r : CouchbaseRace ι) (e : ι × ClusterCalls) : Prop :=
  let stage := (r.clients e.1).stage
  let done := (r.site e.1).created stage
  (e.2.creation stage).cluster done = done ∨ (e.2.creation stage).cluster done = r.cluster

/-- An error is reported only when the thing was created or is there. -/
def CouchbaseRace.Answered (r : CouchbaseRace ι) (e : ι × ClusterCalls) : Prop :=
  let stage := (r.clients e.1).stage
  (e.2.creation stage).Answers ((r.site e.1).created stage) ((r.site e.1).Present stage)

instance (r : CouchbaseRace ι) (e : ι × ClusterCalls) : Decidable (r.Atomic e) :=
  inferInstanceAs (Decidable (_ = _ ∨ _ = _))

instance (r : CouchbaseRace ι) (e : ι × ClusterCalls) : Decidable (r.Answered e) :=
  inferInstanceAs (Decidable (Creation.Answers _ _ _))

namespace CouchbaseSite

variable {build : Build} {calls : ClusterCalls}

theorem cluster_step (s : CouchbaseSite) (stage : CouchbaseStage) :
    (s.step build calls stage).2.cluster =
      (calls.creation stage).cluster (s.created stage) := by
  cases stage with
  | connect =>
    rw [step]
    split
    · rfl
    · split <;> rfl
  | getAllBuckets =>
    rw [step]
    split <;> rfl
  | getAllScopes =>
    rw [step]
    split <;> rfl
  | createBucket => rfl
  | createScope => rfl
  | createCollection => rfl
  | done result => rfl

/-- A call that is carried out keeps everything that is there. -/
theorem within_created (s : CouchbaseSite) (stage : CouchbaseStage) :
    s.cluster.Within (s.created stage) := by
  cases stage with
  | createBucket => exact s.cluster.within_addBucket _
  | createScope => exact s.cluster.within_addScope _ _
  | createCollection => exact s.cluster.within_addCollection _ _ _
  | _ => exact Cluster.Within.refl _

end CouchbaseSite

theorem within_raceStep [DecidableEq ι] {r : CouchbaseRace ι} {e : ι × ClusterCalls}
    (h : r.Atomic e) : r.cluster.Within (raceStep r e).cluster := by
  have hcluster : (raceStep r e).cluster = (e.2.creation (r.clients e.1).stage).cluster
      ((r.site e.1).created (r.clients e.1).stage) := CouchbaseSite.cluster_step _ _
  rw [hcluster]
  obtain hdone | hkept := h
  · rw [hdone]
    exact (r.site e.1).within_created (r.clients e.1).stage
  · rw [hkept]
    exact Cluster.Within.refl _

/-! ### What a client has found -/

/-- No flag is set. -/
structure ICouchbase.Unset (this : ICouchbase) : Prop where
  bucket : this.currentBucketExists = 0
  scope : this.currentBucketScopeExists = 0
  collection : this.currentBucketScopeCollectionExists = 0

/-- What an object reports is there. -/
structure ICouchbase.True (this : ICouchbase) (cluster : Cluster) : Prop where
  bucket : this.getCurrentBucketIsExists ≠ 0 →
    cluster.HasBucket this.connection.clusterBucketName
  scope : this.getCurrentBucketScopeIsExists ≠ 0 →
    cluster.HasScope this.connection.clusterBucketName this.connection.scopeName
  collection : this.getCurrentBucketScopeCollectionIsExists ≠ 0 →
    cluster.HasCollection this.connection.clusterBucketName this.connection.scopeName
      this.connection.collectionName

namespace ICouchbase

variable {this : ICouchbase} {cluster cluster' : Cluster}

theorem Unset.true (h : this.Unset) (cluster : Cluster) : this.True cluster :=
  ⟨fun hne => absurd h.bucket hne, fun hne => absurd h.scope hne,
    fun hne => absurd h.collection hne⟩

theorem True.mono (h : this.True cluster) (hwithin : cluster.Within cluster') :
    this.True cluster' :=
  ⟨fun hne => hwithin.bucket (h.bucket hne), fun hne => hwithin.scope (h.scope hne),
    fun hne => hwithin.collection (h.collection hne)⟩

theorem unset_clear (this : ICouchbase) : this.clear.Unset := ⟨rfl, rfl, rfl⟩

theorem hasBucket_of_mem_buckets {calls : ClusterCalls} {name : Bytes}
    (h : name ∈ calls.buckets cluster) : cluster.HasBucket name := by
  rw [ClusterCalls.buckets] at h
  split at h
  · obtain ⟨b, hb, hname⟩ := List.mem_map.1 h
    exact ⟨b, hb, hname⟩
  · simp at h

/-- The search for the bucket reports what is there. -/
theorem True.noteBucket (h : this.True cluster) (calls : ClusterCalls) :
    (this.noteBucket (calls.buckets cluster)).True cluster := by
  rw [ICouchbase.noteBucket]
  split_ifs with hany
  · exact ⟨fun _ => hasBucket_of_mem_buckets (any_eq_iff.1 hany), h.scope, h.collection⟩
  · exact h

theorem hasScope_of_listsScope {calls : ClusterCalls} {bucket scope : Bytes}
    (h : ListsScope (calls.scopes cluster bucket) scope) : cluster.HasScope bucket scope := by
  rw [ClusterCalls.scopes] at h
  split at h
  · exact Cluster.hasScope_of_listsScope h
  · obtain ⟨s, hs, -⟩ := h
    cases hs

theorem hasCollection_of_listsCollection {calls : ClusterCalls} {bucket scope collection : Bytes}
    (h : ListsCollection (calls.scopes cluster bucket) scope collection) :
    cluster.HasCollection bucket scope collection := by
  rw [ClusterCalls.scopes] at h
  split at h
  · exact Cluster.hasCollection_of_lists h
  · exact absurd h (CouchbaseSite.not_listsCollection_nil scope collection)

/-- The search for the scope reports what is there. -/
theorem True.noteScope (h : this.True cluster) (calls : ClusterCalls) :
    (this.noteScope (calls.scopes cluster this.connection.clusterBucketName)).True cluster := by
  rw [noteScope_eq]
  refine ⟨h.bucket, fun hne => ?_, fun hne => ?_⟩
  · by_cases hlists : ListsScope
        (calls.scopes cluster this.connection.clusterBucketName) this.connection.scopeName
    · exact hasScope_of_listsScope hlists
    · exact h.scope (by simpa [getCurrentBucketScopeIsExists, hlists] using hne)
  · by_cases hlists : ListsCollection (calls.scopes cluster this.connection.clusterBucketName)
        this.connection.scopeName this.connection.collectionName
    · exact hasCollection_of_listsCollection hlists
    · exact h.collection
        (by simpa [getCurrentBucketScopeCollectionIsExists, hlists] using hne)

end ICouchbase

namespace CouchbaseSite

variable {build : Build} {calls : ClusterCalls} {s : CouchbaseSite} {stage : CouchbaseStage}

/-- The flags are true, and before a client has connected none is set. -/
def Flagged (s : CouchbaseSite) (stage : CouchbaseStage) : Prop :=
  s.this.True s.cluster ∧ (stage = .connect → s.this.Unset)

/-- **One step keeps the flags true**, when it loses nothing. -/
theorem Flagged.step (h : s.Flagged stage)
    (hwithin : s.cluster.Within (s.step build calls stage).2.cluster) :
    (s.step build calls stage).2.Flagged (s.step build calls stage).1 := by
  obtain ⟨htrue, hunset⟩ := h
  cases stage with
  | connect =>
    have hmoved : s.moveConnection.this.Unset :=
      ⟨(hunset rfl).bucket, (hunset rfl).scope, (hunset rfl).collection⟩
    rw [CouchbaseSite.step]
    split
    · exact ⟨htrue, nofun⟩
    · split
      · exact ⟨hmoved.true _, nofun⟩
      · exact ⟨hmoved.true _, nofun⟩
      · exact ⟨(ICouchbase.unset_clear _).true _, nofun⟩
  | getAllBuckets =>
    rw [CouchbaseSite.step]
    split
    · exact ⟨htrue, nofun⟩
    · refine ⟨htrue.noteBucket calls, fun hstage => ?_⟩
      dsimp only at hstage
      split at hstage <;> cases hstage
  | createBucket =>
    refine ⟨htrue.mono hwithin, fun hstage => ?_⟩
    rw [CouchbaseSite.step] at hstage
    dsimp only at hstage
    split at hstage <;> cases hstage
  | getAllScopes =>
    rw [CouchbaseSite.step]
    split
    · exact ⟨htrue, nofun⟩
    · refine ⟨htrue.noteScope calls, fun hstage => ?_⟩
      simp only [afterScopes, afterScope] at hstage
      split_ifs at hstage
  | createScope =>
    refine ⟨htrue.mono hwithin, fun hstage => ?_⟩
    simp only [CouchbaseSite.step, afterScope] at hstage
    split_ifs at hstage
  | createCollection => exact ⟨htrue.mono hwithin, nofun⟩
  | done result => exact ⟨htrue, nofun⟩

/-- What a client that is to set up `conn` relies on before its next call. -/
def Underway (conn : CouchbaseConnection) (s : CouchbaseSite) : CouchbaseStage → Prop
  | .connect => s.conn = conn
  | .getAllBuckets | .createBucket =>
    s.this.connection = conn ∧ conn.clusterBucketName ≠ [] ∧ s.this.Unset
  | .getAllScopes => s.this.connection = conn ∧ s.cluster.HasBucket conn.clusterBucketName ∧
      s.this.currentBucketScopeExists = 0 ∧ s.this.currentBucketScopeCollectionExists = 0
  | .createScope => s.this.connection = conn ∧ s.cluster.HasBucket conn.clusterBucketName ∧
      s.this.currentBucketScopeCollectionExists = 0
  | .createCollection => s.this.connection = conn ∧
      s.cluster.HasScope conn.clusterBucketName conn.scopeName
  | .done result => result = .ok 1 →
      s.cluster.HasCollection conn.clusterBucketName conn.scopeName conn.collectionName

/-- What a client relies on is not lost when the cluster grows. -/
theorem Underway.mono {conn : CouchbaseConnection} {cluster : Cluster} (h : s.Underway conn stage)
    (hwithin : s.cluster.Within cluster) : Underway conn { s with cluster := cluster } stage := by
  cases stage with
  | connect => exact h
  | getAllBuckets => exact h
  | createBucket => exact h
  | getAllScopes => exact ⟨h.1, hwithin.bucket h.2.1, h.2.2⟩
  | createScope => exact ⟨h.1, hwithin.bucket h.2.1, h.2.2⟩
  | createCollection => exact ⟨h.1, hwithin.scope h.2⟩
  | done result => exact fun hresult => hwithin.collection (h hresult)

/-- After a creation that does not throw, the thing is there: it was created, or an error was
reported and it had been there. -/
theorem present_after {c : Creation} {done : Cluster} {P : Cluster → Prop}
    (hthrows : ¬c.Throws) (hdone : P done) (hmono : P s.cluster → P (c.cluster done))
    (hanswered : c.Answers done (P s.cluster)) : P (c.cluster done) := by
  cases c with
  | success => exact hdone
  | error after =>
    obtain rfl | hpresent := hanswered
    · exact hdone
    · exact hmono hpresent
  | exception after => exact absurd trivial hthrows

/-- A client that does not return 1 relies on nothing. -/
theorem Underway.done_of_ne {conn : CouchbaseConnection} {result : Except Unit ℤ}
    (h : result ≠ .ok 1) : s.Underway conn (.done result) :=
  fun hone => absurd hone h

/-- **One step of a client** keeps what it relies on, when it loses nothing and its own call is
answered. -/
theorem Underway.step {conn : CouchbaseConnection} (h : s.Underway conn stage)
    (hname : build = .release ∨ conn.clusterBucketName ≠ [])
    (hwithin : s.cluster.Within (s.step build calls stage).2.cluster)
    (hanswered : (calls.creation stage).Answers (s.created stage) (s.Present stage)) :
    (s.step build calls stage).2.Underway conn (s.step build calls stage).1 := by
  cases stage with
  | connect =>
    obtain rfl : s.conn = conn := h
    rw [CouchbaseSite.step]
    split
    case h_1 code hcode =>
      intro hone
      obtain rfl : code = 1 := by simpa using hone
      split at hcode
      · exact absurd hcode s.conn.emptyField_ne_one
      · cases hcode
    case h_2 hfilled =>
      have hbucket : s.conn.clusterBucketName ≠ [] := by
        refine hname.elim (fun hbuild hempty => ?_) id
        rw [if_pos hbuild, CouchbaseConnection.emptyField] at hfilled
        simp only [hempty, if_true] at hfilled
        split_ifs at hfilled
      split
      · exact Underway.done_of_ne (by decide)
      · exact Underway.done_of_ne (by decide)
      · exact ⟨rfl, hbucket, ICouchbase.unset_clear _⟩
  | getAllBuckets =>
    obtain ⟨rfl, hbucket, hunset⟩ := h
    rw [CouchbaseSite.step]
    split
    · exact Underway.done_of_ne (by decide)
    · dsimp only
      rw [ICouchbase.noteBucket]
      split_ifs with hany hflag hflag
      · cases hflag
      · exact ⟨rfl, ICouchbase.hasBucket_of_mem_buckets (ICouchbase.any_eq_iff.1 hany),
          hunset.scope, hunset.collection⟩
      · exact ⟨rfl, hbucket, hunset⟩
      · exact absurd hunset.bucket hflag
  | createBucket =>
    obtain ⟨rfl, hbucket, hunset⟩ := h
    rw [CouchbaseSite.step]
    split
    · exact Underway.done_of_ne (by decide)
    · rename_i hthrows
      refine ⟨rfl, ?_, hunset.scope, hunset.collection⟩
      refine present_after (P := fun c => c.HasBucket s.this.connection.clusterBucketName)
        hthrows ?_ hwithin.bucket hanswered
      rw [created, if_neg hbucket]
      exact Cluster.hasBucket_addBucket
  | getAllScopes =>
    obtain ⟨rfl, hbucket, hscope, hcollection⟩ := h
    rw [CouchbaseSite.step]
    split
    · exact Underway.done_of_ne (by decide)
    · simp only [afterScopes, afterScope, ICouchbase.noteScope_eq, hscope, hcollection]
      by_cases hlists : ListsScope (calls.scopes s.cluster s.this.connection.clusterBucketName)
          s.this.connection.scopeName
      · by_cases hfound : ListsCollection
            (calls.scopes s.cluster s.this.connection.clusterBucketName)
            s.this.connection.scopeName s.this.connection.collectionName
        · simp only [if_pos hlists, if_pos hfound, one_ne_zero, if_false]
          exact fun _ => ICouchbase.hasCollection_of_listsCollection hfound
        · simp only [if_pos hlists, if_neg hfound, one_ne_zero, if_false]
          exact ⟨rfl, ICouchbase.hasScope_of_listsScope hlists⟩
      · have hnone : ¬ ListsCollection
            (calls.scopes s.cluster s.this.connection.clusterBucketName)
            s.this.connection.scopeName s.this.connection.collectionName :=
          fun h => hlists (listsScope_of_listsCollection h)
        simp only [if_neg hlists, if_neg hnone]
        exact ⟨rfl, hbucket, rfl⟩
  | createScope =>
    obtain ⟨rfl, hbucket, hcollection⟩ := h
    have hafter : s.afterScope = .createCollection := if_pos hcollection
    rw [CouchbaseSite.step, hafter]
    split
    · exact Underway.done_of_ne (by decide)
    · rename_i hthrows
      exact ⟨rfl, present_after (P := fun c => c.HasScope s.this.connection.clusterBucketName
        s.this.connection.scopeName) hthrows hbucket.addScope hwithin.scope hanswered⟩
  | createCollection =>
    obtain ⟨rfl, hscope⟩ := h
    rw [CouchbaseSite.step]
    split
    · exact Underway.done_of_ne (by decide)
    · rename_i hthrows
      exact fun _ => present_after (P := fun c => c.HasCollection
        s.this.connection.clusterBucketName s.this.connection.scopeName
        s.this.connection.collectionName) hthrows hscope.addCollection hwithin.collection hanswered
  | done result => exact h

end CouchbaseSite

/-! ### All runs -/

section Runs

variable [DecidableEq ι] {r : CouchbaseRace ι} {i : ι} {events : List (ι × ClusterCalls)}

theorem clients_raceStep_of_ne {e : ι × ClusterCalls} (h : i ≠ e.1) :
    (raceStep r e).clients i = r.clients i := Function.update_of_ne h _ _

theorem site_raceStep_of_ne {e : ι × ClusterCalls} (h : i ≠ e.1) :
    (raceStep r e).site i = { r.site i with cluster := (raceStep r e).cluster } := by
  simp only [CouchbaseRace.site, clients_raceStep_of_ne h]

theorem step_raceStep (r : CouchbaseRace ι) (e : ι × ClusterCalls) :
    (((raceStep r e).clients e.1).stage, (raceStep r e).site e.1) =
      CouchbaseSite.next (r.clients e.1).build e.2 ((r.clients e.1).stage, r.site e.1) := by
  simp [raceStep, CouchbaseRace.site, CouchbaseSite.next]

theorem build_raceStep (r : CouchbaseRace ι) (e : ι × ClusterCalls) (i : ι) :
    ((raceStep r e).clients i).build = (r.clients i).build := by
  by_cases h : i = e.1
  · subst h
    simp [raceStep]
  · rw [clients_raceStep_of_ne h]

theorem foldl_replicate (r : CouchbaseRace ι) (i : ι) (calls : ClusterCalls) (n : ℕ) :
    let r' := (List.replicate n (i, calls)).foldl raceStep r
    ((r'.clients i).stage, r'.site i) =
        (CouchbaseSite.next (r.clients i).build calls)^[n] ((r.clients i).stage, r.site i) ∧
      ∀ j ≠ i, r'.clients j = r.clients j := by
  induction n generalizing r with
  | zero => exact ⟨rfl, fun j _ => rfl⟩
  | succ n ih =>
    obtain ⟨hself, hothers⟩ := ih (raceStep r (i, calls))
    rw [build_raceStep, step_raceStep r (i, calls), ← Function.iterate_succ_apply] at hself
    refine ⟨hself, fun j hj => ?_⟩
    rw [List.replicate_succ, List.foldl_cons, hothers j hj, clients_raceStep_of_ne hj]

/-- **A client that is alone**: six steps of one client are `initialize_constructor`, with its code,
its object and what it makes of the cluster, and the other clients stay as they are. -/
theorem race_alone (r : CouchbaseRace ι) (i : ι) (calls : ClusterCalls)
    (hstage : (r.clients i).stage = .connect) :
    let r' := (List.replicate 6 (i, calls)).foldl raceStep r
    let result := couchbaseInitialize (r.clients i).build calls (r.site i)
    (r'.clients i).stage = .done result.1 ∧ r'.site i = result.2 ∧
      ∀ j ≠ i, r'.clients j = r.clients j := by
  obtain ⟨hself, hothers⟩ := foldl_replicate r i calls 6
  rw [hstage, CouchbaseSite.iterate_step] at hself
  obtain ⟨hdone, hsite⟩ := Prod.mk.inj hself
  exact ⟨hdone, hsite, hothers⟩

/-- **Flags stay true.** Whatever order the calls of the clients come in, and whatever is reported:
when every call is carried out or not, an object that is new never reports a bucket, a scope or a
collection that is not there. -/
theorem race_flags (hnew : (r.clients i).this.Unset)
    (hatomic : AllSteps raceStep CouchbaseRace.Atomic r events) :
    AllStates raceStep (fun r => (r.clients i).this.True r.cluster) r events := by
  have hstep : ∀ (r : CouchbaseRace ι) (e : ι × ClusterCalls),
      (r.site i).Flagged (r.clients i).stage → r.Atomic e →
        ((raceStep r e).site i).Flagged ((raceStep r e).clients i).stage := by
    intro r e hflagged hatomic
    have hwithin := within_raceStep hatomic
    by_cases hi : i = e.1
    · subst hi
      have hself := @CouchbaseSite.Flagged.step (r.clients e.1).build e.2 _ _ hflagged hwithin
      simpa [raceStep, CouchbaseRace.site] using hself
    · rw [site_raceStep_of_ne hi, clients_raceStep_of_ne hi]
      exact ⟨hflagged.1.mono hwithin, hflagged.2⟩
  exact (hatomic.allStates hstep ⟨hnew.true _, fun _ => hnew⟩).imp fun _ h => h.1

/-- **What 1 means.** Whatever order the calls of the clients come in: when every call is carried
out or not, and the client's own calls that create something fail only because the thing is there,
then from the moment on at which the client returns 1, its collection is on the cluster. -/
theorem race_done_one (hstage : (r.clients i).stage = .connect)
    (hname : (r.clients i).build = .release ∨ (r.clients i).conn.clusterBucketName ≠ [])
    (hatomic : AllSteps raceStep CouchbaseRace.Atomic r events)
    (hanswered : AllSteps raceStep (fun r e => e.1 = i → r.Answered e) r events) :
    AllStates raceStep (fun r' => (r'.clients i).stage = .done (.ok 1) →
      r'.cluster.HasCollection (r.clients i).conn.clusterBucketName (r.clients i).conn.scopeName
        (r.clients i).conn.collectionName) r events := by
  generalize hconn : (r.clients i).conn = conn at hname ⊢
  generalize hbuild : (r.clients i).build = build at hname
  have hstep : ∀ (r : CouchbaseRace ι) (e : ι × ClusterCalls),
      (r.clients i).build = build ∧ (r.site i).Underway conn (r.clients i).stage →
        r.Atomic e ∧ (e.1 = i → r.Answered e) → ((raceStep r e).clients i).build = build ∧
          ((raceStep r e).site i).Underway conn ((raceStep r e).clients i).stage := by
    rintro r e ⟨hbuild, hunderway⟩ ⟨hatomic, hanswered⟩
    refine ⟨(build_raceStep r e i).trans hbuild, ?_⟩
    have hwithin := within_raceStep hatomic
    by_cases hi : i = e.1
    · subst hi hbuild
      have hself := hunderway.step hname hwithin (hanswered rfl)
      obtain ⟨hdone, hsite⟩ := Prod.mk.inj (step_raceStep r e)
      rw [hdone, hsite]
      exact hself
    · rw [site_raceStep_of_ne hi, clients_raceStep_of_ne hi]
      exact hunderway.mono hwithin
  have hstart : (r.clients i).build = build ∧ (r.site i).Underway conn (r.clients i).stage := by
    rw [hstage]
    exact ⟨hbuild, hconn⟩
  refine ((hatomic.and hanswered).allStates hstep hstart).imp fun r' h hdone => ?_
  have hcollection := h.2
  rw [hdone] at hcollection
  exact hcollection rfl

end Runs

/-! ### Two clients that set up the same collection -/

/-- A client that is about to set up a collection. -/
def newcomer : CouchbaseClient where
  build := .release
  stage := .connect
  conn := ⟨str "h", str "u", str "p", str "s", str "c", str "b"⟩
  this := {}

/-- Two clients with the same connection record, and an empty cluster. -/
def newcomers : CouchbaseRace Bool := ⟨[], fun _ => newcomer⟩

/-- All calls succeed. -/
def allSucceed : ClusterCalls := ⟨.success, .success, .success, .success, .success, .success⟩

/-- The cluster refuses to create anything and stays as it is. -/
def allExist (cluster : Cluster) : ClusterCalls :=
  ⟨.success, .success, .error cluster, .success, .error cluster, .error cluster⟩

/-- Both clients find the cluster empty; one of them is the first to create the bucket, the other
one the first to create the scope and the collection. -/
def crossing : List (Bool × ClusterCalls) :=
  let bucket := Cluster.addBucket [] (str "b")
  let scope := bucket.addScope (str "b") (str "s")
  [(false, allSucceed), (true, allSucceed), (false, allSucceed), (true, allSucceed),
    (false, allSucceed), (true, allExist bucket), (false, allSucceed), (true, allSucceed),
    (true, allSucceed), (false, allExist scope), (true, allSucceed),
    (false, allExist (scope.addCollection (str "b") (str "s") (str "c")))]

/-- Neither client reports what is not there. -/
theorem race_flags_crossing : AllStates raceStep
    (fun r => (r.clients true).this.True r.cluster) newcomers crossing :=
  race_flags (r := newcomers) (i := true) ⟨rfl, rfl, rfl⟩ (by decide +kernel)

/-- The client that is refused the last call returns 1, and the collection is there. -/
theorem race_done_one_crossing :
    ((crossing.foldl raceStep newcomers).clients false).stage = .done (.ok 1) ∧
      (crossing.foldl raceStep newcomers).cluster.HasCollection (str "b") (str "s") (str "c") := by
  have hdone : ((crossing.foldl raceStep newcomers).clients false).stage = .done (.ok 1) := by
    decide +kernel
  exact ⟨hdone, (race_done_one (r := newcomers) (i := false) rfl (.inl rfl) (by decide +kernel)
    (by decide +kernel)).last hdone⟩

/-- A client that is alone returns 1. -/
theorem race_alone_newcomer :
    (((List.replicate 6 (false, allSucceed)).foldl raceStep newcomers).clients false).stage =
      .done (.ok 1) := by
  rw [(race_alone newcomers false allSucceed rfl).1]
  decide +kernel

end Behh
