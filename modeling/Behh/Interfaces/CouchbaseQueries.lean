import Behh.Std.Bytes

/-!
# SQL++ queries

`execute_sqlpp` issues a query and waits for its answer; `execute_sqlpp_future` issues a query and
hands the future out, and the caller waits for it. Both take a flag that the header describes in the
same words: false for performance, true for the consistency of a scan. The first function asks for
the consistent scan when the flag is set. The second one asks for it when the flag is not set.

A cluster is any state machine: what it does with a query may depend on all that was asked before,
and issuing the query or waiting for the answer may throw. What was asked is recorded.

## Main definitions

* `QueryRequest`, `QueryCluster`: a query with its options, and the cluster that it is sent to.
* `executeSqlpp`, `executeSqlppFuture`: the two functions.
* `obtainSqlpp`, `obtainSqlppFuture`: a call with the answer that its caller has in the end.
* `SqlppAgrees`: the two functions ask the same and obtain the same.

## Main results

* `obtainSqlppFuture_negate`: with the flag negated the two functions do the same.
* `sqlppAgrees_iff`: no call is asked in the same way.
-/

namespace Behh

/-! ### The cluster -/

/-- `couchbase::query_scan_consistency`. -/
inductive QueryScanConsistency where
  | notBounded
  | requestPlus
  deriving DecidableEq

/-- `couchbase::query_options`: the option that is set here. -/
structure QueryOptions where
  /-- The scan consistency, if one was chosen. -/
  scanConsistency : Option QueryScanConsistency := none
  deriving DecidableEq

/-- The arguments of `m_cluster.query(..)`. -/
structure QueryRequest where
  /-- The text of the query. -/
  query : Bytes
  /-- The options. -/
  options : QueryOptions
  deriving DecidableEq

/-- `std::pair<couchbase::error, couchbase::query_result>`; `none` is the error that is none. -/
abbrev QueryAnswer (E R : Type) : Type := Option E × R

/-- A `std::future` of an answer: what `get()` yields, which can be an exception. -/
abbrev QueryFuture (E R : Type) : Type := Except Unit (QueryAnswer E R)

/-- What `m_cluster.query(..)` does: it throws or returns a future, and changes the cluster. -/
abbrev QueryCluster (C E R : Type) : Type := QueryRequest → C → Except Unit (QueryFuture E R) × C

/-- The cluster, and what it was asked. -/
structure QuerySite (C : Type) where
  /-- The state of the cluster. -/
  cluster : C
  /-- The queries so far. -/
  requests : List QueryRequest := []
  deriving DecidableEq

variable {C E R : Type}

/-- `m_cluster.query(..)`. -/
def clusterQuery (asked : QueryCluster C E R) (query : Bytes) (options : QueryOptions) :
    Prog (QuerySite C) (Except Unit (QueryFuture E R)) :=
  Prog.call fun s =>
    let r := asked ⟨query, options⟩ s.cluster
    (r.1, ⟨r.2, s.requests ++ [⟨query, options⟩]⟩)

/-! ### The two functions -/

/-- `execute_sqlpp`: the code returned, and what is in `data_to_pass`. -/
def executeSqlpp (asked : QueryCluster C E R) (query : Bytes) (dataToPass : QueryAnswer E R)
    (consistent : Bool) : Prog (QuerySite C) (ℤ × QueryAnswer E R) := do
  let issued ← (if !consistent then clusterQuery asked query {}
    else clusterQuery asked query { scanConsistency := some .requestPlus })
  match issued with
  | .error _ => pure (-69, dataToPass)
  | .ok (.error _) => pure (-69, dataToPass)
  | .ok (.ok answer) => if answer.1.isSome then pure (-1, answer) else pure (1, answer)

/-- `execute_sqlpp_future`: the code returned, and what is in `data_to_pass`. -/
def executeSqlppFuture (asked : QueryCluster C E R) (query : Bytes)
    (dataToPass : QueryFuture E R) (consistent : Bool) :
    Prog (QuerySite C) (ℤ × QueryFuture E R) := do
  let issued ← (if consistent then clusterQuery asked query {}
    else clusterQuery asked query { scanConsistency := some .requestPlus })
  match issued with
  | .error _ => pure (-69, dataToPass)
  | .ok future => pure (1, future)

/-! ### A caller -/

/-- The arguments that a caller chooses. -/
structure SqlppCall where
  /-- The text of the query. -/
  query : Bytes
  /-- Whether the scan is to be consistent. -/
  consistent : Bool
  deriving DecidableEq

/-- `execute_sqlpp` with the pair that it obtained, none when an exception was caught. -/
def obtainSqlpp (asked : QueryCluster C E R) (dataToPass : QueryAnswer E R) (c : SqlppCall) :
    Prog (QuerySite C) (Option (QueryAnswer E R)) := do
  let r ← executeSqlpp asked c.query dataToPass c.consistent
  if r.1 = -69 then pure none else pure (some r.2)

/-- `execute_sqlpp_future` and `get()` on its future, if there is one: the pair, or none when one of
them throws. -/
def obtainSqlppFuture (asked : QueryCluster C E R) (dataToPass : QueryFuture E R)
    (c : SqlppCall) : Prog (QuerySite C) (Option (QueryAnswer E R)) := do
  let r ← executeSqlppFuture asked c.query dataToPass c.consistent
  if r.1 = -69 then pure none else pure r.2.toOption

/-- Calls one after the other, with what is seen of them: the pairs and the queries. -/
def sqlppSeen (obtain : SqlppCall → Prog (QuerySite C) (Option (QueryAnswer E R)))
    (calls : List SqlppCall) (cluster : C) :
    Option (List (Option (QueryAnswer E R)) × List QueryRequest) :=
  (calls.mapM obtain ⟨cluster, []⟩).map fun r => (r.1, r.2.requests)

/-- The two functions issue the same queries, with the same options, and obtain the same pairs. -/
def SqlppAgrees (asked : QueryCluster C E R) (cluster : C) (data : QueryAnswer E R)
    (future : QueryFuture E R) (calls : List SqlppCall) : Prop :=
  sqlppSeen (obtainSqlppFuture asked future) calls cluster =
    sqlppSeen (obtainSqlpp asked data) calls cluster

/-! ### What is asked -/

/-- The options of `execute_sqlpp`. -/
def SqlppCall.options (c : SqlppCall) : QueryOptions :=
  if c.consistent then { scanConsistency := some .requestPlus } else {}

/-- The other flag. -/
def SqlppCall.negate (c : SqlppCall) : SqlppCall := { c with consistent := !c.consistent }

theorem SqlppCall.options_negate_ne (c : SqlppCall) : c.negate.options ≠ c.options := by
  obtain ⟨query, consistent⟩ := c
  cases consistent <;> simp [options, negate]

@[simp] theorem SqlppCall.negate_negate (c : SqlppCall) : c.negate.negate = c := by
  simp [negate]

/-- What a caller obtains from an issued query. -/
def obtained : Except Unit (QueryFuture E R) → Option (QueryAnswer E R)
  | .error _ => none
  | .ok future => future.toOption

section

variable (asked : QueryCluster C E R) (data : QueryAnswer E R) (future : QueryFuture E R)

theorem clusterQuery_apply (query : Bytes) (options : QueryOptions) (s : QuerySite C) :
    clusterQuery asked query options s = some ((asked ⟨query, options⟩ s.cluster).1,
      ⟨(asked ⟨query, options⟩ s.cluster).2, s.requests ++ [⟨query, options⟩]⟩) :=
  rfl

theorem obtainSqlpp_eq (c : SqlppCall) : obtainSqlpp asked data c =
    obtained <$> clusterQuery asked c.query c.options := by
  have hissue : (if !c.consistent then clusterQuery asked c.query {}
      else clusterQuery asked c.query { scanConsistency := some .requestPlus }) =
        clusterQuery asked c.query c.options := by
    cases h : c.consistent <;> simp [SqlppCall.options, h]
  funext s
  rw [obtainSqlpp, executeSqlpp, hissue]
  simp only [Prog.bind_apply, Prog.map_apply, clusterQuery_apply, Option.bind_some, Option.map_some]
  obtain e | e | answer := (asked ⟨c.query, c.options⟩ s.cluster).1
  · simp [obtained]
  · simp [obtained, Except.toOption]
  · cases herror : answer.1.isSome <;> simp [obtained, Except.toOption, herror]

theorem obtainSqlppFuture_eq (c : SqlppCall) : obtainSqlppFuture asked future c =
    obtained <$> clusterQuery asked c.query c.negate.options := by
  have hissue : (if c.consistent then clusterQuery asked c.query {}
      else clusterQuery asked c.query { scanConsistency := some .requestPlus }) =
        clusterQuery asked c.query c.negate.options := by
    cases h : c.consistent <;> simp [SqlppCall.options, SqlppCall.negate, h]
  funext s
  rw [obtainSqlppFuture, executeSqlppFuture, hissue]
  simp only [Prog.bind_apply, Prog.map_apply, clusterQuery_apply, Option.bind_some, Option.map_some]
  obtain e | future := (asked ⟨c.query, c.negate.options⟩ s.cluster).1
  · simp [obtained]
  · simp [obtained]

/-- **The other flag.** `execute_sqlpp_future` does with a flag what `execute_sqlpp` does with the
other one. -/
theorem obtainSqlppFuture_negate (c : SqlppCall) :
    obtainSqlppFuture asked future c.negate = obtainSqlpp asked data c := by
  rw [obtainSqlppFuture_eq, obtainSqlpp_eq, SqlppCall.negate_negate]
  rfl

/-- The queries that a sequence of calls issues are those of the calls, in order. -/
theorem requests_mapM {obtain : SqlppCall → Prog (QuerySite C) (Option (QueryAnswer E R))}
    {request : SqlppCall → QueryRequest}
    (h : ∀ c s, ∃ pair s', obtain c s = some (pair, s') ∧ s'.requests = s.requests ++ [request c])
    (calls : List SqlppCall) (s : QuerySite C) : ∃ pairs s',
      calls.mapM obtain s = some (pairs, s') ∧ s'.requests = s.requests ++ calls.map request := by
  induction calls generalizing s with
  | nil => exact ⟨[], s, rfl, by simp⟩
  | cons c calls ih =>
    obtain ⟨pair, s₁, hrun, hrequests⟩ := h c s
    obtain ⟨pairs, s₂, hruns, hrest⟩ := ih s₁
    refine ⟨pair :: pairs, s₂, ?_, by rw [hrest, hrequests, List.map_cons, List.append_assoc]; rfl⟩
    simp [List.mapM_cons, hrun, hruns]

/-- What is seen of calls whose pairs come from issued queries. -/
theorem sqlppSeen_requests {obtain : SqlppCall → Prog (QuerySite C) (Option (QueryAnswer E R))}
    {options : SqlppCall → QueryOptions}
    (h : ∀ c, obtain c = obtained <$> clusterQuery asked c.query (options c))
    (calls : List SqlppCall) (cluster : C) : ∃ pairs, sqlppSeen obtain calls cluster =
      some (pairs, calls.map fun c => ⟨c.query, options c⟩) := by
  have hstep : ∀ (c : SqlppCall) (s : QuerySite C), ∃ pair s', obtain c s = some (pair, s') ∧
      s'.requests = s.requests ++ [⟨c.query, options c⟩] := by
    intro c s
    rw [h c, Prog.map_apply, clusterQuery_apply]
    exact ⟨_, _, rfl, rfl⟩
  obtain ⟨pairs, s', hrun, hrequests⟩ := requests_mapM hstep calls ⟨cluster, []⟩
  exact ⟨pairs, by rw [sqlppSeen, hrun, Option.map_some, hrequests, List.nil_append]⟩

/-- With the flags negated, calls of `execute_sqlpp_future` are seen as those of `execute_sqlpp`. -/
theorem sqlppSeen_negate (calls : List SqlppCall) (cluster : C) :
    sqlppSeen (obtainSqlppFuture asked future) (calls.map SqlppCall.negate) cluster =
      sqlppSeen (obtainSqlpp asked data) calls cluster := by
  have hfun : obtainSqlppFuture asked future ∘ SqlppCall.negate = obtainSqlpp asked data :=
    funext (obtainSqlppFuture_negate asked data future)
  rw [sqlppSeen, sqlppSeen, List.mapM_map, hfun]

/-- **Agreement.** For every cluster, every query text and every flag, the two functions never ask
in the same way: a sequence of calls agrees only when it has no call. -/
theorem sqlppAgrees_iff (cluster : C) (calls : List SqlppCall) :
    SqlppAgrees asked cluster data future calls ↔ calls = [] := by
  constructor
  · intro h
    -- both are calls of the second function, with the flags as they are and negated
    have hseen := sqlppSeen_requests asked (obtainSqlppFuture_eq asked future)
    obtain ⟨pairs, hfuture⟩ := hseen calls cluster
    obtain ⟨pairs', hnegated⟩ := hseen (calls.map SqlppCall.negate) cluster
    rw [SqlppAgrees, ← sqlppSeen_negate asked data future, hfuture, hnegated, List.map_map] at h
    have hrequests := (Prod.mk.inj (Option.some_inj.1 h)).2
    cases calls with
    | nil => rfl
    | cons c calls =>
      have hfirst := (List.cons.inj hrequests).1
      exact absurd (QueryRequest.mk.inj hfirst).2 c.negate.options_negate_ne.symm
  · rintro rfl
    rfl

end

/-- A query without the flag, to a cluster that answers every query: it is a consistent scan that
the second function asks for. -/
theorem not_sqlppAgrees_select :
    ¬ SqlppAgrees (fun _ _ => (.ok (.ok (none, ())), ()) : QueryCluster Unit Unit Unit) ()
        (none, ()) (.error ()) [⟨str "SELECT 1", false⟩] ∧
      sqlppSeen (obtainSqlppFuture (fun _ _ => (.ok (.ok (none, ())), ()) :
          QueryCluster Unit Unit Unit) (.error ())) [⟨str "SELECT 1", false⟩] () =
        some ([some (none, ())], [⟨str "SELECT 1", ⟨some .requestPlus⟩⟩]) := by
  refine ⟨?_, rfl⟩
  intro h
  have hrequests := (Prod.mk.inj (Option.some_inj.1 h)).2
  revert hrequests
  decide

end Behh
