import Behh.Interfaces.ScyllaDb
import Mathlib.Data.List.Basic
import Mathlib.Data.List.Count

/-!
# The handles of one ScyllaDB object

A run of an object is its construction, any calls of `initialize_constructor` and `execute_cqlsh`,
and its destruction. The object remembers one future, the one of its last connection, and frees it
when it is destroyed; when it has none, the null pointer is handed over.

Which handles are created and freed depends on the authentication mode and on whether a statement
succeeds only (`Kind`). `Clean` follows a run with one bit of state, whether a future is stored,
and refuses a call that loses a handle or hands the null pointer over.

## Main definitions

* `Op`, `lifetime`: the calls of a run, and the calls of the driver in it.
* `Disciplined`: no null future is handed over, every future and every statement is freed once.
* `ConnectsOnce`: the runs that keep the discipline.

## Main results

* `op_spec`: what one call does to the handles.
* `rest_spec`: what the rest of a run does to them.
* `handleDiscipline_iff`: the runs that keep the discipline, exactly.
-/

namespace Behh.Scylla

/-! ### Runs -/

/-- A call of an object's function, with what `cass_future_error_code` returns in it. -/
inductive Op where
  /-- `initialize_constructor`. -/
  | initializeConstructor (connection : ScylladbConnection) (code : ℤ)
  /-- `execute_cqlsh`. -/
  | executeCqlsh (session : Option ℕ) (query : Bytes) (status : ℤ)

/-- The program of a call. -/
def Op.run : Op → Prog Scylla ℤ
  | .initializeConstructor connection code => Scylla.initializeConstructor connection code
  | .executeCqlsh session query status => Scylla.executeCqlsh session query status

/-- The rest of an object's life: the calls of its functions, and its destruction. -/
def restOfLife : List Op → Prog Scylla Unit
  | [] => destructor
  | op :: ops => do
    let _ ← op.run
    restOfLife ops

/-- The calls of the driver in the life of an object. -/
def lifetime (ops : List Op) : Option (List CassCall) :=
  (restOfLife ops {}).map fun r => r.2.calls

/-! ### Handles -/

/-- The future that a call hands to `cass_future_error_code`, `cass_future_error_message` or
`cass_future_free`. -/
def handed : CassCall → Option (Option ℕ)
  | .futureErrorCode f => some f
  | .futureErrorMessage f => some f
  | .futureFree f => some f
  | _ => none

/-- The future that a call creates. -/
def createdFuture : CassCall → Option ℕ
  | .sessionConnect _ _ f => some f
  | .sessionExecute _ _ f => some f
  | _ => none

/-- The future that a call frees. -/
def freedFuture : CassCall → Option ℕ
  | .futureFree f => f
  | _ => none

/-- The statement that a call creates. -/
def createdStatement : CassCall → Option ℕ
  | .statementNew _ t => some t
  | _ => none

/-- The statement that a call frees. -/
def freedStatement : CassCall → Option ℕ
  | .statementFree t => some t
  | _ => none

/-- The handle discipline. -/
structure Disciplined (calls : List CassCall) : Prop where
  /-- No null future is handed over. -/
  nonnull : none ∉ calls.filterMap handed
  /-- Every future that is created is freed once. -/
  futures : ∀ f ∈ calls.filterMap createdFuture, (calls.filterMap freedFuture).count f = 1
  /-- Every statement that is created is freed once. -/
  statements : ∀ t ∈ calls.filterMap createdStatement,
    (calls.filterMap freedStatement).count t = 1

/-- What a call does to handles. -/
inductive Kind where
  /-- A connection: a future is created and stored. -/
  | connect
  /-- The stored future is used, nothing is created. -/
  | check
  /-- Nothing. -/
  | nothing
  /-- A statement and a future are created, and freed when the execution succeeds. -/
  | execute (ok : Bool)
  deriving DecidableEq

/-- The kind of a call. -/
def Op.kind : Op → Kind
  | .initializeConstructor connection _ =>
    match connection.authMode with
    | .passwordAuthenticator => .connect
    | .allowAllAuthenticator => .check
    | _ => .nothing
  | .executeCqlsh _ _ status => .execute (status = cassOk)

/-- The projections of the calls that an operation of some kind makes, when the future `stored` is
stored before and `stored'` afterwards. -/
def KindSpec (stored stored' : Option ℕ) (next next' : ℕ) (new : List CassCall) : Kind → Prop
  | .connect => ∃ f, next ≤ f ∧ f < next' ∧ stored' = some f ∧
      none ∉ new.filterMap handed ∧ new.filterMap createdFuture = [f] ∧
      new.filterMap freedFuture = [] ∧ new.filterMap createdStatement = [] ∧
      new.filterMap freedStatement = []
  | .check => stored' = stored ∧ (none ∈ new.filterMap handed ↔ stored = none) ∧
      new.filterMap createdFuture = [] ∧ new.filterMap freedFuture = [] ∧
      new.filterMap createdStatement = [] ∧ new.filterMap freedStatement = []
  | .nothing => stored' = stored ∧ new.filterMap handed = [] ∧
      new.filterMap createdFuture = [] ∧ new.filterMap freedFuture = [] ∧
      new.filterMap createdStatement = [] ∧ new.filterMap freedStatement = []
  | .execute ok => ∃ f t, next ≤ f ∧ f < next' ∧ next ≤ t ∧ t < next' ∧ stored' = stored ∧
      none ∉ new.filterMap handed ∧ new.filterMap createdFuture = [f] ∧
      new.filterMap freedFuture = (if ok then [f] else []) ∧
      new.filterMap createdStatement = [t] ∧ new.filterMap freedStatement = (if ok then [t] else [])

theorem withHandles_spec (s : Scylla) : ∃ new, s.withHandles.calls = s.calls ++ new ∧
    s.next ≤ s.withHandles.next ∧
    KindSpec s.self.cassFuture s.withHandles.self.cassFuture s.next s.withHandles.next new
      .nothing := by
  obtain ⟨connection, ⟨future, cluster, session⟩, next, calls⟩ := s
  cases cluster <;> cases session
  · refine ⟨[.clusterNew next, .sessionNew (next + 1)], by simp [withHandles], ?_,
      by simp [withHandles], rfl, rfl, rfl, rfl, rfl⟩
    simp only [withHandles]
    omega
  · exact ⟨[.clusterNew next], by simp [withHandles], by simp [withHandles],
      by simp [withHandles], rfl, rfl, rfl, rfl, rfl⟩
  · exact ⟨[.sessionNew next], by simp [withHandles], by simp [withHandles],
      by simp [withHandles], rfl, rfl, rfl, rfl, rfl⟩
  · exact ⟨[], by simp [withHandles], by simp [withHandles],
      by simp [withHandles], rfl, rfl, rfl, rfl, rfl⟩

/-- Calls in which a projection shows nothing do not change what it shows of the others. -/
theorem filterMap_append_of_nil {p : CassCall → Option ℕ} {new new' : List CassCall}
    (h : new.filterMap p = []) : (new ++ new').filterMap p = new'.filterMap p := by
  rw [List.filterMap_append, h, List.nil_append]

/-- Calls of any kind, after calls that do nothing. -/
theorem KindSpec.append_left {stored stored₁ stored' : Option ℕ} {next next₁ next' : ℕ}
    {new new' : List CassCall} {k : Kind} (h : KindSpec stored stored₁ next next₁ new .nothing)
    (hnext : next ≤ next₁) (h' : KindSpec stored₁ stored' next₁ next' new' k) :
    KindSpec stored stored' next next' (new ++ new') k := by
  obtain ⟨rfl, hhanded, hcf, hff, hcs, hfs⟩ := h
  have hhanded' : (new ++ new').filterMap handed = new'.filterMap handed := by
    rw [List.filterMap_append, hhanded, List.nil_append]
  cases k <;>
    rw [KindSpec, hhanded', filterMap_append_of_nil hcf, filterMap_append_of_nil hff,
      filterMap_append_of_nil hcs, filterMap_append_of_nil hfs]
  case connect =>
    obtain ⟨f, hf, hf', hrest⟩ := h'
    exact ⟨f, hnext.trans hf, hf', hrest⟩
  case check => exact h'
  case nothing => exact h'
  case execute ok =>
    obtain ⟨f, t, hf, hf', ht, ht', hrest⟩ := h'
    exact ⟨f, t, hnext.trans hf, hf', hnext.trans ht, ht', hrest⟩

/-- The calls that check a future. -/
def checkCalls (f : Option ℕ) (code : ℤ) : List CassCall :=
  .futureErrorCode f :: if code ≠ cassOk then [.futureErrorMessage f] else []

/-- Checking a future hands it over and does nothing else. -/
theorem checkCalls_spec (f : Option ℕ) (code : ℤ) (next : ℕ) :
    KindSpec f f next next (checkCalls f code) .check := by
  refine ⟨rfl, ?_⟩
  by_cases h : code = cassOk
  · cases f <;>
      simp [checkCalls, h, handed, createdFuture, freedFuture, createdStatement, freedStatement]
  · cases f <;>
      simp [checkCalls, h, handed, createdFuture, freedFuture, createdStatement, freedStatement]

/-- Connecting creates a future, which is stored and checked. -/
theorem connectCalls_spec (stored session cluster : Option ℕ) (next : ℕ) (code : ℤ) :
    KindSpec stored (some next) next (next + 1)
      (.sessionConnect session cluster next :: checkCalls (some next) code) .connect := by
  obtain ⟨-, hnull, hcf, hff, hcs, hfs⟩ := checkCalls_spec (some next) code next
  refine ⟨next, le_rfl, Nat.lt_succ_self next, rfl, ?_, ?_, hff, hcs, hfs⟩
  · rw [List.filterMap_cons_none (f := handed) rfl, hnull]
    exact Option.some_ne_none next
  · rw [List.filterMap_cons_some (f := createdFuture) rfl, hcf]

/-- **One call.** It appends calls of the driver, and these are those of its kind. -/
theorem op_spec (op : Op) (s : Scylla) : ∃ r s' new, op.run s = some (r, s') ∧
    s'.calls = s.calls ++ new ∧ s.next ≤ s'.next ∧
    KindSpec s.self.cassFuture s'.self.cassFuture s.next s'.next new op.kind := by
  cases op with
  | initializeConstructor connection code =>
    obtain ⟨new, hcalls, hnext, hspec⟩ := withHandles_spec { s with connection := connection }
    have happly := initializeConstructor_apply connection code s
    simp only [Op.kind, Op.run]
    cases hmode : connection.authMode with
    | undefined =>
      rw [hmode] at happly
      exact ⟨_, _, new, happly, hcalls, hnext, hspec⟩
    | comScylladbAuthTransitionalAuthenticator =>
      rw [hmode] at happly
      exact ⟨_, _, new, happly, hcalls, hnext, hspec⟩
    | allowAllAuthenticator =>
      rw [hmode] at happly
      generalize withHandles { s with connection := connection } = s₁ at *
      refine ⟨_, _, new ++ ([.clusterSetContactPoints s₁.self.cassCluster s₁.connection.host,
        .clusterSetAuthenticatorCallbacks s₁.self.cassCluster s₁.connection.username
          s₁.connection.password] ++ checkCalls s₁.self.cassFuture code), happly, ?_, hnext,
        hspec.append_left hnext ?_⟩
      · simp [withCheck, withSetUp, hcalls, checkCalls]
      · exact KindSpec.append_left ⟨rfl, rfl, rfl, rfl, rfl, rfl⟩ le_rfl
          (checkCalls_spec s₁.self.cassFuture code s₁.next)
    | passwordAuthenticator =>
      rw [hmode] at happly
      generalize withHandles { s with connection := connection } = s₁ at *
      refine ⟨_, _, new ++ ([.clusterSetContactPoints s₁.self.cassCluster s₁.connection.host,
        .clusterSetAuthenticatorCallbacks s₁.self.cassCluster s₁.connection.username
          s₁.connection.password] ++
        .sessionConnect s₁.self.cassSession s₁.self.cassCluster s₁.next ::
          checkCalls (some s₁.next) code), happly, ?_, Nat.le_succ_of_le hnext,
        hspec.append_left hnext ?_⟩
      · simp [withCheck, withConnect, withSetUp, hcalls, checkCalls]
      · exact KindSpec.append_left ⟨rfl, rfl, rfl, rfl, rfl, rfl⟩ le_rfl
          (connectCalls_spec s₁.self.cassFuture s₁.self.cassSession s₁.self.cassCluster s₁.next
            code)
  | executeCqlsh session query status =>
    refine ⟨_, _, _, executeCqlsh_apply session query status s, List.append_assoc .., ?_, ?_⟩
    · simp
    · by_cases h : status = cassOk
      · simp only [Op.kind, ne_eq, h, not_true_eq_false, ite_false, decide_true]
        exact ⟨s.next + 1, s.next, by omega, by omega, by omega, by omega, rfl, by simp [handed],
          rfl, rfl, rfl, rfl⟩
      · simp only [Op.kind, ne_eq, h, not_false_eq_true, ite_true, decide_false]
        exact ⟨s.next + 1, s.next, by omega, by omega, by omega, by omega, rfl, by simp [handed],
          rfl, rfl, rfl, rfl⟩

/-! ### Runs with one bit of state -/

/-- The rest of a run loses no handle and hands no null future over, when a future is stored
(`true`) or not. -/
def Clean : Bool → List Op → Prop
  | stored, [] => stored = true
  | stored, op :: ops =>
    match op.kind with
    | .connect => stored = false ∧ Clean true ops
    | .check => stored = true ∧ Clean stored ops
    | .nothing => Clean stored ops
    | .execute ok => ok = true ∧ Clean stored ops

/-- The calls of the driver in the rest of a run keep the discipline, and free the future that is
stored at its beginning. -/
structure RestDisciplined (stored : Option ℕ) (new : List CassCall) : Prop
    extends Disciplined new where
  /-- The stored future is freed once. -/
  stored : ∀ f, stored = some f → (new.filterMap freedFuture).count f = 1

/-- The handles of the calls in the rest of a run are the stored future and handles that are
created from now on. -/
structure Fresh (stored : Option ℕ) (next : ℕ) (new : List CassCall) : Prop where
  /-- The futures created. -/
  createdFuture : ∀ f ∈ new.filterMap createdFuture, next ≤ f
  /-- The futures freed. -/
  freedFuture : ∀ f ∈ new.filterMap freedFuture, stored = some f ∨ next ≤ f
  /-- The statements created. -/
  createdStatement : ∀ t ∈ new.filterMap createdStatement, next ≤ t
  /-- The statements freed. -/
  freedStatement : ∀ t ∈ new.filterMap freedStatement, next ≤ t

/-- When a call may come next. -/
def Kind.Allowed (stored : Option ℕ) : Kind → Prop
  | .connect => stored = none
  | .check => stored ≠ none
  | .nothing => True
  | .execute ok => ok = true

section

variable {stored stored' : Option ℕ} {next next' : ℕ} {new₁ new₂ : List CassCall}

theorem Fresh.concat (h₁ : Fresh stored next new₁) (h₂ : Fresh stored next new₂) :
    Fresh stored next (new₁ ++ new₂) := by
  constructor <;> rw [List.filterMap_append]
  · exact List.forall_mem_append.2 ⟨h₁.createdFuture, h₂.createdFuture⟩
  · exact List.forall_mem_append.2 ⟨h₁.freedFuture, h₂.freedFuture⟩
  · exact List.forall_mem_append.2 ⟨h₁.createdStatement, h₂.createdStatement⟩
  · exact List.forall_mem_append.2 ⟨h₁.freedStatement, h₂.freedStatement⟩

/-- A call uses the stored future and new handles. -/
theorem KindSpec.fresh {k : Kind} (hkind : KindSpec stored stored' next next' new₁ k) :
    Fresh stored next new₁ := by
  cases k with
  | connect =>
    obtain ⟨f, hle, -, -, -, hcf, hff, hcs, hfs⟩ := hkind
    constructor <;> simp [hcf, hff, hcs, hfs, hle]
  | check =>
    obtain ⟨-, -, hcf, hff, hcs, hfs⟩ := hkind
    constructor <;> simp [hcf, hff, hcs, hfs]
  | nothing =>
    obtain ⟨-, -, hcf, hff, hcs, hfs⟩ := hkind
    constructor <;> simp [hcf, hff, hcs, hfs]
  | execute ok =>
    obtain ⟨f, t, hf, -, ht, -, -, -, hcf, hff, hcs, hfs⟩ := hkind
    constructor <;> cases ok <;> simp [hcf, hff, hcs, hfs, hf, ht]

/-- The future that is stored after a call was stored before or is new. -/
theorem KindSpec.eq_or_le {k : Kind} (hkind : KindSpec stored stored' next next' new₁ k) {f : ℕ}
    (hf : stored' = some f) : stored = some f ∨ next ≤ f := by
  cases k with
  | connect =>
    obtain ⟨f', hle, -, hstored, -⟩ := hkind
    obtain rfl : f' = f := Option.some.inj (hstored.symm.trans hf)
    exact Or.inr hle
  | check => exact Or.inl (hkind.1.symm.trans hf)
  | nothing => exact Or.inl (hkind.1.symm.trans hf)
  | execute ok =>
    obtain ⟨f', t, -, -, -, -, hstored, -⟩ := hkind
    exact Or.inl (hstored.symm.trans hf)

/-- One call in front of the rest of a run uses no other handles. -/
theorem Fresh.append {k : Kind} (hkind : KindSpec stored stored' next next' new₁ k)
    (hnext : next ≤ next') (hfresh : Fresh stored' next' new₂) :
    Fresh stored next (new₁ ++ new₂) := by
  have hrest : Fresh stored next new₂ := by
    refine ⟨fun f hf => ?_, fun f hf => ?_, fun t ht => ?_, fun t ht => ?_⟩
    · exact Nat.le_trans hnext (hfresh.createdFuture f hf)
    · rcases hfresh.freedFuture f hf with hold | hnew
      · exact KindSpec.eq_or_le hkind hold
      · exact Or.inr (Nat.le_trans hnext hnew)
    · exact Nat.le_trans hnext (hfresh.createdStatement t ht)
    · exact Nat.le_trans hnext (hfresh.freedStatement t ht)
  exact (KindSpec.fresh hkind).concat hrest

theorem restDisciplined_iff {new : List CassCall} : RestDisciplined stored new ↔
    none ∉ new.filterMap handed ∧
      (∀ f ∈ new.filterMap Scylla.createdFuture, (new.filterMap Scylla.freedFuture).count f = 1) ∧
      (∀ t ∈ new.filterMap Scylla.createdStatement,
        (new.filterMap Scylla.freedStatement).count t = 1) ∧
      ∀ f, stored = some f → (new.filterMap Scylla.freedFuture).count f = 1 :=
  ⟨fun h => ⟨h.nonnull, h.futures, h.statements, h.stored⟩,
    fun h => ⟨⟨h.1, h.2.1, h.2.2.1⟩, h.2.2.2⟩⟩

/-- An old handle that is not stored is not used any more. -/
theorem Fresh.notMem_of_lt (h : Fresh stored next new₂) {n : ℕ} (hlt : n < next) :
    n ∉ new₂.filterMap Scylla.createdFuture ∧
      (stored ≠ some n → n ∉ new₂.filterMap Scylla.freedFuture) ∧
      n ∉ new₂.filterMap Scylla.createdStatement ∧ n ∉ new₂.filterMap Scylla.freedStatement := by
  refine ⟨fun hn => ?_, fun hne hn => ?_, fun hn => ?_, fun hn => ?_⟩
  · exact absurd (h.createdFuture n hn) (by omega)
  · exact (h.freedFuture n hn).elim hne (by omega)
  · exact absurd (h.createdStatement n hn) (by omega)
  · exact absurd (h.freedStatement n hn) (by omega)

/-- A handle that is created and freed, and not used otherwise, is freed once. -/
theorem freedOnce_iff {x : ℕ} {created freed : List ℕ} (hcreated : x ∉ created)
    (hfreed : x ∉ freed) : (∀ y ∈ [x] ++ created, ([x] ++ freed).count y = 1) ↔
      ∀ y ∈ created, freed.count y = 1 := by
  have hcount : ∀ y ∈ created, ([x] ++ freed).count y = freed.count y :=
    fun y hy => List.count_cons_of_ne (ne_of_mem_of_not_mem hy hcreated).symm
  have hself : ([x] ++ freed).count x = 1 := by
    rw [List.singleton_append, List.count_cons_self, List.count_eq_zero.2 hfreed]
  constructor
  · intro h y hy
    rw [← hcount y hy]
    exact h y (List.mem_append_right _ hy)
  · intro h y hy
    rcases List.mem_append.1 hy with hy | hy
    · rwa [List.mem_singleton.1 hy]
    · rw [hcount y hy]
      exact h y hy

/-- A connection loses the future that was stored, and stores the new one. -/
theorem restDisciplined_connect_iff
    (hkind : KindSpec stored stored' next next' new₁ .connect)
    (hstored : ∀ f, stored = some f → f < next) (hfresh : Fresh stored' next' new₂) :
    RestDisciplined stored (new₁ ++ new₂) ↔ stored = none ∧ RestDisciplined stored' new₂ := by
  obtain ⟨f, hle, hlt, rfl, hnull, hcf, hff, hcs, hfs⟩ := hkind
  -- an older future is not freed any more
  have hnone : (∀ f₀, stored = some f₀ → (new₂.filterMap Scylla.freedFuture).count f₀ = 1) ↔
      stored = none := by
    constructor
    · refine fun h => Option.eq_none_iff_forall_ne_some.2 fun f₀ hf₀ => ?_
      have hlt₀ := hstored f₀ hf₀
      have hne : some f ≠ some f₀ := fun heq => by
        rw [Option.some_inj] at heq
        omega
      have hold := (hfresh.notMem_of_lt (n := f₀) (by omega)).2.1 hne
      have hcount := h f₀ hf₀
      rw [List.count_eq_zero.2 hold] at hcount
      exact absurd hcount (by decide)
    · rintro rfl f₀ hf₀
      exact absurd hf₀ (by simp)
  rw [restDisciplined_iff, restDisciplined_iff]
  simp only [List.filterMap_append, List.mem_append, not_or, hcf, hff, hcs, hfs, List.nil_append,
    List.mem_singleton, hnone, Option.some_inj]
  constructor
  · rintro ⟨hnonnull, hfutures, hstatements, hallowed⟩
    exact ⟨hallowed, hnonnull.2, fun g hg => hfutures g (Or.inr hg), hstatements,
      fun g hg => hfutures g (Or.inl hg.symm)⟩
  · rintro ⟨hallowed, hnonnull, hfutures, hstatements, hfreed⟩
    exact ⟨⟨hnull, hnonnull⟩, fun g hg => hg.elim (fun h => hfreed g h.symm) (hfutures g),
      hstatements, hallowed⟩

/-- An execution loses its future and its statement exactly when it fails. -/
theorem restDisciplined_execute_iff {ok : Bool}
    (hkind : KindSpec stored stored' next next' new₁ (.execute ok))
    (hstored : ∀ f, stored = some f → f < next) (hfresh : Fresh stored' next' new₂) :
    RestDisciplined stored (new₁ ++ new₂) ↔ ok = true ∧ RestDisciplined stored' new₂ := by
  obtain ⟨f, t, hf, hf', ht, ht', rfl, hnull, hcf, hff, hcs, hfs⟩ := hkind
  have hneStored : ∀ g, stored' = some g → f ≠ g := by
    rintro g hg rfl
    have hlt := hstored f hg
    omega
  obtain ⟨hcf₂, hff₂, -, -⟩ := hfresh.notMem_of_lt hf'
  obtain ⟨-, -, hcs₂, hfs₂⟩ := hfresh.notMem_of_lt ht'
  replace hff₂ := hff₂ fun h => hneStored f h rfl
  rw [restDisciplined_iff, restDisciplined_iff]
  simp only [List.filterMap_append, hcf, hff, hcs, hfs]
  cases ok with
  | false =>
    simp only [Bool.false_eq_true, false_and, iff_false]
    rintro ⟨-, hfutures, -⟩
    have hfreed := hfutures f (List.mem_append_left _ (List.mem_singleton_self f))
    simp [List.count_eq_zero.2 hff₂] at hfreed
  | true =>
    have hstoredIff : (∀ g, stored' = some g →
        ([f] ++ new₂.filterMap Scylla.freedFuture).count g = 1) ↔
          ∀ g, stored' = some g → (new₂.filterMap Scylla.freedFuture).count g = 1 :=
      forall₂_congr fun g hg => by
        rw [List.singleton_append, List.count_cons_of_ne (hneStored g hg)]
    have hnullIff : none ∉ new₁.filterMap handed ++ new₂.filterMap handed ↔
        none ∉ new₂.filterMap handed := by
      rw [List.mem_append, or_iff_right hnull]
    simp only [ite_true, freedOnce_iff hcf₂ hff₂, freedOnce_iff hcs₂ hfs₂, hstoredIff, hnullIff,
      true_and]

/-- **One call in front of the rest of a run** keeps the discipline exactly when it is allowed and
the rest keeps it. -/
theorem restDisciplined_append_iff {k : Kind} (hkind : KindSpec stored stored' next next' new₁ k)
    (hstored : ∀ f, stored = some f → f < next) (hfresh : Fresh stored' next' new₂) :
    RestDisciplined stored (new₁ ++ new₂) ↔
      k.Allowed stored ∧ RestDisciplined stored' new₂ := by
  cases k with
  | connect => exact restDisciplined_connect_iff hkind hstored hfresh
  | check =>
    obtain ⟨rfl, hnull, hcf, hff, hcs, hfs⟩ := hkind
    rw [restDisciplined_iff, restDisciplined_iff]
    simp only [List.filterMap_append, List.mem_append, not_or, hcf, hff, hcs, hfs,
      List.nil_append, hnull, Kind.Allowed, and_assoc, ne_eq]
  | nothing =>
    obtain ⟨rfl, hnull, hcf, hff, hcs, hfs⟩ := hkind
    rw [restDisciplined_iff, restDisciplined_iff]
    simp only [List.filterMap_append, hnull, hcf, hff, hcs, hfs, List.nil_append, true_and,
      Kind.Allowed]
  | execute ok => exact restDisciplined_execute_iff hkind hstored hfresh

end

/-- Destroying an object hands its future over and frees it. -/
theorem destructorCalls_spec (f cluster session : Option ℕ) :
    [CassCall.futureFree f, .clusterFree cluster, .sessionFree session].filterMap handed = [f] ∧
      [CassCall.futureFree f, .clusterFree cluster, .sessionFree session].filterMap
        createdFuture = [] ∧
      [CassCall.futureFree f, .clusterFree cluster, .sessionFree session].filterMap
        freedFuture = f.toList ∧
      [CassCall.futureFree f, .clusterFree cluster, .sessionFree session].filterMap
        createdStatement = [] ∧
      [CassCall.futureFree f, .clusterFree cluster, .sessionFree session].filterMap
        freedStatement = [] := by
  cases f <;> exact ⟨rfl, rfl, rfl, rfl, rfl⟩

/-- The future that is stored after a call, and whether one is. -/
theorem KindSpec.stored {stored stored' : Option ℕ} {next next' : ℕ} {new : List CassCall}
    {k : Kind} (h : KindSpec stored stored' next next' new k)
    (hstored : ∀ f, stored = some f → f < next) (hnext : next ≤ next') :
    (∀ f, stored' = some f → f < next') ∧
      stored'.isSome = (if k = .connect then true else stored.isSome) := by
  have hsame : stored' = stored → (∀ f, stored' = some f → f < next') := by
    rintro rfl f hf
    exact Nat.lt_of_lt_of_le (hstored f hf) hnext
  cases k with
  | connect =>
    obtain ⟨f, -, hlt, rfl, -⟩ := h
    exact ⟨fun g hg => Option.some_inj.1 hg ▸ hlt, rfl⟩
  | check => exact ⟨hsame h.1, by rw [h.1]; rfl⟩
  | nothing => exact ⟨hsame h.1, by rw [h.1]; rfl⟩
  | execute ok =>
    obtain ⟨-, -, -, -, -, -, heq, -⟩ := h
    exact ⟨hsame heq, by rw [heq]; rfl⟩

/-- **The rest of a run.** It appends calls of the driver; they use no other handles than the
stored future and those created from now on; and they keep the discipline exactly when the rest of
the run is clean. -/
theorem rest_spec (ops : List Op) (s : Scylla)
    (hstored : ∀ f, s.self.cassFuture = some f → f < s.next) :
    ∃ s' new, restOfLife ops s = some ((), s') ∧ s'.calls = s.calls ++ new ∧
      Fresh s.self.cassFuture s.next new ∧
      (RestDisciplined s.self.cassFuture new ↔ Clean s.self.cassFuture.isSome ops) := by
  induction ops generalizing s with
  | nil =>
    obtain ⟨hhanded, hcf, hff, hcs, hfs⟩ :=
      destructorCalls_spec s.self.cassFuture s.self.cassCluster s.self.cassSession
    refine ⟨_, _, destructor_apply s, rfl, ?_, ?_⟩
    · constructor
      · simp [hcf]
      · rw [hff]
        exact fun f hf => Or.inl (Option.mem_toList.1 hf)
      · simp [hcs]
      · simp [hfs]
    · rw [restDisciplined_iff, hhanded, hcf, hff, hcs, hfs, Clean]
      cases s.self.cassFuture <;> simp
  | cons op ops ih =>
    obtain ⟨r, s₁, new₁, hrun, hcalls₁, hnext, hkind⟩ := op_spec op s
    obtain ⟨hstored₁, hisSome⟩ := hkind.stored hstored hnext
    obtain ⟨s', new₂, hrest, hcalls₂, hfresh, hclean⟩ := ih s₁ hstored₁
    refine ⟨s', new₁ ++ new₂, ?_, ?_, hfresh.append hkind hnext, ?_⟩
    · rw [restOfLife, Prog.bind_apply, hrun]
      exact hrest
    · rw [hcalls₂, hcalls₁, List.append_assoc]
    · rw [restDisciplined_append_iff hkind hstored hfresh, hclean, hisSome, Clean]
      cases op.kind <;> cases s.self.cassFuture <;> simp [Kind.Allowed]

/-! ### Which runs are clean -/

/-- A run connects once, nothing trusts the stored future before, and every statement succeeds. -/
def ConnectsOnce (ops : List Op) : Prop :=
  (∀ op ∈ ops, op.kind ≠ .execute false) ∧
    ∃ before op after, ops = before ++ op :: after ∧ op.kind = .connect ∧
      (∀ o ∈ before, o.kind ≠ .connect ∧ o.kind ≠ .check) ∧ ∀ o ∈ after, o.kind ≠ .connect

theorem clean_true_iff (ops : List Op) : Clean true ops ↔
    (∀ op ∈ ops, op.kind ≠ .execute false) ∧ ∀ op ∈ ops, op.kind ≠ .connect := by
  induction ops with
  | nil => simp [Clean]
  | cons op ops ih =>
    rw [Clean, List.forall_mem_cons, List.forall_mem_cons]
    cases hkind : op.kind with
    | connect => simp
    | check => simp [ih]
    | nothing => simp [ih]
    | execute ok => cases ok <;> simp [ih]

/-- The first call connects, or it is neither a connection nor a check and the others connect
once. -/
theorem connectsOnce_cons_iff (op : Op) (ops : List Op) : ConnectsOnce (op :: ops) ↔
    op.kind ≠ .execute false ∧ (op.kind = .connect ∧ Clean true ops ∨
      op.kind ≠ .connect ∧ op.kind ≠ .check ∧ ConnectsOnce ops) := by
  constructor
  · rintro ⟨hall, before, o, after, heq, hconnect, hbefore, hafter⟩
    obtain ⟨hop, hops⟩ := List.forall_mem_cons.1 hall
    cases before with
    | nil =>
      obtain ⟨rfl, rfl⟩ := List.cons.inj heq
      exact ⟨hop, Or.inl ⟨hconnect, (clean_true_iff ops).2 ⟨hops, hafter⟩⟩⟩
    | cons o' before =>
      obtain ⟨rfl, rfl⟩ := List.cons.inj heq
      obtain ⟨hfirst, hrest⟩ := List.forall_mem_cons.1 hbefore
      exact ⟨hop, Or.inr ⟨hfirst.1, hfirst.2, hops, before, o, after, rfl, hconnect, hrest, hafter⟩⟩
  · rintro ⟨hop, ⟨hconnect, hclean⟩ | ⟨hconnect, hcheck, hops, hsplit⟩⟩
    · obtain ⟨hops, hafter⟩ := (clean_true_iff ops).1 hclean
      exact ⟨List.forall_mem_cons.2 ⟨hop, hops⟩, [], op, ops, rfl, hconnect, by simp, hafter⟩
    · obtain ⟨before, o, after, rfl, ho, hbefore, hafter⟩ := hsplit
      exact ⟨List.forall_mem_cons.2 ⟨hop, hops⟩, op :: before, o, after, rfl, ho,
        List.forall_mem_cons.2 ⟨⟨hconnect, hcheck⟩, hbefore⟩, hafter⟩

theorem clean_false_iff (ops : List Op) : Clean false ops ↔ ConnectsOnce ops := by
  induction ops with
  | nil => simp [Clean, ConnectsOnce]
  | cons op ops ih =>
    rw [Clean, connectsOnce_cons_iff]
    cases op.kind with
    | connect => simp
    | check => simp
    | nothing => simp [ih]
    | execute ok => cases ok <;> simp [ih]

/-- The runs that keep the discipline are the clean ones. -/
theorem disciplined_iff_clean (ops : List Op) :
    (∃ calls, lifetime ops = some calls ∧ Disciplined calls) ↔ Clean false ops := by
  obtain ⟨s', new, hrest, hcalls, -, hclean⟩ := rest_spec ops {} (by simp)
  have hlifetime : lifetime ops = some new := by
    rw [lifetime, hrest, Option.map_some, hcalls, List.nil_append]
  rw [hlifetime]
  constructor
  · rintro ⟨calls, hnew, hdisciplined⟩
    obtain rfl := Option.some_inj.1 hnew
    exact hclean.1 ⟨hdisciplined, by simp⟩
  · intro h
    exact ⟨new, rfl, (hclean.2 h).toDisciplined⟩

/-- **Handle discipline.** In a run of an object, no null future is handed to the driver and every
future and every statement is freed exactly once, exactly when the run connects once, before
anything trusts the stored future, and all its statements succeed. -/
theorem handleDiscipline_iff (ops : List Op) :
    (∃ calls, lifetime ops = some calls ∧ Disciplined calls) ↔ ConnectsOnce ops := by
  rw [disciplined_iff_clean, clean_false_iff]

/-- A connection that succeeds, and a statement that fails. -/
def failedStatement : List Op :=
  [.initializeConstructor { authMode := .passwordAuthenticator } 0, .executeCqlsh (some 1) [] 1]

/-- An object that is never initialised hands the null pointer over, and a statement that fails is
not freed. -/
theorem not_disciplined :
    (¬∃ calls, lifetime [] = some calls ∧ Disciplined calls) ∧
      ¬∃ calls, lifetime failedStatement = some calls ∧ Disciplined calls := by
  rw [disciplined_iff_clean, disciplined_iff_clean]
  constructor
  · simp [Clean]
  · simp [Clean, failedStatement, Op.kind, cassOk]

end Behh.Scylla
