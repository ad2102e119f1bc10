import Mathlib.Algebra.Ring.Int.Defs
import Mathlib.Data.Int.Notation
import Mathlib.Data.Nat.Notation
import Mathlib.Tactic.Common

/-!
# Looking for a port

`is_port_available` of `src/system.cc`. The function opens a socket, binds it to the port and closes
it again. A port above 65535 is refused after the socket has been opened, and the socket stays open:
every such call takes a file descriptor, until there is none left and every port looks taken. A
negative port is not refused, and is looked for modulo `2 ^ 16`.

The messages on the standard error stream are left out. What the operating system answers at the
time of a call is a parameter of the call.

## Main definitions

* `Descriptors`: the file descriptors of the process.
* `isPortAvailable`, `portRun`: the function, and calls of it one after the other.
* `PortCall.leaks`: the calls that leave a socket open.

## Main results

* `portRun_spec`: the answer of every call of a run, and the descriptors at its end.
-/

namespace Behh

/-! ### The operating system -/

/-- The file descriptors of a process. There are not more than its limit. -/
structure Descriptors where
  /-- The number of open ones. -/
  used : ℕ
  /-- The largest number of open ones. -/
  limit : ℕ
  /-- The limit is kept. -/
  used_le : used ≤ limit

/-- What the operating system answers at the time of a call. -/
structure Network where
  /-- A socket is refused, whether or not there is a descriptor for it. -/
  refuses : Bool
  /-- A socket can be bound to the port on all addresses. -/
  bindable : ℕ → Bool

/-- `socket(AF_INET, SOCK_STREAM, 0)`; nothing when it fails. -/
def socket (net : Network) (d : Descriptors) : Option Descriptors :=
  if h : d.used < d.limit ∧ net.refuses = false then some ⟨d.used + 1, d.limit, h.1⟩ else none

/-- `close(sock)`. -/
def closeSocket (d : Descriptors) : Descriptors :=
  ⟨d.used - 1, d.limit, Nat.le_trans (Nat.sub_le _ _) d.used_le⟩

/-- The conversion to 16 bits in the call of `htons`. -/
def toUInt16 (port : ℤ) : ℕ := (port % 2 ^ 16).toNat

/-! ### The function -/

/-- `is_port_available`. -/
def isPortAvailable (port : ℤ) (net : Network) (d : Descriptors) : ℤ × Descriptors :=
  match socket net d with
  | none => (0, d)
  | some d =>
    if port > 65535 then (0, d)
    else
      let available := net.bindable (toUInt16 port)
      (if available then 1 else 0, closeSocket d)

/-- A call, and the answers of the operating system. -/
structure PortCall where
  /-- `port`. -/
  port : ℤ
  /-- What the operating system answers. -/
  net : Network

/-- The results of calls that are made one after the other. -/
def portRun : List PortCall → Descriptors → List ℤ × Descriptors
  | [], d => ([], d)
  | call :: calls, d =>
    let r := isPortAvailable call.port call.net d
    let rest := portRun calls r.2
    (r.1 :: rest.1, rest.2)

/-! ### Runs -/

/-- The call leaves its socket open, if it gets one. -/
def PortCall.leaks (call : PortCall) : Bool := 65535 < call.port ∧ call.net.refuses = false

/-- The port can be bound, and a socket is not refused. -/
def PortCall.binds (call : PortCall) : Bool :=
  call.port ≤ 65535 ∧ call.net.refuses = false ∧ call.net.bindable (toUInt16 call.port) = true

/-- **One call.** It answers 1 when there is a descriptor for its socket, and the port can be
bound; and it takes a descriptor, if there is one, when the port is too large. -/
theorem isPortAvailable_spec (call : PortCall) (d : Descriptors) :
    (isPortAvailable call.port call.net d).1 =
        (if d.used < d.limit ∧ call.binds = true then 1 else 0) ∧
      (isPortAvailable call.port call.net d).2.limit = d.limit ∧
      (isPortAvailable call.port call.net d).2.used =
        min d.limit (d.used + if call.leaks = true then 1 else 0) := by
  obtain ⟨port, refuses, bindable⟩ := call
  have hle := d.used_le
  simp only [isPortAvailable, socket, PortCall.binds, PortCall.leaks, decide_eq_true_eq]
  by_cases hroom : d.used < d.limit
  · cases refuses with
    | true => simp [hle]
    | false =>
      rw [dif_pos ⟨hroom, rfl⟩]
      by_cases hport : port > 65535
      · simp [hport]
        omega
      · simp [hport, closeSocket, hroom, Int.not_lt.1 hport]
        omega
  · rw [dif_neg fun h => hroom h.1]
    simp [hroom]
    omega

/-- **Runs.** In every sequence of calls, a call answers 1 when the calls before it that leaked have
left a descriptor for its socket, and its port can be bound. At the end, one descriptor more is used
for each call that leaked, up to the limit. -/
theorem portRun_spec (before after : List PortCall) (call : PortCall) (d : Descriptors) :
    (portRun (before ++ call :: after) d).1[before.length]? =
        some (if d.used + before.countP PortCall.leaks < d.limit ∧ call.binds = true then 1
          else 0) ∧
      (portRun before d).2.used = min d.limit (d.used + before.countP PortCall.leaks) := by
  induction before generalizing d with
  | nil => exact ⟨congrArg some (isPortAvailable_spec call d).1, (Nat.min_eq_right d.used_le).symm⟩
  | cons first before ih =>
    obtain ⟨-, hlimit, hused⟩ := isPortAvailable_spec first d
    obtain ⟨hanswer, hend⟩ := ih (isPortAvailable first.port first.net d).2
    have hle := d.used_le
    have hcount : (first :: before).countP PortCall.leaks =
        before.countP PortCall.leaks + if first.leaks = true then 1 else 0 := List.countP_cons
    rw [hlimit, hused] at hanswer hend
    rw [hcount]
    constructor
    · rw [List.cons_append, portRun, List.length_cons, List.getElem?_cons_succ, hanswer]
      refine congrArg some (if_congr (and_congr_left fun _ => ?_) rfl rfl)
      omega
    · rw [portRun, hend]
      omega

end Behh
