import Behh.Interfaces.ScyllaIsolation

/-!
# The authentication response of ScyllaDB

`OnAuth::initialize` asks the driver for a buffer and fills it with two single bytes and two copies
at computed offsets. Here its requests and its writes are recorded beside the bytes: a byte that no
write reaches keeps what was in the buffer, and a byte that two writes reach holds the later one.

A server reads the response as SASL PLAIN prescribes: the NUL bytes separate an authorisation
identity, the name of the user and the password.

## Main definitions

* `ResponseRecord`: the sizes that were requested and the ranges that were written.
* `onAuthInitializeRecorded`: `OnAuth::initialize` with its record.
* `ResponseRecord.indices`: every index that was written, once for each time.

## Main results

* `onAuthInitializeRecorded_apply`: the response and the record of a call.
* `splitOn_plainResponse`: the three parts of a response.
* `onAuthInitialize_wellFormed`: the response is well formed.
-/

namespace Behh

/-- What a call of `OnAuth::initialize` has done: the sizes that it requested, and its writes, each
with the index of its first byte and its length. -/
structure ResponseRecord where
  /-- The arguments of `cass_authenticator_response`. -/
  requests : List ℕ := []
  /-- The ranges that were written, in order. -/
  writes : List (ℕ × ℕ) := []
  deriving DecidableEq

namespace ResponseRecord

/-- The indices that were written, in the order of the writes. -/
def indices (record : ResponseRecord) : List ℕ :=
  record.writes.flatMap fun w => List.range' w.1 w.2

end ResponseRecord

/-- `cass_authenticator_response`. -/
def authenticatorResponse (buffer : ResponseBuffer) (size : ℕ) : Prog ResponseRecord Bytes :=
  Prog.call fun record =>
    (buffer.1 size, { record with requests := record.requests ++ [size] })

/-- A write into the response. -/
def writeResponse (response : Bytes) (off : ℕ) (data : Bytes) : Prog ResponseRecord Bytes := do
  Prog.call fun record =>
    ((), { record with writes := record.writes ++ [(off, data.length)] })
  writeOut response off data

/-- `OnAuth::initialize`, with a record of what it does. -/
def onAuthInitializeRecorded (buffer : ResponseBuffer) (connection : ScylladbConnection) :
    Prog ResponseRecord Bytes := do
  let username := cString connection.username
  let password := cString connection.password
  let size := username.length + password.length + 2
  let response ← authenticatorResponse buffer size
  let response ← writeResponse response 0 [0]
  let response ← writeResponse response 1 username
  let response ← writeResponse response (username.length + 1) [0]
  writeResponse response (username.length + 2) password

/-- One request and four writes. -/
theorem onAuthInitializeRecorded_apply (buffer : ResponseBuffer)
    (connection : ScylladbConnection) (record : ResponseRecord) :
    onAuthInitializeRecorded buffer connection record =
      some (plainResponse connection.username connection.password,
        { requests := record.requests ++
            [(cString connection.username).length + (cString connection.password).length + 2]
          writes := record.writes ++
            [(0, 1), (1, (cString connection.username).length),
              ((cString connection.username).length + 1, 1),
              ((cString connection.username).length + 2,
                (cString connection.password).length)] }) := by
  obtain ⟨b₁, b₂, b₃, h₁, h₂, h₃, h₄⟩ := plain_writes (buffer.2
    ((cString connection.username).length + (cString connection.password).length + 2))
  simp [onAuthInitializeRecorded, authenticatorResponse, writeResponse, h₁, h₂, h₃, h₄,
    plainResponse]

/-- The four ranges lie behind each other and leave nothing out. -/
theorem indices_tile (u p : ℕ) :
    ({ writes := [(0, 1), (1, u), (u + 1, 1), (u + 2, p)] } : ResponseRecord).indices =
      List.range (u + p + 2) := by
  have htile (m n : ℕ) : List.range' 0 m ++ List.range' m n = List.range' 0 (m + n) := by
    rw [← List.range'_append_1, Nat.zero_add]
  calc ({ writes := [(0, 1), (1, u), (u + 1, 1), (u + 2, p)] } : ResponseRecord).indices
      = List.range' 0 1 ++ List.range' 1 u ++ List.range' (u + 1) 1 ++ List.range' (u + 2) p := by
        simp [ResponseRecord.indices]
    _ = List.range' 0 (u + 1) ++ List.range' (u + 1) 1 ++ List.range' (u + 2) p := by
        rw [htile, Nat.add_comm 1 u]
    _ = List.range' 0 (u + 2 + p) := by rw [htile, htile]
    _ = List.range (u + p + 2) := by
        rw [List.range_eq_range', show u + 2 + p = u + p + 2 by omega]

/-- **The parts of a response** are an empty authorisation identity and the two texts. -/
theorem splitOn_plainResponse (username password : Bytes) :
    (plainResponse username password).splitOn 0 = [[], cString username, cString password] := by
  rw [plainResponse, List.cons_append]
  calc (0 :: (cString username ++ 0 :: cString password)).splitOn 0
      = [] :: (cString username ++ 0 :: cString password).splitOn 0 :=
        List.splitOn_append_cons_self_of_not_mem List.not_mem_nil _
    _ = [] :: cString username :: (cString password).splitOn 0 := by
        rw [List.splitOn_append_cons_self_of_not_mem (zero_notMem_cString username)]
    _ = [[], cString username, cString password] := by
        rw [List.splitOn_eq_singleton (zero_notMem_cString password)]

/-- **The authentication response is well formed.** A call requests one buffer, of the length of
the two texts and two; it writes every byte of it once and no other, whatever was in the buffer;
the response splits at NUL into an empty text, the user and the password, so that another response
is the same for the same two texts only. -/
theorem onAuthInitialize_wellFormed (buffer : ResponseBuffer) (connection : ScylladbConnection) :
    ∃ response record,
      onAuthInitializeRecorded buffer connection {} = some (response, record) ∧
      (onAuthInitialize buffer connection : Prog ResponseRecord Bytes) = pure response ∧
      record.requests =
        [(cString connection.username).length + (cString connection.password).length + 2] ∧
      response.length =
        (cString connection.username).length + (cString connection.password).length + 2 ∧
      record.indices = List.range response.length ∧
      response.splitOn 0 = [[], cString connection.username, cString connection.password] ∧
      ∀ (buffer' : ResponseBuffer) (connection' : ScylladbConnection) (record' : ResponseRecord),
        onAuthInitializeRecorded buffer' connection' {} = some (response, record') →
        cString connection'.username = cString connection.username ∧
          cString connection'.password = cString connection.password := by
  have hlength : (plainResponse connection.username connection.password).length =
      (cString connection.username).length + (cString connection.password).length + 2 := by
    simp only [plainResponse, List.length_append, List.length_cons]
    omega
  refine ⟨_, _, onAuthInitializeRecorded_apply buffer connection {}, onAuthInitialize_eq _ _, rfl,
    hlength, ?_, splitOn_plainResponse _ _, ?_⟩
  · rw [hlength]
    exact indices_tile _ _
  · intro buffer' connection' record' h
    rw [onAuthInitializeRecorded_apply] at h
    exact plainResponse_inj.1 (Prod.mk.inj (Option.some_inj.1 h)).1

end Behh
