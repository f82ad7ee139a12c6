import ProgPowMiner.Stratum.Client

/-!
# Reading a response

`readResponse` after a successful read takes the line up to the newline. A line that starts with
`{`, ends with `}` and that jsoncpp's `Json::Reader` parses goes to `processReponse`; any other
line is skipped with a warning. The reader is outside the repository and is a parameter here
(`parse`, `none` where `Reader::parse` returns `false`).

Nothing on this path catches an exception: whatever `processReponse` throws leaves
`readResponse` and reaches `io_service::run` on the I/O thread.

* `readResponse_processReponse`: a parsed line's result is `processReponse`'s, throw included.
* `readResponse_throws_on_string_id`: a parsed object whose `id` is a string throws from
  `asInt()`, whatever the rest of the line holds.
* `processReponse_dispatches_on_id`: the switch on `id` comes before the look at `method`, so a
  notification or request of the pool that carries the id of one of the client's requests is
  taken for the response to it.
-/

namespace ProgPowMiner.Stratum

variable (conn : Connection) (toEpoch : Nat → Except Throw Int) (version : String)
  (parse : String → Option Json)

/-- `readResponse` on a read of `line`: the session after the line and the handler's effects, or
the exception that escapes. -/
def Session.readResponse (s : Session) (line : String) : Except Throw (Session × List Effect) :=
  if line ≠ "" ∧ line.front = '{' ∧ line.back = '}' then
    match parse line with
    | some o => s.processReponse conn toEpoch version o
    | none => .ok (s, [])
  else .ok (s, [])

/-- A braced line the reader parses is handled by `processReponse`, exceptions included. -/
theorem Session.readResponse_processReponse (s : Session) {line : String} {o : Json}
    (hline : line ≠ "" ∧ line.front = '{' ∧ line.back = '}') (hp : parse line = some o) :
    s.readResponse conn toEpoch version parse line = s.processReponse conn toEpoch version o := by
  rw [Session.readResponse, if_pos hline, hp]

/-- `asString()` throws nothing but `LogicError`. -/
theorem Json.asString_error {j : Json} {e : Throw} (h : j.asString = .error e) :
    e = .logicError := by
  cases j <;> simp [Json.asString] at h <;> exact h.symm

/-- **An exception escapes `readResponse`.** For every session and dialect, a braced line that the
reader parses into an object whose `id` is a string makes `asInt()` throw `LogicError`, and
nothing catches it. -/
theorem readResponse_throws_on_string_id (s : Session) (o : Json) {line t : String}
    (hline : line ≠ "" ∧ line.front = '{' ∧ line.back = '}') (hp : parse line = some o)
    (hid : o.getKey "id" .null = .str t) :
    s.readResponse conn toEpoch version parse line = .error .logicError := by
  rw [s.readResponse_processReponse conn toEpoch version parse hline hp, Session.processReponse]
  simp only [hid, Json.asInt, Json.asIntN, bind, Except.bind]
  split
  · cases h : ((o.getKey "error" .null).getIdx 1 (.str "Unknown error")).asString with
    | error e => rw [Json.asString_error h]
    | ok v => rfl
  · rfl

/-- The pool sends a submission's answer with its id quoted, `{"id":"4","result":true}`, on a
stratum connection. -/
theorem readResponse_throws_on_quoted_id :
    Session.readResponse ⟨.stratum, "u", "p"⟩ (fun _ => .ok 0) "v"
      (fun l => if l = "\x7b\"id\":\"4\",\"result\":true\x7d" then
        some (.obj [("id", .str "4"), ("result", .bool true)]) else none)
      ⟨true, true, false, true, false, 1, 0, 0, WorkPackage.empty, "", true, true⟩
      "\x7b\"id\":\"4\",\"result\":true\x7d" = .error .logicError :=
  readResponse_throws_on_string_id _ _ _ _ _ (.obj [("id", .str "4"), ("result", .bool true)])
    (by decide) (by simp) rfl

/-! ### Dispatch on `id` before `method` -/

/-- **`processReponse` answers by `id` before it looks at `method`.** For every dialect and
session, an inbound object with no `result` member and no error array is handled by its `id`
alone, whatever `method` it carries (a notification or a request of the pool). With `id` 3 the
client records that it is not authorised and disconnects; with `id` 4 it cancels the response
timer, clears `m_response_pending` and calls `on_solution_rejected`; with `id` 1 on a stratum
connection it sends `mining.authorize` again. -/
theorem processReponse_dispatches_on_id (s : Session) (o : Json) (herr : (o.getKey "error" .null).isArray = false)
    (hres : ∀ d, o.getKey "result" d = d) :
    (o.getKey "id" .null = .int 3 →
      s.processReponse conn toEpoch version o = .ok ({ s with authorized := false }.disconnect)) ∧
    (o.getKey "id" .null = .int 4 →
      s.processReponse conn toEpoch version o =
        .ok ({ s with responseTimer := false, responsePending := false }, [.rejected s.stale])) ∧
    (conn.version = .stratum → o.getKey "id" .null = .int 1 →
      s.processReponse conn toEpoch version o =
        .ok (s, [.append ("\x7b\"id\": 3, \"method\": \"mining.authorize\", \"params\": [\"" ++
          conn.user ++ "\",\"" ++ conn.pass ++ "\"]\x7d\n"), .write])) := by
  refine ⟨fun hid => ?_, fun hid => ?_, fun hv hid => ?_⟩ <;>
    simp only [Session.processReponse, herr, hid, hres, Json.asInt, Json.asIntN, Json.asBool]
  · rfl
  · rfl
  · simp [hv, bind, Except.bind, pure, Except.pure]

/-- A `client.get_version` request that the pool numbers 4, on a stratum connection with a
submission pending: the client takes it for the answer to its submission. -/
theorem processReponse_get_version_four :
    Session.processReponse ⟨.stratum, "u", "p"⟩ (fun _ => .ok 0) "v"
      ⟨true, true, false, true, false, 1, 0, 0, WorkPackage.empty, "", true, true⟩
      (.obj [("id", .int 4), ("method", .str "client.get_version"), ("params", .arr [])]) =
      .ok (⟨true, true, false, false, false, 1, 0, 0, WorkPackage.empty, "", false, true⟩,
        [.rejected false]) :=
  (processReponse_dispatches_on_id ⟨.stratum, "u", "p"⟩ (fun _ => .ok 0) "v"
    ⟨true, true, false, true, false, 1, 0, 0, WorkPackage.empty, "", true, true⟩
    (.obj [("id", .int 4), ("method", .str "client.get_version"), ("params", .arr [])])
    rfl fun _ => rfl).2.1 rfl

end ProgPowMiner.Stratum
