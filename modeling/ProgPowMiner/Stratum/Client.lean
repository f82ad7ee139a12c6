import ProgPowMiner.Stratum.Json
import Mathlib.Tactic.NormNum

/-!
# `EthStratumClient`: the protocol engine

The handlers of `EthStratumClient.cpp` that run on the I/O thread, as functions of the session
state: `processExtranonce`, `processReponse` (responses to requests 1 to 4 and the
notifications `mining.notify`, `mining.set_difficulty`, `mining.set_extranonce`,
`client.get_version`), `submitSolution`, the timer handlers and `disconnect`.

A handler returns the new state and what it did outside the state, in order: lines appended to
`m_requestBuffer`, `async_write` calls, callbacks into the farm, a disconnect. A handler that
throws returns `.error`; nothing catches the exception on the I/O thread, so the state it
leaves behind is not modelled.

The `double` `m_nextWorkDifficulty` and the arithmetic of `diffToTarget` are binary64
(`Binary64.lean`). `EthashAux::toEpoch` is a parameter. The socket and TLS layers are not modelled here;
`Write.lean` models the write path.
-/

namespace ProgPowMiner.Stratum

/-- `EthStratumClient::STRATUM`, `ETHPROXY`, `ETHEREUMSTRATUM`. -/
inductive Dialect
  | stratum
  | ethproxy
  | ethereumStratum
deriving DecidableEq, Repr

/-- The part of `m_connection` the handlers read. -/
structure Connection where
  version : Dialect
  user : String
  pass : String
deriving DecidableEq, Repr

/-- The members of `EthStratumClient` the handlers read and write. -/
structure Session where
  authorized : Bool
  connected : Bool
  linkdown : Bool
  responsePending : Bool
  stale : Bool
  nextWorkDifficulty : Double
  /-- `m_extraNonce`, the big-endian value of its 8 bytes. -/
  extraNonce : Nat
  extraNonceHexSize : Nat
  current : WorkPackage
  worker : String
  /-- `m_responsetimer` is waiting (armed and not cancelled). -/
  responseTimer : Bool
  /-- `m_worktimer` is waiting. -/
  workTimer : Bool

/-- What a handler does besides changing the session, in program order. -/
inductive Effect
  /-- `os << line` on `m_requestBuffer`. -/
  | append (line : String)
  /-- `async_write` of `m_requestBuffer` (with `handleResponse` as completion). -/
  | write
  | accepted (stale : Bool)
  | rejected (stale : Bool)
  | workReceived (w : WorkPackage)
  | disconnected
deriving DecidableEq, Repr

/-- `disconnect()`: cancel both timers, clear `m_response_pending`, set `m_linkdown`, close the
socket, clear `m_authorized` and `m_connected`, and call `m_onDisconnected`. -/
def Session.disconnect (s : Session) : Session × List Effect :=
  ({ s with
      workTimer := false, responseTimer := false, responsePending := false, linkdown := true,
      authorized := false, connected := false }, [.disconnected])

/-- `processExtranonce(enonce)`: record the length, pad with `0` to 16 digits, parse as `h64`. -/
def Session.processExtranonce (s : Session) (enonce : List Char) : Except Throw Session :=
  let padded := enonce ++ List.replicate (16 - enonce.length) '0'
  match fixedHash? 8 padded with
  | some v => .ok { s with extraNonceHexSize := enonce.length, extraNonce := v }
  | none => .error .badHexCharacter

/-- The loop of `diffToTarget`: divide by `4294967296.0` while `k > 0` and the difficulty
exceeds `1.0`; returns the final `k` and difficulty. -/
def diffLoop : Nat → Double → Nat × Double
  | 0, d => (0, d)
  | k + 1, d => if 1 < d.val then diffLoop k (d / .ofRat 4294967296) else (k + 1, d)

/-- `diffToTarget(target, diff)` as the 256-bit value of the big-endian target it writes:
`m = (uint64_t)(4294901760.0 / diff)` in word `k` and `k + 1`, or all ones when `m = 0` and
`k = 6`. The conversion of a quotient outside `(-1, 2^64)`, and of the infinite quotient of a
zero difficulty, is undefined. -/
def diffToTarget (diff : Double) : Except Throw Nat :=
  let (k, d) := diffLoop 6 diff
  if d.val = 0 then .error .undefinedBehaviour else
  let q := (Double.ofRat 4294901760 / d).val
  if -1 < q ∧ q < 2 ^ 64 then
    let m := (Int.tdiv q.num q.den).toNat
    if m = 0 ∧ k = 6 then .ok (2 ^ 256 - 1)
    else .ok (m % 2 ^ 32 * 2 ^ (32 * k) + m / 2 ^ 32 * 2 ^ (32 * (k + 1)))
  else .error .undefinedBehaviour

/-- Difficulty 1 puts the word `0xFFFF0000` at word 6: the big-endian target
`00 00 00 00 FF FF 00 … 00`. -/
theorem diffToTarget_one : diffToTarget 1 = .ok (0xFFFF0000 * 2 ^ 192) := by
  have hl : diffLoop 6 1 = (6, 1) := by simp [diffLoop]
  have hq : (Double.ofRat 4294901760 / 1).val = ((4294901760 : Int) : Rat) := by
    rw [Double.val_div, Double.val_ofRat, Double.val_one, div_one,
      show (4294901760 : Rat) = ((4294901760 : Int) : Rat) by norm_num,
      roundDouble_intCast (by norm_num), roundDouble_intCast (by norm_num)]
  rw [diffToTarget, hl]
  dsimp only
  rw [if_neg (by simp), hq, Rat.num_intCast, Rat.den_intCast, if_pos (by norm_num)]
  rfl

/-- `reset_work_timeout()`. -/
def Session.resetWorkTimeout (s : Session) : Session := { s with workTimer := true }

/-- `h256(s)`. -/
def h256 (s : String) : Except Throw Nat :=
  match fixedHash? 32 s.data with
  | some v => .ok v
  | none => .error .badHexCharacter

/-- `uint64_t` of an `Int64`. -/
def toU64 (i : Int) : Nat := (i % 2 ^ 64).toNat

/-- `job.resize(64, '0')`. -/
def resize64 (job : List Char) : List Char := job.take 64 ++ List.replicate (64 - job.length) '0'

/-- The coinmine.pl fix: a share target shorter than 66 characters is re-padded to 66 after its
first two characters; `substr(2)` throws on a string shorter than 2. -/
def coinmineFix (t : List Char) : Except Throw (List Char) :=
  if t.length < 66 then
    if t.length < 2 then .error .outOfRange
    else .ok (['0', 'x'] ++ List.replicate (66 - t.length) '0' ++ t.drop 2)
  else .ok t

variable (conn : Connection) (toEpoch : Nat → Except Throw Int) (version : String)

/-- The ethereum-stratum `mining.notify` with parameters `params` and job id `job`. -/
def Session.notifyEthereumStratum (s : Session) (params : Json) (job : String) :
    Except Throw (Session × List Effect) := do
  let seed ← (params.getIdx 1 (.str "")).asString
  let header ← (params.getIdx 2 (.str "")).asString
  let height ← (params.getIdx 3 (.str "")).asInt64
  if header != "" && seed != "" then
    let s := s.resetWorkTimeout
    let h ← h256 header
    let epoch ← toEpoch (← h256 seed)
    let boundary ← diffToTarget s.nextWorkDifficulty
    let jobH ← h256 (String.mk (resize64 job.data))
    let w : WorkPackage := { s.current with
      header := h, epoch := epoch, height := toU64 height, boundary := boundary,
      startNonce := s.extraNonce, exSizeBits := 4 * s.extraNonceHexSize, jobLen := job.length,
      job := jobH }
    pure ({ s with current := w }, [.workReceived w])
  else pure (s, [])

/-- The stratum and ethproxy `mining.notify` (or `eth_getWork` result), whose fields start at
`index`. -/
def Session.notifyStratum (s : Session) (params : Json) (index : Nat) (job : String) :
    Except Throw (Session × List Effect) := do
  let header ← (params.getIdx index (.str "")).asString
  let seed ← (params.getIdx (index + 1) (.str "")).asString
  let shareTarget ← (params.getIdx (index + 2) (.str "")).asString
  let height ← (params.getIdx (index + 3) (.str "")).asInt64
  let shareTarget ← coinmineFix shareTarget.data
  if header != "" && seed != "" && shareTarget != [] then
    let headerHash ← h256 header
    if headerHash != s.current.header then
      let s := s.resetWorkTimeout
      let epoch ← toEpoch (← h256 seed)
      let boundary ← h256 (String.mk shareTarget)
      let jobH ← h256 job
      let w : WorkPackage := { s.current with
        header := headerHash, epoch := epoch, boundary := boundary, height := toU64 height,
        job := jobH }
      pure ({ s with current := w }, [.workReceived w])
    else pure (s, [])
  else pure (s, [])

/-- `processReponse(responseObject)`. -/
def Session.processReponse (s : Session) (o : Json) : Except Throw (Session × List Effect) := do
  let error := o.getKey "error" .null
  if error.isArray then
    let _ ← (error.getIdx 1 (.str "Unknown error")).asString
  let id ← (o.getKey "id" .null).asInt
  match id with
  | 1 =>
    let (s, ev) ← if conn.version = .ethereumStratum then do
        let s := { s with nextWorkDifficulty := 1 }
        let params := o.getKey "result" .null
        let s ← if params.isArray then do
            let enonce ← (params.getIdx 1 (.str "")).asString
            s.processExtranonce enonce.data
          else pure s
        pure (s, [Effect.append
          "\x7b\"id\": 2, \"method\": \"mining.extranonce.subscribe\", \"params\": []\x7d\n"])
      else pure (s, [])
    if conn.version ≠ .ethproxy then
      pure (s, ev ++ [.append ("\x7b\"id\": 3, \"method\": \"mining.authorize\", \"params\": [\"" ++
        conn.user ++ "\",\"" ++ conn.pass ++ "\"]\x7d\n"), .write])
    else
      pure ({ s with authorized := true },
        ev ++ [.append "\x7b\"id\": 5, \"method\": \"eth_getWork\", \"params\": []\x7d\n", .write])
  | 2 => pure (s, [])
  | 3 =>
    let a ← (o.getKey "result" .null).asBool
    let s := { s with authorized := a }
    if !a then pure s.disconnect else pure (s, [])
  | 4 =>
    let s := { s with responseTimer := false, responsePending := false }
    if ← (o.getKey "result" (.bool false)).asBool then pure (s, [.accepted s.stale])
    else pure (s, [.rejected s.stale])
  | _ =>
    let (method, workattr, index) ← if conn.version ≠ .ethproxy then do
        pure ((← (o.getKey "method" (.str "")).asString), "params", 1)
      else pure ("mining.notify", "result", 0)
    if method = "mining.notify" then
      let params := o.getKey workattr .null
      if params.isArray then
        let job ← (params.getIdx 0 (.str "")).asString
        let s := if s.responsePending then { s with stale := true } else s
        if conn.version = .ethereumStratum then s.notifyEthereumStratum toEpoch params job
        else s.notifyStratum toEpoch params index job
      else pure (s, [])
    else if method = "mining.set_difficulty" ∧ conn.version = .ethereumStratum then
      let params := o.getKey "params" .null
      if params.isArray then
        let d ← (params.getIdx 0 (.int 1)).asDouble
        pure ({ s with nextWorkDifficulty :=
          if d.val ≤ (Double.ofRat (1 / 10000)).val then .ofRat (1 / 10000) else d }, [])
      else pure (s, [])
    else if method = "mining.set_extranonce" ∧ conn.version = .ethereumStratum then
      let params := o.getKey "params" .null
      if params.isArray then
        let enonce ← (params.getIdx 0 (.str "")).asString
        pure ((← s.processExtranonce enonce.data), [])
      else pure (s, [])
    else if method = "client.get_version" then
      pure (s, [.append ("\x7b\"error\": null, \"id\" : " ++ toString id ++ ", \"result\" : \"" ++
        version ++ "\"\x7d\n"), .write])
    else pure (s, [])

/-- `nonceHex.substr(m_extraNonceHexSize, 16 - m_extraNonceHexSize)`: the nonce digits the
ethereum-stratum submit sends; `substr` throws when the position is past the 16 digits. -/
def submitNonceParam (hexSize nonce : Nat) : Except Throw (List Char) :=
  if hexSize ≤ 16 then .ok (((toHex16 nonce).drop hexSize).take (16 - hexSize))
  else .error .outOfRange

/-- The hex of an `h256`, as `FixedHash::hex()` writes it. -/
def hex256 (v : Nat) : String := String.mk (toHexN 64 v)

/-- The id 4 request line `submitSolution` builds for the dialect; `substr` throws in the
ethereum-stratum dialect when `m_extraNonceHexSize` is past the 16 digits. -/
def Session.submitLine (s : Session) (sol : Solution) : Except Throw String :=
  let nonceHex := String.mk (toHex16 sol.nonce)
  match conn.version with
  | .stratum => pure ("\x7b\"id\": 4, \"method\": \"mining.submit\", \"params\": [\"" ++
      conn.user ++ "\",\"" ++ hex256 sol.work.job ++ "\",\"0x" ++ nonceHex ++ "\",\"0x" ++
      hex256 sol.work.header ++ "\",\"0x" ++ hex256 sol.mixHash ++ "\"]\x7d\n")
  | .ethproxy => pure ("\x7b\"id\": 4, \"worker\":\"" ++ s.worker ++
      "\", \"method\": \"eth_submitWork\", \"params\": [\"0x" ++ nonceHex ++ "\",\"0x" ++
      hex256 sol.work.header ++ "\",\"0x" ++ hex256 sol.mixHash ++ "\"]\x7d\n")
  | .ethereumStratum => do
      let n ← submitNonceParam s.extraNonceHexSize sol.nonce
      pure ("\x7b\"id\": 4, \"method\": \"mining.submit\", \"params\": [\"" ++ conn.user ++
        "\",\"" ++ String.mk ((toHexN 64 sol.work.job).take sol.work.jobLen) ++ "\",\"" ++
        String.mk n ++ "\"]\x7d\n")

/-- `submitSolution(solution)`: the id 4 request appended and written; the solution's stale flag
goes to `m_stale`, and the response timer is re-armed. -/
def Session.submitSolution (s : Session) (sol : Solution) : Except Throw (Session × List Effect) := do
  let json ← s.submitLine conn sol
  pure ({ s with stale := sol.stale, responsePending := true, responseTimer := true },
    [.append json, .write])

/-- `response_timeout_handler` when the timer expires: disconnect. -/
def Session.responseTimeout (s : Session) : Session × List Effect := s.disconnect

/-! ### The extranonce path -/

/-- `processExtranonce` of `L ≤ 16` lowercase digits of value `v`: the size `L`, and `v` in the
top `L` digits of the 8 bytes. -/
theorem Session.processExtranonce_ok (s : Session) {E : List Char} (hE : ∀ ch ∈ E, IsHexDigit ch)
    (hL : E.length ≤ 16) {v : Nat} (hv : hexValue? E = some v) :
    s.processExtranonce E =
      .ok { s with extraNonceHexSize := E.length, extraNonce := v * 16 ^ (16 - E.length) } := by
  have hpad : ∀ ch ∈ E ++ List.replicate (16 - E.length) '0', IsHexDigit ch := by
    intro ch hch
    rcases List.mem_append.mp hch with h | h
    · exact hE ch h
    · rw [List.eq_of_mem_replicate h]; decide
  have hlen : (E ++ List.replicate (16 - E.length) '0').length = 2 * 8 := by simp; omega
  simp only [Session.processExtranonce, fixedHash?_of_hexDigits hpad hlen, hexValue?_append_zeros,
    hv, Option.map_some']

/-- The ethereum-stratum notify leaves the extranonce alone and puts it in the package it
delivers: `startNonce = m_extraNonce`, `exSizeBits = 4 * m_extraNonceHexSize`. -/
theorem Session.notifyEthereumStratum_work {s s' : Session} {params : Json} {job : String}
    {effs : List Effect} (h : s.notifyEthereumStratum toEpoch params job = .ok (s', effs)) :
    s'.extraNonce = s.extraNonce ∧ s'.extraNonceHexSize = s.extraNonceHexSize ∧
      ∀ w, Effect.workReceived w ∈ effs →
        w.startNonce = s.extraNonce ∧ w.exSizeBits = 4 * s.extraNonceHexSize := by
  simp only [Session.notifyEthereumStratum, bind_eq_ok] at h
  obtain ⟨seed, -, header, -, height, -, h⟩ := h
  split_ifs at h
  · simp only [bind_eq_ok, pure_eq_ok, Prod.mk.injEq] at h
    obtain ⟨_, -, _, -, _, -, _, -, _, -, rfl, rfl⟩ := h
    simp [Session.resetWorkTimeout]
  · simp only [pure_eq_ok, Prod.mk.injEq] at h
    obtain ⟨rfl, rfl⟩ := h
    simp

/-- `w` is delivered by the ethereum-stratum `mining.notify` handler in a session whose
extranonce is that of `s`. -/
def NotifiedUnder (s : Session) (w : WorkPackage) : Prop :=
  ∃ (sN : Session) (params : Json) (job : String) (r : Session × List Effect),
    sN.extraNonce = s.extraNonce ∧ sN.extraNonceHexSize = s.extraNonceHexSize ∧
      sN.notifyEthereumStratum toEpoch params job = .ok r ∧ Effect.workReceived w ∈ r.2

theorem NotifiedUnder.fields {s : Session} {w : WorkPackage} (h : NotifiedUnder toEpoch s w) :
    w.startNonce = s.extraNonce ∧ w.exSizeBits = 4 * s.extraNonceHexSize := by
  obtain ⟨sN, params, job, r, he, hs, hn, hw⟩ := h
  rw [← he, ← hs]
  exact (Session.notifyEthereumStratum_work toEpoch hn).2.2 w hw

/-- The nonce digits the ethereum-stratum submit sends, behind `E` in lowercase, spell the
nonce whenever the nonce's top `L` digits are `E`. -/
theorem submitNonceParam_prefix {E : List Char} (hE : ∀ ch ∈ E, IsHexDigit ch)
    (hL : E.length ≤ 16) {v x : Nat} (hv : hexValue? E = some v)
    (hx : x / 16 ^ (16 - E.length) = v) :
    (submitNonceParam E.length x).map (E.map Char.toLower ++ ·) = .ok (toHex16 x) := by
  obtain ⟨v', hv', hE'⟩ := toHexN_hexValue?_toLower hE
  obtain rfl : v' = v := Option.some.inj (hv'.symm.trans hv)
  have htake : (toHex16 x).take E.length = E.map Char.toLower := by
    rw [toHex16, ← Nat.add_sub_cancel' hL, take_toHexN, hx, hE']
  have hdrop : ((toHex16 x).drop E.length).take (16 - E.length) = (toHex16 x).drop E.length :=
    List.take_of_length_le (by simp [toHex16])
  simp only [submitNonceParam, if_pos hL, hdrop, Except.map]
  conv_rhs => rw [← List.take_append_drop E.length (toHex16 x), htake]

end ProgPowMiner.Stratum
