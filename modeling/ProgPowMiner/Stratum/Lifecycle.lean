import ProgPowMiner.Stratum.Reachable

/-!
# The life of a client: its I/O thread, its login and its pointers

`connect()` starts the thread that runs `m_io_service` the first time only. After that
`m_serviceThread.joinable()` holds, since nothing joins the thread before the destructor, and
`connect()` calls `m_io_service.reset()` and no `run()`. The thread leaves `run()` when it sees
the `stop()` of a `disconnect()` that no `connect()` followed in time (`exitRun`), or when an
exception escapes a handler (`Link.afterLine`).

`connect_handler` sets `m_connected`, and on a stratum or ethereum-stratum connection
`m_authorized` with it, before the pool has answered anything. The answer to `mining.authorize`
(`id` 3) stores its result, and a result that is not true disconnects in the same handler.

* `exited_thread_runs_no_handler`: once the thread has left `run()`, no handler runs in any later
  run. The thread stays out, every queued handler stays queued, no line is read, and the client
  is never connected again, whatever the owner calls: only `connect_handler` sets `m_connected`.
* `stratum_connected_authorized`: on a stratum or ethereum-stratum connection, every reachable
  state in which the client is connected has it authorized. (On an ethproxy connection it is
  connected and not authorized until the pool answers `eth_submitLogin`.)
* `only_owner_calls_fault`: in every reachable state, a step that dereferences a null or released
  pointer is the owner's `disconnect()` or `submitSolution()` after a `disconnect()` that no
  `connect()` has followed (or before the first). No handler, timer or network event does.

Proof. `Link.Idle l l'` says that `l'` follows `l` without a handler run. Every call of the owner
and every event of the network and of the timers is such a step, `connect()` included once the
thread has been started, and with the thread out so are `deliver` and `exitRun`. For the login,
`Session.KeepsLogin` of `Reachable.lean` says that no reply of the pool connects or takes the
authorisation of a client that stays connected; the transport leaves the session as it is, and
`connect_handler` authorizes as it connects. For the pointers, `Wiring.Armed` says that the thread
runs only after a `connect()` and that, until a `disconnect()` stops it, the pointers are the
ones `connect()` set (`Wiring.Wired`); every step keeps it, a handler runs only on wired pointers,
and on wired pointers nothing dereferences a null one (`Link.Steady`, `Link.Safe`). A reply that
disconnects does nothing after it (`Session.Reply.disconnects`).
-/

namespace ProgPowMiner.Stratum

/-- `l'` follows `l` with no handler run: the thread as it was, every queued handler still queued
and in order, no line taken, and no connection made. -/
structure Link.Idle (l l' : Link) : Prop where
  service : l'.service = l.service
  queue : l.queue <+: l'.queue
  lines : l'.lines = l.lines
  connected : l'.session.connected = true → l.session.connected = true

theorem Link.Idle.refl (l : Link) : l.Idle l := ⟨rfl, List.prefix_refl _, rfl, id⟩

theorem Link.Idle.trans {l₁ l₂ l₃ : Link} (h₁ : l₁.Idle l₂) (h₂ : l₂.Idle l₃) : l₁.Idle l₃ :=
  ⟨h₂.service.trans h₁.service, h₁.queue.trans h₂.queue, h₂.lines.trans h₁.lines,
    h₁.connected ∘ h₂.connected⟩

variable (conn : Connection) (toEpoch : Nat → Except Throw Int) (version : String)
  (parse : String → Option Json) (submitHashrate : Bool)

theorem Session.submitSolution_login {s s' : Session} {sol : Solution} {effs : List Effect}
    (h : s.submitSolution conn sol = .ok (s', effs)) : s.KeepsLogin s' := by
  simp only [Session.submitSolution, bind_eq_ok, pure_eq_ok, Prod.mk.injEq] at h
  obtain ⟨_, -, rfl, rfl⟩ := h
  exact .of_eq rfl rfl

/-! ### The transport -/

theorem Link.idle_close (l : Link) (g : Nat) : l.Idle (l.close g) :=
  ⟨rfl, List.prefix_append _ _, rfl, id⟩

theorem Link.idle_asyncWrite (l : Link) (b : Bool) : l.Idle (l.asyncWrite b) := by
  unfold Link.asyncWrite; split <;> exact ⟨rfl, List.prefix_refl _, rfl, id⟩

theorem Link.idle_teardown (l : Link) : l.Idle l.teardown := by
  have h₁ : l.Idle l.useSecure := by
    unfold Link.useSecure; split <;> exact ⟨rfl, List.prefix_refl _, rfl, id⟩
  have h₂ : ∀ l' : Link, l'.Idle l'.closeSocket := fun l' => by
    unfold Link.closeSocket; split
    · exact idle_close _ _
    · exact ⟨rfl, List.prefix_refl _, rfl, id⟩
  have h₃ : ∀ l' : Link, l'.Idle l'.release := fun l' => by
    unfold Link.release; split <;> exact ⟨rfl, List.prefix_refl _, rfl, id⟩
  exact h₁.trans ((h₂ _).trans (h₃ _))

theorem Link.idle_disconnect (l : Link) : l.Idle l.disconnect :=
  (⟨rfl, List.prefix_refl _, rfl, fun h => (by cases h)⟩ :
    l.Idle { l with session := l.session.disconnect.1 }).trans (idle_teardown _)

theorem Link.idle_applyEffects (l : Link) (effs : List Effect) : l.Idle (l.applyEffects effs) := by
  induction effs generalizing l with
  | nil => exact .refl l
  | cons e effs ih =>
    refine Idle.trans ?_ (ih (l.applyEffect e))
    cases e with
    | append line => exact ⟨rfl, List.prefix_refl _, rfl, id⟩
    | write => exact idle_asyncWrite l false
    | accepted b | rejected b => exact ⟨rfl, List.prefix_refl _, rfl, id⟩
    | disconnected => exact idle_teardown l
    | _ => exact .refl l

theorem Link.idle_connect (l : Link) (tls : Bool) (hn : l.service ≠ .notStarted) :
    l.Idle (l.connect tls) := by
  have h₁ : l.Idle (l.releaseOld tls) := by
    unfold Link.releaseOld; split
    · exact idle_close _ _
    · exact .refl l
  have h₃ : ∀ l' : Link, l'.service ≠ .notStarted → l'.Idle l'.runService := fun l' hn' => by
    rw [Link.runService, if_neg hn']
    exact ⟨rfl, List.prefix_refl _, rfl, id⟩
  refine h₁.trans (Idle.trans ?_ (h₃ _ fun h => hn (h₁.service.symm.trans h)))
  exact ⟨rfl, List.prefix_refl _, rfl, fun h => (by cases h)⟩

/-! ### Runs once the thread is out -/

theorem Link.idle_step {l : Link} (hx : l.service = .exited) (e : LinkEvent) :
    l.Idle (l.step conn toEpoch version parse submitHashrate e) := by
  cases e with
  | connect tls => exact idle_connect l tls (by rw [hx]; decide)
  | disconnect => exact idle_disconnect l
  | submitSolution sol =>
    dsimp only [Link.step]
    split
    · rename_i s effs h
      have hs : l.Idle { l with session := s, outstanding := l.outstanding ++ [sol.stale] } :=
        ⟨rfl, List.prefix_refl _, rfl, fun hc => (Session.submitSolution_login conn h hc).1⟩
      exact hs.trans (idle_applyEffects _ effs)
    · exact .refl l
  | arrive g bytes => exact ⟨rfl, List.prefix_refl _, rfl, id⟩
  | complete k ok | readSome k n =>
    dsimp only [Link.step]
    split <;> (try split) <;> first
      | exact .refl l
      | exact ⟨rfl, List.prefix_append _ _, rfl, id⟩
      | exact ⟨rfl, List.prefix_refl _, rfl, id⟩
  | submitHashrate | expireWork | expireResponse | expireHashrate =>
    dsimp only [Link.step]
    split
    · first
        | exact ⟨rfl, List.prefix_append _ _, rfl, id⟩
        | exact ⟨rfl, List.prefix_refl _, rfl, id⟩
    · exact .refl l
  | deliver k | exitRun =>
    dsimp only [Link.step]
    rw [if_neg (by simp [hx])]
    exact .refl l

theorem Link.idle_run {l : Link} (hx : l.service = .exited) (es : List LinkEvent) :
    l.Idle (l.run conn toEpoch version parse submitHashrate es) := by
  induction es generalizing l with
  | nil => exact .refl l
  | cons e es ih =>
    have h := idle_step conn toEpoch version parse submitHashrate hx e
    exact h.trans (ih (h.service.trans hx))

/-- **A thread that has left `run()` is not started again.** Once the I/O thread is out of
`io_service::run`, after the `stop()` of a `disconnect()` no `connect()` overtook or an exception
from a handler, every later run keeps it out: the handlers queued stay queued, no line is read,
and the client is not connected again, whatever `connect()` calls the owner makes. -/
theorem exited_thread_runs_no_handler {l : Link} (hx : l.service = .exited)
    (es : List LinkEvent) :
    (l.run conn toEpoch version parse submitHashrate es).service = .exited ∧
      l.queue <+: (l.run conn toEpoch version parse submitHashrate es).queue ∧
      (l.run conn toEpoch version parse submitHashrate es).lines = l.lines ∧
      ((l.run conn toEpoch version parse submitHashrate es).session.connected = true →
        l.session.connected = true) :=
  let h := Link.idle_run conn toEpoch version parse submitHashrate hx es
  ⟨h.service.trans hx, h.queue, h.lines, h.connected⟩

/-- A plain connection, its `disconnect()`, and the thread leaving `run()` before the owner's next
`connect()`: the new connection's resolve and connect handlers never run. -/
theorem exited_thread_runs_no_handler_reconnect :
    ((Link.initial ⟨false, false, false, false, false, 1, 0, 0, WorkPackage.empty, "", false,
        false⟩).run ⟨.ethereumStratum, "u", "p"⟩ (fun _ => .ok 0) "v" (fun _ => none) false
        [.connect false, .disconnect, .exitRun]).service = .exited ∧
      ((((Link.initial ⟨false, false, false, false, false, 1, 0, 0, WorkPackage.empty, "", false,
          false⟩).run ⟨.ethereumStratum, "u", "p"⟩ (fun _ => .ok 0) "v" (fun _ => none) false
          [.connect false, .disconnect, .exitRun]).run ⟨.ethereumStratum, "u", "p"⟩
          (fun _ => .ok 0) "v" (fun _ => none) false
          [.connect false, .complete 0 true, .deliver 0, .complete 0 true,
            .deliver 0]).session.connected = true →
        ((Link.initial ⟨false, false, false, false, false, 1, 0, 0, WorkPackage.empty, "", false,
          false⟩).run ⟨.ethereumStratum, "u", "p"⟩ (fun _ => .ok 0) "v" (fun _ => none) false
          [.connect false, .disconnect, .exitRun]).session.connected = true) :=
  ⟨rfl, (exited_thread_runs_no_handler ⟨.ethereumStratum, "u", "p"⟩ (fun _ => .ok 0) "v"
    (fun _ => none) false rfl _).2.2.2⟩

/-! ### The login -/

@[simp] theorem Link.asyncWrite_session (l : Link) (b : Bool) :
    (l.asyncWrite b).session = l.session := by
  unfold Link.asyncWrite; split <;> rfl

@[simp] theorem Link.append_session (l : Link) (text : String) :
    (l.append text).session = l.session := rfl

@[simp] theorem Link.useSecure_session (l : Link) : l.useSecure.session = l.session := by
  unfold Link.useSecure; split <;> rfl

@[simp] theorem Link.readline_session (l : Link) : l.readline.session = l.session := by
  unfold Link.readline Link.startRead
  split
  · split
    · split <;> rfl
    · rfl
  · rfl

@[simp] theorem Link.applyEffects_session (l : Link) (effs : List Effect) :
    (l.applyEffects effs).session = l.session := by
  induction effs generalizing l with
  | nil => rfl
  | cons e effs ih =>
    refine (ih (l.applyEffect e)).trans ?_
    cases e <;> simp [Link.applyEffect, Link.teardown_session, Link.append, Link.callback]

theorem Link.connect_connected (l : Link) (tls : Bool) :
    (l.connect tls).session.connected = false := by
  have h : ∀ l' : Link, l'.runService.session = l'.session := fun l' => by
    unfold Link.runService; split <;> rfl
  simp only [Link.connect, h]

theorem Session.connectHandler_authorized (hv : conn.version ≠ .ethproxy) (s : Session) :
    (s.connectHandler conn).authorized = true := by
  unfold Session.connectHandler
  split
  · exact absurd ‹_› hv
  · rfl

/-- `m_connected` implies `m_authorized`. -/
def Link.LoggedIn (l : Link) : Prop := l.session.connected = true → l.session.authorized = true

theorem Link.LoggedIn.of_session {l l' : Link} (h : l.LoggedIn)
    (hs : l.session.KeepsLogin l'.session) : l'.LoggedIn := fun hc =>
  let ⟨hc, ha⟩ := hs hc
  ha (h hc)

theorem Link.LoggedIn.of_eq {l l' : Link} (h : l.LoggedIn) (hs : l'.session = l.session) :
    l'.LoggedIn :=
  h.of_session (.of_eq (congrArg Session.connected hs) (congrArg Session.authorized hs))

theorem Link.loggedIn_disconnect (l : Link) : l.disconnect.LoggedIn := fun hc => by
  rw [Link.disconnect, Link.teardown_session] at hc
  cases hc

theorem Link.LoggedIn.afterLine {l : Link} (h : l.LoggedIn) (line : String) :
    (l.afterLine conn toEpoch version parse line).LoggedIn := by
  unfold Link.afterLine
  split
  · rename_i s effs hr
    have hs : (({ l with session := s, outstanding := l.markStale conn parse line } : Link).applyEffects
        effs).LoggedIn :=
      (h.of_session (Session.readResponse_spec conn toEpoch version parse hr).login).of_eq
        (applyEffects_session _ _)
    dsimp only
    split
    · exact hs.of_eq (readline_session _)
    · exact hs
  · exact h

section Login

variable (hv : conn.version ≠ .ethproxy)
include hv

theorem Link.LoggedIn.handle {l : Link} (h : l.LoggedIn) :
    ∀ hd : Handler, (l.handle conn toEpoch version parse hd).LoggedIn
  | .resolve true => by
    dsimp only [Link.handle]
    split <;> exact h
  | .resolve false | .connect false | .workTimeout true | .responseTimeout true =>
    loggedIn_disconnect l
  | .connect true => by
    dsimp only [Link.handle]
    intro _
    rw [asyncWrite_session, append_session, useSecure_session]
    exact Session.connectHandler_authorized conn hv _
  | .write true false n => h.of_eq (readline_session (l.consume n))
  | .write true true _ | .write false _ _ | .workTimeout false | .responseTimeout false
  | .hashrate false => h
  | .read true => by
    dsimp only [Link.handle]
    refine LoggedIn.afterLine conn toEpoch version parse ?_ _
    exact h
  | .read false => by
    dsimp only [Link.handle]
    split
    · exact loggedIn_disconnect _
    · exact h
  | .hashrate true => by
    dsimp only [Link.handle]
    split
    · exact h
    · exact h.of_eq (asyncWrite_session _ true)

theorem Link.LoggedIn.step {l : Link} (h : l.LoggedIn) (e : LinkEvent) :
    (l.step conn toEpoch version parse submitHashrate e).LoggedIn := by
  cases e with
  | connect tls => exact fun hc => absurd ((connect_connected l tls).symm.trans hc) Bool.false_ne_true
  | disconnect => exact loggedIn_disconnect l
  | submitSolution sol =>
    dsimp only [Link.step]
    split
    · rename_i s effs hs
      exact (h.of_session (Session.submitSolution_login conn hs)).of_eq (applyEffects_session _ _)
    · exact h
  | deliver k =>
    dsimp only [Link.step]
    split
    · split
      · refine LoggedIn.handle conn toEpoch version parse hv ?_ _
        exact h
      · exact h
    · exact h
  | arrive g bytes => exact h
  | _ =>
    dsimp only [Link.step]
    split <;> (try split) <;> exact h

theorem Link.LoggedIn.run {l : Link} (h : l.LoggedIn) (es : List LinkEvent) :
    (l.run conn toEpoch version parse submitHashrate es).LoggedIn := by
  induction es generalizing l with
  | nil => exact h
  | cons e es ih => exact ih (h.step conn toEpoch version parse submitHashrate hv e)

end Login

/-- **On a stratum connection a connected client is authorized.** Over every run from a session
that is not connected, on a stratum or ethereum-stratum connection, whenever `m_connected` is
set so is `m_authorized`: `connect_handler` sets both before any answer of the pool, and the
only answer that clears `m_authorized`, a refused `mining.authorize`, disconnects. -/
theorem stratum_connected_authorized (hv : conn.version ≠ .ethproxy) {s : Session}
    (hc : s.connected = false) (es : List LinkEvent) :
    ((Link.initial s).run conn toEpoch version parse submitHashrate es).session.connected = true →
      ((Link.initial s).run conn toEpoch version parse submitHashrate es).session.authorized =
        true :=
  Link.LoggedIn.run conn toEpoch version parse submitHashrate hv
    (fun h => absurd (hc.symm.trans h) Bool.false_ne_true) es

/-- A plain stratum connection: `connect()`, then the resolve and connect handlers. The client is
connected, and authorized before the pool has answered. -/
theorem stratum_connected_authorized_login :
    (⟨.stratum, "u", "p"⟩ : Connection).version ≠ .ethproxy ∧
      ((Link.initial ⟨false, false, false, false, false, 1, 0, 0, WorkPackage.empty, "", false,
          false⟩).run ⟨.stratum, "u", "p"⟩ (fun _ => .ok 0) "v" (fun _ => none) false
          [.connect false, .complete 0 true, .deliver 0, .complete 0 true,
            .deliver 0]).session.connected = true ∧
      ((Link.initial ⟨false, false, false, false, false, 1, 0, 0, WorkPackage.empty, "", false,
          false⟩).run ⟨.stratum, "u", "p"⟩ (fun _ => .ok 0) "v" (fun _ => none) false
          [.connect false, .complete 0 true, .deliver 0, .complete 0 true,
            .deliver 0]).session.authorized = true :=
  ⟨by decide, rfl, stratum_connected_authorized ⟨.stratum, "u", "p"⟩ (fun _ => .ok 0) "v"
    (fun _ => none) false (by decide) rfl _ rfl⟩

/-! ### The pointers -/

/-- The members the pointer discipline reads: the security level, the three pointers, the newest
object and the thread. -/
structure Wiring where
  tls : Bool
  socket : Option Nat
  secure : Option Nat
  nonsecure : Option Nat
  gen : Nat
  stopped : Bool
  service : Service

def Link.wiring (l : Link) : Wiring :=
  ⟨l.tls, l.socket, l.secure, l.nonsecure, l.gen, l.stopped, l.service⟩

/-- The pointers as `connect()` leaves them: `m_socket` and the shared pointer of the security
level on the newest object. -/
def Wiring.Wired (w : Wiring) : Prop :=
  w.socket = some w.gen ∧ (if w.tls then w.secure else w.nonsecure) = some w.gen

/-- The discipline of every reachable link: the thread runs only after a `connect()`, and until a
`disconnect()` stops it the pointers are wired. -/
def Wiring.Armed (w : Wiring) : Prop :=
  (w.service ≠ .notStarted → 0 < w.gen) ∧ (w.stopped = false → 0 < w.gen → w.Wired)

theorem Link.secure_of_wired {l : Link} (h : l.wiring.Wired) (ht : l.tls = true) :
    l.secure = some l.gen := by
  simpa [Link.wiring, ht] using h.2

theorem Link.nonsecure_of_wired {l : Link} (h : l.wiring.Wired) (ht : l.tls = false) :
    l.nonsecure = some l.gen := by
  simpa [Link.wiring, ht] using h.2

theorem Link.socketObj_of_wired {l : Link} (h : l.wiring.Wired) : l.socketObj = some l.gen := by
  have ho : l.secure = some l.gen ∨ l.nonsecure = some l.gen := by
    cases ht : l.tls
    · exact .inr (nonsecure_of_wired h ht)
    · exact .inl (secure_of_wired h ht)
  simp [Link.socketObj, show l.socket = some l.gen from h.1, ho]

/-- `l'` has the pointers and the thread of `l`, and no fault more when those of `l` are wired. -/
def Link.Steady (l l' : Link) : Prop :=
  l'.wiring = l.wiring ∧ (l.wiring.Wired → l'.faults = l.faults)

theorem Link.Steady.refl (l : Link) : l.Steady l := ⟨rfl, fun _ => rfl⟩

theorem Link.Steady.trans {l₁ l₂ l₃ : Link} (h₁ : l₁.Steady l₂) (h₂ : l₂.Steady l₃) :
    l₁.Steady l₃ :=
  ⟨h₂.1.trans h₁.1, fun h => (h₂.2 (h₁.1 ▸ h)).trans (h₁.2 h)⟩

theorem Link.steady_asyncWrite (l : Link) (b : Bool) : l.Steady (l.asyncWrite b) := by
  unfold Link.asyncWrite
  split
  · exact .refl _
  · rename_i heq
    exact ⟨rfl, fun h => absurd (h.2.symm.trans heq) (Option.some_ne_none _)⟩

theorem Link.steady_append (l : Link) (text : String) : l.Steady (l.append text) := .refl l

theorem Link.steady_consume (l : Link) (n : Nat) : l.Steady (l.consume n) := .refl l

theorem Link.steady_useSecure (l : Link) : l.Steady l.useSecure := by
  unfold Link.useSecure
  split
  · rename_i hc
    exact ⟨rfl, fun h => absurd ((secure_of_wired h hc.1).symm.trans hc.2) (Option.some_ne_none _)⟩
  · exact .refl l

theorem Link.steady_closeSocket (l : Link) : l.Steady l.closeSocket := by
  unfold Link.closeSocket
  split
  · exact .refl _
  · rename_i heq
    exact ⟨rfl, fun h => absurd ((socketObj_of_wired h).symm.trans heq) (Option.some_ne_none _)⟩

theorem Link.steady_readline (l : Link) : l.Steady l.readline := by
  unfold Link.readline Link.startRead
  split
  · split
    · split <;> exact .refl _
    · rename_i heq
      refine ⟨rfl, fun h => absurd heq ?_⟩
      cases ht : l.tls
      · simp [socketObj_of_wired h]
      · simp [secure_of_wired h ht]
  · exact .refl l

theorem Link.steady_applyEffects (l : Link) {effs : List Effect}
    (hd : Effect.disconnected ∉ effs) : l.Steady (l.applyEffects effs) := by
  induction effs generalizing l with
  | nil => exact .refl l
  | cons e effs ih =>
    rw [List.mem_cons, not_or] at hd
    refine Steady.trans ?_ (ih _ hd.2)
    cases e with
    | append line => exact steady_append l line
    | write => exact steady_asyncWrite l false
    | disconnected => exact absurd rfl hd.1
    | _ => exact .refl l

theorem Link.teardown_wiring (l : Link) :
    l.teardown.stopped = true ∧ l.teardown.gen = l.gen ∧ l.teardown.service = l.service ∧
      (l.wiring.Wired → l.teardown.faults = l.faults) := by
  have hs := (steady_useSecure l).trans (steady_closeSocket _)
  have hg := congrArg Wiring.gen hs.1
  have hv := congrArg Wiring.service hs.1
  unfold Link.teardown Link.release
  split <;> exact ⟨rfl, hg, hv, hs.2⟩

theorem Link.wired_or {l : Link} (ha : l.wiring.Armed) :
    l.wiring.Wired ∨ l.stopped = true ∨ l.gen = 0 := by
  cases hs : l.stopped
  · rcases Nat.eq_zero_or_pos l.gen with h0 | hpos
    · exact .inr (.inr h0)
    · exact .inl (ha.2 hs hpos)
  · exact .inr (.inl rfl)

theorem Link.Steady.armed {l l' : Link} (hs : l.Steady l') (ha : l.wiring.Armed) :
    l'.wiring.Armed ∧ (l'.faults = l.faults ∨ l.stopped = true ∨ l.gen = 0) :=
  ⟨hs.1 ▸ ha, (wired_or ha).imp_left hs.2⟩

theorem Link.armed_teardown {l : Link} (ha : l.wiring.Armed) :
    l.teardown.wiring.Armed ∧ (l.teardown.faults = l.faults ∨ l.stopped = true ∨ l.gen = 0) :=
  let ⟨hst, hgen, hsv, hf⟩ := l.teardown_wiring
  ⟨⟨fun hn => (ha.1 fun h => hn (hsv.trans h)).trans_eq hgen.symm,
      fun hs => absurd (hst.symm.trans hs) (by decide)⟩,
    (wired_or ha).imp_left hf⟩

/-- `l'` follows the wired link `l` with no fault recorded and the discipline kept. -/
def Link.Safe (l l' : Link) : Prop := l'.faults = l.faults ∧ (l.wiring.Armed → l'.wiring.Armed)

theorem Link.Steady.safe {l l' : Link} (hs : l.Steady l') (h : l.wiring.Wired) : l.Safe l' :=
  ⟨hs.2 h, fun ha => hs.1 ▸ ha⟩

theorem Link.safe_teardown {l : Link} (h : l.wiring.Wired) : l.Safe l.teardown :=
  ⟨l.teardown_wiring.2.2.2 h, fun ha => (armed_teardown ha).1⟩

theorem Link.safe_disconnect {l : Link} (h : l.wiring.Wired) : l.Safe l.disconnect :=
  safe_teardown (l := { l with session := l.session.disconnect.1 }) h

theorem Link.safe_afterLine {l : Link} (h : l.wiring.Wired) (hg : 0 < l.gen) (line : String) :
    l.Safe (l.afterLine conn toEpoch version parse line) := by
  unfold Link.afterLine
  split
  · rename_i s effs hr
    dsimp only
    by_cases hd : Effect.disconnected ∈ effs
    · obtain ⟨rfl, hc⟩ := (Session.readResponse_spec conn toEpoch version parse hr).disconnects hd
      have hn : (({ l with session := s, outstanding := l.markStale conn parse line } : Link).applyEffects
          [.disconnected]).session.connected = false :=
        (congrArg Session.connected (teardown_session _)).trans hc
      rw [if_neg (by rw [hn]; exact Bool.false_ne_true)]
      exact safe_teardown (l := { l with session := s, outstanding := l.markStale conn parse line }) h
    · have hs := steady_applyEffects { l with session := s, outstanding := l.markStale conn parse line }
        hd
      split
      · exact (hs.trans (steady_readline _)).safe h
      · exact hs.safe h
  · exact ⟨rfl, fun ha => ⟨fun _ => hg, ha.2⟩⟩

theorem Link.safe_handle {l : Link} (h : l.wiring.Wired) (hg : 0 < l.gen) :
    ∀ hd : Handler, l.Safe (l.handle conn toEpoch version parse hd)
  | .resolve true => by
    dsimp only [Link.handle]
    rw [socketObj_of_wired h]
    exact ⟨rfl, id⟩
  | .resolve false | .connect false | .workTimeout true | .responseTimeout true =>
    safe_disconnect h
  | .connect true =>
    ((steady_useSecure { l with session := l.session.connectHandler conn }).trans
      ((steady_append _ _).trans (steady_asyncWrite _ false))).safe h
  | .write true false n => ((steady_consume l n).trans (steady_readline _)).safe h
  | .write true true _ | .write false _ _ | .workTimeout false | .responseTimeout false
  | .hashrate false => ⟨rfl, id⟩
  | .read true => by
    dsimp only [Link.handle]
    exact safe_afterLine conn toEpoch version parse (l := { l with
      pending := l.pending - 1, responseBuffer := (getline l.responseBuffer).2
      lines := l.lines ++ [(l.gen, String.mk (getline l.responseBuffer).1)] }) h hg _
  | .read false => by
    dsimp only [Link.handle]
    split
    · exact safe_disconnect (l := { l with pending := l.pending - 1 }) h
    · exact ⟨rfl, id⟩
  | .hashrate true => by
    dsimp only [Link.handle]
    split
    · exact ⟨rfl, id⟩
    · exact ((steady_append l _).trans (steady_asyncWrite _ true)).safe h

theorem Link.connect_armed (l : Link) (tls : Bool) : (l.connect tls).wiring.Armed := by
  dsimp only [Link.connect, Link.runService]
  split <;> exact ⟨fun _ => Nat.succ_pos _, fun _ _ => ⟨rfl, by cases tls <;> rfl⟩⟩

theorem Link.connect_faults (l : Link) (tls : Bool) : (l.connect tls).faults = l.faults := by
  have h₁ : (l.releaseOld tls).faults = l.faults := by
    unfold Link.releaseOld; split <;> rfl
  dsimp only [Link.connect, Link.runService]
  split <;> exact h₁

theorem Link.initial_armed (s : Session) : (Link.initial s).wiring.Armed :=
  ⟨fun h => absurd rfl h, fun _ h => absurd h (lt_irrefl 0)⟩

/-- Every step keeps the discipline, and records a fault only when it is the owner's
`disconnect()` or `submitSolution()` on a link stopped or never connected. -/
theorem Link.armed_step {l : Link} (ha : l.wiring.Armed) (e : LinkEvent) :
    (l.step conn toEpoch version parse submitHashrate e).wiring.Armed ∧
      ((l.step conn toEpoch version parse submitHashrate e).faults = l.faults ∨
        (e = .disconnect ∨ ∃ sol, e = .submitSolution sol) ∧ (l.stopped = true ∨ l.gen = 0)) := by
  cases e with
  | connect tls => exact ⟨connect_armed l tls, .inl (connect_faults l tls)⟩
  | disconnect =>
    have ht := armed_teardown (l := { l with session := l.session.disconnect.1 }) ha
    exact ⟨ht.1, ht.2.imp_right fun h => ⟨.inl rfl, h⟩⟩
  | submitSolution sol =>
    dsimp only [Link.step]
    split
    · rename_i s effs hs
      have hd : Effect.disconnected ∉ effs := by
        simp only [Session.submitSolution, bind_eq_ok, pure_eq_ok, Prod.mk.injEq] at hs
        obtain ⟨_, -, -, rfl⟩ := hs
        simp
      have hst := (steady_applyEffects
        { l with session := s, outstanding := l.outstanding ++ [sol.stale] } hd).armed ha
      exact ⟨hst.1, hst.2.imp_right fun h => ⟨.inr ⟨sol, rfl⟩, h⟩⟩
    · exact ⟨ha, .inl rfl⟩
  | arrive g bytes => exact ⟨ha, .inl rfl⟩
  | deliver k =>
    dsimp only [Link.step]
    split
    · rename_i hc
      have hg := ha.1 fun h => nomatch hc.1.symm.trans h
      split
      · rename_i hd _
        have hs := safe_handle conn toEpoch version parse
          (l := { l with queue := l.queue.eraseIdx k }) (ha.2 hc.2 hg) hg hd
        exact ⟨hs.2 ha, .inl hs.1⟩
      · exact ⟨ha, .inl rfl⟩
    · exact ⟨ha, .inl rfl⟩
  | exitRun =>
    dsimp only [Link.step]
    split
    · rename_i hc
      exact ⟨⟨fun _ => ha.1 fun h => (nomatch hc.1.symm.trans h),
        fun hs => absurd (hc.2.symm.trans hs) (by decide)⟩, .inl rfl⟩
    · exact ⟨ha, .inl rfl⟩
  | _ =>
    dsimp only [Link.step]
    split <;> (try split) <;> exact ⟨ha, .inl rfl⟩

theorem Link.armed_run {l : Link} (ha : l.wiring.Armed) (es : List LinkEvent) :
    (l.run conn toEpoch version parse submitHashrate es).wiring.Armed := by
  induction es generalizing l with
  | nil => exact ha
  | cons e es ih => exact ih (armed_step conn toEpoch version parse submitHashrate ha e).1

/-- **No handler dereferences a released pointer.** In every reachable state, a step that
records a fault is a call of the owner, `disconnect()` or `submitSolution()`, made after a
`disconnect()` that no `connect()` has followed, or before the first `connect()`. The handlers,
the timers and the network never do: `stop()` keeps every handler from running until the next
`connect()` has set the pointers again. -/
theorem only_owner_calls_fault (s : Session) (es : List LinkEvent) (e : LinkEvent)
    (hf : (((Link.initial s).run conn toEpoch version parse submitHashrate es).step conn toEpoch
      version parse submitHashrate e).faults ≠
        ((Link.initial s).run conn toEpoch version parse submitHashrate es).faults) :
    (e = .disconnect ∨ ∃ sol, e = .submitSolution sol) ∧
      (((Link.initial s).run conn toEpoch version parse submitHashrate es).stopped = true ∨
        ((Link.initial s).run conn toEpoch version parse submitHashrate es).gen = 0) :=
  ((Link.armed_step conn toEpoch version parse submitHashrate
    (Link.armed_run conn toEpoch version parse submitHashrate (Link.initial_armed s) es) e).2
    ).resolve_left hf

/-- A TLS connection, `disconnect()`, then a second `disconnect()`: it shuts down the null
`m_securesocket`, and the thread is stopped. -/
theorem only_owner_calls_fault_second_disconnect :
    (((Link.initial ⟨false, false, false, false, false, 1, 0, 0, WorkPackage.empty, "", false,
        false⟩).run ⟨.stratum, "u", "p"⟩ (fun _ => .ok 0) "v" (fun _ => none) false
        [.connect true, .disconnect]).step ⟨.stratum, "u", "p"⟩ (fun _ => .ok 0) "v"
        (fun _ => none) false .disconnect).faults ≠
      ((Link.initial ⟨false, false, false, false, false, 1, 0, 0, WorkPackage.empty, "", false,
        false⟩).run ⟨.stratum, "u", "p"⟩ (fun _ => .ok 0) "v" (fun _ => none) false
        [.connect true, .disconnect]).faults ∧
      (LinkEvent.disconnect = .disconnect ∨ ∃ sol, LinkEvent.disconnect = .submitSolution sol) ∧
      (((Link.initial ⟨false, false, false, false, false, 1, 0, 0, WorkPackage.empty, "", false,
          false⟩).run ⟨.stratum, "u", "p"⟩ (fun _ => .ok 0) "v" (fun _ => none) false
          [.connect true, .disconnect]).stopped = true ∨
        ((Link.initial ⟨false, false, false, false, false, 1, 0, 0, WorkPackage.empty, "", false,
          false⟩).run ⟨.stratum, "u", "p"⟩ (fun _ => .ok 0) "v" (fun _ => none) false
          [.connect true, .disconnect]).gen = 0) :=
  ⟨by decide, only_owner_calls_fault ⟨.stratum, "u", "p"⟩ (fun _ => .ok 0) "v" (fun _ => none) false
    _ _ _ (by decide)⟩

end ProgPowMiner.Stratum
