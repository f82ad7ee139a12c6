import ProgPowMiner.Stratum.Reachable
import ProgPowMiner.Stratum.Write

/-!
# Submissions and their answers

`submitSolution` sends request id 4, sets `m_response_pending`, stores the solution's stale flag
in `m_stale` and arms `m_responsetimer`; the pool's id 4 answer cancels the timer, clears
`m_response_pending` and passes `m_stale` to `on_solution_accepted` or `on_solution_rejected`;
a `mining.notify` that arrives while a response is pending sets `m_stale`. Every outstanding
submission shares the one timer, flag and `m_stale`, and every answer carries id 4. The link
keeps two ghosts (`Link.lean`): the flag each unanswered submission's callback should carry, and
each callback's flag beside the flag of the submission it answers.

* `submissions_one_at_a_time`: over every run of the client that submits only with no
  submission outstanding, an unanswered submission has the response pending and the timer
  waiting or its expiry queued, and every callback carries the flag of the submission it answers.
* `second_submission_unanswered`: submit, submit, answer. The answer clears the flag and the
  timer while the second submission is unanswered, and passes the second solution's flag for
  the first.

Proof. `Session.Settles` is what one reply does to the flags (`Session.processReponse_spec`);
`Link.Holds` is what the transport does to the ghosts; `Link.OneInv`, at most one submission
outstanding with `m_stale` its flag, holds along every such run.
-/

namespace ProgPowMiner.Stratum

def LinkEvent.isSubmit : LinkEvent → Bool
  | .submitSolution _ => true
  | _ => false

variable (conn : Connection) (toEpoch : Nat → Except Throw Int) (version : String)
  (parse : String → Option Json) (submitHashrate : Bool)

theorem Session.submitSolution_flags {s s' : Session} {sol : Solution} {effs : List Effect}
    (h : s.submitSolution conn sol = .ok (s', effs)) :
    s'.stale = sol.stale ∧ s'.responsePending = true ∧ ∀ e ∈ effs, e.isCallback = false := by
  simp only [Session.submitSolution, bind_eq_ok, pure_eq_ok, Prod.mk.injEq] at h
  obtain ⟨_, -, rfl, rfl⟩ := h
  exact ⟨rfl, rfl, by simp [Effect.isCallback]⟩

/-! ## The transport keeps the ghosts -/

/-- `l'` has made the callbacks `l` made, and either forgets every submission (a release) or
keeps them with `m_stale` and `m_response_pending`. -/
structure Link.Holds (l l' : Link) : Prop where
  replies : l'.replies = l.replies
  outstanding : l'.outstanding = [] ∨ l'.outstanding = l.outstanding ∧
    l'.session.stale = l.session.stale ∧ l'.session.responsePending = l.session.responsePending

theorem Link.Holds.keep {l l' : Link} (ho : l'.outstanding = l.outstanding)
    (hs : l'.session.stale = l.session.stale)
    (hp : l'.session.responsePending = l.session.responsePending) (hr : l'.replies = l.replies) :
    l.Holds l' :=
  ⟨hr, .inr ⟨ho, hs, hp⟩⟩

theorem Link.Holds.refl (l : Link) : l.Holds l := .keep rfl rfl rfl rfl

theorem Link.Holds.trans {l₁ l₂ l₃ : Link} (h₁ : l₁.Holds l₂) (h₂ : l₂.Holds l₃) : l₁.Holds l₃ :=
  ⟨h₂.replies.trans h₁.replies, by
    rcases h₂.outstanding with h | ⟨ho, hs, hp⟩
    · exact .inl h
    · rcases h₁.outstanding with h' | ⟨ho', hs', hp'⟩
      · exact .inl (ho.trans h')
      · exact .inr ⟨ho.trans ho', hs.trans hs', hp.trans hp'⟩⟩

theorem Link.holds_session (l : Link) {s : Session} (hs : s.stale = l.session.stale)
    (hp : s.responsePending = l.session.responsePending) : l.Holds { l with session := s } :=
  .keep rfl hs hp rfl

theorem Link.holds_consume (l : Link) (n : Nat) : l.Holds (l.consume n) := .keep rfl rfl rfl rfl

theorem Link.holds_append (l : Link) (text : String) : l.Holds (l.append text) :=
  .keep rfl rfl rfl rfl

theorem Link.holds_asyncWrite (l : Link) (b : Bool) : l.Holds (l.asyncWrite b) := by
  unfold Link.asyncWrite; split <;> exact .keep rfl rfl rfl rfl

theorem Link.holds_readline (l : Link) : l.Holds l.readline := by
  unfold Link.readline Link.startRead Link.fault
  split
  · split
    · split <;> exact .keep rfl rfl rfl rfl
    · exact .keep rfl rfl rfl rfl
  · exact .keep rfl rfl rfl rfl

theorem Link.holds_useSecure (l : Link) : l.Holds l.useSecure := by
  unfold Link.useSecure; split <;> exact .keep rfl rfl rfl rfl

theorem Link.teardown_ghosts (l : Link) :
    l.teardown.outstanding = [] ∧ l.teardown.replies = l.replies := by
  unfold Link.teardown Link.release Link.closeSocket Link.close Link.useSecure Link.fault
  split <;> split <;> split <;> exact ⟨rfl, rfl⟩

theorem Link.holds_teardown (l : Link) : l.Holds l.teardown :=
  ⟨l.teardown_ghosts.2, .inl l.teardown_ghosts.1⟩

theorem Link.holds_disconnect (l : Link) : l.Holds l.disconnect :=
  ⟨teardown_ghosts _ |>.2, .inl (teardown_ghosts _).1⟩

theorem Link.holds_applyEffects (l : Link) {effs : List Effect}
    (he : ∀ e ∈ effs, e.isCallback = false) : l.Holds (l.applyEffects effs) := by
  induction effs generalizing l with
  | nil => exact .keep rfl rfl rfl rfl
  | cons e effs ih =>
    refine Holds.trans ?_ (ih (l.applyEffect e) fun e' h => he e' (.tail _ h))
    cases e with
    | append line => exact holds_append l line
    | write => exact holds_asyncWrite l false
    | disconnected => exact holds_teardown l
    | accepted b | rejected b => simp [Effect.isCallback] at he
    | _ => exact .keep rfl rfl rfl rfl

theorem Session.connectHandler_flags (conn : Connection) (s : Session) :
    (s.connectHandler conn).stale = s.stale ∧
      (s.connectHandler conn).responsePending = s.responsePending := by
  unfold Session.connectHandler; split <;> exact ⟨rfl, rfl⟩

theorem Link.holds_connect (l : Link) (tls : Bool) : l.Holds (l.connect tls) := by
  have h₁ : l.Holds (l.releaseOld tls) := by
    unfold Link.releaseOld Link.close; split <;> exact .keep rfl rfl rfl rfl
  have h₃ : ∀ l' : Link, l'.Holds l'.runService := fun l' => by
    unfold Link.runService; split <;> exact .keep rfl rfl rfl rfl
  refine h₁.trans (Holds.trans ?_ (h₃ _))
  exact .keep rfl rfl rfl rfl

/-! ## At most one submission outstanding -/

/-- At most one submission outstanding; its flag is `m_stale`, and while it is unanswered the
response is pending. Every callback that answered a submission carried its flag. -/
structure Link.OneInv (l : Link) : Prop where
  short : l.outstanding.length ≤ 1
  flag : ∀ b ∈ l.outstanding, b = l.session.stale
  pending : l.outstanding ≠ [] → l.session.responsePending = true
  replies : ∀ b c, (b, some c) ∈ l.replies → b = c

theorem Link.OneInv.of_empty {l : Link} (ho : l.outstanding = [])
    (hr : ∀ b c, (b, some c) ∈ l.replies → b = c) : l.OneInv :=
  ⟨by simp [ho], by simp [ho], fun h => absurd ho h, hr⟩

theorem Link.OneInv.holds {l l' : Link} (h : l.OneInv) (hh : l.Holds l') : l'.OneInv := by
  rcases hh.outstanding with ho | ⟨ho, hs, hp⟩
  · exact .of_empty ho (hh.replies ▸ h.replies)
  · exact ⟨ho ▸ h.short, fun b hb => hs ▸ h.flag b (ho ▸ hb),
      fun hne => hp ▸ h.pending (ho ▸ hne), hh.replies ▸ h.replies⟩

theorem Link.OneInv.teardown {l : Link} (hr : ∀ b c, (b, some c) ∈ l.replies → b = c) :
    l.teardown.OneInv :=
  .of_empty (teardown_ghosts l).1 fun b c hbc => hr b c ((teardown_ghosts l).2 ▸ hbc)

theorem Link.OneInv.initial (s : Session) : (Link.initial s).OneInv :=
  .of_empty rfl (by simp [Link.initial])

/-- A message that keeps the pending flag and marks `m_stale` for a `mining.notify` while a
response is pending: its ghost marks the submission outstanding stale with it. -/
theorem Link.OneInv.mark {l : Link} (h : l.OneInv) {s : Session} (notify : Bool)
    (hs : s.stale = (l.session.stale || l.session.responsePending && notify))
    (hp : s.responsePending = l.session.responsePending) :
    ({ l with
      session := s
      outstanding := if notify then l.outstanding.map fun _ => true else l.outstanding } :
      Link).OneInv := by
  have hpend : l.outstanding ≠ [] → s.responsePending = true := fun hne => hp ▸ h.pending hne
  refine ⟨by split <;> simpa using h.short, fun b hb => ?_, fun hne => hpend ?_, h.replies⟩
  · cases notify
    · simp only [Bool.false_eq_true, ↓reduceIte] at hb
      simpa [hs] using h.flag b hb
    · simp only [↓reduceIte, List.mem_map] at hb
      obtain ⟨x, hx, rfl⟩ := hb
      simp [hs, h.pending (List.ne_nil_of_mem hx)]
  · split at hne <;> simpa using hne

/-- The answer's callback carries `m_stale`, the flag of the one submission it answers. -/
theorem Link.OneInv.callback {l : Link} (h : l.OneInv) (s : Session) :
    (({ l with session := s } : Link).callback l.session.stale).OneInv := by
  refine .of_empty ?_ fun b c hbc => ?_
  · cases ho : l.outstanding with
    | nil => simp [Link.callback, ho]
    | cons x xs => simpa [Link.callback, ho] using h.short
  · simp only [Link.callback, List.mem_append, List.mem_singleton, Prod.mk.injEq] at hbc
    rcases hbc with hbc | ⟨rfl, hc⟩
    · exact h.replies b c hbc
    · exact (h.flag c (List.mem_of_mem_head? hc.symm)).symm

/-- After a message settled as `Session.Settles` says, its ghost marked and its effects applied. -/
theorem Link.OneInv.settle {l : Link} (h : l.OneInv) {notify : Bool} {s : Session}
    {effs : List Effect} (hs : l.session.Settles notify s effs) :
    (({ l with
      session := s
      outstanding := if notify then l.outstanding.map fun _ => true else l.outstanding } :
      Link).applyEffects effs).OneInv := by
  cases hs with
  | answer b hn =>
    subst hn
    cases b <;> exact h.callback s
  | disconnect => exact OneInv.teardown h.replies
  | quiet _ hs hp he => exact (h.mark _ hs hp).holds (holds_applyEffects _ he)

theorem Link.OneInv.afterLine {l : Link} (h : l.OneInv) (line : String) :
    (l.afterLine conn toEpoch version parse line).OneInv := by
  unfold Link.afterLine
  split
  · rename_i s effs hr
    have hl : ∀ l' : Link, l'.OneInv → (if l'.session.connected then l'.readline else l').OneInv :=
      fun l' h' => by
        split
        · exact h'.holds (holds_readline l')
        · exact h'
    exact hl _ (h.settle (Session.readResponse_spec conn toEpoch version parse hr).settles)
  · exact h.holds (.keep rfl rfl rfl rfl)

theorem Link.OneInv.handle {l : Link} (h : l.OneInv) :
    ∀ hd : Handler, (l.handle conn toEpoch version parse hd).OneInv
  | .resolve true => by
    dsimp only [Link.handle]
    split <;> exact h.holds (.keep rfl rfl rfl rfl)
  | .resolve false | .connect false | .workTimeout true | .responseTimeout true =>
    h.holds (holds_disconnect l)
  | .connect true => by
    obtain ⟨hs, hp⟩ := Session.connectHandler_flags conn l.session
    exact h.holds ((l.holds_session hs hp).trans
      ((holds_useSecure _).trans ((holds_append _ _).trans (holds_asyncWrite _ false))))
  | .write true false n => h.holds ((holds_consume l n).trans (holds_readline _))
  | .write true true n | .write false _ n => h.holds (holds_consume l n)
  | .workTimeout false | .responseTimeout false | .hashrate false => h
  | .read true => by
    dsimp only [Link.handle]
    refine OneInv.afterLine conn toEpoch version parse ?_ _
    exact h.holds (.keep rfl rfl rfl rfl)
  | .read false => by
    dsimp only [Link.handle]
    split
    · refine OneInv.holds ?_ (holds_disconnect _)
      exact h.holds (.keep rfl rfl rfl rfl)
    · exact h.holds (.keep rfl rfl rfl rfl)
  | .hashrate true => by
    dsimp only [Link.handle]
    split
    · exact h
    · exact h.holds ((holds_append _ _).trans (holds_asyncWrite _ true))

/-- One step keeps `OneInv` when a submission is made with none outstanding. -/
theorem Link.OneInv.step {l : Link} (h : l.OneInv) (e : LinkEvent)
    (hsub : e.isSubmit = true → l.outstanding = []) :
    (l.step conn toEpoch version parse submitHashrate e).OneInv := by
  cases e with
  | connect tls => exact h.holds (holds_connect l tls)
  | disconnect => exact h.holds (holds_disconnect l)
  | submitSolution sol =>
    dsimp only [Link.step]
    split
    · rename_i s effs hs
      obtain ⟨h1, h2, h3⟩ := Session.submitSolution_flags conn hs
      have ho : l.outstanding = [] := hsub rfl
      refine OneInv.holds ?_ (holds_applyEffects _ h3)
      refine ⟨by simp [ho], fun b hb => ?_, fun _ => h2, h.replies⟩
      simp only [ho, List.nil_append, List.mem_singleton] at hb
      exact hb.trans h1.symm
    · exact h
  | submitHashrate | exitRun =>
    dsimp only [Link.step]
    split <;> exact h.holds (.keep rfl rfl rfl rfl)
  | arrive g bytes => exact h.holds (.keep rfl rfl rfl rfl)
  | complete k ok =>
    dsimp only [Link.step]
    split
    · split <;> exact h.holds (.keep rfl rfl rfl rfl)
    · exact h
  | readSome k n =>
    dsimp only [Link.step]
    split
    · split <;> exact h.holds (.keep rfl rfl rfl rfl)
    · exact h
  | expireWork | expireResponse | expireHashrate =>
    dsimp only [Link.step]
    split <;> exact h.holds (.keep rfl rfl rfl rfl)
  | deliver k =>
    dsimp only [Link.step]
    split
    · split
      · refine OneInv.handle conn toEpoch version parse ?_ _
        exact h.holds (.keep rfl rfl rfl rfl)
      · exact h
    · exact h

/-- Every submission of the run is made with no submission outstanding. -/
def Link.oneAtATime (l : Link) : List LinkEvent → Bool
  | [] => true
  | e :: es =>
    (!e.isSubmit || l.outstanding.isEmpty) &&
      (l.step conn toEpoch version parse submitHashrate e).oneAtATime es

theorem Link.OneInv.run {l : Link} (h : l.OneInv) (es : List LinkEvent)
    (hone : l.oneAtATime conn toEpoch version parse submitHashrate es = true) :
    (l.run conn toEpoch version parse submitHashrate es).OneInv := by
  induction es generalizing l with
  | nil => exact h
  | cons e es ih =>
    simp only [Link.oneAtATime, Bool.and_eq_true, Bool.or_eq_true, Bool.not_eq_true',
      List.isEmpty_iff] at hone
    exact ih (h.step conn toEpoch version parse submitHashrate e
      fun he => hone.1.resolve_left (by simp [he])) hone.2

/-- **Submissions one at a time.** Over every run from a session in range, neither connected
nor waiting for a response, in which the client submits only with no submission outstanding:
a submission still unanswered has `m_response_pending` set and the response timer waiting or
its expiry queued, and every `on_solution_accepted` or `on_solution_rejected` that answers a
submission carries that submission's flag: the solution's, or `true` once a `mining.notify`
arrived while it was unanswered. -/
theorem submissions_one_at_a_time {s : Session} (hs : SessionInv s) (hc : s.connected = false)
    (hp : s.responsePending = false) (es : List LinkEvent) {l : Link}
    (hone : (Link.initial s).oneAtATime conn toEpoch version parse submitHashrate es = true)
    (hl : (Link.initial s).run conn toEpoch version parse submitHashrate es = l) :
    (l.outstanding ≠ [] → l.session.responsePending = true ∧
      (l.session.responseTimer = true ∨ Handler.responseTimeout true ∈ l.queue)) ∧
    ∀ b c, (b, some c) ∈ l.replies → b = c := by
  subst hl
  have hg := (Link.Guarded.initial hs hc hp).run conn toEpoch version parse submitHashrate es
  have hi := (Link.OneInv.initial s).run conn toEpoch version parse submitHashrate es hone
  exact ⟨fun hne => ⟨hi.pending hne, hg.response (hi.pending hne)⟩, hi.replies⟩

/-- The pool's answer to a submission: `{"id": 4, "result": accepted, "error": null}`. -/
def answerMessage (accepted : Bool) : Json :=
  .obj [("id", .int 4), ("result", .bool accepted), ("error", .null)]

/-- A `mining.notify` of the stratum dialect. -/
def notifyMessage (params : List Json) : Json :=
  .obj [("id", .null), ("method", .str "mining.notify"), ("params", .arr params)]

/-- A reader that knows two lines of the pool: `{a}`, which accepts a submission, and `{n}`, a
`mining.notify`. -/
def poolLines (line : String) : Option Json :=
  if line = "\x7ba\x7d" then some (answerMessage true)
  else if line = "\x7bn\x7d" then
    some (notifyMessage [.str "0", .str "0x01", .str "0x01", .str "0x01", .int 1])
  else none

/-- A stratum client connects, submits a fresh solution, and reads a `mining.notify`, then the
answer: the callback says stale, as the notify made the submission. -/
theorem submissions_one_at_a_time_notified :
    ∃ l : Link,
      (Link.initial ⟨false, false, false, false, false, 1, 0, 0, WorkPackage.empty, "", false,
        false⟩).run ⟨.stratum, "u", "p"⟩ (fun _ => .ok 0) "v" poolLines false
        [.connect false, .complete 0 true, .deliver 0, .complete 0 true, .deliver 0,
          .complete 0 true, .deliver 0, .submitSolution ⟨1, 0, WorkPackage.empty, false⟩,
          .arrive 1 "\x7bn\x7d\n\x7ba\x7d\n".toList, .readSome 0 8, .deliver 0, .deliver 0] = l ∧
      ((l.outstanding ≠ [] → l.session.responsePending = true ∧
        (l.session.responseTimer = true ∨ Handler.responseTimeout true ∈ l.queue)) ∧
        ∀ b c, (b, some c) ∈ l.replies → b = c) ∧
      l.replies = [(true, some true)] :=
  have hs : SessionInv ⟨false, false, false, false, false, 1, 0, 0, WorkPackage.empty, "", false,
      false⟩ := ⟨by norm_num, by norm_num, fun _ => rfl⟩
  ⟨_, rfl, submissions_one_at_a_time ⟨.stratum, "u", "p"⟩ (fun _ => .ok 0) "v" poolLines false hs
    rfl rfl _ (by decide) rfl, by decide⟩

/-- A stale solution is submitted, then a fresh one, and the pool answers the first. The answer
clears `m_response_pending` and cancels the timer while the second submission is unanswered,
and the callback carries the second solution's flag (`false`) for the first (`true`). -/
theorem second_submission_unanswered :
    ∃ l : Link,
      (Link.initial ⟨false, false, false, false, false, 1, 0, 0, WorkPackage.empty, "", false,
        false⟩).run ⟨.stratum, "u", "p"⟩ (fun _ => .ok 0) "v" poolLines false
        [.connect false, .complete 0 true, .deliver 0, .complete 0 true, .deliver 0,
          .complete 0 true, .deliver 0, .submitSolution ⟨1, 0, WorkPackage.empty, true⟩,
          .submitSolution ⟨2, 0, WorkPackage.empty, false⟩, .arrive 1 "\x7ba\x7d\n".toList,
          .readSome 0 4, .deliver 0] = l ∧
      l.outstanding ≠ [] ∧ l.session.responsePending = false ∧ l.session.responseTimer = false ∧
      Handler.responseTimeout true ∉ l.queue ∧ (false, some true) ∈ l.replies :=
  ⟨_, rfl, by decide, rfl, rfl, by decide, by decide⟩

end ProgPowMiner.Stratum
